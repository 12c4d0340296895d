import Comptime.Proofs.Folding

/-! What a declaration owes to those that its initializer names. The initializer alone, with no name
followed, and the constancy of each of these within what is left of the limit below its name, decide
whether it is constant. Once they have been folded, only the depth can keep it from that. -/
namespace Comptime

namespace Tree

def Within {α : Type} (limit : Int) (t : Tree α) : Prop := ∀ k s, t.Contains k s → (k : Int) ≤ limit

def Names (t : Tree Expr) (k j : Nat) : Prop :=
  ∃ s id name, t.Contains k s ∧ s.root = .lookup id name (.variable j)

theorem isConstant_shift {ds : Declarations} {limit depth : Int} {t : Tree Expr} :
    t.IsConstant ds limit depth ↔ t.IsConstant ds (limit - depth) 0 := by
  have deep (k : Nat) : depth + k ≤ limit ↔ 0 + (k : Int) ≤ limit - depth := by omega
  exact ⟨fun h => ⟨h.unfolding, fun k s hs => (h.nodes k s hs).imp_left (deep k).mp⟩,
    fun h => ⟨h.unfolding, fun k s hs => (h.nodes k s hs).imp_left (deep k).mpr⟩⟩

end Tree

namespace Expr

variable {ds : Declarations} {limit depth : Int} {e n : Expr} {own : Tree Expr}

theorem mem_parts_iff : n ∈ e.parts ds ↔
    n ∈ e.parts #[] ∨ ∃ id name j d, e = .lookup id name (.variable j) ∧
    ds[j]? = some d ∧ n = d.init := by
  cases e with
  | lookup id name target =>
    rcases target with j | _ | _
    · cases hj : ds[j]? <;> simp [parts, hj, eq_comm]
    · simp [parts]
    · simp [parts]
  | call id kind fn args => cases kind <;> simp [parts]
  | _ => simp [parts]

theorem unfolds_iff_isConstant : e.Unfolds ds limit depth ↔
    isConstant ds (limit - depth) e = true := by
  rw [isConstant_iff_unfolds]
  exact exists_congr fun t => and_congr_right fun _ => Tree.isConstant_shift

theorem unfolds_iff_own (unfold : own.IsUnfolding #[]) : own.root.Unfolds ds limit depth ↔
    ∀ k s, own.Contains k s → depth + k ≤ limit ∧ s.root.HasConstantShape ds ∧
      ∀ id name j d, s.root = .lookup id name (.variable j) → ds[j]? = some d →
        d.init.Unfolds ds limit (depth + k + 1) := by
  induction unfold generalizing depth with
  | @node e ts roots unfold ih =>
    constructor
    · rintro ⟨⟨e', full⟩, rfl, constant⟩
      obtain ⟨deep, shape, roots', constant⟩ := Tree.isConstant_node_iff.mp constant
      have below {n : Expr} (hn : n ∈ e'.parts ds) : n.Unfolds ds limit (depth + 1) := by
        rw [← roots'] at hn
        obtain ⟨t, ht, rfl⟩ := List.mem_map.mp hn
        exact ⟨t, rfl, constant t ht⟩
      intro k s hs
      refine Tree.contains_node (P := fun k s => depth + k ≤ limit ∧ s.root.HasConstantShape ds ∧
        ∀ id name j d, s.root = .lookup id name (.variable j) → ds[j]? = some d →
          d.init.Unfolds ds limit (depth + k + 1)) ?_ (fun t ht k s hs => ?_) hs
      · refine ⟨by simpa using deep, shape, fun id name j d he hd => ?_⟩
        simpa using below (mem_parts_iff.mpr (.inr ⟨id, name, j, d, he, hd, rfl⟩))
      · have part : t.root ∈ e'.parts #[] := roots ▸ List.mem_map_of_mem ht
        have shift : depth + ((k + 1 : Nat) : Int) = depth + 1 + k := by push_cast; ring
        rw [shift]
        exact (ih t ht).mp (below (mem_parts_iff.mpr (.inl part))) k s hs
    · intro nodes
      obtain ⟨deep, shape, named⟩ := nodes 0 _ (.itself _)
      refine unfolds_of_parts (by simpa using deep) shape fun n hn => ?_
      rcases mem_parts_iff.mp hn with part | ⟨id, name, j, d, he, hd, rfl⟩
      · obtain ⟨t, ht, rfl⟩ : ∃ t ∈ ts, t.root = n := List.mem_map.mp (by rw [roots]; exact part)
        refine (ih t ht).mpr fun k s hs => ?_
        have shift : depth + 1 + (k : Int) = depth + ((k + 1 : Nat) : Int) := by push_cast; ring
        rw [shift]
        exact nodes (k + 1) s (.part ht hs)
      · simpa using named id name j d he hd

end Expr

/-- An expression is constant within a limit if and only if its own nodes are of constant shape and
within it, and each initializer that it names is constant within what is left of it below the
name. -/
theorem isConstant_iff_own {ds : Declarations} {limit : Int} {own : Tree Expr}
    (unfold : own.IsUnfolding #[]) : isConstant ds limit own.root = true ↔
      ∀ k s, own.Contains k s → (k : Int) ≤ limit ∧ s.root.HasConstantShape ds ∧
        ∀ id name j d, s.root = .lookup id name (.variable j) → ds[j]? = some d →
          isConstant ds (limit - (k + 1)) d.init = true := by
  rw [isConstant_iff_unfolds, Expr.unfolds_iff_own unfold]
  simp only [Expr.unfolds_iff_isConstant, zero_add]

theorem exists_unfolding_of_own {ds : Declarations} {limit : Int} {own : Tree Expr}
    (unfold : own.IsUnfolding #[]) (shapes : ∀ k s, own.Contains k s → s.root.HasConstantShape ds)
    (named : ∀ k j d, own.Names k j → ds[j]? = some d → isConstant ds limit d.init = true) :
    ∃ full : Tree Expr, full.root = own.root ∧ full.IsUnfolding ds ∧
      ∀ k s, full.Contains k s → s.root.HasConstantShape ds := by
  -- A limit that no way down through the expression and one name exceeds.
  have constant : isConstant ds (own.height + max limit 0) own.root = true := by
    refine (isConstant_iff_own unfold).mpr fun k s hs =>
      ⟨?_, shapes k s hs, fun id name j d he hd => ?_⟩
    · have := hs.lt_height; omega
    · obtain ⟨-, -, -, mono⟩ := isConstant_exact ds limit d.init
      have less : limit ≤ own.height + max limit 0 - (k + 1) := by have := hs.lt_height; omega
      exact mono less (named k j d ⟨s, id, name, hs, he⟩ hd)
  obtain ⟨full, root, unfold, nodes⟩ := (isConstant_exact ds _ own.root).1.mp constant
  exact ⟨full, root, unfold, fun k s hs => (nodes k s hs).2⟩

theorem within_iff_isConstant {ds : Declarations} {limit : Int} {full : Tree Expr}
    (unfold : full.IsUnfolding ds)
    (shapes : ∀ k s, full.Contains k s → s.root.HasConstantShape ds) :
    full.Within limit ↔ isConstant ds limit full.root = true := by
  rw [(isConstant_exact ds limit full.root).1]
  constructor
  · intro h
    exact ⟨full, rfl, unfold, fun k s hs => ⟨h k s hs, shapes k s hs⟩⟩
  · rintro ⟨t, root, unfold', nodes⟩
    obtain rfl := unfold.unique unfold' root.symm
    exact fun k s hs => (nodes k s hs).1

/-- A declaration has been told of with an error in one of the issues. -/
def Told (ds : Declarations) (index : SourceIndex) (r : Report) (d : Declaration) (e : EvalError) :
    Prop :=
  ∃ issue ∈ r.issues, describe ds index (d, e) = .ok issue

namespace Folding

/-- What has come of a constant with an initializer. -/
inductive Settled (lim : Limits) (ds : Declarations) (p : Precision) (index : SourceIndex)
    (r : Report) (d : Declaration) : Prop where
  | folded (constant : isConstant ds maxDepth d.init = true) (v : Value)
      (value : evaluateConstant lim ds p d.init = .ok v)
  | failed (constant : isConstant ds maxDepth d.init = true) (e : EvalError)
      (error : evaluateConstant lim ds p d.init = .error (.error e)) (told : Told ds index r d e)
  | refused (refused : isConstant ds maxDepth d.init = false)
      (told : ∀ message, Told ds index r d ⟨.nonConstant, message, d.init⟩)

variable {lim : Limits} {ds : Declarations} {p : Precision} {index : SourceIndex} {i : Nat}
    {d : Declaration}
  {s s' : Folding}

theorem Settled.mono {r r' : Report} (h : Settled lim ds p index r d)
    (more : r.issues ⊆ r'.issues) :
    Settled lim ds p index r' d := by
  have still {e : EvalError} (told : Told ds index r d e) : Told ds index r' d e := by
    obtain ⟨issue, known, described⟩ := told
    exact ⟨issue, more known, described⟩
  cases h with
  | folded constant v value => exact .folded constant v value
  | failed constant e error told => exact .failed constant e error (still told)
  | refused refused told => exact .refused refused fun message => still (told message)

theorem telling_eq_ok {e : EvalError} (h : s.telling ds index (d, e) = (.ok (), s')) :
    s'.values = s.values ∧ s.report.issues ⊆ s'.report.issues ∧ Told ds index s'.report d e := by
  unfold telling at h
  cases described : describe ds index (d, e) with
  | error f => simp [described] at h
  | ok issue =>
    simp only [described, reported_add] at h
    obtain rfl := (Prod.mk.inj h).2
    exact ⟨rfl, List.subset_append_left _ _, issue, by simp [adding, Report.adding], described⟩

theorem step_eq_ok (h : s.step lim ds p index i = (.ok (), s')) :
    s'.values = (foldedValue? lim ds p i).elim s.values (setValue i · s.values) ∧
    s.report.issues ⊆ s'.report.issues ∧
    ∀ d, foldable? ds i = some d → Settled lim ds p index s'.report d := by
  have evaluated {d : Declaration} (constant : isConstant ds maxDepth d.init = true) :
      evaluateConstant lim ds p d.init = evaluate lim ds p d.init := if_pos constant
  cases steps_step lim ds p index i s with
  | skips hd step =>
    obtain rfl : s = s' := (Prod.mk.inj (step.symm.trans h)).2
    exact ⟨by simp [foldedValue?, hd], List.Subset.refl _, fun d hd' => by simp [hd] at hd'⟩
  | refuses d hd refused step =>
    obtain ⟨values, more, told⟩ :=
      telling_eq_ok ((step ⟨.nonConstant, "", d.init⟩ rfl rfl).symm.trans h)
    refine ⟨by simp [foldedValue?, hd, evaluateConstant, refused, Except.toOption, values],
      more, fun d' hd' => ?_⟩
    cases hd.symm.trans hd'
    exact .refused refused fun _ => told
  | folds d v told hd constant value writable step =>
    obtain rfl := (Prod.mk.inj (step.symm.trans h)).2
    rw [← evaluated constant] at value
    refine ⟨by simp [foldedValue?, hd, value, Except.toOption],
      List.Subset.refl _, fun d' hd' => ?_⟩
    cases hd.symm.trans hd'
    exact .folded constant v value
  | tells d e hd constant error step =>
    rw [← evaluated constant] at error
    obtain ⟨values, more, told⟩ := telling_eq_ok (step.symm.trans h)
    refine ⟨by simp [foldedValue?, hd, error, Except.toOption, values], more, fun d' hd' => ?_⟩
    cases hd.symm.trans hd'
    exact .failed constant e error told
  | unwritten d v hd constant value long step => cases (Prod.mk.inj (step.symm.trans h)).1
  | breaks d f hd constant failure other step => cases (Prod.mk.inj (step.symm.trans h)).1

theorem run_eq_ok {batch : List Nat} (h : run lim ds p index batch s = (.ok (), s')) :
    s'.values = valuesAfter lim ds p batch s.values ∧ s.report.issues ⊆ s'.report.issues ∧
    ∀ i ∈ batch, ∀ d, foldable? ds i = some d → Settled lim ds p index s'.report d := by
  induction batch generalizing s with
  | nil =>
    cases h
    exact ⟨rfl, List.Subset.refl _, by simp⟩
  | cons i rest ih =>
    rcases step : s.step lim ds p index i with ⟨_ | _, s₁⟩
    · simp only [run, step] at h
      cases h
    · simp only [run, step] at h
      obtain ⟨values, more, first⟩ := step_eq_ok step
      obtain ⟨values', more', others⟩ := ih h
      refine ⟨by rw [values', values, valuesAfter],
        List.Subset.trans more more', fun j hj d hd => ?_⟩
      rcases List.mem_cons.mp hj with rfl | hj
      · exact (first d hd).mono more'
      · exact others j hj d hd

end Folding

theorem isConstant_of_folded {lim : Limits} {ds : Declarations} {p : Precision}
    {index : SourceIndex}
    {batch : List Nat} {r : Report} {s : Folding} {i : Nat} {d : Declaration} {v : Value}
    (fold : foldConstants lim ds p index batch r = (.ok (), s)) (hd : ds[i]? = some d)
    (value : s.values.lookup i = some v) : isConstant ds maxDepth d.init = true := by
  obtain ⟨values, -⟩ := Folding.run_eq_ok fold
  rw [values] at value
  obtain ⟨-, d', hd', outcome⟩ := lookup_folded.mp value
  cases (foldable?_eq_some_iff.mp hd').1.symm.trans hd
  unfold evaluateConstant at outcome
  split_ifs at outcome with constant
  exact constant

/-- Folding of a constant whose initializer alone is of constant shapes and names only constants
that are folded with it. Followed into these, the initializer is a finite tree of constant shapes
still. If that is nested within the limit, the constant has its value or has been told of with an
error of its evaluation. If it is deeper, the constant has been told of as not constant. It is
within the limit if the initializer alone is and each initializer that it names is constant within
what is left below the name. -/
theorem foldConstants_composes (lim : Limits) (ds : Declarations) (p : Precision)
    (index : SourceIndex) (batch : List Nat) (r : Report) {s : Folding} {i : Nat} {d : Declaration}
    {own : Tree Expr} (fold : foldConstants lim ds p index batch r = (.ok (), s)) (hi : i ∈ batch)
    (hd : ds[i]? = some d) (constant : d.isConstant = true) (root : own.root = d.init)
    (alone : own.IsUnfolding #[]) (shapes : ∀ k t, own.Contains k t → t.root.HasConstantShape ds)
    (named : ∀ k j, own.Names k j → ∃ v, s.values.lookup j = some v) :
    ∃ full : Tree Expr, full.root = d.init ∧ full.IsUnfolding ds ∧
      (∀ k t, full.Contains k t → t.root.HasConstantShape ds) ∧
      (full.Within maxDepth →
        (∃ v, s.values.lookup i = some v ∧ evaluateConstant lim ds p d.init = .ok v) ∨
        ∃ e, e.kind = .evaluation ∧ evaluateConstant lim ds p d.init = .error (.error e) ∧
          Told ds index s.report d e) ∧
      (¬full.Within maxDepth → ∀ message,
        Told ds index s.report d ⟨.nonConstant, message, d.init⟩) ∧
      (full.Within maxDepth ↔ own.Within maxDepth ∧ ∀ k j e, own.Names k j → ds[j]? = some e →
        isConstant ds (maxDepth - (k + 1)) e.init = true) := by
  have foldable : foldable? ds i = some d :=
    foldable?_eq_some_iff.mpr ⟨hd, constant, root ▸ (shapes 0 own (.itself own)).present⟩
  have known (k j : Nat) (e : Declaration) (h : own.Names k j) (he : ds[j]? = some e) :
      isConstant ds maxDepth e.init = true := by
    obtain ⟨v, value⟩ := named k j h
    exact isConstant_of_folded fold he value
  obtain ⟨full, root', unfold, shapes'⟩ := exists_unfolding_of_own alone shapes known
  have within : full.Within maxDepth ↔ isConstant ds maxDepth d.init = true := by
    rw [within_iff_isConstant unfold shapes', root', root]
  obtain ⟨values, -, settled⟩ := Folding.run_eq_ok fold
  refine ⟨full, root'.trans root, unfold, shapes', fun h => ?_, fun h => ?_, ?_⟩
  · cases settled i hi d foldable with
    | folded _ v value =>
      refine .inl ⟨v, ?_, value⟩
      rw [values]
      exact lookup_folded.mpr ⟨hi, d, foldable, value⟩
    | failed constant e error told =>
      have evaluated := error
      rw [evaluateConstant, if_pos constant] at evaluated
      exact .inr ⟨e, (error_of_isConstant constant evaluated).1, error, told⟩
    | refused refused => cases refused.symm.trans (within.mp h)
  · cases settled i hi d foldable with
    | folded constant | failed constant => exact absurd (within.mpr constant) h
    | refused _ told => exact told
  · rw [within, ← root, isConstant_iff_own alone]
    constructor
    · intro nodes
      refine ⟨fun k t ht => (nodes k t ht).1, fun k j e names hj => ?_⟩
      obtain ⟨t, id, name, ht, he⟩ := names
      exact (nodes k t ht).2.2 id name j e he hj
    · rintro ⟨deep, inits⟩ k t ht
      exact ⟨deep k t ht, shapes k t ht,
        fun id name j e he hj => inits k j e ⟨t, id, name, ht, he⟩ hj⟩

def negated : Nat → Expr
  | 0 => .number 0 "1" 0 none
  | n + 1 => .unary (n + 1) ⟨"-", 0⟩ (negated n)

/-- A constant with so many minus signs, and one that names it. -/
def negatedChain (n : Nat) : Declarations :=
  #[{ name := ⟨"A", 0⟩, init := negated n },
    { name := ⟨"B", 0⟩, init := .lookup (n + 1) ⟨"A", 0⟩ (.variable 0) }]

def chainName (n : Nat) : Tree Expr := .node (.lookup (n + 1) ⟨"A", 0⟩ (.variable 0)) []

theorem chainName_contains {n k : Nat} {t : Tree Expr} (h : (chainName n).Contains k t) :
    k = 0 ∧ t = chainName n := by
  cases h with
  | itself => exact ⟨rfl, rfl⟩
  | part ht => cases ht

theorem chainName_names {n k j : Nat} (h : (chainName n).Names k j) : k = 0 ∧ j = 0 := by
  obtain ⟨t, id, text, ht, root⟩ := h
  obtain ⟨rfl, rfl⟩ := chainName_contains ht
  cases root
  exact ⟨rfl, rfl⟩

theorem chainName_within (n : Nat) : (chainName n).Within maxDepth := by
  intro k t ht
  obtain ⟨rfl, -⟩ := chainName_contains ht
  decide

theorem chainName_shapes {n k : Nat} {t : Tree Expr} (h : (chainName n).Contains k t)
    (present : (negated n).isMissing = false) : t.root.HasConstantShape (negatedChain n) := by
  obtain ⟨-, rfl⟩ := chainName_contains h
  exact ⟨0, _, rfl, rfl, rfl, present⟩

set_option maxRecDepth 2000 in
/-- A name of the deepest initializer that may be named. -/
theorem foldConstants_composes_deepest :
    let host : Limits := ⟨none, fun _ => true⟩
    ∃ s full, foldConstants host (negatedChain 149) .standard .initial [0, 1] {} = (.ok (), s) ∧
      s.values.lookup 1 = some (.int (-1)) ∧
      Tree.root full = (chainName 149).root ∧ full.IsUnfolding (negatedChain 149) ∧
        full.Within maxDepth := by
  intro host
  have first : (foldConstants host (negatedChain 149) .standard .initial [0, 1] {}).1 = .ok () :=
    rfl
  have values : (foldConstants host (negatedChain 149) .standard .initial [0, 1] {}).2.values =
      [(0, .int (-1)), (1, .int (-1))] := by decide +kernel
  have inner : isConstant (negatedChain 149) (maxDepth - 1) (negated 149) = true := by
    decide +kernel
  rcases fold : foldConstants host (negatedChain 149) .standard .initial [0, 1] {} with ⟨o, s⟩
  rw [fold] at first values
  obtain rfl : o = .ok () := first
  have zero : s.values.lookup 0 = some (.int (-1)) := by rw [values]; rfl
  have root : (chainName 149).root = (negatedChain 149)[1].init := rfl
  have alone : (chainName 149).IsUnfolding #[] := .node rfl (by simp)
  obtain ⟨full, root, unfold, -, -, -, within⟩ :=
    foldConstants_composes host (negatedChain 149) .standard .initial [0,
      1] {} fold (i := 1) (by decide)
      (d := (negatedChain 149)[1]) rfl rfl root alone (fun k t ht => chainName_shapes ht rfl)
      (fun k j h => by obtain ⟨-, rfl⟩ := chainName_names h; exact ⟨_, zero⟩)
  refine ⟨s, full, rfl, by rw [values]; rfl, root, unfold, within.mpr ⟨chainName_within 149, ?_⟩⟩
  intro k j e h he
  obtain ⟨rfl, rfl⟩ := chainName_names h
  cases he
  exact inner

set_option maxRecDepth 2000 in
/-- With one minus sign more, what the name refers to is folded, but the name is told of as not
constant, though it is not deep alone. -/
theorem name_of_folded_not_constant :
    let host : Limits := ⟨none, fun _ => true⟩
    ∃ s b, foldConstants host (negatedChain 150) .standard .initial [0, 1] {} = (.ok (), s) ∧
      (negatedChain 150)[1]? = some b ∧ b.isConstant = true ∧ (chainName 150).root = b.init ∧
      (chainName 150).IsUnfolding #[] ∧ (chainName 150).Within maxDepth ∧
      (∀ k t, (chainName 150).Contains k t → t.root.HasConstantShape (negatedChain 150)) ∧
      (∀ k j, (chainName 150).Names k j → ∃ v, s.values.lookup j = some v) ∧
      s.values.lookup 1 = none ∧
      ∀ message, Told (negatedChain 150) .initial s.report b ⟨.nonConstant, message, b.init⟩ := by
  intro host
  have first : (foldConstants host (negatedChain 150) .standard .initial [0, 1] {}).1 = .ok () :=
    rfl
  have values : (foldConstants host (negatedChain 150) .standard .initial [0, 1] {}).2.values =
      [(0, .int 1)] := by decide +kernel
  have deep : isConstant (negatedChain 150) maxDepth (chainName 150).root = false := by
    decide +kernel
  rcases fold : foldConstants host (negatedChain 150) .standard .initial [0, 1] {} with ⟨o, s⟩
  rw [fold] at first values
  obtain rfl : o = .ok () := first
  have zero : s.values.lookup 0 = some (.int 1) := by rw [values]; rfl
  refine ⟨s, (negatedChain 150)[1], rfl, rfl, rfl, rfl, .node rfl (by simp), chainName_within 150,
    fun k t ht => chainName_shapes ht rfl, fun k j h => ?_, by rw [values]; rfl, ?_⟩
  · obtain ⟨-, rfl⟩ := chainName_names h
    exact ⟨_, zero⟩
  · obtain ⟨-, -, settled⟩ := Folding.run_eq_ok fold
    cases settled 1 (by decide) (negatedChain 150)[1] rfl with
    | folded constant | failed constant => cases deep.symm.trans constant
    | refused _ told => exact told

end Comptime
