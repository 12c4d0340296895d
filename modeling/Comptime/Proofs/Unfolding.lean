import Comptime.Constancy
import Comptime.Proofs.Pending
import Mathlib

/-! An expression unfolds into a tree: below a name stands the initializer of its declaration. An
expression is constant if and only if its unfolding is finite, of bounded depth and of constant
shape at each node, so that neither the declarations that are pending nor their number matter. -/
namespace Comptime

namespace Expr

/-- The expressions that stand directly below one. A conversion looks at its first argument only. -/
def parts (ds : Declarations) : Expr → List Expr
  | .unary _ _ arg => [arg]
  | .binary _ lhs _ rhs => [lhs, rhs]
  | .tuple _ _ items => items
  | .conditional _ test yes no => [test, yes, no]
  | .lookup _ _ (.variable i) => (ds[i]?.map (·.init)).toList
  | .call _ .typeConversion _ args => args.take 1
  | _ => []

/-- The shapes that may be constant: literals, operators and conditionals with all their parts, one
expression in parentheses, names of constants with an initializer and conversions of something. -/
def HasConstantShape (ds : Declarations) : Expr → Prop
  | .literal .. => True
  | .unary _ _ arg => arg.isMissing = false
  | .binary _ lhs _ rhs => lhs.isMissing = false ∧ rhs.isMissing = false
  | .conditional _ test yes no =>
    test.isMissing = false ∧ yes.isMissing = false ∧ no.isMissing = false
  | .tuple _ b items => b.isArray = false ∧ ∃ item, items = [item] ∧ item.isMissing = false
  | .lookup _ _ target =>
    ∃ i d, target = .variable i ∧ ds[i]? = some d ∧ d.isConstant = true ∧ d.init.isMissing = false
  | .call _ kind _ args => kind = .typeConversion ∧ args ≠ []
  | .missing | .foreign .. => False

/-- Whether an expression at the given depth is constant, with nothing pending: only the depth
keeps circles from being followed without end. -/
def constantByDepth (ds : Declarations) (limit : Int) (depth : Int) (e : Expr) : Bool :=
  if depth ≤ limit then
    match e with
    | .literal .. => true
    | .unary _ _ arg => constantByDepth ds limit (depth + 1) arg
    | .binary _ lhs _ rhs =>
      constantByDepth ds limit (depth + 1) lhs && constantByDepth ds limit (depth + 1) rhs
    | .tuple _ b [item] => !b.isArray && constantByDepth ds limit (depth + 1) item
    | .conditional _ test yes no =>
      constantByDepth ds limit (depth + 1) test && constantByDepth ds limit (depth + 1) yes &&
        constantByDepth ds limit (depth + 1) no
    | .lookup _ _ (.variable i) =>
      match ds[i]? with
      | some d => d.isConstant && constantByDepth ds limit (depth + 1) d.init
      | none => false
    | .call _ .typeConversion _ (arg :: _) => constantByDepth ds limit (depth + 1) arg
    | _ => false
  else false
termination_by (limit + 1 - depth).toNat

end Expr

namespace Tree

/-- A tree is the full unfolding of the expression at its root. -/
inductive IsUnfolding (ds : Declarations) : Tree Expr → Prop where
  | node {e : Expr} {ts : List (Tree Expr)} (roots : ts.map root = e.parts ds)
      (unfold : ∀ t ∈ ts, IsUnfolding ds t) : IsUnfolding ds (.node e ts)

theorem IsUnfolding.unique {ds : Declarations} {t s : Tree Expr} (ht : t.IsUnfolding ds)
    (hs : s.IsUnfolding ds) (h : t.root = s.root) : t = s := by
  induction ht generalizing s with
  | @node e ts roots unfold ih =>
    obtain @⟨e', ss, roots', unfold'⟩ := hs
    obtain rfl : e = e' := h
    have same : ts = ss := by
      have map : ts.map root = ss.map root := roots.trans roots'.symm
      have length : ts.length = ss.length := by simpa using congrArg List.length map
      refine List.ext_getElem length fun i hi hj => ?_
      refine ih _ (List.getElem_mem hi) (unfold' _ (List.getElem_mem hj)) ?_
      have := List.getElem_of_eq map (by simpa using hi)
      simpa using this
    rw [same]

/-- A tree is a full unfolding with all its nodes of constant shape and none of them deeper than the
limit, where its root stands at the given depth. -/
structure IsConstant (ds : Declarations) (limit depth : Int) (t : Tree Expr) : Prop where
  unfolding : t.IsUnfolding ds
  nodes : ∀ k s, t.Contains k s → depth + k ≤ limit ∧ s.root.HasConstantShape ds

theorem isConstant_node_iff {ds : Declarations} {limit depth : Int} {e : Expr}
    {ts : List (Tree Expr)} :
    (node e ts).IsConstant ds limit depth ↔
      depth ≤ limit ∧ e.HasConstantShape ds ∧ ts.map root = e.parts ds ∧
        ∀ t ∈ ts, t.IsConstant ds limit (depth + 1) := by
  constructor
  · intro found
    obtain ⟨⟨roots, unfold⟩, nodes⟩ := found
    obtain ⟨deep, shape⟩ := nodes 0 _ (.itself _)
    refine ⟨by simpa using deep, shape, roots, fun t ht => ⟨unfold t ht, fun k s h => ?_⟩⟩
    obtain ⟨deep, shape⟩ := nodes (k + 1) s (.part ht h)
    exact ⟨by push_cast at deep; omega, shape⟩
  · intro found
    obtain ⟨deep, shape, roots, parts⟩ := found
    refine ⟨.node roots fun t ht => (parts t ht).unfolding, fun k s h => ?_⟩
    refine contains_node (P := fun k s => depth + k ≤ limit ∧ s.root.HasConstantShape ds)
      ⟨by simpa using deep, shape⟩ (fun t ht k s hs => ?_) h
    obtain ⟨deep, shape⟩ := (parts t ht).nodes k s hs
    exact ⟨by push_cast; omega, shape⟩

theorem isConstant_zero_iff {ds : Declarations} {limit : Int} {t : Tree Expr} :
    t.IsConstant ds limit 0 ↔
      t.IsUnfolding ds ∧ ∀ k s, t.Contains k s →
        (k : Int) ≤ limit ∧ s.root.HasConstantShape ds := by
  constructor
  · intro h
    exact ⟨h.unfolding, by simpa using h.nodes⟩
  · intro h
    exact ⟨h.1, by simpa using h.2⟩

end Tree

namespace Expr

variable {ds : Declarations} {limit depth : Int} {e : Expr}

theorem HasConstantShape.present (h : e.HasConstantShape ds) : e.isMissing = false := by
  cases e <;> first | rfl | exact h.elim

/-- An expression unfolds into a constant tree. -/
def Unfolds (ds : Declarations) (limit depth : Int) (e : Expr) : Prop :=
  ∃ t : Tree Expr, t.root = e ∧ t.IsConstant ds limit depth

theorem Unfolds.present (h : e.Unfolds ds limit depth) : e.isMissing = false := by
  obtain ⟨t, rfl, ht⟩ := h
  exact (ht.nodes 0 t (.itself t)).2.present

theorem unfolds_of_parts (deep : depth ≤ limit) (shape : e.HasConstantShape ds)
    (parts : ∀ n ∈ e.parts ds, n.Unfolds ds limit (depth + 1)) : e.Unfolds ds limit depth := by
  choose f root constant using parts
  refine ⟨.node e ((e.parts ds).attach.map fun n => f n.1 n.2), rfl,
    Tree.isConstant_node_iff.mpr ⟨deep, shape, ?_, ?_⟩⟩
  · rw [List.map_map]
    conv_rhs => rw [← List.attach_map_subtype_val (e.parts ds)]
    exact List.map_congr_left fun n _ => root n.1 n.2
  · intro t ht
    obtain ⟨n, -, rfl⟩ := List.mem_map.mp ht
    exact constant n.1 n.2

theorem unfolds_of_constantByDepth (h : e.constantByDepth ds limit depth = true) :
    e.Unfolds ds limit depth := by
  fun_induction constantByDepth ds limit depth e with
  | case1 depth deep => exact unfolds_of_parts deep trivial (by simp [parts])
  | case2 depth deep id op arg ih =>
    exact unfolds_of_parts deep (ih h).present (by simpa [parts] using ih h)
  | case3 depth deep id lhs op rhs left right =>
    obtain ⟨hl, hr⟩ := Bool.and_eq_true_iff.mp h
    exact unfolds_of_parts deep ⟨(left hl).present, (right hr).present⟩
      (by simpa [parts] using ⟨left hl, right hr⟩)
  | case4 depth deep id b item ih =>
    obtain ⟨hb, hi⟩ := Bool.and_eq_true_iff.mp h
    exact unfolds_of_parts deep ⟨by simpa using hb, item, rfl, (ih hi).present⟩
      (by simpa [parts] using ih hi)
  | case5 depth deep id test yes no first second third =>
    obtain ⟨hty, hn⟩ := Bool.and_eq_true_iff.mp h
    obtain ⟨ht, hy⟩ := Bool.and_eq_true_iff.mp hty
    exact unfolds_of_parts deep ⟨(first ht).present, (second hy).present, (third hn).present⟩
      (by simpa [parts] using ⟨first ht, second hy, third hn⟩)
  | case6 depth deep id name i d hd ih =>
    obtain ⟨hc, hi⟩ := Bool.and_eq_true_iff.mp h
    exact unfolds_of_parts deep ⟨i, d, rfl, hd, hc,
      (ih hi).present⟩ (by simpa [parts, hd] using ih hi)
  | case8 depth deep id fn arg rest ih =>
    exact unfolds_of_parts deep ⟨rfl, by simp⟩ (by simpa [parts] using ih h)
  | case7 | case9 | case10 => cases h

theorem constantUsing_of_isConstant {t : Tree Expr} (ht : t.IsConstant ds limit depth)
    {budget : Nat} {pending : List Nat} (around : Pending ds id (Tree.IsUnfolding ds) t pending)
    (enough : ds.size ≤ budget + pending.length) :
    t.root.constantUsing limit (constantInitializer ds limit budget pending) depth = true := by
  obtain ⟨unfold, -⟩ := id ht
  induction unfold generalizing depth budget pending with
  | @node e ts roots unfold ih =>
    obtain ⟨deep, shape, -, parts⟩ := Tree.isConstant_node_iff.mp ht
    have inner (n : Expr) (hn : n ∈ e.parts ds) :
        n.constantUsing limit (constantInitializer ds limit budget pending) (depth + 1) = true := by
      rw [← roots] at hn
      obtain ⟨t, ht, rfl⟩ := List.mem_map.mp hn
      exact ih t ht (parts t ht) (around.part ht) enough
    cases e with
    | missing | foreign => exact shape.elim
    | literal => simpa [Tree.root, constantUsing] using deep
    | unary id op arg =>
      simpa [Tree.root, constantUsing, deep] using inner arg (by simp [Expr.parts])
    | binary id lhs op rhs =>
      simpa [Tree.root, constantUsing, deep] using
        ⟨inner lhs (by simp [Expr.parts]), inner rhs (by simp [Expr.parts])⟩
    | tuple id b items =>
      obtain ⟨array, item, rfl, -⟩ := shape
      simpa [Tree.root, constantUsing, deep, array] using inner item (by simp [Expr.parts])
    | conditional id test yes no =>
      simpa [Tree.root, constantUsing, deep, and_assoc] using
        ⟨inner test (by simp [Expr.parts]), inner yes (by simp [Expr.parts]),
          inner no (by simp [Expr.parts])⟩
    | call id kind fn args =>
      obtain ⟨rfl, nonempty⟩ := shape
      obtain ⟨arg, rest, rfl⟩ := List.exists_cons_of_ne_nil nonempty
      simpa [Tree.root, constantUsing, deep] using inner arg (by simp [Expr.parts])
    | lookup id name target =>
      obtain ⟨i, d, rfl, hd, constant, -⟩ := shape
      obtain ⟨t, ht, root⟩ : ∃ t ∈ ts, t.root = d.init :=
        List.mem_map.mp (by rw [roots]; simp [Expr.parts, hd])
      have fresh := around.fresh ht (unfold t ht) hd root
      have entered := around.enter (fun _ _ ht hs h => ht.unique hs h) ht (unfold t ht) hd root
      obtain ⟨rest, rfl, covers⟩ := entered.budget enough
      have init := ih t ht (parts t ht) entered covers
      rw [root] at init
      simp [Tree.root, constantUsing, deep, constantInitializer, hd, constant, fresh, init]

theorem constantByDepth_of_constantUsing {follow : Nat → Int → Bool}
    (inits : ∀ i k, follow i k = true →
      ∃ d, ds[i]? = some d ∧ d.isConstant = true ∧ d.init.constantByDepth ds limit k = true)
    (h : e.constantUsing limit follow depth = true) : e.constantByDepth ds limit depth = true := by
  fun_induction constantUsing limit follow depth e with
  | case8 depth id name i =>
    obtain ⟨deep, hi⟩ := Bool.and_eq_true_iff.mp h
    obtain ⟨d, hd, constant, init⟩ := inits i _ hi
    unfold constantByDepth
    simpa [hd, constant, init] using deep
  | _ =>
    unfold constantByDepth
    simp_all

theorem constantByDepth_of_constantInitializer {budget : Nat} {pending : List Nat} {i : Nat}
    {k : Int} (h : constantInitializer ds limit budget pending i k = true) :
    ∃ d, ds[i]? = some d ∧ d.isConstant = true ∧ d.init.constantByDepth ds limit k = true := by
  induction budget generalizing pending i k with
  | zero => cases h
  | succ budget ih =>
    unfold constantInitializer at h
    split at h
    · cases h
    · rename_i d hd
      simp only [Bool.and_eq_true] at h
      exact ⟨d, hd, h.1.1, constantByDepth_of_constantUsing (fun i k hi => ih hi) h.2⟩

/-- The three ways to tell that an expression is constant, from outside any declaration. -/
theorem constant_tfae (ds : Declarations) (limit : Int) (e : Expr) (budget : Nat) :
    List.TFAE [e.constantUsing limit (constantInitializer ds limit (ds.size + budget) []) 0 = true,
      e.constantByDepth ds limit 0 = true, e.Unfolds ds limit 0] := by
  tfae_have 1 → 2 := constantByDepth_of_constantUsing fun i k =>
    constantByDepth_of_constantInitializer
  tfae_have 2 → 3 := unfolds_of_constantByDepth
  tfae_have 3 → 1 := by
    intro found
    obtain ⟨t, rfl, ht⟩ := found
    exact constantUsing_of_isConstant ht .nil (by simp)
  tfae_finish

end Expr

theorem isConstant_iff_unfolds (ds : Declarations) (limit : Int) (e : Expr) :
    isConstant ds limit e = true ↔ e.Unfolds ds limit 0 :=
  (Expr.constant_tfae ds limit e 0).out 0 2

/-- An expression is constant within a limit if and only if it has a finite unfolding with all nodes
within the limit and of constant shape. What is pending and the number of declarations do not
matter to the answer, and a higher limit only admits more. -/
theorem isConstant_exact (ds : Declarations) (limit : Int) (e : Expr) :
    (isConstant ds limit e = true ↔
      ∃ t : Tree Expr, t.root = e ∧ t.IsUnfolding ds ∧
        ∀ k s, t.Contains k s → (k : Int) ≤ limit ∧ s.root.HasConstantShape ds) ∧
    isConstant ds limit e = e.constantByDepth ds limit 0 ∧
    (∀ budget, e.constantUsing limit (constantInitializer ds limit (ds.size + budget) []) 0 =
      isConstant ds limit e) ∧
    Monotone fun limit => isConstant ds limit e := by
  have unfolds (limit : Int) : isConstant ds limit e = true ↔
      ∃ t : Tree Expr, t.root = e ∧ t.IsUnfolding ds ∧
        ∀ k s, t.Contains k s → (k : Int) ≤ limit ∧ s.root.HasConstantShape ds := by
    simp only [isConstant_iff_unfolds, Expr.Unfolds, Tree.isConstant_zero_iff]
  refine ⟨unfolds limit, ?_, fun budget => ?_, fun low high le h => ?_⟩
  · exact Bool.eq_iff_iff.mpr ((Expr.constant_tfae ds limit e 0).out 0 1)
  · exact Bool.eq_iff_iff.mpr (((Expr.constant_tfae ds limit e budget).out 0 2).trans
      (isConstant_iff_unfolds ds limit e).symm)
  · obtain ⟨t, root, unfold, nodes⟩ := (unfolds low).mp h
    exact (unfolds high).mpr ⟨t, root, unfold, fun k s hs =>
      ⟨(nodes k s hs).1.trans le, (nodes k s hs).2⟩⟩

end Comptime
