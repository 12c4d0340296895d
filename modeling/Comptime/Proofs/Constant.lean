import Comptime.Proofs.Run

/-! The evaluation of a constant expression is finite and as deep as the limit allows at most. Each
of its frames is at an expression that has all its parts, so that it can only fail where a literal,
an operator or a condition does. -/
namespace Comptime

/-- Expressions that the evaluation knows nothing to do with. -/
def Expr.isStray (ds : Declarations) : Expr → Bool
  | .missing | .foreign .. => true
  | .lookup _ _ target => (target.initializer? ds).isNone
  | .call _ kind _ _ => kind != .typeConversion
  | _ => false

/-- Expressions whose evaluation takes a part that is not there. -/
def Expr.lacksPart : Expr → Bool
  | .tuple _ _ [] | .call _ .typeConversion _ [] => true
  | _ => false

namespace Expr.HasConstantShape

variable {ds : Declarations} {e : Expr}

theorem isStray_eq (h : e.HasConstantShape ds) : e.isStray ds = false := by
  cases e with
  | missing | foreign => exact h.elim
  | lookup id name target =>
    obtain ⟨i, d, rfl, hd, -, present⟩ := h
    simp [isStray, Target.initializer?_variable hd present]
  | call id kind fn args => simp [isStray, h.1]
  | _ => rfl

theorem lacksPart_eq (h : e.HasConstantShape ds) : e.lacksPart = false := by
  cases e with
  | tuple id b items =>
    obtain ⟨-, item, rfl, -⟩ := h
    rfl
  | call id kind fn args =>
    obtain ⟨rfl, nonempty⟩ := h
    cases args with
    | nil => exact absurd rfl nonempty
    | cons => rfl
  | _ => rfl

end Expr.HasConstantShape

/-- The failures of an expression's own, once its parts have the given values. -/
inductive Raises (lim : Limits) (p : Precision) : Expr → List Value → Failure → Prop where
  | literal {id : Nat} {l : Literal} {s : Stop} (h : l.value p = .error s) :
      Raises lim p (.literal id l) [] (.ofStop lim s)
  | unary {id : Nat} {op : Token} {arg : Expr} {v : Value} {f : Fault}
      (h : evalUnary op.text v = .error f) : Raises lim p (.unary id op arg) [v] (.ofFault lim f)
  | binary {id : Nat} {lhs rhs : Expr} {op : Token} {a b : Value} {s : Stop}
      (h : evalBinary p op.text a b =
        .error s) : Raises lim p (.binary id lhs op rhs) [a, b] (.ofStop lim s)
  | condition {id : Nat} {test yes no : Expr} {v : Value} (h : ∀ b, v ≠ .bool b) :
      Raises lim p (.conditional id test yes no) [v] (.ofFault lim (.conditionNotBoolean v))

namespace Plan

variable {V F : Type}

/-- A plan is carried out with the given values of what it asks for. -/
def Ends : Plan V F → List V → Except F V → Prop
  | .finish o, vs, o' => vs = [] ∧ o' = o
  | .ask _ next, vs, o => ∃ v ws, vs = v :: ws ∧ (next v).Ends ws o

@[simp] theorem not_ends_pass {e : Expr} {vs : List V} {f : F} :
    ¬(pass e : Plan V F).Ends vs (.error f) := by
  simp [pass, Ends]

end Plan

theorem mapError_eq_error {E F V : Type} {g : E → F} {x : Except E V} {f : F} :
    x.mapError g = .error f ↔ ∃ s, x = .error s ∧ g s = f := by
  cases x <;> simp [Except.mapError]

theorem conditionOf_eq_error {lim : Limits} {v : Value} {f : Failure} :
    conditionOf lim v = .error f ↔
      (∀ b, v ≠ .bool b) ∧ f = .ofFault lim (.conditionNotBoolean v) := by
  cases v <;> simp [conditionOf, eq_comm]

theorem Raises.of_ends {lim : Limits} {ds : Declarations} {p : Precision} {e : Expr}
    {vs : List Value} {f : Failure} (shape : e.HasConstantShape ds)
    (h : (Plan.ofExpr (evaluation lim ds p) ds e).Ends vs (.error f)) :
    Raises lim p e vs f := by
  cases e with
  | missing | foreign => exact shape.elim
  | literal id l =>
    obtain ⟨rfl, hf⟩ := h
    obtain ⟨s, hs, rfl⟩ := mapError_eq_error.mp hf.symm
    exact .literal hs
  | unary id op arg =>
    obtain ⟨v, _, rfl, rfl, hf⟩ := h
    obtain ⟨s, hs, rfl⟩ := mapError_eq_error.mp hf.symm
    exact .unary hs
  | binary id lhs op rhs =>
    obtain ⟨a, _, rfl, b, _, rfl, rfl, hf⟩ := h
    obtain ⟨s, hs, rfl⟩ := mapError_eq_error.mp hf.symm
    exact .binary hs
  | conditional id test yes no =>
    obtain ⟨v, vs, rfl, h⟩ := h
    cases hb : (evaluation lim ds p).condition v with
    | ok b => simp [hb] at h
    | error g =>
      simp only [hb] at h
      obtain ⟨rfl, hf⟩ := h
      obtain ⟨hv, rfl⟩ := conditionOf_eq_error.mp hb
      cases hf
      exact .condition hv
  | tuple id b items =>
    obtain ⟨-, item, rfl, -⟩ := shape
    exact absurd h Plan.not_ends_pass
  | lookup id name target =>
    obtain ⟨i, d, rfl, hd, -, present⟩ := shape
    simp [Plan.ofExpr, Target.initializer?_variable hd present] at h
  | call id kind fn args =>
    obtain ⟨rfl, nonempty⟩ := shape
    cases args with
    | nil => exact absurd rfl nonempty
    | cons arg rest => exact absurd h Plan.not_ends_pass

theorem Failure.blaming_blaming (f : Failure) {node : Expr} (h : node.isMissing = false)
    (outer : Expr) :
    (f.blaming node).blaming outer = f.blaming node := by
  cases f with
  | error e =>
    have : (e.blaming node).isBlaming = true := by
      unfold EvalError.blaming
      split_ifs with hb
      · exact hb
      · simp [EvalError.isBlaming, h]
    simp only [blaming, EvalError.blaming_of_isBlaming this]
  | _ => rfl

namespace Run

variable {V F : Type} {m : Meaning V F} {lim : Limits} {ds : Declarations} {p : Precision}
    {plan : Plan V F}

/-- A frame fails with its last run, those before it having passed, or else it ends with the values
of all its runs. -/
theorem Serves.ends {rs : List (Run V F)} {o : Except F V} (h : Serves rs plan o) :
    (∃ f passed r, o = .error f ∧ rs = passed ++ [r] ∧ r.outcome = .error f ∧
      ∀ s ∈ passed, ∃ v, s.outcome = .ok v) ∨
      ∃ vs, rs.map outcome = vs.map .ok ∧ plan.Ends vs o := by
  induction h with
  | finished o => exact .inr ⟨[], rfl, rfl, rfl⟩
  | @passed r v rs next o value rest ih =>
    rcases ih with ⟨f, passed, s, rfl, rfl, hf, hp⟩ | ⟨vs, values, ends⟩
    · exact .inl ⟨f, r :: passed, s, rfl, rfl, hf, by simpa [value] using hp⟩
    · exact .inr ⟨v :: vs, by simp [value, values], v, vs, rfl, ends⟩
  | @failed r f next failure => exact .inl ⟨f, [], r, rfl, rfl, failure, by simp⟩

theorem passed_of_values {rs : List (Run V F)} {vs : List V}
    (values : rs.map outcome = vs.map .ok) :
    ∀ r ∈ rs, ∃ v, r.outcome = .ok v := by
  intro r hr
  have hv : r.outcome ∈ vs.map Except.ok := values ▸ List.mem_map_of_mem hr
  obtain ⟨v, -, value⟩ := List.mem_map.mp hv
  exact ⟨v, value.symm⟩

theorem IsRun.passed {r : Run V F} (hr : r.IsRun m ds) (h : ∃ v, r.outcome = .ok v) :
    ∀ s ∈ r.postorder, ∃ v, outcome s = .ok v := by
  induction hr with
  | @frame e rs o serves runs ih =>
    have parts (r : Run V F) (hr : r ∈ rs) : ∃ v, r.outcome = .ok v := by
      cases hf : r.outcome with
      | ok v => exact ⟨v, rfl⟩
      | error f =>
        obtain ⟨v, hv⟩ := h
        obtain rfl := serves.failure hr hf
        cases hv
    intro s hs
    rw [Tree.postorder_node, List.mem_append, List.mem_flatMap, List.mem_singleton] at hs
    rcases hs with ⟨r, hr, hs⟩ | rfl
    · exact ih r hr (parts r hr) s hs
    · exact h

/-- The first run to be completed with a failure is that of an expression that fails by itself and
is blamed. Those completed later fail just as it does. -/
theorem IsRun.first_failure {r : Run Value Failure} (hr : r.IsRun (evaluation lim ds p) ds)
    (shape : ∀ k s, r.Contains k s → s.root.expr.HasConstantShape ds) {f : Failure}
    (h : r.outcome = .error f) :
    ∃ before s after, r.postorder = before ++ s :: after ∧ (∀ t ∈ before, ∃ v, outcome t = .ok v) ∧
      (∀ t ∈ s :: after, outcome t = .error f) ∧
      ∃ k vs g, r.Contains k s ∧ s.parts.map outcome = vs.map .ok ∧ Raises lim p s.root.expr vs g ∧
        f = g.blaming s.root.expr := by
  induction hr generalizing f with
  | @frame e rs o serves runs ih =>
    obtain ⟨g, rfl, rfl⟩ := mapError_eq_error.mp h
    rcases serves.ends with ⟨g, passed, s, hg, rfl, hf, hp⟩ | ⟨vs, values, ends⟩
    · cases hg
      have hs : s ∈ passed ++ [s] := by simp
      obtain ⟨before, t, after, order, first, last, k, vs, g, ht, values, raises, rfl⟩ :=
        ih s hs (fun k t ht => shape _ _ (.part hs ht)) hf
      -- The error blames a node already, so that this frame leaves it as it is.
      have kept : (evaluation lim ds p).blaming e (g.blaming t.root.expr) = g.blaming t.root.expr :=
        Failure.blaming_blaming g (shape _ _ (.part hs ht)).present e
      rw [kept]
      refine ⟨passed.flatMap Tree.postorder ++ before, t,
        after ++ [.node ⟨e, .error ((evaluation lim ds p).blaming e (g.blaming t.root.expr))⟩
          (passed ++ [s])],
        ?_, ?_, ?_, k + 1, vs, g, .part hs ht, values, raises, rfl⟩
      · simp [Tree.postorder_node, order, Except.mapError]
      · intro u hu
        rcases List.mem_append.mp hu with hu | hu
        · obtain ⟨q, hq, hu⟩ := List.mem_flatMap.mp hu
          exact (runs q (by simp [hq])).passed (hp q hq) u hu
        · exact first u hu
      · intro u hu
        rw [← List.cons_append, List.mem_append, List.mem_singleton] at hu
        rcases hu with hu | rfl
        · exact last u hu
        · exact congrArg Except.error kept
    · refine ⟨rs.flatMap Tree.postorder, _, [], Tree.postorder_node .., ?_, by simpa using h,
        0, vs, g, .itself _, values, .of_ends (shape 0 _ (.itself _)) ends, rfl⟩
      intro u hu
      obtain ⟨q, hq, hu⟩ := List.mem_flatMap.mp hu
      exact (runs q hq).passed (passed_of_values values q hq) u hu

theorem IsRun.exists_raises {r : Run Value Failure} (hr : r.IsRun (evaluation lim ds p) ds)
    (shape : ∀ k s, r.Contains k s → s.root.expr.HasConstantShape ds) {f : Failure}
    (h : r.outcome = .error f) :
    ∃ k s, r.Contains k s ∧ ∃ vs g, s.parts.map outcome = vs.map .ok ∧
    Raises lim p s.root.expr vs g ∧
      f = g.blaming s.root.expr := by
  obtain ⟨-, s, -, -, -, -, k, vs, g, hs, values, raises, hf⟩ := hr.first_failure shape h
  exact ⟨k, s, hs, vs, g, values, raises, hf⟩

theorem exists_of_isConstant (m : Meaning V F) {limit : Int} {e : Expr}
    (h : isConstant ds limit e = true) :
    ∃ r : Run V F, r.IsRun m ds ∧ r.expr = e ∧
      ∀ k s, r.Contains k s → (k : Int) ≤ limit ∧ s.root.expr.HasConstantShape ds := by
  obtain ⟨t, rfl, unfold, nodes⟩ := (isConstant_iff_unfolds ds limit e).mp h
  obtain ⟨r, hr, root, within⟩ := exists_run (m := m) unfold
  refine ⟨r, hr, root, fun k s hs => ?_⟩
  obtain ⟨u, hu, same⟩ := within k s hs
  simpa [same] using nodes k u hu

end Run

theorem Failure.blaming_ofFault_cases (lim : Limits) (g : Fault) (node : Expr) :
    (∃ t, (ofFault lim g).blaming node = .escape t) ∨
      ∃ err, (ofFault lim g).blaming node = .error err ∧ err.kind = .evaluation := by
  rw [ofFault]
  cases g.message? lim.digits with
  | none => exact .inl ⟨.text, rfl⟩
  | some message => exact .inr ⟨_, rfl, rfl⟩

theorem Raises.kind {lim : Limits} {p : Precision} {e : Expr} {vs : List Value} {f : Failure}
    (h : Raises lim p e vs f) (node : Expr) :
    (∃ s, f.blaming node = .escape s) ∨ ∃ err, f.blaming node = .error err ∧
    err.kind = .evaluation := by
  have stop (s : Stop) : (∃ t, (Failure.ofStop lim s).blaming node = .escape t) ∨
      ∃ err, (Failure.ofStop lim s).blaming node = .error err ∧ err.kind = .evaluation := by
    cases s with
    | fault g => exact Failure.blaming_ofFault_cases lim g node
    | escape t => exact .inl ⟨t, rfl⟩
  cases h with
  | literal | binary => exact stop _
  | unary | condition => exact Failure.blaming_ofFault_cases lim _ node

/-- The evaluation of a constant expression ends, no deeper than the limit allows. It meets nothing
missing and nothing that it knows no rule for, and when it fails, an expression that it evaluates
has failed by itself, which never is because something is not constant. -/
theorem evaluation_of_constant (lim : Limits) (ds : Declarations) (p : Precision) (limit : Int)
    (e : Expr) (h : isConstant ds limit e = true) :
    ∃ r : Run Value Failure, r.IsRun (evaluation lim ds p) ds ∧ r.expr = e ∧
      (∀ s : Run Value Failure, s.IsRun (evaluation lim ds p) ds → s.expr = e → s = r) ∧
      evaluate lim ds p e = r.outcome ∧ (r.height : Int) ≤ limit + 1 ∧
      (∀ k s, r.Contains k s → s.root.expr.isMissing = false ∧ s.root.expr.isStray ds = false ∧
        s.root.expr.lacksPart = false) ∧
      ∀ f, evaluate lim ds p e = .error f →
        ((∃ s, f = .escape s) ∨ ∃ err, f = .error err ∧ err.kind = .evaluation) ∧
        ∃ k s, r.Contains k s ∧ ∃ vs g, s.parts.map Run.outcome = vs.map .ok ∧
          Raises lim p s.root.expr vs g ∧ f = g.blaming s.root.expr := by
  obtain ⟨r, hr, rfl, frames⟩ := Run.exists_of_isConstant (evaluation lim ds p) h
  have outcome := hr.evaluate_eq
  refine ⟨r, hr, rfl, fun s hs root => hs.unique hr root, outcome, ?_,
    fun k s hs => ?_, fun f hf => ?_⟩
  · have height : r.height ≤ (limit + 1).toNat := Tree.height_le fun k s hs => by
      have := (frames k s hs).1
      omega
    have := (frames 0 r (.itself r)).1
    omega
  · have shape := (frames k s hs).2
    exact ⟨shape.present, shape.isStray_eq, shape.lacksPart_eq⟩
  · obtain ⟨k, s, hs, vs, g, values, raises, rfl⟩ :=
      hr.exists_raises (fun k s hs => (frames k s hs).2) (outcome.symm.trans hf)
    exact ⟨raises.kind _, k, s, hs, vs, g, values, raises, rfl⟩

/-- Two names of one constant, in a sum of depth two. -/
theorem evaluation_of_constant_sum :
    let host : Limits := ⟨some 4300, fun _ => true⟩
    let ds : Declarations := #[{ name := ⟨"a", 0⟩, init := .number 0 "1.5" 0 none }]
    let a : Expr := .lookup 1 ⟨"a", 0⟩ (.variable 0)
    isConstant ds 2 (.binary 2 a ⟨"+", 0⟩ a) = true ∧
      ∃ r : Run Value Failure, r.IsRun (evaluation host ds .standard) ds ∧
        (r.height : Int) ≤ 3 := by
  intro host ds a
  have h : isConstant ds 2 (.binary 2 a ⟨"+", 0⟩ a) = true := by decide
  obtain ⟨r, hr, -, -, -, height, -⟩ := evaluation_of_constant host ds .standard 2 _ h
  exact ⟨h, r, hr, height⟩

end Comptime
