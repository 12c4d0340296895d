import Comptime.Expr.Text
import Comptime.Proofs.Operator.Signal

/-! Which expressions have a text: those without an integer among their nodes that is too long for
the host. -/
namespace Comptime.Expr

def children : Expr → List Expr
  | .unary _ _ arg => [arg]
  | .binary _ lhs _ rhs => [lhs, rhs]
  | .tuple _ _ items => items.filter (!·.isMissing)
  | .conditional _ test yes no => [test, yes, no]
  | .call _ _ fn args => fn :: args
  | _ => []

inductive Holds (n : Expr) : Expr → Prop where
  | itself : Holds n n
  | child {e c : Expr} (h : c ∈ e.children) (below : Holds n c) : Holds n e

/-- Some integer that stands for an expression is too long for the host. -/
def IsUnwritable (limit : Option Nat) (e : Expr) : Prop :=
  ∃ id n, Holds (.foreign id (.integer n)) e ∧ (Value.int n).IsUnwritable limit

variable {limit : Option Nat} {ds : Declarations} {e : Expr}

theorem itemTexts?_eq_none_iff {items : List Expr} :
    itemTexts? limit ds items = none ↔
      ∃ e ∈ items.filter (!·.isMissing), e.text? limit ds = none := by
  induction items with
  | nil => simp [itemTexts?]
  | cons e rest ih =>
    cases present : e.isMissing with
    | true => cases more : itemTexts? limit ds rest <;> simp_all [itemTexts?]
    | false =>
      cases text : e.text? limit ds with
      | none => simp [itemTexts?, present, text]
      | some a => cases more : itemTexts? limit ds rest <;> simp_all [itemTexts?]

theorem argTexts?_eq_none_iff {args : List Expr} :
    argTexts? limit ds args = none ↔ ∃ e ∈ args, e.text? limit ds = none := by
  induction args with
  | nil => simp [argTexts?]
  | cons e rest ih =>
    cases text : e.text? limit ds with
    | none => simp [argTexts?, text]
    | some a => cases more : argTexts? limit ds rest <;> simp_all [argTexts?]

theorem text?_eq_none_step :
    e.text? limit ds = none ↔ (∃ c ∈ e.children, c.text? limit ds = none) ∨
      ∃ id n, e = .foreign id (.integer n) ∧ (Value.int n).IsUnwritable limit := by
  cases e with
  | missing | literal | lookup => simp [text?, children]
  | unary id op arg => cases first : arg.text? limit ds <;> simp [text?, children, first]
  | binary id lhs op rhs =>
    cases first : lhs.text? limit ds with
    | none => simp [text?, children, first]
    | some => cases second : rhs.text? limit ds <;> simp [text?, children, first, second]
  | tuple id b items =>
    simp only [children, ← itemTexts?_eq_none_iff]
    cases inner : itemTexts? limit ds items <;> simp [text?, inner]
  | conditional id test yes no =>
    cases first : test.text? limit ds with
    | none => simp [text?, children, first]
    | some =>
      cases second : yes.text? limit ds with
      | none => simp [text?, children, first, second]
      | some => cases third : no.text? limit ds <;> simp [text?, children, first, second, third]
  | call id kind fn args =>
    cases first : fn.text? limit ds with
    | none => simp [text?, children, first]
    | some =>
      simp only [children, ← argTexts?_eq_none_iff]
      cases inner : argTexts? limit ds args <;> simp [text?, argTexts?, first, inner]
  | foreign id it =>
    cases it <;> simp [text?, Foreign.text?, children, integerText?_eq_none_iff, and_assoc]

theorem sizeOf_lt_of_mem_children {c : Expr} (h : c ∈ e.children) : sizeOf c < sizeOf e := by
  cases e with
  | missing | literal | lookup | foreign => simp [children] at h
  | unary | binary | conditional =>
    simp only [children, List.mem_cons, List.not_mem_nil, or_false] at h
    simp only [unary.sizeOf_spec, binary.sizeOf_spec, conditional.sizeOf_spec]
    rcases h with rfl | rfl | rfl <;> omega
  | tuple id b items =>
    have := List.sizeOf_lt_of_mem (List.mem_filter.mp h).1
    simp only [tuple.sizeOf_spec]
    omega
  | call id kind fn args =>
    simp only [call.sizeOf_spec]
    rcases List.mem_cons.mp h with rfl | h
    · omega
    · have := List.sizeOf_lt_of_mem h
      omega

/-- An expression has a text unless it holds an integer that is too long for the host. -/
theorem text?_eq_none_iff (limit : Option Nat) (ds : Declarations) (e : Expr) :
    e.text? limit ds = none ↔ e.IsUnwritable limit := by
  constructor
  · intro h
    rcases text?_eq_none_step.mp h with ⟨c, below, h⟩ | ⟨id, n, rfl, long⟩
    · obtain ⟨id, n, holds, long⟩ := (text?_eq_none_iff limit ds c).mp h
      exact ⟨id, n, .child below holds, long⟩
    · exact ⟨id, n, .itself, long⟩
  · rintro ⟨id, n, holds, long⟩
    induction holds with
    | itself => exact text?_eq_none_step.mpr (.inr ⟨id, n, rfl, long⟩)
    | child h _ ih => exact text?_eq_none_step.mpr (.inl ⟨_, h, ih⟩)
termination_by sizeOf e
decreasing_by exact sizeOf_lt_of_mem_children below

end Comptime.Expr
