import Comptime.Proofs.Expr.Spots
import Comptime.Proofs.Source.History
import Comptime.Proofs.Unfolding
import Comptime.Report.Mark

/-! Where expressions stand. One with all its parts has a first and a last token among its own, so
that it can be marked, except when these two come from different sources. -/
namespace Comptime

namespace Expr

/-- Expressions that have all their parts, and spots of one kind only. -/
inductive IsBuilt (P : Int → Prop) : Expr → Prop where
  | literal {id : Nat} {l : Literal} (spot : P l.spot) : IsBuilt P (.literal id l)
  | unary {id : Nat} {op : Token} {arg : Expr} (spot : P op.spot) (operand : IsBuilt P arg) :
      IsBuilt P (.unary id op arg)
  | binary {id : Nat} {lhs rhs : Expr} {op : Token} (left : IsBuilt P lhs) (spot : P op.spot)
      (right : IsBuilt P rhs) : IsBuilt P (.binary id lhs op rhs)
  | tuple {id : Nat} {b : Brackets} {items : List Expr} (opening : P b.openSpot)
      (parts : ∀ e ∈ items, IsBuilt P e) (closing : P b.closeSpot) : IsBuilt P (.tuple id b items)
  | conditional {id : Nat} {test yes no : Expr} (condition : IsBuilt P test) (first : IsBuilt P yes)
      (second : IsBuilt P no) : IsBuilt P (.conditional id test yes no)
  | lookup {id : Nat} {name : Token} {target : Target} (spot : P name.spot) :
      IsBuilt P (.lookup id name target)
  | call {id : Nat} {kind : CallKind} {fn : Expr} {args : List Expr} (callee : IsBuilt P fn)
      (parts : ∀ e ∈ args, IsBuilt P e) : IsBuilt P (.call id kind fn args)

end Expr

def Declarations.AreBuilt (ds : Declarations) (P : Int → Prop) : Prop :=
  ∀ (i : Nat) (d : Declaration), ds[i]? = some d → d.init.isMissing = false → d.init.IsBuilt P

namespace Expr

namespace IsBuilt

variable {P : Int → Prop} {ds : Declarations} {e : Expr}

theorem whole (h : e.IsBuilt P) : e.IsWhole := by
  induction h with
  | literal => exact .literal _ _
  | unary _ _ operand => exact .unary _ _ operand
  | binary _ _ _ left right => exact .binary _ _ left right
  | tuple _ _ _ parts => exact .tuple _ _ fun n hn _ => parts n hn
  | conditional _ _ _ condition first second => exact .conditional _ condition first second
  | lookup => exact .lookup _ _ _
  | call _ _ callee parts => exact .call _ _ callee parts

theorem of_mem_spots (h : e.IsBuilt P) {i : Int} (hi : i ∈ e.spots) : P i := by
  induction h with
  | literal spot | lookup spot =>
    rw [spots, List.mem_singleton] at hi
    exact hi ▸ spot
  | unary spot _ operand =>
    rw [spots, List.mem_cons] at hi
    exact hi.elim (fun same => same ▸ spot) operand
  | binary _ spot _ left right =>
    rw [spots, List.mem_append, List.mem_cons] at hi
    exact hi.elim left fun hi => hi.elim (fun same => same ▸ spot) right
  | tuple opening _ closing parts =>
    rw [spots, List.mem_append, List.mem_cons, List.mem_flatMap, List.mem_singleton] at hi
    rcases hi with (rfl | ⟨n, hn, hi⟩) | rfl
    · exact opening
    · exact parts n hn hi
    · exact closing
  | conditional _ _ _ condition first second =>
    rw [spots, List.mem_append, List.mem_append] at hi
    exact hi.elim (fun hi => hi.elim condition first) second
  | call _ _ callee parts =>
    rw [spots, List.mem_append, List.mem_flatMap] at hi
    rcases hi with hi | ⟨n, hn, hi⟩
    · exact callee hi
    · exact parts n hn hi

theorem exists_span (h : e.IsBuilt P) (ds : Declarations) :
    ∃ first last, e.span ds = .ok (first, last) ∧ P first ∧ P last := by
  obtain ⟨first, last, span, head, tail⟩ := h.whole.span_eq ds
  exact ⟨first, last, span, h.of_mem_spots (List.mem_of_mem_head? head),
    h.of_mem_spots (List.mem_of_mem_getLast? tail)⟩

theorem part (inits : ds.AreBuilt P) (h : e.IsBuilt P) {n : Expr} (hn : n ∈ e.parts ds)
    (present : n.isMissing = false) : n.IsBuilt P := by
  cases h with
  | literal => simp [parts] at hn
  | unary _ operand =>
    obtain rfl := List.mem_singleton.mp hn
    exact operand
  | binary left _ right =>
    rcases List.mem_pair.mp hn with rfl | rfl
    · exact left
    · exact right
  | tuple _ items _ => exact items n hn
  | conditional condition first second =>
    simp only [parts, List.mem_cons, List.not_mem_nil, or_false] at hn
    rcases hn with rfl | rfl | rfl
    · exact condition
    · exact first
    · exact second
  | @lookup id name target =>
    rcases target with i | symbol | _
    · obtain ⟨d, hd, rfl⟩ : ∃ d, ds[i]? = some d ∧ d.init = n := by simpa [parts] using hn
      exact inits i d hd present
    all_goals simp [parts] at hn
  | @call id kind fn args _ items =>
    cases kind with
    | typeConversion => exact items n (List.mem_of_mem_take hn)
    | functionCall | structConstructorCall | other => simp [parts] at hn

end IsBuilt

/-- The first and the last token of an expression come from different sources. -/
def Straddles (ds : Declarations) (index : SourceIndex) (e : Expr) : Prop :=
  ∃ first last left right, e.span ds = .ok (first, last) ∧ index.lookupToken first = .ok left ∧
    index.lookupToken last = .ok right ∧ left.path ≠ right.path

end Expr

/-- The numbers of the tokens that are registered, the built-in one among them. -/
def SourceIndex.Knows (index : SourceIndex) (i : Int) : Prop := 0 ≤ i ∧ i < index.slices.length

instance (index : SourceIndex) (i : Int) : Decidable (index.Knows i) :=
  inferInstanceAs (Decidable (0 ≤ i ∧ i < index.slices.length))

theorem SourceIndex.IsOrdered.exists_lookup {index : SourceIndex} (h : index.IsOrdered) {i : Int}
    (known : index.Knows i) : ∃ span, index.lookupToken i = .ok span := by
  obtain ⟨n, rfl⟩ := Int.eq_ofNat_of_zero_le known.1
  obtain ⟨g, -, found⟩ := h.lookupToken (n := n) (by have := known.2; omega)
  exact ⟨_, found⟩

/-- What has a first and a last token can be marked if these come from one source. -/
theorem Mark.ofExpr_of_isBuilt {ds : Declarations} {index : SourceIndex} {e : Expr}
    (h : index.IsOrdered) (built : e.IsBuilt index.Knows) (caption : String) :
    (e.Straddles ds index ∧ Mark.ofExpr ds index e caption = .error (.index .mixedSources)) ∨
      ¬e.Straddles ds index ∧ ∃ a, Mark.ofExpr ds index e caption = .ok a := by
  obtain ⟨first, last, span, hfirst, hlast⟩ := built.exists_span ds
  obtain ⟨left, hleft⟩ := h.exists_lookup hfirst
  obtain ⟨right, hright⟩ := h.exists_lookup hlast
  by_cases same : left.path = right.path
  · refine .inr ⟨?_, ⟨⟨left.path, ⟨left.slice.start, right.slice.stop⟩⟩, caption⟩, ?_⟩
    · rintro ⟨first', last', left', right', span', hleft', hright', differ⟩
      cases span.symm.trans span'
      cases hleft.symm.trans hleft'
      cases hright.symm.trans hright'
      exact differ same
    · simp [Mark.ofExpr, Mark.ofTokens, span, SourceIndex.lookupSpan, hleft, hright,
        same, bind, Except.bind]
  · refine .inl ⟨⟨first, last, left, right, span, hleft, hright, same⟩, ?_⟩
    simp [Mark.ofExpr, Mark.ofTokens, span, SourceIndex.lookupSpan, hleft, hright,
      same, bind, Except.bind]

end Comptime
