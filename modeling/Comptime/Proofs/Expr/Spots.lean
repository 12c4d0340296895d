import Comptime.Expr.Span

/-! The tokens of an expression in the order of the source. The first and the last token of an
expression with all its parts are the ends of these. -/
namespace Comptime.Expr

/-- Where the tokens of an expression stand, in the order of the source. -/
def spots : Expr → List Int
  | .missing | .foreign .. => []
  | .literal _ l => [l.spot]
  | .unary _ op arg => op.spot :: arg.spots
  | .binary _ lhs op rhs => lhs.spots ++ op.spot :: rhs.spots
  | .tuple _ b items => b.openSpot :: items.flatMap spots ++ [b.closeSpot]
  | .conditional _ test yes no => test.spots ++ yes.spots ++ no.spots
  | .lookup _ name _ => [name.spot]
  | .call _ _ fn args => fn.spots ++ args.flatMap spots

/-- Expressions that have all their parts. Only in tuples some may be missing. -/
inductive IsWhole : Expr → Prop where
  | literal (id : Nat) (l : Literal) : IsWhole (.literal id l)
  | unary {arg : Expr} (id : Nat) (op : Token) (operand : IsWhole arg) : IsWhole (.unary id op arg)
  | binary {lhs rhs : Expr} (id : Nat) (op : Token) (left : IsWhole lhs) (right : IsWhole rhs) :
      IsWhole (.binary id lhs op rhs)
  | tuple {items : List Expr} (id : Nat) (b : Brackets)
      (parts : ∀ e ∈ items, e.isMissing = false → IsWhole e) : IsWhole (.tuple id b items)
  | conditional {test yes no : Expr} (id : Nat) (condition : IsWhole test) (first : IsWhole yes)
      (second : IsWhole no) : IsWhole (.conditional id test yes no)
  | lookup (id : Nat) (name : Token) (target : Target) : IsWhole (.lookup id name target)
  | call {fn : Expr} {args : List Expr} (id : Nat) (kind : CallKind) (callee : IsWhole fn)
      (parts : ∀ e ∈ args, IsWhole e) : IsWhole (.call id kind fn args)

variable {e : Expr}

theorem IsWhole.isGiven (h : e.IsWhole) : e.isGiven = true := by
  cases h <;> rfl

theorem IsWhole.left_eq (h : e.IsWhole) (ds : Declarations) :
    ∃ i, e.left ds = .ok i ∧ e.spots.head? = some i := by
  induction h with
  | literal | unary | lookup | tuple => exact ⟨_, rfl, by simp [spots]⟩
  | binary id op _ _ ih =>
    obtain ⟨i, left, head⟩ := ih
    exact ⟨i, left, by simp [spots, head]⟩
  | conditional id _ _ _ ih =>
    obtain ⟨i, left, head⟩ := ih
    exact ⟨i, left, by simp [spots, head]⟩
  | call id kind _ _ ih =>
    obtain ⟨i, left, head⟩ := ih
    exact ⟨i, left, by simp [spots, head]⟩

theorem lastRight_eq {follow : Nat → Except SpanFault Int} {args : List Expr} (nonempty : args ≠ [])
    (h : ∀ e ∈ args, ∃ i, e.rightUsing follow = .ok i ∧ e.spots.getLast? = some i) :
    ∃ i, lastRightUsing follow args = .ok i ∧ (args.flatMap spots).getLast? = some i := by
  induction args with
  | nil => exact absurd rfl nonempty
  | cons e rest ih =>
    cases rest with
    | nil => simpa [lastRightUsing] using h e (.head _)
    | cons n rest =>
      obtain ⟨i, right, last⟩ := ih (by simp) fun a ha => h a (.tail _ ha)
      exact ⟨i, right, by rw [List.flatMap_cons, List.getLast?_append, last]; rfl⟩

theorem IsWhole.right_eq (h : e.IsWhole) (follow : Nat → Except SpanFault Int) :
    ∃ i, e.rightUsing follow = .ok i ∧ e.spots.getLast? = some i := by
  induction h with
  | literal | lookup => exact ⟨_, rfl, by simp [spots]⟩
  | tuple id b _ _ => exact ⟨_, rfl, by simp [spots, List.getLast?_cons]⟩
  | unary id op _ ih =>
    obtain ⟨i, right, last⟩ := ih
    exact ⟨i, right, by simp [spots, List.getLast?_cons, last]⟩
  | binary id op _ _ _ ih =>
    obtain ⟨i, right, last⟩ := ih
    exact ⟨i, right, by simp [spots, List.getLast?_cons, last]⟩
  | conditional id _ _ _ _ _ ih =>
    obtain ⟨i, right, last⟩ := ih
    exact ⟨i, right, by simp [spots, last]⟩
  | @call fn args id kind _ _ callee parts =>
    cases args with
    | nil => simpa [rightUsing, spots] using callee
    | cons a rest =>
      obtain ⟨i, right, last⟩ := lastRight_eq (by simp) parts
      exact ⟨i, right, by rw [spots, List.getLast?_append, last]; rfl⟩

theorem IsWhole.span_eq (h : e.IsWhole) (ds : Declarations) : ∃ first last,
    e.span ds = .ok (first, last) ∧ e.spots.head? = some first ∧ e.spots.getLast? = some last := by
  obtain ⟨first, left, head⟩ := h.left_eq ds
  obtain ⟨last, right, tail⟩ := h.right_eq (declarationRight ds ds.size)
  exact ⟨first, last, by simp [span, Expr.right, left, right, bind, Except.bind, pure,
    Except.pure], head, tail⟩

end Comptime.Expr
