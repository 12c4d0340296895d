import Comptime.Proofs.Rewriting

/-! Names, parentheses and conversions may be replaced by what they stand for, and conditionals by
the branch that they select. Without names, parentheses and conversions, an expression is its own
unfolding. -/
namespace Comptime

/-- A name stands for the initializer of its declaration, parentheses for what is in them, and a
conversion for its first argument. -/
inductive Inlines (ds : Declarations) : Expr → Expr → Prop where
  | name {id i : Nat} {name : Token} {d : Declaration} (declared : ds[i]? = some d) :
      Inlines ds (.lookup id name (.variable i)) d.init
  | parentheses {id : Nat} {b : Brackets} {item : Expr} : Inlines ds (.tuple id b [item]) item
  | conversion {id : Nat} {fn arg : Expr} {rest : List Expr} :
      Inlines ds (.call id .typeConversion fn (arg :: rest)) arg

/-- A conditional with a condition that has a truth value stands for the branch that this
selects. -/
inductive Simplifies (lim : Limits) (p : Precision) (ds : Declarations) : Expr → Expr → Prop where
  | inline {e n : Expr} (step : Inlines ds e n) : Simplifies lim p ds e n
  | select {id : Nat} {test yes no : Expr} {b : Bool}
      (condition : evaluate lim ds p test = .ok (.bool b)) :
      Simplifies lim p ds (.conditional id test yes no) (if b then yes else no)

section
variable {ds : Declarations} {limit depth : Int} {e n : Expr}

theorem Inlines.lower (step : Inlines ds e n) (h : e.Constant ds limit depth) :
    n.Constant ds limit (depth + 1) := by
  cases step with
  | name declared =>
    cases h with
    | lookup _ found _ init =>
      obtain rfl := Option.some.inj (declared.symm.trans found)
      exact init
  | parentheses => cases h with | tuple _ _ part => exact part
  | conversion => cases h with | call _ part => exact part

namespace Expr

theorem preserves_inlines (lim : Limits) (p : Precision) (ds : Declarations) :
    Preserves lim p ds (Inlines ds) where
  lower step h := .inr (step.lower h)
  outcome step h := by
    cases step with
    | name declared => exact (h.unblamed_lookup declared).symm
    | parentheses => exact (unblamed_tuple _ _ _).symm
    | conversion => exact (unblamed_call _ _ _ _).symm

theorem preserves_simplifies (lim : Limits) (p : Precision) (ds : Declarations) :
    Preserves lim p ds (Simplifies lim p ds) where
  lower step h := by
    cases step with
    | inline step => exact .inr (step.lower h)
    | @select _ _ _ _ b _ =>
      cases h with
      | conditional _ _ yes no => cases b <;> exact .inr (by assumption)
  outcome step h := by
    cases step with
    | inline step => exact (preserves_inlines lim p ds).outcome step h
    | @select _ _ _ _ b condition =>
      rw [unblamed_conditional, condition]
      cases b <;> rfl

def isBare : Expr → Bool
  | .literal .. => true
  | .unary _ _ arg => arg.isBare
  | .binary _ lhs _ rhs => lhs.isBare && rhs.isBare
  | .conditional _ test yes no => test.isBare && yes.isBare && no.isBare
  | _ => false

theorem Constant.exists_bare (h : e.Constant ds limit depth) :
    ∃ e' : Expr, e'.isBare = true ∧ ∀ ds', e.Rewrites (Inlines ds) ds ds' e' := by
  induction h with
  | @literal _ id l => exact ⟨.literal id l, rfl, fun _ => .literal⟩
  | @unary _ id op _ _ _ ih =>
    obtain ⟨arg, bare, part⟩ := ih
    exact ⟨.unary id op arg, bare, fun ds' => .unary (part ds')⟩
  | @binary _ id _ _ op _ _ _ left right =>
    obtain ⟨lhs, bareLeft, first⟩ := left
    obtain ⟨rhs, bareRight, second⟩ := right
    exact ⟨.binary id lhs op rhs, by simp [isBare, bareLeft, bareRight],
      fun ds' => .binary (first ds') (second ds')⟩
  | @conditional _ id _ _ _ _ _ _ _ first second third =>
    obtain ⟨test, bareTest, condition⟩ := first
    obtain ⟨yes, bareYes, branch⟩ := second
    obtain ⟨no, bareNo, other⟩ := third
    exact ⟨.conditional id test yes no, by simp [isBare, bareTest, bareYes, bareNo],
      fun ds' => .conditional (condition ds') (branch ds') (other ds')⟩
  | tuple _ _ _ ih =>
    obtain ⟨item, bare, part⟩ := ih
    exact ⟨item, bare, fun ds' => .here .parentheses (part ds')⟩
  | lookup _ declared _ _ ih =>
    obtain ⟨init, bare, part⟩ := ih
    exact ⟨init, bare, fun ds' => .here (.name declared) (part ds')⟩
  | call _ _ ih =>
    obtain ⟨arg, bare, part⟩ := ih
    exact ⟨arg, bare, fun ds' => .here .conversion (part ds')⟩

end Expr

end

/-- A constant expression stays constant and keeps its value, or else the kind and the message of
its error, however often names, parentheses, conversions and conditionals in its unfolding are
replaced by what they stand for. The first three can all be replaced, and what is left needs no
declarations. -/
theorem inlining_preserves_outcome (ds : Declarations) (limit : Int) (e : Expr)
    (h : isConstant ds limit e = true) :
    (∀ (lim : Limits) (p : Precision) (ds' : Declarations) (e' : Expr),
      Relation.ReflTransGen (fun s t => Replacement (Simplifies lim p s.1) s t) (ds, e) (ds', e') →
        isConstant ds' limit e' = true ∧
        unblamed (evaluate lim ds' p e') = unblamed (evaluate lim ds p e)) ∧
    ∃ e' : Expr, e'.isBare = true ∧ ∀ ds', Replacement (Inlines ds) (ds, e) (ds', e') ∧
      isConstant ds' limit e' = true ∧
      ∀ lim p, unblamed (evaluate lim ds' p e') = unblamed (evaluate lim ds p e) := by
  have constant := Expr.isConstant_iff.mp h
  constructor
  · intro lim p ds' e' replaced
    obtain ⟨constant', same⟩ :=
      replacements_preserve (Expr.preserves_simplifies lim p) replaced constant
    exact ⟨Expr.isConstant_iff.mpr constant', same⟩
  · obtain ⟨e', bare, rewrites⟩ := constant.exists_bare
    have preserves (ds' lim p) :=
      (rewrites ds').preserves (Expr.preserves_inlines lim p ds) constant
    have same (ds') : e'.Constant ds' limit 0 := (preserves ds' ⟨none, fun _ => true⟩ .standard).1
    exact ⟨e', bare, fun ds' => ⟨.unfolding (rewrites ds'), Expr.isConstant_iff.mpr (same ds'),
      fun lim p => (preserves ds' lim p).2⟩⟩

/-- A branch is selected in the initializer behind a name, which is then replaced itself. -/
theorem inlining_preserves_outcome_selection :
    let host : Limits := ⟨none, fun _ => true⟩
    let yes : Expr := .number 1 "1" 0 none
    let choice : Expr := .conditional 3 (.truth 0 true 0) yes (.number 2 "2" 0 none)
    let ds : Declarations := #[{ name := ⟨"a", 0⟩, init := choice }]
    let selected : Declarations := #[{ name := ⟨"a", 0⟩, init := yes }]
    let negative : Expr := .unary 5 ⟨"-", 0⟩ (.lookup 4 ⟨"a", 0⟩ (.variable 0))
    isConstant ds 3 negative = true ∧ evaluate host ds .standard negative = .ok (.int (-1)) ∧
      isConstant selected 3 (.unary 5 ⟨"-", 0⟩ yes) = true := by
  intro host yes choice ds selected negative
  have constant : isConstant ds 3 negative = true := by decide
  have old : ds[0]? = some { name := ⟨"a", 0⟩, init := choice } := rfl
  have new : selected[0]? = some { name := ⟨"a", 0⟩, init := yes } := rfl
  have choose : choice.Replaces (Simplifies host .standard ds) yes :=
    .here (.select (rfl : evaluate host ds .standard (.truth 0 true 0) = .ok (.bool true)))
  have first : Replacement (Simplifies host .standard ds) (ds, negative) (selected, negative) :=
    .initializer old choose
  have second : Replacement (Simplifies host .standard selected) (selected, negative)
      (selected, .unary 5 ⟨"-", 0⟩ yes) :=
    .expression (.operand (.here (.inline (Inlines.name new))))
  obtain ⟨replaced, -⟩ := inlining_preserves_outcome ds 3 negative constant
  exact ⟨constant, rfl, (replaced host .standard _ _ (.tail (.single first) second)).1⟩

end Comptime
