import Comptime.Proofs.Constant

/-! Which node an error blames: the one whose run is the first to be completed with a failure. That
is an innermost one, a literal, an operator or a condition, and it fails alike when it is evaluated
on its own. -/
namespace Comptime

/-- Expressions that may fail when their parts do not. -/
def Expr.mayFail : Expr → Bool
  | .literal .. | .unary .. | .binary .. | .conditional .. => true
  | _ => false

namespace Raises

variable {lim : Limits} {p : Precision} {e node : Expr} {vs : List Value} {f : Failure}
    {err : EvalError}

theorem mayFail (h : Raises lim p e vs f) : e.mayFail = true := by
  cases h <;> rfl

/-- What fails by itself blames nothing yet, so that the error blames the node that it is told of
first. -/
theorem blame_eq (h : Raises lim p e vs f) (hf : f.blaming node = .error err) :
    err.blame = node := by
  have fault {g : Fault}
      (hf : (Failure.ofFault lim g).blaming node = .error err) : err.blame = node := by
    unfold Failure.ofFault at hf
    cases message : g.message? lim.digits <;> rw [message] at hf <;> cases hf
    rfl
  cases h with
  | @literal _ _ s | @binary _ _ _ _ _ _ s =>
    cases s with
    | fault g => exact fault hf
    | escape => cases hf
  | unary | condition => exact fault hf

end Raises

/-- An error of a constant expression blames the first node that failed: all its parts that were
evaluated and all that was completed before it have values. The node may fail by itself, and it does
so with that very error; whatever was completed after it has failed with it. -/
theorem evaluate_blames_first (lim : Limits) (ds : Declarations) (p : Precision) (limit : Int)
    (e : Expr) (h : isConstant ds limit e = true) (err : EvalError)
    (hf : evaluate lim ds p e = .error (.error err)) :
    ∃ r : Run Value Failure, r.IsRun (evaluation lim ds p) ds ∧ r.expr = e ∧
      (∀ s : Run Value Failure, s.IsRun (evaluation lim ds p) ds → s.expr = e → s = r) ∧
      ∃ before s after, r.postorder = before ++ s :: after ∧ s.root.expr = err.blame ∧
        err.blame.mayFail = true ∧ evaluate lim ds p err.blame = .error (.error err) ∧
        (∀ t ∈ s.parts, ∃ v, Run.outcome t = .ok v) ∧ (∀ t ∈ before, ∃ v, Run.outcome t = .ok v) ∧
        ∀ t ∈ after, Run.outcome t = .error (.error err) := by
  obtain ⟨r, hr, rfl, frames⟩ := Run.exists_of_isConstant (evaluation lim ds p) h
  obtain ⟨before, s, after, order, first, last, k, vs, g, hs, values, raises, hg⟩ :=
    hr.first_failure (fun k s hs => (frames k s hs).2) (hr.evaluate_eq.symm.trans hf)
  have blame : err.blame = s.root.expr := raises.blame_eq hg.symm
  have own : evaluate lim ds p s.root.expr = .error (.error err) :=
    (hr.contains hs).evaluate_eq.trans (last s (.head _))
  refine ⟨r, hr, rfl, fun t ht root => ht.unique hr root, before, s, after,
    order, blame.symm, ?_, ?_,
    Run.passed_of_values values, first, fun t ht => last t (.tail _ ht)⟩
  · rw [blame]; exact raises.mayFail
  · rw [blame]; exact own

/-- The negation of a number, in parentheses behind a name: it is blamed for the sum. -/
theorem evaluate_blames_first_negation :
    let host : Limits := ⟨none, fun _ => true⟩
    let negation : Expr := .unary 1 ⟨"!", 0⟩ (.number 0 "1" 0 none)
    let ds : Declarations := #[{ name := ⟨"a", 0⟩, init := .tuple 2 {} [negation] }]
    let sum : Expr := .binary 4 (.number 5 "2" 0 none) ⟨"+", 0⟩ (.lookup 3 ⟨"a", 0⟩ (.variable 0))
    isConstant ds 4 sum = true ∧
      evaluate host ds .standard sum =
        .error (.error ⟨.evaluation, "Expected 1 to be a boolean", negation⟩) ∧
      evaluate host ds .standard negation =
        .error (.error ⟨.evaluation, "Expected 1 to be a boolean", negation⟩) := by
  intro host negation ds sum
  have constant : isConstant ds 4 sum = true := by decide
  have failure : evaluate host ds .standard sum =
      .error (.error ⟨.evaluation, "Expected 1 to be a boolean", negation⟩) := by rfl
  obtain ⟨_, _, _, _, _, _, _, _, _, _, own, _⟩ :=
    evaluate_blames_first host ds .standard 4 sum constant _ failure
  exact ⟨constant, failure, own⟩

end Comptime
