import Comptime.Proofs.Folding

/-! The limit of a report over all that is done with it. A call is told of too many issues if it
brings them to the limit. That is no more than one call in the life of a report: what comes later
goes on past the limit without a word. -/
namespace Comptime

/-- What adds issues to a report. -/
inductive ReportCall where
  | issue (i : Issue)
  | notConstant (ds : Declarations) (index : SourceIndex) (d : Declaration)
  | failed (ds : Declarations) (index : SourceIndex) (d : Option Declaration) (e : EvalError)
  | fold (lim : Limits) (ds : Declarations) (p : Precision) (index : SourceIndex) (batch : List Nat)

namespace ReportCall

def perform : ReportCall → Report → Except FoldFault Unit × Report
  | .issue i, r => let (outcome, r) := r.add i; (outcome.mapError .report, r)
  | .notConstant ds index d, r =>
    let (outcome, r) := r.addNotConstant ds index d; (outcome.mapError .report, r)
  | .failed ds index d e, r =>
    let (outcome, r) := r.addFailed ds index d e; (outcome.mapError .report, r)
  | .fold lim ds p index batch, r =>
    let (outcome, s) := foldConstants lim ds p index batch r; (outcome, s.report)

end ReportCall

def isTooMany : Except FoldFault Unit → Bool
  | .error (.report .tooManyIssues) => true
  | _ => false

def Report.after : List ReportCall → Report → Report
  | [], r => r
  | call :: rest, r => Report.after rest (call.perform r).2

/-- How many of some calls have ended with too many issues. -/
def Report.timesTooMany : List ReportCall → Report → Nat
  | [], _ => 0
  | call :: rest, r =>
    (if isTooMany (call.perform r).1 then 1 else 0) + Report.timesTooMany rest (call.perform r).2

/-- Issues are too many in the step that brings them to the limit and no further. -/
structure Counts (outcome : Except FoldFault Unit) (before after : Report) : Prop where
  limit : after.limit = before.limit
  grows : before.count ≤ after.count
  stops : ∀ m : Int, before.limit = some m →
    (isTooMany outcome = true ↔ (before.count : Int) < m ∧ m ≤ after.count)
  exact : ∀ m : Int, before.limit = some m → isTooMany outcome = true → (after.count : Int) = m

namespace Counts

variable {r r' r'' : Report} {o : Except FoldFault Unit}

theorem of_same (h : isTooMany o = false) : Counts o r r :=
  ⟨rfl, Nat.le_refl _, fun m _ => by simp [h], fun m _ stop => by simp [h] at stop⟩

theorem add (i : Issue) (r : Report) : Counts ((r.add i).1.mapError .report) r (r.add i).2 := by
  rw [Report.add_eq]
  by_cases full : r.limit = some ((r.adding i).count : Int)
  · rw [if_pos full]
    refine ⟨rfl, by simp, fun m hm => ?_, fun m hm _ => ?_⟩
    · obtain rfl : m = r.count + 1 := by simpa [hm] using full
      simp [Except.mapError, isTooMany]
    · simpa [hm, eq_comm] using full
  · rw [if_neg full]
    refine ⟨rfl, by simp, fun m hm => ?_, fun m _ stop => by cases stop⟩
    have : m ≠ r.count + 1 := by simpa [hm] using full
    simp only [Except.mapError, isTooMany, Report.count_adding, Bool.false_eq_true, false_iff]
    omega

theorem trans (first : Counts (.ok ()) r r') (second : Counts o r' r'') : Counts o r r'' := by
  refine ⟨second.limit.trans first.limit, first.grows.trans second.grows,
    fun m hm => ?_, fun m hm => ?_⟩
  · -- A step that passes leaves the number of issues on its side of the limit.
    have grows := first.grows
    have grows' := second.grows
    have passes := first.stops m hm
    rw [second.stops m (first.limit.trans hm)]
    simp only [isTooMany, Bool.false_eq_true, false_iff] at passes
    omega
  · exact second.exact m (first.limit.trans hm)

theorem addMarked (description : String) (mark : Except MarkFault Mark) (r : Report) :
    Counts ((r.addMarked description mark).1.mapError .report) r
      (r.addMarked description mark).2 := by
  cases mark with
  | error f => exact of_same rfl
  | ok a => exact add _ r

theorem addFailed (ds : Declarations) (index : SourceIndex) (d : Option Declaration) (e : EvalError)
    (r : Report) :
    Counts ((r.addFailed ds index d e).1.mapError .report) r (r.addFailed ds index d e).2 := by
  by_cases phrase : e.blame.isPhrase = true
  · simp only [Report.addFailed, phrase, if_true]
    exact addMarked _ _ r
  · simp only [Report.addFailed, phrase]
    exact add _ r

theorem telling (ds : Declarations) (index : SourceIndex) (failure : Declaration × EvalError)
    (s : Folding) :
    Counts (s.telling ds index failure).1 s.report (s.telling ds index failure).2.report := by
  unfold Folding.telling
  cases describe ds index failure with
  | ok issue => exact add issue s.report
  | error f => exact of_same rfl

theorem step (lim : Limits) (ds : Declarations) (p : Precision) (index : SourceIndex) (i : Nat)
    (s : Folding) :
    Counts (s.step lim ds p index i).1 s.report (s.step lim ds p index i).2.report := by
  cases Folding.steps_step lim ds p index i s with
  | skips _ step | folds _ _ _ _ _ _ _ step | unwritten _ _ _ _ _ _ step
  | breaks _ _ _ _ _ _ step =>
    rw [step]
    exact of_same rfl
  | refuses d _ _ step =>
    rw [step ⟨.nonConstant, "", d.init⟩ rfl rfl]
    exact telling ds index _ s
  | tells d e _ _ _ step =>
    rw [step]
    exact telling ds index (d, e) s

theorem run (lim : Limits) (ds : Declarations) (p : Precision) (index : SourceIndex)
    (batch : List Nat) (s : Folding) :
    Counts (s.run lim ds p index batch).1 s.report (s.run lim ds p index batch).2.report := by
  induction batch generalizing s with
  | nil => exact of_same rfl
  | cons i rest ih =>
    have first := step lim ds p index i s
    rcases stepped : s.step lim ds p index i with ⟨_ | _, s'⟩
    · simpa only [Folding.run, stepped] using first
    · rw [stepped] at first
      simp only [Folding.run, stepped]
      exact first.trans (ih s')

theorem perform (call : ReportCall) (r : Report) :
    Counts (call.perform r).1 r (call.perform r).2 := by
  cases call with
  | issue i => exact add i r
  | notConstant ds index d => exact addMarked _ _ r
  | failed ds index d e => exact addFailed ds index d e r
  | fold lim ds p index batch => exact run lim ds p index batch { report := r }

end Counts

namespace Report

theorem after_limit (calls : List ReportCall) (r : Report) : (r.after calls).limit = r.limit := by
  induction calls generalizing r with
  | nil => rfl
  | cons call rest ih => exact (ih _).trans (Counts.perform call r).limit

theorem count_le_after (calls : List ReportCall) (r : Report) :
    r.count ≤ (r.after calls).count := by
  induction calls generalizing r with
  | nil => exact Nat.le_refl _
  | cons call rest ih => exact (Counts.perform call r).grows.trans (ih _)

/-- Issues are too many once if they get to the limit, and not at all if they have been there
before. -/
theorem timesTooMany_eq {m : Int} (calls : List ReportCall) {r : Report}
    (limit : r.limit = some m) :
    r.timesTooMany calls = if (r.count : Int) < m ∧ m ≤ (r.after calls).count then 1 else 0 := by
  induction calls generalizing r with
  | nil =>
    rw [timesTooMany, after, if_neg]
    omega
  | cons call rest ih =>
    have first := Counts.perform call r
    have grows := first.grows
    have later := count_le_after rest (call.perform r).2
    rw [timesTooMany, after, ih (first.limit.trans limit), if_congr (first.stops m limit) rfl rfl]
    split_ifs <;> omega

end Report

/-- In the life of a report, a call is told of too many issues if and only if there are fewer than
the limit before it and no fewer after it, and then there are as many as the limit. This happens
once if the issues ever get to the limit, and never again. -/
theorem tooMany_once (m : Int) (isVerbose : Bool) (calls : List ReportCall) :
    let new : Report := { isVerbose, limit := some m }
    (∀ call : ReportCall,
      let r := new.after calls
      ((call.perform r).1 = .error (.report .tooManyIssues) ↔
        (r.count : Int) < m ∧ m ≤ (call.perform r).2.count) ∧
      ((call.perform r).1 = .error (.report .tooManyIssues) →
        ((call.perform r).2.count : Int) = m)) ∧
    new.timesTooMany calls = if 0 < m ∧ m ≤ (new.after calls).count then 1 else 0 := by
  intro new
  have isTooMany_iff (o : Except FoldFault Unit) :
      isTooMany o = true ↔ o = .error (.report .tooManyIssues) := by
    unfold isTooMany
    split <;> simp_all
  refine ⟨fun call => ?_, Report.timesTooMany_eq calls rfl⟩
  have counts := Counts.perform call (new.after calls)
  have limit : (new.after calls).limit = some m := Report.after_limit calls new
  simp only [← isTooMany_iff]
  exact ⟨counts.stops m limit, counts.exact m limit⟩

/-- A report that admits one issue. Folding a division by zero stops there, and folding it again
goes through with two issues. -/
theorem passes_beyond_limit :
    let host : Limits := ⟨none, fun _ => true⟩
    let quotient : Expr := .binary 2 (.number 0 "1" 0 none) ⟨"/", 0⟩ (.number 1 "0" 0 none)
    let ds : Declarations := #[{ name := ⟨"A", 0⟩, init := quotient }]
    let fold : ReportCall := .fold host ds .standard .initial [0]
    let first := fold.perform { limit := some 1 }
    let second := fold.perform first.2
    first.1 = .error (.report .tooManyIssues) ∧ second.1 = .ok () ∧ second.2.count = 2 :=
  ⟨rfl, rfl, rfl⟩

end Comptime
