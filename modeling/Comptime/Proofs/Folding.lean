import Comptime.Folding
import Comptime.Proofs.Blame
import Comptime.Proofs.Operator.Signal

/-! What folding makes of a batch. Each constant with an initializer gets its value or is told of in
one issue, in the order of the batch, until the report has as many issues as its limit. -/
namespace Comptime

def foldable? (ds : Declarations) (i : Nat) : Option Declaration :=
  ds[i]?.filter fun d => d.isConstant && !d.init.isMissing

def foldedValue? (lim : Limits) (ds : Declarations) (p : Precision) (i : Nat) : Option Value :=
  (foldable? ds i).bind fun d => (evaluateConstant lim ds p d.init).toOption

/-- A constant with an initializer that has an error in place of a value. -/
def failure? (lim : Limits) (ds : Declarations) (p : Precision) (i : Nat) :
    Option (Declaration × EvalError) :=
  (foldable? ds i).bind fun d =>
    match evaluateConstant lim ds p d.init with
    | .error (.error e) => some (d, e)
    | _ => none

def failures (lim : Limits) (ds : Declarations) (p : Precision) (batch : List Nat) :
    List (Declaration × EvalError) :=
  batch.filterMap (failure? lim ds p)

/-- The issue that tells of a failure: it marks what the error blames. -/
def describe (ds : Declarations) (index : SourceIndex) :
    Declaration × EvalError → Except MarkFault Issue
  | (d, e) =>
    match e.kind with
    | .nonConstant => (Mark.ofExpr ds index e.blame "not a constant expression").map fun a =>
      { description := "The initializer of constant '" ++ d.name.text ++
        "' cannot be worked out at compile-time."
        marks := [a] }
    | .evaluation => (Mark.ofExpr ds index e.blame e.message).map fun a =>
      { description := "Constant evaluation of '" ++ d.name.text ++ "' failed.", marks := [a] }

theorem foldable?_eq_some_iff {ds : Declarations} {i : Nat} {d : Declaration} :
    foldable? ds i = some d ↔ ds[i]? = some d ∧ d.isConstant = true ∧ d.init.isMissing = false := by
  simp [foldable?, Option.filter_eq_some_iff]

theorem foldedValue?_eq_some_iff {lim : Limits} {ds : Declarations} {p : Precision} {i : Nat}
    {v : Value} :
    foldedValue? lim ds p i = some v ↔
      ∃ d, foldable? ds i = some d ∧ evaluateConstant lim ds p d.init = .ok v := by
  have toOption (x : Except Failure Value) : x.toOption = some v ↔ x = .ok v := by
    cases x <;> simp [Except.toOption]
  simp [foldedValue?, Option.bind_eq_some_iff, toOption]

theorem Expr.isPhrase_of_mayFail {e : Expr} (h : e.mayFail = true) : e.isPhrase = true := by
  cases e <;> first | rfl | cases h

theorem error_of_isConstant {lim : Limits} {ds : Declarations} {p : Precision} {limit : Int}
    {e : Expr} {err : EvalError} (h : isConstant ds limit e = true)
    (hf : evaluate lim ds p e = .error (.error err)) :
    err.kind = .evaluation ∧ err.blame.mayFail = true ∧ ∃ r : Run Value Failure,
      r.IsRun (evaluation lim ds p) ds ∧ r.expr = e ∧
        (∀ k s, r.Contains k s → s.root.expr.HasConstantShape ds) ∧
        ∃ k s, r.Contains k s ∧ s.root.expr = err.blame := by
  obtain ⟨r, hr, rfl, frames⟩ := Run.exists_of_isConstant (evaluation lim ds p) h
  have shape (k : Nat) (s : Run Value Failure) (hs : r.Contains k s) := (frames k s hs).2
  obtain ⟨k, s, hs, vs, g, -, raises, hg⟩ := hr.exists_raises shape (hr.evaluate_eq.symm.trans hf)
  have blame := raises.blame_eq hg.symm
  refine ⟨?_, blame ▸ raises.mayFail, r, hr, rfl, shape, k, s, hs, blame.symm⟩
  rcases raises.kind s.root.expr with ⟨t, ht⟩ | ⟨err', herr, kind⟩
  · cases hg.trans ht
  · cases hg.trans herr
    exact kind

theorem Failure.notConstant_eq_error {lim : Limits} {ds : Declarations} {e : Expr} {err : EvalError}
    (h : notConstant lim ds e = .error err) : err.kind = .nonConstant ∧ err.blame = e := by
  unfold notConstant at h
  cases text : e.shownText? lim ds with
  | none => simp [text, ofMessage] at h
  | some text' =>
    simp only [text, Option.map_some, ofMessage, Failure.error.injEq] at h
    exact h ▸ ⟨rfl, rfl⟩

namespace Report

def adding (i : Issue) (r : Report) : Report := { r with issues := r.issues ++ [i] }

@[simp] theorem count_adding (i : Issue) (r : Report) : (r.adding i).count = r.count + 1 := by
  simp [adding, count]

theorem add_eq (i : Issue) (r : Report) : r.add i =
    (if r.limit = some ((r.adding i).count : Int) then .error .tooManyIssues
      else .ok (), r.adding i) := rfl

end Report

namespace Folding

variable {lim : Limits} {ds : Declarations} {p : Precision} {index : SourceIndex} {i : Nat}
    {d : Declaration}
  {s : Folding}

/-- The work with one more failure told of, unless nothing can be marked. -/
def telling (ds : Declarations) (index : SourceIndex) (failure : Declaration × EvalError)
    (s : Folding) :
    Except FoldFault Unit × Folding :=
  match describe ds index failure with
  | .ok issue => s.reported (s.report.add issue)
  | .error f => (.error (.report (.mark f)), s)

def adding (issue : Issue) (s : Folding) : Folding := { s with report := s.report.adding issue }

theorem reported_add (issue : Issue) (s : Folding) : s.reported (s.report.add issue) =
    (if s.report.limit = some ((s.report.adding issue).count : Int)
      then .error (.report .tooManyIssues)
      else .ok (), s.adding issue) := by
  rw [Report.add_eq, reported]
  split_ifs <;> rfl

theorem step_of_none (h : foldable? ds i = none) : s.step lim ds p index i = (.ok (), s) := by
  unfold foldable? at h
  unfold step
  cases hd : ds[i]? with
  | none => rfl
  | some d =>
    rw [hd, Option.filter_some] at h
    simp_all

theorem step_of_foldable (h : foldable? ds i = some d) :
    s.step lim ds p index i = s.foldConstant lim ds p index i d := by
  obtain ⟨hd, constant, present⟩ := foldable?_eq_some_iff.mp h
  simp [step, hd, constant, present]

theorem step_of_refused (h : foldable? ds i = some d)
    (refused : isConstant ds maxDepth d.init = false) {e : EvalError} (kind : e.kind = .nonConstant)
    (blame : e.blame = d.init) :
    s.step lim ds p index i = s.telling ds index (d, e) := by
  rw [step_of_foldable h, foldConstant, telling, describe]
  simp only [refused, kind, blame, Report.addNotConstant]
  cases Mark.ofExpr ds index d.init "not a constant expression" <;> rfl

theorem step_of_error (h : foldable? ds i = some d)
    (constant : isConstant ds maxDepth d.init = true) {e : EvalError}
    (error : evaluate lim ds p d.init = .error (.error e)) :
    s.step lim ds p index i = s.telling ds index (d, e) := by
  obtain ⟨kind, mayFail, -⟩ := error_of_isConstant constant error
  rw [step_of_foldable h, foldConstant, telling, describe]
  simp only [constant, error, kind, Report.addFailed, Expr.isPhrase_of_mayFail mayFail]
  cases Mark.ofExpr ds index e.blame e.message <;> rfl

/-- All that a step can come to. -/
inductive Steps (lim : Limits) (ds : Declarations) (p : Precision) (index : SourceIndex) (i : Nat)
    (s : Folding) (after : Except FoldFault Unit × Folding) : Prop where
  | skips (none : foldable? ds i = none) (step : after = (.ok (), s))
  | refuses (d : Declaration) (some : foldable? ds i = some d)
      (refused : isConstant ds maxDepth d.init = false)
      (step : ∀ e : EvalError, e.kind = .nonConstant → e.blame = d.init →
        after = s.telling ds index (d, e))
  | folds (d : Declaration) (v : Value) (told : String) (some : foldable? ds i = some d)
      (constant : isConstant ds maxDepth d.init = true) (value : evaluate lim ds p d.init = .ok v)
      (writable : ¬v.IsUnwritable lim.digits)
      (step : after = (.ok (), { s with values := setValue i v s.values, told }))
  | unwritten (d : Declaration) (v : Value) (some : foldable? ds i = some d)
      (constant : isConstant ds maxDepth d.init = true) (value : evaluate lim ds p d.init = .ok v)
      (long : v.IsUnwritable lim.digits) (step : after = (.error (.evaluation (.escape .text)), s))
  | tells (d : Declaration) (e : EvalError) (some : foldable? ds i = some d)
      (constant : isConstant ds maxDepth d.init = true)
      (error : evaluate lim ds p d.init = .error (.error e))
      (step : after = s.telling ds index (d, e))
  | breaks (d : Declaration) (f : Failure) (some : foldable? ds i = some d)
      (constant : isConstant ds maxDepth d.init = true)
      (failure : evaluate lim ds p d.init = .error f)
      (other : ∀ e, f ≠ .error e) (step : after = (.error (.evaluation f), s))

theorem steps_step (lim : Limits) (ds : Declarations) (p : Precision) (index : SourceIndex)
    (i : Nat) (s : Folding) : Steps lim ds p index i s (s.step lim ds p index i) := by
  cases hd : foldable? ds i with
  | none => exact .skips hd (step_of_none hd)
  | some d =>
    cases constant : isConstant ds maxDepth d.init with
    | false => exact .refuses d hd constant fun e kind blame =>
      step_of_refused hd constant kind blame
    | true =>
      have step : s.step lim ds p index i = s.foldConstant lim ds p index i d := step_of_foldable hd
      cases outcome : evaluate lim ds p d.init with
      | ok v =>
        simp only [foldConstant, constant, outcome] at step
        cases text : v.render? lim.digits with
        | none =>
          have long := Value.render?_eq_none_iff.mp text
          exact .unwritten d v hd constant outcome long (by rw [step, text]; rfl)
        | some shown =>
          have writable : ¬v.IsUnwritable lim.digits := by simp [← Value.render?_eq_none_iff, text]
          exact .folds d v _ hd constant outcome writable (by rw [step, text]; rfl)
      | error f =>
        cases f with
        | error e => exact .tells d e hd constant outcome (step_of_error hd constant outcome)
        | escape | noSuchPart | endless =>
          refine .breaks d _ hd constant outcome nofun ?_
          rw [step, foldConstant, constant, outcome]
          rfl

/-- A declaration that folding gets done with, if the report admits another issue: it has a value
that the host writes, or an error of which can be told. -/
def IsTellable (lim : Limits) (ds : Declarations) (p : Precision) (index : SourceIndex) (i : Nat) :
    Prop :=
  ∀ d, foldable? ds i = some d → match evaluateConstant lim ds p d.init with
    | .ok v => ¬v.IsUnwritable lim.digits
    | .error f => ∃ e issue, f = .error e ∧ describe ds index (d, e) = .ok issue

theorem step_of_told (h : IsTellable lim ds p index i) (hd : foldable? ds i = some d)
    {e : EvalError} (error : evaluateConstant lim ds p d.init = .error (.error e))
    (step : s.step lim ds p index i = s.telling ds index (d, e)) :
    ∃ failure issue, failure? lim ds p i = some failure ∧ foldedValue? lim ds p i = none ∧
      describe ds index failure = .ok issue ∧
      s.step lim ds p index i = s.reported (s.report.add issue) := by
  have tellable := h d hd
  rw [error] at tellable
  obtain ⟨_, issue, ⟨⟩, told⟩ := tellable
  refine ⟨(d, e), issue, by simp [failure?, hd, error], ?_, told, by rw [step, telling, told]⟩
  simp [foldedValue?, hd, error, Except.toOption]

theorem step_of_isTellable (h : IsTellable lim ds p index i) :
    (failure? lim ds p i = none ∧ ∃ told, s.step lim ds p index i =
      (.ok (), { s with
        values := (foldedValue? lim ds p i).elim s.values (setValue i · s.values), told })) ∨
    ∃ failure issue, failure? lim ds p i = some failure ∧ foldedValue? lim ds p i = none ∧
      describe ds index failure = .ok issue ∧
      s.step lim ds p index i = s.reported (s.report.add issue) := by
  have same {d : Declaration} (constant : isConstant ds maxDepth d.init = true) :
      evaluateConstant lim ds p d.init = evaluate lim ds p d.init := if_pos constant
  cases steps_step lim ds p index i s with
  | skips hd step => exact .inl ⟨by simp [failure?, hd], s.told, by simp [foldedValue?, hd, step]⟩
  | refuses d hd refused step =>
    have failed : evaluateConstant lim ds p d.init = .error (.notConstant lim ds d.init) := by
      simp [evaluateConstant, refused]
    have tellable := h d hd
    rw [failed] at tellable
    obtain ⟨e, -, error, -⟩ := tellable
    obtain ⟨kind, blame⟩ := Failure.notConstant_eq_error error
    exact .inr (step_of_told h hd (failed.trans (by rw [error])) (step e kind blame))
  | folds d v told hd constant value writable step =>
    rw [← same constant] at value
    refine .inl ⟨by simp [failure?, hd, value], told, ?_⟩
    simpa [foldedValue?, hd, value, Except.toOption] using step
  | unwritten d v hd constant value long =>
    have tellable := h d hd
    rw [same constant, value] at tellable
    exact absurd long tellable
  | tells d e hd constant error step =>
    exact .inr (step_of_told h hd ((same constant).trans error) step)
  | breaks d f hd constant failure other =>
    have tellable := h d hd
    rw [same constant, failure] at tellable
    obtain ⟨e, -, error, -⟩ := tellable
    exact absurd error (other e)

def valuesAfter (lim : Limits) (ds : Declarations) (p : Precision) :
    List Nat → List (Nat × Value) → List (Nat × Value)
  | [], vs => vs
  | i :: rest, vs => valuesAfter lim ds p rest ((foldedValue? lim ds p i).elim vs (setValue i · vs))

theorem lookup_setValue (i j : Nat) (v : Value) (vs : List (Nat × Value)) :
    (setValue i v vs).lookup j = if j = i then some v else vs.lookup j := by
  induction vs with
  | nil => by_cases h : j = i <;> simp [setValue, List.lookup_cons, h, beq_false_of_ne]
  | cons w rest ih =>
    obtain ⟨k, w⟩ := w
    by_cases hk : k = i
    · subst hk
      by_cases h : j = k <;> simp [setValue, List.lookup_cons, h, beq_false_of_ne]
    · by_cases h : j = k
      · subst h
        simp [setValue, hk]
      · simp [setValue, hk, List.lookup_cons, h, beq_false_of_ne, ih]

theorem mem_keys_setValue {i j : Nat} {v : Value} {vs : List (Nat × Value)} :
    j ∈ (setValue i v vs).map Prod.fst ↔ j = i ∨ j ∈ vs.map Prod.fst := by
  induction vs with
  | nil => simp [setValue]
  | cons w rest ih =>
    obtain ⟨k, w⟩ := w
    by_cases hk : k = i
    · subst hk
      simp [setValue]
    · simp [setValue, hk, ih, or_left_comm]

theorem nodup_setValue {i : Nat} {v : Value} {vs : List (Nat × Value)}
    (h : (vs.map Prod.fst).Nodup) :
    ((setValue i v vs).map Prod.fst).Nodup := by
  induction vs with
  | nil => simp [setValue]
  | cons w rest ih =>
    obtain ⟨k, w⟩ := w
    obtain ⟨fresh, distinct⟩ := List.nodup_cons.mp h
    by_cases hk : k = i
    · subst hk
      simpa [setValue] using h
    · rw [setValue, if_neg hk, List.map_cons, List.nodup_cons, mem_keys_setValue, not_or]
      exact ⟨⟨hk, fresh⟩, ih distinct⟩

theorem lookup_valuesAfter (batch : List Nat) (vs : List (Nat × Value)) (j : Nat) :
    (valuesAfter lim ds p batch vs).lookup j =
      if j ∈ batch then (foldedValue? lim ds p j).or (vs.lookup j) else vs.lookup j := by
  induction batch generalizing vs with
  | nil => simp [valuesAfter]
  | cons i rest ih =>
    have first : ((foldedValue? lim ds p i).elim vs (setValue i · vs)).lookup j =
        if j = i then (foldedValue? lim ds p j).or (vs.lookup j) else vs.lookup j := by
      by_cases h : j = i
      · subst h
        cases hv : foldedValue? lim ds p j <;> simp [lookup_setValue]
      · cases hv : foldedValue? lim ds p i <;> simp [lookup_setValue, h]
    rw [valuesAfter, ih, first]
    by_cases h : j = i
    · subst h
      by_cases hr : j ∈ rest <;> cases hv : foldedValue? lim ds p j <;> simp [hr]
    · by_cases hr : j ∈ rest <;> simp [h, hr]

theorem nodup_valuesAfter (batch : List Nat) {vs : List (Nat × Value)}
    (h : (vs.map Prod.fst).Nodup) :
    ((valuesAfter lim ds p batch vs).map Prod.fst).Nodup := by
  induction batch generalizing vs with
  | nil => exact h
  | cons i rest ih =>
    cases hv : foldedValue? lim ds p i with
    | none => simpa [valuesAfter, hv] using ih h
    | some v => simpa [valuesAfter, hv] using ih (nodup_setValue h)

/-- A batch is folded up to the failure that makes the issues as many as the limit. -/
theorem run_of_reached {m : Int} (batch : List Nat) (limit : s.report.limit = some m)
    (below : (s.report.count : Int) < m) (reached : ∀ before i, before ++ [i] <+: batch →
      (s.report.count + (failures lim ds p before).length : Int) < m →
        IsTellable lim ds p index i) :
    ∃ new s', s'.report = { s.report with issues := s.report.issues ++ new } ∧
      new.map .ok =
        ((failures lim ds p batch).take (m - s.report.count).toNat).map (describe ds index) ∧
      ((s.report.count + (failures lim ds p batch).length < m ∧
        run lim ds p index batch s = (.ok (), s') ∧
          s'.values = valuesAfter lim ds p batch s.values) ∨
        (m ≤ s.report.count + (failures lim ds p batch).length ∧
          run lim ds p index batch s = (.error (.report .tooManyIssues), s'))) := by
  induction batch generalizing s with
  | nil =>
    exact ⟨[], s, by simp, by simp [failures], .inl ⟨by simpa [failures] using below, rfl, rfl⟩⟩
  | cons i rest ih =>
    have tellable := reached [] i (by simp) (by simpa [failures] using below)
    rcases step_of_isTellable (s := s) tellable with
      ⟨passed, told, step⟩ | ⟨failure, issue, failed, noValue, described, step⟩
    · have same (l : List Nat) : failures lim ds p (i :: l) = failures lim ds p l := by
        simp [failures, passed]
      obtain ⟨new, s', report, issues, outcome⟩ := ih (s := { s with
          values := (foldedValue? lim ds p i).elim s.values (setValue i · s.values), told })
        limit below fun before j first few =>
          reached (i :: before) j (by simpa using first) (by rwa [same])
      refine ⟨new, s', report, by rwa [same], ?_⟩
      simpa only [same, run, step, valuesAfter] using outcome
    · have more (l : List Nat) : failures lim ds p (i :: l) = failure :: failures lim ds p l := by
        simp [failures, failed]
      rw [reported_add] at step
      by_cases full : s.report.limit = some ((s.report.adding issue).count : Int)
      · -- This issue is the last one that the report takes.
        rw [if_pos full] at step
        obtain rfl : m = s.report.count + 1 := by simpa [limit] using full
        exact ⟨[issue], s.adding issue, rfl, by simp [more, described],
          .inr ⟨by simp [more], by simp only [run, step]⟩⟩
      · rw [if_neg full] at step
        have room : ((s.adding issue).report.count : Int) < m := by
          have : m ≠ s.report.count + 1 := by simpa [limit, eq_comm] using full
          simp only [adding, Report.count_adding]; omega
        obtain ⟨new, s', report, issues, outcome⟩ := ih (s := s.adding issue) limit room
          fun before j first few => reached (i :: before) j (by simpa using first) (by
            simp only [more, adding, Report.count_adding, List.length_cons] at few ⊢; omega)
        simp only [adding, Report.count_adding] at room issues outcome
        -- The first failure takes one of the places, the others are the failures of the rest.
        have next : (m - s.report.count).toNat = (m - (s.report.count + 1 : Nat)).toNat + 1 := by
          omega
        refine ⟨issue :: new, s', ?_, ?_, ?_⟩
        · rw [report]; simp [adding, Report.adding]
        · rw [more, next, List.take_succ_cons, List.map_cons, List.map_cons, issues, described]
        · simp only [more, run, step, List.length_cons, valuesAfter, noValue, Option.elim]
          rcases outcome with ⟨few, done, values⟩ | ⟨many, done⟩
          · exact .inl ⟨by omega, done, values⟩
          · exact .inr ⟨by omega, done⟩

end Folding

theorem lookup_folded {lim : Limits} {ds : Declarations} {p : Precision} {batch : List Nat}
    {i : Nat} {v : Value} :
    (Folding.valuesAfter lim ds p batch []).lookup i = some v ↔
      i ∈ batch ∧ ∃ d, foldable? ds i = some d ∧ evaluateConstant lim ds p d.init = .ok v := by
  rw [Folding.lookup_valuesAfter, ← foldedValue?_eq_some_iff]
  by_cases h : i ∈ batch <;> simp [h]

end Comptime
