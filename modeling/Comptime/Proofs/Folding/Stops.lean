import Comptime.Proofs.Escape
import Comptime.Proofs.Expr.Span
import Comptime.Proofs.Folding

/-! What stops folding other than too many issues. Where expressions have all their parts and stand
at known tokens, that is a node to be marked that lies across two sources, an evaluation that gets
past all errors, or a value that the host does not write, and it is the first such declaration of
the batch. -/
namespace Comptime

variable {lim : Limits} {ds : Declarations} {p : Precision} {index : SourceIndex} {P : Int → Prop}

theorem Run.IsRun.isBuilt {V F : Type} {m : Meaning V F} {r s : Run V F} {k : Nat}
    (hr : r.IsRun m ds)
    (inits : ds.AreBuilt P) (shape : ∀ k s, r.Contains k s → s.root.expr.HasConstantShape ds)
    (root : r.expr.IsBuilt P) (h : r.Contains k s) : s.root.expr.IsBuilt P := by
  induction h with
  | itself => exact root
  | @part a rs r s k hr' hs ih =>
    obtain @⟨e, _, _, serves, runs⟩ := hr
    have part : Run.expr r ∈ e.parts ds := serves.asked (Plan.asks_parts m ds e) r hr'
    have present := (shape 1 r (.part hr' (.itself r))).present
    exact ih (runs r hr') (fun k s hs => shape (k + 1) s (.part hr' hs))
      (root.part inits part present)

theorem isBuilt_blame (inits : ds.AreBuilt P) {limit : Int} {e : Expr} {err : EvalError}
    (built : e.IsBuilt P) (constant : isConstant ds limit e = true)
    (error : evaluate lim ds p e = .error (.error err)) :
    err.blame.IsBuilt P := by
  obtain ⟨-, -, r, hr, rfl, shape, k, s, hs, blame⟩ := error_of_isConstant constant error
  rw [← blame]
  exact hr.isBuilt inits shape built hs

theorem describe_eq_map (ds : Declarations) (index : SourceIndex) (d : Declaration)
    (e : EvalError) :
    ∃ caption toIssue, describe ds index (d, e) =
      (Mark.ofExpr ds index e.blame caption).map toIssue := by
  cases kind : e.kind with
  | nonConstant | evaluation =>
    simp only [describe, kind]
    exact ⟨_, _, rfl⟩

theorem describe_of_isBuilt (h : index.IsOrdered) {d : Declaration} {e : EvalError}
    (built : e.blame.IsBuilt index.Knows) :
    (e.blame.Straddles ds index ∧ describe ds index (d, e) = .error (.index .mixedSources)) ∨
      ¬e.blame.Straddles ds index ∧ ∃ issue, describe ds index (d, e) = .ok issue := by
  obtain ⟨caption, toIssue, described⟩ := describe_eq_map ds index d e
  rw [described]
  rcases Mark.ofExpr_of_isBuilt h built caption with ⟨straddles, fault⟩ | ⟨whole, a, marked⟩
  · exact .inl ⟨straddles, by rw [fault]; rfl⟩
  · exact .inr ⟨whole, toIssue a, by rw [marked]; rfl⟩

namespace Folding

/-- How a constant with an initializer ends folding, other than by the limit of the report. -/
inductive Ends (lim : Limits) (ds : Declarations) (p : Precision) (index : SourceIndex)
    (d : Declaration) :
    FoldFault → Prop where
  | refused (refused : isConstant ds maxDepth d.init = false) (across : d.init.Straddles ds index) :
      Ends lim ds p index d (.report (.mark (.index .mixedSources)))
  | failed {e : EvalError} (constant : isConstant ds maxDepth d.init = true)
      (error : evaluate lim ds p d.init = .error (.error e)) (across : e.blame.Straddles ds index) :
      Ends lim ds p index d (.report (.mark (.index .mixedSources)))
  | escaped {t : Escape} (constant : isConstant ds maxDepth d.init = true)
      (escapes : EscapesWithin lim ds p d.init t) : Ends lim ds p index d (.evaluation (.escape t))
  | unwritten {v : Value} (constant : isConstant ds maxDepth d.init = true)
      (value : evaluate lim ds p d.init = .ok v) (long : v.IsUnwritable lim.digits) :
      Ends lim ds p index d (.evaluation (.escape .text))

def StopsAt (lim : Limits) (ds : Declarations) (p : Precision) (index : SourceIndex) (i : Nat)
    (f : FoldFault) :
    Prop :=
  ∃ d, foldable? ds i = some d ∧ Ends lim ds p index d f

variable {i : Nat} {d : Declaration} {s : Folding} {f : FoldFault}

theorem Ends.ne_tooManyIssues (h : Ends lim ds p index d f) : f ≠ .report .tooManyIssues := by
  cases h <;> simp

theorem reported_add_ne_error (issue : Issue) (other : f ≠ .report .tooManyIssues) :
    (s.reported (s.report.add issue)).1 ≠ .error f := by
  rw [reported_add]
  split_ifs
  · exact fun h => other (Except.error.inj h).symm
  · exact nofun

theorem telling_eq_error_iff (h : index.IsOrdered) (d : Declaration) {e : EvalError}
    (built : e.blame.IsBuilt index.Knows) (other : f ≠ .report .tooManyIssues) :
    (s.telling ds index (d, e)).1 = .error f ↔
      e.blame.Straddles ds index ∧ f = .report (.mark (.index .mixedSources)) := by
  unfold telling
  rcases describe_of_isBuilt (d := d) h built with ⟨across, fault⟩ | ⟨whole, issue, described⟩
  · rw [fault]
    simp [across, eq_comm]
  · rw [described]
    exact iff_of_false (reported_add_ne_error issue other) fun ⟨across, _⟩ => whole across

theorem ends_iff_of_constant (constant : isConstant ds maxDepth d.init = true) :
    Ends lim ds p index d f ↔
    match evaluate lim ds p d.init with
    | .ok v => v.IsUnwritable lim.digits ∧ f = .evaluation (.escape .text)
    | .error (.error e) => e.blame.Straddles ds index ∧ f = .report (.mark (.index .mixedSources))
    | .error g => f = .evaluation g := by
  have escaped (t : Escape) : evaluate lim ds p d.init = .error (.escape t) ↔
    EscapesWithin lim ds p d.init t :=
    evaluate_eq_escape_iff constant
  constructor
  · intro h
    cases h with
    | refused refused => cases refused.symm.trans constant
    | failed _ error across => rw [error]; exact ⟨across, rfl⟩
    | escaped _ escapes => rw [(escaped _).mpr escapes]
    | unwritten _ value long => rw [value]; exact ⟨long, rfl⟩
  · intro h
    cases outcome : evaluate lim ds p d.init with
    | ok v =>
      rw [outcome] at h
      obtain ⟨long, rfl⟩ := h
      exact .unwritten constant outcome long
    | error g =>
      rw [outcome] at h
      rcases escape_or_error_of_isConstant constant outcome with ⟨t, rfl⟩ | ⟨e, rfl⟩
      · obtain rfl := h
        exact .escaped constant ((escaped t).mp outcome)
      · obtain ⟨across, rfl⟩ := h
        exact .failed constant outcome across

theorem step_eq_error_iff (h : index.IsOrdered) (inits : ds.AreBuilt index.Knows)
    (other : f ≠ .report .tooManyIssues) :
    (s.step lim ds p index i).1 = .error f ↔ StopsAt lim ds p index i f := by
  have stopsAt {d : Declaration} (hd : foldable? ds i = some d) :
      StopsAt lim ds p index i f ↔ Ends lim ds p index d f := by simp [StopsAt, hd]
  have built {d : Declaration} (hd : foldable? ds i = some d) : d.init.IsBuilt index.Knows := by
    obtain ⟨declared, -, present⟩ := foldable?_eq_some_iff.mp hd
    exact inits i d declared present
  cases steps_step lim ds p index i s with
  | skips hd step => simp [step, StopsAt, hd]
  | refuses d hd refused step =>
    rw [step ⟨.nonConstant, "", d.init⟩ rfl rfl, stopsAt hd,
      telling_eq_error_iff h d (built hd) other]
    constructor
    · rintro ⟨across, rfl⟩
      exact .refused refused across
    · intro ends
      cases ends with
      | refused _ across => exact ⟨across, rfl⟩
      | failed constant | escaped constant | unwritten constant => cases refused.symm.trans constant
  | folds d v told hd constant value writable step =>
    rw [step, stopsAt hd, ends_iff_of_constant constant, value]
    exact iff_of_false nofun fun ⟨long, _⟩ => writable long
  | unwritten d v hd constant value long step =>
    rw [step, stopsAt hd, ends_iff_of_constant constant, value]
    simp [long, eq_comm]
  | tells d e hd constant error step =>
    have blame := isBuilt_blame inits (built hd) constant error
    rw [step, stopsAt hd, ends_iff_of_constant constant, error,
      telling_eq_error_iff h d blame other]
  | breaks d g hd constant failure notError step =>
    rw [step, stopsAt hd, ends_iff_of_constant constant, failure]
    cases g with
    | error e => exact absurd rfl (notError e)
    | _ => simp [eq_comm]

/-- Folding ends early at the first declaration that ends it, and gets no further. -/
theorem run_eq_error_iff (batch : List Nat) : (run lim ds p index batch s).1 = .error f ↔
    ∃ before i after s', batch = before ++ i :: after ∧ run lim ds p index before s = (.ok (), s') ∧
      (s'.step lim ds p index i).1 = .error f := by
  induction batch generalizing s with
  | nil => exact ⟨nofun, fun ⟨before, _, _, _, split, _⟩ => by cases before <;> cases split⟩
  | cons j rest ih =>
    rcases step : s.step lim ds p index j with ⟨_ | _, s₁⟩
    · simp only [run, step]
      constructor
      · rintro ⟨⟩
        exact ⟨[], j, rest, s, rfl, rfl, by rw [step]⟩
      · rintro ⟨before, i, after, s', split, passed, failed⟩
        rcases List.cons_eq_append_iff.mp split with ⟨rfl, first⟩ | ⟨before, rfl, -⟩
        · cases first
          cases passed
          rw [step] at failed
          exact failed
        · simp only [run, step] at passed
          cases passed
    · simp only [run, step, ih]
      constructor
      · rintro ⟨before, i, after, s', rfl, passed, failed⟩
        exact ⟨j :: before, i, after, s', rfl, by simp only [run, step, passed], failed⟩
      · rintro ⟨before, i, after, s', split, passed, failed⟩
        rcases List.cons_eq_append_iff.mp split with ⟨rfl, first⟩ | ⟨before, rfl, rfl⟩
        · cases first
          cases passed
          rw [step] at failed
          cases failed
        · simp only [run, step] at passed
          exact ⟨before, i, after, s', rfl, passed, failed⟩

end Folding

/-- Where each initializer has all its parts and stands at known tokens, folding ends with a fault
other than too many issues exactly if the batch has a declaration that stops it and that it gets
to. -/
theorem foldConstants_stops_iff (lim : Limits) (ds : Declarations) (p : Precision)
    (history : List IndexCall) (batch : List Nat) (r : Report) (f : FoldFault)
    (inits : ds.AreBuilt (SourceIndex.ofHistory history).Knows) :
    ((foldConstants lim ds p (.ofHistory history) batch r).1 = .error f ∧
      f ≠ .report .tooManyIssues) ↔
      ∃ before i after, batch = before ++ i :: after ∧
        (foldConstants lim ds p (.ofHistory history) before r).1 = .ok () ∧
        Folding.StopsAt lim ds p (.ofHistory history) i f := by
  have ordered := SourceIndex.isOrdered_ofHistory history
  constructor
  · rintro ⟨failed, other⟩
    obtain ⟨before, i, after, s, split, passed, failed⟩ :=
      (Folding.run_eq_error_iff batch).mp failed
    refine ⟨before, i, after, split, ?_, (Folding.step_eq_error_iff ordered inits other).mp failed⟩
    rw [foldConstants, passed]
  · rintro ⟨before, i, after, split, passed, d, hd, ends⟩
    have other := ends.ne_tooManyIssues
    refine ⟨(Folding.run_eq_error_iff batch).mpr ?_, other⟩
    exact ⟨before, i, after, _, split, Prod.ext passed rfl,
      (Folding.step_eq_error_iff ordered inits other).mpr ⟨d, hd, ends⟩⟩

/-- A quotient of two sources, behind a declaration that folds. -/
theorem foldConstants_stops_iff_acrossSources :
    let host : Limits := ⟨none, fun _ => true⟩
    let history : List IndexCall := [.token ⟨0, 1⟩, .segment (some ⟨"b.sol"⟩) none, .token ⟨0, 1⟩,
      .segment (some ⟨"a.sol"⟩) none]
    let quotient : Expr := .binary 2 (.number 0 "1" 1 none) ⟨"/", 1⟩ (.number 1 "0" 2 none)
    let ds : Declarations := #[{ name := ⟨"A", 1⟩, init := quotient },
      { name := ⟨"B", 2⟩, init := .number 3 "2" 2 none }]
    ds.AreBuilt (SourceIndex.ofHistory history).Knows ∧
    (foldConstants host ds .standard (.ofHistory history) [1, 0, 1] {}).1 =
      .error (.report (.mark (.index .mixedSources))) := by
  intro host history quotient ds
  have one : (SourceIndex.ofHistory history).Knows 1 := by decide
  have two : (SourceIndex.ofHistory history).Knows 2 := by decide
  have inits : ds.AreBuilt (SourceIndex.ofHistory history).Knows := by
    intro i d hd _
    rcases i with _ | _ | i
    · cases hd
      exact .binary (.literal one) one (.literal two)
    · cases hd
      exact .literal two
    · cases hd
  have error : evaluate host ds .standard ds[0].init =
    .error (.error ⟨.evaluation, "Division by zero in 1 / 0", quotient⟩) := rfl
  have across : quotient.Straddles ds (.ofHistory history) := ⟨1, 2, _, _, rfl, rfl, rfl, by decide⟩
  have stops : Folding.StopsAt host ds .standard (.ofHistory history) 0
      (.report (.mark (.index .mixedSources))) := ⟨ds[0], rfl, .failed rfl error across⟩
  exact ⟨inits, ((foldConstants_stops_iff host ds .standard history [1, 0, 1] {} _ inits).mpr
    ⟨[1], 0, [1], rfl, rfl, stops⟩).1⟩

/-- A built-in zero under a number of a source takes a batch down before the declaration behind
it. -/
theorem foldConstants_stops_before_rest :
    let host : Limits := ⟨none, fun _ => true⟩
    let history : List IndexCall := [.token ⟨0, 1⟩, .segment (some ⟨"a.sol"⟩) none]
    let ds : Declarations := #[
      { name := ⟨"A", 0⟩,
        init := .binary 2 (.number 0 "1" 1 none) ⟨"/", 0⟩ (.number 1 "0" 0 none) },
      { name := ⟨"B", 0⟩, init := .number 3 "2" 0 none }]
    ds.AreBuilt (SourceIndex.ofHistory history).Knows ∧
    (foldConstants host ds .standard (.ofHistory history) [0, 1] {}).1 =
      .error (.report (.mark (.index .mixedSources))) ∧
    (foldConstants host ds .standard (.ofHistory history) [0, 1] {}).2.values = [] ∧
    evaluateConstant host ds .standard (.number 3 "2" 0 none) = .ok (.int 2) := by
  intro host history ds
  have zero : (SourceIndex.ofHistory history).Knows 0 := by decide
  have one : (SourceIndex.ofHistory history).Knows 1 := by decide
  refine ⟨fun i d hd _ => ?_, rfl, rfl, rfl⟩
  rcases i with _ | _ | i
  · cases hd
    exact .binary (.literal one) zero (.literal zero)
  · cases hd
    exact .literal zero
  · cases hd

end Comptime
