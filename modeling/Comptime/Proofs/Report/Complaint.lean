import Comptime.Proofs.Report.Reset
import Comptime.Proofs.Source.Recent
import Comptime.Report

/-! Complaints about the issues of a report. Issues are shown one after the other, and the first one
with a mark whose source has no text when its turn comes ends the complaint: neither its description
nor those of the issues behind it are printed, and an assertion ends with the missing file in place
of its message. -/
namespace Comptime

namespace Issue

def paths (i : Issue) : List Path := i.marks.flatMap (·.span.path.toList)

/-- What tells of an issue starts with its description. -/
def IsToldBy (i : Issue) (text : String) : Prop := ∃ more, text = i.description ++ "\n" ++ more

end Issue

namespace Sources

/-- The sources when the texts of some paths have been fetched in their order, or the first one that
there is none for. -/
def fetchAll : List Path → Sources → Except Path Sources
  | [], s => .ok s
  | p :: rest, s =>
    match s.fetch p with
    | (none, _) => .error p
    | (some _, s) => fetchAll rest s

/-- Those paths whose texts are looked for outside the index, the latest first. -/
def readings (s : Sources) (fetched : List Path) : List Path :=
  (fetched.filter fun p => (s.index.knownText? p).isNone).reverse

/-- A source has no text behind others: none is given, there is no file, and it is not among the
paths that were used last. -/
def Lacks (s : Sources) (fetched : List Path) (p : Path) : Prop :=
  s.index.knownText? p = none ∧ s.files.read? p = none ∧
    p ∉ (s.readings fetched ++ s.cache.paths).eraseDups.take ReadCache.capacity

instance (s : Sources) (fetched : List Path) (p : Path) : Decidable (s.Lacks fetched p) :=
  inferInstanceAs (Decidable (_ ∧ _ ∧ _))

/-- Whenever it is the turn of one of some paths, there is a text for it. -/
def Finds (s : Sources) (paths : List Path) : Prop :=
  ∀ fetched p later, paths = fetched ++ p :: later → ¬s.Lacks fetched p

def Shows (s : Sources) (issues : List Issue) : Prop := s.Finds (issues.flatMap Issue.paths)

variable {s s' : Sources} {paths fetched : List Path} {p q : Path}

theorem fetchAll_append (first second : List Path) (s : Sources) :
    fetchAll (first ++ second) s = (fetchAll first s).bind (fetchAll second) := by
  induction first generalizing s with
  | nil => rfl
  | cons p rest ih =>
    rw [List.cons_append, fetchAll, fetchAll]
    rcases s.fetch p with ⟨_ | text, s'⟩
    · rfl
    · exact ih s'

theorem finds_nil (s : Sources) : s.Finds [] := by
  intro fetched p later split
  simp at split

theorem finds_iff_getElem : s.Finds paths ↔
    ∀ k (h : k < paths.length), ¬s.Lacks (paths.take k) paths[k] := by
  constructor
  · intro finds k h
    exact finds _ _ (paths.drop (k + 1)) (by rw [List.getElem_cons_drop, List.take_append_drop])
  · rintro found fetched p later rfl
    simpa using found fetched.length (by simp)

instance (s : Sources) (paths : List Path) : Decidable (s.Finds paths) :=
  decidable_of_iff' _ finds_iff_getElem

instance (s : Sources) (issues : List Issue) : Decidable (s.Shows issues) :=
  inferInstanceAs (Decidable (s.Finds _))

theorem finds_concat_iff : s.Finds (paths ++ [p]) ↔ s.Finds paths ∧ ¬s.Lacks paths p := by
  constructor
  · intro finds
    exact ⟨fun fetched q later split => finds fetched q (later ++ [p]) (by simp [split]),
      finds paths p [] rfl⟩
  · rintro ⟨finds, last⟩ fetched q later split
    rcases List.eq_nil_or_concat later with rfl | ⟨later, r, rfl⟩
    · obtain ⟨rfl, rfl⟩ := List.append_singleton_inj.mp split
      exact last
    · rw [List.concat_eq_append, ← List.cons_append, ← List.append_assoc] at split
      obtain ⟨rfl, -⟩ := List.append_singleton_inj.mp split
      exact finds fetched q later rfl

theorem Finds.of_append (h : s.Finds (fetched ++ paths)) : s.Finds fetched := by
  rintro before q later rfl
  exact h before q (later ++ paths) (by simp)

theorem eq_of_lacks {other later later' : List Path} (finds : s.Finds fetched)
    (lacks : s.Lacks fetched p) (finds' : s.Finds other) (lacks' : s.Lacks other q)
    (same : fetched ++ p :: later = other ++ q :: later') :
    p = q := by
  rcases List.append_eq_append_iff.mp same with ⟨rest, rfl, back⟩ | ⟨rest, rfl, back⟩
  · rcases List.cons_eq_append_iff.mp back with ⟨-, first⟩ | ⟨rest, rfl, -⟩
    · exact (List.cons.inj first).1.symm
    · exact absurd lacks (finds' _ _ _ rfl)
  · rcases List.cons_eq_append_iff.mp back with ⟨-, first⟩ | ⟨rest, rfl, -⟩
    · exact (List.cons.inj first).1
    · exact absurd lacks' (finds _ _ _ rfl)

theorem fetch_eq_none_iff (index : s'.index = s.index) (files : s'.files = s.files)
    (last : s'.cache.HasLast (s.readings paths ++ s.cache.paths)) :
    (s'.fetch p).1 = none ↔ s.Lacks paths p := by
  have forgotten : s'.cache.find? p = none ↔
      p ∉ (s.readings paths ++ s.cache.paths).eraseDups.take ReadCache.capacity := by
    rw [ReadCache.find?_eq_none_iff, last]
  rw [fetch_eq, index, files, Lacks]
  simp [forgotten, and_comm, and_left_comm]

/-- What fetching some texts comes to: there are all of them, and what is remembered are the paths
used last, or there is a first one missing. -/
inductive Fetches (s : Sources) (paths : List Path) (outcome : Except Path Sources) : Prop
  | whole (finds : s.Finds paths) (s' : Sources) (done : outcome = .ok s')
      (index : s'.index = s.index) (files : s'.files = s.files)
      (last : s'.cache.HasLast (s.readings paths ++ s.cache.paths))
  | heldUp (fetched later : List Path) (p : Path) (split : paths = fetched ++ p :: later)
      (finds : s.Finds fetched) (lacks : s.Lacks fetched p) (done : outcome = .error p)

theorem Fetches.concat {outcome : Except Path Sources} (h : s.Fetches paths outcome) (p : Path) :
    s.Fetches (paths ++ [p]) (outcome.bind (fetchAll [p])) := by
  cases h with
  | heldUp fetched later q split finds lacks done =>
    exact .heldUp fetched (later ++ [p]) q (by simp [split]) finds lacks (by rw [done]; rfl)
  | whole finds s' done index files last =>
    have missing : (s'.fetch p).1 = none ↔ s.Lacks paths p := fetch_eq_none_iff index files last
    have cache := s'.fetch_snd p
    have index' := (s'.fetch_index p).trans index
    have files' := (s'.fetch_files p).trans files
    rw [done, Except.bind, fetchAll]
    rcases step : s'.fetch p with ⟨_ | text, s''⟩
    · exact .heldUp paths [] p rfl finds (missing.mp (by rw [step])) rfl
    · rw [step] at missing cache index' files'
      have found : ¬s.Lacks paths p := fun lacks => nomatch missing.mpr lacks
      refine .whole (finds_concat_iff.mpr ⟨finds, found⟩) s'' rfl index' files' ?_
      cases given : s.index.knownText? p with
      | some known =>
        obtain rfl : s'' = s' := by simpa [index, given] using cache
        simpa [readings, given] using last
      | none =>
        obtain rfl : s'' = { s' with cache := s'.cache.use p text } := by
          simpa [index, given] using cache
        simpa [readings, given] using last.use p text

theorem fetches_fetchAll (orderly : s.cache.IsOrderly) (paths : List Path) :
    s.Fetches paths (fetchAll paths s) := by
  -- From the end, since a path is looked up behind all that are before it.
  induction paths using List.reverseRecOn with
  | nil => exact .whole s.finds_nil s rfl rfl rfl orderly.hasLast
  | append_singleton paths p ih =>
    rw [fetchAll_append]
    exact ih.concat p

theorem exists_fetchAll_iff (orderly : s.cache.IsOrderly) :
    (∃ s', fetchAll paths s = .ok s') ↔ s.Finds paths := by
  cases fetches_fetchAll orderly paths with
  | whole finds s' done => exact iff_of_true ⟨s', done⟩ finds
  | heldUp fetched later p split _ lacks done =>
    exact iff_of_false (by simp [done]) fun finds => finds fetched p later split lacks

theorem fetchAll_of_lacks (orderly : s.cache.IsOrderly) (later : List Path)
    (finds : s.Finds fetched) (lacks : s.Lacks fetched p) :
    fetchAll (fetched ++ p :: later) s = .error p := by
  cases fetches_fetchAll orderly (fetched ++ p :: later) with
  | whole all => exact absurd lacks (all fetched p later rfl)
  | heldUp other later' q split finds' lacks' done =>
    rw [done, eq_of_lacks finds lacks finds' lacks' split]

end Sources

/-- What is shown fails where a text is missing, and else leaves the sources as they are behind all
texts. -/
inductive Tracks {α : Type} (shown : Except MarkFault α × Sources) (fetched : Except Path Sources) :
    Prop
  | passes (x : α) (s : Sources) (shows : shown = (.ok x, s)) (found : fetched = .ok s)
  | fails (p : Path) (s : Sources) (shows : shown = (.error (.noSuchFile p), s))
      (missing : fetched = .error p)

section
variable (draw : Renderer)

theorem tracks_illustrate (a : Mark) (s : Sources) :
    Tracks (a.illustrate draw s) (Sources.fetchAll a.span.path.toList s) := by
  unfold Mark.illustrate
  cases a.span.path with
  | none => exact .passes _ s rfl rfl
  | some p =>
    rw [Option.toList_some, Sources.fetchAll]
    dsimp only
    rcases s.fetch p with ⟨_ | text, s'⟩
    · exact .fails p s' rfl rfl
    · exact .passes _ s' rfl rfl

theorem tracks_drawMarks (path : Option Path) (marks : List Mark) (s : Sources) :
    Tracks (drawMarks draw path marks s)
      (Sources.fetchAll (marks.flatMap (·.span.path.toList)) s) := by
  induction marks generalizing path s with
  | nil => exact .passes [] s rfl rfl
  | cons a rest ih =>
    rw [List.flatMap_cons, Sources.fetchAll_append, drawMarks]
    cases tracks_illustrate draw a s with
    | fails p s' shows missing => exact .fails p s' (by rw [shows]) (by rw [missing]; rfl)
    | passes picture s' shows found =>
      rw [shows, found]
      cases ih a.span.path s' with
      | fails p s'' shows missing => exact .fails p s'' (by simp only [shows]) missing
      | passes lines s'' shows found => exact .passes _ s'' (by simp only [shows]; rfl) found

theorem Issue.tracks_text (i : Issue) (s : Sources) :
    Tracks (i.text draw s) (Sources.fetchAll i.paths s) := by
  unfold Issue.text
  cases tracks_drawMarks draw none i.marks s with
  | fails p s' shows missing => exact .fails p s' (by rw [shows]) missing
  | passes lines s' shows found => exact .passes _ s' (by rw [shows]) found

theorem Issue.isToldBy_of_text {i : Issue} {s : Sources} {text : String}
    (h : (i.text draw s).1 = .ok text) :
    i.IsToldBy text := by
  unfold Issue.text at h
  rcases drawn : drawMarks draw none i.marks s with ⟨f | lines, s'⟩
  · simp [drawn] at h
  · simp only [drawn, Except.ok.injEq] at h
    subst h
    exact ⟨"\n".intercalate ("" :: (lines ++ i.footer)), String.intercalate_cons_cons⟩

end

namespace Report

def heading (o : Outburst) : String :=
  String.ofList (List.replicate 60 '*') ++ "\n" ++ o.text ++ "\n"

def rule : String := String.join (List.replicate 20 "  -") ++ "\n"

def entries (texts : List String) : String :=
  String.join (texts.map fun text => rule ++ text ++ "\n")

variable (draw : Renderer) {s s' : Sources} {i : Issue} {p : Path}

theorem entries_cons (text : String) (texts : List String) :
    entries (text :: texts) = rule ++ text ++ "\n" ++ entries texts := by
  rw [entries, List.map_cons, String.join_cons, entries]

theorem complaintAbout_append {shown : List Issue}
    (found : Sources.fetchAll (shown.flatMap Issue.paths) s = .ok s')
    (more : List Issue) : ∃ texts, List.Forall₂ Issue.IsToldBy shown texts ∧
      complaintAbout draw (shown ++ more) s =
        (entries texts ++ (complaintAbout draw more s').1, (complaintAbout draw more s').2) := by
  induction shown generalizing s with
  | nil =>
    cases found
    exact ⟨[], .nil, rfl⟩
  | cons i rest ih =>
    rw [List.flatMap_cons, Sources.fetchAll_append] at found
    cases i.tracks_text draw s with
    | fails p s₁ shows missing => rw [missing] at found; cases found
    | passes text s₁ shows found₁ =>
      rw [found₁] at found
      obtain ⟨texts, told, printed⟩ := ih found
      refine ⟨text :: texts, .cons (i.isToldBy_of_text draw (congrArg Prod.fst shows)) told, ?_⟩
      rw [List.cons_append, complaintAbout, shows]
      simp only [printed, entries_cons, String.append_assoc]
      rfl

theorem complaintAbout_cons_of_missing (missing : Sources.fetchAll i.paths s = .error p)
    (later : List Issue) :
    (complaintAbout draw (i :: later) s).1 = rule ∧
      (complaintAbout draw (i :: later) s).2.1 = .error (.noSuchFile p) := by
  cases i.tracks_text draw s with
  | passes text s₁ shows found => cases found.symm.trans missing
  | fails q s₁ shows missing' =>
    cases missing'.symm.trans missing
    rw [complaintAbout, shows]
    exact ⟨rfl, rfl⟩

theorem complaint_of_ne_nil {r : Report} (h : r.issues ≠ []) (o : Outburst) (s : Sources) :
    (r.complaint draw o s).1 = heading o ++ (complaintAbout draw r.issues s).1 ∧
      (r.complaint draw o s).2.1 = (complaintAbout draw r.issues s).2.1 := by
  have sick : r.isOk = false := by simpa [isOk] using h
  simp only [complaint, sick]
  exact ⟨rfl, rfl⟩

theorem assertNoIssues_of_ne_nil {r : Report} (h : r.issues ≠ []) (complaining failing : Outburst)
    (message : String) (s : Sources) :
    (r.assertNoIssues draw complaining failing message s).1 = (r.complaint draw complaining s).1 ∧
      (r.assertNoIssues draw complaining failing message s).2.1 =
        match (r.complaint draw complaining s).2.1 with
        | .error f => .error (.mark f)
        | .ok _ => .error (.issues (failing.text ++ " " ++ message)) := by
  have sick : r.isOk = false := by simpa [isOk] using h
  simp only [assertNoIssues, sick]
  rcases r.complaint draw complaining s with ⟨printed, _ | _, s'⟩ <;> exact ⟨rfl, rfl⟩

/-- What a complaint about some issues comes to: all of them have their texts, or there is a first
path without. -/
theorem complaintAbout_eq_ok_iff (orderly : s.cache.IsOrderly) (issues : List Issue) :
    (complaintAbout draw issues s).2.1 = .ok () ↔ s.Shows issues := by
  rw [Sources.Shows, ← Sources.exists_fetchAll_iff orderly]
  clear orderly
  induction issues generalizing s with
  | nil => exact iff_of_true rfl ⟨s, rfl⟩
  | cons i rest ih =>
    rw [List.flatMap_cons, Sources.fetchAll_append]
    cases i.tracks_text draw s with
    | fails p s₁ shows missing =>
      rw [missing]
      exact iff_of_false (by simp [complaintAbout, shows]) nofun
    | passes text s₁ shows found =>
      rw [complaintAbout, shows, found]
      exact ih

end Report

/-- A complaint about issues prints their descriptions in their order up to the first one that has a
mark whose source has no text, which it neither describes nor gets past: the source is given none,
it has no file, and it is not among the five that were read last. An assertion prints the same, and
fails with its message just if there are issues and all of them are shown. -/
theorem complaint_up_to_lacking (draw : Renderer) (history : List SourceCall) (files : Files)
    (r : Report) (complaining failing : Outburst) (message : String) :
    let s : Sources := { Sources.ofHistory history with files }
    let complaint := r.complaint draw complaining s
    let assertion := r.assertNoIssues draw complaining failing message s
    (complaint.2.1 = .ok () ↔ s.Shows r.issues) ∧
    (assertion.2.1 = .error (.issues (failing.text ++ " " ++ message)) ↔
      r.issues ≠ [] ∧ s.Shows r.issues) ∧
    assertion.1 = complaint.1 ∧
    (r.issues ≠ [] → s.Shows r.issues → ∃ texts, List.Forall₂ Issue.IsToldBy r.issues texts ∧
      complaint.1 = Report.heading complaining ++ Report.entries texts) ∧
    ∀ shown i later fetched p rest, r.issues = shown ++ i :: later →
      i.paths = fetched ++ p :: rest →
      s.Finds (shown.flatMap Issue.paths ++ fetched) →
        s.Lacks (shown.flatMap Issue.paths ++ fetched) p →
      (∃ texts, List.Forall₂ Issue.IsToldBy shown texts ∧
        complaint.1 = Report.heading complaining ++ (Report.entries texts ++ Report.rule)) ∧
      complaint.2.1 = .error (.noSuchFile p) ∧ assertion.2.1 = .error (.mark (.noSuchFile p)) := by
  intro s complaint assertion
  have orderly : s.cache.IsOrderly := Sources.isOrderly_ofHistory history
  by_cases empty : r.issues = []
  · have ok : r.isOk = true := by simpa [Report.isOk] using empty
    have quiet : complaint = ("", .ok (), s) := by
      simp only [complaint, Report.complaint, ok, if_true]
    have passes : assertion = ("", .ok (), s) := by
      simp only [assertion, Report.assertNoIssues, ok, if_true]
    simp [quiet, passes, empty, Sources.Shows, s.finds_nil]
  · obtain ⟨text, outcome⟩ := Report.complaint_of_ne_nil draw empty complaining s
    obtain ⟨same, fails⟩ := Report.assertNoIssues_of_ne_nil draw empty complaining failing message s
    have whole : complaint.2.1 = .ok () ↔ s.Shows r.issues := by
      rw [outcome]
      exact Report.complaintAbout_eq_ok_iff draw orderly r.issues
    refine ⟨whole, ?_, same, fun _ shows => ?_,
      fun shown i later fetched p rest split paths finds lacks => ?_⟩
    · rw [fails, ← whole]
      rcases (r.complaint draw complaining s).2.1 with f | _ <;> simp [empty]
    · obtain ⟨s', found⟩ := (Sources.exists_fetchAll_iff orderly).mpr shows
      obtain ⟨texts, told, printed⟩ := Report.complaintAbout_append draw found []
      rw [List.append_nil] at printed
      exact ⟨texts, told, by rw [text, printed]; simp [Report.complaintAbout]⟩
    · -- The issues before this one have all their texts, and this one has them up to the path.
      have missing := Sources.fetchAll_of_lacks orderly rest finds lacks
      obtain ⟨s', found⟩ := (Sources.exists_fetchAll_iff orderly).mpr finds.of_append
      obtain ⟨texts, told, printed⟩ := Report.complaintAbout_append draw found (i :: later)
      rw [List.append_assoc, ← paths, Sources.fetchAll_append, found] at missing
      obtain ⟨ruled, faulty⟩ := Report.complaintAbout_cons_of_missing draw missing later
      rw [← split] at printed
      have held : complaint.2.1 = .error (.noSuchFile p) := by rw [outcome, printed, faulty]
      exact ⟨⟨texts, told, by rw [text, printed, ruled]⟩, held, by rw [fails, held]⟩

/-- A file is gone, but it was read before. It can be shown in front of five others, but not behind
them. -/
theorem complaint_up_to_lacking_evicted :
    let o : Outburst := ⟨0, 0, 0⟩
    let mark (path : String) : Mark := ⟨⟨some ⟨path⟩, ⟨0, 1⟩⟩, ""⟩
    let issue (path : String) : Issue :=
      { description := "Something in " ++ path, marks := [mark path] }
    let history : List SourceCall := [.illustrate .plain (mark "a"), .write ⟨"a"⟩ "1"]
    let others : List String := ["b", "c", "d", "e", "f"]
    let s : Sources :=
      { Sources.ofHistory history with files := ⟨others.map fun path => (⟨path⟩, path)⟩ }
    let first : Report := { issues := issue "a" :: others.map issue }
    let last : Report := { issues := others.map issue ++ [issue "a"] }
    (s.Shows first.issues ∧
      (first.assertNoIssues .plain o o "None." s).2.1 = .error (.issues (o.text ++ " None."))) ∧
      s.Finds ((others.map issue).flatMap Issue.paths) ∧
        s.Lacks ((others.map issue).flatMap Issue.paths) ⟨"a"⟩ ∧
      (last.assertNoIssues .plain o o "None." s).2.1 = .error (.mark (.noSuchFile ⟨"a"⟩)) := by
  intro o mark issue history others s first last
  have all : s.Shows first.issues := by decide +kernel
  have five : s.Finds ((others.map issue).flatMap Issue.paths) := by decide +kernel
  have gone : s.Lacks ((others.map issue).flatMap Issue.paths) ⟨"a"⟩ := by decide +kernel
  obtain ⟨-, asserts, -⟩ := complaint_up_to_lacking .plain history s.files first o o "None."
  obtain ⟨-, -, -, -, heldUp⟩ := complaint_up_to_lacking .plain history s.files last o o "None."
  refine ⟨⟨all, asserts.mpr ⟨by simp [first], all⟩⟩, five, gone, ?_⟩
  exact (heldUp (others.map issue) (issue "a") [] [] ⟨"a"⟩ [] rfl rfl (by simpa using five)
    (by simpa using gone)).2.2

/-- The file of the first issue cannot be read, and neither it nor the second one is described. -/
theorem complaint_loses_rest :
    let o : Outburst := ⟨0, 0, 0⟩
    let ds : Declarations := #[{ name := ⟨"A", 1⟩, init := .number 0 "1" 1 none },
      { name := ⟨"B", 0⟩, init := .number 1 "2" 0 none }]
    let index : SourceIndex := .ofHistory [.token ⟨0, 1⟩, .segment (some ⟨"a.sol"⟩) none]
    let s : Sources := { index }
    let failed (i : Nat) (r : Report) : Report :=
      (r.addFailed ds index ds[i]? ⟨.evaluation, "No value", (ds[i]?.map (·.init)).getD .missing⟩).2
    let r : Report := failed 1 (failed 0 {})
    r.issues.map (·.description) =
      ["Constant evaluation of 'A' failed.", "Constant evaluation of 'B' failed."] ∧
      (∀ i ∈ r.issues, ¬i.description.toList <:+: (r.complaint .plain o s).1.toList) ∧
      (r.complaint .plain o s).2.1 = .error (.noSuchFile ⟨"a.sol"⟩) ∧
      (r.assertNoIssues .plain o o "None." s).2.1 = .error (.mark (.noSuchFile ⟨"a.sol"⟩)) := by
  intro o ds index s failed r
  exact ⟨by decide +kernel, by decide +kernel, by decide +kernel, by decide +kernel⟩

end Comptime
