import Comptime.Proofs.Report.Illustration
import Comptime.Proofs.Source.Cache

/-! Sources over a history in which files are written and marks are shown. As long as no file is
written again once it has been read, what is remembered of it is what the file has, so marks are
shown as they would be if every text were read anew. -/
namespace Comptime

/-- What changes the index, the files or what is remembered of them. -/
inductive SourceCall where
  | index (call : IndexCall)
  | write (p : Path) (content : String)
  | illustrate (draw : Renderer) (a : Mark)

namespace SourceCall

def perform : SourceCall → Sources → Sources
  | .index call, s => { s with index := call.perform s.index }
  | .write p content, s => { s with files := s.files.write p content }
  | .illustrate draw a, s => (a.illustrate draw s).2

end SourceCall

namespace Sources

def after (s : Sources) : List SourceCall → Sources
  | [] => s
  | call :: earlier => call.perform (s.after earlier)

/-- The sources after a history with the latest call first, from when there is nothing but the
built-in token. -/
def ofHistory (history : List SourceCall) : Sources := ({} : Sources).after history

theorem ofHistory_cons (call : SourceCall) (earlier : List SourceCall) :
    ofHistory (call :: earlier) = call.perform (ofHistory earlier) := rfl

theorem after_append (s : Sources) (later earlier : List SourceCall) :
    s.after (later ++ earlier) = (s.after earlier).after later := by
  induction later with
  | nil => rfl
  | cons call later ih => rw [List.cons_append, after, ih, after]

theorem fetch_snd (s : Sources) (p : Path) :
    (s.fetch p).2 =
      match s.index.knownText? p, (s.fetch p).1 with
      | none, some text => { s with cache := s.cache.use p text }
      | _, _ => s := by
  unfold fetch
  cases s.index.knownText? p with
  | some text => rfl
  | none =>
    cases s.cache.find? p with
    | some text => rfl
    | none => cases s.files.read? p <;> rfl

@[simp] theorem fetch_index (s : Sources) (p : Path) : (s.fetch p).2.index = s.index := by
  rw [fetch_snd]
  split <;> rfl

@[simp] theorem fetch_files (s : Sources) (p : Path) : (s.fetch p).2.files = s.files := by
  rw [fetch_snd]
  split <;> rfl

end Sources

theorem Mark.illustrate_snd (draw : Renderer) (a : Mark) (s : Sources) :
    (a.illustrate draw s).2 = match a.span.path with
      | none => s
      | some p => (s.fetch p).2 := by
  unfold illustrate
  cases a.span.path with
  | none => rfl
  | some p =>
    dsimp only
    cases h : s.fetch p with
    | mk text s' => cases text <;> rfl

@[simp] theorem Mark.illustrate_index (draw : Renderer) (a : Mark) (s : Sources) :
    (a.illustrate draw s).2.index = s.index := by
  rw [illustrate_snd]
  cases a.span.path with
  | none => rfl
  | some p => exact s.fetch_index p

@[simp] theorem Mark.illustrate_files (draw : Renderer) (a : Mark) (s : Sources) :
    (a.illustrate draw s).2.files = s.files := by
  rw [illustrate_snd]
  cases a.span.path with
  | none => rfl
  | some p => exact s.fetch_files p

/-! The same without a memory. -/

/-- The text that was given for a path last, since the last reset. -/
def givenText : List SourceCall → Path → Option String
  | [], _ | .index .reset :: _, _ => none
  | .index (.segment path text) :: earlier, p =>
    (if path = some p then text else none).or (givenText earlier p)
  | _ :: earlier, p => givenText earlier p

def writtenText : List SourceCall → Path → Option String
  | [], _ => none
  | .write q content :: earlier, p => if p = q then some content else writtenText earlier p
  | _ :: earlier, p => writtenText earlier p

/-- The text of a path: the one that was given, or else that of its file. -/
def plainText (history : List SourceCall) (p : Path) : Option String :=
  (givenText history p).or ((writtenText history p).map readText)

/-- What is shown of a mark if texts are always read anew. -/
def Mark.plainPicture (draw : Renderer) (a : Mark) (history : List SourceCall) :
    Except MarkFault String :=
  match a.span.path with
  | none => .ok (Illustration.builtIn a.caption)
  | some p =>
    match plainText history p with
    | some text => .ok (Illustration.ofSlice draw text a.span.slice a.caption)
    | none => .error (.noSuchFile p)

/-- A mark is shown for which a file is opened and read: no text is given or remembered, and there
is a file. -/
def Sources.reads (s : Sources) (a : Mark) (p : Path) : Bool :=
  a.span.path = some p && (s.index.knownText? p).isNone && (s.cache.find? p).isNone &&
    (s.files.read? p).isSome

def hasRead : List SourceCall → Path → Bool
  | [], _ => false
  | .illustrate _ a :: earlier, p => (Sources.ofHistory earlier).reads a p || hasRead earlier p
  | _ :: earlier, p => hasRead earlier p

def isStill : List SourceCall → Bool
  | [] => true
  | .write p _ :: earlier => !hasRead earlier p && isStill earlier
  | _ :: earlier => isStill earlier

namespace Sources

theorem knownText?_ofHistory (history : List SourceCall) (p : Path) :
    (ofHistory history).index.knownText? p = givenText history p := by
  induction history with
  | nil => rfl
  | cons call earlier ih =>
    cases call with
    | write q content => exact ih
    | illustrate draw a => simpa [ofHistory_cons, SourceCall.perform, givenText] using ih
    | index call =>
      cases call with
      | reset => rfl
      | token slice => exact ih
      | segment path text =>
        simp [ofHistory_cons, SourceCall.perform, IndexCall.perform, givenText,
          SourceIndex.knownText?_startSegment, ih]

theorem read?_ofHistory (history : List SourceCall) (p : Path) :
    (ofHistory history).files.read? p = writtenText history p := by
  induction history with
  | nil => rfl
  | cons call earlier ih =>
    cases call with
    | index call => cases call <;> exact ih
    | illustrate draw a => simpa [ofHistory_cons, SourceCall.perform, writtenText] using ih
    | write q content =>
      simp [ofHistory_cons, SourceCall.perform, writtenText, Files.read?_write, ih]

end Sources

theorem Mark.find?_illustrate {draw : Renderer} {a : Mark} {s : Sources} {p : Path} {text : String}
    (h : (a.illustrate draw s).2.cache.find? p = some text) :
    s.cache.find? p = some text ∨ s.reads a p = true ∧
    (s.files.read? p).map readText = some text := by
  rw [illustrate_snd] at h
  cases path : a.span.path with
  | none => simp_all
  | some q =>
    simp only [path, Sources.fetch_snd, Sources.fetch_eq] at h
    cases given : s.index.knownText? q with
    | some known => simp_all
    | none =>
      cases remembered : s.cache.find? q with
      | some found =>
        simp only [given, remembered, Option.none_or, Option.some_or] at h
        rcases ReadCache.of_find?_use h with ⟨rfl, rfl⟩ | ⟨-, h⟩
        · exact .inl remembered
        · exact .inl h
      | none =>
        cases file : s.files.read? q with
        | none => simp_all
        | some content =>
          simp only [given, remembered, file, Option.none_or, Option.map_some] at h
          rcases ReadCache.of_find?_use h with ⟨rfl, rfl⟩ | ⟨-, h⟩
          · exact .inr ⟨by simp [Sources.reads, path, given, remembered, file],
              by simp [file, readText]⟩
          · exact .inl h

namespace Sources

/-- What is remembered has been read, and the file has it still. -/
theorem find?_ofHistory {history : List SourceCall} (still : isStill history = true) {p : Path}
    {text : String} (h : (ofHistory history).cache.find? p = some text) :
    hasRead history p = true ∧ (writtenText history p).map readText = some text := by
  induction history with
  | nil => simp [ofHistory, after, ReadCache.find?] at h
  | cons call earlier ih =>
    cases call with
    | index call => exact ih still h
    | write q content =>
      obtain ⟨unread, still⟩ : hasRead earlier q = false ∧ isStill earlier = true := by
        simpa [isStill] using still
      obtain ⟨read, kept⟩ := ih still h
      have other : p ≠ q := fun same => by simp [same, unread] at read
      exact ⟨read, by simpa [writtenText, other] using kept⟩
    | illustrate draw a =>
      rw [ofHistory_cons] at h
      rcases Mark.find?_illustrate h with remembered | ⟨reads, file⟩
      · obtain ⟨read, kept⟩ := ih still remembered
        exact ⟨by simp [hasRead, read], kept⟩
      · rw [read?_ofHistory] at file
        exact ⟨by simp [hasRead, reads], file⟩

theorem fetch_ofHistory {history : List SourceCall} (still : isStill history = true) (p : Path) :
    ((ofHistory history).fetch p).1 = plainText history p := by
  rw [fetch_eq, knownText?_ofHistory, read?_ofHistory, plainText]
  cases remembered : (ofHistory history).cache.find? p with
  | none => rfl
  | some text => rw [(find?_ofHistory still remembered).2, Option.some_or]

end Sources

/-- As long as no file is written again once it has been read, every mark is shown as if all texts
were read anew: with the text that was given for its path last since the last reset, or else that of
the file as it is, and it cannot be shown just when there is neither. -/
theorem illustrate_of_isStill (draw : Renderer) {history : List SourceCall}
    (still : isStill history = true) (a : Mark) :
    (a.illustrate draw (Sources.ofHistory history)).1 = a.plainPicture draw history := by
  rw [Mark.illustrate_eq, Mark.plainPicture]
  cases a.span.path with
  | none => rfl
  | some p =>
    cases text : plainText history p <;> simp only [Sources.fetch_ofHistory still, text]

/-- A file that is not there at first is read, given up for a text until the next reset, forgotten
over five others and read again. -/
theorem illustrate_of_isStill_evicted :
    let mark (path : String) : Mark := ⟨⟨some ⟨path⟩, ⟨0, 1⟩⟩, ""⟩
    let call (path : String) : SourceCall := .illustrate .plain (mark path)
    let others : List SourceCall := ["b", "c", "d", "e", "f"].flatMap fun path =>
      [call path, .write ⟨path⟩ path]
    let history : List SourceCall := others ++ [.index .reset, call "a",
      .index (.segment (some ⟨"a"⟩) (some "2")), call "a", .write ⟨"a"⟩ "1", call "a"]
    isStill history = true ∧ (Sources.ofHistory history).cache.find? ⟨"a"⟩ = none ∧
      ((mark "a").illustrate .plain (Sources.ofHistory history)).1 =
        .ok "     1 |1\n        ^ " := by
  intro mark call others history
  have still : isStill history = true := by decide +kernel
  have evicted : (Sources.ofHistory history).cache.find? ⟨"a"⟩ = none := by decide +kernel
  have read : plainText history ⟨"a"⟩ = some "1" := by decide +kernel
  have shown : Illustration.ofSlice .plain "1" ⟨0, 1⟩ "" = "     1 |1\n        ^ " := by
    decide +kernel
  refine ⟨still, evicted, ?_⟩
  rw [illustrate_of_isStill .plain still, Mark.plainPicture]
  simp only [mark, read, shown]

end Comptime
