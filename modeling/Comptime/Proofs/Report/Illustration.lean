import Comptime.Proofs.Source.History
import Comptime.Report.Mark

/-! Sources with a text of their own and sources that are read from a file. Marks are the same in
either, and they are shown the same where the renderer makes nothing of the difference between the
text and what is read of it. -/
namespace Comptime

/-- The text of a file as it is read. -/
def readText (content : String) : String := String.ofList (Sources.withFeeds content.toList)

theorem withFeeds_of_not_mem {cs : List Char} (h : '\r' ∉ cs) : Sources.withFeeds cs = cs := by
  induction cs with
  | nil => rfl
  | cons c cs ih =>
    obtain ⟨other, rest⟩ := List.ne_and_not_mem_of_not_mem_cons h
    have single : c = '\r' → ∀ later, cs ≠ '\n' :: later := fun same => absurd same.symm other
    rw [Sources.withFeeds.eq_3 c cs fun later same => single same later,
      if_neg (Ne.symm other), ih rest]

theorem readText_of_not_mem {text : String} (h : '\r' ∉ text.toList) : readText text = text := by
  rw [readText, withFeeds_of_not_mem h, String.ofList_toList]

/-! Two indices that know different texts for one path. -/

namespace SourceIndex

/-- Two indices are alike, but the given text of a path may be known to the first one alone. -/
structure AlikeBut (p : Path) (text : String) (s t : SourceIndex) : Prop where
  segments : s.segments = t.segments
  slices : s.slices = t.slices
  others : ∀ q, q ≠ p → s.knownText? q = t.knownText? q
  own : (∃ newer, s.knownText? p = some newer ∧ t.knownText? p = some newer) ∨
    s.knownText? p = some text ∧ t.knownText? p = none

variable {p : Path} {text : String} {s t : SourceIndex}

theorem knownText?_startSegment (s : SourceIndex) (path : Option Path) (text : Option String)
    (q : Path) :
    (s.startSegment path text).2.knownText? q =
      (if path = some q then text else none).or (s.knownText? q) := by
  cases text with
  | none => cases path <;> simp [startSegment, knownText?]
  | some text =>
    cases path with
    | none => simp [startSegment, knownText?]
    | some p =>
      by_cases h : q = p
      · simp [startSegment, knownText?, h]
      · simp [startSegment, knownText?, List.lookup_cons, beq_false_of_ne h, Ne.symm h]

@[simp] theorem knownText?_insertToken (s : SourceIndex) (slice : Slice) (q : Path) :
    (s.insertToken slice).2.knownText? q = s.knownText? q := rfl

theorem AlikeBut.start (fresh : s.knownText? p = none) (text : String) :
    AlikeBut p text (s.startSegment (some p) (some text)).2 (s.startSegment (some p) none).2 where
  segments := by rw [(startSegment_segments ..).1, (startSegment_segments ..).1]
  slices := by rw [(startSegment_segments ..).2, (startSegment_segments ..).2]
  others q hq := by simp [knownText?_startSegment, hq.symm]
  own := by simp [knownText?_startSegment, fresh]

theorem AlikeBut.perform (h : AlikeBut p text s t) {call : IndexCall} (hc : call ≠ .reset) :
    AlikeBut p text (call.perform s) (call.perform t) := by
  obtain ⟨segments, slices, others, own⟩ := h
  cases call with
  | reset => exact absurd rfl hc
  | token slice =>
    have same : ((IndexCall.token slice).perform s).slices =
        ((IndexCall.token slice).perform t).slices := by
      rw [IndexCall.perform, insertToken, IndexCall.perform, insertToken, slices]
    exact ⟨segments, same, others, own⟩
  | segment path given =>
    constructor
    · simp [IndexCall.perform, startSegment_segments, segments, slices]
    · simp [IndexCall.perform, startSegment_segments, slices]
    · intro q hq
      simp [IndexCall.perform, knownText?_startSegment, others q hq]
    · simp only [IndexCall.perform, knownText?_startSegment]
      cases if path = some p then given else none with
      | none => simpa using own
      | some newer => exact .inl ⟨newer, rfl, rfl⟩

theorem AlikeBut.ofHistory {earlier : List IndexCall}
    (fresh : (ofHistory earlier).knownText? p = none) (text : String) {later : List IndexCall}
    (h : .reset ∉ later) :
    AlikeBut p text (ofHistory (later ++ .segment (some p) (some text) :: earlier))
      (ofHistory (later ++ .segment (some p) none :: earlier)) := by
  induction later with
  | nil => exact .start fresh text
  | cons call later ih =>
    obtain ⟨first, rest⟩ := List.ne_and_not_mem_of_not_mem_cons h
    exact (ih rest).perform (Ne.symm first)

theorem lookupSpan_congr (segments : s.segments = t.segments) (slices : s.slices = t.slices) :
    s.lookupSpan = t.lookupSpan := by
  have same : s.lookupToken = t.lookupToken := by
    funext i
    rw [lookupToken, lookupToken, segmentsUpTo, segmentsUpTo, segments, slices]
  funext first last
  rw [lookupSpan, lookupSpan, same]

end SourceIndex

theorem Mark.ofExpr_congr {s t : SourceIndex} (ds : Declarations)
    (segments : s.segments = t.segments) (slices : s.slices = t.slices) (e : Expr)
    (caption : String) :
    ofExpr ds s e caption = ofExpr ds t e caption := by
  unfold ofExpr ofTokens
  rw [SourceIndex.lookupSpan_congr segments slices]

theorem Files.read?_write (f : Files) (p q : Path) (content : String) :
    (f.write p content).read? q = if q = p then some content else f.read? q := by
  by_cases h : q = p
  · simp [read?, write, h]
  · simp [read?, write, List.lookup_cons, beq_false_of_ne h, h]

namespace Sources

theorem fetch_eq (s : Sources) (p : Path) :
    (s.fetch p).1 = (s.index.knownText? p).or ((s.cache.find? p).or
      ((s.files.read? p).map readText)) := by
  unfold fetch
  cases s.index.knownText? p with
  | some text => rfl
  | none =>
    cases s.cache.find? p with
    | some text => rfl
    | none => cases s.files.read? p <;> rfl

end Sources

theorem Mark.illustrate_eq (draw : Renderer) (a : Mark) (s : Sources) :
    (a.illustrate draw s).1 =
      match a.span.path with
      | none => .ok (Illustration.builtIn a.caption)
      | some p =>
        match (s.fetch p).1 with
        | some text => .ok (Illustration.ofSlice draw text a.span.slice a.caption)
        | none => .error (.noSuchFile p) := by
  unfold illustrate
  cases a.span.path with
  | none => rfl
  | some p =>
    dsimp only
    cases h : s.fetch p with
    | mk text s' => cases text <;> rfl

/-- A source that is registered after some calls. No text is known for its path yet, and its file
has not been read. -/
structure Registration where
  path : Path
  text : String
  earlier : List IndexCall
  files : Files
  cache : ReadCache
  fresh : (SourceIndex.ofHistory earlier).knownText? path = none
  unread : cache.find? path = none

namespace Registration

def withText (r : Registration) (later : List IndexCall) : Sources :=
  ⟨.ofHistory (later ++ .segment (some r.path) (some r.text) :: r.earlier), r.files, r.cache⟩

def fromFile (r : Registration) (later : List IndexCall) : Sources :=
  ⟨.ofHistory (later ++ .segment (some r.path) none :: r.earlier),
    r.files.write r.path r.text, r.cache⟩

variable (r : Registration) {later : List IndexCall}

@[simp] theorem withText_files : (r.withText later).files = r.files := rfl

@[simp] theorem withText_cache : (r.withText later).cache = r.cache := rfl

@[simp] theorem fromFile_files : (r.fromFile later).files = r.files.write r.path r.text := rfl

@[simp] theorem fromFile_cache : (r.fromFile later).cache = r.cache := rfl

theorem alike (h : .reset ∉ later) :
    (r.withText later).index.AlikeBut r.path r.text (r.fromFile later).index :=
  .ofHistory r.fresh r.text h

theorem fetch_cases (h : .reset ∉ later) (q : Path) :
    ((r.withText later).fetch q).1 = ((r.fromFile later).fetch q).1 ∨
      ((r.withText later).fetch q).1 = some r.text ∧
        ((r.fromFile later).fetch q).1 = some (readText r.text) := by
  have alike := r.alike h
  simp only [Sources.fetch_eq, withText_files, withText_cache, fromFile_files,
    fromFile_cache, Files.read?_write]
  by_cases own : q = r.path
  · subst own
    rcases alike.own with ⟨newer, given, given'⟩ | ⟨given, none⟩
    · simp [given, given']
    · right
      simp [given, none, r.unread]
  · left
    rw [alike.others q own, if_neg own]

theorem ofExpr_fromFile (h : .reset ∉ later) (ds : Declarations) (e : Expr) (caption : String) :
    Mark.ofExpr ds (r.withText later).index e caption =
      Mark.ofExpr ds (r.fromFile later).index e caption :=
  Mark.ofExpr_congr ds (r.alike h).segments (r.alike h).slices e caption

theorem illustrate_fromFile {draw : Renderer} {a : Mark} (h : .reset ∉ later)
    (same : Illustration.ofSlice draw r.text a.span.slice a.caption =
      Illustration.ofSlice draw (readText r.text) a.span.slice a.caption) :
    (a.illustrate draw (r.withText later)).1 = (a.illustrate draw (r.fromFile later)).1 := by
  rw [Mark.illustrate_eq, Mark.illustrate_eq]
  cases a.span.path with
  | none => rfl
  | some q =>
    rcases r.fetch_cases h q with alike | ⟨given, read⟩
    · simp only [alike]
    · simp only [given, read, same]

theorem ofExpr_token (slice : Slice) (ds : Declarations) {id : Nat} {l : Literal}
    (spot : l.spot = nextNumber r.earlier) (caption : String) :
    Mark.ofExpr ds (r.withText [.token slice]).index (.literal id l) caption =
      .ok ⟨⟨some r.path, slice⟩, caption⟩ := by
  have noReset : IndexCall.reset ∉ ([] : List IndexCall) := List.not_mem_nil
  have found := SourceIndex.lookupToken_ofHistory
    (.segment (some r.path) (some r.text) :: r.earlier) slice noReset
  have token : (r.withText [.token slice]).index.lookupToken (nextNumber r.earlier) =
      .ok ⟨some r.path, slice⟩ := found
  have span : (Expr.literal id l).span ds = .ok (l.spot, l.spot) := rfl
  rw [Mark.ofExpr, span, spot]
  simp only [Mark.ofTokens, SourceIndex.lookupSpan, token, bind, Except.bind, if_pos]

theorem fetch_token (slice : Slice) :
    ((r.withText [.token slice]).fetch r.path).1 = some r.text ∧
      ((r.fromFile [.token slice]).fetch r.path).1 = some (readText r.text) := by
  have given : (r.withText [.token slice]).index.knownText? r.path = some r.text := by
    simp [withText, SourceIndex.ofHistory, IndexCall.perform, SourceIndex.knownText?_startSegment]
  have none : (r.fromFile [.token slice]).index.knownText? r.path = none := by
    simp [fromFile, SourceIndex.ofHistory, IndexCall.perform,
      SourceIndex.knownText?_startSegment, r.fresh]
  simp [Sources.fetch_eq, given, none, r.unread, Files.read?_write]

end Registration

/-- Whether the text of a source is given with its path or read from the file of that path, the
marks of all nodes are the same. A mark is shown the same too if the renderer shows the text at that
place like what reading makes of it, and on a token that has just been registered for the source
only then. Without carriage returns nothing is shown differently. -/
theorem illustration_of_source (draw : Renderer) (r : Registration) :
    (∀ later, .reset ∉ later → ∀ ds e caption,
      Mark.ofExpr ds (r.withText later).index e caption =
        Mark.ofExpr ds (r.fromFile later).index e caption) ∧
    (∀ later, .reset ∉ later → ∀ a : Mark,
      Illustration.ofSlice draw r.text a.span.slice a.caption =
          Illustration.ofSlice draw (readText r.text) a.span.slice a.caption →
        (a.illustrate draw (r.withText later)).1 = (a.illustrate draw (r.fromFile later)).1) ∧
    (∀ (slice : Slice) (ds : Declarations) (id : Nat) (l : Literal) (caption : String),
      l.spot = nextNumber r.earlier → ∃ a,
        Mark.ofExpr ds (r.withText [.token slice]).index (.literal id l) caption = .ok a ∧
        ((a.illustrate draw (r.withText [.token slice])).1 =
          (a.illustrate draw (r.fromFile [.token slice])).1 ↔
          Illustration.ofSlice draw r.text slice caption =
            Illustration.ofSlice draw (readText r.text) slice caption)) ∧
    ('\r' ∉ r.text.toList → ∀ later, .reset ∉ later → ∀ a : Mark,
      (a.illustrate draw (r.withText later)).1 = (a.illustrate draw (r.fromFile later)).1) := by
  refine ⟨fun later h => r.ofExpr_fromFile h,
    fun later h a same => r.illustrate_fromFile h same, ?_,
    fun plain later h a => r.illustrate_fromFile h (by rw [readText_of_not_mem plain])⟩
  intro slice ds id l caption spot
  obtain ⟨given, read⟩ := r.fetch_token slice
  refine ⟨_, r.ofExpr_token slice ds spot caption, ?_⟩
  simp only [Mark.illustrate_eq, given, read, Except.ok.injEq]

/-- A renderer for texts with line feeds, without tabs and without blanks at the ends of lines. -/
def Renderer.plain : Renderer where
  locate content offset :=
    let before := content.toList.take offset.toNat
    (before.count '\n' + 1, (before.reverse.takeWhile (· ≠ '\n')).length)
  line content row := String.ofList ((content.toList.splitOn '\n').getD (row.toNat - 1) [])
  picture line column width label caption :=
    let cs := line.toList
    let carets := (max 1 (min width (cs.length - column))).toNat
    String.ofList (label.toList ++ cs ++ '\n' ::
      List.replicate (label.toList.length + column.toNat) ' ' ++
      List.replicate carets '^' ++ ' ' :: caption.toList)

/-- A text with a line feed by itself. -/
theorem illustration_of_source_single :
    let r : Registration := ⟨⟨"a.sol"⟩, "a\nbc", [.token ⟨0, 1⟩], {}, {}, rfl, rfl⟩
    let later : List IndexCall := [.token ⟨0, 1⟩, .segment none none, .token ⟨2, 4⟩]
    let a : Mark := ⟨⟨some ⟨"a.sol"⟩, ⟨2, 4⟩⟩, ""⟩
    '\r' ∉ r.text.toList ∧ IndexCall.reset ∉ later ∧
      (a.illustrate .plain (r.withText later)).1 = .ok "     2 |bc\n        ^^ " ∧
      (a.illustrate .plain (r.fromFile later)).1 = .ok "     2 |bc\n        ^^ " := by
  intro r later a
  have plain : '\r' ∉ r.text.toList := by decide
  have noReset : IndexCall.reset ∉ later := by decide
  have own : (a.illustrate .plain (r.withText later)).1 = .ok "     2 |bc\n        ^^ " := by
    have shown : Illustration.ofSlice .plain r.text ⟨2, 4⟩ "" = "     2 |bc\n        ^^ " := by
      decide +kernel
    rw [← shown]
    rfl
  exact ⟨plain, noReset, own, (illustration_of_source .plain r).2.2.2 plain later noReset a ▸ own⟩

/-- A number behind a pair is marked where it stands. Where the text is read from a file, its last
digit alone is. -/
theorem illustrate_behind_pair :
    let r : Registration := ⟨⟨"a.sol"⟩, "a\r\n12", [], {}, {}, rfl, rfl⟩
    let number : Expr := .literal 0 { kind := .number, text := "12", spot := 1 }
    let a : Mark := ⟨⟨some ⟨"a.sol"⟩, ⟨3, 5⟩⟩, ""⟩
    Mark.ofExpr #[] (r.withText [.token ⟨3, 5⟩]).index number "" = .ok a ∧
      Mark.ofExpr #[] (r.fromFile [.token ⟨3, 5⟩]).index number "" = .ok a ∧
      (a.illustrate .plain (r.withText [.token ⟨3, 5⟩])).1 = .ok "     2 |12\n        ^^ " ∧
      (a.illustrate .plain (r.fromFile [.token ⟨3, 5⟩])).1 = .ok "     2 |12\n         ^ " := by
  intro r number a
  have own : Illustration.ofSlice .plain r.text ⟨3, 5⟩ "" = "     2 |12\n        ^^ " := by
    decide +kernel
  have read : Illustration.ofSlice .plain (readText r.text) ⟨3, 5⟩ "" = "     2 |12\n         ^ " :=
    by decide +kernel
  refine ⟨rfl, rfl, ?_, ?_⟩
  · rw [← own]
    rfl
  · rw [← read]
    rfl

end Comptime
