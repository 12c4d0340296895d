import Comptime.Proofs.Source.Numbers

/-! Segments that are refused because their text has no path. They have started nevertheless, so the
tokens that come next lose their source, and nothing else is answered differently from then on. -/
namespace Comptime

/-- What an index is asked. -/
inductive IndexQuestion where
  | insertToken (slice : Slice)
  | lookupToken (i : Int)
  | lookupSpan (first last : Int)
  | knownText (p : Path)
  deriving DecidableEq, Repr

inductive IndexAnswer where
  | number (n : Nat)
  | place (span : Except IndexFault Span)
  | text (known : Option String)

def SourceIndex.answer (s : SourceIndex) : IndexQuestion → IndexAnswer
  | .insertToken slice => .number (s.insertToken slice).1
  | .lookupToken i => .place (s.lookupToken i)
  | .lookupSpan first last => .place (s.lookupSpan first last)
  | .knownText p => .text (s.knownText? p)

/-- Whether a token belongs to the segment that was started last before some later calls. -/
def continues (earlier : List IndexCall) : List IndexCall → Nat → Bool
  | [], n => nextNumber earlier ≤ n
  | .reset :: _, _ => false
  | .segment .. :: later, n => n < nextNumber (later ++ earlier) && continues earlier later n
  | .token _ :: later, n => continues earlier later n

theorem sourceOf_of_continues {earlier later : List IndexCall} {n : Nat}
    (h : continues earlier later n = true) :
    sourceOf (later ++ earlier) n = currentPath earlier := by
  induction later with
  | nil => exact sourceOf_of_le (by simpa [continues] using h)
  | cons call later ih =>
    cases call with
    | reset => simp [continues] at h
    | token slice => exact ih h
    | segment path text =>
      obtain ⟨before, h⟩ : n < nextNumber (later ++ earlier) ∧
        continues earlier later n = true := by
        simpa [continues] using h
      simpa [sourceOf, Nat.not_le.mpr before] using ih h

section
variable (earlier later : List IndexCall) (path : Option Path) (text : Option String) (n : Nat)

theorem nextNumber_segment :
    nextNumber (later ++ .segment path text :: earlier) = nextNumber (later ++ earlier) := by
  induction later with
  | nil => rfl
  | cons call later ih => cases call <;> simp [nextNumber, ih]

theorem sourceOf_segment :
    sourceOf (later ++ .segment path text :: earlier) n =
      if continues earlier later n then path else sourceOf (later ++ earlier) n := by
  induction later with
  | nil => simp [sourceOf, continues]
  | cons call later ih =>
    cases call with
    | reset => simp [sourceOf, continues]
    | token slice => simpa [sourceOf, continues] using ih
    | segment path' text' =>
      by_cases behind : nextNumber (later ++ earlier) ≤ n
      · simp [sourceOf, continues, nextNumber_segment, behind, Nat.not_lt.mpr behind]
      · simp [sourceOf, continues, nextNumber_segment, behind, Nat.lt_of_not_le behind, ih]

end

namespace SourceIndex

theorem startSegment_eq_error_iff (s : SourceIndex) (path : Option Path) (text : Option String)
    (f : IndexFault) :
    (s.startSegment path text).1 = .error f ↔
      f = .textWithoutPath ∧ path = none ∧ text.isSome = true := by
  cases text <;> cases path <;> simp [startSegment, eq_comm]

theorem perform_congr {s t : SourceIndex} (slices : s.slices = t.slices) (texts : s.texts = t.texts)
    (call : IndexCall) :
    (call.perform s).slices = (call.perform t).slices ∧
    (call.perform s).texts = (call.perform t).texts := by
  cases call with
  | reset => exact ⟨rfl, rfl⟩
  | token slice => simp [IndexCall.perform, insertToken, slices, texts]
  | segment path text =>
    cases path <;> cases text <;> simp [IndexCall.perform, startSegment, slices, texts]

theorem ofHistory_refused (earlier later : List IndexCall) (text : String) :
    (ofHistory (later ++ .segment none (some text) :: earlier)).slices =
      (ofHistory (later ++ earlier)).slices ∧
      (ofHistory (later ++ .segment none (some text) :: earlier)).texts =
        (ofHistory (later ++ earlier)).texts := by
  induction later with
  | nil => exact ⟨rfl, rfl⟩
  | cons call later ih => exact perform_congr ih.1 ih.2 call

/-- A number is answered as if the refused call had not been made, unless its source is that of a
token that continues the segment before. -/
theorem lookupToken_refused (earlier later : List IndexCall) (text : String) (i : Int) :
    (ofHistory (later ++ .segment none (some text) :: earlier)).lookupToken i =
      ((ofHistory (later ++ earlier)).lookupToken i).map fun span =>
        if continues earlier later (sourceToken (later ++ earlier) i)
          then { span with path := none } else span := by
  have token : sourceToken (later ++ .segment none (some text) :: earlier) i =
    sourceToken (later ++ earlier) i := by
    rw [sourceToken, nextNumber_segment, sourceToken]
  rw [lookupToken_eq, lookupToken_eq, (ofHistory_refused earlier later text).1,
    token, sourceOf_segment]
  cases wrapped? (ofHistory (later ++ earlier)).slices i with
  | none => rfl
  | some slice =>
    simp only [Except.map]
    split <;> rfl

theorem answer_refused {earlier : List IndexCall} (nowhere : currentPath earlier = none)
    (later : List IndexCall) (text : String) (q : IndexQuestion) :
    (ofHistory (later ++ .segment none (some text) :: earlier)).answer q =
      (ofHistory (later ++ earlier)).answer q := by
  obtain ⟨slices, texts⟩ := ofHistory_refused earlier later text
  have token : (ofHistory (later ++ .segment none (some text) :: earlier)).lookupToken =
      (ofHistory (later ++ earlier)).lookupToken := by
    funext i
    rw [lookupToken_refused, lookupToken_eq]
    cases wrapped? (ofHistory (later ++ earlier)).slices i with
    | none => rfl
    | some slice =>
      by_cases h : continues earlier later (sourceToken (later ++ earlier) i) = true
      · simp [Except.map, h, sourceOf_of_continues h, nowhere]
      · simp [Except.map, h]
  cases q with
  | insertToken slice => simp only [answer, insertToken, slices]
  | lookupToken i => simp only [answer, token]
  | lookupSpan first last => simp only [answer, lookupSpan, token]
  | knownText p => simp only [answer, knownText?, texts]

end SourceIndex

/-- A segment is refused just when a text is given without a path. It has started without a source
all the same: from then on no number and no known text is different, but the tokens that would have
continued the segment before have no source. So nobody notices the refused call if and only if there
was no source before it. -/
theorem refused_segment_starts (earlier : List IndexCall) :
    let s := SourceIndex.ofHistory earlier
    (∀ path text f, (s.startSegment path text).1 = .error f ↔
      f = .textWithoutPath ∧ path = none ∧ text.isSome = true) ∧
    ∀ text : String,
      let refused : IndexCall := .segment none (some text)
      refused.perform s = { s with segments := s.segments ++ [⟨none, nextNumber earlier⟩] } ∧
      (∀ later,
        (SourceIndex.ofHistory (later ++ refused :: earlier)).slices =
            (SourceIndex.ofHistory (later ++ earlier)).slices ∧
          (SourceIndex.ofHistory (later ++ refused :: earlier)).texts =
            (SourceIndex.ofHistory (later ++ earlier)).texts) ∧
      (∀ later i, (SourceIndex.ofHistory (later ++ refused :: earlier)).lookupToken i =
        ((SourceIndex.ofHistory (later ++ earlier)).lookupToken i).map fun span =>
          if continues earlier later (sourceToken (later ++ earlier) i)
            then { span with path := none } else span) ∧
      ((∀ later q, (SourceIndex.ofHistory (later ++ refused :: earlier)).answer q =
          (SourceIndex.ofHistory (later ++ earlier)).answer q) ↔
        currentPath earlier = none) := by
  intro s
  refine ⟨s.startSegment_eq_error_iff,
    fun text => ⟨?_, fun later => SourceIndex.ofHistory_refused earlier later text,
    fun later => SourceIndex.lookupToken_refused earlier later text, fun same => ?_,
    fun nowhere later => SourceIndex.answer_refused nowhere later text⟩⟩
  · rw [← SourceIndex.length_slices]
    rfl
  · -- The next token is enough to tell the two apart.
    have noReset : IndexCall.reset ∉ ([] : List IndexCall) := List.not_mem_nil
    have own := SourceIndex.lookupToken_ofHistory earlier ⟨0, 0⟩ noReset
    have lost :=
      SourceIndex.lookupToken_ofHistory (.segment none (some text) :: earlier) ⟨0, 0⟩ noReset
    have next := same [.token ⟨0, 0⟩] (.lookupToken (nextNumber earlier))
    simp only [List.nil_append, nextNumber, currentPath] at own lost
    simpa [SourceIndex.answer, own, lost, eq_comm] using next

/-- A segment is refused while the tokens of a source are registered. The next of them has no
source. -/
theorem lookupToken_after_refusal :
    let a : IndexCall := .segment (some ⟨"a.sol"⟩) none
    let refused : IndexCall := .segment none (some "1")
    ((SourceIndex.ofHistory [a]).startSegment none (some "1")).1 = .error .textWithoutPath ∧
      (SourceIndex.ofHistory [.token ⟨0, 1⟩, a]).lookupToken 1 = .ok ⟨some ⟨"a.sol"⟩, ⟨0, 1⟩⟩ ∧
      (SourceIndex.ofHistory [.token ⟨0, 1⟩, refused, a]).lookupToken 1 = .ok ⟨none, ⟨0, 1⟩⟩ :=
  ⟨rfl, rfl, rfl⟩

end Comptime
