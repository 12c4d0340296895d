import Comptime.Source.Index

/-! The index of tokens over its history. Whatever is asked of it, segments stay in order, and a
token belongs to the last one that starts at or before it. Up to the next reset a token keeps its
slice and the source that was started last before it. -/
namespace Comptime

/-- What changes an index. -/
inductive IndexCall where
  | reset
  | segment (path : Option Path) (text : Option String)
  | token (slice : Slice)
  deriving DecidableEq, Repr

namespace IndexCall

def perform : IndexCall → SourceIndex → SourceIndex
  | .reset, _ => .initial
  | .segment path text, s => (s.startSegment path text).2
  | .token slice, s => (s.insertToken slice).2

end IndexCall

/-- The source of the next token, after a history with the latest call first. It is the path of the
last segment that was started since the last reset. -/
def currentPath : List IndexCall → Option Path
  | [] | .reset :: _ => none
  | .segment path _ :: _ => path
  | .token _ :: earlier => currentPath earlier

/-- The number of the next token. Counting starts behind the built-in token at each reset. -/
def nextNumber : List IndexCall → Nat
  | [] | .reset :: _ => 1
  | .segment .. :: earlier => nextNumber earlier
  | .token _ :: earlier => nextNumber earlier + 1

/-- The number of the first token of the segment that was started last. -/
def segmentStart : List IndexCall → Nat
  | [] | .reset :: _ => 0
  | .segment .. :: earlier => nextNumber earlier
  | .token _ :: earlier => segmentStart earlier

theorem exists_split_of_sorted {α : Type} {f : α → Nat} {l : List α}
    (sorted : l.Pairwise fun a b => f a ≤ f b) {n : Nat} (h : ∃ a ∈ l, f a ≤ n) :
    ∃ a front back, l = front ++ a :: back ∧ (∀ b ∈ front, f b ≤ n) ∧ f a ≤ n ∧
    ∀ b ∈ back, n < f b := by
  induction l with
  | nil => simp at h
  | cons a l ih =>
    obtain ⟨first, sorted⟩ := List.pairwise_cons.mp sorted
    -- Of elements that are equal, the split is behind the last.
    by_cases more : ∃ b ∈ l, f b ≤ n
    · obtain ⟨b, front, back, rfl, before, own, behind⟩ := ih sorted more
      have := first b (by simp)
      exact ⟨b, a :: front, back, rfl, by simpa using ⟨by omega, before⟩, own, behind⟩
    · obtain ⟨b, hb, own⟩ := h
      have behind : ∀ b ∈ l, n < f b := by simpa using more
      rcases List.mem_cons.mp hb with rfl | hb
      · exact ⟨b, [], l, rfl, by simp, own, behind⟩
      · exact absurd own (Nat.not_le.mpr (behind b hb))

theorem countP_of_split {α : Type} {q : α → Bool} {a : α} {front back : List α}
    (before : ∀ b ∈ front, q b = true) (own : q a = true) (behind : ∀ b ∈ back, ¬q b = true) :
    (front ++ a :: back).countP q = front.length + 1 := by
  rw [List.countP_append, List.countP_cons, List.countP_eq_length.mpr before,
    List.countP_eq_zero.mpr behind]
  simp [own]

theorem wrapped?_natCast {α : Type} (xs : List α) (n : Nat) : wrapped? xs n = xs[n]? := by
  simp [wrapped?]

namespace SourceIndex

/-- The index after a history with the latest call first. -/
def ofHistory : List IndexCall → SourceIndex
  | [] => .initial
  | call :: earlier => call.perform (ofHistory earlier)

/-- Segments in the order of their first tokens, from the built-in one to what comes next. -/
structure IsOrdered (s : SourceIndex) : Prop where
  builtIn : ∃ rest, s.segments = ⟨none, 0⟩ :: rest
  sorted : s.segments.Pairwise fun g h => g.firstToken ≤ h.firstToken
  started : ∀ g ∈ s.segments, g.firstToken ≤ s.slices.length

variable {s : SourceIndex}

theorem IsOrdered.initial : IsOrdered .initial :=
  ⟨⟨[], rfl⟩, List.pairwise_singleton .., by simp [SourceIndex.initial]⟩

theorem startSegment_segments (s : SourceIndex) (path : Option Path) (text : Option String) :
    (s.startSegment path text).2.segments = s.segments ++ [⟨path, s.slices.length⟩] ∧
      (s.startSegment path text).2.slices = s.slices := by
  cases text <;> cases path <;> exact ⟨rfl, rfl⟩

theorem IsOrdered.perform (h : s.IsOrdered) (call : IndexCall) : (call.perform s).IsOrdered := by
  cases call with
  | reset => exact .initial
  | segment path text =>
    obtain ⟨segments, slices⟩ := s.startSegment_segments path text
    obtain ⟨rest, first⟩ := h.builtIn
    have builtIn : ∃ rest, ((IndexCall.segment path text).perform s).segments = ⟨none, 0⟩ :: rest :=
      ⟨rest ++ [⟨path, s.slices.length⟩], by simp [IndexCall.perform, segments, first]⟩
    refine ⟨builtIn, ?_, ?_⟩
    · simp only [IndexCall.perform, segments, List.pairwise_append, List.mem_singleton]
      refine ⟨h.sorted, List.pairwise_singleton .., fun g hg n hn => ?_⟩
      subst hn
      exact h.started g hg
    · intro g hg
      rw [IndexCall.perform, segments, List.mem_append, List.mem_singleton] at hg
      rw [IndexCall.perform, slices]
      rcases hg with hg | rfl
      · exact h.started g hg
      · exact Nat.le_refl _
  | token slice =>
    refine ⟨h.builtIn, h.sorted, fun g hg => ?_⟩
    have := h.started g hg
    simp only [IndexCall.perform, insertToken, List.length_append, List.length_singleton]
    omega

theorem isOrdered_ofHistory (history : List IndexCall) : (ofHistory history).IsOrdered := by
  induction history with
  | nil => exact .initial
  | cons call earlier ih => exact ih.perform call

/-- A segment has a token if it is the last to start at or before it. -/
def Owns (s : SourceIndex) (g : Segment) (n : Nat) : Prop :=
  ∃ front back, s.segments = front ++ g :: back ∧
    (∀ a ∈ front, a.firstToken ≤ n) ∧ g.firstToken ≤ n ∧
    ∀ b ∈ back, n < b.firstToken

theorem segmentsUpTo_of_split {g : Segment} {front back : List Segment} {n : Nat}
    (segments : s.segments = front ++ g :: back) (before : ∀ a ∈ front, a.firstToken ≤ n)
    (own : g.firstToken ≤ n) (behind : ∀ b ∈ back, n < b.firstToken) :
    s.segmentsUpTo n = front.length + 1 := by
  rw [segmentsUpTo, segments]
  exact countP_of_split (by simpa using before) (by simpa using own) (by simpa using behind)

theorem segment_of_owns {g : Segment} {n : Nat} (owned : s.Owns g n) :
    wrapped? s.segments (s.segmentsUpTo n - 1 : Int) = some g := by
  obtain ⟨front, back, segments, before, own, behind⟩ := owned
  have last : ((front.length + 1 : Nat) - 1 : Int) = (front.length : Nat) := by omega
  rw [segmentsUpTo_of_split segments before own behind, last, wrapped?_natCast, segments]
  simp

theorem lookupToken_of_owns {g : Segment} {n : Nat} {slice : Slice} (owned : s.Owns g n)
    (found : s.slices[n]? = some slice) : s.lookupToken n = .ok ⟨g.path, slice⟩ := by
  rw [lookupToken, segment_of_owns owned, wrapped?_natCast, found]

theorem IsOrdered.exists_owner (h : s.IsOrdered) (n : Nat) : ∃ g, s.Owns g n := by
  obtain ⟨rest, first⟩ := h.builtIn
  exact exists_split_of_sorted h.sorted ⟨⟨none, 0⟩, by simp [first], Nat.zero_le n⟩

theorem IsOrdered.lookupToken (h : s.IsOrdered) {n : Nat} (known : n < s.slices.length) :
    ∃ g, s.Owns g n ∧ s.lookupToken n = .ok ⟨g.path, s.slices[n]⟩ := by
  obtain ⟨g, owned⟩ := h.exists_owner n
  exact ⟨g, owned, lookupToken_of_owns owned (List.getElem?_eq_getElem known)⟩

/-- A token stays with its segment and keeps its slice until the next reset. -/
theorem owns_perform {call : IndexCall} (h : call ≠ .reset) {g : Segment} {n : Nat} {slice : Slice}
    (owned : s.Owns g n) (found : s.slices[n]? = some slice) :
    (call.perform s).Owns g n ∧ (call.perform s).slices[n]? = some slice := by
  obtain ⟨known, -⟩ := List.getElem?_eq_some_iff.mp found
  cases call with
  | reset => exact absurd rfl h
  | segment path text =>
    obtain ⟨segments, slices⟩ := s.startSegment_segments path text
    obtain ⟨front, back, split, before, own, behind⟩ := owned
    refine ⟨⟨front, back ++ [⟨path, s.slices.length⟩], ?_, before, own, ?_⟩, ?_⟩
    · simp [IndexCall.perform, segments, split]
    · -- A new segment starts behind all tokens that are registered.
      simpa [or_imp, forall_and] using ⟨behind, known⟩
    · rw [IndexCall.perform, slices, found]
  | token other =>
    exact ⟨owned, by simp [IndexCall.perform, insertToken, List.getElem?_append_left known, found]⟩

theorem owns_ofHistory {later earlier : List IndexCall} (h : .reset ∉ later) {g : Segment} {n : Nat}
    {slice : Slice} (owned : (ofHistory earlier).Owns g n)
    (found : (ofHistory earlier).slices[n]? = some slice) :
    (ofHistory (later ++ earlier)).Owns g n ∧
      (ofHistory (later ++ earlier)).slices[n]? = some slice := by
  induction later with
  | nil => exact ⟨owned, found⟩
  | cons call later ih =>
    obtain ⟨first, rest⟩ := List.ne_and_not_mem_of_not_mem_cons h
    obtain ⟨owned, found⟩ := ih rest
    exact owns_perform (Ne.symm first) owned found

theorem length_slices (history : List IndexCall) :
    (ofHistory history).slices.length = nextNumber history := by
  induction history with
  | nil => rfl
  | cons call earlier ih =>
    cases call with
    | reset => rfl
    | segment path text =>
      rw [ofHistory, IndexCall.perform, (startSegment_segments ..).2, ih, nextNumber]
    | token slice => simp [ofHistory, IndexCall.perform, insertToken, ih, nextNumber]

theorem last_segment (history : List IndexCall) :
    ∃ front g, (ofHistory history).segments = front ++ [g] ∧ g.path = currentPath history ∧
      g.firstToken = segmentStart history := by
  induction history with
  | nil => exact ⟨[], ⟨none, 0⟩, rfl, rfl, rfl⟩
  | cons call earlier ih =>
    cases call with
    | reset => exact ⟨[], ⟨none, 0⟩, rfl, rfl, rfl⟩
    | segment path text => exact ⟨_, _, (startSegment_segments ..).1, rfl, length_slices earlier⟩
    | token slice => exact ih

theorem insertToken_owns (history : List IndexCall) (slice : Slice) :
    ∃ g, (ofHistory (.token slice :: history)).Owns g (nextNumber history) ∧
      g.path = currentPath history := by
  obtain ⟨front, g, segments, path, -⟩ := last_segment history
  have started := (isOrdered_ofHistory history).started
  rw [length_slices, segments] at started
  exact ⟨g, ⟨front, [], segments, fun a ha => started a (by simp [ha]),
    started g (by simp), by simp⟩, path⟩

theorem builtIn_owns (history : List IndexCall) :
    (ofHistory history).Owns ⟨none, 0⟩ 0 ∧ (ofHistory history).slices[0]? = some ⟨0, 0⟩ := by
  have initial : SourceIndex.initial.Owns ⟨none, 0⟩ 0 :=
    ⟨[], [], rfl, by simp, Nat.le_refl 0, by simp⟩
  induction history with
  | nil => exact ⟨initial, rfl⟩
  | cons call earlier ih =>
    by_cases h : call = .reset
    · subst h
      exact ⟨initial, rfl⟩
    · exact owns_perform h ih.1 ih.2

theorem lookupToken_ofHistory (earlier : List IndexCall) {later : List IndexCall} (slice : Slice)
    (h : .reset ∉ later) :
    (ofHistory (later ++ .token slice :: earlier)).lookupToken (nextNumber earlier) =
      .ok ⟨currentPath earlier, slice⟩ := by
  obtain ⟨g, owned, path⟩ := insertToken_owns earlier slice
  have found : (ofHistory (.token slice :: earlier)).slices[nextNumber earlier]? = some slice := by
    simp [ofHistory, IndexCall.perform, insertToken, ← length_slices earlier]
  obtain ⟨owned, found⟩ := owns_ofHistory h owned found
  rw [← path]
  exact lookupToken_of_owns owned found

end SourceIndex

/-- A token gets the next number and is found with its slice and the source that was current when it
was registered, whatever is called later but a reset. Number zero is that of the built-in token. -/
theorem lookupToken_of_history (earlier later : List IndexCall) (slice : Slice)
    (h : .reset ∉ later) :
    ((SourceIndex.ofHistory earlier).insertToken slice).1 = nextNumber earlier ∧
      (SourceIndex.ofHistory (later ++ .token slice :: earlier)).lookupToken (nextNumber earlier) =
        .ok ⟨currentPath earlier, slice⟩ ∧
      (SourceIndex.ofHistory earlier).lookupToken 0 = .ok ⟨none, ⟨0, 0⟩⟩ := by
  refine ⟨SourceIndex.length_slices earlier, SourceIndex.lookupToken_ofHistory earlier slice h, ?_⟩
  obtain ⟨owned, found⟩ := SourceIndex.builtIn_owns earlier
  exact SourceIndex.lookupToken_of_owns owned found

/-- A source that is started again behind an empty segment, and a segment without a source later
on. -/
theorem lookupToken_of_history_restarted :
    let a : Path := ⟨"a.sol"⟩
    let earlier : List IndexCall := [.segment a none, .segment (some ⟨"b.sol"⟩) none, .token ⟨0, 4⟩,
      .segment a (some "uint constant"), .reset, .token ⟨7, 9⟩]
    let later : List IndexCall := [.token ⟨0, 1⟩, .segment none none]
    IndexCall.reset ∉ later ∧ nextNumber earlier = 2 ∧
      (SourceIndex.ofHistory (later ++ .token ⟨5, 13⟩ :: earlier)).lookupToken 2 =
        .ok ⟨some a, ⟨5, 13⟩⟩ := by
  intro a earlier later
  have noReset : IndexCall.reset ∉ later := by decide
  exact ⟨noReset, rfl, (lookupToken_of_history earlier later ⟨5, 13⟩ noReset).2.1⟩

end Comptime
