import Comptime.Proofs.Source.History

/-! What an index finds under a number, whether it was issued or not. The source and the slice are
looked up apart: a negative number gets the slice that it counts back to, but the source of the next
token. -/
namespace Comptime

/-- The source of the token with a number, after a history with the latest call first. It is that of
the last segment to start at or before the token. -/
def sourceOf : List IndexCall → Nat → Option Path
  | [], _ | .reset :: _, _ => none
  | .segment path _ :: earlier, n => if nextNumber earlier ≤ n then path else sourceOf earlier n
  | .token _ :: earlier, n => sourceOf earlier n

/-- The token whose source a number gets: its own, or the next one if it is negative. -/
def sourceToken (history : List IndexCall) (i : Int) : Nat :=
  if 0 ≤ i then i.toNat else nextNumber history

/-- A number was returned for a token since the last reset, which registers the built-in one. -/
def IsIssued : List IndexCall → Int → Prop
  | [], i | .reset :: _, i => i = 0
  | .segment .. :: earlier, i => IsIssued earlier i
  | .token slice :: earlier, i =>
    i = ((SourceIndex.ofHistory earlier).insertToken slice).1 ∨ IsIssued earlier i

theorem sourceOf_of_le {history : List IndexCall} {n : Nat} (h : nextNumber history ≤ n) :
    sourceOf history n = currentPath history := by
  induction history with
  | nil => rfl
  | cons call earlier ih =>
    cases call with
    | reset => rfl
    | segment path text => exact if_pos h
    | token slice => simpa [sourceOf, currentPath] using ih (Nat.le_of_succ_le h)

theorem isIssued_iff (history : List IndexCall) (i : Int) :
    IsIssued history i ↔ 0 ≤ i ∧ i < nextNumber history := by
  induction history with
  | nil => simp only [IsIssued, nextNumber]; omega
  | cons call earlier ih =>
    cases call with
    | reset => simp only [IsIssued, nextNumber]; omega
    | segment path text => exact ih
    | token slice =>
      have number : ((SourceIndex.ofHistory earlier).insertToken slice).1 = nextNumber earlier :=
        SourceIndex.length_slices earlier
      simp only [IsIssued, nextNumber, number, ih]
      omega

section
variable {α : Type} {xs : List α} {i : Int}

theorem wrapped?_of_neg (first : -(xs.length : Int) ≤ i) (neg : i < 0) :
    wrapped? xs i = xs[(xs.length + i).toNat]? := by
  simp [wrapped?, first, Int.not_le.mpr neg]

theorem wrapped?_eq_none_iff : wrapped? xs i = none ↔
    i < -(xs.length : Int) ∨ (xs.length : Int) ≤ i := by
  unfold wrapped?
  split
  · simp only [List.getElem?_eq_none_iff]; omega
  · split
    · simp only [List.getElem?_eq_none_iff]; omega
    · simp only [true_iff]; omega

end

namespace SourceIndex

theorem owns_sourceOf (history : List IndexCall) (n : Nat) :
    ∃ g, (ofHistory history).Owns g n ∧ g.path = sourceOf history n := by
  have initial : SourceIndex.initial.Owns ⟨none, 0⟩ n :=
    ⟨[], [], rfl, by simp, Nat.zero_le n, by simp⟩
  induction history with
  | nil => exact ⟨⟨none, 0⟩, initial, rfl⟩
  | cons call earlier ih =>
    cases call with
    | reset => exact ⟨⟨none, 0⟩, initial, rfl⟩
    | token slice => exact ih
    | segment path text =>
      by_cases h : nextNumber earlier ≤ n
      · -- The new segment starts behind all others, so it has what none of them could have.
        have started := (isOrdered_ofHistory earlier).started
        rw [length_slices] at started
        refine ⟨⟨path, nextNumber earlier⟩,
          ⟨(ofHistory earlier).segments, [], ?_, ?_, h, by simp⟩, ?_⟩
        · rw [ofHistory, IndexCall.perform, (startSegment_segments ..).1, length_slices]
        · exact fun g hg => Nat.le_trans (started g hg) h
        · simp [sourceOf, h]
      · obtain ⟨g, owned, source⟩ := ih
        have known : n < (ofHistory earlier).slices.length := by rw [length_slices]; omega
        have starts : IndexCall.segment path text ≠ .reset := by simp
        have kept := owns_perform starts owned (List.getElem?_eq_getElem known)
        exact ⟨g, kept.1, by simp [sourceOf, h, source]⟩

theorem segment_of_neg (history : List IndexCall) {i : Int} (neg : i < 0) :
    (wrapped? (ofHistory history).segments
      ((ofHistory history).segmentsUpTo i - 1 : Int)).map (·.path) =
      some (currentPath history) := by
  have none : (ofHistory history).segmentsUpTo i = 0 := by
    rw [segmentsUpTo, List.countP_eq_zero]
    intro g _
    simp only [decide_eq_true_eq]
    omega
  obtain ⟨front, g, segments, path, -⟩ := last_segment history
  have length : (front ++ [g]).length = front.length + 1 := List.length_append
  have last : (((front ++ [g]).length : Int) + (((0 : Nat) : Int) - 1)).toNat = front.length := by
    omega
  rw [none, segments, wrapped?_of_neg (by omega) (by omega), last]
  simp [path]

theorem lookupToken_eq (history : List IndexCall) (i : Int) :
    (ofHistory history).lookupToken i =
      match wrapped? (ofHistory history).slices i with
      | some slice => .ok ⟨sourceOf history (sourceToken history i), slice⟩
      | none => .error .unknownToken := by
  have segment : (wrapped? (ofHistory history).segments
    ((ofHistory history).segmentsUpTo i - 1 : Int)).map
      (·.path) = some (sourceOf history (sourceToken history i)) := by
    by_cases h : 0 ≤ i
    · obtain ⟨g, owned, source⟩ := owns_sourceOf history i.toNat
      have place := segment_of_owns owned
      rw [Int.toNat_of_nonneg h] at place
      simp [place, source, sourceToken, h]
    · simp [segment_of_neg history (Int.not_le.mp h), sourceToken, h, sourceOf_of_le]
  obtain ⟨g, found, source⟩ := Option.map_eq_some_iff.mp segment
  rw [lookupToken, found]
  cases wrapped? (ofHistory history).slices i with
  | none => rfl
  | some slice => simp only [source]

theorem lookupToken_eq_error_iff (history : List IndexCall) (i : Int) :
    (ofHistory history).lookupToken i = .error .unknownToken ↔
      i < -(nextNumber history : Int) ∨ (nextNumber history : Int) ≤ i := by
  rw [← length_slices history, ← wrapped?_eq_none_iff, lookupToken_eq]
  cases wrapped? (ofHistory history).slices i <;> simp

theorem exists_lookupToken_iff (history : List IndexCall) (i : Int) :
    (∃ span, (ofHistory history).lookupToken i = .ok span) ↔
      -(nextNumber history : Int) ≤ i ∧ i < nextNumber history := by
  have found : (∃ span, (ofHistory history).lookupToken i = .ok span) ↔
      ¬(ofHistory history).lookupToken i = .error .unknownToken := by
    rw [lookupToken_eq]
    cases wrapped? (ofHistory history).slices i <;> simp
  rw [found, lookupToken_eq_error_iff]
  omega

theorem lookupToken_of_neg {history : List IndexCall} {i : Int}
    (first : -(nextNumber history : Int) ≤ i) (neg : i < 0) :
    ∃ own, (ofHistory history).lookupToken (nextNumber history + i) = .ok own ∧
      (ofHistory history).lookupToken i = .ok ⟨currentPath history, own.slice⟩ := by
  have length := length_slices history
  obtain ⟨k, hk⟩ := Int.eq_ofNat_of_zero_le (show 0 ≤ nextNumber history + i by omega)
  have known : k < (ofHistory history).slices.length := by omega
  have back : (((ofHistory history).slices.length : Int) + i).toNat = k := by omega
  have own := lookupToken_eq history k
  have negative := lookupToken_eq history i
  rw [wrapped?_natCast, List.getElem?_eq_getElem known] at own
  rw [wrapped?_of_neg (by omega) neg, back, List.getElem?_eq_getElem known,
    sourceToken, if_neg (by omega),
    sourceOf_of_le (Nat.le_refl _)] at negative
  rw [hk]
  exact ⟨_, own, negative⟩

theorem lookupToken_ne_error (s : SourceIndex) (i : Int) {f : IndexFault} (h : f ≠ .unknownToken) :
    s.lookupToken i ≠ .error f := by
  unfold lookupToken
  split <;> simp [h.symm]

theorem lookupSpan_eq_unknown_iff (s : SourceIndex) (first last : Int) :
    s.lookupSpan first last = .error .unknownToken ↔
      s.lookupToken first = .error .unknownToken ∨ s.lookupToken last = .error .unknownToken := by
  have fault {i : Int} {f : IndexFault} (h : s.lookupToken i = .error f) : f = .unknownToken :=
    Decidable.byContradiction fun other => s.lookupToken_ne_error i other h
  rw [lookupSpan]
  cases left : s.lookupToken first with
  | error f => simp [fault left, bind, Except.bind]
  | ok l =>
    cases right : s.lookupToken last with
    | error f => simp [fault right, bind, Except.bind]
    | ok r => by_cases same : l.path = r.path <;> simp [same, bind, Except.bind]

end SourceIndex

/-- The numbers that were issued since the last reset are those from zero up to the next, and they
all find their tokens. As many negative numbers find something too: the slice of the token that they
count back to, but with the current source. Only the numbers beyond either end are unknown, and so
is a span with such an end. -/
theorem lookupToken_of_number (history : List IndexCall) :
    let s := SourceIndex.ofHistory history
    let n : Int := nextNumber history
    (∀ i, IsIssued history i ↔ 0 ≤ i ∧ i < n) ∧
    (∀ i, (∃ span, s.lookupToken i = .ok span) ↔ IsIssued history i ∨ -n ≤ i ∧ i < 0) ∧
    (∀ i, -n ≤ i → i < 0 → ∃ own,
      s.lookupToken (n + i) = .ok own ∧ s.lookupToken i = .ok ⟨currentPath history, own.slice⟩) ∧
    (∀ i, s.lookupToken i = .error .unknownToken ↔ i < -n ∨ n ≤ i) ∧
    (∀ first last, s.lookupSpan first last = .error .unknownToken ↔
      (first < -n ∨ n ≤ first) ∨ (last < -n ∨ n ≤ last)) := by
  intro s n
  have unknown := SourceIndex.lookupToken_eq_error_iff history
  refine ⟨isIssued_iff history, fun i => ?_, fun i => SourceIndex.lookupToken_of_neg,
    unknown, fun first last => ?_⟩
  · rw [SourceIndex.exists_lookupToken_iff, isIssued_iff]
    omega
  · rw [SourceIndex.lookupSpan_eq_unknown_iff, unknown, unknown]

/-- After a second source has been started, the number before zero counts back to the last token of
the first. -/
theorem lookupToken_of_number_negative :
    let history : List IndexCall := [.segment (some ⟨"b.sol"⟩) none, .token ⟨5, 9⟩, .token ⟨0, 4⟩,
      .segment (some ⟨"a.sol"⟩) none]
    (-3 : Int) ≤ -1 ∧ (-1 : Int) < 0 ∧ ∃ own,
      (SourceIndex.ofHistory history).lookupToken (3 + -1) = .ok own ∧
        (SourceIndex.ofHistory history).lookupToken (-1) = .ok ⟨some ⟨"b.sol"⟩, own.slice⟩ := by
  intro history
  exact ⟨by decide, by decide, (lookupToken_of_number history).2.2.1 (-1) (by decide) (by decide)⟩

/-- The number before zero is not issued. It is answered all the same, with the path of one source
and the slice of a token of another. -/
theorem lookupToken_before_zero :
    let history : List IndexCall :=
      [.segment (some ⟨"b.sol"⟩) none, .token ⟨0, 4⟩, .segment (some ⟨"a.sol"⟩) none]
    ¬IsIssued history (-1) ∧
      (SourceIndex.ofHistory history).lookupToken 1 = .ok ⟨some ⟨"a.sol"⟩, ⟨0, 4⟩⟩ ∧
      (SourceIndex.ofHistory history).lookupToken (-1) = .ok ⟨some ⟨"b.sol"⟩, ⟨0, 4⟩⟩ := by
  intro history
  exact ⟨fun issued => absurd ((isIssued_iff history (-1)).mp issued).1 (by decide), rfl, rfl⟩

end Comptime
