import Comptime.Proofs.Source.History
import Mathlib.Data.Int.Order.Basic
import Mathlib.Data.List.Chain

/-! The tokens of one segment. Where each of them stops before the next one starts, those of higher
numbers start and stop later. -/
namespace Comptime

/-- The slices of the tokens of the segment that was started last, after a history with the latest
call first. A reset registers the built-in one. -/
def segmentSlices : List IndexCall → List Slice
  | [] | .reset :: _ => [⟨0, 0⟩]
  | .segment .. :: _ => []
  | .token slice :: earlier => segmentSlices earlier ++ [slice]

/-- Slices that run forward, each starting no earlier than the one before stops. -/
structure InOrder (slices : List Slice) : Prop where
  forward : ∀ s ∈ slices, s.start ≤ s.stop
  apart : slices.IsChain fun a b => a.stop ≤ b.start

theorem InOrder.pairwise {slices : List Slice} (h : InOrder slices) :
    slices.Pairwise fun a b => a.stop ≤ b.start := by
  obtain ⟨forward, apart⟩ := h
  induction slices with
  | nil => exact .nil
  | cons a rest ih =>
    obtain ⟨first, apart⟩ := List.isChain_cons.mp apart
    have pairs := ih (fun s hs => forward s (.tail _ hs)) apart
    refine List.pairwise_cons.mpr ⟨fun c hc => ?_, pairs⟩
    cases rest with
    | nil => cases hc
    | cons b rest =>
      have ab : a.stop ≤ b.start := first b rfl
      rcases List.mem_cons.mp hc with rfl | hc
      · exact ab
      · exact ab.trans ((forward b (by simp)).trans ((List.pairwise_cons.mp pairs).1 c hc))

theorem InOrder.mono {slices : List Slice} (h : InOrder slices) {i j : Nat} {a b : Slice}
    (le : i ≤ j) (ha : slices[i]? = some a) (hb : slices[j]? = some b) :
    a.start ≤ b.start ∧ a.stop ≤ b.stop := by
  obtain ⟨hi, rfl⟩ := List.getElem?_eq_some_iff.mp ha
  obtain ⟨hj, rfl⟩ := List.getElem?_eq_some_iff.mp hb
  rcases le.eq_or_lt with rfl | less
  · exact ⟨le_rfl, le_rfl⟩
  · have apart := List.pairwise_iff_getElem.mp h.pairwise i j hi hj less
    have first := h.forward _ (List.getElem_mem hi)
    have second := h.forward _ (List.getElem_mem hj)
    exact ⟨first.trans apart, apart.trans second⟩

theorem segmentStart_add_length (history : List IndexCall) :
    segmentStart history + (segmentSlices history).length = nextNumber history := by
  induction history with
  | nil => rfl
  | cons call earlier ih =>
    cases call with
    | reset | segment => rfl
    | token slice => simp [segmentStart, segmentSlices, nextNumber, ← ih, Nat.add_assoc]

namespace SourceIndex

theorem slices_drop (history : List IndexCall) :
    (ofHistory history).slices.drop (segmentStart history) = segmentSlices history := by
  induction history with
  | nil => rfl
  | cons call earlier ih =>
    cases call with
    | reset => rfl
    | segment path text =>
      rw [ofHistory, IndexCall.perform, (startSegment_segments ..).2, segmentStart, ← length_slices,
        List.drop_length, segmentSlices]
    | token slice =>
      have known : segmentStart earlier ≤ (ofHistory earlier).slices.length := by
        have := segmentStart_add_length earlier
        rw [length_slices]; omega
      simp [ofHistory, IndexCall.perform, insertToken, segmentStart, segmentSlices, ← ih,
        List.drop_append_of_le_length known]

theorem last_segment_owns (history : List IndexCall) {n : Nat} (h : segmentStart history ≤ n) :
    ∃ g, (ofHistory history).Owns g n ∧ g.path = currentPath history := by
  obtain ⟨front, g, segments, path, first⟩ := last_segment history
  have sorted := (isOrdered_ofHistory history).sorted
  rw [segments, List.pairwise_append] at sorted
  refine ⟨g, ⟨front, [], segments, fun a ha => ?_, by omega, by simp⟩, path⟩
  have := sorted.2.2 a ha g (by simp)
  omega

theorem lookupToken_of_segment {earlier later : List IndexCall} (h : .reset ∉ later) {k : Nat}
    {slice : Slice} (found : (segmentSlices earlier)[k]? = some slice) :
    (ofHistory (later ++ earlier)).lookupToken (segmentStart earlier + k : Nat) =
      .ok ⟨currentPath earlier, slice⟩ := by
  obtain ⟨g, owned, path⟩ := last_segment_owns earlier (Nat.le_add_right (segmentStart earlier) k)
  rw [← slices_drop, List.getElem?_drop] at found
  obtain ⟨owned, found⟩ := owns_ofHistory h owned found
  rw [← path]
  exact lookupToken_of_owns owned found

end SourceIndex

/-- A number is that of a token of the segment that was started last, which has a slice. -/
def Places (history : List IndexCall) (i : Int) (slice : Slice) : Prop :=
  ∃ k : Nat, i = (segmentStart history + k : Nat) ∧ (segmentSlices history)[k]? = some slice

section
variable {history later : List IndexCall} {i j : Int} {a b slice : Slice}

theorem exists_places (first : segmentStart history ≤ i) (last : i < nextNumber history) :
    ∃ slice, Places history i slice := by
  obtain ⟨k, hk⟩ := Int.eq_ofNat_of_zero_le (Int.sub_nonneg.mpr first)
  have known : k < (segmentSlices history).length := by
    have := segmentStart_add_length history
    omega
  exact ⟨_, k, by push_cast; omega, List.getElem?_eq_getElem known⟩

theorem Places.lookupToken (h : Places history i slice) (noReset : .reset ∉ later) :
    (SourceIndex.ofHistory (later ++ history)).lookupToken i =
      .ok ⟨currentPath history, slice⟩ := by
  obtain ⟨k, rfl, found⟩ := h
  exact SourceIndex.lookupToken_of_segment noReset found

theorem Places.mono (order : InOrder (segmentSlices history)) (ha : Places history i a)
    (hb : Places history j b) (le : i ≤ j) : a.start ≤ b.start ∧ a.stop ≤ b.stop := by
  obtain ⟨k, rfl, ha⟩ := ha
  obtain ⟨l, rfl, hb⟩ := hb
  exact order.mono (by omega) ha hb

end
end Comptime
