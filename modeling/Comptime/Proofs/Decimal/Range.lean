import Comptime.Proofs.Decimal.Rounding

/-! Where rounding leaves the range of a precision. The bound on high numbers does not depend on how
many digits low ones keep, and a low number vanishes below half of the least unit. -/
namespace Comptime

/-- A number rounded to so many digits has its leading digit too high. -/
def Overflows (digits : Nat) (q : ℚ) : Prop := Precision.maxAdjusted < leading (roundedTo digits q)

theorem abs_roundedTo_le (digits : Nat) {q : ℚ} (hq : q ≠ 0) :
    |roundedTo digits q| ≤ 10 ^ (leading q + 1) := by
  have top : |q| < 10 ^ (leading q + 1) := (leading_lt_iff hq _).mp (by omega)
  have sign : |(SignType.sign q : ℚ)| = 1 := by
    rcases lt_or_gt_of_ne hq with h | h
    · simp [sign_neg h]
    · simp [sign_pos h]
  rw [roundedTo, abs_mul, sign, one_mul]
  generalize he : leading q - digits + 1 = e
  have split : (10 : ℚ) ^ (leading q + 1) = 10 ^ digits * 10 ^ e := by
    rw [← zpow_natCast, ← ten_zpow_add]
    congr 1; omega
  have high : halfUp (|q| / 10 ^ e) ≤ 10 ^ digits := by
    rw [split, ← div_lt_iff₀ (ten_zpow_pos e)] at top
    rw [halfUp_le_iff]; push_cast; linarith
  have low : 0 ≤ halfUp (|q| / 10 ^ e) := by
    have := div_nonneg (abs_nonneg q) (ten_zpow_pos e).le
    rw [le_halfUp_iff]; push_cast; linarith
  rw [split, abs_of_nonneg (mul_nonneg (by exact_mod_cast low) (ten_zpow_pos e).le)]
  exact mul_le_mul_of_nonneg_right (by exact_mod_cast high) (ten_zpow_pos e).le

namespace Precision

theorem rounded_nonneg (p : Precision) {q : ℚ} (h : 0 ≤ q) : 0 ≤ p.rounded q := by
  rw [p.rounded_of_nonneg h]; exact p.roundedSize_nonneg h

theorem rounded_nonpos (p : Precision) {q : ℚ} (h : q ≤ 0) : p.rounded q ≤ 0 := by
  have := p.rounded_nonneg (neg_nonneg.mpr h)
  rwa [p.rounded_neg, neg_nonneg] at this

theorem leading_rounded_le (p : Precision) {q : ℚ} (h : leading q < minAdjusted) :
    leading (p.rounded q) ≤ maxAdjusted := by
  by_cases hr : p.rounded q = 0
  · simp [hr, leading, maxAdjusted]
  have hq : q ≠ 0 := fun hq => hr (by rw [hq, p.rounded_zero])
  have small : |p.rounded q| ≤ 10 ^ minAdjusted := by
    rw [p.abs_rounded, ← p.rounded_ten_zpow le_rfl]
    exact p.rounded_mono ((leading_lt_iff hq _).mp h).le
  have lead := leading_mono hr (small.trans_eq (abs_of_pos (ten_zpow_pos _)).symm)
  rw [leading_ten_zpow] at lead
  exact lead.trans (by decide)

theorem overflows_iff (p : Precision) (q : ℚ) :
    Overflows p.digits q ↔ maxAdjusted < leading (p.rounded q) := by
  by_cases low : q = 0 ∨ minAdjusted ≤ leading q
  · rw [p.rounded_eq_roundedTo low, Overflows]
  · obtain ⟨hq, low⟩ := not_or.mp low
    have below := p.leading_rounded_le (not_le.mp low)
    have carry : leading (roundedTo p.digits q) ≤ maxAdjusted := by
      by_cases hr : roundedTo p.digits q = 0
      · simp [hr, leading, maxAdjusted]
      have := leading_mono hr ((abs_roundedTo_le p.digits hq).trans_eq
        (abs_of_pos (ten_zpow_pos _)).symm)
      rw [leading_ten_zpow] at this
      simp only [minAdjusted, maxAdjusted] at low ⊢; omega
    exact iff_of_false (not_lt.mpr carry) (not_lt.mpr below)

theorem not_overflows_of_le (p : Precision) {q : ℚ} {k : ℤ} (low : minAdjusted ≤ k)
    (high : k ≤ maxAdjusted) (h : |q| ≤ 10 ^ k) : ¬Overflows p.digits q := by
  rw [p.overflows_iff, not_lt]
  by_cases hr : p.rounded q = 0
  · simp [hr, leading, maxAdjusted]
  · have small : |p.rounded q| ≤ |10 ^ k| := by
      rw [p.abs_rounded, abs_of_pos (ten_zpow_pos k), ← p.rounded_ten_zpow low]
      exact p.rounded_mono h
    have lead := leading_mono hr small
    rw [leading_ten_zpow] at lead
    exact lead.trans high

theorem rounded_eq_zero_iff (p : Precision) (q : ℚ) :
    p.rounded q = 0 ↔ 2 * |q| < 10 ^ p.lowestExp := by
  refine ⟨fun h => ?_, p.rounded_eq_zero⟩
  by_contra high
  rw [not_lt] at high
  have pos : 0 < |q| := by have := ten_zpow_pos p.lowestExp; linarith
  have dig := p.digits_pos
  -- Half of the last digit that is kept is no larger than the number.
  have half : (10 : ℚ) ^ p.unitExp |q| ≤ 2 * |q| := by
    by_cases unit : p.unitExp |q| = p.lowestExp
    · rwa [unit]
    · have : p.unitExp |q| ≤ leading |q| := by simp only [unitExp] at unit ⊢; omega
      have := (le_leading_iff pos.ne' _).mp this
      rw [abs_abs] at this; linarith
  have one : 1 ≤ halfUp (|q| / 10 ^ p.unitExp |q|) := by
    rw [le_halfUp_iff, le_div_iff₀ (ten_zpow_pos _)]; push_cast; linarith
  have kept : 0 < p.rounded |q| := by
    rw [p.rounded_of_nonneg pos.le, roundedSize]
    exact mul_pos (by exact_mod_cast one) (ten_zpow_pos _)
  rw [← p.abs_rounded, h, abs_zero] at kept
  exact kept.false

end Precision
end Comptime
