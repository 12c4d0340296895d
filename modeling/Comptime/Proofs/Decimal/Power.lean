import Comptime.Decimal.Power
import Comptime.Proofs.Decimal.Order
import Comptime.Proofs.Decimal.Power.Whole

/-! Powers with a whole exponent round a number so near to the exact power that only what lies next
to the middle of two results can be rounded differently, and what has few enough digits is kept. -/
namespace Comptime

/-- An outcome is that of rounding a number that is off the given one in no more than the first
digit beyond those of the precision. -/
def RoundsNear (p : Precision) (q : ℚ) (o : Except Signal Decimal) : Prop :=
  ∃ z, |z - q| ≤ 10 ^ (-(p.digits + 1) : ℤ) * errorScale q ∧ Rounds p z o

theorem Rounds.near {p : Precision} {q : ℚ} {o : Except Signal Decimal} (h : Rounds p q o) :
    RoundsNear p q o := by
  refine ⟨q, ?_, h⟩
  rw [sub_self, abs_zero]
  exact mul_nonneg (ten_zpow_pos _).le (errorScale_pos q).le

namespace Precision

theorem rounded_of_abs_sub_lt (p : Precision) {z : ℚ} {n : ℤ} (hz : 0 ≤ z)
    (h : |z - n * 10 ^ p.unitExp z| < 10 ^ p.unitExp z / 2) :
    p.rounded z = n * 10 ^ p.unitExp z := by
  have pos := ten_zpow_pos (p.unitExp z)
  rw [p.rounded_of_nonneg hz, roundedSize]
  congr 2
  have split := abs_lt.mp h
  apply le_antisymm
  · rw [halfUp_le_iff, div_lt_iff₀ pos]; linarith
  · rw [le_halfUp_iff, le_div_iff₀ pos]; linarith

theorem leading_of_near {q z : ℚ} {n : ℤ} {digits : Nat} (hd : 0 < digits) (hq : 0 < q)
    (units : q = n * 10 ^ (leading q - digits + 1))
    (off : |z - q| < 10 ^ (leading q - digits + 1) / 10) :
    0 < z ∧ leading q - 1 ≤ leading z ∧ leading z ≤ leading q := by
  have high := (leading_lt_iff hq.ne' (leading q + 1)).mp (by omega)
  have least := (le_leading_iff hq.ne' _).mp le_rfl
  rw [abs_of_pos hq] at high least
  have unit : (10 : ℚ) ^ (leading q - digits + 1) ≤ 10 ^ leading q := ten_zpow_mono (by omega)
  have pos := ten_zpow_pos (leading q - digits + 1)
  have split : (10 : ℚ) ^ (leading q + 1) = (10 ^ digits : ℤ) * 10 ^ (leading q - digits + 1) := by
    push_cast
    rw [← zpow_natCast, ← ten_zpow_add]
    congr 1; omega
  have lower : (10 : ℚ) ^ leading q = 10 * 10 ^ (leading q - 1) := by
    rw [← zpow_one_add₀ (by norm_num)]; congr 1; omega
  have upper : q + 10 ^ (leading q - digits + 1) ≤ 10 ^ (leading q + 1) := by
    generalize (10 : ℚ) ^ (leading q - digits + 1) = u at *
    rw [split] at high ⊢
    rw [units] at high ⊢
    have one : n + 1 ≤ 10 ^ digits := by exact_mod_cast lt_of_mul_lt_mul_right high pos.le
    rw [← add_one_mul]
    exact mul_le_mul_of_nonneg_right (by exact_mod_cast one) pos.le
  have sides := abs_lt.mp off
  have hz : 0 < z := by linarith
  refine ⟨hz, ?_, ?_⟩
  · rw [le_leading_iff hz.ne', abs_of_pos hz]; linarith
  · rw [← Int.lt_add_one_iff, leading_lt_iff hz.ne', abs_of_pos hz]; linarith

theorem rounded_eq_zero_of_near (p : Precision) {z : ℚ}
    (near : |z| ≤ 10 ^ (-(p.digits + 1) : ℤ) * 10 ^ minAdjusted) : p.rounded z = 0 := by
  apply p.rounded_eq_zero
  rw [← ten_zpow_add] at near
  have unit : (10 : ℚ) ^ p.lowestExp = 10 ^ (-(p.digits + 1) + minAdjusted : ℤ) * 100 := by
    rw [show (100 : ℚ) = 10 ^ (2 : ℤ) by norm_num, ← ten_zpow_add]
    congr 1
    simp only [lowestExp]; ring
  have := ten_zpow_pos (-(p.digits + 1) + minAdjusted : ℤ)
  rw [unit]; linarith

section
variable {q z : ℚ} {digits : Nat} (hq : 0 < q) (near : |z - q| ≤ 10 ^ (-(digits + 1) : ℤ) * q)
include hq near

theorem abs_sub_lt_tenth_of_near : |z - q| < 10 ^ (leading q - digits + 1) / 10 := by
  have high := (leading_lt_iff hq.ne' (leading q + 1)).mp (by omega)
  rw [abs_of_pos hq] at high
  have part : (10 : ℚ) ^ (-(digits + 1) : ℤ) * 10 ^ (leading q + 1) =
    10 ^ (leading q - digits) := by
    rw [← ten_zpow_add]; congr 1; ring
  have tenth : (10 : ℚ) ^ (leading q - digits + 1) = 10 * 10 ^ (leading q - digits) := by
    rw [ten_zpow_add, zpow_one, mul_comm]
  have := mul_lt_mul_of_pos_left high (ten_zpow_pos (-(digits + 1) : ℤ))
  rw [part] at this
  linarith

/-- The last digit of a shorter number is one place lower, but then the longer one is hardly above a
power of ten. -/
theorem abs_sub_lt_half_of_shorter (hd : 0 < digits) (hz : 0 < z)
    (shorter : leading z < leading q) :
    |z - q| < 10 ^ (leading q - digits) / 2 := by
  have off := abs_sub_lt_tenth_of_near hq near
  have below := (leading_lt_iff hz.ne' _).mp shorter
  rw [abs_of_pos hz] at below
  have small : (10 : ℚ) ^ (leading q - digits + 1) ≤ 10 ^ leading q := ten_zpow_mono (by omega)
  have double : q ≤ 2 * 10 ^ leading q := by
    have := (abs_lt.mp off).1
    linarith
  have share : (10 : ℚ) ^ (-(digits + 1) : ℤ) * 10 ^ leading q =
    10 ^ (leading q - digits) / 10 := by
    rw [← ten_zpow_add, show -(digits + 1 : ℤ) + leading q = leading q - digits - 1 by ring,
      zpow_sub_one₀ (by norm_num)]
    rfl
  have close := near.trans (mul_le_mul_of_nonneg_left double (ten_zpow_pos _).le)
  rw [mul_left_comm, share] at close
  have := ten_zpow_pos (leading q - digits)
  linarith

end

theorem rounded_of_near (p : Precision) {q z : ℚ} {c k : ℤ} (h : q = c * 10 ^ k)
    (digits : |c| < 10 ^ p.digits) (low : q = 0 ∨ minAdjusted ≤ leading q)
    (near : |z - q| ≤ 10 ^ (-(p.digits + 1) : ℤ) * errorScale q) :
    p.rounded z = q := by
  wlog hq : 0 ≤ q generalizing q z c
  · have opposite :=
      this (q := -q) (z := -z) (c := -c) (by rw [h]; push_cast; ring) (by rwa [abs_neg])
      (by rwa [neg_eq_zero, leading_neg]) (by rwa [neg_sub_neg, abs_sub_comm, errorScale, abs_neg])
      (by linarith)
    rwa [p.rounded_neg, neg_inj] at opposite
  have dig := p.digits_pos
  rcases hq.eq_or_lt with rfl | hq
  · rw [errorScale, abs_zero, max_eq_right (ten_zpow_pos _).le, sub_zero] at near
    exact p.rounded_eq_zero_of_near near
  have low := low.resolve_left hq.ne'
  have top := leading_lt_of_digits hq.ne' h digits
  have least := (le_leading_iff hq.ne' _).mp le_rfl
  rw [abs_of_pos hq] at least
  rw [errorScale, abs_of_pos hq, max_eq_left ((ten_zpow_mono low).trans least)] at near
  obtain ⟨n, hn⟩ : ∃ n : ℤ, q = n * 10 ^ (leading q - p.digits + 1) :=
    ⟨c * 10 ^ (k - (leading q - p.digits + 1)).toNat, by
      rw [Int.cast_mul, mul_assoc, ← ten_zpow_eq_mul (by omega), ← h]⟩
  have off := abs_sub_lt_tenth_of_near hq near
  obtain ⟨hz, short, long⟩ := leading_of_near dig hq hn off
  have unit : p.unitExp z ≤ leading q - p.digits + 1 := by
    simp only [unitExp, lowestExp] at low ⊢; omega
  have whole : q = (n * 10 ^ (leading q - p.digits + 1 - p.unitExp z).toNat : ℤ) *
    10 ^ p.unitExp z := by
    rw [Int.cast_mul, mul_assoc, ← ten_zpow_eq_mul unit, ← hn]
  rw [whole]
  refine p.rounded_of_abs_sub_lt hz.le ?_
  rw [← whole]
  -- The last digit of `z` stands where that of `q` does, or one place lower.
  by_cases same : leading q ≤ leading z
  · have : p.unitExp z = leading q - p.digits + 1 := by simp only [unitExp] at unit ⊢; omega
    rw [this]
    have := ten_zpow_pos (leading q - p.digits + 1)
    linarith
  · have half := abs_sub_lt_half_of_shorter hq near dig hz (not_le.mp same)
    have place : (10 : ℚ) ^ (leading q - p.digits) ≤ 10 ^ p.unitExp z :=
      ten_zpow_mono (by simp only [unitExp]; omega)
    linarith

theorem exists_rounded_eq_roundedTo (p : Precision) {q z : ℚ} (hq : q ≠ 0)
    (low : minAdjusted ≤ leading q) (near : |z - q| ≤ 10 ^ (-(p.digits + 1) : ℤ) * |q|) :
    ∃ z', |z' - q| ≤ 10 ^ (-(p.digits + 1) : ℤ) * |q| ∧ p.rounded z = roundedTo p.digits z' := by
  wlog pos : 0 < q generalizing q z
  · obtain ⟨z', near', same⟩ := this (q := -q) (z := -z) (neg_ne_zero.mpr hq) (by rwa [leading_neg])
      (by rwa [neg_sub_neg, abs_sub_comm, abs_neg])
      (neg_pos.mpr ((not_lt.mp pos).lt_of_ne hq))
    refine ⟨-z', ?_, ?_⟩
    · rwa [← neg_add', abs_neg, ← sub_neg_eq_add, ← abs_neg q]
    · rw [roundedTo_neg, ← same, p.rounded_neg, neg_neg]
  by_cases high : minAdjusted ≤ leading z
  · exact ⟨z, near, p.rounded_eq_roundedTo (.inr high)⟩
  rw [abs_of_pos pos] at near ⊢
  have least := (le_leading_iff hq _).mp low
  rw [abs_of_pos pos] at least
  have hundredth : (10 : ℚ) ^ (-(p.digits + 1) : ℤ) ≤ 1 / 100 := by
    have dig := p.digits_pos
    rw [show (1 / 100 : ℚ) = 10 ^ (-2 : ℤ) by norm_num]
    exact ten_zpow_mono (by omega)
  have share := mul_le_mul_of_nonneg_right hundredth pos.le
  have sides := abs_le.mp near
  have hz : 0 < z := by linarith
  have below := (leading_lt_iff hz.ne' _).mp (not_le.mp high)
  rw [abs_of_pos hz] at below
  -- Numbers below the bound have fewer digits, and this one is rounded up to the bound itself.
  refine ⟨10 ^ minAdjusted, ?_, ?_⟩
  · rw [abs_sub_comm, abs_of_nonneg (by linarith)]; linarith
  · have unit : p.unitExp z = p.lowestExp := by simp only [unitExp, lowestExp] at high ⊢; omega
    have whole : (10 : ℚ) ^ minAdjusted =
      (10 ^ (minAdjusted - p.lowestExp).toNat : ℤ) * 10 ^ p.unitExp z := by
      rw [unit]
      exact ten_zpow_eq_mul (by have := p.digits_pos; simp only [lowestExp]; omega)
    have split : (10 : ℚ) ^ (-(p.digits + 1) : ℤ) * 10 ^ minAdjusted = 10 ^ p.unitExp z / 100 := by
      rw [unit, show (100 : ℚ) = 10 ^ (2 : ℤ) by norm_num, ← ten_zpow_add,
        ← zpow_sub₀ (by norm_num)]
      congr 1
      simp only [lowestExp]; ring
    have double : q ≤ 2 * 10 ^ minAdjusted := by linarith
    have close := mul_le_mul_of_nonneg_left double (ten_zpow_pos (-(p.digits + 1) : ℤ)).le
    rw [mul_left_comm, split] at close
    rw [← p.rounded_eq_roundedTo (.inr (leading_ten_zpow _).ge), p.rounded_ten_zpow le_rfl, whole]
    refine p.rounded_of_abs_sub_lt hz.le ?_
    have := ten_zpow_pos (p.unitExp z)
    rw [← whole, abs_sub_comm, abs_of_nonneg (by linarith)]
    linarith

end Precision

namespace Decimal

/-! Powers by squaring. -/

theorem value_pow (x : Decimal) (n : Nat) :
    x.value ^ n = signOf (x.neg && n % 2 == 1) * x.magnitude ^ n := by
  rw [value, mul_pow]
  congr 1
  rcases Nat.even_or_odd n with h | h
  · cases x.neg <;> simp [h.neg_one_pow, Nat.even_iff.mp h]
  · cases x.neg <;> simp [h.neg_one_pow, Nat.odd_iff.mp h]

theorem growth_le (w : Precision) {k : Nat} (h : k * w.unitRoundoff ≤ 1 / 2) :
    (1 + w.unitRoundoff) ^ k ≤ 1 + 2 * (k * w.unitRoundoff) := by
  have pos := w.unitRoundoff_pos
  have small : w.unitRoundoff ≤ 1 := by
    rw [Precision.unitRoundoff]
    have := w.digits_pos
    have := zpow_le_one_of_nonpos₀ (show (1 : ℚ) ≤
      10 by norm_num) (show (1 - w.digits : ℤ) ≤ 0 by omega)
    linarith
  have shrunk := one_add_mul_le_pow (a := -w.unitRoundoff) (by linarith) k
  rw [mul_neg, ← sub_eq_add_neg] at shrunk
  have both : (1 + w.unitRoundoff) ^ k * (1 + -w.unitRoundoff) ^ k ≤ 1 := by
    rw [← mul_pow]
    exact pow_le_one₀ (mul_nonneg (by linarith) (by linarith)) (by nlinarith)
  have most := mul_le_mul_of_nonneg_left shrunk (zero_le_one.trans (one_le_growth w k))
  generalize (1 + w.unitRoundoff) ^ k = g at *
  have part : 0 ≤ k * w.unitRoundoff := by positivity
  generalize k * w.unitRoundoff = s at *
  by_contra more
  have := mul_lt_mul_of_pos_right (not_le.mp more) (show 0 < 1 - s by linarith)
  have := mul_nonneg part (show 0 ≤ 1 - 2 * s by linarith)
  linarith

theorem drifts_powerBase (w : Precision) {x : Decimal} (hx : x.coeff ≠ 0) (inverse : Bool) :
    Drifts w (if inverse then 2 else 0) (if inverse then x.value⁻¹
      else x.value) (powerBase w x inverse) := by
  cases inverse with
  | false => exact Near.refl w _
  | true =>
    refine drifts_roundTo .even (k := 1) ?_
    obtain ⟨m, hm, near⟩ := value_quotient w (a := ⟨false, 1, 0⟩) hx
    have ratio := value_div ⟨false, 1, 0⟩ x
    have large := le_magnitude_div w (a := ⟨false, 1, 0⟩) one_ne_zero hx
    rw [show (⟨false, 1, 0⟩ : Decimal).value = 1 by simp [value, magnitude], one_div] at ratio
    have size : |x.value⁻¹| = (⟨false, 1, 0⟩ : Decimal).magnitude / x.magnitude := by
      rw [ratio, abs_mul, abs_signOf, one_mul, abs_of_nonneg]
      exact div_nonneg (magnitude_nonneg _) (magnitude_nonneg _)
    generalize (⟨false, 1, 0⟩ : Decimal).magnitude / x.magnitude = r at *
    generalize quotientExp w ⟨false, 1, 0⟩ x = e at *
    have unit := ten_zpow_pos e
    have cut : |(m : ℚ) - r / 10 ^ e| ≤ 1 := by
      have low := Int.floor_le (r / 10 ^ e)
      have high := Int.lt_floor_add_one (r / 10 ^ e)
      rw [abs_le]
      rcases near with rfl | ⟨rfl, -⟩ <;> push_cast <;> constructor <;> linarith
    have off : |m * 10 ^ e - r| ≤ 10 ^ e := by
      have : (m : ℚ) * 10 ^ e - r = (m - r / 10 ^ e) * 10 ^ e := by
        rw [sub_mul, div_mul_cancel₀ _ unit.ne']
      rw [this, abs_mul, abs_of_pos unit]
      exact mul_le_of_le_one_left unit.le cut
    have share : (10 : ℚ) ^ e ≤ w.unitRoundoff * 10 ^ (e + w.digits) := by
      rw [Precision.unitRoundoff, div_mul_eq_mul_div, ← ten_zpow_add,
        show (1 - w.digits + (e + w.digits) : ℤ) = e + 1 by ring, ten_zpow_add, zpow_one]
      linarith
    rw [if_pos rfl, Near, hm, ratio, ← mul_sub, abs_mul, abs_signOf, one_mul,
      pow_one, add_sub_cancel_left,
      ← ratio]
    calc |m * 10 ^ e - r| ≤ w.unitRoundoff * 10 ^ (e + w.digits) := off.trans share
      _ ≤ w.unitRoundoff * |x.value⁻¹| :=
          mul_le_mul_of_nonneg_left (size ▸ large) w.unitRoundoff_pos.le
      _ ≤ w.unitRoundoff * errorScale x.value⁻¹ :=
          mul_le_mul_of_nonneg_left (abs_le_errorScale _) w.unitRoundoff_pos.le

theorem errorScale_signOf_mul (neg : Bool) (q : ℚ) :
    errorScale (signOf neg * q) = errorScale q := by
  rw [errorScale, abs_mul, abs_signOf, one_mul]; rfl

/-- What overflows on the way lies above the bounds, or so near below them that a number above them
lies next to it. -/
theorem roundsNear_of_drifted_overflow {p w : Precision} {k : Nat} {q : ℚ} {s : Signal} (neg : Bool)
    (hq : 0 ≤ q) (growth : (1 + w.unitRoundoff) ^ k ≤ 1 + 10 ^ (-(p.digits + 1) : ℤ))
    (h : Drifts w k q (.error s)) : RoundsNear p (signOf neg * q) (.error s) := by
  obtain ⟨rfl, high⟩ := h
  have tenth : (10 : ℚ) ^ (-(p.digits + 1) : ℤ) ≤ 1 :=
    zpow_le_one_of_nonpos₀ (by norm_num) (by omega)
  generalize hm : (10 : ℚ) ^ (Precision.maxAdjusted + 1) = m at high
  have huge : (4 : ℚ) ≤ m := by
    rw [← hm]
    calc (4 : ℚ) ≤ 10 ^ (1 : ℤ) := by norm_num
      _ ≤ 10 ^ (Precision.maxAdjusted + 1) := ten_zpow_mono (by decide)
  have large : max |q| 1 = q := by
    rw [abs_of_nonneg hq, max_eq_left_iff]
    by_contra small
    rw [max_eq_right (by rw [abs_of_nonneg hq]; linarith)] at high
    linarith
  rw [large] at high
  refine ⟨signOf neg * max q m, ?_, rfl, ?_⟩
  · rw [← mul_sub, abs_mul, abs_signOf, one_mul, errorScale_signOf_mul,
      abs_of_nonneg (sub_nonneg.mpr (le_max_left ..))]
    have own := abs_le_errorScale q
    rw [abs_of_nonneg hq] at own
    rcases max_cases q m with ⟨hm, -⟩ | ⟨hm, -⟩ <;> rw [hm]
    · rw [sub_self]; exact mul_nonneg (ten_zpow_pos _).le (errorScale_pos q).le
    · have := mul_le_mul_of_nonneg_left own (ten_zpow_pos (-(p.digits + 1) : ℤ)).le
      have := mul_le_mul_of_nonneg_right growth hq
      linarith
  · refine p.lt_leading_rounded (k := Precision.maxAdjusted + 1) (by omega) ?_
    rw [abs_mul, abs_signOf, one_mul, hm]
    exact (le_max_right ..).trans (le_abs_self _)

theorem roundsNear_of_drifts {p w : Precision} {k : Nat} {q : ℚ} {o : Except Signal Decimal}
    (neg : Bool) (hq : 0 ≤ q) (few : 2 * (k * w.unitRoundoff) ≤ 10 ^ (-(p.digits + 1) : ℤ))
    (h : Drifts w k q o) :
    RoundsNear p (signOf neg * q) (o >>= fun d => round p { d with neg }) := by
  have tenth : (10 : ℚ) ^ (-(p.digits + 1) : ℤ) ≤ 1 :=
    zpow_le_one_of_nonpos₀ (by norm_num) (by omega)
  have growth := (growth_le w (k := k) (by linarith)).trans (add_le_add_right few 1)
  cases o with
  | ok d =>
    refine ⟨signOf neg * |d.value|, ?_, ?_⟩
    · rw [← mul_sub, abs_mul, abs_signOf, one_mul, errorScale_signOf_mul]
      exact (Near.abs h hq).trans (mul_le_mul_of_nonneg_right (by linarith) (errorScale_pos q).le)
    · rw [abs_value]
      exact round_rounds p { d with neg }
  | error s => exact roundsNear_of_drifted_overflow neg hq growth h

/-! Powers that leave the bounds. -/

theorem ten_pow_le_pow {z : ℚ} {k m n : Nat} (hz : 1 + 1 / 10 ^ k ≤ z) (hn : 10 ^ k * (4 * m) ≤ n) :
    (10 : ℚ) ^ m ≤ z ^ n := by
  have part : (0 : ℚ) < 1 / 10 ^ k := by positivity
  have double : (2 : ℚ) ≤ z ^ 10 ^ k := by
    calc (2 : ℚ) = 1 + (10 ^ k : Nat) * (1 / 10 ^ k) := by
          push_cast; rw [mul_one_div_cancel (by positivity)]; norm_num
      _ ≤ (1 + 1 / 10 ^ k) ^ 10 ^ k := one_add_mul_le_pow (by linarith) _
      _ ≤ z ^ 10 ^ k := pow_le_pow_left₀ (by linarith) hz _
  calc (10 : ℚ) ^ m ≤ (2 ^ 4) ^ m := pow_le_pow_left₀ (by norm_num) (by norm_num) m
    _ = 2 ^ (4 * m) := (pow_mul ..).symm
    _ ≤ (z ^ 10 ^ k) ^ (4 * m) := pow_le_pow_left₀ (by norm_num) double _
    _ = z ^ (10 ^ k * (4 * m)) := (pow_mul ..).symm
    _ ≤ z ^ n := pow_le_pow_right₀ (by linarith) hn

theorem nearnessToOne_of_near {x : Decimal} (h : x.adjusted = 0 ∨ x.adjusted = -1) :
    nearnessToOne x = (-x.exp).toNat := by
  simp only [nearnessToOne, Bool.or_eq_true, decide_eq_true_eq, h, if_true]

theorem nearnessToOne_of_far {x : Decimal} (h : ¬(x.adjusted = 0 ∨ x.adjusted = -1)) :
    nearnessToOne x = 0 := by
  simp only [nearnessToOne, Bool.or_eq_true, decide_eq_true_eq, h, if_false]

theorem one_add_le_magnitude {x : Decimal} (hx : x.coeff ≠ 0) (hx₁ : x.magnitude ≠ 1)
    (h : 0 ≤ x.adjusted) : 1 + 1 / 10 ^ nearnessToOne x ≤ x.magnitude := by
  have dig := digitCount_pos x.coeff
  have low := pow_adjusted_le hx
  by_cases h₀ : x.adjusted = 0
  · rw [nearnessToOne_of_near (Or.inl h₀)]
    rw [h₀, zpow_zero] at low
    have hexp : x.exp ≤ 0 := by simp only [adjusted] at h₀; omega
    rw [magnitude_of_exp_nonpos hexp] at low hx₁ ⊢
    push_cast at low hx₁ ⊢
    rw [le_div_iff₀ (by positivity), one_mul] at low
    rw [ne_eq, div_eq_one_iff_eq (by positivity)] at hx₁
    rw [one_add_div (by positivity), div_le_div_iff_of_pos_right (by positivity)]
    have : 10 ^ (-x.exp).toNat + 1 ≤ x.coeff :=
      Nat.lt_of_le_of_ne (by exact_mod_cast low) (fun he => hx₁ (by exact_mod_cast he.symm))
    exact_mod_cast this
  · have ten : (10 : ℚ) ^ (1 : ℤ) ≤ x.magnitude := (ten_zpow_mono (by omega)).trans low
    rw [nearnessToOne_of_far (by omega)]
    rw [zpow_one] at ten; linarith

theorem one_add_le_inv_magnitude {x : Decimal} (hx : x.coeff ≠ 0) (h : x.adjusted < 0) :
    1 + 1 / 10 ^ nearnessToOne x ≤ x.magnitude⁻¹ := by
  have dig := digitCount_pos x.coeff
  have pos := magnitude_pos hx
  have high := lt_pow_adjusted x
  rw [le_inv_comm₀ (by positivity) pos]
  by_cases h₁ : x.adjusted = -1
  · rw [nearnessToOne_of_near (Or.inr h₁)]
    rw [h₁, neg_add_cancel, zpow_zero] at high
    have hexp : x.exp ≤ 0 := by simp only [adjusted] at h₁; omega
    rw [magnitude_of_exp_nonpos hexp] at high ⊢
    push_cast at high ⊢
    rw [div_lt_one (by positivity)] at high
    have unit : (0 : ℚ) < 10 ^ (-x.exp).toNat := by positivity
    have below : (x.coeff : ℚ) ≤ 10 ^ (-x.exp).toNat - 1 := by
      have : x.coeff + 1 ≤ 10 ^ (-x.exp).toNat := by exact_mod_cast high
      rw [le_sub_iff_add_le]; exact_mod_cast this
    rw [one_add_div unit.ne', inv_div, div_le_div_iff₀ unit (by linarith)]
    nlinarith
  · have tenth : x.magnitude ≤ 10 ^ (-1 : ℤ) := high.le.trans (ten_zpow_mono (by omega))
    rw [nearnessToOne_of_far (by omega)]
    refine tenth.trans ?_
    norm_num

theorem le_of_leavesBounds {p : Precision} {x y : Decimal} (hb : leavesBounds p x y = true)
    (hy : y.coeff ≠ 0) {n : Nat} (hn : y.magnitude = n) :
    10 ^ nearnessToOne x * (4 * (1000002 + p.digits)) ≤ n := by
  have low := pow_adjusted_le hy
  have size : ((10 ^ (digitCount (1000002 + p.digits) + nearnessToOne x + 2) : Nat) : ℚ) ≤ n := by
    rw [hn] at low
    refine le_trans ?_ low
    push_cast
    rw [← zpow_natCast]
    exact ten_zpow_mono (by simpa [leavesBounds] using hb)
  calc 10 ^ nearnessToOne x * (4 * (1000002 + p.digits))
      ≤ 10 ^ nearnessToOne x * (10 ^ 2 * 10 ^ digitCount (1000002 + p.digits)) := by
        refine Nat.mul_le_mul_left _ ?_
        have := lt_pow_digitCount (1000002 + p.digits)
        omega
    _ = 10 ^ (digitCount (1000002 + p.digits) + nearnessToOne x + 2) := by ring
    _ ≤ n := by exact_mod_cast size

theorem boundless_up_rounds (p : Precision) (neg : Bool) {q : ℚ}
    (h : 10 ^ (1000002 + p.digits) ≤ |q|) :
    Rounds p q (boundless p neg true) := by
  refine ⟨rfl, p.lt_leading_rounded (k := (1000002 + p.digits : Nat)) ?_ ?_⟩
  · simp only [Precision.maxAdjusted]; omega
  · rwa [zpow_natCast]

theorem boundless_down_rounds (p : Precision) (neg : Bool) {q : ℚ}
    (h : |q| ≤ (10 ^ (1000002 + p.digits))⁻¹) : Rounds p q (boundless p neg false) := by
  have zero : p.rounded q = 0 := by
    apply p.rounded_eq_zero
    have unit : (10 : ℚ) ^ p.lowestExp = 10 ^ 4 * (10 ^ (1000002 + p.digits))⁻¹ := by
      rw [← zpow_natCast, ← zpow_natCast, ← zpow_neg, ← ten_zpow_add]
      congr 1
      simp only [Precision.lowestExp, Precision.minAdjusted]
      push_cast; ring
    have pos : (0 : ℚ) < (10 ^ (1000002 + p.digits))⁻¹ := by positivity
    rw [unit]
    generalize ((10 : ℚ) ^ (1000002 + p.digits))⁻¹ = least at h pos
    linarith
  refine ⟨?_, by simp [zero, leading, Precision.maxAdjusted]⟩
  rw [zero, value_eq_zero_iff]

/-! All powers with a whole exponent. -/

theorem toInt_neg_iff {y : Decimal} (hy : y.coeff ≠ 0) (whole : y.isIntegral = true) :
    y.toInt < 0 ↔ y.neg = true := by
  rw [← value_neg_iff hy, ← toInt_cast whole]
  exact_mod_cast Iff.rfl

theorem magnitude_eq_natAbs {y : Decimal} (whole : y.isIntegral = true) :
    y.magnitude = y.toInt.natAbs := by
  rw [← abs_value, ← toInt_cast whole, Nat.cast_natAbs]
  push_cast; rfl

theorem zpow_toInt (x : ℚ) {y : Decimal} (hy : y.coeff ≠ 0) (whole : y.isIntegral = true) :
    x ^ y.toInt = if y.neg then (x ^ y.toInt.natAbs)⁻¹ else x ^ y.toInt.natAbs := by
  have sign := toInt_neg_iff hy whole
  split_ifs with h
  · obtain ⟨n, hn⟩ := Int.eq_ofNat_of_zero_le (neg_nonneg.mpr (sign.mpr h).le)
    obtain rfl : n = y.toInt.natAbs := by omega
    rw [← zpow_natCast, ← zpow_neg, ← hn, neg_neg]
  · obtain ⟨n, hn⟩ := Int.eq_ofNat_of_zero_le (not_lt.mp (mt sign.mp h))
    rw [hn, zpow_natCast]; rfl

theorem isOdd_eq {y : Decimal} (whole : y.isIntegral = true) :
    y.isOdd = (y.toInt.natAbs % 2 == 1) := by
  have parity : (y.toInt % 2 == 1) = (y.toInt.natAbs % 2 == 1) := by
    rw [Bool.eq_iff_iff, beq_iff_eq, beq_iff_eq]; omega
  unfold isOdd
  by_cases h : y.exp ≤ 0
  · simp [h, parity]
  -- A positive exponent leaves an even number.
  · have even : y.magnitude = (2 * (y.coeff * 5 * 10 ^ (y.exp - 1).toNat) : Nat) := by
      rw [magnitude, ← sub_add_cancel y.exp 1, ten_zpow_add, zpow_one]
      push_cast
      rw [ten_zpow_toNat (by omega), sub_add_cancel]; ring
    rw [magnitude_eq_natAbs whole, Nat.cast_inj] at even
    simp [h, even]

theorem rounds_unit (p : Precision) (neg : Bool) : Rounds p (signOf neg) (.ok ⟨neg, 1, 0⟩) := by
  have unit : p.rounded (signOf neg) = signOf neg := by
    have h := p.rounded_ten_zpow (k := 0) (by decide)
    rw [zpow_zero] at h
    simpa [h] using p.rounded_signOf_mul neg 1
  have lead : leading (signOf neg) = 0 := by simp [leading]
  refine ⟨by rw [unit]; simp [value, magnitude], ?_⟩
  rw [unit, lead]; decide

theorem boundless_rounds (p : Precision) {x y : Decimal} (hx : x.coeff ≠ 0) (hx₁ : x.magnitude ≠ 1)
    (hy : y.coeff ≠ 0) (whole : y.isIntegral = true) (far : leavesBounds p x y = true)
    (neg : Bool) :
    Rounds p (x.value ^ y.toInt) (boundless p neg (decide (0 ≤ x.adjusted) != y.neg)) := by
  have steps := le_of_leavesBounds far hy (magnitude_eq_natAbs whole)
  have size : |x.value ^ y.toInt| =
      if y.neg then (x.magnitude ^ y.toInt.natAbs)⁻¹ else x.magnitude ^ y.toInt.natAbs := by
    rw [zpow_toInt _ hy whole]
    split <;> simp [abs_inv, abs_pow]
  by_cases h : 0 ≤ x.adjusted
  · have growth := ten_pow_le_pow (one_add_le_magnitude hx hx₁ h) steps
    cases hn : y.neg <;> simp only [h, hn, decide_true, if_true,
      Bool.false_eq_true, if_false] at size ⊢
    · exact boundless_up_rounds p neg (size ▸ growth)
    · exact boundless_down_rounds p neg (size ▸ inv_anti₀ (by positivity) growth)
  · have growth := ten_pow_le_pow (one_add_le_inv_magnitude hx (not_le.mp h)) steps
    rw [inv_pow] at growth
    cases hn : y.neg <;> simp only [h, hn, decide_false, if_true,
      Bool.false_eq_true, if_false] at size ⊢
    · refine boundless_down_rounds p neg ?_
      rw [size, ← inv_inv (x.magnitude ^ _)]
      exact inv_anti₀ (by positivity) growth
    · exact boundless_up_rounds p neg (size ▸ growth)

theorem unitRoundoff_powerPrecision (p : Precision) {y : Decimal} (h : 0 ≤ y.adjusted) :
    2 * (powerPrecision p y).unitRoundoff * 10 ^ (y.adjusted + 1) =
      10 ^ (-(p.digits + 1) : ℤ) * if y.neg then (1 / 10 : ℚ) else 1 := by
  rw [Precision.unitRoundoff, mul_div_cancel₀ _ two_ne_zero, ← ten_zpow_add]
  have split : (if y.neg then (1 / 10 : ℚ) else 1) = 10 ^ (if y.neg then -1 else 0 : ℤ) := by
    cases y.neg <;> norm_num
  rw [split, ← ten_zpow_add]
  congr 1
  simp only [powerPrecision, Precision.plus]
  cases y.neg <;> simp <;> omega

theorem natAbs_toInt_ne_zero {y : Decimal} (hy : y.coeff ≠ 0) (whole : y.isIntegral = true) :
    y.toInt.natAbs ≠ 0 := by
  have pos := magnitude_pos hy
  rw [magnitude_eq_natAbs whole] at pos
  exact_mod_cast pos.ne'

theorem natAbs_toInt_lt {y : Decimal} (whole : y.isIntegral = true) :
    (y.toInt.natAbs : ℚ) < 10 ^ (y.adjusted + 1) := by
  rw [← magnitude_eq_natAbs whole]
  exact lt_pow_adjusted y

theorem adjusted_nonneg_of_isIntegral {y : Decimal} (hy : y.coeff ≠ 0)
    (whole : y.isIntegral = true) :
    0 ≤ y.adjusted := by
  have one : (1 : ℚ) ≤ y.toInt.natAbs := by
    exact_mod_cast Nat.one_le_iff_ne_zero.mpr (natAbs_toInt_ne_zero hy whole)
  have above := one.trans_lt (natAbs_toInt_lt whole)
  rw [← zpow_zero (10 : ℚ)] at above
  have := (zpow_lt_zpow_iff_right₀ (by norm_num : (1 : ℚ) < 10)).mp above
  omega

/-- The digits that a power is worked out with outweigh its roundings, two of which are those of an
inverse. -/
theorem powerRoundings_le (p : Precision) {y : Decimal} (hy : y.coeff ≠ 0)
    (whole : y.isIntegral = true) :
    2 * ((((if y.neg then 2 else 0) + 1) * y.toInt.natAbs : Nat) *
      (powerPrecision p y).unitRoundoff) ≤
      10 ^ (-(p.digits + 1) : ℤ) := by
  have unit := unitRoundoff_powerPrecision p (adjusted_nonneg_of_isIntegral hy whole)
  have pos := (powerPrecision p y).unitRoundoff_pos
  have tenth := ten_zpow_pos (-(p.digits + 1) : ℤ)
  have count := mul_le_mul_of_nonneg_left (natAbs_toInt_lt whole).le pos.le
  generalize (powerPrecision p y).unitRoundoff = u at *
  cases hn : y.neg <;> simp only [hn, if_true, Bool.false_eq_true, if_false] at unit ⊢ <;>
    push_cast <;> linarith

/-- The power by squaring rounds a number next to the exact power. -/
theorem wholePower_rounds (p : Precision) (neg : Bool) {x y : Decimal} (hx : x.coeff ≠ 0)
    (hneg : x.neg = false) (hy : y.coeff ≠ 0) (whole : y.isIntegral = true) :
    RoundsNear p (signOf neg * x.value ^ y.toInt) (wholePower p neg x y) := by
  have hn := natAbs_toInt_ne_zero hy whole
  have positive : 0 < x.value := (value_pos_iff hx).mpr hneg
  have base : 0 ≤ if y.neg then x.value⁻¹ else x.value := by
    split <;> positivity
  have power : x.value ^ y.toInt = (if y.neg then x.value⁻¹ else x.value) ^ y.toInt.natAbs := by
    rw [zpow_toInt _ hy whole]
    split <;> simp
  have run : Drifts (powerPrecision p y) (((if y.neg then 2 else 0) + 1) * y.toInt.natAbs)
      ((if y.neg then x.value⁻¹ else x.value) ^ y.toInt.natAbs)
      (powerBase (powerPrecision p y) x y.neg >>= fun b =>
        powerBySquaring (powerPrecision p y) b y.toInt.natAbs) := by
    refine (drifts_powerBase _ hx y.neg).bind ?_ ?_ fun b hb => drifts_powerBySquaring base hb hn
    · exact (Nat.le_succ _).trans (Nat.le_mul_of_pos_right _ (Nat.pos_of_ne_zero hn))
    · have := max_pow_mono base (Nat.one_le_iff_ne_zero.mpr hn)
      rwa [pow_one] at this
  have near := roundsNear_of_drifts neg (pow_nonneg base _) (powerRoundings_le p hy whole) run
  rw [power]
  simpa only [wholePower, bind_assoc] using near

/-- A power with a whole exponent rounds the exact power, or what lies next to it. -/
theorem power_rounds (p : Precision) {x y : Decimal} (hx : x.coeff ≠ 0)
    (whole : y.isIntegral = true) :
    RoundsNear p (x.value ^ y.toInt) (power p x y) := by
  simp only [power, whole, Bool.not_true, Bool.and_false, Bool.and_true,
    Bool.false_eq_true, if_false, if_true]
  by_cases hz : y.isZero = true
  · simpa [hz, toInt] using (rounds_unit p false).near
  have hy : y.coeff ≠ 0 := mt (isZero_iff y).mpr hz
  have size : (⟨false, x.coeff, x.exp⟩ : Decimal).value = x.magnitude := by simp [value, magnitude]
  have one : sameValue ⟨false, x.coeff, x.exp⟩ ⟨false, 1, 0⟩ = true ↔ x.magnitude = 1 := by
    rw [sameValue_iff, size]; simp [value, magnitude]
  have sign : x.value ^ y.toInt = signOf (x.neg && y.isOdd) * x.magnitude ^ y.toInt := by
    rw [zpow_toInt _ hy whole, zpow_toInt _ hy whole, value_pow, isOdd_eq whole]
    split
    · cases x.neg && y.toInt.natAbs % 2 == 1 <;> simp [inv_neg]
    · rfl
  simp only [hz, one, Bool.false_eq_true, if_false]
  split_ifs with hone far
  · rw [sign, hone, one_zpow, mul_one]
    exact (rounds_unit p _).near
  · exact (boundless_rounds p hx hone hy whole far _).near
  · rw [sign, ← size]
    exact wholePower_rounds p _ hx rfl hy whole

end Decimal
end Comptime
