import Comptime.Decimal.Arithmetic
import Comptime.Proofs.Decimal.Rounding

/-! Each operation on decimals rounds the exact result of the operation on their values. -/
namespace Comptime

def truncate (q : ℚ) : ℤ := if q < 0 then ⌈q⌉ else ⌊q⌋

/-- What a truncated quotient leaves over. -/
def remainder (x y : ℚ) : ℚ := x - y * truncate (x / y)

theorem truncate_neg (q : ℚ) : truncate (-q) = -truncate q := by
  rcases lt_trichotomy q 0 with h | h | h
  · simp [truncate, h, h.le, Int.floor_neg]
  · simp [truncate, h]
  · simp [truncate, h, h.le, Int.ceil_neg]

theorem remainder_signOf_mul (a b : Bool) (x y : ℚ) :
    remainder (signOf a * x) (signOf b * y) = signOf a * remainder x y := by
  cases a <;> cases b <;> simp [remainder, neg_div, div_neg, truncate_neg] <;> ring

@[simp] theorem remainder_zero (y : ℚ) : remainder 0 y = 0 := by simp [remainder, truncate]

theorem remainder_of_nonneg {x y : ℚ} (hx : 0 ≤ x) (hy : 0 ≤ y) :
    remainder x y = x - y * ⌊x / y⌋ := by
  rw [remainder, truncate, if_neg (not_lt.mpr (div_nonneg hx hy))]

theorem remainder_of_lt {x y : ℚ} (hx : 0 ≤ x) (h : x < y) : remainder x y = x := by
  have pos : 0 < y := hx.trans_lt h
  have none : ⌊x / y⌋ = 0 := by
    rw [Int.floor_eq_zero_iff, Set.mem_Ico, div_lt_one pos]
    exact ⟨div_nonneg hx pos.le, h⟩
  rw [remainder_of_nonneg hx pos.le, none]; simp

namespace Precision

section
variable {n e : ℤ}

theorem le_unitExp_add (p : Precision) {z : ℚ} (hn : 0 < n)
    (lead : e + p.digits + 1 ≤ leading (n * 10 ^ (e + 1))) (hz : |z| ≤ 10 ^ e) :
    0 < n * 10 ^ (e + 1) + z ∧ e + 1 ≤ p.unitExp (n * 10 ^ (e + 1) + z) := by
  have big : (0 : ℚ) < n * 10 ^ (e + 1) := mul_pos (by exact_mod_cast hn) (ten_zpow_pos _)
  have dig := p.digits_pos
  have top := (le_leading_iff big.ne' _).mp le_rfl
  rw [abs_of_pos big, ← sub_add_cancel (leading _) 1, ten_zpow_add, zpow_one] at top
  have far : (10 : ℚ) ^ e ≤ 10 ^ (leading (n * 10 ^ (e + 1)) - 1) := ten_zpow_mono (by omega)
  have small := abs_le.mp hz
  have pos := ten_zpow_pos e
  have sum_pos : 0 < n * 10 ^ (e + 1) + z := by linarith
  have h : leading (n * 10 ^ (e + 1)) - 1 ≤ leading (n * 10 ^ (e + 1) + z) := by
    rw [le_leading_iff sum_pos.ne', abs_of_pos sum_pos]; linarith
  refine ⟨sum_pos, ?_⟩
  simp only [unitExp]; omega

theorem floor_add_far {z : ℚ} (hz : |z| ≤ 10 ^ e) :
    ⌊2 * ((n * 10 ^ (e + 1) + z) / 10 ^ (e + 1))⌋ = 2 * n - if z < 0 then 1 else 0 := by
  have split : 2 * ((n * 10 ^ (e + 1) + z) / 10 ^ (e + 1)) = 2 * n + z / 10 ^ e / 5 := by
    rw [ten_zpow_add]; have := (ten_zpow_pos e).ne'; field_simp; ring
  have bound : |z / 10 ^ e| ≤ 1 := by
    rw [abs_div, abs_of_pos (ten_zpow_pos e)]
    exact div_le_one_of_le₀ hz (ten_zpow_pos e).le
  have small := abs_le.mp bound
  rw [split, Int.floor_eq_iff]
  split_ifs with h
  · have := div_neg_of_neg_of_pos h (ten_zpow_pos e)
    push_cast; constructor <;> linarith
  · have := div_nonneg (not_lt.mp h) (ten_zpow_pos e).le
    push_cast; constructor <;> linarith

theorem rounded_add_congr (p : Precision) {x y : ℚ} (hn : n ≠ 0)
    (lead : e + p.digits + 1 ≤ leading (n * 10 ^ (e + 1)))
    (hx : |x| ≤ 10 ^ e) (hy : |y| ≤ 10 ^ e) (sign : x < 0 ↔ y < 0) (sign' : 0 < x ↔ 0 < y) :
    p.rounded (n * 10 ^ (e + 1) + x) = p.rounded (n * 10 ^ (e + 1) + y) := by
  wlog pos : 0 < n generalizing n x y
  · have h := this (n := -n) (x := -x) (y := -y) (by omega)
      (by push_cast; rwa [neg_mul, leading_neg]) (by rwa [abs_neg]) (by rwa [abs_neg])
      (by simpa using sign') (by simpa using sign) (by omega)
    push_cast at h
    rw [neg_mul, ← neg_add, ← neg_add, rounded_neg, rounded_neg] at h
    exact neg_injective h
  obtain ⟨sx, ux⟩ := p.le_unitExp_add pos lead hx
  obtain ⟨sy, -⟩ := p.le_unitExp_add pos lead hy
  rw [p.rounded_of_nonneg sx.le, p.rounded_of_nonneg sy.le]
  refine p.roundedSize_congr sx sy ux ?_
  rw [floor_add_far hx, floor_add_far hy, if_congr sign rfl rfl]

end

/-- Of the digits below those that rounding keeps only the first matters, and of that whether it is
five at least. -/
theorem rounded_of_fifths (p : Precision) {x : ℚ} {m f : ℤ} (hx : 0 < x) (hf : f < p.unitExp x)
    (hm : 0 < m) (fifths : m / 5 = ⌊x / 10 ^ f⌋ / 5) : p.rounded (m * 10 ^ f) = p.rounded x := by
  have pos : (0 : ℚ) < m * 10 ^ f := mul_pos (by exact_mod_cast hm) (ten_zpow_pos f)
  have key (z : ℚ) (n : ℤ) : n ≤ ⌊2 * (z / 10 ^ (f + 1))⌋ ↔ n ≤ ⌊z / 10 ^ f⌋ / 5 := by
    have scale : 2 * (z / 10 ^ (f + 1)) = z / 10 ^ f / 5 := by
      rw [ten_zpow_add]; have := (ten_zpow_pos f).ne'; field_simp; ring
    rw [Int.le_ediv_iff_mul_le (by norm_num), Int.le_floor, Int.le_floor, scale,
      le_div_iff₀ (by norm_num)]
    push_cast
    rfl
  rw [p.rounded_of_nonneg pos.le, p.rounded_of_nonneg hx.le]
  refine (p.roundedSize_congr hx pos (f := f + 1) (by omega) ?_).symm
  refine eq_of_forall_le_iff fun n => ?_
  rw [key, key, mul_div_cancel_right₀ _ (ten_zpow_pos f).ne', Int.floor_intCast, fifths]

end Precision

namespace Decimal

theorem value_exactSum (a b : Decimal) : (exactSum a b).value = a.value + b.value := by
  have pos := (ten_zpow_pos (min a.exp b.exp)).ne'
  simp only [exactSum, value_ofUnits]
  push_cast
  rw [unitsOf_cast a (min_le_left ..), unitsOf_cast b (min_le_right ..)]
  field_simp

theorem value_neg_iff {d : Decimal} (h : d.coeff ≠ 0) : d.value < 0 ↔ d.neg = true := by
  unfold value
  cases d.neg <;> simp [magnitude_pos h, d.magnitude_nonneg]

theorem value_pos_iff {d : Decimal} (h : d.coeff ≠ 0) : 0 < d.value ↔ d.neg = false := by
  unfold value
  cases d.neg <;> simp [magnitude_pos h, d.magnitude_nonneg]

theorem rounded_negligible (p : Precision) {big small : Decimal} (hb : big.coeff ≠ 0)
    (hs : small.coeff ≠ 0) :
    p.rounded (big.value + (negligible p big small).value) =
      p.rounded (big.value + small.value) := by
  simp only [negligible]
  generalize he : big.exp + min (-1) (digitCount big.coeff - p.digits - 2 : ℤ) = e
  split_ifs with low
  · have far : |small.value| ≤ 10 ^ e := by
      rw [abs_value]; exact (lt_pow_adjusted small).le.trans (ten_zpow_mono (by omega))
    have units : big.value = big.unitsOf (e + 1) * 10 ^ (e + 1) := by
      rw [unitsOf_cast big (by omega), div_mul_cancel₀ _ (ten_zpow_pos _).ne']
    have one : min 1 small.coeff = 1 := by omega
    have lead := adjusted_eq hb
    rw [adjusted] at lead
    rw [units] at lead ⊢
    refine p.rounded_add_congr ?_ (by omega) ?_ far ?_ ?_
    · intro h
      rw [h] at units
      exact hb ((value_eq_zero_iff big).mp (by simpa using units))
    · simp [magnitude, one]
    · rw [value_neg_iff (by simp [one]), value_neg_iff hs]
    · rw [value_pos_iff (by simp [one]), value_pos_iff hs]
  · rfl

theorem rounds_of_value_eq {p : Precision} {q : ℚ} {d : Decimal} (h : d.value = q) :
    Rounds p q (round p d) := h ▸ round_rounds p d

theorem Rounds.congr {p w : Precision} {q r : ℚ} {o : Except Signal Decimal}
    (h : p.rounded q = w.rounded r) (hq : Rounds p q o) : Rounds w r o := by
  unfold Rounds at hq ⊢
  rwa [← h]

theorem add_rounds (p : Precision) (a b : Decimal) : Rounds p (a.value + b.value) (a.add p b) := by
  unfold add
  split_ifs with ha hb hexp
  · rw [value_of_isZero ha, zero_add]
    exact rounds_of_value_eq (value_padTo ..)
  · rw [value_of_isZero hb, add_zero]
    exact rounds_of_value_eq (value_padTo ..)
  all_goals rw [isZero_iff] at ha hb
  · rw [add_comm a.value]
    refine Rounds.congr (rounded_negligible p hb ha) (rounds_of_value_eq ?_)
    rw [value_exactSum, add_comm]
  · exact Rounds.congr (rounded_negligible p ha hb) (rounds_of_value_eq (value_exactSum ..))

theorem sub_rounds (p : Precision) (a b : Decimal) : Rounds p (a.value - b.value) (a.sub p b) := by
  have h := add_rounds p a b.negate
  rwa [value_negate, ← sub_eq_add_neg] at h

theorem value_product (a b : Decimal) :
    (⟨a.neg != b.neg, a.coeff * b.coeff, a.exp + b.exp⟩ : Decimal).value = a.value * b.value := by
  simp only [value, magnitude, signOf_bne, Nat.cast_mul, ten_zpow_add]
  ring

theorem mul_rounds (p : Precision) (a b : Decimal) : Rounds p (a.value * b.value) (a.mul p b) :=
  rounds_of_value_eq (value_product a b)

/-! Quotients are cut off one digit or more below the last one that rounding keeps. -/

def quotientExp (p : Precision) (a b : Decimal) : ℤ :=
  a.exp - b.exp - (digitCount b.coeff - digitCount a.coeff + p.digits + 1)

theorem quotientExp_eq (p : Precision) (a b : Decimal) :
    quotientExp p a b = a.adjusted - b.adjusted - p.digits - 1 := by
  simp only [quotientExp, adjusted]; omega

theorem value_quotient (p : Precision) {a b : Decimal} (hb : b.coeff ≠ 0) :
    ∃ m : ℤ, (quotient p a b).value = signOf (a.neg != b.neg) * (m * 10 ^ quotientExp p a b) ∧
      (m = ⌊a.magnitude / b.magnitude / 10 ^ quotientExp p a b⌋ ∨
        m = ⌊a.magnitude / b.magnitude / 10 ^ quotientExp p a b⌋ + 1 ∧
          5 ∣ ⌊a.magnitude / b.magnitude / 10 ^ quotientExp p a b⌋) := by
  simp only [quotient, quotientExp, Nat.pow_eq]
  generalize (digitCount b.coeff - digitCount a.coeff + p.digits + 1 : ℤ) = s
  have shift : (10 : ℚ) ^ s.toNat / 10 ^ (-s).toNat = 10 ^ s := by
    rw [← zpow_natCast, ← zpow_natCast, ← zpow_sub₀ (by norm_num)]
    congr 1; omega
  have ratio : ((a.coeff * 10 ^ s.toNat : Nat) : ℚ) / (b.coeff * 10 ^ (-s).toNat : Nat) =
      a.magnitude / b.magnitude / 10 ^ (a.exp - b.exp - s) := by
    have : (b.coeff : ℚ) ≠ 0 := by exact_mod_cast hb
    push_cast
    rw [mul_div_mul_comm, shift, magnitude, magnitude, zpow_sub₀ (by norm_num),
      zpow_sub₀ (by norm_num)]
    field_simp
  have units : ((a.coeff * 10 ^ s.toNat / (b.coeff * 10 ^ (-s).toNat) : Nat) : ℤ) =
      ⌊a.magnitude / b.magnitude / 10 ^ (a.exp - b.exp - s)⌋ := by
    rw [← ratio, ← Int.natCast_floor_eq_floor (by positivity), Nat.floor_div_eq_div]
  rw [← units]
  generalize a.coeff * 10 ^ s.toNat / (b.coeff * 10 ^ (-s).toNat) = q
  split_ifs with exact
  · exact ⟨q, by rw [value_dropZeros]; rfl, .inl rfl⟩
  · unfold marked
    split_ifs with five
    · exact ⟨q + 1, by simp [value, magnitude],
        .inr ⟨rfl, Int.natCast_dvd_natCast.mpr (Nat.dvd_of_mod_eq_zero five)⟩⟩
    · exact ⟨q, rfl, .inl rfl⟩

theorem value_div (a b : Decimal) :
    a.value / b.value = signOf (a.neg != b.neg) * (a.magnitude / b.magnitude) := by
  unfold value
  cases a.neg <;> cases b.neg <;> simp [neg_div, div_neg]

theorem le_magnitude_div (p : Precision) {a b : Decimal} (ha : a.coeff ≠ 0) (hb : b.coeff ≠ 0) :
    (10 : ℚ) ^ (quotientExp p a b + p.digits) ≤ a.magnitude / b.magnitude := by
  rw [le_div_iff₀ (magnitude_pos hb)]
  calc (10 : ℚ) ^ (quotientExp p a b + p.digits) * b.magnitude
      ≤ 10 ^ (quotientExp p a b + p.digits) * 10 ^ (b.adjusted + 1) :=
        mul_le_mul_of_nonneg_left (lt_pow_adjusted b).le (ten_zpow_pos _).le
    _ = 10 ^ a.adjusted := by rw [← ten_zpow_add, quotientExp_eq p a b]; congr 1; omega
    _ ≤ a.magnitude := pow_adjusted_le ha

theorem rounded_quotient (p : Precision) {a b : Decimal} (ha : a.coeff ≠ 0) (hb : b.coeff ≠ 0) :
    p.rounded (quotient p a b).value = p.rounded (a.value / b.value) := by
  have pos : 0 < a.magnitude / b.magnitude := div_pos (magnitude_pos ha) (magnitude_pos hb)
  have big := le_magnitude_div p ha hb
  have dig := p.digits_pos
  have unit : quotientExp p a b < p.unitExp (a.magnitude / b.magnitude) := by
    rw [← abs_of_pos pos, ← le_leading_iff pos.ne'] at big
    simp only [Precision.unitExp]; omega
  have one : 0 < ⌊a.magnitude / b.magnitude / 10 ^ quotientExp p a b⌋ := by
    rw [Int.floor_pos, le_div_iff₀ (ten_zpow_pos _), one_mul]
    exact (ten_zpow_mono (by omega)).trans big
  obtain ⟨m, value_eq, near⟩ := value_quotient p (a := a) hb
  rw [value_eq, value_div, p.rounded_signOf_mul, p.rounded_signOf_mul,
    p.rounded_of_fifths pos unit (by omega) (by omega)]

theorem div_rounds (p : Precision) (a : Decimal) {b : Decimal} (hb : b.coeff ≠ 0) :
    Rounds p (a.value / b.value) (a.div p b) := by
  unfold div divTo
  split_ifs with ha
  · refine rounds_of_value_eq ?_
    rw [value_of_isZero ha, zero_div, value_eq_zero_iff]
  · exact Rounds.congr (rounded_quotient p (mt (isZero_iff a).mpr ha) hb) (round_rounds ..)

/-! Remainders are exact before they are rounded. -/

theorem floor_magnitude_div {a b : Decimal} {e : ℤ} (ha : e ≤ a.exp) (hb : e ≤ b.exp) :
    ⌊a.magnitude / b.magnitude⌋ = (a.coeffAt e / b.coeffAt e : Nat) := by
  rw [← Nat.floor_div_eq_div (K := ℚ),
    Int.natCast_floor_eq_floor (by positivity), coeffAt_cast a ha,
    coeffAt_cast b hb, div_div_div_cancel_right₀ (ten_zpow_pos e).ne']

theorem value_exactRemainder (a : Decimal) {b : Decimal} (hb : b.coeff ≠ 0) :
    (exactRemainder a b).value = remainder a.value b.value := by
  have sign : remainder a.value b.value = signOf a.neg * remainder a.magnitude b.magnitude :=
    remainder_signOf_mul ..
  have pos := (ten_zpow_pos (min a.exp b.exp)).ne'
  simp only [exactRemainder]
  split_ifs with ha far
  · rw [sign, (magnitude_eq_zero_iff a).mpr ((isZero_iff a).mp ha), remainder_of_lt le_rfl
      (magnitude_pos hb), mul_zero, value_eq_zero_iff]
  · have small := magnitude_lt_of_adjusted (a := a) hb (by omega)
    rw [sign, value_padTo, remainder_of_lt a.magnitude_nonneg small, value]
  · rw [sign, value, remainder_of_nonneg a.magnitude_nonneg b.magnitude_nonneg]
    congr 1
    generalize he : min a.exp b.exp = e at pos
    have ua := coeffAt_cast a (e := e) (by omega)
    have ub := coeffAt_cast b (e := e) (by omega)
    have rest : ((a.coeffAt e % b.coeffAt e : Nat) : ℚ) =
        a.coeffAt e - b.coeffAt e * (a.coeffAt e / b.coeffAt e : Nat) := by
      rw [eq_sub_iff_add_eq]; exact_mod_cast Nat.mod_add_div ..
    rw [floor_magnitude_div (e := e) (by omega) (by omega), Int.cast_natCast,
      magnitude, rest, ua, ub]
    field_simp

theorem magnitude_div_lt (a : Decimal) {b : Decimal} (hb : b.coeff ≠ 0) :
    a.magnitude / b.magnitude < 10 ^ (a.adjusted - b.adjusted + 1) := by
  rw [div_lt_iff₀ (magnitude_pos hb)]
  calc a.magnitude < 10 ^ (a.adjusted + 1) := lt_pow_adjusted a
    _ = 10 ^ (a.adjusted - b.adjusted + 1) * 10 ^ b.adjusted := by
        rw [← ten_zpow_add]; congr 1; omega
    _ ≤ 10 ^ (a.adjusted - b.adjusted + 1) * b.magnitude :=
        mul_le_mul_of_nonneg_left (pow_adjusted_le hb) (ten_zpow_pos _).le

theorem quotientExceeds_eq_false (p : Precision) (a : Decimal) {b : Decimal} (hb : b.coeff ≠ 0) :
    quotientExceeds (remainderPrecision p a.adjusted b.adjusted) a b = false := by
  have wide := (remainderPrecision p a.adjusted b.adjusted).digits_pos
  have far : a.adjusted - b.adjusted + 1 ≤ (remainderPrecision p a.adjusted b.adjusted).digits := by
    simp only [remainderPrecision]; omega
  generalize remainderPrecision p a.adjusted b.adjusted = w at wide far
  have few : digitCount (a.coeffAt (min a.exp b.exp) / b.coeffAt (min a.exp b.exp)) ≤ w.digits := by
    have quotient := (Int.floor_le (a.magnitude / b.magnitude)).trans_lt (magnitude_div_lt a hb)
    rw [floor_magnitude_div (min_le_left a.exp b.exp) (min_le_right a.exp b.exp)] at quotient
    rw [digitCount_le_iff wide]
    have bound := quotient.trans_le (ten_zpow_mono far)
    rw [zpow_natCast] at bound
    exact_mod_cast bound
  simp only [quotientExceeds, Bool.and_eq_false_iff, Bool.or_eq_false_iff, decide_eq_false_iff_not]
  exact .inr ⟨by omega, by omega⟩

theorem rem_rounds (p : Precision) (a : Decimal) {b : Decimal} (hb : b.coeff ≠ 0) :
    Rounds (remainderPrecision p a.adjusted b.adjusted) (remainder a.value b.value)
      (a.rem (remainderPrecision p a.adjusted b.adjusted) b) := by
  rw [rem, quotientExceeds_eq_false p a hb, if_neg Bool.false_ne_true]
  exact rounds_of_value_eq (value_exactRemainder a hb)

end Decimal
end Comptime
