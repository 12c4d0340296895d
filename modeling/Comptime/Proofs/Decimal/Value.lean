import Comptime.Decimal.Order
import Comptime.Proofs.Decimal.Digits

/-! The rational number that a decimal denotes. Operations on sign, coefficient and exponent are
described by what they do to it. -/
namespace Comptime

theorem ten_zpow_pos (e : ℤ) : 0 < (10 : ℚ) ^ e := by positivity

theorem ten_zpow_add (a b : ℤ) : (10 : ℚ) ^ (a + b) = 10 ^ a * 10 ^ b :=
  zpow_add₀ (by norm_num) a b

theorem ten_zpow_toNat {k : ℤ} (hk : 0 ≤ k) : (10 : ℚ) ^ k.toNat = 10 ^ k := by
  rw [← zpow_natCast, Int.toNat_of_nonneg hk]

theorem ten_zpow_mono {a b : ℤ} (h : a ≤ b) : (10 : ℚ) ^ a ≤ 10 ^ b :=
  zpow_le_zpow_right₀ (by norm_num) h

theorem abs_mul_ten_zpow (c k : ℤ) : |(c : ℚ) * 10 ^ k| = (|c| : ℤ) * 10 ^ k := by
  rw [abs_mul, abs_of_pos (ten_zpow_pos k), Int.cast_abs]

theorem ten_zpow_le_abs {q : ℚ} {c k : ℤ} (hq : q ≠ 0) (h : q = c * 10 ^ k) : 10 ^ k ≤ |q| := by
  have hc : c ≠ 0 := by
    rintro rfl
    simp [h] at hq
  have one : (1 : ℚ) ≤ (|c| : ℤ) := by exact_mod_cast Int.one_le_abs hc
  rw [h, abs_mul_ten_zpow]
  exact le_mul_of_one_le_left (ten_zpow_pos k).le one

/-- The exponent of the leading digit of a number; that of zero is zero. -/
def leading (q : ℚ) : ℤ := Int.log 10 |q|

theorem leading_neg (q : ℚ) : leading (-q) = leading q := by simp [leading]

theorem le_leading_iff {q : ℚ} (hq : q ≠ 0) (k : ℤ) : k ≤ leading q ↔ (10 : ℚ) ^ k ≤ |q| := by
  have h := Int.zpow_le_iff_le_log (b := 10) (x := k) (by norm_num) (abs_pos.mpr hq)
  exact_mod_cast h.symm

theorem leading_lt_iff {q : ℚ} (hq : q ≠ 0) (k : ℤ) : leading q < k ↔ |q| < (10 : ℚ) ^ k := by
  have h := Int.lt_zpow_iff_log_lt (b := 10) (x := k) (by norm_num) (abs_pos.mpr hq)
  exact_mod_cast h.symm

theorem leading_eq {q : ℚ} {k : ℤ} (low : (10 : ℚ) ^ k ≤ |q|) (high : |q| < 10 ^ (k + 1)) :
    leading q = k := by
  have hq : q ≠ 0 := abs_pos.mp ((ten_zpow_pos k).trans_le low)
  have h₁ := (le_leading_iff hq k).mpr low
  have h₂ := (leading_lt_iff hq (k + 1)).mpr high
  omega

theorem leading_mul_ten_zpow {c : ℚ} (low : 1 ≤ c) (high : c < 10) (k : ℤ) :
    leading (c * 10 ^ k) = k := by
  have pos := zpow_pos (by norm_num : (0 : ℚ) < 10) k
  have size : |c * 10 ^ k| = c * 10 ^ k := abs_of_nonneg (by positivity)
  apply leading_eq
  · rw [size]; nlinarith
  · rw [size, zpow_add_one₀ (by norm_num)]; nlinarith

theorem leading_mono {x y : ℚ} (hx : x ≠ 0) (h : |x| ≤ |y|) : leading x ≤ leading y := by
  have hy : y ≠ 0 := abs_pos.mp ((abs_pos.mpr hx).trans_le h)
  rw [le_leading_iff hy]
  exact ((le_leading_iff hx _).mp le_rfl).trans h

def signOf (neg : Bool) : ℚ := if neg then -1 else 1

@[simp] theorem signOf_true : signOf true = -1 := rfl

@[simp] theorem signOf_false : signOf false = 1 := rfl

@[simp] theorem abs_signOf (neg : Bool) : |signOf neg| = 1 := by cases neg <;> simp

theorem signOf_bne (a b : Bool) : signOf (a != b) = signOf a * signOf b := by
  cases a <;> cases b <;> simp

theorem signOf_not (a : Bool) : signOf (!a) = -signOf a := by cases a <;> simp

namespace Decimal

def magnitude (d : Decimal) : ℚ := d.coeff * 10 ^ d.exp

/-- The number that a decimal denotes. -/
def value (d : Decimal) : ℚ := signOf d.neg * d.magnitude

theorem magnitude_nonneg (d : Decimal) : 0 ≤ d.magnitude := by
  unfold magnitude; positivity

@[simp] theorem abs_value (d : Decimal) : |d.value| = d.magnitude := by
  rw [value, abs_mul, abs_signOf, one_mul, abs_of_nonneg d.magnitude_nonneg]

theorem isZero_iff (d : Decimal) : d.isZero = true ↔ d.coeff = 0 := by simp [isZero]

theorem isRepresentable_iff (d : Decimal) :
    d.isRepresentable = true ↔
      digitCount d.coeff ≤ 999999999999999999 ∧ d.adjusted ≤ 999999999999999999 ∧
      -1999999999999999997 ≤ d.exp := by
  simp [isRepresentable, and_assoc]

theorem magnitude_eq_zero_iff (d : Decimal) : d.magnitude = 0 ↔ d.coeff = 0 := by
  simp [magnitude, (ten_zpow_pos d.exp).ne']

theorem magnitude_pos {d : Decimal} (h : d.coeff ≠ 0) : 0 < d.magnitude :=
  lt_of_le_of_ne d.magnitude_nonneg (Ne.symm ((magnitude_eq_zero_iff d).not.mpr h))

theorem value_eq_zero_iff (d : Decimal) : d.value = 0 ↔ d.coeff = 0 := by
  rw [← abs_eq_zero, abs_value, magnitude_eq_zero_iff]

theorem value_ne_zero {d : Decimal} (h : d.coeff ≠ 0) : d.value ≠ 0 :=
  (value_eq_zero_iff d).not.mpr h

theorem value_of_isZero {d : Decimal} (h : d.isZero = true) : d.value = 0 := by
  rwa [value_eq_zero_iff, ← isZero_iff]

@[simp] theorem value_negate (d : Decimal) : d.negate.value = -d.value := by
  simp [value, negate, magnitude, signOf_not]

theorem coeffAt_cast (d : Decimal) {e : ℤ} (h : e ≤ d.exp) :
    (d.coeffAt e : ℚ) = d.magnitude / 10 ^ e := by
  rw [eq_div_iff (ten_zpow_pos e).ne', magnitude, coeffAt, Nat.pow_eq]
  push_cast
  rw [ten_zpow_toNat (by omega), mul_assoc, ← ten_zpow_add]
  simp

theorem unitsOf_cast (d : Decimal) {e : ℤ} (h : e ≤ d.exp) :
    (d.unitsOf e : ℚ) = d.value / 10 ^ e := by
  unfold unitsOf value
  cases d.neg <;> simp [coeffAt_cast d h, neg_div]

@[simp] theorem value_ofUnits (n e : ℤ) : (ofUnits n e).value = n * 10 ^ e := by
  unfold value magnitude ofUnits
  by_cases h : n < 0
  · simp [h, abs_of_neg h]
  · simp [h, abs_of_nonneg (not_lt.mp h)]

@[simp] theorem value_ofInt (n : ℤ) : (ofInt n).value = n :=
  (value_ofUnits n 0).trans (by simp)

@[simp] theorem value_padTo (d : Decimal) (e : ℤ) : (d.padTo e).value = d.value := by
  unfold padTo
  split_ifs with h
  · rfl
  · simp only [value, magnitude]
    rw [coeffAt_cast d (by omega), div_mul_cancel₀ _ (ten_zpow_pos e).ne']
    rfl

theorem value_dropZero {d : Decimal} (h : 10 ∣ d.coeff) :
    (⟨d.neg, d.coeff / 10, d.exp + 1⟩ : Decimal).value = d.value := by
  have hd : (d.coeff : ℚ) = (d.coeff / 10 : Nat) * 10 := by
    exact_mod_cast (Nat.div_mul_cancel h).symm
  simp only [value, magnitude, hd, ten_zpow_add]
  ring

@[simp] theorem value_dropZeros (d : Decimal) (k : Nat) : (d.dropZeros k).value = d.value := by
  induction k generalizing d with
  | zero => rfl
  | succ k ih =>
    unfold dropZeros
    split_ifs with h
    · rw [ih]
      exact value_dropZero (Nat.dvd_of_mod_eq_zero h)
    · rfl

theorem pow_adjusted_le {d : Decimal} (h : d.coeff ≠ 0) : (10 : ℚ) ^ d.adjusted ≤ d.magnitude := by
  have pos := digitCount_pos d.coeff
  have low : ((10 ^ (digitCount d.coeff - 1) : Nat) : ℚ) ≤ d.coeff := by
    exact_mod_cast pow_digitCount_le h
  rw [magnitude, adjusted]
  calc (10 : ℚ) ^ (d.exp + digitCount d.coeff - 1)
      = 10 ^ (digitCount d.coeff - 1) * 10 ^ d.exp := by
        rw [← zpow_natCast, ← ten_zpow_add]; congr 1; push_cast [pos]; omega
    _ ≤ d.coeff * 10 ^ d.exp :=
        mul_le_mul_of_nonneg_right (by exact_mod_cast low) (ten_zpow_pos _).le

theorem lt_pow_adjusted (d : Decimal) : d.magnitude < (10 : ℚ) ^ (d.adjusted + 1) := by
  have high : (d.coeff : ℚ) < (10 ^ digitCount d.coeff : Nat) := by
    exact_mod_cast lt_pow_digitCount d.coeff
  rw [magnitude, adjusted]
  calc d.coeff * (10 : ℚ) ^ d.exp
      < 10 ^ digitCount d.coeff * 10 ^ d.exp :=
        mul_lt_mul_of_pos_right (by exact_mod_cast high) (ten_zpow_pos _)
    _ = 10 ^ (d.exp + digitCount d.coeff - 1 + 1) := by
        rw [← zpow_natCast, ← ten_zpow_add]; congr 1; omega

theorem adjusted_eq {d : Decimal} (h : d.coeff ≠ 0) : d.adjusted = leading d.value := by
  symm
  apply leading_eq
  · rw [abs_value]; exact pow_adjusted_le h
  · rw [abs_value]; exact lt_pow_adjusted d

theorem magnitude_lt_of_adjusted {a b : Decimal} (hb : b.coeff ≠ 0) (h : a.adjusted < b.adjusted) :
    a.magnitude < b.magnitude := by
  calc a.magnitude < 10 ^ (a.adjusted + 1) := lt_pow_adjusted a
    _ ≤ 10 ^ b.adjusted := ten_zpow_mono (by omega)
    _ ≤ b.magnitude := pow_adjusted_le hb

/-! Whole numbers. -/

theorem dividesOut_iff (n k : Nat) : dividesOut n k = true ↔ 10 ^ k ∣ n := by
  unfold dividesOut
  by_cases hn : n = 0
  · simp [hn]
  · simp only [hn, beq_iff_eq, Nat.pow_eq, Bool.or_eq_true, Bool.and_eq_true, decide_eq_true_eq,
      false_or, lt_digitCount_iff hn]
    constructor
    · exact fun h => Nat.dvd_of_mod_eq_zero h.2
    · exact fun h => ⟨Nat.le_of_dvd (Nat.pos_of_ne_zero hn) h, Nat.mod_eq_zero_of_dvd h⟩

theorem magnitude_of_exp_nonpos {d : Decimal} (h : d.exp ≤ 0) :
    d.magnitude = d.coeff / (10 ^ (-d.exp).toNat : Nat) := by
  push_cast
  rw [ten_zpow_toNat (by omega), magnitude, zpow_neg, div_inv_eq_mul]

theorem magnitude_of_isIntegral {d : Decimal} (h : d.isIntegral = true) :
    d.magnitude = (if 0 ≤ d.exp then d.coeffAt 0 else d.coeff / 10 ^ (-d.exp).toNat : Nat) := by
  split_ifs with he
  · simp [coeffAt_cast d he]
  · have hd : 10 ^ (-d.exp).toNat ∣ d.coeff := by
      simpa [isIntegral, he, dividesOut_iff] using h
    rw [magnitude_of_exp_nonpos (by omega), Nat.cast_div hd (by positivity)]

theorem toInt_cast {d : Decimal} (h : d.isIntegral = true) : (d.toInt : ℚ) = d.value := by
  by_cases hz : d.isZero = true
  · simp [toInt, hz, value_of_isZero hz]
  · have size := magnitude_of_isIntegral h
    unfold toInt value
    rw [if_neg hz, size]
    by_cases he : 0 ≤ d.exp
    · cases d.neg <;> simp [he]
    · simp only [he, if_false, Nat.pow_eq]
      generalize d.coeff / 10 ^ (-d.exp).toNat = n
      cases d.neg <;> simp

theorem isIntegral_iff (d : Decimal) : d.isIntegral = true ↔ ∃ n : ℤ, d.value = n := by
  constructor
  · exact fun h => ⟨d.toInt, (toInt_cast h).symm⟩
  · intro found
    obtain ⟨n, hn⟩ := found
    by_cases he : 0 ≤ d.exp
    · simp [isIntegral, he]
    · have hm : (d.coeff : ℚ) = (n.natAbs * 10 ^ (-d.exp).toNat : Nat) := by
        have habs := abs_value d
        rw [hn, magnitude_of_exp_nonpos (by omega), eq_div_iff (by positivity)] at habs
        rw [← habs]; push_cast [Nat.cast_natAbs]; rfl
      have hd : 10 ^ (-d.exp).toNat ∣ d.coeff := ⟨n.natAbs, by rw [mul_comm]; exact_mod_cast hm⟩
      simp [isIntegral, he, dividesOut_iff, hd]

end Decimal
end Comptime
