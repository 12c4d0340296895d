import Comptime.Decimal.Rounding
import Comptime.Proofs.Decimal.Value

/-! Rounding half up to the digits of a precision, as a function on rational numbers. It keeps the
order, fixes what it can represent, and depends on no more than the half units that are full. The
rounding of decimals agrees with it. -/
namespace Comptime

def halfUp (x : ℚ) : ℤ := ⌊x + 1 / 2⌋

theorem le_halfUp_iff (n : ℤ) (x : ℚ) : n ≤ halfUp x ↔ n - 1 / 2 ≤ x := by
  rw [halfUp, Int.le_floor]; constructor <;> intro h <;> linarith

theorem halfUp_le_iff (n : ℤ) (x : ℚ) : halfUp x ≤ n ↔ x < n + 1 / 2 := by
  rw [halfUp, ← Int.lt_add_one_iff, Int.floor_lt]
  push_cast
  constructor <;> intro h <;> linarith

theorem halfUp_mono {x y : ℚ} (h : x ≤ y) : halfUp x ≤ halfUp y :=
  Int.floor_mono (by linarith)

@[simp] theorem halfUp_intCast (n : ℤ) : halfUp n = n := by
  apply le_antisymm
  · rw [halfUp_le_iff]; linarith
  · rw [le_halfUp_iff]; linarith

theorem halfUp_eq_of_floor {x y : ℚ} (h : ⌊2 * x⌋ = ⌊2 * y⌋) : halfUp x = halfUp y := by
  have key (z : ℚ) (n : ℤ) : n ≤ halfUp z ↔ 2 * n - 1 ≤ ⌊2 * z⌋ := by
    rw [le_halfUp_iff, Int.le_floor]
    push_cast
    constructor <;> intro h <;> linarith
  exact eq_of_forall_le_iff fun n => by rw [key, key, h]

/-- The exponent of the last digit that a number keeps. -/
def Precision.unitExp (p : Precision) (q : ℚ) : ℤ := max (leading q - p.digits + 1) p.lowestExp

theorem Precision.lowestExp_le (p : Precision) : p.lowestExp ≤ -999999 := by
  have := p.digits_pos
  simp only [lowestExp, minAdjusted]; omega

namespace Precision

theorem unitExp_neg (p : Precision) (q : ℚ) : p.unitExp (-q) = p.unitExp q := by
  simp [unitExp, leading_neg]

def roundedSize (p : Precision) (x : ℚ) : ℚ := halfUp (x / 10 ^ p.unitExp x) * 10 ^ p.unitExp x

/-- A number rounded half up, halves away from zero. -/
def rounded (p : Precision) (q : ℚ) : ℚ :=
  if q < 0 then -p.roundedSize (-q) else p.roundedSize q

theorem roundedSize_zero (p : Precision) : p.roundedSize 0 = 0 := by
  have h : halfUp 0 = 0 := by simpa using halfUp_intCast 0
  simp [roundedSize, h]

theorem rounded_zero (p : Precision) : p.rounded 0 = 0 := by simp [rounded, roundedSize_zero]

theorem rounded_of_nonneg (p : Precision) {q : ℚ} (h : 0 ≤ q) : p.rounded q = p.roundedSize q :=
  if_neg (not_lt.mpr h)

theorem rounded_neg (p : Precision) (q : ℚ) : p.rounded (-q) = -p.rounded q := by
  rcases lt_trichotomy q 0 with h | h | h
  · simp [rounded, h, h.le]
  · simp [h, rounded_zero]
  · simp [rounded, h, h.le]

theorem rounded_signOf_mul (p : Precision) (neg : Bool) (q : ℚ) :
    p.rounded (signOf neg * q) = signOf neg * p.rounded q := by
  cases neg <;> simp [p.rounded_neg]

theorem roundedSize_nonneg (p : Precision) {x : ℚ} (h : 0 ≤ x) : 0 ≤ p.roundedSize x := by
  have low : 0 ≤ halfUp (x / 10 ^ p.unitExp x) := by
    rw [le_halfUp_iff]
    have : 0 ≤ x / 10 ^ p.unitExp x := div_nonneg h (ten_zpow_pos _).le
    push_cast; linarith
  exact mul_nonneg (by exact_mod_cast low) (ten_zpow_pos _).le

theorem roundedSize_le (p : Precision) {x : ℚ} (n : ℤ) (h : x ≤ n * 10 ^ p.unitExp x) :
    p.roundedSize x ≤ n * 10 ^ p.unitExp x := by
  refine mul_le_mul_of_nonneg_right ?_ (ten_zpow_pos _).le
  have := (div_le_iff₀ (ten_zpow_pos _)).mpr h
  exact_mod_cast (halfUp_le_iff _ _).mpr (by linarith)

theorem le_roundedSize (p : Precision) {x : ℚ} (n : ℤ) (h : n * 10 ^ p.unitExp x ≤ x) :
    n * 10 ^ p.unitExp x ≤ p.roundedSize x := by
  refine mul_le_mul_of_nonneg_right ?_ (ten_zpow_pos _).le
  have := (le_div_iff₀ (ten_zpow_pos _)).mpr h
  exact_mod_cast (le_halfUp_iff _ _).mpr (by linarith)

theorem ten_zpow_eq_mul {e k : ℤ} (h : e ≤ k) :
    (10 : ℚ) ^ k = ((10 ^ (k - e).toNat : ℤ) : ℚ) * 10 ^ e := by
  push_cast
  rw [ten_zpow_toNat (by omega), ← ten_zpow_add]
  congr 1; omega

theorem roundedSize_mono (p : Precision) {x y : ℚ} (hx : 0 < x) (h : x ≤ y) :
    p.roundedSize x ≤ p.roundedSize y := by
  have hy : 0 < y := hx.trans_le h
  have lead : leading x ≤ leading y := leading_mono hx.ne' (by rwa [abs_of_pos hx, abs_of_pos hy])
  by_cases unit : p.unitExp x = p.unitExp y
  · refine mul_le_mul (by rw [unit]; exact_mod_cast halfUp_mono (by gcongr)) (by rw [unit])
      (ten_zpow_pos _).le ?_
    have := p.roundedSize_nonneg hy.le
    exact nonneg_of_mul_nonneg_left this (ten_zpow_pos _)
  -- The units differ, so that the leading digit of `y` is above that of `x` and above both units.
  · have above : leading x < leading y := by
      by_contra he
      exact unit (by rw [unitExp, unitExp, le_antisymm lead (by omega)])
    have pos := p.digits_pos
    have hu : p.unitExp x ≤ leading y ∧ p.unitExp y ≤ leading y := by
      simp only [unitExp] at unit ⊢; omega
    calc p.roundedSize x ≤ 10 ^ leading y := by
          rw [ten_zpow_eq_mul hu.1]
          apply roundedSize_le
          rw [← ten_zpow_eq_mul hu.1]
          have := (leading_lt_iff hx.ne' _).mp above
          rw [abs_of_pos hx] at this
          exact this.le
      _ ≤ p.roundedSize y := by
          rw [ten_zpow_eq_mul hu.2]
          apply le_roundedSize
          rw [← ten_zpow_eq_mul hu.2]
          have := (le_leading_iff hy.ne' _).mp le_rfl
          rwa [abs_of_pos hy] at this

theorem rounded_mono (p : Precision) {x y : ℚ} (h : x ≤ y) : p.rounded x ≤ p.rounded y := by
  have key {a b : ℚ} (ha : 0 ≤ a) (hab : a ≤ b) : p.roundedSize a ≤ p.roundedSize b := by
    rcases ha.eq_or_lt with rfl | ha
    · rw [roundedSize_zero]; exact p.roundedSize_nonneg hab
    · exact p.roundedSize_mono ha hab
  unfold rounded
  split_ifs with hx hy hy
  · exact neg_le_neg (key (by linarith) (by linarith))
  · exact (neg_nonpos.mpr (p.roundedSize_nonneg (by linarith))).trans
      (p.roundedSize_nonneg (by linarith))
  · linarith
  · exact key (by linarith) h

theorem roundedSize_of_multiple (p : Precision) {x : ℚ} (n : ℤ) (h : x = n * 10 ^ p.unitExp x) :
    p.roundedSize x = x :=
  le_antisymm ((p.roundedSize_le n h.le).trans h.ge) (h.le.trans (p.le_roundedSize n h.ge))

theorem rounded_of_multiple (p : Precision) {q : ℚ} (n : ℤ) (h : q = n * 10 ^ p.unitExp q) :
    p.rounded q = q := by
  unfold rounded
  split_ifs with hq
  · rw [roundedSize_of_multiple p (-n) (by rw [unitExp_neg]; push_cast; linarith), neg_neg]
  · exact p.roundedSize_of_multiple n h

theorem rounded_of_units (p : Precision) {q : ℚ} {c k : ℤ} (h : q = c * 10 ^ k)
    (unit : p.unitExp q ≤ k) :
    p.rounded q = q := by
  refine p.rounded_of_multiple (c * 10 ^ (k - p.unitExp q).toNat) ?_
  calc q = c * 10 ^ k := h
    _ = _ := by rw [ten_zpow_eq_mul unit]; push_cast; ring

theorem leading_lt_of_digits {q : ℚ} {c k : ℤ} {n : Nat} (hq : q ≠ 0) (h : q = c * 10 ^ k)
    (digits : |c| < 10 ^ n) : leading q < n + k := by
  rw [leading_lt_iff hq, h, abs_mul_ten_zpow, ten_zpow_add]
  refine mul_lt_mul_of_pos_right ?_ (ten_zpow_pos k)
  rw [zpow_natCast]; exact_mod_cast digits

theorem rounded_of_low_digits (p : Precision) {q : ℚ} {c k : ℤ} (h : q = c * 10 ^ k)
    (digits : |c| < 10 ^ p.digits) (low : p.lowestExp ≤ k) : p.rounded q = q := by
  by_cases hq : q = 0
  · rw [hq, rounded_zero]
  · have top := leading_lt_of_digits hq h digits
    refine p.rounded_of_units h ?_
    simp only [unitExp]; omega

theorem lowestExp_le_of_digits {p : Precision} {q : ℚ} {c k : ℤ} (hq : q ≠ 0) (h : q = c * 10 ^ k)
    (digits : |c| < 10 ^ p.digits) (low : minAdjusted ≤ leading q) : p.lowestExp ≤ k := by
  have := leading_lt_of_digits hq h digits
  simp only [lowestExp]; omega

theorem rounded_of_digits (p : Precision) {q : ℚ} {c k : ℤ} (h : q = c * 10 ^ k)
    (digits : |c| < 10 ^ p.digits) (low : minAdjusted ≤ leading q) : p.rounded q = q := by
  by_cases hq : q = 0
  · rw [hq, rounded_zero]
  · exact p.rounded_of_low_digits h digits (lowestExp_le_of_digits hq h digits low)

theorem abs_rounded (p : Precision) (q : ℚ) : |p.rounded q| = p.rounded |q| := by
  rcases le_total 0 q with h | h
  · rw [abs_of_nonneg h, p.rounded_of_nonneg h, abs_of_nonneg (p.roundedSize_nonneg h)]
  · have h' : 0 ≤ -q := neg_nonneg.mpr h
    rw [abs_of_nonpos h, ← abs_neg, ← p.rounded_neg, p.rounded_of_nonneg h',
      abs_of_nonneg (p.roundedSize_nonneg h')]

theorem leading_ten_zpow (k : ℤ) : leading (10 ^ k) = k := by
  have pos := ten_zpow_pos k
  apply leading_eq
  · rw [abs_of_pos pos]
  · rw [abs_of_pos pos]; exact zpow_lt_zpow_right₀ (by norm_num) (by omega)

theorem rounded_ten_zpow (p : Precision) {k : ℤ} (h : minAdjusted ≤ k) :
    p.rounded (10 ^ k) = 10 ^ k := by
  refine p.rounded_of_digits (c := 1) (by push_cast; rw [one_mul]) ?_ (by rwa [leading_ten_zpow])
  rw [abs_one]
  exact one_lt_pow₀ (by norm_num) p.digits_pos.ne'

theorem lt_leading_rounded (p : Precision) {q : ℚ} {k : ℤ} (hk : maxAdjusted < k)
    (h : 10 ^ k ≤ |q|) : maxAdjusted < leading (p.rounded q) := by
  have low : minAdjusted ≤ k := by simp only [minAdjusted, maxAdjusted] at hk ⊢; omega
  have size : (10 : ℚ) ^ k ≤ |p.rounded q| := by
    rw [abs_rounded, ← p.rounded_ten_zpow low]; exact p.rounded_mono h
  have hq : p.rounded q ≠ 0 := abs_pos.mp ((ten_zpow_pos k).trans_le size)
  exact hk.trans_le ((le_leading_iff hq k).mpr size)

theorem rounded_eq_zero (p : Precision) {q : ℚ} (h : 2 * |q| < 10 ^ p.lowestExp) :
    p.rounded q = 0 := by
  by_cases hq : q = 0
  · rw [hq, p.rounded_zero]
  have pos := abs_pos.mpr hq
  have dig := p.digits_pos
  have unit : p.unitExp |q| = p.lowestExp := by
    have : leading |q| < p.lowestExp := by rw [leading_lt_iff pos.ne', abs_abs]; linarith
    simp only [unitExp]; omega
  have none : halfUp (|q| / 10 ^ p.lowestExp) = 0 := by
    apply le_antisymm
    · rw [halfUp_le_iff, div_lt_iff₀ (ten_zpow_pos _)]; push_cast; linarith
    · rw [le_halfUp_iff]
      have := div_pos pos (ten_zpow_pos p.lowestExp)
      push_cast; linarith
  rw [← abs_eq_zero, abs_rounded, p.rounded_of_nonneg pos.le, roundedSize, unit, none]
  simp

theorem lt_ten_zpow_congr {x y : ℚ} {f k : ℤ} (hf : f ≤ k)
    (h : ⌊2 * (x / 10 ^ f)⌋ = ⌊2 * (y / 10 ^ f)⌋) : x < 10 ^ k ↔ y < 10 ^ k := by
  have key (z : ℚ) : z < 10 ^ k ↔ ⌊2 * (z / 10 ^ f)⌋ < 2 * 10 ^ (k - f).toNat := by
    rw [ten_zpow_eq_mul hf, ← div_lt_iff₀ (ten_zpow_pos f), Int.floor_lt]
    push_cast
    constructor <;> intro h <;> linarith
  rw [key, key, h]

theorem unitExp_congr (p : Precision) {x y : ℚ} (hx : 0 < x) (hy : 0 < y) {f : ℤ}
    (hf : f ≤ p.unitExp x) (h : ⌊2 * (x / 10 ^ f)⌋ = ⌊2 * (y / 10 ^ f)⌋) :
    p.unitExp x = p.unitExp y := by
  have lead (k : ℤ) (hk : f ≤ k) : leading x < k ↔ leading y < k := by
    rw [leading_lt_iff hx.ne', leading_lt_iff hy.ne', abs_of_pos hx, abs_of_pos hy]
    exact lt_ten_zpow_congr hk h
  have pos := p.digits_pos
  simp only [unitExp] at hf ⊢
  by_cases deep : leading x - p.digits + 1 ≤ p.lowestExp
  · have := lead (p.lowestExp + p.digits) (by omega)
    omega
  · have h₁ := lead (leading x) (by omega)
    have h₂ := lead (leading x + 1) (by omega)
    omega

theorem roundedSize_congr (p : Precision) {x y : ℚ} (hx : 0 < x) (hy : 0 < y) {f : ℤ}
    (hf : f ≤ p.unitExp x) (h : ⌊2 * (x / 10 ^ f)⌋ = ⌊2 * (y / 10 ^ f)⌋) :
    p.roundedSize x = p.roundedSize y := by
  have unit := p.unitExp_congr hx hy hf h
  have key (z : ℚ) (n : ℤ) : n ≤ ⌊2 * (z / 10 ^ p.unitExp x)⌋ ↔
      n * 10 ^ (p.unitExp x - f).toNat ≤ ⌊2 * (z / 10 ^ f)⌋ := by
    have pos : (0 : ℚ) < 10 ^ (p.unitExp x - f).toNat := by positivity
    have scale : 2 * (z / 10 ^ p.unitExp x) = 2 * (z / 10 ^ f) / 10 ^ (p.unitExp x - f).toNat := by
      rw [ten_zpow_eq_mul hf]; push_cast; field_simp
    rw [Int.le_floor, Int.le_floor, scale, le_div_iff₀ pos]
    push_cast
    rfl
  have floors : ⌊2 * (x / 10 ^ p.unitExp x)⌋ = ⌊2 * (y / 10 ^ p.unitExp x)⌋ :=
    eq_of_forall_le_iff fun n => by rw [key, key, h]
  rw [roundedSize, roundedSize, ← unit, halfUp_eq_of_floor floors]

end Precision

/-- A number rounded half up to so many significant digits, halves away from zero. -/
def roundedTo (digits : Nat) (q : ℚ) : ℚ :=
  SignType.sign q * (halfUp (|q| / 10 ^ (leading q - digits + 1)) * 10 ^ (leading q - digits + 1))

theorem roundedTo_neg (digits : Nat) (q : ℚ) : roundedTo digits (-q) = -roundedTo digits q := by
  simp [roundedTo, leading_neg, Left.sign_neg]

theorem Precision.rounded_eq_roundedTo (p : Precision) {q : ℚ}
    (h : q = 0 ∨ minAdjusted ≤ leading q) :
    p.rounded q = roundedTo p.digits q := by
  rcases h with rfl | low
  · simp [rounded_zero, roundedTo]
  have unit : p.unitExp q = leading q - p.digits + 1 := by
    simp only [unitExp, lowestExp]; omega
  rcases lt_trichotomy q 0 with hq | rfl | hq
  · rw [rounded, if_pos hq, roundedSize, unitExp_neg, unit, roundedTo, abs_of_neg hq, sign_neg hq]
    simp
  · simp [rounded_zero, roundedTo]
  · rw [p.rounded_of_nonneg hq.le, roundedSize, unit, roundedTo, abs_of_pos hq, sign_pos hq]
    simp

/-- An outcome is that of rounding a number: the rounded number, or an overflow where its leading
digit stands too high. -/
def Rounds (p : Precision) (q : ℚ) : Except Signal Decimal → Prop
  | .ok d => d.value = p.rounded q ∧ leading (p.rounded q) ≤ Precision.maxAdjusted
  | .error s => s = .overflow ∧ Precision.maxAdjusted < leading (p.rounded q)

namespace Decimal

theorem div_lt_tenth {n k : Nat} (h : digitCount n < k) : (n : ℚ) / 10 ^ k < 1 / 10 := by
  have few : n * 10 < 10 ^ k := by
    have := (lt_pow_digitCount n).trans_le
      (Nat.pow_le_pow_right (by norm_num) (Nat.le_sub_one_of_lt h))
    calc n * 10 < 10 ^ (k - 1) * 10 := by omega
      _ = 10 ^ k := by rw [← pow_succ]; congr 1; omega
  rw [div_lt_div_iff₀ (by positivity) (by norm_num), one_mul]
  exact_mod_cast few

theorem roundedUnits_eq (n k : Nat) : (roundedUnits .up n k : ℤ) = halfUp (n / 10 ^ k) := by
  simp only [roundedUnits, reduceCtorEq, false_and, if_false]
  split_ifs with h
  · have tenth := div_lt_tenth h
    have low : (0 : ℚ) ≤ n / 10 ^ k := by positivity
    apply le_antisymm
    · rw [le_halfUp_iff]; push_cast; linarith
    · rw [halfUp_le_iff]; push_cast; linarith
  · rw [Nat.pow_eq, halfUp, ← Int.natCast_floor_eq_floor (by positivity)]
    congr 1
    rw [← Nat.floor_div_eq_div (K := ℚ)]
    congr 1
    push_cast
    field_simp

theorem abs_roundedUnits_sub_le (t : Tie) (n k : Nat) :
    |(roundedUnits t n k : ℚ) - n / 10 ^ k| ≤ 1 / 2 := by
  have up : |(roundedUnits .up n k : ℚ) - n / 10 ^ k| ≤ 1 / 2 := by
    have eq : (roundedUnits .up n k : ℚ) = halfUp (n / 10 ^ k) := by
      exact_mod_cast roundedUnits_eq n k
    have low := (le_halfUp_iff _ _).mp (le_refl (halfUp ((n : ℚ) / 10 ^ k)))
    have high := (halfUp_le_iff _ _).mp (le_refl (halfUp ((n : ℚ) / 10 ^ k)))
    rw [eq, abs_le]
    constructor <;> linarith
  by_cases tie : t = .even ∧ (2 * n + 10 ^ k) / (2 * 10 ^ k) % 2 = 1 ∧
    (2 * n + 10 ^ k) % (2 * 10 ^ k) = 0
  · unfold roundedUnits at up ⊢
    simp only [reduceCtorEq, false_and, if_false, Nat.pow_eq, tie, and_self, if_true] at up ⊢
    split_ifs at up ⊢ with h
    · exact up
    obtain ⟨q, hq⟩ : ∃ q, 2 * n + 10 ^ k = 2 * 10 ^ k * (q + 1) := by
      obtain ⟨q, hq⟩ := Nat.dvd_of_mod_eq_zero tie.2.2
      cases q with
      | zero => have := Nat.pow_pos (n := k) (show 0 < 10 by norm_num); omega
      | succ q => exact ⟨q, hq⟩
    have half : (n : ℚ) / 10 ^ k = q + 1 / 2 := by
      have hq' : (2 * n + 10 ^ k : ℚ) = 2 * 10 ^ k * (q + 1) := by exact_mod_cast hq
      rw [div_eq_iff (by positivity)]; linarith
    rw [hq, Nat.mul_div_cancel_left _ (by positivity), half]
    norm_num
  · have same : roundedUnits t n k = roundedUnits .up n k := by
      simp only [roundedUnits, Nat.pow_eq, tie, if_false, reduceCtorEq, false_and]
    rwa [same]

theorem magnitude_div {d : Decimal} {e : ℤ} (h : d.exp ≤ e) :
    d.magnitude / 10 ^ e = d.coeff / 10 ^ (e - d.exp).toNat := by
  rw [magnitude, ten_zpow_toNat (by omega), zpow_sub₀ (by norm_num)]
  field_simp

theorem magnitude_quantized (d : Decimal) {e : ℤ} (h : d.exp ≤ e) :
    (d.quantized .up e).magnitude = halfUp (d.magnitude / 10 ^ e) * 10 ^ e := by
  rw [magnitude_div h, ← roundedUnits_eq]
  simp [magnitude, quantized]

theorem abs_quantized_sub_le (t : Tie) (d : Decimal) {e : ℤ} (h : d.exp ≤ e) :
    |(d.quantized t e).value - d.value| ≤ 10 ^ e / 2 := by
  have units := abs_roundedUnits_sub_le t d.coeff (e - d.exp).toNat
  rw [← magnitude_div h] at units
  have sub : (d.quantized t e).value - d.value = signOf d.neg *
      ((roundedUnits t d.coeff (e - d.exp).toNat - d.magnitude / 10 ^ e) * 10 ^ e) := by
    rw [sub_mul, div_mul_cancel₀ _ (ten_zpow_pos e).ne', mul_sub]
    rfl
  rw [sub, abs_mul, abs_signOf, one_mul, abs_mul, abs_of_pos (ten_zpow_pos e)]
  have := mul_le_mul_of_nonneg_right units (ten_zpow_pos e).le
  linarith

theorem value_carried (p : Precision) (d : Decimal) : (carried p d).value = d.value := by
  unfold carried
  split_ifs with h
  · refine value_dropZero ?_
    rw [h]
    exact dvd_pow_self 10 p.digits_pos.ne'
  · rfl

theorem bounded_rounds {p : Precision} {q : ℚ} {d : Decimal} (h : d.value = p.rounded q)
    (zero : d.coeff = 0 → d.exp ≤ Precision.maxAdjusted) : Rounds p q (bounded d) := by
  have top : Precision.maxAdjusted < d.adjusted ↔
    Precision.maxAdjusted < leading (p.rounded q) := by
    by_cases hz : d.coeff = 0
    · have hq : p.rounded q = 0 := by rw [← h, value_eq_zero_iff, hz]
      have := zero hz
      simp [adjusted, hz, hq, leading, digitCount_eq, Precision.maxAdjusted] at this ⊢
      omega
    · rw [adjusted_eq hz, h]
  unfold bounded
  split_ifs with ho
  · exact ⟨rfl, top.mp ho⟩
  · exact ⟨h, not_lt.mp (mt top.mpr ho)⟩

theorem roundingExp_eq {p : Precision} {d : Decimal} (h : d.coeff ≠ 0) :
    roundingExp p d = p.unitExp d.value := by
  have := adjusted_eq h
  simp only [adjusted] at this
  rw [roundingExp, Precision.unitExp, ← this]
  congr 1; omega

theorem value_quantized {p : Precision} {d : Decimal} (h : d.exp ≤ p.unitExp d.value) :
    (d.quantized .up (p.unitExp d.value)).value = p.rounded d.value := by
  have unit : p.unitExp d.value = p.unitExp d.magnitude := by
    rw [← abs_value]
    rcases abs_choice d.value with ha | ha <;> rw [ha]
    rw [p.unitExp_neg]
  have size : (d.quantized .up (p.unitExp d.value)).magnitude = p.roundedSize d.magnitude := by
    rw [magnitude_quantized d h, unit]; rfl
  rw [value, size, ← p.rounded_of_nonneg d.magnitude_nonneg, ← p.rounded_signOf_mul]
  rfl

theorem unitExp_of_quantized_eq_zero {p : Precision} {d : Decimal} (hd : d.coeff ≠ 0)
    (h : d.exp ≤ p.unitExp d.value) (hz : (d.quantized .up (p.unitExp d.value)).coeff = 0) :
    p.unitExp d.value = p.lowestExp := by
  have pos := p.digits_pos
  have none : halfUp (d.magnitude / 10 ^ p.unitExp d.value) ≤ 0 := by
    have := magnitude_quantized d h
    rw [(magnitude_eq_zero_iff _).mpr hz] at this
    exact_mod_cast (mul_eq_zero.mp this.symm).resolve_right (ten_zpow_pos _).ne' |>.le
  rw [halfUp_le_iff, div_lt_iff₀ (ten_zpow_pos _)] at none
  have below : leading d.value < p.unitExp d.value := by
    rw [leading_lt_iff (value_ne_zero hd), abs_value]
    have := ten_zpow_pos (p.unitExp d.value)
    push_cast at none; linarith
  simp only [Precision.unitExp] at below ⊢
  omega

theorem exp_carried_of_zero {p : Precision} {d : Decimal} (h : (carried p d).coeff = 0) :
    d.coeff = 0 ∧ (carried p d).exp = d.exp := by
  have hd : d.coeff = 0 := by rw [← value_eq_zero_iff, ← value_carried p, value_eq_zero_iff, h]
  refine ⟨hd, ?_⟩
  rw [carried, if_neg]
  rw [hd, Nat.pow_eq]; positivity

/-- Rounding a decimal is rounding its value. -/
theorem round_rounds (p : Precision) (d : Decimal) : Rounds p d.value (round p d) := by
  unfold round roundTo
  split_ifs with hz
  · rw [value_of_isZero hz]
    refine ⟨?_, by simp [Precision.rounded_zero, leading, Precision.maxAdjusted]⟩
    rw [Precision.rounded_zero, value_eq_zero_iff]
    exact (isZero_iff d).mp hz
  · have hd : d.coeff ≠ 0 := mt (isZero_iff d).mpr hz
    simp only [roundingExp_eq hd]
    split_ifs with he
    · refine bounded_rounds (Eq.symm ?_) (fun h => absurd h hd)
      refine p.rounded_of_multiple (d.unitsOf (p.unitExp d.value)) ?_
      rw [unitsOf_cast d he, div_mul_cancel₀ _ (ten_zpow_pos _).ne']
    · refine bounded_rounds (by rw [value_carried, value_quantized (by omega)]) fun h => ?_
      obtain ⟨hz, he'⟩ := exp_carried_of_zero h
      rw [he', quantized, unitExp_of_quantized_eq_zero hd (by omega) hz]
      have := p.lowestExp_le
      simp only [Precision.maxAdjusted]; omega

end Decimal
end Comptime
