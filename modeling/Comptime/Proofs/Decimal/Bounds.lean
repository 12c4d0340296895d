import Comptime.Decimal.Extended
import Comptime.Proofs.Decimal.Rounding

/-! Whatever is rounded stays within the bounds of the type of decimals, and all arithmetic ends in
a rounding or in a zero or a one. -/
namespace Comptime.Decimal

variable {t : Tie} {p : Precision} {d r : Decimal}

theorem lowestExp_bound (room : p.digits ≤ Precision.greatest) :
    -1999999999999999997 ≤ p.lowestExp := by
  simp only [Precision.lowestExp, Precision.minAdjusted, Precision.greatest] at room ⊢
  omega

theorem roundedUnits_le {n k c : Nat} (h : c < 10 ^ (n + k)) : roundedUnits t c k ≤ 10 ^ n := by
  have unit : 0 < 10 ^ k := by positivity
  have split : 10 ^ (n + k) = 10 ^ n * 10 ^ k := pow_add 10 n k
  have nearest : (2 * c + 10 ^ k) / (2 * 10 ^ k) ≤ 10 ^ n := by
    refine Nat.lt_succ_iff.mp (Nat.div_lt_of_lt_mul ?_)
    nlinarith
  simp only [roundedUnits, Nat.pow_eq]
  split_ifs
  · exact Nat.zero_le _
  · exact (Nat.sub_le _ _).trans nearest
  · exact nearest

theorem digitCount_carried (h : d.coeff ≤ 10 ^ p.digits) :
    digitCount (carried p d).coeff ≤ p.digits := by
  rw [digitCount_le_iff p.digits_pos]
  have pos : 0 < 10 ^ p.digits := by positivity
  unfold carried
  split_ifs with carry
  · simp only [carry]
    exact Nat.div_lt_self pos (by norm_num)
  · exact lt_of_le_of_ne h carry

theorem le_exp_carried (p : Precision) (d : Decimal) : d.exp ≤ (carried p d).exp := by
  unfold carried
  split_ifs <;> simp

theorem isRepresentable_of_bounded (room : p.digits ≤ Precision.greatest) (h : bounded d = .ok r)
    (digits : digitCount d.coeff ≤ p.digits) (low : p.lowestExp ≤ d.exp) :
    r.isRepresentable = true := by
  have bound := lowestExp_bound room
  unfold bounded at h
  split_ifs at h with high
  cases h
  rw [isRepresentable_iff]
  simp only [Precision.maxAdjusted, Precision.greatest] at high room
  omega

theorem isRepresentable_zero (neg : Bool) {e : ℤ} (low : -1999999999999999997 ≤ e)
    (high : e ≤ 999999999999999999) :
    (⟨neg, 0, e⟩ : Decimal).isRepresentable = true := by
  have one : digitCount 0 = 1 := by decide
  rw [isRepresentable_iff]
  simp only [adjusted, one]
  omega

theorem isRepresentable_roundTo (room : p.digits ≤ Precision.greatest) (h : roundTo t p d = .ok r) :
    r.isRepresentable = true := by
  have bound := lowestExp_bound room
  simp only [roundTo] at h
  split_ifs at h with zero kept
  · cases h
    have none : d.coeff = 0 := by simpa [isZero] using zero
    rw [none]
    exact isRepresentable_zero _ (by simp only [Precision.maxAdjusted]; omega)
      (by simp only [Precision.maxAdjusted]; omega)
  · simp only [roundingExp] at kept
    exact isRepresentable_of_bounded room h (by omega) (by omega)
  · simp only [roundingExp] at kept
    have digits : d.coeff < 10 ^ (p.digits + (roundingExp p d - d.exp).toNat) := by
      refine (lt_pow_digitCount _).trans_le (Nat.pow_le_pow_right (by norm_num) ?_)
      simp only [roundingExp]
      omega
    have low : p.lowestExp ≤ (quantized t d (roundingExp p d)).exp := le_max_right _ _
    exact isRepresentable_of_bounded room h (digitCount_carried (roundedUnits_le digits))
      (low.trans (le_exp_carried p _))

theorem isRepresentable_one (neg : Bool) : (⟨neg, 1, 0⟩ : Decimal).isRepresentable = true := by
  cases neg <;> decide

section
variable (room : p.digits ≤ Precision.greatest) {a b : Decimal}
include room

theorem isRepresentable_add (h : a.add p b = .ok r) : r.isRepresentable = true := by
  unfold add addZero at h
  split_ifs at h <;> exact isRepresentable_roundTo room h

theorem isRepresentable_div (h : a.div p b = .ok r) : r.isRepresentable = true := by
  unfold div divTo at h
  split_ifs at h <;> exact isRepresentable_roundTo room h

theorem isRepresentable_rem (h : a.rem p b = .ok r) : r.isRepresentable = true := by
  unfold rem at h
  split_ifs at h
  exact isRepresentable_roundTo room h

theorem isRepresentable_wholePower {neg : Bool} (h : wholePower p neg a b = .ok r) :
    r.isRepresentable = true := by
  unfold wholePower at h
  cases base : powerBase (powerPrecision p b) a b.neg with
  | error s => simp [base, bind, Except.bind] at h
  | ok x =>
    cases power : powerBySquaring (powerPrecision p b) x b.toInt.natAbs with
    | error s => simp [base, power, bind, Except.bind] at h
    | ok y =>
      simp only [base, power, bind, Except.bind] at h
      exact isRepresentable_roundTo room h

theorem isRepresentable_power (h : a.power p b = .ok r) : r.isRepresentable = true := by
  simp only [power] at h
  split_ifs at h
  · cases h; exact isRepresentable_one _
  · cases h; exact isRepresentable_one _
  · unfold boundless at h
    split_ifs at h
    cases h
    exact isRepresentable_zero _ (lowestExp_bound room) (p.lowestExp_le.trans (by decide))
  · exact isRepresentable_wholePower room h
  · exact isRepresentable_roundTo room h

end

end Comptime.Decimal
