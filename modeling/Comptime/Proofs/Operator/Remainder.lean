import Comptime.Proofs.Decimal.Range
import Comptime.Proofs.Exact

/-! The remainder of two numbers that a precision has the digits for is exact: it is counted in the
lower of their units and no larger than either, so that it needs no more digits than they do. That
of longer numbers is rounded, which may carry it past the divisor. There has to be room for the
digits of the quotient. -/
namespace Comptime

theorem remainder_bounds {x y : ℚ} (hx : 0 ≤ x) (hy : 0 < y) :
    0 ≤ remainder x y ∧ remainder x y ≤ x ∧ remainder x y < y := by
  have low : (⌊x / y⌋ : ℚ) * y ≤ x := (le_div_iff₀ hy).mp (Int.floor_le _)
  have high : x < (⌊x / y⌋ + 1 : ℚ) * y := (div_lt_iff₀ hy).mp (Int.lt_floor_add_one _)
  have size : (0 : ℚ) ≤ ⌊x / y⌋ := by exact_mod_cast Int.floor_nonneg.mpr (div_nonneg hx hy.le)
  have part := mul_nonneg size hy.le
  rw [remainder_of_nonneg hx hy.le]
  refine ⟨?_, ?_, ?_⟩ <;> linarith

theorem eq_signOf_mul_abs (x : ℚ) : ∃ neg, x = signOf neg * |x| := by
  rcases le_total 0 x with h | h
  · exact ⟨false, by rw [signOf_false, one_mul, abs_of_nonneg h]⟩
  · exact ⟨true, by rw [signOf_true, abs_of_nonpos h]; ring⟩

theorem abs_remainder_bounds (x : ℚ) {y : ℚ} (hy : y ≠ 0) :
    |remainder x y| ≤ |x| ∧ |remainder x y| < |y| := by
  obtain ⟨a, ha⟩ := eq_signOf_mul_abs x
  obtain ⟨b, hb⟩ := eq_signOf_mul_abs y
  obtain ⟨pos, le, lt⟩ := remainder_bounds (abs_nonneg x) (abs_pos.mpr hy)
  have size : |remainder x y| = remainder |x| |y| := by
    rw [ha, hb, remainder_signOf_mul, abs_mul, abs_mul, abs_mul, abs_signOf, abs_signOf]
    simp [abs_of_nonneg pos]
  rw [size]
  exact ⟨le, lt⟩

theorem remainder_of_units (c d k l : ℤ) :
    ∃ m : ℤ, remainder (c * 10 ^ k) (d * 10 ^ l) = m * 10 ^ min k l := by
  have hk := Precision.ten_zpow_eq_mul (min_le_left k l)
  have hl := Precision.ten_zpow_eq_mul (min_le_right k l)
  refine ⟨c * 10 ^ (k - min k l).toNat - d * 10 ^ (l - min k l).toNat *
    truncate (c * 10 ^ k / (d * 10 ^ l)), ?_⟩
  rw [remainder]
  generalize truncate (c * 10 ^ k / (d * 10 ^ l)) = t
  rw [hk, hl]
  push_cast
  ring

theorem remainder_of_digits {x y : ℚ} {c d k l : ℤ} {n : Nat} (hx : x = c * 10 ^ k)
    (hy : y = d * 10 ^ l) (nonzero : y ≠ 0) (hc : |c| < 10 ^ n) (hd : |d| < 10 ^ n) :
    ∃ m : ℤ, remainder x y = m * 10 ^ min k l ∧ |m| < 10 ^ n := by
  obtain ⟨m, hm⟩ := remainder_of_units c d k l
  rw [← hx, ← hy] at hm
  refine ⟨m, hm, ?_⟩
  obtain ⟨le, lt⟩ := abs_remainder_bounds x nonzero
  rw [hm, abs_mul_ten_zpow] at le lt
  rcases le_total k l with h | h
  · rw [hx, abs_mul_ten_zpow, min_eq_left h] at le
    have few : |m| ≤ |c| := by exact_mod_cast le_of_mul_le_mul_right le (ten_zpow_pos k)
    exact few.trans_lt hc
  · rw [hy, abs_mul_ten_zpow, min_eq_right h] at lt
    have few : |m| < |d| := by exact_mod_cast lt_of_mul_lt_mul_right lt (ten_zpow_pos l).le
    exact few.trans hd

namespace Precision

theorem rounded_remainder (p w : Precision) {x y : ℚ} (hx : p.Fits x) (hy : p.Fits y)
    (nonzero : y ≠ 0) (wide : p.digits ≤ w.digits) :
    w.rounded (remainder x y) = remainder x y ∧ leading (remainder x y) ≤ maxAdjusted := by
  by_cases hr : remainder x y = 0
  · simp [hr, rounded_zero, leading, maxAdjusted]
  obtain ⟨le, -⟩ := abs_remainder_bounds x nonzero
  have hx₀ : x ≠ 0 := abs_pos.mp ((abs_pos.mpr hr).trans_le le)
  obtain ⟨⟨c, k, hc, digits⟩, low, high⟩ := hx.resolve_left hx₀
  obtain ⟨⟨d, l, hd, digits'⟩, low', -⟩ := hy.resolve_left nonzero
  obtain ⟨m, hm, few⟩ := remainder_of_digits hc hd nonzero digits digits'
  have bottom := lowestExp_le_of_digits hx₀ hc digits low
  have bottom' := lowestExp_le_of_digits nonzero hd digits' low'
  refine ⟨w.rounded_of_low_digits hm ?_ ?_, (leading_mono hr le).trans high⟩
  · exact few.trans_le (pow_le_pow_right₀ (by norm_num) wide)
  · simp only [lowestExp] at bottom bottom' ⊢
    omega

end Precision

/-- A context can be set to the digits for the remainder of two numbers. -/
def RoomForRemainder (p : Precision) (a b : Value) : Prop :=
  ∃ d e, a.promote? = some (.finite d) ∧ b.promote? = some (.finite e) ∧
    (Decimal.remainderPrecision p d.adjusted e.adjusted).digits ≤ Precision.greatest

section
variable {p : Precision} {a b : Value} {x y : ℚ} {d e : Decimal}

theorem roomForRemainder_iff (hd : a.promote? = some (.finite d))
    (he : b.promote? = some (.finite e)) :
    RoomForRemainder p a b ↔
      (Decimal.remainderPrecision p d.adjusted e.adjusted).digits ≤ Precision.greatest := by
  refine ⟨fun ⟨d', e', hd', he', room⟩ => ?_, fun room => ⟨d, e, hd, he, room⟩⟩
  cases hd.symm.trans hd'
  cases he.symm.trans he'
  exact room

theorem evalBinary_remainder_rounds (hd : a.promote? = some (.finite d))
    (he : b.promote? = some (.finite e)) (nonzero : e.value ≠ 0) (room : RoomForRemainder p a b) :
    ∃ r, Rounds (Decimal.remainderPrecision p d.adjusted e.adjusted) (remainder d.value e.value) r ∧
      evalBinary p "%" a b =
        (r.map Value.demote).mapError fun s => .fault (.stopped "%" (.finite d) (.finite e) s) := by
  have working :=
    (ArithmeticOp.workingPrecision?_rem p d e).mpr ⟨rfl, (roomForRemainder_iff hd he).mp room⟩
  obtain ⟨r, rounds, outcome⟩ := evalArithmetic_rounds_once "%" (by simp) working (if_neg nonzero)
  exact ⟨r, rounds, (evalBinary_arithmetic p rfl hd he).trans outcome⟩

theorem evalBinary_remainder_escapes (hd : a.promote? = some (.finite d))
    (he : b.promote? = some (.finite e)) (nonzero : e.value ≠ 0) (room : ¬RoomForRemainder p a b) :
    evalBinary p "%" a b = .error (.escape .precision) := by
  rw [roomForRemainder_iff hd he] at room
  have none : ArithmeticOp.rem.workingPrecision? p (.finite d) (.finite e) = none := if_neg room
  rw [evalBinary_arithmetic p rfl hd he]
  simp [evalArithmetic, none, Extended.isZero, (divisor_isZero nonzero).2]

theorem roomForRemainder_of_fits (ha : a.number? = some x) (hb : b.number? = some y) (hx : p.Fits x)
    (hy : p.Fits y) (nonzero : y ≠ 0) (wide : p.digits + 1999999 ≤ Precision.greatest)
    (plain : x ≠ 0 ∨ a = .int 0) :
    RoomForRemainder p a b := by
  obtain ⟨d, hd, rfl⟩ := Value.number?_eq_some_iff.mp ha
  obtain ⟨e, he, rfl⟩ := Value.number?_eq_some_iff.mp hb
  have dividend : d.adjusted = leading d.value := by
    rcases plain with nonzero | rfl
    · exact Decimal.adjusted_eq (divisor_isZero nonzero).1
    · exact (Represents.int 0).adjusted_eq hd ▸ by cases hd; simp [leading]
  rw [roomForRemainder_iff hd he, dividend, Decimal.adjusted_eq (divisor_isZero nonzero).1]
  exact Precision.forRemainder_le wide hx hy

/-- For numbers that a precision has the digits for, the remainder by one other than zero is exact,
an integer if it is whole, just when a context can be set to the digits that it is worked out with.
These are always enough for the whole quotient and for the remainder. They are too many only for a
precision that is hardly lower than any can be, or for a zero that is written with an exponent. -/
theorem evalBinary_remainder_exact_iff (p : Precision) (ha : a.number? = some x)
    (hb : b.number? = some y) (hx : p.Fits x) (hy : p.Fits y) (nonzero : y ≠ 0) :
    (RoomForRemainder p a b → ∃ v, evalBinary p "%" a b = .ok v ∧ v.number? = some (remainder x y) ∧
      ∀ n : ℤ, v = .int n ↔ remainder x y = n) ∧
    (¬RoomForRemainder p a b → evalBinary p "%" a b = .error (.escape .precision)) ∧
    (p.digits + 1999999 ≤ Precision.greatest → x ≠ 0 ∨ a = .int 0 → RoomForRemainder p a b) ∧
    ∀ d e, a.promote? = some (.finite d) → b.promote? = some (.finite e) →
      Decimal.quotientExceeds (Decimal.remainderPrecision p d.adjusted e.adjusted) d e = false ∧
      (Decimal.remainderPrecision p d.adjusted e.adjusted).rounded (remainder x y) =
        remainder x y := by
  have exact (d e : Decimal) :=
    p.rounded_remainder (Decimal.remainderPrecision p d.adjusted e.adjusted) hx hy nonzero
      (Nat.le_max_left _ _)
  have plain := roomForRemainder_of_fits ha hb hx hy nonzero
  obtain ⟨d, hd, rfl⟩ := Value.number?_eq_some_iff.mp ha
  obtain ⟨e, he, rfl⟩ := Value.number?_eq_some_iff.mp hb
  refine ⟨fun room => ?_, evalBinary_remainder_escapes hd he nonzero, plain,
    fun d' e' hd' he' => ?_⟩
  · obtain ⟨r, rounds, outcome⟩ := evalBinary_remainder_rounds hd he nonzero room
    obtain ⟨same, high⟩ := exact d e
    rw [← same] at high ⊢
    exact evalBinary_eq_rounded outcome rounds high
  · cases hd.symm.trans hd'
    cases he.symm.trans he'
    exact ⟨Decimal.quotientExceeds_eq_false p d (divisor_isZero nonzero).1, (exact d e).1⟩

end

/-- A quotient of thirty digits, at a precision of one. -/
theorem evalBinary_remainder_exact_iff_long :
    let one : Precision := ⟨1, by decide⟩
    one.Fits (-10 ^ 30 : ℤ) ∧ one.Fits 7 ∧ remainder (-10 ^ 30 : ℤ) 7 = -1 ∧
      evalBinary one "%" (.int (-10 ^ 30)) (.int 7) = .ok (.int (-1)) := by
  intro one
  have dividend : one.Fits (-10 ^ 30 : ℤ) := by
    have := one.fits_of_digits (c := -1) (k := 30) (by decide) (by decide) (by decide) (by decide)
    norm_num at this ⊢
    exact this
  have divisor : one.Fits 7 := by
    have := one.fits_of_digits (c := 7) (k := 0) (by decide) (by decide) (by decide) (by decide)
    norm_num at this
    exact this
  have quotient : ⌈((-10 ^ 30 : ℤ) : ℚ) / 7⌉ = -142857142857142857142857142857 := by
    rw [Int.ceil_eq_iff]
    norm_num
  have rest : remainder (-10 ^ 30 : ℤ) 7 = -1 := by
    rw [remainder, truncate, if_pos (by norm_num), quotient]
    norm_num
  have seven : (Value.int 7).number? = some (7 : ℚ) := by simp [Value.number?]
  obtain ⟨value, -, room, -⟩ :=
    evalBinary_remainder_exact_iff one (a := .int (-10 ^ 30)) rfl seven
      dividend divisor (by norm_num)
  obtain ⟨v, outcome, -, integer⟩ := value (room (by decide) (.inl (by norm_num)))
  obtain rfl := (integer (-1)).mpr (by rw [rest]; norm_num)
  exact ⟨dividend, divisor, rest, outcome⟩

/-- There is no room for a zero with the greatest exponent, nor for seven and three at the greatest
precision. -/
theorem evalBinary_remainder_without_room :
    let zero : Decimal := ⟨false, 0, 999999999999999999⟩
    let greatest : Precision := ⟨Precision.greatest, by decide⟩
    zero.isRepresentable = true ∧ zero.value = 0 ∧ remainder 0 7 = 0 ∧
      evalBinary .standard "%" (.decimal (.finite zero)) (.int 7) = .error (.escape .precision) ∧
      evalBinary greatest "%" (.int 7) (.int 3) = .error (.escape .precision) := by
  exact ⟨by decide, by simp [Decimal.value, Decimal.magnitude],
    remainder_zero 7, by decide, by decide⟩

/-! Numbers of any length. -/

namespace Precision

theorem rounded_forRemainder (p : Precision) (a : Decimal) {b : Decimal} (hb : b.coeff ≠ 0) :
    (Decimal.remainderPrecision p a.adjusted b.adjusted).rounded (remainder a.value b.value) =
      (p.forRemainder a.value b.value).rounded (remainder a.value b.value) := by
  by_cases ha : a.coeff = 0
  · simp [(a.value_eq_zero_iff).mpr ha, remainder, truncate, rounded_zero]
  · rw [forRemainder, Decimal.adjusted_eq ha, Decimal.adjusted_eq hb]

end Precision

theorem evalBinary_remainder_rounds_values {p : Precision} {a b : Value} {x y : ℚ}
    (ha : a.number? = some x) (hb : b.number? = some y) (nonzero : y ≠ 0)
    (room : RoomForRemainder p a b) :
    ∃ (r : Except Signal Decimal) (f : Signal → Fault),
      Rounds (p.forRemainder x y) (remainder x y) r ∧
      evalBinary p "%" a b = (r.map Value.demote).mapError fun s => .fault (f s) := by
  obtain ⟨d, hd, rfl⟩ := Value.number?_eq_some_iff.mp ha
  obtain ⟨e, he, rfl⟩ := Value.number?_eq_some_iff.mp hb
  obtain ⟨r, rounds, outcome⟩ := evalBinary_remainder_rounds hd he nonzero room
  have same := p.rounded_forRemainder d (divisor_isZero nonzero).1
  exact ⟨r, _, Decimal.Rounds.congr same rounds, outcome⟩

theorem remainder_nonneg {x y : ℚ} (hx : 0 ≤ x) (hy : y ≠ 0) : 0 ≤ remainder x y := by
  obtain ⟨b, hb⟩ := eq_signOf_mul_abs y
  have size := remainder_signOf_mul false b x |y|
  rw [signOf_false, one_mul, one_mul, ← hb] at size
  rw [size]
  exact (remainder_bounds hx (abs_pos.mpr hy)).1

theorem remainder_neg (x y : ℚ) : remainder (-x) y = -remainder x y := by
  simpa using remainder_signOf_mul true false x y

theorem remainder_of_common_unit {x y : ℚ} {c d k : ℤ} (hx : x = c * 10 ^ k) (hy : y = d * 10 ^ k)
    (nonzero : y ≠ 0) : ∃ m : ℤ, remainder x y = m * 10 ^ k ∧ |m| ≤ |c| ∧ |m| < |d| := by
  obtain ⟨m, hm⟩ := remainder_of_units c d k k
  obtain ⟨le, lt⟩ := abs_remainder_bounds x nonzero
  rw [← hx, ← hy, min_self] at hm
  rw [hm, abs_mul_ten_zpow, hx, abs_mul_ten_zpow] at le
  rw [hm, abs_mul_ten_zpow, hy, abs_mul_ten_zpow] at lt
  refine ⟨m, hm, ?_, ?_⟩
  · exact_mod_cast le_of_mul_le_mul_right le (ten_zpow_pos k)
  · exact_mod_cast lt_of_mul_lt_mul_right lt (ten_zpow_pos k).le

/-- What remains of numbers of any length is rounded. It keeps the sign of the dividend and stays up
to what the operands themselves would be rounded to, but need not be below the divisor any more,
unless it is exact, for which the digits of one operand have to be few enough. -/
theorem evalBinary_remainder_bounds (p : Precision) {a b v : Value} {x y : ℚ}
    (ha : a.number? = some x) (hb : b.number? = some y) (nonzero : y ≠ 0)
    (h : evalBinary p "%" a b = .ok v) :
    ∃ r, v.number? = some r ∧ r = (p.forRemainder x y).rounded (remainder x y) ∧
      |remainder x y| < |y| ∧ |remainder x y| ≤ |x| ∧ (0 ≤ x → 0 ≤ r) ∧ (x ≤ 0 → r ≤ 0) ∧
      |r| ≤ (p.forRemainder x y).rounded |y| ∧ |r| ≤ (p.forRemainder x y).rounded |x| ∧
      ∀ c d k : ℤ, x = c * 10 ^ k → y = d * 10 ^ k → (p.forRemainder x y).lowestExp ≤ k →
        |c| < 10 ^ (p.forRemainder x y).digits ∨ |d| < 10 ^ (p.forRemainder x y).digits →
        |r| < |y| ∧ |r| ≤ |x| := by
  have room : RoomForRemainder p a b := by
    by_contra none
    obtain ⟨d, hd, -⟩ := Value.number?_eq_some_iff.mp ha
    obtain ⟨e, he, rfl⟩ := Value.number?_eq_some_iff.mp hb
    cases h.symm.trans (evalBinary_remainder_escapes hd he nonzero none)
  obtain ⟨outcome, f, rounds, value⟩ := evalBinary_remainder_rounds_values ha hb nonzero room
  obtain ⟨le, lt⟩ := abs_remainder_bounds x nonzero
  generalize p.forRemainder x y = w at rounds
  cases outcome with
  | error s => cases value.symm.trans h
  | ok d =>
    cases value.symm.trans h
    obtain ⟨rounded, -⟩ := rounds
    refine ⟨_, by rw [Value.number?_demote, rounded], rfl, lt, le, fun hx => ?_,
      fun hx => ?_, ?_, ?_, ?_⟩
    · exact w.rounded_nonneg (remainder_nonneg hx nonzero)
    · have := remainder_nonneg (neg_nonneg.mpr hx) nonzero
      rw [remainder_neg, neg_nonneg] at this
      exact w.rounded_nonpos this
    · rw [w.abs_rounded]; exact w.rounded_mono lt.le
    · rw [w.abs_rounded]; exact w.rounded_mono le
    · intro c d k hx hy low few
      obtain ⟨m, hm, mc, md⟩ := remainder_of_common_unit hx hy nonzero
      have digits : |m| < 10 ^ w.digits := few.elim mc.trans_lt md.trans
      rw [w.rounded_of_low_digits hm digits low]
      exact ⟨lt, le⟩

/-- Less than ten remains, but one digit has no number between nine and ten. -/
theorem evalBinary_remainder_bounds_carried :
    let one : Precision := ⟨1, by decide⟩
    let long : Value := .decimal (.finite ⟨true, 996, -2⟩)
    long.number? = some (-(249 / 25)) ∧ evalBinary one "%" long (.int 10) = .ok (.int (-10)) ∧
      (one.forRemainder (-(249 / 25)) 10).rounded (remainder (-(249 / 25)) 10) = -10 ∧
      |remainder (-(249 / 25)) 10| < 10 := by
  intro one long
  have number : long.number? = some (-(249 / 25)) := by
    norm_num [long, Value.number?, Decimal.value, Decimal.magnitude]
  have outcome : evalBinary one "%" long (.int 10) = .ok (.int (-10)) := by decide
  have ten : (Value.int 10).number? = some (10 : ℚ) := by simp [Value.number?]
  obtain ⟨r, result, rounded, less, -⟩ :=
    evalBinary_remainder_bounds one number ten (by norm_num) outcome
  have same : ((-10 : ℤ) : ℚ) = r := Option.some.inj result
  exact ⟨number, outcome, by rw [← rounded, ← same]; norm_num, by simpa using less⟩

/-- The remainder of 9998 by 9999 is rounded to two digits where the precision has one. -/
theorem evalBinary_remainder_past_divisor :
    evalBinary ⟨1, by decide⟩ "%" (.int 9998) (.int 9999) = .ok (.int 10000) ∧
      ¬|(10000 : ℤ)| < |9999| ∧ ¬|(10000 : ℤ)| ≤ |9998| := by
  exact ⟨by decide, by decide, by decide⟩

end Comptime
