import Comptime.Decimal.Arithmetic
import Comptime.Proofs.Decimal.Rounding

/-! Both signs are treated alike. An operation on negated decimals has the same digits and the same
exponent as that on the decimals, and fails where that does. -/
namespace Comptime.Decimal

@[simp] theorem negate_neg (d : Decimal) : d.negate.neg = !d.neg := rfl

@[simp] theorem negate_coeff (d : Decimal) : d.negate.coeff = d.coeff := rfl

@[simp] theorem negate_exp (d : Decimal) : d.negate.exp = d.exp := rfl

@[simp] theorem negate_negate (d : Decimal) : d.negate.negate = d := by simp [negate]

@[simp] theorem isZero_negate (d : Decimal) : d.negate.isZero = d.isZero := rfl

@[simp] theorem adjusted_negate (d : Decimal) : d.negate.adjusted = d.adjusted := rfl

@[simp] theorem coeffAt_negate (d : Decimal) (e : ℤ) : d.negate.coeffAt e = d.coeffAt e := rfl

@[simp] theorem unitsOf_negate (d : Decimal) (e : ℤ) : d.negate.unitsOf e = -d.unitsOf e := by
  simp only [unitsOf, coeffAt_negate]
  cases hd : d.neg <;> simp [negate, hd]

@[simp] theorem padTo_negate (d : Decimal) (e : ℤ) : d.negate.padTo e = (d.padTo e).negate := by
  by_cases h : d.exp ≤ e
  · simp [padTo, h]
  · simp [padTo, h]
    rfl

@[simp] theorem dropZeros_negate (d : Decimal) (k : Nat) :
    d.negate.dropZeros k = (d.dropZeros k).negate := by
  induction k generalizing d with
  | zero => rfl
  | succ k ih =>
    by_cases h : d.coeff % 10 = 0
    · simp only [dropZeros, negate_coeff, h, if_true]
      exact ih ⟨d.neg, d.coeff / 10, d.exp + 1⟩
    · simp [dropZeros, h]

@[simp] theorem isIntegral_negate (d : Decimal) : d.negate.isIntegral = d.isIntegral := rfl

@[simp] theorem toInt_negate (d : Decimal) : d.negate.toInt = -d.toInt := by
  by_cases zero : d.isZero = true
  · simp [toInt, zero]
  · cases sign : d.neg <;> simp [toInt, zero, sign]

/-! Rounding. -/

theorem carried_negate (p : Precision) (d : Decimal) :
    carried p d.negate = (carried p d).negate := by
  by_cases h : d.coeff = Nat.pow 10 p.digits
  · simp only [carried, negate_coeff, h, if_true]
    rfl
  · simp only [carried, negate_coeff, h, if_false]

theorem bounded_negate (d : Decimal) : bounded d.negate = (bounded d).map negate := by
  by_cases h : Precision.maxAdjusted < d.adjusted
  · simp only [bounded, adjusted_negate, h, if_true]
    rfl
  · simp only [bounded, adjusted_negate, h, if_false]
    rfl

theorem roundTo_negate (t : Tie) (p : Precision) (d : Decimal) :
    roundTo t p d.negate = (roundTo t p d).map negate := by
  have unit : roundingExp p d.negate = roundingExp p d := rfl
  have quantized (e : ℤ) : d.negate.quantized t e = (d.quantized t e).negate := rfl
  by_cases zero : d.isZero = true
  · simp only [roundTo, isZero_negate, zero, if_true]
    rfl
  by_cases exact : roundingExp p d ≤ d.exp
  · simp [roundTo, zero, unit, exact, bounded_negate]
  · simp [roundTo, zero, unit, exact, quantized, carried_negate, bounded_negate]

theorem round_negate (p : Precision) (d : Decimal) : round p d.negate = (round p d).map negate :=
  roundTo_negate .up p d

/-! Products, quotients and remainders. -/

theorem mul_comm (p : Precision) (a b : Decimal) : a.mul p b = b.mul p a := by
  simp only [mul, mulTo, bne_comm, Nat.mul_comm, Int.add_comm]

theorem mul_negate_left (p : Precision) (a b : Decimal) :
    a.negate.mul p b = (a.mul p b).map negate := by
  rw [mul, mul, mulTo, mulTo, ← roundTo_negate]
  simp [negate]

theorem marked_negate (d : Decimal) : d.negate.marked = d.marked.negate := by
  by_cases h : d.coeff % 5 = 0
  · simp only [marked, negate_coeff, h, if_true]
    rfl
  · simp only [marked, negate_coeff, h, if_false]

theorem quotient_negate_left (p : Precision) (a b : Decimal) :
    quotient p a.negate b = (quotient p a b).negate := by
  simp only [quotient, negate_neg, negate_coeff, negate_exp, Bool.not_bne]
  split_ifs
  · exact dropZeros_negate ⟨a.neg != b.neg, _, _⟩ _
  · exact marked_negate ⟨a.neg != b.neg, _, _⟩

theorem quotient_negate_right (p : Precision) (a b : Decimal) :
    quotient p a b.negate = (quotient p a b).negate := by
  simp only [quotient, negate_neg, negate_coeff, negate_exp, Bool.bne_not]
  split_ifs
  · exact dropZeros_negate ⟨a.neg != b.neg, _, _⟩ _
  · exact marked_negate ⟨a.neg != b.neg, _, _⟩

theorem div_negate_left (p : Precision) (a b : Decimal) :
    a.negate.div p b = (a.div p b).map negate := by
  cases ha : a.isZero with
  | true =>
    simp only [div, divTo, isZero_negate, ha, if_true, ← roundTo_negate]
    simp [negate]
  | false => simp [div, divTo, ha, quotient_negate_left, roundTo_negate]

theorem div_negate_right (p : Precision) (a b : Decimal) :
    a.div p b.negate = (a.div p b).map negate := by
  cases ha : a.isZero with
  | true =>
    simp only [div, divTo, ha, if_true, ← roundTo_negate]
    simp [negate]
  | false => simp [div, divTo, ha, quotient_negate_right, roundTo_negate]

theorem exactRemainder_negate_left (a b : Decimal) :
    exactRemainder a.negate b = (exactRemainder a b).negate := by
  simp only [exactRemainder, isZero_negate, adjusted_negate, coeffAt_negate,
    negate_exp, padTo_negate]
  split_ifs <;> rfl

theorem rem_negate_left (p : Precision) (a b : Decimal) :
    a.negate.rem p b = (a.rem p b).map negate := by
  have exceeds (w : Precision) : quotientExceeds w a.negate b = quotientExceeds w a b := rfl
  simp only [rem, exceeds, exactRemainder_negate_left, round_negate]
  split_ifs <;> rfl

theorem rem_negate_right (p : Precision) (a b : Decimal) : a.rem p b.negate = a.rem p b := rfl

/-! Sums. -/

theorem exactSum_comm (a b : Decimal) : exactSum a b = exactSum b a := by
  simp only [exactSum, min_comm a.exp, Int.add_comm (a.unitsOf _)]

theorem negligible_of_exp_eq (p : Precision) {a b : Decimal} (h : a.exp = b.exp) :
    negligible p a b = b := by
  have digits := digitCount_pos b.coeff
  refine if_neg ?_
  simp only [adjusted]
  omega

theorem add_comm_of_not_isZero (p : Precision) {a b : Decimal}
    (h : ¬(a.isZero = true ∧ b.isZero = true)) :
    a.add p b = b.add p a := by
  cases ha : a.isZero with
  | true =>
    have hb : b.isZero = false := by simpa [ha] using h
    simp [add, ha, hb]
  | false =>
    cases hb : b.isZero with
    | true => simp [add, ha, hb]
    | false =>
      -- Only the number with the lower exponent can be negligible, so its place does not matter.
      rcases lt_trichotomy a.exp b.exp with less | same | greater
      · simp [add, ha, hb, less, less.not_gt, exactSum_comm]
      · simp [add, ha, hb, same, negligible_of_exp_eq, exactSum_comm a]
      · simp [add, ha, hb, greater, greater.not_gt, exactSum_comm]

/-- One decimal has the value of the other with the opposite sign, and the same digits and exponent,
if they are not zero. -/
inductive Opposite : Decimal → Decimal → Prop where
  | negate (d : Decimal) : Opposite d.negate d
  | zero {d e : Decimal} (hd : d.isZero = true) (he : e.isZero = true) : Opposite d e

theorem Opposite.isZero_eq {d e : Decimal} (h : Opposite d e) : d.isZero = e.isZero := by
  cases h with
  | negate => rfl
  | zero hd he => rw [hd, he]

theorem opposite_ofUnits (n e : ℤ) : Opposite (ofUnits (-n) e) (ofUnits n e) := by
  by_cases zero : n = 0
  · -- Zero units have no minus sign on either side, so that this is no negation.
    subst zero
    exact .zero rfl rfl
  · have sign : decide (-n < 0) = !decide (n < 0) := by
      rw [← decide_not, decide_eq_decide]
      omega
    have negated : ofUnits (-n) e = (ofUnits n e).negate := by
      rw [ofUnits, sign, Int.natAbs_neg]
      rfl
    rw [negated]
    exact .negate _

theorem opposite_exactSum (a b : Decimal) :
    Opposite (exactSum a.negate b.negate) (exactSum a b) := by
  have units : a.negate.unitsOf (min a.exp b.exp) + b.negate.unitsOf (min a.exp b.exp) =
      -(a.unitsOf (min a.exp b.exp) + b.unitsOf (min a.exp b.exp)) := by
    rw [unitsOf_negate, unitsOf_negate]
    ring
  simp only [exactSum, negate_exp, units]
  exact opposite_ofUnits _ _

theorem negligible_negate (p : Precision) (a b : Decimal) :
    negligible p a.negate b.negate = (negligible p a b).negate := by
  by_cases low : b.adjusted < a.exp + min (-1) (digitCount a.coeff - p.digits - 2 : ℤ)
  · simp only [negligible, adjusted_negate, negate_exp, negate_coeff, low, if_true]
    rfl
  · simp only [negligible, adjusted_negate, negate_exp, negate_coeff, low, if_false]

theorem add_negate (p : Precision) (a b : Decimal) :
    ∃ d e, a.negate.add p b.negate = round p d ∧ a.add p b = round p e ∧ Opposite d e := by
  simp only [add, addZero, isZero_negate, negate_exp, padTo_negate, negligible_negate]
  split_ifs
  · exact ⟨_, _, rfl, rfl, .negate _⟩
  · exact ⟨_, _, rfl, rfl, .negate _⟩
  · exact ⟨_, _, rfl, rfl, opposite_exactSum _ _⟩
  · exact ⟨_, _, rfl, rfl, opposite_exactSum _ _⟩

end Comptime.Decimal
