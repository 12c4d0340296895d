import Comptime.Proofs.Decimal.Symmetry
import Comptime.Proofs.Exact

/-! Sums and products do not depend on the order of their operands, and a minus sign of an operand
may be taken out of the result, though that is rounded. The values agree to the last digit. -/
namespace Comptime

def Negates (v w : Value) : Prop := evalUnary "-" w = .ok v

theorem Value.demote_of_isZero {d : Decimal} (h : d.isZero = true) : demote d = .int 0 := by
  rw [demote_eq_int_iff, Decimal.value_of_isZero h, Int.cast_zero]

theorem Decimal.Opposite.negates {d e : Decimal} (h : Opposite d e) :
    Negates (Value.demote d) (Value.demote e) := by
  cases h with
  | negate =>
    cases whole : e.isIntegral with
    | true =>
      rw [Value.demote, isIntegral_negate, whole, toInt_negate, Value.demote, whole]
      rfl
    | false =>
      rw [Value.demote, isIntegral_negate, whole, Value.demote, whole]
      rfl
  | zero hd he =>
    rw [Value.demote_of_isZero hd, Value.demote_of_isZero he]
    rfl

theorem exists_negates {v : Value} {d : Decimal} (h : v.promote? = some (.finite d)) :
    ∃ w e, Negates w v ∧ w.promote? = some (.finite e) ∧ Decimal.Opposite e d ∧
    e.adjusted = d.adjusted := by
  cases v with
  | int n =>
    cases h
    have size : (Decimal.ofInt (-n)).adjusted = (Decimal.ofInt n).adjusted := by
      simp only [Decimal.adjusted, Decimal.ofInt, Int.natAbs_neg]
    exact ⟨.int (-n), _, rfl, rfl, Decimal.opposite_ofUnits n 0, size⟩
  | decimal x =>
    cases h
    exact ⟨.decimal (.finite d.negate), _, rfl, rfl, .negate d, rfl⟩
  | bool | string => cases h

/-! Outcomes of operators on decimals. -/

/-- Two decimals that are the same, or both zero. -/
def Decimal.Alike (d e : Decimal) : Prop := d = e ∨ d.isZero = true ∧ e.isZero = true

theorem Decimal.Alike.demote_eq {d e : Decimal} (h : Alike d e) :
    Value.demote d = Value.demote e := by
  rcases h with rfl | ⟨hd, he⟩
  · rfl
  · rw [Value.demote_of_isZero hd, Value.demote_of_isZero he]

section
variable {p w : Precision} {r s : Except Signal Decimal}

theorem Rounds.exists_zero (h : Rounds p 0 r) : ∃ d, r = .ok d ∧ d.isZero = true := by
  cases r with
  | ok d =>
    have none : d.value = 0 := h.1.trans p.rounded_zero
    exact ⟨d, rfl, d.isZero_iff.mpr (d.value_eq_zero_iff.mp none)⟩
  | error s =>
    have high := h.2
    simp [p.rounded_zero, leading, Precision.maxAdjusted] at high

theorem agrees_zero {R : Decimal → Decimal → Prop}
    (zeros : ∀ d e, d.isZero = true → e.isZero = true → R d e)
    (hr : Rounds p 0 r) (hs : Rounds w 0 s) : Agrees R r s := by
  obtain ⟨d, rfl, hd⟩ := hr.exists_zero
  obtain ⟨e, rfl, he⟩ := hs.exists_zero
  exact .value (zeros d e hd he)

end

namespace Decimal

variable {p : Precision} {a a' b b' : Decimal}

theorem agrees_negate (r : Except Signal Decimal) : Agrees Opposite (r.map negate) r := by
  cases r with
  | ok d => exact .value (.negate d)
  | error s => exact .failure s s

theorem round_agrees (p : Precision) (h : Opposite a b) :
    Agrees Opposite (round p a) (round p b) := by
  cases h with
  | negate =>
    rw [round_negate]
    exact agrees_negate _
  | zero ha hb =>
    exact agrees_zero (fun _ _ => .zero) (rounds_of_value_eq (value_of_isZero ha))
      (rounds_of_value_eq (value_of_isZero hb))

theorem add_agrees_zero {R : Decimal → Decimal → Prop}
    (zeros : ∀ d e, d.isZero = true → e.isZero = true → R d e) (ha : a.isZero = true)
    (hb : b.isZero = true)
    (ha' : a'.isZero = true) (hb' : b'.isZero = true) : Agrees R (a.add p b) (a'.add p b') := by
  have left : Rounds p 0 (a.add p b) := by
    simpa [value_of_isZero ha, value_of_isZero hb] using add_rounds p a b
  have right : Rounds p 0 (a'.add p b') := by
    simpa [value_of_isZero ha', value_of_isZero hb'] using add_rounds p a' b'
  exact agrees_zero zeros left right

theorem add_agrees (p : Precision) (a b : Decimal) : Agrees Alike (a.add p b) (b.add p a) := by
  by_cases zeros : a.isZero = true ∧ b.isZero = true
  · exact add_agrees_zero (fun _ _ hd he => .inr ⟨hd, he⟩) zeros.1 zeros.2 zeros.2 zeros.1
  · rw [add_comm_of_not_isZero p zeros]
    exact .refl (fun _ => .inl rfl) _

theorem sub_agrees (p : Precision) (a b : Decimal) : Agrees Opposite (a.sub p b) (b.sub p a) := by
  by_cases zeros : a.isZero = true ∧ b.isZero = true
  · exact add_agrees_zero (fun _ _ => .zero) zeros.1 zeros.2 zeros.2 zeros.1
  · -- The first difference is the sum of -b and a, and the second one that of b and -a.
    obtain ⟨d, e, hd, he, opposite⟩ := add_negate p b a.negate
    rw [negate_negate] at hd
    have order : a.sub p b = b.negate.add p a := add_comm_of_not_isZero p zeros
    have difference : b.sub p a = round p e := he
    rw [order, hd, difference]
    exact round_agrees p opposite

theorem mul_agrees_left (p : Precision) (b : Decimal) (h : Opposite a' a) :
    Agrees Opposite (a'.mul p b) (a.mul p b) := by
  cases h with
  | negate =>
    rw [mul_negate_left]
    exact agrees_negate _
  | zero ha' ha =>
    have left : Rounds p 0 (a'.mul p b) := by simpa [value_of_isZero ha'] using mul_rounds p a' b
    have right : Rounds p 0 (a.mul p b) := by simpa [value_of_isZero ha] using mul_rounds p a b
    exact agrees_zero (fun _ _ => .zero) left right

theorem mul_agrees_right (p : Precision) (a : Decimal) (h : Opposite b' b) :
    Agrees Opposite (a.mul p b') (a.mul p b) := by
  rw [mul_comm p a b', mul_comm p a b]
  exact mul_agrees_left p a h

theorem div_agrees_left (p : Precision) (hb : b.coeff ≠ 0) (h : Opposite a' a) :
    Agrees Opposite (a'.div p b) (a.div p b) := by
  cases h with
  | negate =>
    rw [div_negate_left]
    exact agrees_negate _
  | zero ha' ha =>
    have left : Rounds p 0 (a'.div p b) := by simpa [value_of_isZero ha'] using div_rounds p a' hb
    have right : Rounds p 0 (a.div p b) := by simpa [value_of_isZero ha] using div_rounds p a hb
    exact agrees_zero (fun _ _ => .zero) left right

theorem div_agrees_right (p : Precision) (a : Decimal) (hb : b.coeff ≠ 0) (h : Opposite b' b) :
    Agrees Opposite (a.div p b') (a.div p b) := by
  cases h with
  | negate =>
    rw [div_negate_right]
    exact agrees_negate _
  | zero _ zero => exact absurd (b.isZero_iff.mp zero) hb

theorem rem_agrees_left (p : Precision) (b : Decimal) (h : Opposite a' a) :
    Agrees Opposite (a'.rem p b) (a.rem p b) := by
  cases h with
  | negate =>
    rw [rem_negate_left]
    exact agrees_negate _
  | zero ha' ha =>
    have rest {d : Decimal} (hd : d.isZero = true) : Rounds p 0 (d.rem p b) := by
      have nothing : exactRemainder d b = ⟨d.neg, 0, min d.exp b.exp⟩ := if_pos hd
      have whole : quotientExceeds p d b = false := by simp only [quotientExceeds, hd]; rfl
      rw [rem, whole, nothing]
      exact rounds_of_value_eq (value_of_isZero rfl)
    exact agrees_zero (fun _ _ => .zero) (rest ha') (rest ha)

theorem rem_eq_right (p : Precision) (a : Decimal) (hb : b.coeff ≠ 0) (h : Opposite b' b) :
    a.rem p b' = a.rem p b := by
  cases h with
  | negate => exact rem_negate_right p a b
  | zero _ zero => exact absurd (b.isZero_iff.mp zero) hb

end Decimal

/-! Binary operators. -/

/-- What an operator comes to for decimals, other than a power or a division by zero. -/
def ArithmeticOp.onDecimals (p : Precision) :
    ArithmeticOp → Decimal → Decimal → Except Signal Decimal
  | .add, a, b => a.add p b
  | .sub, a, b => a.sub p b
  | .mul, a, b => a.mul p b
  | .div, a, b => a.div p b
  | .rem, a, b => a.rem p b
  | .pow, a, b => a.power p b

section
variable (p : Precision) {op : ArithmeticOp} {glyph : String} {a a' b b' : Value}
    {d d' e e' : Decimal}

theorem ArithmeticOp.apply_onDecimals (other : op ≠ .pow) :
    op.apply p (.finite d) (.finite e) = (op.onDecimals p d e).map .finite := by
  cases op with
  | pow => exact absurd rfl other
  | _ => rfl

theorem ArithmeticOp.workingPrecision?_congr (op : ArithmeticOp) {x x' y y' : Extended}
    (left : x.adjusted = x'.adjusted) (right : y.adjusted = y'.adjusted) :
    op.workingPrecision? p x y = op.workingPrecision? p x' y' := by
  simp only [workingPrecision?, left, right]

theorem evalBinary_onDecimals {w : Precision}
    (hop : BinaryOp.ofGlyph? glyph = some (.arithmetic op)) (other : op ≠ .pow)
    (ha : a.promote? = some (.finite d)) (hb : b.promote? = some (.finite e))
    (divisor : op.divides = true → e.isZero = false)
    (working : op.workingPrecision? p (.finite d) (.finite e) = some w) :
    ∃ f, evalBinary p glyph a b = ((op.onDecimals w d e).map Value.demote).mapError f :=
  ⟨_, (evalBinary_arithmetic p hop ha hb).trans
    (evalArithmetic_of_apply divisor (fun h => absurd h other) working
    (ArithmeticOp.apply_onDecimals w other))⟩

theorem evalBinary_without_room (hop : BinaryOp.ofGlyph? glyph = some (.arithmetic op))
    (other : op ≠ .pow) (ha : a.promote? = some (.finite d)) (hb : b.promote? = some (.finite e))
    (working : op.workingPrecision? p (.finite d) (.finite e) = none) :
    ∃ f, evalBinary p glyph a b = .error f := by
  rw [evalBinary_arithmetic p hop ha hb, evalArithmetic, working]
  have root : (op == .pow) = false := by simpa using other
  simp only [root, Bool.false_and, Bool.false_eq_true, if_false]
  split <;> exact ⟨_, rfl⟩

theorem evalBinary_zero_divisor (hop : BinaryOp.ofGlyph? glyph = some (.arithmetic op))
    (divides : op.divides = true) (ha : a.promote? = some (.finite d))
    (hb : b.promote? = some (.finite e)) (zero : e.isZero = true) :
    ∃ f, evalBinary p glyph a b = .error f := by
  refine ⟨.fault (.divisionByZero glyph (.finite d) (.finite e)), ?_⟩
  simp [evalBinary_arithmetic p hop ha hb, evalArithmetic, divides, Extended.isZero, zero]

theorem evalBinary_agrees_of (op : ArithmeticOp) {R : Decimal → Decimal → Prop}
    {S : Value → Value → Prop} (hop : BinaryOp.ofGlyph? glyph = some (.arithmetic op))
    (other : op ≠ .pow) (kept : ∀ d e, R d e → S (Value.demote d) (Value.demote e))
    (ha : a.promote? = some (.finite d)) (hb : b.promote? = some (.finite e))
    (ha' : a'.promote? = some (.finite d')) (hb' : b'.promote? = some (.finite e'))
    (zeros : op.divides = true → e.isZero = e'.isZero)
    (working : op.workingPrecision? p (.finite d) (.finite e) =
      op.workingPrecision? p (.finite d') (.finite e'))
    (h : ∀ w, (op.divides = true → e'.coeff ≠ 0) →
      Agrees R (op.onDecimals w d e) (op.onDecimals w d' e')) :
    Agrees S (evalBinary p glyph a b) (evalBinary p glyph a' b') := by
  by_cases undefined : op.divides = true ∧ e'.isZero = true
  · obtain ⟨f, left⟩ := evalBinary_zero_divisor p hop undefined.1 ha hb
      ((zeros undefined.1).trans undefined.2)
    obtain ⟨g, right⟩ := evalBinary_zero_divisor p hop undefined.1 ha' hb' undefined.2
    rw [left, right]
    exact .failure f g
  have divisor (divides : op.divides = true) : e'.isZero = false := by
    simpa [divides] using undefined
  have nonzero (divides : op.divides = true) : e'.coeff ≠ 0 := by
    simpa [Decimal.isZero] using divisor divides
  cases precision : op.workingPrecision? p (.finite d') (.finite e') with
  | none =>
    obtain ⟨f, left⟩ := evalBinary_without_room p hop other ha hb (working.trans precision)
    obtain ⟨g, right⟩ := evalBinary_without_room p hop other ha' hb' precision
    rw [left, right]
    exact .failure f g
  | some w =>
    obtain ⟨f, left⟩ := evalBinary_onDecimals p hop other ha hb
      (fun divides => (zeros divides).trans (divisor divides)) (working.trans precision)
    obtain ⟨g, right⟩ := evalBinary_onDecimals p hop other ha' hb' divisor precision
    rw [left, right]
    exact (((h w nonzero).map kept).mapError_left f).mapError_right g

/-- Sums and products of finite numbers do not depend on the order, and a difference in the other
order is the negated one. Factors, dividends and divisors may be negated instead of the product or
the quotient; a remainder is negated with the dividend alone. These are the same values to the last
digit, and each side fails if and only if the other does. -/
theorem arithmetic_symmetric {x y : ℚ} (ha : a.number? = some x) (hb : b.number? = some y) :
    Agrees Eq (evalBinary p "+" a b) (evalBinary p "+" b a) ∧
    Agrees Eq (evalBinary p "*" a b) (evalBinary p "*" b a) ∧
    Agrees Negates (evalBinary p "-" a b) (evalBinary p "-" b a) ∧
    ∃ a' b', Negates a' a ∧ Negates b' b ∧
      Agrees Negates (evalBinary p "*" a' b) (evalBinary p "*" a b) ∧
      Agrees Negates (evalBinary p "*" a b') (evalBinary p "*" a b) ∧
      Agrees Negates (evalBinary p "/" a' b) (evalBinary p "/" a b) ∧
      Agrees Negates (evalBinary p "/" a b') (evalBinary p "/" a b) ∧
      Agrees Negates (evalBinary p "%" a' b) (evalBinary p "%" a b) ∧
      Agrees Eq (evalBinary p "%" a b') (evalBinary p "%" a b) := by
  obtain ⟨d, hd, -⟩ := Value.number?_eq_some_iff.mp ha
  obtain ⟨e, he, -⟩ := Value.number?_eq_some_iff.mp hb
  obtain ⟨a', d', negatedA, hd', oppositeA, sizeA⟩ := exists_negates hd
  obtain ⟨b', e', negatedB, he', oppositeB, sizeB⟩ := exists_negates he
  have negated (d e : Decimal) : d.Opposite e → Negates (Value.demote d) (Value.demote e) :=
    Decimal.Opposite.negates
  have same (d e : Decimal) (h : d = e) : Value.demote d = Value.demote e := by rw [h]
  refine ⟨?_, ?_, ?_, a', b', negatedA, negatedB, ?_, ?_, ?_, ?_, ?_, ?_⟩
  · exact evalBinary_agrees_of p .add rfl (by simp) (fun _ _ => Decimal.Alike.demote_eq) hd he he hd
      (by simp [ArithmeticOp.divides]) rfl fun w _ => Decimal.add_agrees w d e
  · refine evalBinary_agrees_of p .mul rfl (by simp) same hd he he hd
      (by simp [ArithmeticOp.divides]) rfl
      fun w _ => ?_
    rw [ArithmeticOp.onDecimals, Decimal.mul_comm]
    exact .refl (fun _ => rfl) _
  · exact evalBinary_agrees_of p .sub rfl (by simp) negated hd he he hd
      (by simp [ArithmeticOp.divides]) rfl
      fun w _ => Decimal.sub_agrees w d e
  · exact evalBinary_agrees_of p .mul rfl (by simp) negated hd' he hd he (fun _ => rfl) rfl
      fun w _ => Decimal.mul_agrees_left w e oppositeA
  · exact evalBinary_agrees_of p .mul rfl (by simp) negated hd he' hd he
      (fun _ => oppositeB.isZero_eq) rfl
      fun w _ => Decimal.mul_agrees_right w d oppositeB
  · exact evalBinary_agrees_of p .div rfl (by simp) negated hd' he hd he (fun _ => rfl) rfl
      fun w nonzero => Decimal.div_agrees_left w (nonzero rfl) oppositeA
  · exact evalBinary_agrees_of p .div rfl (by simp) negated hd he' hd he
      (fun _ => oppositeB.isZero_eq) rfl
      fun w nonzero => Decimal.div_agrees_right w d (nonzero rfl) oppositeB
  · exact evalBinary_agrees_of p .rem rfl (by simp) negated hd' he hd he (fun _ => rfl)
      (ArithmeticOp.workingPrecision?_congr p .rem sizeA rfl)
      fun w _ => Decimal.rem_agrees_left w e oppositeA
  · refine evalBinary_agrees_of p .rem rfl (by simp) same hd he' hd he
      (fun _ => oppositeB.isZero_eq)
      (ArithmeticOp.workingPrecision?_congr p .rem rfl sizeB) fun w nonzero => ?_
    rw [ArithmeticOp.onDecimals, Decimal.rem_eq_right w d (nonzero rfl) oppositeB]
    exact .refl (fun _ => rfl) _

end

/-- Ties go away from zero on both sides of it, and the exponent of a product does not depend on
signs. -/
theorem arithmetic_symmetric_ties :
    let two : Precision := ⟨2, by decide⟩
    let half : Value := .decimal (.finite ⟨false, 50, -2⟩)
    let fraction : Value := .decimal (.finite ⟨false, 125, -2⟩)
    half.number? = some (1 / 2) ∧ fraction.number? = some (5 / 4) ∧
      evalBinary two "-" half fraction = .ok (.decimal (.finite ⟨true, 75, -2⟩)) ∧
      evalBinary two "-" fraction half = .ok (.decimal (.finite ⟨false, 75, -2⟩)) ∧
      evalBinary two "*" fraction half = .ok (.decimal (.finite ⟨false, 63, -2⟩)) ∧
      ∃ v, Negates v fraction ∧
        evalBinary two "*" v half = .ok (.decimal (.finite ⟨true, 63, -2⟩)) := by
  intro two half fraction
  have first : half.number? = some (1 / 2) := by
    norm_num [half, Value.number?, Decimal.value, Decimal.magnitude]
  have second : fraction.number? = some (5 / 4) := by
    norm_num [fraction, Value.number?, Decimal.value, Decimal.magnitude]
  have difference : evalBinary two "-" fraction half = .ok (.decimal (.finite ⟨false, 75, -2⟩)) :=
    by decide
  have product : evalBinary two "*" fraction half = .ok (.decimal (.finite ⟨false, 63, -2⟩)) := by
    decide
  obtain ⟨-, -, order, -⟩ := arithmetic_symmetric two first second
  obtain ⟨-, -, -, v, -, negated, -, factor, -⟩ := arithmetic_symmetric two second first
  rw [difference] at order
  rw [product] at factor
  generalize evalBinary two "-" half fraction = outcome at order
  generalize right : evalBinary two "*" v half = outcome' at factor
  cases order with
  | value h =>
    cases factor with
    | value h' =>
      cases h
      cases h'
      exact ⟨first, second, rfl, difference, product, v, negated, right⟩

end Comptime
