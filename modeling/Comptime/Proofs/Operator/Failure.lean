import Comptime.Proofs.Operator.Remainder

/-! When arithmetic fails. An operator with an exact result fails if and only if that overflows, and
one without an exact result always does. All these failures are faults that can be described, and in
all other cases there is a finite number. -/
namespace Comptime

/-- A binary operator fails for two values, with an error that blames no expression. -/
def Fails (p : Precision) (glyph : String) (a b : Value) : Prop :=
  ∃ f, evalBinary p glyph a b = .error (.fault f)

/-- A binary operator fails for two values if and only if something is the case, and has a finite
number as its value otherwise. -/
def FailsJustWhen (p : Precision) (glyph : String) (a b : Value) (case : Prop) : Prop :=
  (Fails p glyph a b ↔ case) ∧ (¬case → ∃ v q, evalBinary p glyph a b = .ok v ∧ v.number? = some q)

section
variable {p w : Precision} {op : ArithmeticOp} {glyph : String} {a b : Value} {x y q : ℚ}

theorem failsJustWhen_of_rounds {r : Except Signal Decimal} {f : Signal → Fault}
    (rounds : Rounds w q r)
    (h : evalBinary p glyph a b = (r.map Value.demote).mapError fun s => .fault (f s)) :
    FailsJustWhen p glyph a b (Overflows w.digits q) := by
  rw [FailsJustWhen, w.overflows_iff]
  cases r with
  | ok d =>
    have value : evalBinary p glyph a b = .ok (Value.demote d) := h
    have works : ¬Fails p glyph a b := by
      intro fails
      obtain ⟨g, failed⟩ := fails
      cases value.symm.trans failed
    exact ⟨iff_of_false works (not_lt.mpr rounds.2), fun _ => ⟨_, _, value, Value.number?_demote d⟩⟩
  | error s => exact ⟨iff_of_true ⟨f s, h⟩ rounds.2, fun works => absurd rounds.2 works⟩

theorem failsJustWhen_of_ideal (p : Precision) (op : ArithmeticOp)
    (hop : BinaryOp.ofGlyph? glyph = some (.arithmetic op))
    (other : op ≠ .rem) (root : op ≠ .pow) (ha : a.number? = some x) (hb : b.number? = some y)
    (h : op.ideal? x y = some q) : FailsJustWhen p glyph a b (Overflows p.digits q) := by
  obtain ⟨r, f, rounds, outcome⟩ := evalBinary_rounds_once p hop other root ha hb h
  exact failsJustWhen_of_rounds rounds outcome

theorem exists_overflows_iff (p : Precision) {z : ℚ}
    (near : |z - q| ≤ 10 ^ (-(p.digits + 1) : ℤ) * errorScale q) :
    ∃ z', |z' - q| ≤ 10 ^ (-(p.digits + 1) : ℤ) * |q| ∧
    (Overflows p.digits z ↔ Overflows p.digits z') := by
  rcases le_total (10 ^ Precision.minAdjusted) |q| with large | small
  · exact ⟨z, by rwa [errorScale, max_eq_left large] at near, Iff.rfl⟩
  · refine ⟨q, ?_, iff_of_false ?_ (p.not_overflows_of_le le_rfl (by decide) small)⟩
    · rw [sub_self, abs_zero]
      exact mul_nonneg (ten_zpow_pos _).le (abs_nonneg q)
    · have pos := ten_zpow_pos Precision.minAdjusted
      have one : (10 : ℚ) ^ (-(p.digits + 1) : ℤ) ≤ 1 := by
        rw [← zpow_zero (10 : ℚ)]
        exact ten_zpow_mono (by omega)
      rw [errorScale, max_eq_right small] at near
      have off := near.trans (mul_le_of_le_one_left pos.le one)
      refine p.not_overflows_of_le (k := Precision.minAdjusted + 1) (by omega) (by decide) ?_
      rw [ten_zpow_add, zpow_one]
      have := abs_sub_abs_le_abs_sub z q
      linarith

theorem exists_failsJustWhen_power (p : Precision) {n : ℤ} (ha : a.number? = some x)
    (hb : b.number? = some n) (h : ArithmeticOp.ideal? x n .pow = some q) :
    ∃ z, |z - q| ≤ 10 ^ (-(p.digits + 1) : ℤ) * |q| ∧
    FailsJustWhen p "**" a b (Overflows p.digits z) := by
  have stars : BinaryOp.ofGlyph? "**" = some (.arithmetic .pow) := rfl
  obtain ⟨z, r, f, near, rounds, outcome⟩ :=
    evalBinary_rounds p stars (by simp) ha hb (fun _ => ⟨n, rfl⟩) h
  obtain ⟨z', near', same⟩ := exists_overflows_iff p near
  have fails := failsJustWhen_of_rounds rounds outcome
  rw [same] at fails
  exact ⟨z', near', fails⟩

theorem fails_of_undefined (p : Precision) (op : ArithmeticOp)
    (hop : BinaryOp.ofGlyph? glyph = some (.arithmetic op))
    (ha : a.number? = some x) (hb : b.number? = some y) (whole : op = .pow → ∃ n : ℤ, y = n)
    (h : op.ideal? x y = none) : Fails p glyph a b := by
  obtain ⟨d, hd, rfl⟩ := Value.number?_eq_some_iff.mp ha
  obtain ⟨e, he, rfl⟩ := Value.number?_eq_some_iff.mp hb
  obtain ⟨f, failed⟩ := evalArithmetic_undefined p glyph whole h
  exact ⟨f, (evalBinary_arithmetic p hop hd he).trans failed⟩

theorem evalArithmetic_told {v w : Extended} {f : Fault}
    (h : evalArithmetic p op glyph v w = .error (.fault f)) (lim : Limits) :
    ∃ message, Failure.ofFault lim f = .error { kind := .evaluation, message } := by
  unfold evalArithmetic at h
  split_ifs at h
  · cases h; exact ⟨_, rfl⟩
  · split at h
    · cases h
    · split at h
      · cases h; exact ⟨_, rfl⟩
      · cases h
      · cases h; exact ⟨_, rfl⟩

theorem evalBinary_told {f : Fault} (hop : BinaryOp.ofGlyph? glyph = some (.arithmetic op))
    (ha : a.number? = some x) (hb : b.number? = some y)
    (h : evalBinary p glyph a b = .error (.fault f)) (lim : Limits) :
    ∃ message, Failure.ofFault lim f = .error { kind := .evaluation, message } := by
  obtain ⟨d, hd, -⟩ := Value.number?_eq_some_iff.mp ha
  obtain ⟨e, he, -⟩ := Value.number?_eq_some_iff.mp hb
  exact evalArithmetic_told ((evalBinary_arithmetic p hop hd he).symm.trans h) lim

theorem FailsJustWhen.or_of_fails {case other : Prop} (fails : other → Fails p glyph a b)
    (h : ¬other → FailsJustWhen p glyph a b case) : FailsJustWhen p glyph a b (other ∨ case) := by
  by_cases undefined : other
  · exact ⟨iff_of_true (fails undefined) (.inl undefined),
      fun works => absurd (.inl undefined) works⟩
  · simpa [FailsJustWhen, undefined] using h undefined

theorem fails_power_of_neg (p : Precision) (ha : a.number? = some x) (hb : b.number? = some y)
    (negative : x < 0) (fraction : ∀ n : ℤ, y ≠ n) : Fails p "**" a b := by
  obtain ⟨d, hd, rfl⟩ := Value.number?_eq_some_iff.mp ha
  obtain ⟨e, he, rfl⟩ := Value.number?_eq_some_iff.mp hb
  have base : d.isZero = false := (divisor_isZero negative.ne).2
  have sign : d.neg = true := (Decimal.value_neg_iff (divisor_isZero negative.ne).1).mp negative
  have exponent : e.isZero = false := (divisor_isZero (by exact_mod_cast fraction 0)).2
  have part : e.isIntegral = false := by
    simpa [← Bool.not_eq_true, Decimal.isIntegral_iff] using fraction
  have invalid : ArithmeticOp.pow.apply p (.finite d) (.finite e) = .error .invalidOperation := by
    simp [ArithmeticOp.apply, Extended.power, Extended.isNaN, Extended.isZero, Extended.isNegative,
      Extended.isIntegral, base, sign, exponent, part]
  refine ⟨.stopped "**" (.finite d) (.finite e) .invalidOperation, ?_⟩
  rw [evalBinary_arithmetic p rfl hd he]
  simp [evalArithmetic, ArithmeticOp.divides, ArithmeticOp.workingPrecision?,
    Extended.isZero, base, invalid]

theorem evalBinary_power_zero (p : Precision) (ha : a.number? = some x) (hb : b.number? = some 0) :
    evalBinary p "**" a b = .ok (.int 1) := by
  obtain ⟨d, hd, rfl⟩ := Value.number?_eq_some_iff.mp ha
  obtain ⟨e, he, zero⟩ := Value.number?_eq_some_iff.mp hb
  have exponent : e.isZero = true := e.isZero_iff.mpr (e.value_eq_zero_iff.mp zero)
  rw [evalBinary_arithmetic p rfl hd he, evalPower_zero exponent]
  rfl

/-- When the operators fail for numbers: sums, differences and products where they overflow,
quotients and remainders also for a divisor of zero, powers with a whole exponent also for zero to a
negative one. What a power rounds is off the exact result in no more than the first digit beyond
those of the precision. A remainder that there is room for never fails for the length of the whole
quotient. Each failure is an error with its message. -/
theorem arithmetic_fails_just_when (p : Precision) (ha : a.number? = some x)
    (hb : b.number? = some y) :
    FailsJustWhen p "+" a b (Overflows p.digits (x + y)) ∧
    FailsJustWhen p "-" a b (Overflows p.digits (x - y)) ∧
    FailsJustWhen p "*" a b (Overflows p.digits (x * y)) ∧
    FailsJustWhen p "/" a b (y = 0 ∨ Overflows p.digits (x / y)) ∧
    (y = 0 ∨ RoomForRemainder p a b →
      FailsJustWhen p "%" a b (y = 0 ∨ Overflows (p.forRemainder x y).digits (remainder x y))) ∧
    (∀ n : ℤ, y = n → ∃ z, |z - x ^ n| ≤ 10 ^ (-(p.digits + 1) : ℤ) * |x ^ n| ∧
      FailsJustWhen p "**" a b (x = 0 ∧ n < 0 ∨ Overflows p.digits z)) ∧
    (x = 0 → y = 0 → evalBinary p "**" a b = .ok (.int 1)) ∧
    (x < 0 → (∀ n : ℤ, y ≠ n) → Fails p "**" a b) ∧
    ∀ glyph ∈ ["+", "-", "*", "/", "%", "**"], ∀ f, evalBinary p glyph a b = .error (.fault f) →
      ∀ lim, ∃ message, Failure.ofFault lim f = .error { kind := .evaluation, message } := by
  refine ⟨?_, ?_, ?_, ?_, fun room => ?_, fun n whole => ?_, fun _ exponent => ?_,
    fun negative fraction => ?_,
    fun glyph member f failed lim => ?_⟩
  · exact failsJustWhen_of_ideal p .add rfl (by simp) (by simp) ha hb rfl
  · exact failsJustWhen_of_ideal p .sub rfl (by simp) (by simp) ha hb rfl
  · exact failsJustWhen_of_ideal p .mul rfl (by simp) (by simp) ha hb rfl
  · refine .or_of_fails (fun zero => ?_) fun nonzero => ?_
    · exact fails_of_undefined p .div rfl ha hb (by simp) (if_pos zero)
    · exact failsJustWhen_of_ideal p .div rfl (by simp) (by simp) ha hb (if_neg nonzero)
  · refine .or_of_fails (fun zero => ?_) fun nonzero => ?_
    · exact fails_of_undefined p .rem rfl ha hb (by simp) (if_pos zero)
    · obtain ⟨r, f, rounds, outcome⟩ :=
        evalBinary_remainder_rounds_values ha hb nonzero (room.resolve_left nonzero)
      exact failsJustWhen_of_rounds rounds outcome
  · subst whole
    by_cases undefined : x = 0 ∧ n < 0
    · have none : ArithmeticOp.ideal? x n .pow = none := by simp [ArithmeticOp.ideal?, undefined]
      have fails : Fails p "**" a b := fails_of_undefined p .pow rfl ha hb (fun _ => ⟨n, rfl⟩) none
      exact ⟨x ^ n, by rw [sub_self, abs_zero]; exact mul_nonneg (ten_zpow_pos _).le (abs_nonneg _),
        .or_of_fails (fun _ => fails) fun defined => absurd undefined defined⟩
    · have result : ArithmeticOp.ideal? x n .pow = some (x ^ n) := by
        rw [ArithmeticOp.ideal?, ArithmeticOp.idealPower?_intCast, if_neg undefined]
      obtain ⟨z, near, fails⟩ := exists_failsJustWhen_power p ha hb result
      exact ⟨z, near, .or_of_fails (fun none => absurd none undefined) fun _ => fails⟩
  · subst exponent
    exact evalBinary_power_zero p ha hb
  · exact fails_power_of_neg p ha hb negative fraction
  · simp only [List.mem_cons, List.not_mem_nil, or_false] at member
    rcases member with rfl | rfl | rfl | rfl | rfl | rfl <;>
      exact evalBinary_told rfl ha hb failed lim

end

/-- Two digits are below the limit, and rounded to one they carry over it. -/
theorem arithmetic_fails_just_when_carried :
    let one : Precision := ⟨1, by decide⟩
    let top : Decimal := ⟨false, 95, 999998⟩
    top.adjusted = Precision.maxAdjusted ∧ Fails one "*" (.decimal (.finite top)) (.int 1) ∧
      Overflows 1 (top.value * 1) ∧ Fails one "/" (.decimal (.finite top)) (.int 1) := by
  intro one top
  have number : (Value.decimal (.finite top)).number? = some top.value := rfl
  have unit : (Value.int 1).number? = some (1 : ℚ) := by simp [Value.number?]
  obtain ⟨-, -, ⟨product, -⟩, ⟨quotient, -⟩, -⟩ := arithmetic_fails_just_when one number unit
  have fails : Fails one "*" (.decimal (.finite top)) (.int 1) :=
    ⟨.stopped "*" (.finite top) (.finite ⟨false, 1, 0⟩) .overflow, by decide⟩
  have overflows := product.mp fails
  refine ⟨by decide, fails, overflows, quotient.mpr (.inr ?_)⟩
  rwa [mul_one, ← div_one top.value] at overflows

/-- The square of a number rounds to the highest one of a single digit, but its first four digits to
a half above that. -/
theorem evalBinary_power_past_limit :
    let one : Precision := ⟨1, by decide⟩
    let root : Decimal := ⟨false, 97467, 499995⟩
    ¬Overflows 1 (root.value ^ (2 : ℤ)) ∧ Fails one "**" (.decimal (.finite root)) (.int 2) := by
  intro one root
  have top := ten_zpow_pos 999999
  have square : root.value ^ (2 : ℤ) = 9499816089 / 10 ^ 9 * 10 ^ (999999 : ℤ) := by
    have split : (10 : ℚ) ^ (999999 : ℤ) = 10 ^ (9 : ℤ) * 10 ^ (999990 : ℤ) := by
      rw [← ten_zpow_add]; rfl
    have digits : ((97467 : Nat) : ℚ) ^ (2 : ℤ) = 9499816089 / 10 ^ 9 * 10 ^ (9 : ℤ) := by norm_num
    have twice : (499995 * 2 : ℤ) = 999990 := rfl
    rw [split, Decimal.value, signOf_false, one_mul, Decimal.magnitude, mul_zpow, ← zpow_mul,
      twice, digits, mul_assoc]
  have lead : leading (root.value ^ (2 : ℤ)) = 999999 := by
    rw [square]
    exact leading_mul_ten_zpow (by norm_num) (by norm_num) _
  have rounded : roundedTo 1 (root.value ^ (2 : ℤ)) = 9 * 10 ^ (999999 : ℤ) := by
    have down : halfUp (9499816089 / 10 ^ 9) = 9 := by norm_num [halfUp]
    have positive : 0 < root.value ^ (2 : ℤ) := by
      rw [square]
      exact mul_pos (by norm_num) top
    have place : (999999 - (1 : Nat) + 1 : ℤ) = 999999 := rfl
    rw [roundedTo, lead, place, sign_pos positive, abs_of_pos positive, square,
      mul_div_cancel_right₀ _ top.ne', down]
    simp
  refine ⟨?_, .stopped "**" (.finite root) (.finite ⟨false, 2, 0⟩) .overflow, by decide +kernel⟩
  rw [Overflows, rounded, leading_mul_ten_zpow (by norm_num) (by norm_num)]
  decide

end Comptime
