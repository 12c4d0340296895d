import Comptime.Proofs.Decimal.Power
import Comptime.Proofs.Ideal

/-! An arithmetic operator rounds its exact result once, whatever the size of its operands, but a
power what lies next to that. The result is an integer if it is whole. Where there is no exact
result the operator fails. -/
namespace Comptime

namespace Value

/-- The number that a value is, if it is a finite one. -/
def number? : Value → Option ℚ
  | .int n => some n
  | .decimal (.finite d) => some d.value
  | _ => none

theorem number?_eq_some_iff {v : Value} {q : ℚ} :
    v.number? = some q ↔ ∃ d, v.promote? = some (.finite d) ∧ d.value = q := by
  cases v with
  | int n => simp [number?, promote?]
  | decimal x => cases x <;> simp [number?, promote?]
  | bool | string => simp [number?, promote?]

theorem demote_cases (d : Decimal) : (∃ n : ℤ, d.value = n ∧ demote d = .int n) ∨
    (∀ n : ℤ, d.value ≠ n) ∧ demote d = .decimal (.finite d) := by
  unfold demote
  split_ifs with whole
  · exact .inl ⟨d.toInt, (Decimal.toInt_cast whole).symm, rfl⟩
  · exact .inr ⟨fun n hn => whole (d.isIntegral_iff.mpr ⟨n, hn⟩), rfl⟩

@[simp] theorem number?_demote (d : Decimal) : (demote d).number? = some d.value := by
  rcases demote_cases d with ⟨n, hn, h⟩ | ⟨-, h⟩
  · rw [h, number?, hn]
  · rw [h, number?]

theorem demote_eq_int_iff (d : Decimal) (n : ℤ) : demote d = .int n ↔ d.value = n := by
  rcases demote_cases d with ⟨m, hm, h⟩ | ⟨fraction, h⟩
  · simp [h, hm]
  · simp [h, fraction n]

end Value

/-- How far what an operator rounds may lie from its exact result. -/
def ArithmeticOp.slack (p : Precision) (q : ℚ) : ArithmeticOp → ℚ
  | .pow => 10 ^ (-(p.digits + 1) : ℤ) * errorScale q
  | _ => 0

section
variable {p w : Precision} {op : ArithmeticOp} {glyph : String} {a b : Decimal} {q : ℚ}

theorem ArithmeticOp.abs_sub_le_slack (p : Precision) (q : ℚ) (op : ArithmeticOp) :
    |q - q| ≤ op.slack p q := by
  rw [sub_self, abs_zero]
  cases op with
  | pow => exact mul_nonneg (ten_zpow_pos _).le (errorScale_pos q).le
  | _ => exact le_rfl

theorem ArithmeticOp.slack_le (p : Precision) (q : ℚ) (op : ArithmeticOp) :
    op.slack p q ≤ 10 ^ (-(p.digits + 1) : ℤ) * errorScale q := by
  cases op with
  | pow => exact le_rfl
  | _ => exact mul_nonneg (ten_zpow_pos _).le (errorScale_pos q).le

theorem ArithmeticOp.eq_of_abs_sub_le_slack {z : ℚ} (other : op ≠ .pow)
    (h : |z - q| ≤ op.slack p q) : z = q := by
  have none : op.slack p q = 0 := by
    cases op with
    | pow => exact absurd rfl other
    | _ => rfl
  rw [none] at h
  exact sub_eq_zero.mp (abs_nonpos_iff.mp h)

theorem ArithmeticOp.workingPrecision?_of_ne_rem (p : Precision) (a b : Extended) (h : op ≠ .rem) :
    op.workingPrecision? p a b = some p := by
  cases op with
  | rem => exact absurd rfl h
  | _ => rfl

theorem ArithmeticOp.workingPrecision?_rem (p : Precision) (a b : Decimal) :
    ArithmeticOp.rem.workingPrecision? p (.finite a) (.finite b) = some w ↔
      Decimal.remainderPrecision p a.adjusted b.adjusted = w ∧ w.digits ≤ Precision.greatest := by
  rw [workingPrecision?, Option.ite_none_right_eq_some, Option.some.injEq, and_comm]
  exact and_congr_right fun same => same ▸ Iff.rfl

theorem ArithmeticOp.le_workingPrecision
    (h : op.workingPrecision? p (.finite a) (.finite b) = some w) :
    p.digits ≤ w.digits := by
  by_cases rem : op = .rem
  · subst rem
    rw [← ((workingPrecision?_rem p a b).mp h).1]
    exact Nat.le_max_left _ _
  · cases (workingPrecision?_of_ne_rem p _ _ rem).symm.trans h
    exact le_rfl

theorem evalArithmetic_of_apply {r : Except Signal Decimal}
    (divisor : op.divides = true → b.isZero = false)
    (base : op = .pow → b.isZero = true → a.isZero = false)
    (working : op.workingPrecision? p (.finite a) (.finite b) = some w)
    (h : op.apply w (.finite a) (.finite b) = r.map .finite) :
    evalArithmetic p op glyph (.finite a) (.finite b) =
      (r.map Value.demote).mapError fun s => .fault (.stopped glyph (.finite a) (.finite b) s) := by
  have divides : (op.divides && Extended.isZero (.finite b)) = false := by
    cases hop : op.divides <;> simp [Extended.isZero, divisor, hop]
  have power : (op == .pow && Extended.isZero (.finite a) && Extended.isZero (.finite b)) =
    false := by
    cases hb : b.isZero with
    | false => simp [Extended.isZero, hb]
    | true => simpa [Extended.isZero, hb, Bool.and_eq_false_iff] using fun h => base h hb
  simp only [evalArithmetic, divides, power, working, h, Bool.false_eq_true, if_false]
  cases r <;> rfl

theorem power_of_isZero (ha : a.isZero = true) (hb : b.isZero = false) :
    Extended.power p (.finite a) (.finite b) =
      .ok (if b.neg then .infinity (a.neg && (Extended.finite b).isOdd)
        else .finite ⟨a.neg && (Extended.finite b).isOdd, 0, 0⟩) := by
  simp [Extended.power, Extended.limitPower, Extended.isNaN, Extended.isNegative,
    Extended.isZero, ha, hb]

theorem power_of_not_isZero (ha : a.isZero = false) (hb : b.isZero = false)
    (whole : b.isIntegral = true) :
    Extended.power p (.finite a) (.finite b) = (a.power p b).map .finite := by
  simp [Extended.power, Extended.isNaN, Extended.isIntegral, Extended.isZero, ha, hb, whole]

theorem evalPower_zero (hb : b.isZero = true) :
    evalArithmetic p .pow glyph (.finite a) (.finite b) = .ok (Value.demote ⟨false, 1, 0⟩) := by
  cases ha : a.isZero with
  | true => simp [evalArithmetic, ArithmeticOp.divides, Extended.isZero, ha, hb]; rfl
  | false =>
    have apply : ArithmeticOp.pow.apply p (.finite a) (.finite b) =
        (.ok ⟨false, 1, 0⟩ : Except Signal Decimal).map .finite := by
      simp [ArithmeticOp.apply, Extended.power, Extended.isNaN, Extended.isZero, hb]; rfl
    exact evalArithmetic_of_apply (by simp [ArithmeticOp.divides]) (fun _ _ => ha) rfl apply

theorem evalPower_rounds (glyph : String) {n : ℤ} (hn : b.value = n)
    (h : ArithmeticOp.idealPower? a.value b.value = some q) :
    ∃ r, RoundsNear p q r ∧ evalArithmetic p .pow glyph (.finite a) (.finite b) =
      (r.map Value.demote).mapError fun s => .fault (.stopped glyph (.finite a) (.finite b) s) := by
  rw [hn, ArithmeticOp.idealPower?_intCast] at h
  split_ifs at h with undefined
  cases h
  have zero : b.isZero = true ↔ n = 0 := by
    rw [Decimal.isZero_iff, ← Decimal.value_eq_zero_iff, hn]; exact_mod_cast Iff.rfl
  cases hb : b.isZero with
  | true =>
    obtain rfl := zero.mp hb
    exact ⟨.ok ⟨false, 1, 0⟩, by simpa using (Decimal.rounds_unit p false).near, evalPower_zero hb⟩
  | false =>
    have hb' : b.coeff ≠ 0 := by simpa [Decimal.isZero] using hb
    have hn₀ : n ≠ 0 := fun h => by simp [zero.mpr h] at hb
    cases ha : a.isZero with
    | true =>
      have hneg : b.neg = false := by
        have : ¬b.value < 0 := by
          rw [hn]; exact_mod_cast fun hneg => undefined ⟨Decimal.value_of_isZero ha, hneg⟩
        simpa [Decimal.value_neg_iff hb'] using this
      have rounds : Rounds p 0 (.ok ⟨a.neg && (Extended.finite b).isOdd, 0, 0⟩) := by
        refine ⟨?_, by simp [Precision.rounded_zero, leading, Precision.maxAdjusted]⟩
        rw [p.rounded_zero, Decimal.value_eq_zero_iff]
      refine ⟨_, by rw [Decimal.value_of_isZero ha, zero_zpow n hn₀]; exact rounds.near, ?_⟩
      refine evalArithmetic_of_apply (by simp [ArithmeticOp.divides]) (by simp [hb]) rfl ?_
      rw [ArithmeticOp.apply, power_of_isZero ha hb, hneg]
      rfl
    | false =>
      have whole : b.isIntegral = true := b.isIntegral_iff.mpr ⟨n, hn⟩
      have exponent : b.toInt = n := by exact_mod_cast (Decimal.toInt_cast whole).trans hn
      have rounds := Decimal.power_rounds p (by simpa [Decimal.isZero] using ha) whole
      rw [exponent] at rounds
      exact ⟨_, rounds, evalArithmetic_of_apply (by simp [ArithmeticOp.divides]) (by simp [hb]) rfl
        (power_of_not_isZero ha hb whole)⟩

theorem divisor_isZero (h : b.value ≠ 0) : b.coeff ≠ 0 ∧ b.isZero = false := by
  have hb : b.coeff ≠ 0 := mt b.value_eq_zero_iff.mpr h
  exact ⟨hb, by simpa [Decimal.isZero] using hb⟩

theorem evalArithmetic_rounds_once (glyph : String) (other : op ≠ .pow)
    (working : op.workingPrecision? p (.finite a) (.finite b) = some w)
    (h : op.ideal? a.value b.value = some q) :
    ∃ r, Rounds w q r ∧ evalArithmetic p op glyph (.finite a) (.finite b) =
      (r.map Value.demote).mapError fun s => .fault (.stopped glyph (.finite a) (.finite b) s) := by
  cases op with
  | add =>
    cases h
    exact ⟨_, Decimal.add_rounds w a b,
      evalArithmetic_of_apply (by simp [ArithmeticOp.divides]) (by simp) working rfl⟩
  | sub =>
    cases h
    exact ⟨_, Decimal.sub_rounds w a b,
      evalArithmetic_of_apply (by simp [ArithmeticOp.divides]) (by simp) working rfl⟩
  | mul =>
    cases h
    exact ⟨_, Decimal.mul_rounds w a b,
      evalArithmetic_of_apply (by simp [ArithmeticOp.divides]) (by simp) working rfl⟩
  | div =>
    simp only [ArithmeticOp.ideal?] at h
    split_ifs at h with hb
    cases h
    obtain ⟨hb, zero⟩ := divisor_isZero hb
    exact ⟨_, Decimal.div_rounds w a hb,
      evalArithmetic_of_apply (fun _ => zero) (by simp) working rfl⟩
  | rem =>
    simp only [ArithmeticOp.ideal?] at h
    split_ifs at h with hb
    cases h
    obtain ⟨hb, zero⟩ := divisor_isZero hb
    have rounds := Decimal.rem_rounds p a hb
    rw [((ArithmeticOp.workingPrecision?_rem p a b).mp working).1] at rounds
    exact ⟨_, rounds, evalArithmetic_of_apply (fun _ => zero) (by simp) working rfl⟩
  | pow => exact absurd rfl other

theorem evalArithmetic_rounds (glyph : String) (whole : op = .pow → ∃ n : ℤ, b.value = n)
    (working : op.workingPrecision? p (.finite a) (.finite b) = some w)
    (h : op.ideal? a.value b.value = some q) :
    ∃ z r, |z - q| ≤ op.slack p q ∧ Rounds w z r ∧
    evalArithmetic p op glyph (.finite a) (.finite b) =
      (r.map Value.demote).mapError fun s => .fault (.stopped glyph (.finite a) (.finite b) s) := by
  by_cases power : op = .pow
  · subst power
    obtain ⟨n, hn⟩ := whole rfl
    obtain ⟨r, ⟨z, near, rounds⟩, outcome⟩ := evalPower_rounds glyph hn h
    cases working
    exact ⟨z, r, near, rounds, outcome⟩
  · obtain ⟨r, rounds, outcome⟩ := evalArithmetic_rounds_once glyph power working h
    exact ⟨q, r, op.abs_sub_le_slack p q, rounds, outcome⟩

theorem evalArithmetic_undefined (p : Precision) (glyph : String)
    (whole : op = .pow → ∃ n : ℤ, b.value = n) (h : op.ideal? a.value b.value = none) :
    ∃ f, evalArithmetic p op glyph (.finite a) (.finite b) = .error (.fault f) := by
  cases op with
  | add | sub | mul => cases h
  | div | rem =>
    have hb : b.isZero = true := by
      rw [Decimal.isZero_iff, ← Decimal.value_eq_zero_iff]
      simpa [ArithmeticOp.ideal?] using h
    exact ⟨.divisionByZero glyph (.finite a) (.finite b),
      by simp [evalArithmetic, ArithmeticOp.divides, Extended.isZero, hb]⟩
  | pow =>
    obtain ⟨n, hn⟩ := whole rfl
    rw [ArithmeticOp.ideal?, hn, ArithmeticOp.idealPower?_intCast] at h
    obtain ⟨ha, hneg⟩ : a.value = 0 ∧ n < 0 := by simpa using h
    have below : b.value < 0 := by rw [hn]; exact_mod_cast hneg
    obtain ⟨hb, zero⟩ := divisor_isZero below.ne
    have apply : ArithmeticOp.pow.apply p (.finite a) (.finite b) = _ :=
      power_of_isZero ((Decimal.isZero_iff a).mpr (a.value_eq_zero_iff.mp ha)) zero
    rw [(Decimal.value_neg_iff hb).mp below, if_pos rfl] at apply
    exact ⟨.notFinite glyph (.finite a) (.finite b),
      by simp [evalArithmetic, ArithmeticOp.divides, ArithmeticOp.workingPrecision?,
        Extended.isZero, zero, apply]⟩

end

section
variable {p w : Precision} {op : ArithmeticOp} {glyph : String} {a b : Value} {x y q : ℚ}

theorem evalBinary_arithmetic (p : Precision)
    (hop : BinaryOp.ofGlyph? glyph = some (.arithmetic op)) {d e : Extended}
    (hd : a.promote? = some d) (he : b.promote? = some e) :
    evalBinary p glyph a b = evalArithmetic p op glyph d e := by
  simp only [evalBinary, hop, promoteBoth, hd, he]

theorem evalBinary_rounds (p : Precision) (hop : BinaryOp.ofGlyph? glyph = some (.arithmetic op))
    (other : op ≠ .rem) (ha : a.number? = some x) (hb : b.number? = some y)
    (whole : op = .pow → ∃ n : ℤ, y = n) (h : op.ideal? x y = some q) :
    ∃ (z : ℚ) (r : Except Signal Decimal)
    (f : Signal → Fault), |z - q| ≤ op.slack p q ∧ Rounds p z r ∧
      evalBinary p glyph a b = (r.map Value.demote).mapError fun s => .fault (f s) := by
  obtain ⟨d, hd, rfl⟩ := Value.number?_eq_some_iff.mp ha
  obtain ⟨e, he, rfl⟩ := Value.number?_eq_some_iff.mp hb
  obtain ⟨z, r, near, rounds, outcome⟩ :=
    evalArithmetic_rounds glyph whole (ArithmeticOp.workingPrecision?_of_ne_rem p _ _ other) h
  exact ⟨z, r, _, near, rounds, (evalBinary_arithmetic p hop hd he).trans outcome⟩

theorem evalBinary_rounds_once (p : Precision)
    (hop : BinaryOp.ofGlyph? glyph = some (.arithmetic op)) (other : op ≠ .rem) (root : op ≠ .pow)
    (ha : a.number? = some x) (hb : b.number? = some y) (h : op.ideal? x y = some q) :
    ∃ (r : Except Signal Decimal) (f : Signal → Fault), Rounds p q r ∧
      evalBinary p glyph a b = (r.map Value.demote).mapError fun s => .fault (f s) := by
  obtain ⟨z, r, f, near, rounds, outcome⟩ := evalBinary_rounds p hop other ha hb (absurd · root) h
  obtain rfl := ArithmeticOp.eq_of_abs_sub_le_slack root near
  exact ⟨r, f, rounds, outcome⟩

theorem evalBinary_eq_rounded {r : Except Signal Decimal} {f : Signal → Stop}
    (h : evalBinary p glyph a b = (r.map Value.demote).mapError f) (rounds : Rounds w q r)
    (high : leading (w.rounded q) ≤ Precision.maxAdjusted) :
    ∃ v, evalBinary p glyph a b = .ok v ∧ v.number? = some (w.rounded q) ∧
      ∀ n : ℤ, v = .int n ↔ w.rounded q = n := by
  cases r with
  | error s => exact absurd rounds.2 (not_lt.mpr high)
  | ok d =>
    obtain ⟨value, -⟩ := rounds
    exact ⟨_, h, by rw [Value.number?_demote, value],
      fun n => by rw [Value.demote_eq_int_iff, value]⟩

theorem ArithmeticOp.exists_rounded_eq_roundedTo (p : Precision) {z : ℚ}
    (near : |z - q| ≤ op.slack p q) (low : q = 0 ∨ Precision.minAdjusted ≤ leading q) :
    ∃ z', |z' - q| ≤ 10 ^ (-(p.digits + 1) : ℤ) * |q| ∧ (op ≠ .pow → z' = q) ∧
      p.rounded z = roundedTo p.digits z' := by
  have self : |q - q| ≤ 10 ^ (-(p.digits + 1) : ℤ) * |q| := by
    rw [sub_self, abs_zero]
    exact mul_nonneg (ten_zpow_pos _).le (abs_nonneg q)
  by_cases root : op = .pow
  · by_cases zero : q = 0
    · subst zero
      have vanishes := p.rounded_of_near (c := 0) (k := 0) (by simp) (by simp) (.inl rfl)
        (near.trans (op.slack_le p 0))
      exact ⟨0, self, fun _ => rfl, vanishes.trans (by simp [roundedTo])⟩
    · have bottom := low.resolve_left zero
      have scale : errorScale q = |q| := max_eq_left ((le_leading_iff zero _).mp bottom)
      rw [root, slack, scale] at near
      obtain ⟨z', near', same⟩ := p.exists_rounded_eq_roundedTo zero bottom near
      exact ⟨z', near', fun other => absurd root other, same⟩
  · obtain rfl := eq_of_abs_sub_le_slack root near
    exact ⟨z, self, fun _ => rfl, p.rounded_eq_roundedTo low⟩

/-- What is rounded half up to the digits of the precision is the exact result, unless its leading
digit stands too low, and for a power a number that is off it in no more than the first digit beyond
those. The operator fails if the rounded number is too high, and otherwise has it as its value, an
integer if it is whole. A result that has few enough digits is exact. -/
theorem evalBinary_roundsNearly (p : Precision)
    (hop : BinaryOp.ofGlyph? glyph = some (.arithmetic op)) (other : op ≠ .rem)
    (ha : a.number? = some x) (hb : b.number? = some y) (whole : op = .pow → ∃ n : ℤ, y = n)
    (h : op.ideal? x y = some q) (low : q = 0 ∨ Precision.minAdjusted ≤ leading q) :
    (∃ z, |z - q| ≤ 10 ^ (-(p.digits + 1) : ℤ) * |q| ∧ (op ≠ .pow → z = q) ∧
      (leading (roundedTo p.digits z) ≤ Precision.maxAdjusted →
        ∃ v, evalBinary p glyph a b = .ok v ∧ v.number? = some (roundedTo p.digits z) ∧
          ∀ n : ℤ, v = .int n ↔ roundedTo p.digits z = n) ∧
      (Precision.maxAdjusted < leading (roundedTo p.digits z) →
        ∃ f, evalBinary p glyph a b = .error (.fault f))) ∧
    ((∃ c k : ℤ, q = c * 10 ^ k ∧ |c| < 10 ^ p.digits) → leading q ≤ Precision.maxAdjusted →
      ∃ v, evalBinary p glyph a b = .ok v ∧ v.number? = some q ∧ ∀ n : ℤ, v = .int n ↔ q = n) := by
  obtain ⟨z, r, f, near, rounds, outcome⟩ := evalBinary_rounds p hop other ha hb whole h
  constructor
  · obtain ⟨z', near', same, rounded⟩ := ArithmeticOp.exists_rounded_eq_roundedTo p near low
    refine ⟨z', near', same, fun high => ?_, fun large => ?_⟩
    · rw [← rounded] at high ⊢
      exact evalBinary_eq_rounded outcome rounds high
    · rw [← rounded] at large
      cases r with
      | ok d => exact absurd rounds.2 (not_le.mpr large)
      | error s => exact ⟨f s, outcome⟩
  · rintro ⟨c, k, hq, digits⟩ high
    have kept := p.rounded_of_near hq digits low (near.trans (op.slack_le p q))
    rw [← kept] at high ⊢
    exact evalBinary_eq_rounded outcome rounds high

end

/-- A half less one hundred, to two digits: the tie goes away from zero and carries to an
integer. -/
theorem evalBinary_roundsNearly_difference :
    let half : Value := .decimal (.finite ⟨false, 5, -1⟩)
    half.number? = some (1 / 2) ∧ (Value.int 100).number? = some 100 ∧
      ArithmeticOp.ideal? (1 / 2) 100 .sub = some (-(199 / 2)) ∧ roundedTo 2 (-(199 / 2)) = -100 ∧
      evalBinary ⟨2, by decide⟩ "-" half (.int 100) = .ok (.int (-100)) := by
  intro half
  have number : half.number? = some (1 / 2) := by
    norm_num [half, Value.number?, Decimal.value, Decimal.magnitude]
  have result : ArithmeticOp.ideal? (1 / 2) 100 .sub = some (-(199 / 2)) := by
    norm_num [ArithmeticOp.ideal?]
  have lead : leading (-(199 / 2)) = 1 := leading_eq (by norm_num) (by norm_num)
  have top : leading (-100) = 2 := leading_eq (by norm_num) (by norm_num)
  have tie : halfUp (199 / 2) = 100 := by norm_num [halfUp]
  have rounded : roundedTo 2 (-(199 / 2)) = -100 := by
    rw [roundedTo, lead]
    norm_num [tie]
  have low : Precision.minAdjusted ≤ leading (-(199 / 2)) := by rw [lead]; decide
  have minus : BinaryOp.ofGlyph? "-" = some (.arithmetic .sub) := rfl
  obtain ⟨⟨z, -, same, kept, -⟩, -⟩ := evalBinary_roundsNearly ⟨2, by decide⟩ minus (by decide)
    number (b := .int 100) rfl (by simp) result (.inr low)
  obtain rfl := same (by decide)
  obtain ⟨v, outcome, -, integer⟩ := kept (by rw [rounded, top]; decide)
  obtain rfl := (integer (-100)).mpr (by rw [rounded]; norm_num)
  exact ⟨number, rfl, result, rounded, outcome⟩

/-- The cube of 2924 is 24999545024. Its first digits on the way are rounded up to a half. -/
theorem evalBinary_power_past_middle :
    ArithmeticOp.ideal? 2924 3 .pow = some 24999545024 ∧ roundedTo 1 24999545024 = 20000000000 ∧
      evalBinary ⟨1, by decide⟩ "**" (.int 2924) (.int 3) = .ok (.int 30000000000) := by
  have cube : ArithmeticOp.ideal? 2924 3 .pow = some 24999545024 := by
    have := ArithmeticOp.idealPower?_intCast 2924 3
    norm_num at this
    exact this
  have lead : leading 24999545024 = 10 := leading_eq (by norm_num) (by norm_num)
  have down : halfUp (390617891 / 156250000) = 2 := by norm_num [halfUp]
  refine ⟨cube, ?_, by decide⟩
  rw [roundedTo, lead]
  norm_num [down]

end Comptime
