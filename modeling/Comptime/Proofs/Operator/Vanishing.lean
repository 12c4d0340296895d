import Comptime.Proofs.Operator.Comparison
import Comptime.Proofs.Operator.Failure

/-! When a result vanishes. Nothing stops at a number that is too low, so that below half of the
least unit results other than zero become zero. From the unit on they do not. -/
namespace Comptime

def Vanishes (p : Precision) (glyph : String) (a b : Value) : Prop :=
  evalBinary p glyph a b = .ok (.int 0)

theorem not_vanishes_of_fails {p : Precision} {glyph : String} {a b : Value}
    (h : Fails p glyph a b) :
    ¬Vanishes p glyph a b := by
  obtain ⟨f, failed⟩ := h
  intro zero
  cases failed.symm.trans zero

theorem below_half_iff {e : ℤ} {q : ℚ} (h : q ≠ 0 → 10 ^ e ≤ |q|) : 2 * |q| < 10 ^ e ↔ q = 0 := by
  have pos := ten_zpow_pos e
  constructor
  · intro low
    by_contra hq
    have := h hq
    linarith
  · rintro rfl
    simpa using pos

section
variable {p : Precision} {op : ArithmeticOp} {glyph : String} {a b : Value} {x y q : ℚ}

theorem vanishes_iff_of_ideal (p : Precision) (op : ArithmeticOp)
    (hop : BinaryOp.ofGlyph? glyph = some (.arithmetic op))
    (other : op ≠ .rem) (root : op ≠ .pow) (ha : a.number? = some x) (hb : b.number? = some y)
    (h : op.ideal? x y = some q) : Vanishes p glyph a b ↔ 2 * |q| < 10 ^ p.lowestExp := by
  obtain ⟨r, f, rounds, outcome⟩ := evalBinary_rounds_once p hop other root ha hb h
  rw [← p.rounded_eq_zero_iff, Vanishes]
  constructor
  · intro zero
    cases r with
    | error s => cases outcome.symm.trans zero
    | ok d =>
      have value : Value.demote d = .int 0 := Except.ok.inj (outcome.symm.trans zero)
      rw [← rounds.1]
      exact_mod_cast (Value.demote_eq_int_iff d 0).mp value
  · intro zero
    have high : leading (p.rounded q) ≤ Precision.maxAdjusted := by
      simp [zero, leading, Precision.maxAdjusted]
    obtain ⟨v, value, -, integer⟩ := evalBinary_eq_rounded outcome rounds high
    rw [value, (integer 0).mpr (by exact_mod_cast zero)]

theorem vanishes_div_iff (p : Precision) (ha : a.number? = some x) (hb : b.number? = some y) :
    Vanishes p "/" a b ↔ y ≠ 0 ∧ 2 * |x / y| < 10 ^ p.lowestExp := by
  by_cases zero : y = 0
  · have fails : Fails p "/" a b := fails_of_undefined p .div rfl ha hb (by simp) (if_pos zero)
    exact iff_of_false (not_vanishes_of_fails fails) fun h => h.1 zero
  · rw [vanishes_iff_of_ideal p .div rfl (by simp) (by simp) ha hb (if_neg zero)]
    simp [zero]

theorem ten_zpow_le_abs_add {e c d : ℤ} (hx : x = c * 10 ^ e) (hy : y = d * 10 ^ e)
    (h : x + y ≠ 0) :
    10 ^ e ≤ |x + y| :=
  ten_zpow_le_abs h (c := c + d) (by rw [hx, hy]; push_cast; ring)

theorem ten_zpow_le_abs_mul {e c d k l : ℤ} (hx : x = c * 10 ^ k) (hy : y = d * 10 ^ l)
    (low : e ≤ k + l) (h : x * y ≠ 0) : 10 ^ e ≤ |x * y| := by
  refine (ten_zpow_mono low).trans (ten_zpow_le_abs h (c := c * d) ?_)
  rw [hx, hy, ten_zpow_add]
  push_cast
  ring

theorem ten_zpow_le_abs_div {e c k l : ℤ} (hx : x = c * 10 ^ k) (hy : |y| ≤ 10 ^ l)
    (low : e ≤ k - l) (nonzero : y ≠ 0) (h : x ≠ 0) : 10 ^ e ≤ |x / y| := by
  have split : (10 : ℚ) ^ k = 10 ^ (k - l) * 10 ^ l := by
    rw [← ten_zpow_add, Int.sub_add_cancel]
  have size : 10 ^ (k - l) * |y| ≤ |x| :=
    calc 10 ^ (k - l) * |y| ≤ 10 ^ (k - l) * 10 ^ l :=
      mul_le_mul_of_nonneg_left hy (ten_zpow_pos _).le
      _ = 10 ^ k := split.symm
      _ ≤ |x| := ten_zpow_le_abs h hx
  rw [abs_div, le_div_iff₀ (abs_pos.mpr nonzero)]
  exact (mul_le_mul_of_nonneg_right (ten_zpow_mono low) (abs_nonneg y)).trans size

/-- When sums, differences, products and quotients of numbers vanish. Sums and differences of whole
numbers of least units do so only if they are zero, so that such numbers differ by zero if and only
if they are equal. Products and quotients whose operands are not too low together do so only for a
factor or a dividend of zero. -/
theorem arithmetic_vanishes_iff (p : Precision) (ha : a.number? = some x)
    (hb : b.number? = some y) :
    (Vanishes p "+" a b ↔ 2 * |x + y| < 10 ^ p.lowestExp) ∧
    (Vanishes p "-" a b ↔ 2 * |x - y| < 10 ^ p.lowestExp) ∧
    (Vanishes p "*" a b ↔ 2 * |x * y| < 10 ^ p.lowestExp) ∧
    (Vanishes p "/" a b ↔ y ≠ 0 ∧ 2 * |x / y| < 10 ^ p.lowestExp) ∧
    (∀ c d : ℤ, x = c * 10 ^ p.lowestExp → y = d * 10 ^ p.lowestExp →
      (Vanishes p "+" a b ↔ x + y = 0) ∧ (Vanishes p "-" a b ↔ x - y = 0) ∧
      (Represents a (.number x) → Represents b (.number y) →
        (Vanishes p "-" a b ↔ Holds p "==" a b))) ∧
    (∀ c d k l : ℤ, x = c * 10 ^ k → y = d * 10 ^ l → p.lowestExp ≤ k + l →
      (Vanishes p "*" a b ↔ x = 0 ∨ y = 0)) ∧
    ∀ c k l : ℤ, x = c * 10 ^ k → |y| ≤ 10 ^ l → p.lowestExp ≤ k - l →
      (Vanishes p "/" a b ↔ y ≠ 0 ∧ x = 0) := by
  have sum : Vanishes p "+" a b ↔ 2 * |x + y| < 10 ^ p.lowestExp :=
    vanishes_iff_of_ideal p .add rfl (by simp) (by simp) ha hb rfl
  have difference : Vanishes p "-" a b ↔ 2 * |x - y| < 10 ^ p.lowestExp :=
    vanishes_iff_of_ideal p .sub rfl (by simp) (by simp) ha hb rfl
  have product : Vanishes p "*" a b ↔ 2 * |x * y| < 10 ^ p.lowestExp :=
    vanishes_iff_of_ideal p .mul rfl (by simp) (by simp) ha hb rfl
  have quotient := vanishes_div_iff p ha hb
  refine ⟨sum, difference, product, quotient, fun c d hx hy => ?_, fun c d k l hx hy low => ?_,
    fun c k l hx hy low => ?_⟩
  · have negated : -y = (-d : ℤ) * 10 ^ p.lowestExp := by rw [hy]; push_cast; ring
    have apart : Vanishes p "-" a b ↔ x - y = 0 := by
      rw [difference, sub_eq_add_neg]
      exact below_half_iff (ten_zpow_le_abs_add hx negated)
    refine ⟨sum.trans (below_half_iff (ten_zpow_le_abs_add hx hy)), apart, fun na nb => ?_⟩
    rw [apart, holds_eq_iff na nb, sub_eq_zero]
  · rw [product, below_half_iff (ten_zpow_le_abs_mul hx hy low), mul_eq_zero]
  · rw [quotient]
    refine and_congr_right fun nonzero => ?_
    rw [below_half_iff fun h => ten_zpow_le_abs_div hx hy low nonzero (div_ne_zero_iff.mp h).1]
    simp [nonzero]

end

/-- Two decimals that differ by less than half of the least unit. -/
theorem arithmetic_vanishes_iff_below :
    let one : Precision := ⟨1, by decide⟩
    let a : Decimal := ⟨false, 12, -1000000⟩
    let b : Decimal := ⟨false, 8, -1000000⟩
    Vanishes one "-" (.decimal (.finite a)) (.decimal (.finite b)) ∧
      2 * |a.value - b.value| < 10 ^ one.lowestExp ∧
      ¬Holds one "==" (.decimal (.finite a)) (.decimal (.finite b)) := by
  intro one a b
  have difference : Vanishes one "-" (.decimal (.finite a)) (.decimal (.finite b)) := by
    unfold Vanishes; decide
  obtain ⟨-, ⟨below, -⟩, -⟩ :=
    arithmetic_vanishes_iff one (a := .decimal (.finite a)) (b := .decimal (.finite b)) rfl rfl
  exact ⟨difference, below difference, by unfold Holds; decide⟩

/-- The product of a number literal with itself vanishes, though the number is not zero. -/
theorem product_of_literal_vanishes :
    let tiny : Decimal := ⟨false, 1, -600000⟩
    Literal.readNumber? "1E-600000".toList = some tiny ∧
      evalBinary .standard "*" (.decimal (.finite tiny)) (.decimal (.finite tiny)) = .ok (.int 0) ∧
      tiny.value * tiny.value ≠ 0 := by
  intro tiny
  have nonzero : tiny.value ≠ 0 := mt tiny.value_eq_zero_iff.mp (by decide)
  exact ⟨by decide, by decide, mul_ne_zero nonzero nonzero⟩

end Comptime
