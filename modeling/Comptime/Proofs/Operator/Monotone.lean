import Comptime.Proofs.Operator.Comparison

/-! Rounded results are in the order of the exact ones, so that sums, differences, products and
quotients grow with their operands as exact ones do. Where digits are dropped, or a result vanishes
or becomes an integer, results may become equal but never change places. -/
namespace Comptime

/-- Of two outcomes that are values, the first is not the greater one. -/
def AtMost (p : Precision) (o o' : Except Stop Value) : Prop :=
  ∀ v v', o = .ok v → o' = .ok v' → Holds p "<=" v v'

section
variable {op : ArithmeticOp} {glyph : String} {a a' b b' c v : Value} {x x' y y' z q q' : ℚ}

theorem represents_rounded (p : Precision) (op : ArithmeticOp)
    (hop : BinaryOp.ofGlyph? glyph = some (.arithmetic op)) (other : op ≠ .rem) (root : op ≠ .pow)
    (ha : a.number? = some x) (hb : b.number? = some y) (h : op.ideal? x y = some q)
    (value : evalBinary p glyph a b = .ok v) :
    Represents v (.number (p.rounded q)) := by
  obtain ⟨r, f, rounds, outcome⟩ := evalBinary_rounds_once p hop other root ha hb h
  rw [outcome] at value
  cases r with
  | error s => cases value
  | ok d =>
    cases value
    rw [← rounds.1]
    exact .demote d

theorem atMost_of_ideal (p : Precision) (op : ArithmeticOp)
    (hop : BinaryOp.ofGlyph? glyph = some (.arithmetic op)) (other : op ≠ .rem) (root : op ≠ .pow)
    (ha : a.number? = some x) (hb : b.number? = some y) (ha' : a'.number? = some x')
    (hb' : b'.number? = some y') (h : op.ideal? x y = some q) (h' : op.ideal? x' y' = some q')
    (le : q ≤ q') :
    AtMost p (evalBinary p glyph a b) (evalBinary p glyph a' b') := by
  intro v v' value value'
  have low := represents_rounded p op hop other root ha hb h value
  have high := represents_rounded p op hop other root ha' hb' h' value'
  exact (holds_le_iff low high).mpr (p.rounded_mono le)

/-- Sums grow with each of their operands, and so do products with a factor that is not negative and
quotients with a positive divisor. Differences grow with the first operand and fall with the
second. -/
theorem arithmetic_monotone (p : Precision) (ha : a.number? = some x) (ha' : a'.number? = some x')
    (hc : c.number? = some z) (le : x ≤ x') :
    AtMost p (evalBinary p "+" a c) (evalBinary p "+" a' c) ∧
    AtMost p (evalBinary p "-" a c) (evalBinary p "-" a' c) ∧
    AtMost p (evalBinary p "-" c a') (evalBinary p "-" c a) ∧
    (0 ≤ z → AtMost p (evalBinary p "*" a c) (evalBinary p "*" a' c)) ∧
    (0 < z → AtMost p (evalBinary p "/" a c) (evalBinary p "/" a' c)) := by
  refine ⟨?_, ?_, ?_, fun sign => ?_, fun sign => ?_⟩
  · exact atMost_of_ideal p .add rfl (by simp) (by simp) ha hc ha' hc rfl rfl (add_le_add_left le z)
  · exact atMost_of_ideal p .sub rfl (by simp) (by simp) ha hc ha' hc rfl rfl
      (sub_le_sub_right le z)
  · exact atMost_of_ideal p .sub rfl (by simp) (by simp) hc ha' hc ha rfl rfl (sub_le_sub_left le z)
  · exact atMost_of_ideal p .mul rfl (by simp) (by simp) ha hc ha' hc rfl rfl
      (mul_le_mul_of_nonneg_right le sign)
  · exact atMost_of_ideal p .div rfl (by simp) (by simp) ha hc ha' hc
      (if_neg sign.ne') (if_neg sign.ne')
      (div_le_div_of_nonneg_right le sign.le)

end

/-- A number that is carried to one more digit, and one below the least unit that vanishes. -/
theorem arithmetic_monotone_carried :
    let one : Precision := ⟨1, by decide⟩
    let low : Value := .decimal (.finite ⟨false, 4, -1000000⟩)
    let high : Value := .decimal (.finite ⟨false, 6, -1000000⟩)
    evalBinary one "+" (.int 94) (.int 0) = .ok (.int 90) ∧
      evalBinary one "+" (.int 95) (.int 0) = .ok (.int 100) ∧ Holds one "<=" (.int 90) (.int 100) ∧
      evalBinary one "*" low (.int 1) = .ok (.int 0) ∧
      evalBinary one "*" high (.int 1) = .ok (.decimal (.finite ⟨false, 1, -999999⟩)) ∧
      Holds one "<=" (.int 0) (.decimal (.finite ⟨false, 1, -999999⟩)) := by
  intro one low high
  have number (n : ℤ) : (Value.int n).number? = some (n : ℚ) := rfl
  have kept : evalBinary one "+" (.int 94) (.int 0) = .ok (.int 90) := by decide
  have carried : evalBinary one "+" (.int 95) (.int 0) = .ok (.int 100) := by decide
  have vanished : evalBinary one "*" low (.int 1) = .ok (.int 0) := by decide
  have least : evalBinary one "*" high (.int 1) = .ok (.decimal (.finite ⟨false, 1, -999999⟩)) := by
    decide +kernel
  have smaller (k : ℤ) : (⟨false, 4, k⟩ : Decimal).value ≤ (⟨false, 6, k⟩ : Decimal).value := by
    have unit := ten_zpow_pos k
    simp only [Decimal.value, Decimal.magnitude, signOf_false]
    push_cast
    linarith
  have lowest : low.number? = some (⟨false, 4, -1000000⟩ : Decimal).value := rfl
  have highest : high.number? = some (⟨false, 6, -1000000⟩ : Decimal).value := rfl
  obtain ⟨sums, -⟩ := arithmetic_monotone one (number 94) (number 95) (number 0) (by norm_num)
  obtain ⟨-, -, -, products, -⟩ :=
    arithmetic_monotone one lowest highest (number 1) (smaller (-1000000))
  exact ⟨kept, carried, sums _ _ kept carried, vanished, least,
    products (by norm_num) _ _ vanished least⟩

end Comptime
