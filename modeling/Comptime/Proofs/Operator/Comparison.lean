import Comptime.Proofs.Exact

/-! Comparison and equality of numbers in normal form are those of the numbers they stand for, so
that together they are a total order, the same for every precision. -/
namespace Comptime

def Holds (p : Precision) (glyph : String) (a b : Value) : Prop :=
  evalBinary p glyph a b = .ok (.bool true)

theorem Agrees.eq_bool {F G : Type} {o : Except F Value} {t : Bool}
    (h : Agrees Represents o (.ok (.bool t) : Except G Ideal)) : o = .ok (.bool t) := by
  cases h with
  | value h =>
    cases h
    rfl

section
variable {p : Precision} {glyph : String} {a b c : Value} {x y z : ℚ}

theorem evalBinary_comparison (p : Precision) (op : ComparisonOp)
    (hop : BinaryOp.ofGlyph? glyph = some (.comparison op)) (ha : Represents a (.number x))
    (hb : Represents b (.number y)) : evalBinary p glyph a b = .ok (.bool (op.compares x y)) := by
  rw [evalBinary, hop]
  exact (evalComparison_agrees op ha hb).eq_bool

theorem evalBinary_equality (p : Precision) (op : EqualityOp)
    (hop : BinaryOp.ofGlyph? glyph = some (.equality op)) (ha : Represents a (.number x))
    (hb : Represents b (.number y)) : evalBinary p glyph a b = .ok (.bool (x = y ↔ op = .eq)) := by
  have agrees := (evalEquality_agrees (p := p) hop ha hb).eq_bool
    (t := decide (Ideal.number x = .number y) == (op == .eq))
  rw [agrees]
  cases op with
  | eq => simp
  | ne => by_cases same : x = y <;> simp [same]

theorem holds_comparison_iff (glyph : String) (op : ComparisonOp)
    (hop : BinaryOp.ofGlyph? glyph = some (.comparison op)) (ha : Represents a (.number x))
    (hb : Represents b (.number y)) :
    Holds p glyph a b ↔ op.compares x y = true := by
  simp [Holds, evalBinary_comparison p op hop ha hb]

theorem holds_equality_iff (glyph : String) (op : EqualityOp)
    (hop : BinaryOp.ofGlyph? glyph = some (.equality op)) (ha : Represents a (.number x))
    (hb : Represents b (.number y)) :
    Holds p glyph a b ↔ (x = y ↔ op = .eq) := by
  simp [Holds, evalBinary_equality p op hop ha hb]

theorem holds_eq_iff (ha : Represents a (.number x)) (hb : Represents b (.number y)) :
    Holds p "==" a b ↔ x = y := by
  simpa using holds_equality_iff "==" .eq rfl ha hb

theorem holds_lt_iff (ha : Represents a (.number x)) (hb : Represents b (.number y)) :
    Holds p "<" a b ↔ x < y := by
  simpa [ComparisonOp.compares] using holds_comparison_iff "<" .lt rfl ha hb

theorem holds_le_iff (ha : Represents a (.number x)) (hb : Represents b (.number y)) :
    Holds p "<=" a b ↔ x ≤ y := by
  simpa [ComparisonOp.compares] using holds_comparison_iff "<=" .le rfl ha hb

/-- Numbers in normal form are compared without fail and alike at every precision. Of less, equal
and greater one alone holds, the other operators negate these, and both the order and the equality
are transitive. The equality is that of the numbers, between integers and decimals too. -/
theorem comparisons_order_numbers (ha : Represents a (.number x)) (hb : Represents b (.number y))
    (hc : Represents c (.number z)) :
    (∀ glyph ∈ ["<", "<=", ">", ">=", "==", "!="], ∃ t : Bool, ∀ p,
      evalBinary p glyph a b = .ok (.bool t)) ∧
    ∀ p,
      (Holds p "<" a b ∧ ¬Holds p "==" a b ∧ ¬Holds p ">" a b ∨
        ¬Holds p "<" a b ∧ Holds p "==" a b ∧ ¬Holds p ">" a b ∨
        ¬Holds p "<" a b ∧ ¬Holds p "==" a b ∧ Holds p ">" a b) ∧
      (Holds p "<=" a b ↔ ¬Holds p ">" a b) ∧ (Holds p ">=" a b ↔ ¬Holds p "<" a b) ∧
      (Holds p "!=" a b ↔ ¬Holds p "==" a b) ∧
      (Holds p "<" a b → Holds p "<" b c → Holds p "<" a c) ∧
      Holds p "==" a a ∧ (Holds p "==" a b → Holds p "==" b a) ∧
      (Holds p "==" a b → Holds p "==" b c → Holds p "==" a c) ∧
      (Holds p "==" a b ↔ x = y) ∧ (Holds p "<" a b ↔ x < y) := by
  constructor
  · intro glyph h
    simp only [List.mem_cons, List.not_mem_nil, or_false] at h
    rcases h with rfl | rfl | rfl | rfl | rfl | rfl
    · exact ⟨_, fun p => evalBinary_comparison p .lt rfl ha hb⟩
    · exact ⟨_, fun p => evalBinary_comparison p .le rfl ha hb⟩
    · exact ⟨_, fun p => evalBinary_comparison p .gt rfl ha hb⟩
    · exact ⟨_, fun p => evalBinary_comparison p .ge rfl ha hb⟩
    · exact ⟨_, fun p => evalBinary_equality p .eq rfl ha hb⟩
    · exact ⟨_, fun p => evalBinary_equality p .ne rfl ha hb⟩
  · intro p
    have gt : Holds p ">" a b ↔ y < x := by
      simpa [ComparisonOp.compares] using holds_comparison_iff ">" .gt rfl ha hb
    have le : Holds p "<=" a b ↔ x ≤ y := by
      simpa [ComparisonOp.compares] using holds_comparison_iff "<=" .le rfl ha hb
    have ge : Holds p ">=" a b ↔ y ≤ x := by
      simpa [ComparisonOp.compares] using holds_comparison_iff ">=" .ge rfl ha hb
    have ne : Holds p "!=" a b ↔ x ≠ y := by
      simpa using holds_equality_iff "!=" .ne rfl ha hb
    rw [gt, le, ge, ne, holds_lt_iff ha hb, holds_lt_iff hb hc,
      holds_lt_iff ha hc, holds_eq_iff ha hb,
      holds_eq_iff hb hc, holds_eq_iff ha hc, holds_eq_iff hb ha, holds_eq_iff ha ha]
    refine ⟨?_, not_lt.symm, not_lt.symm, Iff.rfl, lt_trans, rfl, Eq.symm,
      Eq.trans, Iff.rfl, Iff.rfl⟩
    rcases lt_trichotomy x y with less | equal | greater
    · exact .inl ⟨less, less.ne, less.not_gt⟩
    · exact .inr (.inl ⟨equal.not_lt, equal, equal.not_gt⟩)
    · exact .inr (.inr ⟨greater.not_gt, greater.ne', greater⟩)

end

/-- One half with two different exponents, and an integer. -/
theorem comparisons_order_numbers_half :
    let half : Value := .decimal (.finite ⟨false, 5, -1⟩)
    let longHalf : Value := .decimal (.finite ⟨false, 50, -2⟩)
    Represents half (.number (1 / 2)) ∧ Represents longHalf (.number (1 / 2)) ∧
      Represents (.int 1) (.number 1) ∧ Holds .standard "==" half longHalf ∧
      Holds .standard "<" longHalf (.int 1) ∧ ¬Holds .standard "==" longHalf (.int 1) := by
  intro half longHalf
  have fraction (n : ℤ) : (1 / 2 : ℚ) ≠ n := by
    intro h
    have : (1 : ℤ) = 2 * n := by exact_mod_cast (by linarith : (1 : ℚ) = 2 * n)
    omega
  have value : (⟨false, 5, -1⟩ : Decimal).value = 1 / 2 := by
    norm_num [Decimal.value, Decimal.magnitude]
  have value' : (⟨false, 50, -2⟩ : Decimal).value = 1 / 2 := by
    norm_num [Decimal.value, Decimal.magnitude]
  have ha : Represents half (.number (1 / 2)) := value ▸ .decimal (value ▸ fraction)
  have hb : Represents longHalf (.number (1 / 2)) := value' ▸ .decimal (value' ▸ fraction)
  have hc : Represents (.int 1) (.number 1) := by exact_mod_cast Represents.int 1
  obtain ⟨-, order⟩ := comparisons_order_numbers ha hb hc
  obtain ⟨-, order'⟩ := comparisons_order_numbers hb hc ha
  obtain ⟨-, -, -, -, -, -, -, -, equal, -⟩ := order .standard
  obtain ⟨-, -, -, -, -, -, -, -, equal', less⟩ := order' .standard
  exact ⟨ha, hb, hc, equal.mpr rfl, less.mpr (by norm_num), equal'.not.mpr (by norm_num)⟩

end Comptime
