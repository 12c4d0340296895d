import Comptime.Proofs.Exact
import Comptime.Proofs.Literal.Numeral

/-! Decimal number literals. Underscores aside, a text is accepted if and only if it is a decimal
numeral between blanks, of a number that the type of decimals holds, and it denotes the number that
is written, to the last digit. -/
namespace Comptime

namespace Literal

/-- A text is refused as a number, whatever integers the host writes, with no node to blame yet. -/
def IsMalformed (p : Precision) (text : String) : Prop :=
  ∀ lim, (eval p .number text none).mapError (Failure.ofStop lim) = .error (.error
    { kind := .evaluation, message := "Malformed number " ++
      Text.quoted (withoutSeparators text), blame := .missing })

theorem not_mem_withoutSeparators (text : String) : '_' ∉ (withoutSeparators text).toList := by
  simp [withoutSeparators]

theorem isMalformed_of_unread (p : Precision) {text : String}
    (h : readNumber? (withoutSeparators text).toList = none) : IsMalformed p text := by
  intro lim
  rw [eval, evalNumber, parseNumber, h]
  rfl

theorem eval_of_readNumber? (p : Precision) {text : String} {d : Decimal}
    (h : readNumber? (withoutSeparators text).toList = some d) :
    eval p .number text none = .ok (Value.demote d) := by
  rw [eval, evalNumber, parseNumber, h]
  rfl

theorem padded_unique {cs : List Char} {d d' : Decimal}
    (h : Text.Padded Text.isBlank (Numeral · d) cs)
    (h' : Text.Padded Text.isBlank (Numeral · d') cs) : d = d' := by
  rw [Text.padded_iff fun core h => h.solid] at h h'
  exact h.unique h'

end Literal

/-- A number literal without the prefix `0x` has a value if and only if its text, underscores aside,
is a decimal numeral between blanks and the number has neither more digits nor a larger or lower
exponent than the type of decimals allows. It stands for the very number that the numeral denotes,
whatever the precision, and whole numbers are integers. Any other text, that of an infinity
included, is refused. -/
theorem decimalLiteral_exact (p : Precision) (text : String)
    (decimal : ¬Literal.IsHexadecimal (Literal.withoutSeparators text).toList) :
    (∀ d, Text.Padded Text.isBlank (Literal.Numeral · d) (Literal.withoutSeparators text).toList →
      (d.isRepresentable → ∃ v, Literal.eval p .number text none = .ok v ∧
        Represents v (.number d.value)) ∧
      (¬d.isRepresentable → Literal.IsMalformed p text)) ∧
    ((¬∃ d, Text.Padded Text.isBlank (Literal.Numeral · d)
      (Literal.withoutSeparators text).toList) →
      Literal.IsMalformed p text) := by
  have reads (d : Decimal) :=
    Literal.readDecimal?_eq_some_iff (d := d) (Literal.not_mem_withoutSeparators text)
  simp only [← Literal.readNumber?_of_not_isHexadecimal decimal] at reads
  have refused (unread : ∀ d,
    ¬(Text.Padded Text.isBlank (Literal.Numeral · d) (Literal.withoutSeparators text).toList ∧
      d.isRepresentable)) : Literal.IsMalformed p text :=
    Literal.isMalformed_of_unread p (Option.eq_none_iff_forall_ne_some.mpr
      fun d read => unread d ((reads d).mp read))
  refine ⟨fun d numeral => ⟨fun held => ?_, fun large => refused ?_⟩, fun none => refused ?_⟩
  · exact ⟨_, Literal.eval_of_readNumber? p ((reads d).mpr ⟨numeral, held⟩), .demote d⟩
  · rintro d' ⟨numeral', held⟩
    exact large (Literal.padded_unique numeral numeral' ▸ held)
  · rintro d ⟨numeral, -⟩
    exact none ⟨d, numeral⟩

/-- A negative fraction with an exponent between blanks, and the name of an infinity. -/
theorem decimalLiteral_exact_fraction :
    ¬Literal.IsHexadecimal (Literal.withoutSeparators " -1_2.50e-1\n").toList ∧
      (∃ v, Literal.eval .standard .number " -1_2.50e-1\n" none = .ok v ∧
        Represents v (.number (-5 / 4))) ∧
      ¬Literal.IsHexadecimal (Literal.withoutSeparators "Infinity").toList ∧
      Literal.IsMalformed .standard "Infinity" := by
  have fraction : ¬Literal.IsHexadecimal (Literal.withoutSeparators " -1_2.50e-1\n").toList := by
    decide
  have infinity : ¬Literal.IsHexadecimal (Literal.withoutSeparators "Infinity").toList := by decide
  have whole : Literal.Digits Text.decimalDigit? ['1', '2'] [1, 2] :=
    .cons (by decide) (.cons (by decide) .nil)
  have digits : Literal.Digits Text.decimalDigit? ['5', '0'] [5, 0] :=
    .cons (by decide) (.cons (by decide) .nil)
  have one : Literal.Digits Text.decimalDigit? ['1'] [1] := .cons (by decide) .nil
  have mantissa : Literal.Mantissa ['1', '2', '.', '5', '0'] [1, 2] [5, 0] :=
    .pointed whole digits
  have exponent : Literal.Exponent ['e', '-', '1'] (Literal.signed true 1) :=
    .given (.inl rfl) .minus one (by simp)
  have numeral : Literal.Numeral ['-', '1', '2', '.', '5', '0', 'e', '-', '1'] ⟨true, 1250, -3⟩ :=
    .mk .minus mantissa (by simp) exponent
  have padded : Text.Padded Text.isBlank (Literal.Numeral · ⟨true, 1250, -3⟩)
      (Literal.withoutSeparators " -1_2.50e-1\n").toList :=
    ⟨[' '], _, ['\n'], by decide, List.forall_mem_singleton.mpr (by decide),
      List.forall_mem_singleton.mpr (by decide), numeral⟩
  have none : ¬∃ d,
    Text.Padded Text.isBlank (Literal.Numeral · d)
      (Literal.withoutSeparators "Infinity").toList := by
    rintro ⟨d, h⟩
    rw [Text.padded_iff fun core h => h.solid] at h
    have unread : Literal.unsignedDecimal? (Literal.takeSign
      (Text.trimWhile Text.isBlank (Literal.withoutSeparators "Infinity").toList)).2 =
        .none := by rfl
    cases unread.symm.trans h.parts.2
  have value : (⟨true, 1250, -3⟩ : Decimal).value = -5 / 4 := by
    norm_num [Decimal.value, Decimal.magnitude]
  rw [← value]
  exact ⟨fraction, ((decimalLiteral_exact .standard _ fraction).1 _ padded).1 (by decide), infinity,
    (decimalLiteral_exact .standard "Infinity" infinity).2 none⟩

/-- A zero is written with an exponent that no decimal has. -/
theorem decimalLiteral_malformed_zero :
    let text := "0e1000000000000000000"
    let zero : Decimal := ⟨false, 0, 1000000000000000000⟩
    ¬Literal.IsHexadecimal (Literal.withoutSeparators text).toList ∧
      Literal.Numeral (Literal.withoutSeparators text).toList zero ∧ zero.value = 0 ∧
      Literal.IsMalformed .standard text := by
  intro text zero
  have digit : Literal.Digits Text.decimalDigit? ['0'] [0] := .cons (by decide) .nil
  have exponent : Literal.Exponent ('e' :: '1' :: List.replicate 18 '0') 1000000000000000000 :=
    Literal.exponent?_eq_some_iff.mp (by rfl)
  have numeral := Literal.Numeral.mk .none (.whole digit) (by simp) exponent
  have same : (Literal.withoutSeparators text).toList =
    '0' :: 'e' :: '1' :: List.replicate 18 '0' := by decide
  have unread : Literal.readNumber? (Literal.withoutSeparators text).toList = none := by
    decide +kernel
  refine ⟨by decide, ?_, by simp [zero, Decimal.value, Decimal.magnitude],
    Literal.isMalformed_of_unread _ unread⟩
  rw [same]
  simpa using numeral

end Comptime
