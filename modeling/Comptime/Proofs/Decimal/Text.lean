import Comptime.Decimal.Text
import Comptime.Proofs.Literal.Numeral

/-! The text of a decimal reads back as that very decimal: its sign, its coefficient and its
exponent are all recovered, in positional notation as in scientific. -/
namespace Comptime

abbrev digitChars (ds : List Nat) : List Char := ds.map digitChar

theorem positional_zeros (k : Nat) : positional 10 (List.replicate k 0) = 0 := by
  induction k with
  | zero => rfl
  | succ k ih =>
    rw [List.replicate_succ', positional_append, ih]
    rfl

theorem digitBlock_eq (k n : Nat) :
    ∃ ds, digitBlock k n = digitChars ds ∧ ds.length = 2 ^ k ∧ (∀ d ∈ ds, d < 10) ∧
      positional 10 ds = n % 10 ^ 2 ^ k := by
  induction k generalizing n with
  | zero =>
    have low : n % 10 < 10 := Nat.mod_lt n (by decide)
    exact ⟨[n % 10], rfl, rfl, by simpa using low, by simp [positional_eq]⟩
  | succ k ih =>
    obtain ⟨high, hh, lengthh, digitsh, valueh⟩ := ih (n / 10 ^ 2 ^ k)
    obtain ⟨low, hl, lengthl, digitsl, valuel⟩ := ih (n % 10 ^ 2 ^ k)
    have square : 10 ^ 2 ^ (k + 1) = 10 ^ 2 ^ k * 10 ^ 2 ^ k := by rw [← pow_add]; congr 1; ring
    refine ⟨high ++ low, by simp [digitBlock, hh, hl], by simp [lengthh, lengthl]; ring, ?_, ?_⟩
    · intro d hd
      rcases List.mem_append.mp hd with hd | hd
      · exact digitsh d hd
      · exact digitsl d hd
    · rw [positional_append, valueh, valuel, lengthl, square, Nat.mod_mod, Nat.mod_mul]
      ring

theorem numeral_eq (n : Nat) :
    ∃ ds, numeral n = digitChars ds ∧ ds.length = digitCount n ∧ (∀ d ∈ ds, d < 10) ∧
      positional 10 ds = n := by
  obtain ⟨ds, hds, length, digits, value⟩ := digitBlock_eq (Nat.log2 (digitCount n) + 1) n
  have short : digitCount n ≤ 2 ^ (Nat.log2 (digitCount n) + 1) := Nat.lt_log2_self.le
  have below : n < 10 ^ 2 ^ (Nat.log2 (digitCount n) + 1) :=
    (lt_pow_digitCount n).trans_le (Nat.pow_le_pow_right (by decide) short)
  generalize hw : 2 ^ (Nat.log2 (digitCount n) + 1) = width at length value short below
  have count : (ds.drop (width - digitCount n)).length = digitCount n := by
    rw [List.length_drop]; omega
  refine ⟨ds.drop (width - digitCount n), ?_, count,
    fun d hd => digits d (List.mem_of_mem_drop hd), ?_⟩
  · rw [numeral, hds, Nat.pow_eq, hw, digitChars, digitChars, List.map_drop]
  · -- What is dropped are zeros, or the number would have more digits.
    rw [Nat.mod_eq_of_lt below,
      ← List.take_append_drop (width - digitCount n) ds, positional_append,
      count] at value
    have high := lt_pow_digitCount n
    have none : positional 10 (ds.take (width - digitCount n)) = 0 := by
      by_contra some
      have := Nat.mul_le_mul_right (10 ^ digitCount n) (Nat.pos_of_ne_zero some)
      omega
    rw [none] at value
    omega

/-! Reading digits. -/

namespace Literal

theorem decimalDigit?_digitChar : ∀ d < 10, Text.decimalDigit? (digitChar d) = some d := by decide

theorem digits_digitChars {ds : List Nat} (digits : ∀ d ∈ ds, d < 10) :
    Digits Text.decimalDigit? (digitChars ds) ds := by
  induction ds with
  | nil => exact .nil
  | cons d ds ih =>
    exact .cons (decimalDigit?_digitChar d (digits d (.head _))) (ih
      fun e he => digits e (.tail _ he))

theorem onlyDigits?_numeral (n : Nat) : onlyDigits? Text.decimalDigit? 10 (numeral n) = some n := by
  obtain ⟨ds, hds, length, digits, value⟩ := numeral_eq n
  have nonempty : ds ≠ [] := List.ne_nil_of_length_pos (length ▸ digitCount_pos n)
  exact onlyDigits?_eq_some_iff.mpr ⟨ds, hds ▸ digits_digitChars digits, nonempty, value⟩

theorem exponent?_signed (a : ℤ) :
    exponent? ('E' :: (if a < 0 then '-' else '+') :: numeral a.natAbs) = some a := by
  have digits := onlyDigits?_numeral a.natAbs
  by_cases h : a < 0
  · simp [exponent?, h, takeSign, digits, abs_of_neg]
  · simp [exponent?, h, takeSign, digits, abs_of_nonneg (not_lt.mp h)]

end Literal

namespace Decimal

def fractionText : List Nat → List Char
  | [] => []
  | d :: ds => '.' :: digitChars (d :: ds)

theorem pointed_eq {ds : List Nat} (nonempty : ds ≠ []) (digits : ∀ d ∈ ds, d < 10) (places : Nat) :
    ∃ whole fraction, pointed (digitChars ds) places = digitChars whole ++ fractionText fraction ∧
      whole ≠ [] ∧ fraction.length = places ∧ (∀ d ∈ whole ++ fraction, d < 10) ∧
      positional 10 (whole ++ fraction) = positional 10 ds := by
  by_cases h : places = 0
  · subst h
    exact ⟨ds, [], by simp [pointed, fractionText], nonempty, rfl, by simpa using digits, by simp⟩
  · have pos := List.length_pos_of_ne_nil nonempty
    let padded := List.replicate (places + 1 - ds.length) 0 ++ ds
    have length : padded.length = max (places + 1) ds.length := by simp [padded]; omega
    have chars : List.replicate (places + 1 - ds.length) '0' ++ digitChars ds =
      digitChars padded := by
      simp [padded, digitChars, digitChar]
    have fraction : (padded.drop (padded.length - places)).length = places := by
      rw [List.length_drop]; omega
    refine ⟨padded.take (padded.length - places),
      padded.drop (padded.length - places), ?_, ?_, fraction,
      ?_, ?_⟩
    · obtain ⟨d, rest, hd⟩ := List.exists_cons_of_length_pos (fraction ▸ Nat.pos_of_ne_zero h)
      simp only [pointed, if_neg h, List.length_map, chars, ← List.map_take,
        ← List.map_drop, hd, fractionText]
    · exact List.ne_nil_of_length_pos (by rw [List.length_take]; omega)
    · rw [List.take_append_drop]
      intro d hd
      rcases List.mem_append.mp hd with hd | hd
      · rw [List.eq_of_mem_replicate hd]; decide
      · exact digits d hd
    · rw [List.take_append_drop, positional_append, positional_zeros]
      simp

theorem mantissa_pointed {ds : List Nat} (nonempty : ds ≠ []) (digits : ∀ d ∈ ds, d < 10)
    (places : Nat) :
    ∃ whole fraction, Literal.Mantissa (pointed (digitChars ds) places) whole fraction ∧
    whole ++ fraction ≠ [] ∧
      fraction.length = places ∧ positional 10 (whole ++ fraction) = positional 10 ds := by
  obtain ⟨whole, fraction, text, some, length, digits, value⟩ := pointed_eq nonempty digits places
  have front := Literal.digits_digitChars fun d hd => digits d (List.mem_append_left _ hd)
  have behind := Literal.digits_digitChars fun d hd => digits d (List.mem_append_right _ hd)
  refine ⟨whole, fraction, ?_, by simp [some], length, value⟩
  rw [text]
  cases fraction with
  | nil => simpa [fractionText] using Literal.Mantissa.whole front
  | cons d fraction => exact .pointed front behind

def numericChars : List Char :=
    ['0', '1', '2', '3', '4', '5', '6', '7', '8', '9', '.', 'E', '+', '-']

def isNumeric (c : Char) : Bool := numericChars.contains c

theorem isNumeric_digitChar : ∀ d < 10, isNumeric (digitChar d) = true := by decide

theorem magnitudeText_eq (d : Decimal) :
    ∃ ds places tail, d.magnitudeText = pointed (digitChars ds) places ++ tail ∧ ds ≠ [] ∧
      (∀ k ∈ ds, k < 10) ∧ positional 10 ds = d.coeff ∧
      Literal.Exponent tail (d.exp + (places : ℤ)) := by
  obtain ⟨ds, hds, length, digits, value⟩ := numeral_eq d.coeff
  have pos := digitCount_pos d.coeff
  have nonempty : ds ≠ [] := List.ne_nil_of_length_pos (length ▸ pos)
  unfold magnitudeText
  simp only [hds]
  split_ifs with h
  · refine ⟨ds, (-d.exp).toNat, [], by simp, nonempty, digits, value, ?_⟩
    simp only [Bool.and_eq_true, decide_eq_true_eq] at h
    rw [Int.toNat_of_nonneg (by omega), add_neg_cancel]
    exact .none
  · refine ⟨ds, ds.length - 1,
      'E' :: (if d.adjusted < 0 then '-' else '+') :: numeral d.adjusted.natAbs,
      by rw [scientific, List.length_map], nonempty, digits, value, ?_⟩
    have exp : d.exp + ((ds.length - 1 : Nat) : ℤ) = d.adjusted := by
      rw [adjusted, length]
      omega
    rw [exp]
    exact Literal.exponent?_eq_some_iff.mp (Literal.exponent?_signed d.adjusted)

theorem magnitudeText_cons (d : Decimal) :
    ∃ k rest, k < 10 ∧ d.magnitudeText = digitChar k :: rest := by
  obtain ⟨ds, places, tail, text, nonempty, digits, -, -⟩ := d.magnitudeText_eq
  obtain ⟨whole, fraction, points, some, -, digits, -⟩ := pointed_eq nonempty digits places
  obtain ⟨k, whole, rfl⟩ := List.exists_cons_of_ne_nil some
  exact ⟨k, digitChars whole ++ fractionText fraction ++ tail, digits k (by simp),
    by simp [text, points]⟩

theorem text_toList (d : Decimal) :
    d.text.toList = if d.neg then '-' :: d.magnitudeText else d.magnitudeText := by
  rw [text, String.toList_ofList]

/-- The text of a decimal is a numeral of that very decimal. -/
theorem numeral_text (d : Decimal) : Literal.Numeral d.text.toList d := by
  obtain ⟨ds, places, tail, text, nonempty, digits, value, exponent⟩ := d.magnitudeText_eq
  obtain ⟨whole, fraction, mantissa, some, length, same⟩ := mantissa_pointed nonempty digits places
  have numeral {s : List Char} {neg : Bool} (sign : Literal.Sign s neg) :
      Literal.Numeral (s ++ d.magnitudeText) ⟨neg, d.coeff, d.exp⟩ := by
    have := Literal.Numeral.mk sign mantissa some exponent
    rwa [← positional_eq, same, value, length, add_sub_cancel_right, ← text] at this
  rw [text_toList]
  obtain ⟨neg, coeff, exp⟩ := d
  cases neg with
  | true => exact numeral .minus
  | false => exact numeral .none

theorem filter_text (d : Decimal) : d.text.toList.filter (· ≠ '_') = d.text.toList := by
  refine List.filter_eq_self.mpr fun c hc => decide_eq_true ?_
  rintro rfl
  exact d.numeral_text.not_mem (by decide) (by decide) hc

end Decimal

theorem Literal.readNumber?_text (d : Decimal) :
    readNumber? d.text.toList = if d.isRepresentable then some d else none :=
  readNumber?_of_numeral d.numeral_text

theorem integerText_eq (n : ℤ) : integerText n = (Decimal.ofInt n).text := by
  have adjusted : -6 ≤ (Decimal.ofInt n).adjusted := by
    have := digitCount_pos n.natAbs
    simp only [Decimal.adjusted, Decimal.ofInt]
    omega
  have magnitude : (Decimal.ofInt n).magnitudeText = numeral n.natAbs := by
    have positional : ((Decimal.ofInt n).exp ≤ 0 && -6 ≤ (Decimal.ofInt n).adjusted) = true := by
      simp only [adjusted, decide_true, Bool.and_true]
      rfl
    rw [Decimal.magnitudeText, if_pos positional]
    rfl
  rw [integerText, Decimal.text, magnitude]
  simp [Decimal.ofInt]

end Comptime
