import Comptime.Proofs.Literal.Decimal

/-! Hexadecimal number literals. Behind their prefix digits are read in base sixteen, but other
texts are accepted as well: digits with a sign, with a second prefix, and with blanks at the ends.
-/
namespace Comptime

theorem Text.isBlank_of_hexDigit? {c : Char} {d : Nat} (h : hexDigit? c = some d) :
    isBlank c = false := by
  have apart : ∀ run ∈ blankRuns, run.2 < 65 ∨ 102 < run.1 := by decide
  have letter (low : 65 ≤ c.toNat) (high : c.toNat ≤ 102) : isBlank c = false := by
    refine List.any_eq_false.mpr fun run hrun => ?_
    have := apart run hrun
    simp only [Bool.and_eq_true, decide_eq_true_eq]
    omega
  unfold hexDigit? at h
  split at h
  · exact isBlank_of_decimalDigit? ‹_›
  · split_ifs at h with small large
    · simp only [Bool.and_eq_true, decide_eq_true_eq, Char.le_def, UInt32.le_iff_toNat_le] at small
      exact letter (le_trans (by decide) small.1) small.2
    · simp only [Bool.and_eq_true, decide_eq_true_eq, Char.le_def, UInt32.le_iff_toNat_le] at large
      exact letter large.1 (large.2.trans (by decide))

namespace Literal

/-- A second prefix, if there is one. Its zero may be that of any script. -/
inductive SecondPrefix : List Char → Prop where
  | none : SecondPrefix []
  | given {z x : Char} (zero : Text.decimalDigit? z = some 0) (letter : x = 'x' ∨ x = 'X') :
      SecondPrefix [z, x]

/-- What is accepted behind the prefix of a hexadecimal number, and the number that it denotes. -/
inductive HexNumeral : List Char → ℤ → Prop where
  | mk {s x cs : List Char} {neg : Bool} {ds : List Nat} (sign : Sign s neg)
      (second : SecondPrefix x) (digits : Digits Text.hexDigit? cs ds) (nonempty : ds ≠ []) :
      HexNumeral (s ++ (x ++ cs)) (signed neg (Nat.ofDigits 16 ds.reverse))

variable {cs x : List Char} {ds : List Nat} {n : ℤ}

theorem SecondPrefix.mem (h : SecondPrefix x) {c : Char} (hc : c ∈ x) :
    (c = 'x' ∨ c = 'X') ∨ ∃ d, Text.hexDigit? c = some d := by
  cases h with
  | none => cases hc
  | given zero letter =>
    rcases List.mem_pair.mp hc with rfl | rfl
    · exact .inr ⟨0, by simp [Text.hexDigit?, zero]⟩
    · exact .inl letter

theorem HexNumeral.solid (h : HexNumeral cs n) : cs ≠ [] ∧ ∀ c ∈ cs, isHexBlank c = false := by
  cases h with
  | mk sign second digits nonempty =>
    refine ⟨by simp [digits.nonempty nonempty], fun c hc => ?_⟩
    rw [List.mem_append, List.mem_append] at hc
    have digit {d : Nat} (hd : Text.hexDigit? c = some d) : isHexBlank c = false := by
      rw [isHexBlank, Text.isBlank_of_hexDigit? hd, Bool.false_and]
    rcases hc with hc | hc | hc
    · rcases sign.mem c hc with rfl | rfl <;> decide
    · rcases second.mem hc with (rfl | rfl) | ⟨d, hd⟩
      · decide
      · decide
      · exact digit hd
    · obtain ⟨d, hd⟩ := digits.exists_of_mem hc
      exact digit hd

theorem moreHexDigits?_eq_some_iff (plain : '_' ∉ cs) :
    moreHexDigits? cs = some ds ↔ Digits Text.hexDigit? cs ds := by
  induction cs generalizing ds with
  | nil => simp [moreHexDigits?, Digits, eq_comm]
  | cons c cs ih =>
    obtain ⟨first, plain⟩ := List.ne_and_not_mem_of_not_mem_cons plain
    cases hc : Text.hexDigit? c with
    | none => simp [moreHexDigits?, hc, first.symm, Digits, List.forall₂_cons_left_iff]
    | some d =>
      simp [moreHexDigits?, hc, first.symm, Digits, List.forall₂_cons_left_iff, ih plain, eq_comm]

theorem hexDigits?_eq_some_iff (plain : '_' ∉ cs) :
    hexDigits? cs = some ds ↔ Digits Text.hexDigit? cs ds ∧ ds ≠ [] := by
  rw [← moreHexDigits?_eq_some_iff plain]
  cases cs with
  | nil => simp [hexDigits?, moreHexDigits?]
  | cons c cs =>
    obtain ⟨first, -⟩ := List.ne_and_not_mem_of_not_mem_cons plain
    have same : hexDigits? (c :: cs) = moreHexDigits? (c :: cs) := by
      simp [hexDigits?, moreHexDigits?, first.symm]
    rw [same]
    refine iff_self_and.mpr fun h => ?_
    cases (moreHexDigits?_eq_some_iff plain).mp h with
    | cons => exact List.cons_ne_nil _ _

theorem dropHexPrefix_append (second : SecondPrefix x) (digits : Digits Text.hexDigit? cs ds)
    (plain : '_' ∉ cs) :
    dropHexPrefix (x ++ cs) = cs := by
  cases second with
  | none =>
    have other {a : Char} (ha : a ∈ cs) : a ≠ 'x' ∧ a ≠ 'X' := by
      obtain ⟨d, hd⟩ := digits.exists_of_mem ha
      exact ⟨ne_of_digit hd (by decide), ne_of_digit hd (by decide)⟩
    rw [List.nil_append]
    unfold dropHexPrefix
    split
    · simp at plain
    · rename_i z a rest _
      have := other (a := a) (by simp)
      simp [this.1, this.2]
    · rfl
  | @given z a zero letter =>
    cases cs with
    | nil => simp [dropHexPrefix, zero, letter]
    | cons c cs =>
      obtain ⟨first, -⟩ := List.ne_and_not_mem_of_not_mem_cons plain
      simp [dropHexPrefix, zero, letter, first.symm]

theorem exists_dropHexPrefix (plain : '_' ∉ cs) :
    ∃ x, cs = x ++ dropHexPrefix cs ∧ SecondPrefix x := by
  unfold dropHexPrefix
  split
  · simp at plain
  · rename_i z a rest _
    by_cases again : Text.decimalDigit? z = some 0 ∧ (a = 'x' ∨ a = 'X')
    · exact ⟨[z, a], by simp [again], .given again.1 again.2⟩
    · exact ⟨[], by simp [again], .none⟩
  · exact ⟨[], rfl, .none⟩

/-- What stands behind the prefix is read if and only if it is accepted between blanks. -/
theorem readHex?_eq_some_iff (plain : '_' ∉ cs) :
    readHex? cs = some n ↔ Text.Padded isHexBlank (HexNumeral · n) cs := by
  rw [Text.padded_iff fun core h => h.solid]
  have plain : '_' ∉ Text.trimWhile isHexBlank cs := by
    obtain ⟨left, right, text, -, -⟩ := Text.exists_trimWhile isHexBlank cs
    exact fun h => plain (text ▸ by simp [h])
  unfold readHex?
  generalize Text.trimWhile isHexBlank cs = core at plain
  constructor
  · intro h
    cases signs : takeSign core with | mk neg rest =>
    obtain ⟨s, rfl, sign⟩ := exists_of_takeSign signs
    have plain : '_' ∉ rest := fun h => plain (List.mem_append_right _ h)
    obtain ⟨x, text, second⟩ := exists_dropHexPrefix plain
    simp only [signs] at h
    obtain ⟨ds, read, rfl⟩ := Option.map_eq_some_iff.mp h
    have plain : '_' ∉ dropHexPrefix rest := fun h => plain (text ▸ List.mem_append_right _ h)
    obtain ⟨digits, nonempty⟩ := (hexDigits?_eq_some_iff plain).mp read
    rw [positional_eq, text]
    exact .mk sign second digits nonempty
  · intro h
    cases h with
    | @mk s x cs neg ds sign second digits nonempty =>
      have signless : ∀ c ∈ (x ++ cs).head?, c ≠ '+' ∧ c ≠ '-' := by
        intro c hc
        have digit {d : Nat} (hd : Text.hexDigit? c = some d) : c ≠ '+' ∧ c ≠ '-' :=
          ⟨ne_of_digit hd (by decide), ne_of_digit hd (by decide)⟩
        rcases List.mem_append.mp (List.mem_of_mem_head? hc) with hc | hc
        · rcases second.mem hc with (rfl | rfl) | ⟨d, hd⟩
          · decide
          · decide
          · exact digit hd
        · obtain ⟨d, hd⟩ := digits.exists_of_mem hc
          exact digit hd
      have plain : '_' ∉ cs := fun h => plain (by simp [h])
      have read := (hexDigits?_eq_some_iff plain).mpr ⟨digits, nonempty⟩
      simp [takeSign_append sign signless, dropHexPrefix_append second digits plain, read,
        signed, positional_eq]

theorem readNumber?_hexadecimal {a : Char} (letter : a = 'x' ∨ a = 'X') :
    readNumber? ('0' :: a :: cs) = (readHex? cs).map .ofInt := by
  rcases letter with rfl | rfl <;> rfl

theorem HexNumeral.padded_digits (digits : Digits Text.hexDigit? cs ds) (nonempty : ds ≠ []) :
    Text.Padded isHexBlank (HexNumeral · (Nat.ofDigits 16 ds.reverse : Nat)) cs :=
  ⟨[], cs, [], by simp, by simp, by simp, .mk .none .none digits nonempty⟩

end Literal

/-- A number literal with the prefix `0x` has the integer for its value that stands behind the
prefix in base sixteen. Digits alone may stand there, but also a sign in front of them, another
prefix between the two, and blanks at the ends. Any other text is refused. -/
theorem hexadecimalLiteral_accepts (p : Precision) (text : String) {a : Char} {rest : List Char}
    (letter : a = 'x' ∨ a = 'X')
    (prefixed : (Literal.withoutSeparators text).toList = '0' :: a :: rest) :
    (∀ ds, Literal.Digits Text.hexDigit? rest ds → ds ≠ [] →
      Literal.eval p .number text none = .ok (.int (Nat.ofDigits 16 ds.reverse : Nat))) ∧
    (∀ n, Text.Padded Literal.isHexBlank (Literal.HexNumeral · n) rest →
      Literal.eval p .number text none = .ok (.int n)) ∧
    ((¬∃ n, Text.Padded Literal.isHexBlank (Literal.HexNumeral · n) rest) →
      Literal.IsMalformed p text) := by
  have plain : '_' ∉ rest := by
    have := Literal.not_mem_withoutSeparators text
    rw [prefixed] at this
    exact fun h => this (by simp [h])
  have reads (n : ℤ) := Literal.readHex?_eq_some_iff (n := n) plain
  have number : Literal.readNumber? (Literal.withoutSeparators text).toList =
    (Literal.readHex? rest).map .ofInt :=
    prefixed ▸ Literal.readNumber?_hexadecimal letter
  have accepted (n : ℤ) (h : Text.Padded Literal.isHexBlank (Literal.HexNumeral · n) rest) :
      Literal.eval p .number text none = .ok (.int n) := by
    rw [(reads n).mpr h] at number
    rw [Literal.eval_of_readNumber? p number,
      (Value.demote_eq_int_iff _ n).mpr (Decimal.value_ofInt n)]
  refine ⟨fun ds digits nonempty => accepted _ (Literal.HexNumeral.padded_digits digits nonempty),
    accepted, fun none => ?_⟩
  have unread : Literal.readHex? rest = .none :=
    Option.eq_none_iff_forall_ne_some.mpr fun n read => none ⟨n, (reads n).mp read⟩
  rw [unread] at number
  exact Literal.isMalformed_of_unread p number

/-- Digits alone with an underscore among them, and digits behind a sign and another prefix. -/
theorem hexadecimalLiteral_accepts_signed :
    (Literal.withoutSeparators "0xf_F").toList = ['0', 'x', 'f', 'F'] ∧
      Literal.eval .standard .number "0xf_F" none = .ok (.int 255) ∧
      (Literal.withoutSeparators "0X -0x1A").toList = ['0', 'X', ' ', '-', '0', 'x', '1', 'A'] ∧
      Literal.eval .standard .number "0X -0x1A" none = .ok (.int (-26)) := by
  have plain : (Literal.withoutSeparators "0xf_F").toList = ['0', 'x', 'f', 'F'] := by decide
  have signed : (Literal.withoutSeparators "0X -0x1A").toList =
    ['0', 'X', ' ', '-', '0', 'x', '1', 'A'] := by decide
  have digits : Literal.Digits Text.hexDigit? ['f', 'F'] [15, 15] :=
    .cons (by decide) (.cons (by decide) .nil)
  have digits' : Literal.Digits Text.hexDigit? ['1', 'A'] [1, 10] :=
    .cons (by decide) (.cons (by decide) .nil)
  have numeral : Literal.HexNumeral ['-', '0', 'x', '1', 'A'] (-26) :=
    .mk .minus (.given (by decide) (.inl rfl)) digits' (by simp)
  have padded : Text.Padded Literal.isHexBlank (Literal.HexNumeral · (-26)) [' ', '-',
    '0', 'x', '1', 'A'] :=
    ⟨[' '], _, [], rfl, List.forall_mem_singleton.mpr (by decide), by simp, numeral⟩
  exact ⟨plain, (hexadecimalLiteral_accepts .standard _ (.inl rfl) plain).1 _ digits (by simp),
    signed,
    (hexadecimalLiteral_accepts .standard _ (.inr rfl) signed).2.1 _ padded⟩

/-- A sign behind the prefix, which is no digit, is not refused. -/
theorem eval_signedHexadecimal :
    (Literal.withoutSeparators "0x-5").toList = ['0', 'x', '-', '5'] ∧
      (¬∃ ds, Literal.Digits Text.hexDigit? ['-', '5'] ds) ∧
      Literal.eval .standard .number "0x-5" none = .ok (.int (-5)) := by
  have unread : ¬∃ ds, Literal.Digits Text.hexDigit? ['-', '5'] ds := by
    rintro ⟨ds, digits⟩
    obtain ⟨d, hd⟩ := digits.exists_of_mem (.head _)
    have sign : Text.hexDigit? '-' = none := by decide
    cases sign.symm.trans hd
  exact ⟨by decide, unread, by rfl⟩

end Comptime
