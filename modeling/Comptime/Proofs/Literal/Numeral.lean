import Comptime.Proofs.Literal.Digits

/-! Numerals of decimals: digits with a point and an exponent. A text is read as a decimal if and
only if it is a numeral of that very decimal between blanks. -/
namespace Comptime.Literal

/-- Digits with a point before, between or behind them, or with none. The values are those of the
digits in front of the point and of those behind it. -/
inductive Mantissa : List Char → List Nat → List Nat → Prop where
  | whole {cs : List Char} {ws : List Nat} (digits : Digits Text.decimalDigit? cs ws) :
      Mantissa cs ws []
  | pointed {as bs : List Char} {ws fs : List Nat} (whole : Digits Text.decimalDigit? as ws)
      (fraction : Digits Text.decimalDigit? bs fs) : Mantissa (as ++ '.' :: bs) ws fs

/-- The exponent behind a letter, or zero where there is none. -/
inductive Exponent : List Char → ℤ → Prop where
  | none : Exponent [] 0
  | given {c : Char} {s cs : List Char} {neg : Bool} {ds : List Nat} (letter : c = 'e' ∨ c = 'E')
      (sign : Sign s neg) (digits : Digits Text.decimalDigit? cs ds) (nonempty : ds ≠ []) :
      Exponent (c :: (s ++ cs)) (signed neg (Nat.ofDigits 10 ds.reverse))

/-- The numerals of decimals: a sign, digits with a point, one at least, and an exponent, which
counts from the point. -/
inductive Numeral : List Char → Decimal → Prop where
  | mk {s m e : List Char} {neg : Bool} {ws fs : List Nat} {k : ℤ} (sign : Sign s neg)
      (mantissa : Mantissa m ws fs) (nonempty : ws ++ fs ≠ []) (exponent : Exponent e k) :
      Numeral (s ++ (m ++ e)) ⟨neg, Nat.ofDigits 10 (ws ++ fs).reverse, k - fs.length⟩

variable {cs m e : List Char} {ws fs : List Nat} {k : ℤ}

/-! What numerals are made of. -/

theorem Mantissa.nonempty (h : Mantissa m ws fs) (some : ws ++ fs ≠ []) : m ≠ [] := by
  cases h with
  | whole digits => exact digits.nonempty (by simpa using some)
  | pointed => simp

theorem Mantissa.mem (h : Mantissa m ws fs) {c : Char} (hc : c ∈ m) :
    c = '.' ∨ ∃ d, Text.decimalDigit? c = some d := by
  cases h with
  | whole digits => exact .inr (digits.exists_of_mem hc)
  | pointed whole fraction =>
    rw [List.mem_append, List.mem_cons] at hc
    rcases hc with hc | rfl | hc
    · exact .inr (whole.exists_of_mem hc)
    · exact .inl rfl
    · exact .inr (fraction.exists_of_mem hc)

theorem Exponent.mem (h : Exponent e k) {c : Char} (hc : c ∈ e) :
    (c = 'e' ∨ c = 'E') ∨ (c = '+' ∨ c = '-') ∨ ∃ d, Text.decimalDigit? c = some d := by
  cases h with
  | none => cases hc
  | given letter sign digits =>
    rw [List.mem_cons, List.mem_append] at hc
    rcases hc with rfl | hc | hc
    · exact .inl letter
    · exact .inr (.inl (sign.mem c hc))
    · exact .inr (.inr (digits.exists_of_mem hc))

theorem Exponent.head (h : Exponent e k) {c : Char} (hc : c ∈ e.head?) : c = 'e' ∨ c = 'E' := by
  cases h with
  | none => cases hc
  | given letter => rwa [← Option.some.inj hc]

theorem Numeral.mem {d : Decimal} (h : Numeral cs d) {c : Char} (hc : c ∈ cs) :
    c ∈ ['+', '-', '.', 'e', 'E'] ∨ ∃ d, Text.decimalDigit? c = some d := by
  cases h with
  | mk sign mantissa nonempty exponent =>
    rw [List.mem_append, List.mem_append] at hc
    rcases hc with hc | hc | hc
    · rcases sign.mem c hc with rfl | rfl <;> simp
    · rcases mantissa.mem hc with rfl | digit
      · simp
      · exact .inr digit
    · rcases exponent.mem hc with (rfl | rfl) | (rfl | rfl) | digit
      · simp
      · simp
      · simp
      · simp
      · exact .inr digit

theorem Numeral.not_mem {d : Decimal} (h : Numeral cs d) {c : Char}
    (other : c ∉ ['+', '-', '.', 'e', 'E']) (none : Text.decimalDigit? c = none) : c ∉ cs := by
  intro hc
  rcases h.mem hc with mark | ⟨d, hd⟩
  · exact other mark
  · exact ne_of_digit hd none rfl

theorem Numeral.solid {d : Decimal} (h : Numeral cs d) :
    cs ≠ [] ∧ ∀ c ∈ cs, Text.isBlank c = false := by
  constructor
  · cases h with
    | mk sign mantissa nonempty exponent => simp [mantissa.nonempty nonempty]
  · intro c hc
    rcases h.mem hc with mark | ⟨d, hd⟩
    · simp only [List.mem_cons, List.not_mem_nil, or_false] at mark
      rcases mark with rfl | rfl | rfl | rfl | rfl <;> decide
    · exact Text.isBlank_of_decimalDigit? hd

/-! Numerals are what is read. -/

theorem exponent?_cons {c : Char} (letter : c = 'e' ∨ c = 'E') (rest : List Char) :
    exponent? (c :: rest) =
      (onlyDigits? Text.decimalDigit? 10 (takeSign rest).2).map (signed (takeSign rest).1) := by
  have mark : (decide (c = 'e') || decide (c = 'E')) = true := by simpa using letter
  simp only [exponent?, mark, if_true]
  cases onlyDigits? Text.decimalDigit? 10 (takeSign rest).2 <;> rfl

theorem exponent?_eq_some_iff : exponent? e = some k ↔ Exponent e k := by
  constructor
  · intro h
    cases e with
    | nil =>
      cases h
      exact .none
    | cons c rest =>
      by_cases letter : c = 'e' ∨ c = 'E'
      · cases signs : takeSign rest with | mk neg body =>
        rw [exponent?_cons letter, signs] at h
        obtain ⟨n, read, rfl⟩ := Option.map_eq_some_iff.mp h
        obtain ⟨ds, digits, nonempty, rfl⟩ := onlyDigits?_eq_some_iff.mp read
        obtain ⟨s, rfl, sign⟩ := exists_of_takeSign signs
        rw [positional_eq]
        exact .given letter sign digits nonempty
      · simp [exponent?, letter] at h
  · intro h
    cases h with
    | none => rfl
    | @given c s cs neg ds letter sign digits nonempty =>
      have signless : ∀ a ∈ cs.head?, a ≠ '+' ∧ a ≠ '-' := by
        intro a ha
        obtain ⟨d, hd⟩ := digits.exists_of_mem (List.mem_of_mem_head? ha)
        exact ⟨ne_of_digit hd (by decide), ne_of_digit hd (by decide)⟩
      have read := onlyDigits?_eq_some_iff.mpr ⟨ds, digits, nonempty, positional_eq 10 ds⟩
      rw [exponent?_cons letter, takeSign_append sign signless, read]
      rfl

theorem unsignedDecimal?_append (mantissa : Mantissa m ws fs) (nonempty : ws ++ fs ≠ [])
    (exponent : Exponent e k) :
    unsignedDecimal? (m ++ e) = some (positional 10 (ws ++ fs), k - fs.length) := by
  have stop : ∀ c ∈ e.head?, Text.decimalDigit? c = none := by
    intro c hc
    rcases exponent.head hc with rfl | rfl <;> decide
  have read := exponent?_eq_some_iff.mpr exponent
  cases mantissa with
  | whole digits =>
    have some : ws ≠ [] := by simpa using nonempty
    have point : takeFraction e = ([], e) := by
      cases exponent with
      | none => rfl
      | given letter => rcases letter with rfl | rfl <;> rfl
    simp [unsignedDecimal?, takeDigits_append digits stop, point, read, some]
  | @pointed as bs ws fs whole fraction =>
    have point : ∀ c ∈ ('.' :: (bs ++ e)).head?, Text.decimalDigit? c = none := by
      simpa using (by decide : Text.decimalDigit? '.' = none)
    simpa [unsignedDecimal?, takeDigits_append whole point, takeFraction,
      takeDigits_append fraction stop, read]
      using nonempty

theorem exists_of_unsignedDecimal? {c : Nat} {x : ℤ} (h : unsignedDecimal? cs = some (c, x)) :
    ∃ m e ws fs k, cs = m ++ e ∧ Mantissa m ws fs ∧ ws ++ fs ≠ [] ∧ Exponent e k ∧
      c = positional 10 (ws ++ fs) ∧ x = k - fs.length := by
  unfold unsignedDecimal? at h
  cases first : takeDigits Text.decimalDigit? cs with | mk ws rest =>
  cases second : takeFraction rest with | mk fs tail =>
  obtain ⟨as, text, whole⟩ := exists_of_takeDigits first
  have mantissa : ∃ m, rest = m ++ tail ∧ Mantissa (as ++ m) ws fs := by
    unfold takeFraction at second
    split at second
    · obtain ⟨bs, text, fraction⟩ := exists_of_takeDigits second
      exact ⟨'.' :: bs, by simpa using text, .pointed whole fraction⟩
    · cases second
      exact ⟨[], rfl, by simpa using .whole whole⟩
  obtain ⟨m, behind, mantissa⟩ := mantissa
  simp only [first, second] at h
  split_ifs at h with empty
  obtain ⟨k, exponent, same⟩ := Option.map_eq_some_iff.mp h
  cases same
  refine ⟨as ++ m, tail, ws, fs, k, ?_, mantissa, ?_, exponent?_eq_some_iff.mp exponent, rfl, rfl⟩
  · rw [List.append_assoc, ← behind, text]
  · simpa using empty

theorem Numeral.parts {d : Decimal} (h : Numeral cs d) :
    (takeSign cs).1 = d.neg ∧ unsignedDecimal? (takeSign cs).2 = some (d.coeff, d.exp) := by
  cases h with
  | @mk s m e neg ws fs k sign mantissa nonempty exponent =>
    have signless : ∀ c ∈ (m ++ e).head?, c ≠ '+' ∧ c ≠ '-' := by
      obtain ⟨c, rest, rfl⟩ := List.exists_cons_of_ne_nil (mantissa.nonempty nonempty)
      rintro a ⟨rfl⟩
      rcases mantissa.mem (.head _) with rfl | ⟨d, hd⟩
      · decide
      · exact ⟨ne_of_digit hd (by decide), ne_of_digit hd (by decide)⟩
    simp only [takeSign_append sign signless,
      unsignedDecimal?_append mantissa nonempty exponent, positional_eq,
      and_self]

theorem Numeral.unique {d d' : Decimal} (h : Numeral cs d) (h' : Numeral cs d') : d = d' := by
  have parts := h.parts
  rw [h'.parts.1, h'.parts.2] at parts
  cases d
  cases d'
  simp_all

/-- A text without underscores is read if and only if it is a numeral between blanks, of a decimal
that the type holds. -/
theorem readDecimal?_eq_some_iff {d : Decimal} (plain : '_' ∉ cs) :
    readDecimal? cs = some d ↔ Text.Padded Text.isBlank (Numeral · d) cs ∧ d.isRepresentable := by
  rw [Text.padded_iff fun core h => h.solid]
  have filter : (Text.trimWhile Text.isBlank cs).filter (· ≠ '_') =
    Text.trimWhile Text.isBlank cs := by
    obtain ⟨left, right, text, -, -⟩ := Text.exists_trimWhile Text.isBlank cs
    refine List.filter_eq_self.mpr fun c hc => decide_eq_true ?_
    rintro rfl
    exact plain (text ▸ by simp [hc])
  rw [readDecimal?, filter]
  generalize Text.trimWhile Text.isBlank cs = core
  constructor
  · intro h
    cases signs : takeSign core with | mk neg rest =>
    simp only [signs] at h
    split at h
    · cases h
    · rename_i c x read
      split_ifs at h with held
      cases h
      obtain ⟨s, rfl, sign⟩ := exists_of_takeSign signs
      obtain ⟨m, e, ws, fs, k, rfl, mantissa, nonempty, exponent, rfl, rfl⟩ :=
        exists_of_unsignedDecimal? read
      rw [positional_eq] at held ⊢
      exact ⟨.mk sign mantissa nonempty exponent, held⟩
  · rintro ⟨h, held⟩
    simp only [h.parts, if_pos held]

def IsHexadecimal (cs : List Char) : Prop := ['0', 'x'] <+: cs ∨ ['0', 'X'] <+: cs

instance (cs : List Char) : Decidable (IsHexadecimal cs) :=
  inferInstanceAs (Decidable (['0', 'x'] <+: cs ∨ ['0', 'X'] <+: cs))

theorem readNumber?_of_not_isHexadecimal (h : ¬IsHexadecimal cs) :
    readNumber? cs = readDecimal? cs := by
  unfold readNumber?
  split
  · exact absurd (.inl ⟨_, rfl⟩) h
  · exact absurd (.inr ⟨_, rfl⟩) h
  · rfl

theorem readNumber?_of_numeral {d : Decimal} (h : Numeral cs d) :
    readNumber? cs = if d.isRepresentable then some d else none := by
  have decimal : ¬IsHexadecimal cs := by
    rintro (hex | hex)
    · exact h.not_mem (by decide) (by decide) (hex.subset (List.mem_cons_of_mem _ (.head _)))
    · exact h.not_mem (by decide) (by decide) (hex.subset (List.mem_cons_of_mem _ (.head _)))
  have plain : '_' ∉ cs := h.not_mem (by decide) (by decide)
  have reads (d' : Decimal) : readNumber? cs = some d' ↔ Numeral cs d' ∧ d'.isRepresentable := by
    have trimmed : Text.trimWhile Text.isBlank cs = cs := by
      have trimmed :=
        Text.trimWhile_append (List.forall_mem_nil _) (List.forall_mem_nil _) h.solid.2 h.solid.1
      simpa using trimmed
    rw [readNumber?_of_not_isHexadecimal decimal, readDecimal?_eq_some_iff plain,
      Text.padded_iff fun core h => h.solid, trimmed]
  split_ifs with held
  · exact (reads d).mpr ⟨h, held⟩
  · refine Option.eq_none_iff_forall_ne_some.mpr fun d' read => held ?_
    obtain ⟨numeral, held'⟩ := (reads d').mp read
    exact h.unique numeral ▸ held'

end Comptime.Literal
