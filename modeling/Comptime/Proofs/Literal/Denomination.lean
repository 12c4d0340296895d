import Comptime.Proofs.Escape
import Comptime.Proofs.Exact

/-! Denominated literals. The multiple of a whole number is exact, and that of any other number is
rounded once, so that literals with the same exact multiple have the same value unless one alone is
rounded. -/
namespace Comptime

namespace Literal

variable {p : Precision} {d d' : Decimal} {m m' : Nat} {text name : String} {v w : Value}

theorem scaled_whole (p : Precision) {n : ℤ} (h : d.value = n) (m : Nat) :
    scaled p d m = .ok (.int (n * m)) := by
  have whole := (Decimal.isIntegral_iff d).mpr ⟨n, h⟩
  have same : d.toInt = n := by exact_mod_cast (Decimal.toInt_cast whole).trans h
  rw [scaled, if_pos whole, same]

theorem scaled_fraction (fraction : ∀ n : ℤ, d.value ≠ n) (h : scaled p d m = .ok w) :
    Represents w (.number (p.rounded (d.value * m))) ∧
    leading (p.rounded (d.value * m)) ≤ Precision.maxAdjusted := by
  have broken : ¬d.isIntegral = true := fun whole => by
    obtain ⟨n, hn⟩ := (Decimal.isIntegral_iff d).mp whole
    exact fraction n hn
  have rounds := d.mul_rounds p (.ofInt m)
  rw [Decimal.value_ofInt, Int.cast_natCast] at rounds
  rw [scaled, if_neg broken] at h
  cases product : d.mul p (.ofInt m) with
  | error s => simp [product] at h
  | ok r =>
    rw [product] at rounds h
    cases h
    exact ⟨rounds.1 ▸ .demote r, rounds.2⟩

theorem exists_scaled (small : leading (p.rounded (d.value * m)) ≤ Precision.maxAdjusted) :
    ∃ w, scaled p d m = .ok w := by
  cases outcome : scaled p d m with
  | ok w => exact ⟨w, rfl⟩
  | error s =>
    cases s with
    | escape t =>
      have large := (scaled_eq_escape_iff.mp outcome).2.1
      omega
    | fault f => exact absurd outcome (scaled_ne_fault f)

theorem exists_scaled_of_fits (fits : p.Fits (d.value * m)) :
    ∃ w, scaled p d m = .ok w ∧ Represents w (.number (d.value * m)) := by
  have agrees := scaled_agrees d m fits
  cases outcome : scaled p d m with
  | ok w =>
    rw [outcome] at agrees
    cases agrees with
    | value represents => exact ⟨w, rfl, represents⟩
  | error s =>
    rw [outcome] at agrees
    cases agrees

theorem exists_scaled_of_same (same : d.value * m = d'.value * m')
    (alike : ((∃ n : ℤ, d.value = n) ↔ ∃ n : ℤ, d'.value = n) ∨ p.Fits (d.value * m))
    (h : scaled p d m = .ok w) :
    ∃ w' q, scaled p d' m' = .ok w' ∧ Represents w (.number q) ∧ Represents w' (.number q) := by
  rcases alike with alike | fits
  · by_cases whole : ∃ n : ℤ, d.value = n
    · obtain ⟨n', hn'⟩ := alike.mp whole
      obtain ⟨n, hn⟩ := whole
      rw [hn, hn'] at same
      have product : n * m = n' * m' := by exact_mod_cast same
      cases (scaled_whole p hn m).symm.trans h
      exact ⟨_, _, scaled_whole p hn' m', .int _, product ▸ .int _⟩
    · have whole' := mt alike.mpr whole
      rw [not_exists] at whole whole'
      obtain ⟨represents, small⟩ := scaled_fraction whole h
      obtain ⟨w', h'⟩ := exists_scaled (same ▸ small)
      exact ⟨w', _, h', represents, same ▸ (scaled_fraction whole' h').1⟩
  · obtain ⟨w₁, h₁, represents⟩ := exists_scaled_of_fits fits
    obtain ⟨w', h', represents'⟩ := exists_scaled_of_fits (same ▸ fits)
    cases h₁.symm.trans h
    exact ⟨w', _, h', represents, same ▸ represents'⟩

theorem exists_eval_eq_scaled (accepted : eval p .number text none = .ok v)
    (known : multiplier? name = some m) :
    ∃ d, Represents v (.number d.value) ∧ eval p .number text (some name) = scaled p d m := by
  have named : namedUnit? (some name) = some name := by
    have some : name ≠ "" := by
      rintro rfl
      cases known
    simp [namedUnit?, some]
  unfold eval evalNumber at accepted ⊢
  cases parse : parseNumber (withoutSeparators text) with
  | error f => simp [parse] at accepted
  | ok d =>
    simp only [parse, namedUnit?, Except.ok.injEq] at accepted
    exact ⟨d, accepted ▸ .demote d, by simp [named, known]⟩

end Literal

/-- A number literal with a unit stands for the multiple of the number that its text denotes. Whole
numbers are multiplied exactly, other numbers are rounded once. Nothing is lost where the multiple
fits the precision, so that a unit of multiplier one keeps such numbers, and equal multiples are
equal values. -/
theorem denominatedLiteral_scales (p : Precision) {text name : String} {m : Nat} {v : Value}
    (accepted : Literal.eval p .number text none = .ok v)
    (known : Literal.multiplier? name = some m) :
    ∃ x : ℚ, Represents v (.number x) ∧
      (∀ n : ℤ, x = n → Literal.eval p .number text (some name) = .ok (.int (n * m))) ∧
      ((∀ n : ℤ, x ≠ n) → ∀ w, Literal.eval p .number text (some name) = .ok w →
        Represents w (.number (p.rounded (x * m)))) ∧
      (leading (p.rounded (x * m)) ≤ Precision.maxAdjusted →
        ∃ w, Literal.eval p .number text (some name) = .ok w) ∧
      (p.Fits (x * m) →
        ∃ w, Literal.eval p .number text (some name) = .ok w ∧ Represents w (.number (x * m))) ∧
      (m = 1 → (∃ n : ℤ, x = n) ∨ p.Fits x →
        ∃ w, Literal.eval p .number text (some name) = .ok w ∧ Represents w (.number x)) ∧
      ∀ text' name' m' v' x', Literal.eval p .number text' none = .ok v' →
        Represents v' (.number x') →
        Literal.multiplier? name' = some m' → x * m = x' * m' →
        ((∃ n : ℤ, x = n) ↔ ∃ n : ℤ, x' = n) ∨ p.Fits (x * m) →
        ∀ w, Literal.eval p .number text (some name) = .ok w →
          ∃ w' q, Literal.eval p .number text' (some name') = .ok w' ∧
            Represents w (.number q) ∧ Represents w' (.number q) := by
  obtain ⟨d, represents, eval⟩ := Literal.exists_eval_eq_scaled accepted known
  rw [eval]
  refine ⟨d.value, represents, fun n whole => Literal.scaled_whole p whole m,
    fun fraction w h => (Literal.scaled_fraction fraction h).1, Literal.exists_scaled,
    Literal.exists_scaled_of_fits, ?_, ?_⟩
  · rintro rfl (⟨n, whole⟩ | fits)
    · exact ⟨_, Literal.scaled_whole p whole 1, by simpa [whole] using Represents.int n⟩
    · simpa using Literal.exists_scaled_of_fits (m := 1) (by simpa using fits)
  · intro text' name' m' v' x' accepted' denoted known' same alike w h
    obtain ⟨d', represents', eval'⟩ := Literal.exists_eval_eq_scaled accepted' known'
    obtain rfl : d'.value = x' := by simpa using represents'.unique denoted
    rw [eval']
    exact Literal.exists_scaled_of_same same alike h

/-- One and a half finney, and the same in ether. -/
theorem denominatedLiteral_scales_finney :
    Literal.eval .standard .number "1.5" none = .ok (.decimal (.finite ⟨false, 15, -1⟩)) ∧
      Literal.multiplier? "finney" = some 1000000000000000 ∧
      Literal.eval .standard .number "0.0015" none = .ok (.decimal (.finite ⟨false, 15, -4⟩)) ∧
      Literal.multiplier? "ether" = some 1000000000000000000 ∧
      ∃ w w' q, Literal.eval .standard .number "1.5" (some "finney") = .ok w ∧
        Literal.eval .standard .number "0.0015" (some "ether") = .ok w' ∧
        Represents w (.number q) ∧ Represents w' (.number q) := by
  have finney : Literal.eval .standard .number "1.5" none =
    .ok (.decimal (.finite ⟨false, 15, -1⟩)) := by rfl
  have ether : Literal.eval .standard .number "0.0015" none =
    .ok (.decimal (.finite ⟨false, 15, -4⟩)) := by rfl
  have value : (⟨false, 15, -1⟩ : Decimal).value = 3 / 2 := by
    norm_num [Decimal.value, Decimal.magnitude]
  have value' : (⟨false, 15, -4⟩ : Decimal).value = 3 / 2000 := by
    norm_num [Decimal.value, Decimal.magnitude]
  have broken (n : ℤ) : (3 / 2000 : ℚ) ≠ n := by
    intro h
    have : 2000 * n = 3 := by exact_mod_cast (by linarith : (2000 : ℚ) * n = 3)
    omega
  have known : Literal.multiplier? "finney" = some 1000000000000000 := by decide
  have known' : Literal.multiplier? "ether" = some 1000000000000000000 := by decide
  obtain ⟨x, represents, -, -, -, exact, -, same⟩ :=
    denominatedLiteral_scales .standard finney known
  obtain rfl : x = 3 / 2 := by
    cases represents with
    | decimal => exact value
  have fits : Precision.standard.Fits (3 / 2 * (1000000000000000 : Nat)) := by
    have := Precision.standard.fits_of_digits (c := 15) (k := 14) (by decide) (by decide)
      (by decide) (by decide)
    norm_num at this ⊢
    exact this
  obtain ⟨w, eval, -⟩ := exact fits
  have represents' : Represents (.decimal (.finite ⟨false, 15, -4⟩)) (.number (3 / 2000)) := by
    rw [← value'] at broken ⊢
    exact .decimal broken
  obtain ⟨w', q, eval', hw, hw'⟩ :=
    same _ _ _ _ _ ether represents' known' (by norm_num) (.inr fits) w eval
  exact ⟨finney, known, ether, known', w, w', q, eval, eval', hw, hw'⟩

def Literal.nearlyTwo : String := String.ofList ('1' :: '.' :: List.replicate 100 '9')

/-- A unit of multiplier one changes the fraction: it is rounded to two. -/
theorem eval_nearlyTwo_seconds :
    Literal.multiplier? "seconds" = some 1 ∧
      Literal.eval .standard .number Literal.nearlyTwo none =
        .ok (.decimal (.finite ⟨false, 2 * 10 ^ 100 - 1, -100⟩)) ∧
      (⟨false, 2 * 10 ^ 100 - 1, -100⟩ : Decimal).value < 2 ∧
      Literal.eval .standard .number Literal.nearlyTwo (some "seconds") = .ok (.int 2) := by
  have below : (⟨false, 2 * 10 ^ 100 - 1, -100⟩ : Decimal).value < 2 := by
    norm_num [Decimal.value, Decimal.magnitude]
  exact ⟨by decide, by rfl, below, by rfl⟩

end Comptime
