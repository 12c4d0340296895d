import Comptime.Proofs.Bits
import Comptime.Proofs.Normal
import Comptime.Proofs.Operator.Arithmetic

/-! Where every number that an exact evaluation meets has few enough digits, the evaluation rounds
nothing, so that it has the exact value, and a whole number as an integer. -/
namespace Comptime

/-- A number that a precision has the digits for, its first one within the bounds. -/
def Precision.Fits (p : Precision) (q : ℚ) : Prop :=
  q = 0 ∨ (∃ c k : ℤ, q = c * 10 ^ k ∧ |c| < 10 ^ p.digits) ∧
    minAdjusted ≤ leading q ∧ leading q ≤ maxAdjusted

theorem Precision.fits_of_digits (p : Precision) {c k : ℤ} (hc : c ≠ 0)
    (digits : |c| < 10 ^ p.digits) (low : minAdjusted ≤ k) (high : k + p.digits ≤ maxAdjusted) :
    p.Fits (c * 10 ^ k) := by
  have hq : (c : ℚ) * 10 ^ k ≠ 0 := mul_ne_zero (by exact_mod_cast hc) (ten_zpow_pos k).ne'
  refine .inr ⟨⟨c, k, rfl, digits⟩, low.trans ?_, le_trans (Int.le_of_lt ?_) high⟩
  · rw [le_leading_iff hq]
    exact ten_zpow_le_abs hq rfl
  · have := Precision.leading_lt_of_digits hq rfl digits
    omega

/-- A value stands for a number, a truth value or a text. Whole numbers are integers. -/
inductive Represents : Value → Ideal → Prop where
  | int (n : ℤ) : Represents (.int n) (.number n)
  | decimal {d : Decimal} (fraction : ∀ n : ℤ, d.value ≠ n) :
      Represents (.decimal (.finite d)) (.number d.value)
  | bool (b : Bool) : Represents (.bool b) (.bool b)
  | string (s : String) : Represents (.string s) (.string s)

/-- Two outcomes are values that are related, or failures. -/
inductive Agrees {V W F G : Type} (R : V → W → Prop) : Except F V → Except G W → Prop where
  | value {v : V} {w : W} (h : R v w) : Agrees R (.ok v) (.ok w)
  | failure (f : F) (g : G) : Agrees R (.error f) (.error g)

namespace Agrees

variable {V W F G E : Type} {R : V → W → Prop} {x : Except F V} {y : Except G W}

theorem mapError_left (h : Agrees R x y) (f : F → E) : Agrees R (x.mapError f) y := by
  cases h with
  | value h => exact .value h
  | failure a b => exact .failure (f a) b

theorem mapError_right (h : Agrees R x y) (f : G → E) : Agrees R x (y.mapError f) := by
  cases h with
  | value h => exact .value h
  | failure a b => exact .failure a (f b)

theorem refl {R : V → V → Prop} (same : ∀ v, R v v) (x : Except F V) : Agrees R x x := by
  cases x with
  | ok v => exact .value (same v)
  | error f => exact .failure f f

theorem map {V' W' : Type} {S : V' → W' → Prop} {f : V → V'} {g : W → W'} (h : Agrees R x y)
    (kept : ∀ v w, R v w → S (f v) (g w)) : Agrees S (x.map f) (y.map g) := by
  cases h with
  | value h => exact .value (kept _ _ h)
  | failure a b => exact .failure a b

end Agrees

theorem Rounds.exists_of_rounded {p : Precision} {q z : ℚ} {r : Except Signal Decimal}
    (h : Rounds p z r) (same : p.rounded z = q) (high : leading q ≤ Precision.maxAdjusted) :
    ∃ d, r = .ok d ∧ d.value = q := by
  cases r with
  | ok d => exact ⟨d, rfl, h.1.trans same⟩
  | error s => exact absurd h.2 (by rw [same]; exact not_lt.mpr high)

theorem Rounds.exact {p p' : Precision} {q : ℚ} {r : Except Signal Decimal} (h : Rounds p' q r)
    (fits : p.Fits q) (digits : p.digits ≤ p'.digits) : ∃ d, r = .ok d ∧ d.value = q := by
  have kept : p'.rounded q = q ∧ leading q ≤ Precision.maxAdjusted := by
    rcases fits with rfl | ⟨⟨c, k, hq, hc⟩, low, high⟩
    · exact ⟨p'.rounded_zero, by simp [leading, Precision.maxAdjusted]⟩
    · have wide : |c| < 10 ^ p'.digits := hc.trans_le (pow_le_pow_right₀ (by norm_num) digits)
      exact ⟨p'.rounded_of_digits hq wide low, high⟩
  exact h.exists_of_rounded kept.1 kept.2

theorem RoundsNear.exact {p : Precision} {q : ℚ} {r : Except Signal Decimal} (h : RoundsNear p q r)
    (fits : p.Fits q) : ∃ d, r = .ok d ∧ d.value = q := by
  obtain ⟨z, near, rounds⟩ := h
  have kept : p.rounded z = q ∧ leading q ≤ Precision.maxAdjusted := by
    rcases fits with rfl | ⟨⟨c, k, hq, hc⟩, low, high⟩
    · exact ⟨p.rounded_of_near (c := 0) (k := 0) (by simp) (by simp) (.inl rfl) near,
        by simp [leading, Precision.maxAdjusted]⟩
    · exact ⟨p.rounded_of_near hq hc (.inr low) near, high⟩
  exact rounds.exists_of_rounded kept.1 kept.2

namespace Represents

theorem demote (d : Decimal) : Represents (Value.demote d) (.number d.value) := by
  rcases Value.demote_cases d with ⟨n, hn, h⟩ | ⟨fraction, h⟩
  · rw [h, hn]
    exact .int n
  · rw [h]
    exact .decimal fraction

theorem number {v : Value} {q : ℚ} (h : Represents v (.number q)) :
    ∃ d, v.promote? = some (.finite d) ∧ d.value = q := by
  cases h with
  | int n => exact ⟨.ofInt n, rfl, Decimal.value_ofInt n⟩
  | decimal => exact ⟨_, rfl, rfl⟩

theorem eq_int_iff {v : Value} {q : ℚ} (h : Represents v (.number q)) (n : ℤ) :
    v = .int n ↔ q = n := by
  cases h with
  | int m => simp
  | decimal fraction => simpa using fraction n

theorem unique {v : Value} {w w' : Ideal} (h : Represents v w) (h' : Represents v w') : w = w' := by
  cases h <;> cases h' <;> rfl

theorem same?_eq {v v' : Value} {w w' : Ideal} (h : Represents v w) (h' : Represents v' w') :
    v.same? v' = .ok (decide (w = w')) := by
  cases h with
  | int n =>
    cases h' with
    | int m => simp [Value.same?, Bool.beq_eq_decide_eq]
    | decimal fraction => simpa [Value.same?] using (fraction n).symm
    | bool | string => simp [Value.same?]
  | decimal fraction =>
    cases h' with
    | int m => simpa [Value.same?] using fraction m
    | decimal =>
      simp [Value.same?, Extended.signals, Extended.sameValue, Extended.compare?,
        ← Decimal.sameValue_iff,
        Decimal.sameValue]
      rfl
    | bool | string => simp [Value.same?]
  | bool | string => cases h' <;> simp [Value.same?, Bool.beq_eq_decide_eq]

theorem adjusted_eq {v : Value} {q : ℚ} {d : Decimal} (h : Represents v (.number q))
    (hd : v.promote? = some (.finite d)) : d.adjusted = leading q := by
  cases h with
  | int n =>
    cases hd
    by_cases zero : n = 0
    · subst zero
      simp [leading]
      decide
    · rw [Decimal.adjusted_eq (by simpa [Decimal.ofInt] using zero), Decimal.value_ofInt]
  | decimal fraction =>
    cases hd
    have nonzero : d.value ≠ 0 := by exact_mod_cast fraction 0
    exact Decimal.adjusted_eq (mt d.value_eq_zero_iff.mpr nonzero)

end Represents

def Precision.forRemainder (p : Precision) (x y : ℚ) : Precision :=
  Decimal.remainderPrecision p (leading x) (leading y)

theorem Precision.forRemainder_le {p : Precision} {x y : ℚ} (wide : p.digits + 1999999 ≤ greatest)
    (hx : p.Fits x) (hy : p.Fits y) : (p.forRemainder x y).digits ≤ greatest := by
  have within {q : ℚ} (h : p.Fits q) : minAdjusted ≤ leading q ∧ leading q ≤ maxAdjusted := by
    rcases h with rfl | ⟨-, low, high⟩
    · simp [leading, minAdjusted, maxAdjusted]
    · exact ⟨low, high⟩
  have high := (within hx).2
  have low := (within hy).1
  simp only [forRemainder, Decimal.remainderPrecision, minAdjusted, maxAdjusted] at *
  omega

/-- An operator that has an exact result with few enough digits has it as its value, and one that
has none fails. -/
theorem evalArithmetic_agrees {p : Precision} {op : ArithmeticOp} {glyph : String} {a b : Decimal}
    (whole : op = .pow → ∃ n : ℤ, b.value = n)
    (room : op = .rem →
      (Decimal.remainderPrecision p a.adjusted b.adjusted).digits ≤ Precision.greatest)
    (fits : ∀ q, op.ideal? a.value b.value = some q → p.Fits q) :
    Agrees Represents (evalArithmetic p op glyph (.finite a) (.finite b))
      (Ideal.orFail ((op.ideal? a.value b.value).map .number)) := by
  cases result : op.ideal? a.value b.value with
  | none =>
    obtain ⟨f, failed⟩ := evalArithmetic_undefined p glyph whole result
    rw [failed]
    exact .failure _ ()
  | some q =>
    suffices h : ∃ (r : Except Signal Decimal) (d : Decimal), r = .ok d ∧ d.value = q ∧
        evalArithmetic p op glyph (.finite a) (.finite b) =
          (r.map Value.demote).mapError fun s =>
            .fault (.stopped glyph (.finite a) (.finite b) s) by
      obtain ⟨r, d, rfl, rfl, outcome⟩ := h
      rw [outcome]
      exact .value (.demote d)
    by_cases power : op = .pow
    · subst power
      obtain ⟨n, hn⟩ := whole rfl
      obtain ⟨r, rounds, outcome⟩ := evalPower_rounds glyph hn result
      obtain ⟨d, value, exact⟩ := rounds.exact (fits q result)
      exact ⟨r, d, value, exact, outcome⟩
    · obtain ⟨w, working⟩ : ∃ w, op.workingPrecision? p (.finite a) (.finite b) = some w := by
        by_cases rem : op = .rem
        · subst rem
          exact ⟨_, (ArithmeticOp.workingPrecision?_rem p a b).mpr ⟨rfl, room rfl⟩⟩
        · exact ⟨p, ArithmeticOp.workingPrecision?_of_ne_rem p _ _ rem⟩
      obtain ⟨r, rounds, outcome⟩ := evalArithmetic_rounds_once glyph power working result
      obtain ⟨d, value, exact⟩ :=
        rounds.exact (fits q result) (ArithmeticOp.le_workingPrecision working)
      exact ⟨r, d, value, exact, outcome⟩

theorem evalBitwise_agrees (op : BitwiseOp) (a b : ℤ) (small : op = .shiftLeft → b ≤ maxShift) :
    Agrees Represents (evalBitwise op a b)
      (Ideal.orFail ((op.ideal? a b).map fun n => Ideal.number n)) := by
  cases op with
  | or => exact .value (by rw [Bits.or_eq_lor]; exact .int _)
  | and => exact .value (by rw [Bits.and_eq_land]; exact .int _)
  | xor => exact .value (by rw [Bits.xor_eq_xor]; exact .int _)
  | shiftLeft =>
    simp only [evalBitwise, BitwiseOp.ideal?]
    split_ifs with neg large
    · exact .failure _ ()
    · exact absurd (small rfl) (not_le.mpr large)
    · have shift : Bits.shiftLeft a b.toNat = a * 2 ^ b.toNat := by simp [Bits.shiftLeft]
      exact .value (by rw [shift]; exact .int _)
  | shiftRight =>
    simp only [evalBitwise, BitwiseOp.ideal?]
    split_ifs with neg
    · exact .failure _ ()
    · exact .value (by rw [Bits.shiftRight_eq_ediv]; exact .int _)

theorem ComparisonOp.holds_eq {x y : ℚ} {o : Ordering} (h : o.Compares x y) (op : ComparisonOp) :
    op.holds o = op.compares x y := by
  cases o <;> cases op <;> simp_all [Ordering.Compares, holds, compares, le_of_lt, not_lt_of_ge]

theorem evalUnary_agrees (glyph : String) {v : Value} {w : Ideal} (h : Represents v w) :
    Agrees Represents (evalUnary glyph v)
      (Ideal.orFail ((UnaryOp.ofGlyph? glyph).bind (Ideal.unary? · w))) := by
  unfold evalUnary
  cases UnaryOp.ofGlyph? glyph with
  | none => exact .failure _ ()
  | some op =>
    cases op with
    | not =>
      cases h with
      | bool b => exact .value (.bool _)
      | _ => exact .failure _ ()
    | complement =>
      cases h with
      | int n =>
        simp only [UnaryOp.result?, Option.bind_some, Ideal.unary?, whole?_intCast, Option.map_some]
        exact .value (.int _)
      | decimal fraction =>
        simp only [UnaryOp.result?, Option.bind_some, Ideal.unary?, whole?_eq_none_iff.mpr fraction,
          Option.map_none]
        exact .failure _ ()
      | bool | string => exact .failure _ ()
    | plus =>
      cases h with
      | int n => exact .value (.int n)
      | decimal fraction => exact .value (.decimal fraction)
      | bool | string => exact .failure _ ()
    | minus =>
      cases h with
      | int n =>
        simp only [UnaryOp.result?, Option.bind_some, Ideal.unary?, ← Int.cast_neg]
        exact .value (.int _)
      | @decimal d fraction =>
        simp only [UnaryOp.result?, Option.bind_some, Ideal.unary?, ← Decimal.value_negate]
        refine .value (.decimal fun n hn => fraction (-n) ?_)
        rw [Decimal.value_negate] at hn
        push_cast
        linarith
      | bool | string => exact .failure _ ()

theorem BinaryOp.glyph_of_pow {glyph : String} (h : ofGlyph? glyph = some (.arithmetic .pow)) :
    glyph = "**" := by
  unfold ofGlyph? at h
  split at h <;> first | rfl | cases h

theorem BinaryOp.glyph_of_rem {glyph : String} (h : ofGlyph? glyph = some (.arithmetic .rem)) :
    glyph = "%" := by
  unfold ofGlyph? at h
  split at h <;> first | rfl | cases h

theorem BinaryOp.glyph_of_shiftLeft {glyph : String}
    (h : ofGlyph? glyph = some (.bitwise .shiftLeft)) :
    glyph = "<<" := by
  unfold ofGlyph? at h
  split at h <;> first | rfl | cases h

section Binary

variable {p : Precision} {glyph : String} {v v' : Value} {w w' : Ideal}

theorem evalLogical_agrees {op : LogicalOp} (hop : BinaryOp.ofGlyph? glyph = some (.logical op))
    (h : Represents v w) (h' : Represents v' w') :
    Agrees Represents (evalBinary p glyph v v')
      (Ideal.orFail (Ideal.binary? (.logical op) w w')) := by
  rw [evalBinary, hop]
  cases h with
  | bool a =>
    cases h' with
    | bool b => exact .value (.bool _)
    | _ => exact .failure _ ()
  | _ => cases h' <;> exact .failure _ ()

theorem evalEquality_agrees {op : EqualityOp} (hop : BinaryOp.ofGlyph? glyph = some (.equality op))
    (h : Represents v w) (h' : Represents v' w') :
    Agrees Represents (evalBinary p glyph v v')
      (Ideal.orFail (Ideal.binary? (.equality op) w w')) := by
  have same := h.same?_eq h'
  rw [evalBinary, hop]
  dsimp only
  split
  · cases h
    exact .failure _ ()
  · cases h'
    cases h <;> exact .failure _ ()
  · rename_i left right
    have equal : Ideal.equal? w w' = some (decide (w = w')) := by
      cases h with
      | string s => exact absurd rfl (left s)
      | _ =>
        cases h' with
        | string s => exact absurd rfl (right s)
        | _ => rfl
    simp only [Ideal.binary?, equal, Option.map_some, same]
    exact .value (.bool _)

theorem promoteBoth_cases (h : Represents v w) (h' : Represents v' w') :
    (∃ a b : Decimal, promoteBoth v v' = .ok (.finite a, .finite b) ∧ w = .number a.value ∧
      w' = .number b.value ∧ a.adjusted = leading a.value ∧ b.adjusted = leading b.value) ∨
    (∃ f, promoteBoth v v' = .error f) ∧ ∀ x y, ¬(w = .number x ∧ w' = .number y) := by
  cases w with
  | number x =>
    obtain ⟨a, ha, rfl⟩ := h.number
    cases w' with
    | number y =>
      obtain ⟨b, hb, rfl⟩ := h'.number
      exact .inl ⟨a, b, by simp [promoteBoth, ha, hb], rfl, rfl,
        h.adjusted_eq ha, h'.adjusted_eq hb⟩
    | bool b =>
      cases h'
      exact .inr ⟨⟨.notANumber (.bool b), by rw [promoteBoth, ha]; rfl⟩, by simp⟩
    | string s =>
      cases h'
      exact .inr ⟨⟨.notANumber (.string s), by rw [promoteBoth, ha]; rfl⟩, by simp⟩
  | bool | string =>
    cases h
    exact .inr ⟨⟨_, rfl⟩, by simp⟩

theorem evalComparison_agrees (op : ComparisonOp) (h : Represents v w) (h' : Represents v' w') :
    Agrees Represents (evalComparison op v v')
      (Ideal.orFail (Ideal.binary? (.comparison op) w w')) := by
  rcases promoteBoth_cases h h' with ⟨a, b, promoted, rfl, rfl, -⟩ | ⟨⟨f, refused⟩, other⟩
  · have holds := op.holds_eq (Decimal.compareValue_compares a b)
    simp only [evalComparison, promoted, Extended.compare?, holds]
    exact .value (.bool _)
  · have none : Ideal.binary? (.comparison op) w w' = none := by
      cases w <;> cases w' <;> first | rfl | exact absurd ⟨rfl, rfl⟩ (other _ _)
    rw [evalComparison, refused, none]
    exact .failure _ ()

theorem evalArithmeticBinary_agrees {op : ArithmeticOp}
    (hop : BinaryOp.ofGlyph? glyph = some (.arithmetic op)) (h : Represents v w)
    (h' : Represents v' w')
    (exponent : op = .pow → ∀ x y, w = .number x → w' = .number y → ∃ n : ℤ, y = n)
    (room : op = .rem → ∀ x y, w = .number x → w' = .number y →
      (p.forRemainder x y).digits ≤ Precision.greatest)
    (fits : ∀ q, Ideal.binary? (.arithmetic op) w w' = some (.number q) → p.Fits q) :
    Agrees Represents (evalBinary p glyph v v')
      (Ideal.orFail (Ideal.binary? (.arithmetic op) w w')) := by
  rw [evalBinary, hop]
  dsimp only
  rcases promoteBoth_cases h h' with ⟨a, b, promoted, rfl, rfl, left, right⟩ | ⟨⟨f, refused⟩, other⟩
  · rw [promoted]
    refine evalArithmetic_agrees (fun pow => exponent pow _ _ rfl rfl) (fun rem => ?_)
      fun q hq => ?_
    · rw [left, right]
      exact room rem _ _ rfl rfl
    · exact fits q (by simp [Ideal.binary?, hq])
  · have none : Ideal.binary? (.arithmetic op) w w' = none := by
      cases w <;> cases w' <;> first | rfl | exact absurd ⟨rfl, rfl⟩ (other _ _)
    rw [refused, none]
    exact .failure _ ()

theorem evalBitwiseBinary_agrees {op : BitwiseOp}
    (hop : BinaryOp.ofGlyph? glyph = some (.bitwise op)) (h : Represents v w)
    (h' : Represents v' w')
    (small : op = .shiftLeft → ∀ x y, w = .number x → w' = .number y → y ≤ maxShift) :
    Agrees Represents (evalBinary p glyph v v')
      (Ideal.orFail (Ideal.binary? (.bitwise op) w w')) := by
  rw [evalBinary, hop]
  cases h with
  | int a =>
    cases h' with
    | int b =>
      have few (shift : op = .shiftLeft) : b ≤ maxShift := by
        exact_mod_cast small shift _ _ rfl rfl
      simpa [Ideal.binary?] using (evalBitwise_agrees op a b few).mapError_left Stop.fault
    | decimal fraction =>
      simp only [Ideal.binary?, whole?_intCast, Option.bind_some, whole?_eq_none_iff.mpr fraction,
        Option.bind_none]
      exact .failure _ ()
    | bool | string => exact .failure _ ()
  | decimal fraction =>
    cases w' with
    | number y =>
      simp only [Ideal.binary?, whole?_eq_none_iff.mpr fraction, Option.bind_none]
      exact .failure _ ()
    | bool | string => exact .failure _ ()
  | _ => cases h' <;> exact .failure _ ()

theorem evalBinary_agrees (h : Represents v w) (h' : Represents v' w')
    (exponent : glyph = "**" → ∀ x y, w = .number x → w' = .number y → ∃ n : ℤ, y = n)
    (room : glyph = "%" → ∀ x y, w = .number x → w' = .number y →
      (p.forRemainder x y).digits ≤ Precision.greatest)
    (shift : glyph = "<<" → ∀ x y, w = .number x → w' = .number y → y ≤ maxShift)
    (fits : ∀ q, (BinaryOp.ofGlyph? glyph).bind (Ideal.binary? · w w') =
      some (.number q) → p.Fits q) :
    Agrees Represents (evalBinary p glyph v v')
      (Ideal.orFail ((BinaryOp.ofGlyph? glyph).bind (Ideal.binary? · w w'))) := by
  cases hop : BinaryOp.ofGlyph? glyph with
  | none =>
    rw [evalBinary, hop]
    exact .failure _ ()
  | some op =>
    cases op with
    | logical op => exact evalLogical_agrees hop h h'
    | equality op => exact evalEquality_agrees hop h h'
    | comparison op =>
      rw [evalBinary, hop]
      exact evalComparison_agrees op h h'
    | arithmetic op =>
      refine evalArithmeticBinary_agrees hop h h' (fun pow => ?_) (fun rem => ?_) fun q hq =>
        fits q (by rw [hop]; exact hq)
      · subst pow
        exact exponent (BinaryOp.glyph_of_pow hop)
      · subst rem
        exact room (BinaryOp.glyph_of_rem hop)
    | bitwise op =>
      refine evalBitwiseBinary_agrees hop h h' fun left => ?_
      subst left
      exact shift (BinaryOp.glyph_of_shiftLeft hop)

end Binary

namespace Literal

theorem scaled_agrees {p : Precision} (d : Decimal) (m : Nat) (fits : p.Fits (d.value * m)) :
    Agrees Represents (scaled p d m) (.ok (.number (d.value * m)) : Except Unit Ideal) := by
  unfold scaled
  split_ifs with whole
  · rw [← Decimal.toInt_cast whole]
    exact .value (by exact_mod_cast Represents.int (d.toInt * m))
  · have rounds := d.mul_rounds p (.ofInt m)
    rw [Decimal.value_ofInt, Int.cast_natCast] at rounds
    obtain ⟨product, h, value⟩ := rounds.exact fits le_rfl
    rw [h, ← value]
    exact .value (.demote product)

theorem evalNumber_agrees {p : Precision} {text : String} {unit : Option String}
    (fits : ∀ q, Ideal.number? text unit = some q → p.Fits q) :
    Agrees Represents (evalNumber p text unit)
      (Ideal.orFail ((Ideal.number? text unit).map .number)) := by
  cases hd : readNumber? (withoutSeparators text).toList with
  | none =>
    simpa [evalNumber, parseNumber, Ideal.number?, hd, Ideal.orFail] using Agrees.failure _ ()
  | some d =>
    cases hn : namedUnit? unit with
    | none =>
      simpa [evalNumber, parseNumber, Ideal.number?, Ideal.scale?, hd, hn, Ideal.orFail] using
        Agrees.value (Represents.demote d)
    | some name =>
      cases hm : multiplier? name with
      | none =>
        simpa [evalNumber, parseNumber, Ideal.number?, Ideal.scale?, hd, hn, hm, Ideal.orFail] using
          Agrees.failure _ ()
      | some m =>
        have exact : Ideal.number? text unit = some (d.value * m) := by
          simp [Ideal.number?, Ideal.scale?, hd, hn, hm]
        simpa [evalNumber, parseNumber, exact, hd, hn, hm, Ideal.orFail] using
          scaled_agrees d m (fits _ exact)

theorem value_agrees {p : Precision} (l : Literal)
    (fits : ∀ q, Ideal.literal? l = some (.number q) → p.Fits q) :
    Agrees Represents (l.value p) (Ideal.orFail (Ideal.literal? l)) := by
  unfold Ideal.literal? at fits ⊢
  cases hk : l.kind with
  | bool =>
    simp only [value, eval, meaning, hk]
    exact .value (.bool _)
  | number =>
    have text : l.meaning = l.text := by simp [meaning, hk]
    simp only [value, eval, text, hk] at fits ⊢
    exact evalNumber_agrees fun q hq => fits q (by simp [hq])
  | string | unicodeString | hexString =>
    simp only [value, eval, meaning, hk]
    exact .value (.string _)
  | other name =>
    simp only [value, eval, hk]
    exact .failure _ ()

end Literal
end Comptime
