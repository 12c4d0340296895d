import Comptime.Proofs.Decimal.Bounds
import Comptime.Proofs.Normal
import Comptime.Proofs.Operator.Signal

/-! Every decimal that an expression is evaluated to is within the bounds of the type of decimals:
it is read from a literal that is, or it has been rounded. -/
namespace Comptime

/-- A number that the type of decimals holds. -/
def Value.IsHeld (v : Value) : Prop := ∀ d, v.promote? = some (.finite d) → d.isRepresentable = true

theorem Value.isHeld_decimal {d : Decimal} :
    (Value.decimal (.finite d)).IsHeld ↔ d.isRepresentable = true := by
  simp [IsHeld, promote?]

theorem Value.isHeld_int {n : Int} :
    (Value.int n).IsHeld ↔ digitCount n.natAbs ≤ 999999999999999999 := by
  simp only [IsHeld, promote?, Option.some.injEq, Extended.finite.injEq, forall_eq',
    Decimal.isRepresentable_iff,
    Decimal.adjusted, Decimal.ofInt]
  omega

/-- In normal form, and held unless it is an integer. -/
def Value.IsSound (v : Value) : Prop :=
  v.IsNormal ∧ ∀ d, v = .decimal (.finite d) → d.isRepresentable = true

section
variable {p w : Precision} {v : Value} {d r : Decimal}

theorem Value.isSound_demote (h : d.isRepresentable = true ∨ d.isIntegral = true) :
    (demote d).IsSound := by
  refine ⟨(hasType_demote d).isNormal, fun r same => ?_⟩
  unfold demote at same
  split_ifs at same with whole
  cases same
  exact h.resolve_right whole

theorem Literal.isRepresentable_of_readNumber? {cs : List Char} (h : readNumber? cs = some d) :
    d.isRepresentable = true ∨ d.isIntegral = true := by
  have whole {n : Option Int} (h : n.map Decimal.ofInt = some d) : d.isIntegral = true := by
    obtain ⟨n, -, rfl⟩ := Option.map_eq_some_iff.mp h
    exact (Decimal.isIntegral_iff _).mpr ⟨n, Decimal.value_ofInt n⟩
  unfold readNumber? at h
  split at h
  · exact .inr (whole h)
  · exact .inr (whole h)
  · simp only [readDecimal?] at h
    split at h
    · cases h
    · split_ifs at h with held
      cases h
      exact .inl held

theorem Literal.evalNumber_isSound (room : p.digits ≤ Precision.greatest) {text : String}
    {unit : Option String} (h : evalNumber p text unit = .ok v) : v.IsSound := by
  unfold evalNumber parseNumber at h
  cases read : readNumber? (withoutSeparators text).toList with
  | none => simp [read] at h
  | some d =>
    simp only [read] at h
    split at h
    · cases h
      exact Value.isSound_demote (isRepresentable_of_readNumber? read)
    · split at h
      · cases h
      · unfold scaled at h
        split_ifs at h
        · cases h
          exact ⟨trivial, nofun⟩
        · split at h
          · rename_i product
            cases h
            exact Value.isSound_demote (.inl (Decimal.isRepresentable_roundTo room product))
          · cases h

theorem Literal.value_isSound (room : p.digits ≤ Precision.greatest) {l : Literal}
    (h : l.value p = .ok v) :
    v.IsSound := by
  unfold value eval at h
  split at h
  · cases h
    exact ⟨trivial, nofun⟩
  · cases h
    exact ⟨trivial, nofun⟩
  · cases h
    exact ⟨trivial, nofun⟩
  · cases h
    exact ⟨trivial, nofun⟩
  · exact evalNumber_isSound room h
  · cases h

theorem evalUnary_isSound {glyph : String} {a : Value} (ha : a.IsSound)
    (h : evalUnary glyph a = .ok v) :
    v.IsSound := by
  obtain ⟨normal, held⟩ := ha
  obtain ⟨_, -, type⟩ := evalUnary_hasType normal h
  refine ⟨type.isNormal, fun d same => ?_⟩
  subst same
  unfold evalUnary at h
  split at h
  · cases h
  · rename_i op _
    split at h
    · rename_i result
      cases h
      cases op with
      | not | complement => cases a <;> cases result
      | plus =>
        cases a <;> cases result
        exact held d rfl
      | minus =>
        cases a with
        | decimal x =>
          cases x with
          | finite e =>
            cases result
            exact held e rfl
          | infinity | nan => cases result
        | int | bool | string => cases result
    · cases h

theorem ArithmeticOp.isRepresentable_apply (room : w.digits ≤ Precision.greatest)
    {op : ArithmeticOp} {a b : Decimal} (h : op.apply w (.finite a) (.finite b) = .ok (.finite r)) :
    r.isRepresentable = true := by
  have finite {o : Except Signal Decimal}
      (h : o.map Extended.finite = .ok (.finite r)) : o = .ok r := by
    cases o <;> simp_all [Except.map]
  cases op with
  | add => exact Decimal.isRepresentable_add room (finite h)
  | sub => exact Decimal.isRepresentable_add room (finite h)
  | mul => exact Decimal.isRepresentable_roundTo room (finite h)
  | div => exact Decimal.isRepresentable_div room (finite h)
  | rem => exact Decimal.isRepresentable_rem room (finite h)
  | pow =>
    simp only [apply, Extended.power, Extended.isNaN, Bool.or_self,
      Bool.false_eq_true, if_false] at h
    split_ifs at h
    · cases h
      exact Decimal.isRepresentable_one _
    · simp only [Extended.limitPower] at h
      split_ifs at h
      · cases h
      · cases h
        exact Decimal.isRepresentable_zero (e := 0) _ (by decide) (by decide)
    · exact Decimal.isRepresentable_power room (finite h)

theorem ArithmeticOp.digits_le_of_workingPrecision? {op : ArithmeticOp} {x y : Extended}
    (room : p.digits ≤ Precision.greatest) (h : op.workingPrecision? p x y = some w) :
    w.digits ≤ Precision.greatest := by
  cases op with
  | rem =>
    simp only [workingPrecision?] at h
    split_ifs at h with few
    cases h
    exact few
  | _ =>
    cases h
    exact room

theorem evalArithmetic_isSound (room : p.digits ≤ Precision.greatest) {op : ArithmeticOp}
    {glyph : String} {a b : Decimal}
    (h : evalArithmetic p op glyph (.finite a) (.finite b) = .ok v) :
    v.IsSound := by
  unfold evalArithmetic at h
  split_ifs at h
  · cases h
    exact ⟨trivial, nofun⟩
  · split at h
    · cases h
    · rename_i w working
      split at h
      · cases h
      · rename_i result
        cases h
        have held :=
          ArithmeticOp.isRepresentable_apply
            (ArithmeticOp.digits_le_of_workingPrecision? room working) result
        exact Value.isSound_demote (.inl held)
      · cases h

theorem Value.isSound_int (n : Int) : (Value.int n).IsSound := ⟨trivial, nofun⟩

theorem Value.isSound_bool (b : Bool) : (Value.bool b).IsSound := ⟨trivial, nofun⟩

theorem evalBinary_isSound (room : p.digits ≤ Precision.greatest) {glyph : String} {a b : Value}
    (ha : a.IsSound) (hb : b.IsSound) (h : evalBinary p glyph a b = .ok v) : v.IsSound := by
  obtain ⟨op, hop, type⟩ := evalBinary_hasType h
  rw [evalBinary, hop] at h
  cases op with
  | logical | equality | comparison =>
    cases type
    exact Value.isSound_bool _
  | bitwise op =>
    dsimp only at h
    split at h
    · have whole := mapError_eq_ok.mp h
      cases type with
      | int => exact Value.isSound_int _
      | decimal =>
        cases op <;> simp only [evalBitwise] at whole <;> (try split_ifs at whole) <;> cases whole
    · cases h
  | arithmetic op =>
    dsimp only at h
    cases operands : promoteBoth a b with
    | error f => simp [operands] at h
    | ok xy =>
      obtain ⟨x, y⟩ := xy
      obtain ⟨hx, hy⟩ := promoteBoth_eq_ok_iff.mp operands
      obtain ⟨d, rfl⟩ := ha.1.exists_finite hx
      obtain ⟨e, rfl⟩ := hb.1.exists_finite hy
      rw [operands] at h
      exact evalArithmetic_isSound room h

theorem Expr.evaluate_isSound {lim : Limits} {ds : Declarations}
    (room : p.digits ≤ Precision.greatest) {e : Expr}
    (h : evaluate lim ds p e = .ok v) : v.IsSound :=
  evaluate_closed (fun _ _ h => Literal.value_isSound room h)
    (fun _ _ _ ha h => evalUnary_isSound ha h)
    (fun _ _ _ _ ha hb h => evalBinary_isSound room ha hb h) h

end
end Comptime
