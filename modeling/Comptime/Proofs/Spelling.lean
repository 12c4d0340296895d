import Comptime.Proofs.Decimal.Text
import Comptime.Proofs.Held
import Comptime.Proofs.Rewriting

/-! The literal of a value. Values in normal form are read back from their literals as they are, so
that whatever has been evaluated may be replaced by the literal of its value, if there is one. -/
namespace Comptime

/-- The literal of a value: a number or a truth value as it is rendered, or a string. -/
def Value.literal? (limit : Option Nat) (v : Value) (spot : Int) : Option Literal :=
  match v with
  | .int _ | .decimal _ => (v.render? limit).map fun text => { kind := .number, text, spot }
  | .bool _ => (v.render? limit).map fun text => { kind := .bool, text, spot }
  | .string s => some { kind := .string, text := s, spot }

/-- An integer, if it is one, with no more digits than a decimal may have. -/
def Value.IsShort (v : Value) : Prop := ∀ n, v = .int n → digitCount n.natAbs ≤ 999999999999999999

theorem Value.demote_ofInt (n : ℤ) : demote (.ofInt n) = .int n := by
  have whole : (Decimal.ofInt n).isIntegral = true := (Decimal.isIntegral_iff _).mpr ⟨n, by simp⟩
  have same : ((Decimal.ofInt n).toInt : ℚ) = n := by
    rw [Decimal.toInt_cast whole, Decimal.value_ofInt]
  rw [demote, if_pos whole, Int.cast_injective same]

theorem Value.literal?_eq_none_iff {limit : Option Nat} {v : Value} {spot : Int} :
    v.literal? limit spot = none ↔ v.IsUnwritable limit := by
  rw [← render?_eq_none_iff]
  cases v <;> simp [literal?, render?]

theorem Value.render?_int_eq_some {limit : Option Nat} {n : ℤ} {text : String}
    (h : (Value.int n).render? limit = some text) : text = (Decimal.ofInt n).text := by
  simp only [render?, integerText?] at h
  split_ifs at h
  rw [← integerText_eq, Option.some.inj h]

theorem Value.IsSound.isHeld {v : Value} (h : v.IsSound) (short : v.IsShort) : v.IsHeld := by
  intro d promoted
  cases v with
  | int n => exact isHeld_int.mpr (short n rfl) d promoted
  | decimal x =>
    cases promoted
    exact h.2 d rfl
  | bool | string => cases promoted

theorem Literal.evalNumber_text (p : Precision) {d : Decimal} (held : d.isRepresentable = true) :
    evalNumber p d.text none = .ok (Value.demote d) := by
  have text : withoutSeparators d.text = d.text := by
    rw [withoutSeparators, d.filter_text, String.ofList_toList]
  rw [evalNumber, parseNumber, text, readNumber?_text, if_pos held]
  rfl

/-- A value in normal form is that of its literal. -/
theorem Value.literal_value (p : Precision) {limit : Option Nat} {spot : Int} {v : Value}
    {l : Literal} (normal : v.IsNormal) (held : v.IsHeld) (h : v.literal? limit spot = some l) :
    l.value p = .ok v := by
  cases v with
  | int n =>
    obtain ⟨text, written, rfl⟩ := Option.map_eq_some_iff.mp h
    change Literal.evalNumber p text none = _
    rw [render?_int_eq_some written, Literal.evalNumber_text p (held _ rfl), demote_ofInt]
  | decimal x =>
    obtain ⟨d, rfl⟩ := normal.exists_finite rfl
    cases h
    change Literal.evalNumber p d.text none = _
    rw [Literal.evalNumber_text p (held d rfl), demote, if_neg (by simpa [IsNormal] using normal)]
  | bool b => cases h; cases b <;> rfl
  | string s => cases h; rfl

/-- An expression that has a value is spelled as the literal of that value. -/
inductive Spells (lim : Limits) (p : Precision) (ds : Declarations) : Expr → Expr → Prop where
  | value {e : Expr} {v : Value} {spot : Int} {l : Literal} (value : evaluate lim ds p e = .ok v)
      (short : v.IsShort) (written : v.literal? lim.digits spot = some l) (id : Nat) :
      Spells lim p ds e (.literal id l)

section
variable {lim : Limits} {p : Precision} (room : p.digits ≤ Precision.greatest)
include room

theorem Expr.preserves_spells (ds : Declarations) : Preserves lim p ds (Spells lim p ds) where
  lower step _ := by
    cases step with
    | value => exact .inl ⟨_, _, rfl⟩
  outcome step _ := by
    cases step with
    | value value short written =>
      have sound := evaluate_isSound room value
      rw [unblamed_literal, Value.literal_value p sound.1 (sound.isHeld short) written, value]
      rfl

end

end Comptime
