import Comptime.Proofs.Spelling

/-! The rendering of a number is read back as that number, and values that are different in normal
form are rendered differently. The first character shows whether a value is a number, a truth value
or a string. -/
namespace Comptime

theorem Literal.parseNumber_text {d : Decimal} (held : d.isRepresentable = true) :
    parseNumber d.text = .ok d := by
  rw [parseNumber, readNumber?_text, if_pos held]

theorem Decimal.head?_text (d : Decimal) :
    ∃ c, d.text.toList.head? = some c ∧ isNumeric c = true := by
  obtain ⟨k, rest, small, magnitude⟩ := d.magnitudeText_cons
  rw [text_toList, magnitude]
  cases d.neg with
  | true => exact ⟨'-', by simp, by decide⟩
  | false => exact ⟨digitChar k, by simp, isNumeric_digitChar k small⟩

def ValueType.ofHead (c : Char) : ValueType :=
  if Decimal.isNumeric c then .number else if c.isAlpha then .bool else .string

namespace Value

variable {v w : Value} {t u : ValueType} {limit : Option Nat} {text : String}

theorem IsNormal.exists_hasType (h : v.IsNormal) : ∃ t, v.HasType t := by
  cases v with
  | int n => exact ⟨_, .int n⟩
  | decimal x => exact ⟨_, h.hasType_decimal⟩
  | bool b => exact ⟨_, .bool b⟩
  | string s => exact ⟨_, .string s⟩

theorem IsNormal.eq_demote {d : Decimal} (h : v.IsNormal) (hd : v.promote? = some (.finite d)) :
    v = demote d := by
  cases v with
  | int n =>
    cases hd
    rw [demote_ofInt]
  | decimal x =>
    cases hd
    rw [demote, if_neg (by simpa [IsNormal] using h)]
  | bool | string => cases hd

theorem promote?_eq_some_of_number (h : v.HasType .number) (written : v.render? limit = some text) :
    ∃ d : Decimal, v.promote? = some (.finite d) ∧ text = d.text := by
  cases h with
  | int n => exact ⟨.ofInt n, rfl, render?_int_eq_some written⟩
  | @decimal d => exact ⟨d, rfl, (Option.some.inj written).symm⟩

theorem HasType.ofHead_render (h : v.HasType t) (written : v.render? limit = some text) :
    text.toList.head?.map ValueType.ofHead = some t := by
  cases t with
  | number =>
    obtain ⟨d, -, rfl⟩ := promote?_eq_some_of_number h written
    obtain ⟨c, head, numeric⟩ := d.head?_text
    simp [head, ValueType.ofHead, numeric]
  | bool =>
    cases h with
    | bool b => cases written; cases b <;> decide
  | string =>
    cases h with
    | string s =>
      cases written
      rw [String.toList_append, String.toList_append]
      rfl

theorem HasType.type_eq (hv : v.HasType t) (hw : w.HasType u) (left : v.render? limit = some text)
    (right : w.render? limit = some text) : t = u := by
  have head := hv.ofHead_render left
  rw [hw.ofHead_render right] at head
  exact (Option.some.inj head).symm

end Value

theorem Decimal.text_injective : Function.Injective text := by
  intro a b same
  have numeral := a.numeral_text
  rw [same] at numeral
  exact numeral.unique b.numeral_text

theorem Value.eq_of_render? {limit : Option Nat} {v w : Value} {text : String} (hv : v.IsNormal)
    (hw : w.IsNormal) (left : v.render? limit = some text) (right : w.render? limit = some text) :
    v = w := by
  obtain ⟨t, typeOfLeft⟩ := hv.exists_hasType
  obtain ⟨u, typeOfRight⟩ := hw.exists_hasType
  obtain rfl := typeOfLeft.type_eq typeOfRight left right
  cases t with
  | number =>
    obtain ⟨d, hd, rfl⟩ := promote?_eq_some_of_number typeOfLeft left
    obtain ⟨e, he, same⟩ := promote?_eq_some_of_number typeOfRight right
    obtain rfl := Decimal.text_injective same
    rw [hv.eq_demote hd, hw.eq_demote he]
  | bool =>
    cases typeOfLeft with
    | bool a =>
      cases typeOfRight with
      | bool b =>
        have same : (if a then "true" else "false") = if b then "true" else "false" :=
          Option.some.inj (left.trans right.symm)
        revert same
        cases a <;> cases b <;> decide
  | string =>
    cases typeOfLeft with
    | string a =>
      cases typeOfRight with
      | string b =>
        have quoted := congrArg String.toList (Option.some.inj (left.trans right.symm))
        simp only [String.toList_append, List.append_cancel_left_eq,
          List.append_cancel_right_eq] at quoted
        rw [String.toList_injective quoted]

end Comptime
