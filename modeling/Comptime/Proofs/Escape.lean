import Comptime.Proofs.Constant
import Comptime.Proofs.Decimal.Arithmetic
import Comptime.Proofs.Expr.Text
import Comptime.Proofs.Literal.Numeral
import Comptime.Proofs.Normal
import Comptime.Proofs.Operator.Signal

/-! What gets past all errors. A constant is evaluated to a value or an error, except where a
literal with a unit overflows, a remainder lacks room, or an error would name an integer that is too
long for the host. -/
namespace Comptime

namespace Literal

/-- A number that is not whole and has a unit, the multiple being too large once it is rounded. -/
def Overflows (p : Precision) (l : Literal) : Prop :=
  l.kind = .number ∧ ∃ d name m, readNumber? (withoutSeparators l.text).toList = some d ∧
    namedUnit? l.unit = some name ∧ multiplier? name = some m ∧ d.isIntegral = false ∧
    Precision.maxAdjusted < leading (p.rounded (d.value * m))

variable {lim : Limits} {p : Precision} {l : Literal} {t : Escape}

theorem scaled_eq_escape_iff {d : Decimal} {m : Nat} :
    scaled p d m = .error (.escape t) ↔
      d.isIntegral = false ∧ Precision.maxAdjusted < leading (p.rounded (d.value * m)) ∧
      t = .signal .overflow := by
  have rounds := d.mul_rounds p (.ofInt m)
  rw [Decimal.value_ofInt, Int.cast_natCast] at rounds
  unfold scaled
  cases hd : d.isIntegral with
  | true => simp
  | false =>
    cases product : d.mul p (.ofInt m) with
    | ok q =>
      rw [product] at rounds
      have := rounds.2
      simp; omega
    | error s =>
      rw [product] at rounds
      obtain ⟨rfl, high⟩ := rounds
      simp [high, eq_comm]

theorem evalNumber_eq_escape_iff {text : String} {unit : Option String} :
    evalNumber p text unit = .error (.escape t) ↔
      ∃ d name m, readNumber? (withoutSeparators text).toList = some d ∧
      namedUnit? unit = some name ∧
        multiplier? name = some m ∧ scaled p d m = .error (.escape t) := by
  unfold evalNumber parseNumber
  cases readNumber? (withoutSeparators text).toList with
  | none => simp
  | some d =>
    cases namedUnit? unit with
    | none => simp
    | some name => cases hm : multiplier? name <;> simp [hm]

theorem value_eq_escape_iff : l.value p = .error (.escape t) ↔
    l.Overflows p ∧ t = .signal .overflow := by
  unfold Overflows
  cases hk : l.kind with
  | number =>
    simp only [value, eval, meaning, hk, evalNumber_eq_escape_iff, scaled_eq_escape_iff]
    constructor
    · rintro ⟨d, name, m, hd, hn, hm, whole, high, rfl⟩
      exact ⟨⟨trivial, d, name, m, hd, hn, hm, whole, high⟩, rfl⟩
    · rintro ⟨⟨-, d, name, m, hd, hn, hm, whole, high⟩, rfl⟩
      exact ⟨d, name, m, hd, hn, hm, whole, high, rfl⟩
  | _ => simp [value, eval, hk]

theorem scaled_ne_fault {d : Decimal} {m : Nat} (f : Fault) : scaled p d m ≠ .error (.fault f) := by
  unfold scaled
  split_ifs
  · exact nofun
  · cases d.mul p (.ofInt m) <;> exact nofun

theorem value_told {f : Fault} (h : l.value p = .error (.fault f)) (limit : Option Nat) :
    f.message? limit ≠ none := by
  have number {text : String}
      (h : evalNumber p text l.unit = .error (.fault f)) : f.message? limit ≠ none := by
    unfold evalNumber parseNumber at h
    cases read : readNumber? (withoutSeparators text).toList <;> rw [read] at h
    · cases h
      exact nofun
    · dsimp only at h
      split at h
      · cases h
      · split at h
        · cases h
          exact nofun
        · exact absurd h (scaled_ne_fault f)
  unfold value eval at h
  split at h
  · cases h
  · cases h
  · cases h
  · cases h
  · exact number h
  · cases h
    exact nofun

theorem value_escapes_iff :
    (l.value p).mapError (Failure.ofStop lim) = .error (.escape t) ↔
      l.Overflows p ∧ t = .signal .overflow := by
  rw [← value_eq_escape_iff]
  rcases outcome : l.value p with (f | e) | v
  · have told := value_told outcome lim.digits
    simp [Except.mapError, Failure.ofStop, Failure.ofFault_eq_escape_iff, told]
  · simp [Except.mapError, Failure.ofStop]
  · simp [Except.mapError]

end Literal

/-- The expressions that do not end in a value or an error once their parts have the given values,
and what comes of them: the literals that overflow, the remainders without room, and what refuses an
operand or a condition that the host does not write. -/
inductive Escapes (lim : Limits) (p : Precision) : Expr → List Value → Escape → Prop where
  | literal {id : Nat} {l : Literal} (high : l.Overflows p) :
      Escapes lim p (.literal id l) [] (.signal .overflow)
  | unary {id : Nat} {op : Token} {arg : Expr} {v : Value} (refused : ¬TakenBy op.text v)
      (long : v.IsUnwritable lim.digits) : Escapes lim p (.unary id op arg) [v] .text
  | remainder {id : Nat} {lhs rhs : Expr} {op : Token} {a b : Value}
      (lacking : LacksRoom p op.text a b) : Escapes lim p (.binary id lhs op rhs) [a, b] .precision
  | binary {id : Nat} {lhs rhs : Expr} {op : Token} {a b : Value}
      (refused : Untold lim.digits op.text a b) : Escapes lim p (.binary id lhs op rhs) [a, b] .text
  | condition {id : Nat} {test yes no : Expr} {v : Value} (long : v.IsUnwritable lim.digits) :
      Escapes lim p (.conditional id test yes no) [v] .text

section
variable {lim : Limits} {ds : Declarations} {p : Precision} {glyph : String} {a b v : Value}
    {t : Escape}

theorem evalUnary_escapes_iff :
    (evalUnary glyph v).mapError (Failure.ofFault lim) = .error (.escape t) ↔
      t = .text ∧ ¬TakenBy glyph v ∧ v.IsUnwritable lim.digits := by
  rw [← evalUnary_untold_iff]
  cases evalUnary glyph v <;> simp [Except.mapError, Failure.ofFault_eq_escape_iff]

theorem evalBinary_escapes_iff (ha : a.IsNormal) (hb : b.IsNormal) :
    (evalBinary p glyph a b).mapError (Failure.ofStop lim) = .error (.escape t) ↔
      (t = .precision ∧ LacksRoom p glyph a b) ∨ (t = .text ∧ Untold lim.digits glyph a b) := by
  have compared : ¬ComparesNaN glyph a b := by
    rintro ⟨-, x, y, hx, hy, nan⟩
    obtain ⟨d, rfl⟩ := ha.exists_finite hx
    obtain ⟨e, rfl⟩ := hb.exists_finite hy
    simp [Extended.isNaN] at nan
  have equated : ¬EquatesSignaling glyph a b := by
    rintro ⟨-, x, y, rfl, rfl, signals⟩
    obtain ⟨d, rfl⟩ := ha.exists_finite rfl
    obtain ⟨e, rfl⟩ := hb.exists_finite rfl
    simp [Extended.signals] at signals
  simpa [compared, equated] using (evalBinary_endsBy lim.digits p glyph a b).escape_iff t

theorem escapes_literal_iff {id : Nat} {l : Literal} :
    Escapes lim p (.literal id l) [] t ↔ l.Overflows p ∧ t = .signal .overflow := by
  constructor
  · rintro ⟨high⟩
    exact ⟨high, rfl⟩
  · rintro ⟨high, rfl⟩
    exact .literal high

theorem escapes_unary_iff {id : Nat} {op : Token} {arg : Expr} :
    Escapes lim p (.unary id op arg) [v] t ↔
      t = .text ∧ ¬TakenBy op.text v ∧ v.IsUnwritable lim.digits := by
  constructor
  · rintro (_ | ⟨refused, long⟩)
    exact ⟨rfl, refused, long⟩
  · rintro ⟨rfl, refused, long⟩
    exact .unary refused long

theorem escapes_binary_iff {id : Nat} {lhs rhs : Expr} {op : Token} :
    Escapes lim p (.binary id lhs op rhs) [a, b] t ↔
      (t = .precision ∧ LacksRoom p op.text a b) ∨ (t = .text ∧ Untold lim.digits op.text a b) := by
  constructor
  · rintro (_ | _ | lacking | refused)
    · exact .inl ⟨rfl, lacking⟩
    · exact .inr ⟨rfl, refused⟩
  · rintro (⟨rfl, lacking⟩ | ⟨rfl, refused⟩)
    · exact .remainder lacking
    · exact .binary refused

theorem escapes_conditional_iff {id : Nat} {test yes no : Expr} {vs : List Value} :
    Escapes lim p (.conditional id test yes no) (v :: vs) t ↔
      vs = [] ∧ t = .text ∧ v.IsUnwritable lim.digits := by
  constructor
  · rintro (_ | _ | _ | _ | long)
    exact ⟨rfl, rfl, long⟩
  · rintro ⟨rfl, rfl, long⟩
    exact .condition long

theorem ne_escape_of_ends_pass {arg : Expr} {vs : List Value} {o : Except Failure Value}
    (ends : (Plan.pass arg : Plan Value Failure).Ends vs o) : o ≠ .error (.escape t) := by
  obtain ⟨v, _, rfl, rfl, rfl⟩ := ends
  exact nofun

/-- What comes of an expression once its parts have their values, nothing being wrong with its
shape. -/
theorem escapes_iff_ends {e : Expr} {vs : List Value} {o : Except Failure Value}
    (shape : e.HasConstantShape ds) (normal : ∀ v ∈ vs, v.IsNormal)
    (ends : (Plan.ofExpr (evaluation lim ds p) ds e).Ends vs o) :
    o = .error (.escape t) ↔ Escapes lim p e vs t := by
  cases e with
  | missing | foreign => exact shape.elim
  | literal id l =>
    obtain ⟨rfl, rfl⟩ := ends
    rw [escapes_literal_iff]
    exact Literal.value_escapes_iff
  | unary id op arg =>
    obtain ⟨v, _, rfl, rfl, rfl⟩ := ends
    rw [escapes_unary_iff]
    exact evalUnary_escapes_iff
  | binary id lhs op rhs =>
    obtain ⟨a, _, rfl, b, _, rfl, rfl, rfl⟩ := ends
    rw [escapes_binary_iff]
    exact evalBinary_escapes_iff (normal a (by simp)) (normal b (by simp))
  | conditional id test yes no =>
    obtain ⟨v, vs, rfl, ends⟩ := ends
    rw [escapes_conditional_iff]
    cases condition : (evaluation lim ds p).condition v with
    | ok b =>
      simp only [condition] at ends
      obtain ⟨w, _, rfl, rfl, rfl⟩ := ends
      simp
    | error f =>
      simp only [condition] at ends
      obtain ⟨rfl, rfl⟩ := ends
      obtain ⟨-, rfl⟩ := conditionOf_eq_error.mp condition
      simp [Failure.ofFault_eq_escape_iff, Fault.message?, Value.render?_eq_none_iff]
  | tuple id b items =>
    obtain ⟨-, item, rfl, -⟩ := shape
    exact iff_of_false (ne_escape_of_ends_pass ends) (by rintro ⟨⟩)
  | lookup id name target =>
    obtain ⟨i, d, rfl, hd, -, present⟩ := shape
    rw [Plan.ofExpr, Target.initializer?_variable hd present] at ends
    exact iff_of_false (ne_escape_of_ends_pass ends) (by rintro ⟨⟩)
  | call id kind fn args =>
    obtain ⟨rfl, nonempty⟩ := shape
    cases args with
    | nil => exact absurd rfl nonempty
    | cons arg rest => exact iff_of_false (ne_escape_of_ends_pass ends) (by rintro ⟨⟩)

theorem Failure.blaming_eq_escape_iff {f : Failure} {node : Expr} :
    f.blaming node = .escape t ↔ f = .escape t := by
  cases f <;> simp [Failure.blaming]

namespace Run

theorem IsRun.escape {r s : Run Value Failure} {k : Nat} (hr : r.IsRun (evaluation lim ds p) ds)
    (h : r.Contains k s) (hs : s.outcome = .error (.escape t)) :
    r.outcome = .error (.escape t) := by
  induction h with
  | itself => exact hs
  | part ht _ ih =>
    obtain ⟨serves, runs⟩ := hr
    obtain rfl := serves.failure ht (ih (runs _ ht) hs)
    rfl

theorem IsRun.normal_parts {r : Run Value Failure} (hr : r.IsRun (evaluation lim ds p) ds)
    {vs : List Value} (values : r.parts.map outcome = vs.map .ok) : ∀ v ∈ vs, v.IsNormal := by
  obtain ⟨serves, runs⟩ := hr
  intro v hv
  obtain ⟨t, ht, value⟩ := List.mem_map.mp (values ▸ List.mem_map_of_mem hv)
  exact (runs t ht).normal value

theorem IsRun.ends {r : Run Value Failure} (hr : r.IsRun (evaluation lim ds p) ds) {vs : List Value}
    (values : r.parts.map outcome = vs.map .ok) :
    ∃ o, (Plan.ofExpr (evaluation lim ds p) ds r.expr).Ends vs o ∧
    r.outcome = o.mapError (.blaming r.expr) := by
  obtain ⟨serves, runs⟩ := hr
  rcases serves.ends with ⟨f, passed, s, -, rfl, failed, -⟩ | ⟨ws, same, ends⟩
  · obtain ⟨v, value⟩ := passed_of_values values s (by simp [Tree.parts])
    cases failed.symm.trans value
  · have injective : Function.Injective (Except.ok : Value → Except Failure Value) :=
      fun _ _ => Except.ok.inj
    obtain rfl := List.map_injective_iff.mpr injective (values.symm.trans same)
    exact ⟨_, ends, rfl⟩

/-- A run gets past all errors just when a node in it does once its parts have their values. -/
theorem IsRun.escapes_iff {r : Run Value Failure} (hr : r.IsRun (evaluation lim ds p) ds)
    (shape : ∀ k s, r.Contains k s → s.root.expr.HasConstantShape ds) :
    r.outcome = .error (.escape t) ↔
      ∃ k s vs, r.Contains k s ∧ s.parts.map outcome = vs.map .ok ∧
      Escapes lim p s.root.expr vs t := by
  have own {k : Nat} {s : Run Value Failure} {vs : List Value} (hs : r.Contains k s)
      (values : s.parts.map outcome = vs.map .ok) :
      s.outcome = .error (.escape t) ↔ Escapes lim p s.root.expr vs t := by
    obtain ⟨o, ends, outcome⟩ := (hr.contains hs).ends values
    rw [← escapes_iff_ends (shape k s hs) ((hr.contains hs).normal_parts values) ends, outcome]
    cases o <;> simp [Except.mapError, Failure.blaming_eq_escape_iff]
  constructor
  · intro h
    obtain ⟨_, s, _, _, _, last, k, vs, _, hs, values, _⟩ := hr.first_failure shape h
    exact ⟨k, s, vs, hs, values, (own hs values).mp (last s (.head _))⟩
  · rintro ⟨k, s, vs, hs, values, escapes⟩
    exact hr.escape hs ((own hs values).mpr escapes)

end Run

/-- The evaluation of an expression meets a node that gets past all errors. -/
def EscapesWithin (lim : Limits) (ds : Declarations) (p : Precision) (e : Expr) (t : Escape) :
    Prop :=
  ∃ r : Run Value Failure, r.IsRun (evaluation lim ds p) ds ∧ r.expr = e ∧
    ∃ k s vs, r.Contains k s ∧ s.parts.map Run.outcome = vs.map .ok ∧ Escapes lim p s.root.expr vs t

theorem evaluate_eq_escape_iff {limit : Int} {e : Expr} (h : isConstant ds limit e = true) :
    evaluate lim ds p e = .error (.escape t) ↔ EscapesWithin lim ds p e t := by
  obtain ⟨r, hr, rfl, frames⟩ := Run.exists_of_isConstant (evaluation lim ds p) h
  rw [hr.evaluate_eq, hr.escapes_iff fun k s hs => (frames k s hs).2]
  refine ⟨fun found => ⟨r, hr, rfl, found⟩, ?_⟩
  rintro ⟨r', hr', root, found⟩
  exact hr'.unique hr root ▸ found

theorem escape_or_error_of_isConstant {limit : Int} {e : Expr} {f : Failure}
    (h : isConstant ds limit e = true) (hf : evaluate lim ds p e = .error f) :
    (∃ t, f = .escape t) ∨ ∃ err, f = .error err := by
  obtain ⟨r, hr, rfl, frames⟩ := Run.exists_of_isConstant (evaluation lim ds p) h
  obtain ⟨k, s, hs, vs, g, values, raises, rfl⟩ :=
    hr.exists_raises (fun k s hs => (frames k s hs).2) (hr.evaluate_eq.symm.trans hf)
  exact (raises.kind s.root.expr).imp_right fun ⟨err, told, _⟩ => ⟨err, told⟩

theorem Failure.notConstant_eq_escape_iff {e : Expr} :
    notConstant lim ds e = .escape t ↔
      t = .text ∧ lim.prints e = true ∧ e.IsUnwritable lim.digits := by
  rw [← Expr.text?_eq_none_iff lim.digits ds, notConstant, Expr.shownText?]
  cases lim.prints e with
  | false => simp [ofMessage]
  | true => cases e.text? lim.digits ds <;> simp [ofMessage, eq_comm]

end

/-- The evaluation of an expression has a value or ends with an error, unless it gets past all
errors. A constant does so if and only if its evaluation meets a node that does by itself; nothing
else does, except that it holds an integer that is too long for the host, in a text that is short
enough to be shown. -/
theorem evaluateConstant_escapes_iff (lim : Limits) (ds : Declarations) (p : Precision) (e : Expr) :
    (∀ t, evaluateConstant lim ds p e = .error (.escape t) ↔
      (isConstant ds maxDepth e = true ∧ EscapesWithin lim ds p e t) ∨
      (isConstant ds maxDepth e = false ∧ t = .text ∧ lim.prints e = true ∧
        e.IsUnwritable lim.digits)) ∧
    ∀ f, evaluateConstant lim ds p e = .error f → (∃ t, f = .escape t) ∨ ∃ err, f = .error err := by
  unfold evaluateConstant
  cases h : isConstant ds maxDepth e with
  | false =>
    refine ⟨fun t => by simp [Failure.notConstant_eq_escape_iff], fun f hf => ?_⟩
    obtain rfl : Failure.notConstant lim ds e = f := by simpa using hf
    unfold Failure.notConstant
    cases e.shownText? lim ds with
    | none => exact .inl ⟨.text, rfl⟩
    | some text => exact .inr ⟨_, rfl⟩
  | true =>
    exact ⟨fun t => by simp [evaluate_eq_escape_iff h],
      fun f hf => escape_or_error_of_isConstant h hf⟩

namespace Literal

theorem positional_nines (n : Nat) : positional 10 (List.replicate n 9) + 1 = 10 ^ n := by
  induction n with
  | zero => rfl
  | succ n ih =>
    have nine : positional 10 [9] = 9 := by decide
    rw [List.replicate_succ', positional_append, nine, pow_succ, ← ih]
    simp; ring

def ninesAndHalf (n : Nat) : List Char := List.replicate n '9' ++ ['.', '5']

theorem readNumber?_ninesAndHalf {n : Nat} (few : n + 2 ≤ 999999999999999999) :
    ∃ c, readNumber? (ninesAndHalf (n + 1)) = some ⟨false, c, -1⟩ ∧ c + 5 = 10 ^ (n + 2) := by
  have five : positional 10 [5] = 5 := by decide
  have size : positional 10 (List.replicate (n + 1) 9 ++ [5]) + 5 = 10 ^ (n + 2) := by
    rw [positional_append, five, pow_succ, ← positional_nines (n + 1)]
    simp; ring
  generalize coeff : positional 10 (List.replicate (n + 1) 9 ++ [5]) = c at size
  have digits : digitCount c ≤ n + 2 := (digitCount_le_iff (by omega)).mpr (by omega)
  have held : (⟨false, c, -1⟩ : Decimal).isRepresentable = true := by
    simp only [Decimal.isRepresentable_iff, Decimal.adjusted]
    omega
  have nine : Text.decimalDigit? '9' = some 9 := by decide
  have nines : Digits Text.decimalDigit? (List.replicate (n + 1) '9') (List.replicate (n + 1) 9) :=
    List.forall₂_iff_get.mpr ⟨by simp, by simp [nine]⟩
  have half : Digits Text.decimalDigit? ['5'] [5] := .cons (by decide) .nil
  have numeral : Numeral (ninesAndHalf (n + 1)) ⟨false, c, -1⟩ := by
    rw [← coeff, positional_eq]
    simpa [ninesAndHalf] using Numeral.mk .none (.pointed nines half) (by simp) .none
  exact ⟨c, (readNumber?_of_numeral numeral).trans (if_pos held), size⟩

theorem overflows_ninesAndHalf (p : Precision) {n : Nat} (h : 999982 ≤ n)
    (few : n + 2 ≤ 999999999999999999) (spot : Int) :
    Overflows p
      { kind := .number, text := String.ofList (ninesAndHalf (n + 1)),
        unit := some "ether", spot } := by
  obtain ⟨c, read, hc⟩ := readNumber?_ninesAndHalf few
  have text : (withoutSeparators (String.ofList (ninesAndHalf (n + 1)))).toList =
    ninesAndHalf (n + 1) := by
    simp [withoutSeparators, ninesAndHalf]
  refine ⟨rfl, ⟨false, c, -1⟩, "ether", 10 ^ 18, by rw [text, read], rfl, rfl, ?_, ?_⟩
  · have odd : ¬10 ∣ c := by
      have : 10 ∣ 10 ^ (n + 2) := dvd_pow_self 10 (by omega)
      omega
    simpa [Decimal.isIntegral, ← Bool.not_eq_true, Decimal.dividesOut_iff] using odd
  · apply p.lt_leading_rounded (k := n + 18)
    · simp only [Precision.maxAdjusted]; omega
    · have large : 10 ^ (n + 1) ≤ c := by
        have : 10 ^ (n + 2) = 10 ^ (n + 1) * 10 := pow_succ 10 (n + 1)
        have : 10 ≤ 10 ^ (n + 1) := Nat.le_self_pow (by omega) 10
        omega
      have cast : ((10 ^ (n + 1) : Nat) : ℚ) ≤ c := by exact_mod_cast large
      have value : (⟨false, c, -1⟩ : Decimal).value * ((10 ^ 18 : Nat) : ℚ) = c * 10 ^ 17 := by
        simp only [Decimal.value, Decimal.magnitude, signOf_false]
        norm_num; ring
      rw [value, abs_of_nonneg (by positivity)]
      calc (10 : ℚ) ^ (n + 18 : ℤ) = (10 ^ (n + 1) : Nat) * 10 ^ 17 := by
            push_cast
            rw [← pow_add, ← zpow_natCast]
            congr 1
        _ ≤ c * 10 ^ 17 := by gcongr

end Literal

theorem evaluateConstant_literal (lim : Limits) (ds : Declarations) (p : Precision) (id : Nat)
    (l : Literal) :
    evaluateConstant lim ds p (.literal id l) =
      blamed (.literal id l) ((l.value p).mapError (Failure.ofStop lim)) := rfl

/-- A literal that overflows: nearly a million nines and a half. -/
theorem evaluateConstant_overflow :
    let host : Limits := ⟨some 4300, fun _ => true⟩
    let text := String.ofList (List.replicate 999983 '9' ++ ['.', '5'])
    evaluateConstant host #[] .standard (.number 0 text 0 (some "ether")) =
      .error (.escape (.signal .overflow)) := by
  intro host text
  have high := Literal.overflows_ninesAndHalf .standard (n := 999982) le_rfl (by decide) 0
  rw [Literal.ninesAndHalf] at high
  rw [Expr.number, evaluateConstant_literal, Literal.value_escapes_iff.mpr ⟨high, rfl⟩]
  rfl

end Comptime
