import Comptime.Proofs.Decimal.Value
import Comptime.Proofs.Run

/-! Values in normal form: a number that is whole is an integer, and other numbers are finite
decimals. Whatever is evaluated has a value in normal form, and of a type that its literal or
operator alone decides. -/
namespace Comptime

/-- No decimal is whole, and none infinite or without a value. -/
def Value.IsNormal : Value → Prop
  | .decimal (.finite d) => d.isIntegral = false
  | .decimal _ => False
  | _ => True

inductive ValueType where
  | number
  | bool
  | string
  deriving DecidableEq, Repr

/-- Values in normal form by type. Numbers are integers or decimals, and truth values are none. -/
inductive Value.HasType : Value → ValueType → Prop where
  | int (n : Int) : HasType (.int n) .number
  | decimal {d : Decimal} (h : d.isIntegral = false) : HasType (.decimal (.finite d)) .number
  | bool (b : Bool) : HasType (.bool b) .bool
  | string (s : String) : HasType (.string s) .string

def LiteralKind.type : LiteralKind → ValueType
  | .bool => .bool
  | .number => .number
  | .string | .unicodeString | .hexString | .other _ => .string

def UnaryOp.resultType : UnaryOp → ValueType
  | .not => .bool
  | .complement | .plus | .minus => .number

def BinaryOp.resultType : BinaryOp → ValueType
  | .logical _ | .equality _ | .comparison _ => .bool
  | .arithmetic _ | .bitwise _ => .number

namespace Value

theorem isNormal_iff {v : Value} :
    v.IsNormal ↔ ∀ x, v = .decimal x → ∃ d, x = .finite d ∧ ∀ n : ℤ, d.value ≠ n := by
  cases v with
  | decimal x =>
    cases x with
    | finite d => simp [IsNormal, ← Bool.not_eq_true, Decimal.isIntegral_iff]
    | infinity | nan => simp [IsNormal]
  | _ => simp [IsNormal]

theorem IsNormal.exists_finite {v : Value} {x : Extended} (h : v.IsNormal)
    (hx : v.promote? = some x) :
    ∃ d, x = .finite d := by
  cases v with
  | int n => cases hx; exact ⟨_, rfl⟩
  | decimal y =>
    cases hx
    cases x with
    | finite d => exact ⟨d, rfl⟩
    | infinity | nan => exact h.elim
  | bool | string => cases hx

theorem HasType.isNormal {v : Value} {t : ValueType} (h : v.HasType t) : v.IsNormal := by
  cases h with
  | decimal h => exact h
  | _ => trivial

theorem hasType_demote (d : Decimal) : (demote d).HasType .number := by
  unfold demote
  split_ifs with h
  · exact .int _
  · exact .decimal (by simpa using h)

namespace IsNormal

theorem hasType_decimal {x : Extended} (h : (Value.decimal x).IsNormal) :
    (Value.decimal x).HasType .number := by
  cases x with
  | finite d => exact .decimal h
  | infinity | nan => exact h.elim

theorem negate {x : Extended} (h : (Value.decimal x).IsNormal) :
    (Value.decimal x.negate).IsNormal := by
  cases x with
  | finite d => exact h
  | infinity | nan => exact h.elim

end IsNormal
end Value

theorem mapError_eq_ok {E F V : Type} {g : E → F} {x : Except E V} {v : V} :
    x.mapError g = .ok v ↔ x = .ok v := by
  cases x <;> simp [Except.mapError]

theorem bind_eq_ok {F V W : Type} {x : Except F V} {f : V → Except F W} {w : W} :
    (x >>= f) = .ok w ↔ ∃ v, x = .ok v ∧ f v = .ok w := by
  cases x <;> simp [bind, Except.bind]

namespace Literal

variable {p : Precision} {v : Value}

theorem scaled_hasType {d : Decimal} {m : Nat} (h : scaled p d m = .ok v) : v.HasType .number := by
  unfold scaled at h
  split_ifs at h
  · cases h; exact .int _
  · split at h
    · cases h; exact Value.hasType_demote _
    · cases h

theorem evalNumber_hasType {text : String} {unit : Option String}
    (h : evalNumber p text unit = .ok v) :
    v.HasType .number := by
  unfold evalNumber at h
  split at h
  · cases h
  · split at h
    · cases h; exact Value.hasType_demote _
    · split at h
      · cases h
      · exact scaled_hasType h

theorem eval_hasType {kind : LiteralKind} {text : String} {unit : Option String}
    (h : eval p kind text unit = .ok v) : v.HasType kind.type := by
  cases kind with
  | bool => cases h; exact .bool _
  | string | unicodeString | hexString => cases h; exact .string _
  | number => exact evalNumber_hasType h
  | other name => cases h

end Literal

section
variable {p : Precision} {glyph : String} {a b v : Value}

theorem UnaryOp.result_hasType {op : UnaryOp} (ha : a.IsNormal) (h : op.result? a = some v) :
    v.HasType op.resultType := by
  cases op with
  | not => cases a <;> cases h; exact .bool _
  | complement => cases a <;> cases h; exact .int _
  | plus =>
    cases a with
    | int n => cases h; exact .int _
    | decimal x => cases h; exact ha.hasType_decimal
    | bool | string => cases h
  | minus =>
    cases a with
    | int n => cases h; exact .int _
    | decimal x => cases h; exact ha.negate.hasType_decimal
    | bool | string => cases h

theorem evalUnary_hasType (ha : a.IsNormal) (h : evalUnary glyph a = .ok v) :
    ∃ op, UnaryOp.ofGlyph? glyph = some op ∧ v.HasType op.resultType := by
  unfold evalUnary at h
  split at h
  · cases h
  · rename_i op hop
    refine ⟨op, hop, ?_⟩
    split at h
    · rename_i hr
      cases h
      exact UnaryOp.result_hasType ha hr
    · cases h

theorem evalArithmetic_hasType {op : ArithmeticOp} {x y : Extended}
    (h : evalArithmetic p op glyph x y = .ok v) : v.HasType .number := by
  unfold evalArithmetic at h
  split_ifs at h
  · cases h; exact .int _
  · split at h
    · cases h
    · split at h
      · cases h
      · cases h; exact Value.hasType_demote _
      · cases h

theorem evalBitwise_hasType {op : BitwiseOp} {m n : Int} (h : evalBitwise op m n = .ok v) :
    v.HasType .number := by
  cases op <;> simp only [evalBitwise] at h <;> (try split_ifs at h) <;> cases h <;> exact .int _

theorem evalComparison_hasType {op : ComparisonOp} (h : evalComparison op a b = .ok v) :
    v.HasType .bool := by
  unfold evalComparison at h
  split at h
  · cases h
  · split at h
    · cases h; exact .bool _
    · cases h

theorem evalBinary_hasType (h : evalBinary p glyph a b = .ok v) :
    ∃ op, BinaryOp.ofGlyph? glyph = some op ∧ v.HasType op.resultType := by
  unfold evalBinary at h
  cases hop : BinaryOp.ofGlyph? glyph with
  | none => simp [hop] at h
  | some op =>
    refine ⟨op, rfl, ?_⟩
    simp only [hop] at h
    cases op with
    | logical op =>
      simp only at h
      split at h
      · cases h; exact .bool _
      · cases h
    | equality op =>
      simp only at h
      split at h
      · cases h
      · cases h
      · split at h
        · cases h; exact .bool _
        · cases h
    | comparison op => exact evalComparison_hasType h
    | arithmetic op =>
      simp only at h
      split at h
      · cases h
      · exact evalArithmetic_hasType h
    | bitwise op =>
      simp only at h
      split at h
      · exact evalBitwise_hasType (mapError_eq_ok.mp h)
      · cases h

end

namespace Expr

variable {lim : Limits} {ds : Declarations} {p : Precision} {e : Expr} {v : Value}

section
variable {P : Value → Prop} (literal : ∀ l v, Literal.value p l = .ok v → P v)
  (unary : ∀ glyph a v, P a → evalUnary glyph a = .ok v → P v)
  (binary : ∀ glyph a b v, P a → P b → evalBinary p glyph a b = .ok v → P v)
include literal unary binary

/-- What holds of the values of literals and is kept by operators holds of all values. -/
theorem evaluateUsing_closed {follow : Nat → Except Failure Value}
    (inits : ∀ i v, follow i = .ok v → P v) (h : e.evaluateUsing lim ds p follow = .ok v) :
    P v := by
  fun_induction evaluateUsing lim ds p follow e generalizing v with
  | case1 id l => exact literal l v (mapError_eq_ok.mp (mapError_eq_ok.mp h))
  | case2 id op arg ih =>
    obtain ⟨a, ha, h⟩ := bind_eq_ok.mp (mapError_eq_ok.mp h)
    exact unary op.text a v (ih ha) (mapError_eq_ok.mp h)
  | case3 id lhs op rhs left right =>
    obtain ⟨a, ha, h⟩ := bind_eq_ok.mp (mapError_eq_ok.mp h)
    obtain ⟨b, hb, h⟩ := bind_eq_ok.mp h
    exact binary op.text a b v (left ha) (right hb) (mapError_eq_ok.mp h)
  | case6 id test yes no _ second third =>
    obtain ⟨a, -, h⟩ := bind_eq_ok.mp (mapError_eq_ok.mp h)
    obtain ⟨b, -, h⟩ := bind_eq_ok.mp h
    cases b with
    | true => exact second h
    | false => exact third h
  | case7 id name i => exact inits i v (mapError_eq_ok.mp h)
  | case4 id brackets item rest ih | case9 id fn item rest ih => exact ih (mapError_eq_ok.mp h)
  | case5 | case8 | case10 | case11 => cases h

theorem initializerValue_closed {budget i : Nat} (h : initializerValue lim ds p budget i = .ok v) :
    P v := by
  induction budget generalizing i v with
  | zero => cases h
  | succ budget ih =>
    unfold initializerValue at h
    split at h
    · cases h
    · exact evaluateUsing_closed literal unary binary (fun i v => ih) h

theorem evaluate_closed (h : evaluate lim ds p e = .ok v) : P v :=
  evaluateUsing_closed literal unary binary
    (fun _ _ => initializerValue_closed literal unary binary) h

end

theorem evaluate_normal (h : evaluate lim ds p e = .ok v) : v.IsNormal := by
  refine evaluate_closed (p := p) (fun l v h => (Literal.eval_hasType h).isNormal)
    (fun glyph a v ha h => ?_)
    (fun glyph a b v _ _ h => ?_) h
  · obtain ⟨_, -, type⟩ := evalUnary_hasType ha h
    exact type.isNormal
  · obtain ⟨_, -, type⟩ := evalBinary_hasType h
    exact type.isNormal

end Expr

theorem Run.IsRun.normal {lim : Limits} {ds : Declarations} {p : Precision} {r : Run Value Failure}
    (hr : r.IsRun (evaluation lim ds p) ds) {v : Value} (h : r.outcome = .ok v) : v.IsNormal :=
  Expr.evaluate_normal (hr.evaluate_eq.trans h)

/-- What an expression is evaluated to is in normal form, whether the expression is constant or not:
its numbers are integers, or else finite decimals that are not whole. Literals and binary operators
have results in normal form, the latter for all operands, and unary operators keep it. The type of a
result depends on the literal or operator alone, and no truth value counts as a number. -/
theorem evaluation_in_normal_form (p : Precision) :
    (∀ lim ds e v, evaluate lim ds p e = .ok v → v.IsNormal) ∧
    (∀ kind text unit v, Literal.eval p kind text unit = .ok v → v.HasType kind.type) ∧
    (∀ glyph a v, a.IsNormal → evalUnary glyph a = .ok v →
      ∃ op, UnaryOp.ofGlyph? glyph = some op ∧ v.HasType op.resultType) ∧
    (∀ glyph a b v, evalBinary p glyph a b = .ok v →
      ∃ op, BinaryOp.ofGlyph? glyph = some op ∧ v.HasType op.resultType) ∧
    (∀ v t, Value.HasType v t → v.IsNormal ∧ (t = .number ↔ v.isNumber = true)) ∧
    ∀ v, Value.IsNormal v ↔ ∀ x, v = .decimal x → ∃ d, x = .finite d ∧ ∀ n : ℤ, d.value ≠ n := by
  refine ⟨fun lim ds e v h => Expr.evaluate_normal h,
    fun kind text unit v h => Literal.eval_hasType h,
    fun glyph a v ha h => evalUnary_hasType ha h, fun glyph a b v h => evalBinary_hasType h, ?_,
    fun v => Value.isNormal_iff⟩
  intro v t h
  refine ⟨h.isNormal, ?_⟩
  cases h <;> simp [Value.isNumber]

/-- A fraction times two is a whole number, and so is one divided by infinity. -/
theorem evaluation_in_normal_form_product :
    let host : Limits := ⟨some 4300, fun _ => true⟩
    let product : Expr := .binary 2 (.number 0 "1.50" 0 none) ⟨"*", 0⟩ (.number 1 "2" 0 none)
    evaluate host #[] .standard product = .ok (.int 3) ∧ (Value.int 3).IsNormal ∧
      evalBinary .standard "/" (.int 1) (.decimal (.infinity false)) = .ok (.int 0) ∧
      (Value.int 0).IsNormal := by
  intro host product
  have three : evaluate host #[] .standard product = .ok (.int 3) := by rfl
  have zero : evalBinary .standard "/" (.int 1) (.decimal (.infinity false)) = .ok (.int 0) := by
    rfl
  obtain ⟨normal, -, -, binary, types, -⟩ := evaluation_in_normal_form .standard
  obtain ⟨op, -, type⟩ := binary _ _ _ _ zero
  exact ⟨three, normal _ _ _ _ three, zero, (types _ _ type).1⟩

end Comptime
