import Comptime.Proofs.Decimal.Arithmetic
import Comptime.Proofs.Run

/-! Evaluation with exact rational numbers. Literals and operators ask for operands of the same
types as those of the evaluation, and no number is ever rounded. -/
namespace Comptime

/-- What expressions ideally denote. -/
inductive Ideal where
  | number (q : ℚ)
  | bool (b : Bool)
  | string (s : String)
  deriving DecidableEq

def whole? (q : ℚ) : Option ℤ := if (⌊q⌋ : ℚ) = q then some ⌊q⌋ else none

theorem whole?_eq_some_iff {q : ℚ} {n : ℤ} : whole? q = some n ↔ q = n := by
  unfold whole?
  constructor
  · intro h
    split_ifs at h with hq
    cases h
    exact hq.symm
  · intro same
    subst same
    simp

@[simp] theorem whole?_intCast (n : ℤ) : whole? n = some n := whole?_eq_some_iff.mpr rfl

theorem whole?_eq_none_iff {q : ℚ} : whole? q = none ↔ ∀ n : ℤ, q ≠ n := by
  rw [Option.eq_none_iff_forall_ne_some]
  exact forall_congr' fun n => whole?_eq_some_iff.not

namespace ArithmeticOp

/-- A power with a whole exponent. Zero to the power of zero is one, and zero has no inverse. -/
def idealPower? (x y : ℚ) : Option ℚ :=
  (whole? y).bind fun n => if x = 0 ∧ n < 0 then none else some (x ^ n)

@[simp] theorem idealPower?_intCast (x : ℚ) (n : ℤ) :
    idealPower? x n = if x = 0 ∧ n < 0 then none else some (x ^ n) := by
  simp [idealPower?]

def ideal? (x y : ℚ) : ArithmeticOp → Option ℚ
  | .add => some (x + y)
  | .sub => some (x - y)
  | .mul => some (x * y)
  | .div => if y = 0 then none else some (x / y)
  | .rem => if y = 0 then none else some (remainder x y)
  | .pow => idealPower? x y

end ArithmeticOp

def ComparisonOp.compares (x y : ℚ) : ComparisonOp → Bool
  | .lt => x < y
  | .le => x ≤ y
  | .gt => y < x
  | .ge => y ≤ x

def BitwiseOp.ideal? (a b : ℤ) : BitwiseOp → Option ℤ
  | .or => some (a.lor b)
  | .and => some (a.land b)
  | .xor => some (a.xor b)
  | .shiftLeft => if b < 0 then none else some (a * 2 ^ b.toNat)
  | .shiftRight => if b < 0 then none else some (a / 2 ^ b.toNat)

namespace Ideal

def scale? (unit : Option String) : Option Nat :=
  match Literal.namedUnit? unit with
  | none => some 1
  | some name => Literal.multiplier? name

/-- The number that a text denotes, times the denomination. -/
def number? (text : String) (unit : Option String) : Option ℚ :=
  (Literal.readNumber? (Literal.withoutSeparators text).toList).bind fun d =>
    (scale? unit).map fun m : Nat => d.value * m

def literal? (l : Literal) : Option Ideal :=
  match l.kind with
  | .bool => some (.bool (l.text == "true"))
  | .string | .unicodeString => some (.string l.text)
  | .hexString => some (.string (l.hex.getD l.text))
  | .number => (number? l.text l.unit).map .number
  | .other _ => none

def unary? : UnaryOp → Ideal → Option Ideal
  | .not, .bool b => some (.bool !b)
  | .complement, .number q => (whole? q).map fun n => .number (-n - 1 : ℤ)
  | .plus, .number q => some (.number q)
  | .minus, .number q => some (.number (-q))
  | _, _ => none

def equal? : Ideal → Ideal → Option Bool
  | .string _, _ | _, .string _ => none
  | a, b => some (a = b)

def binary? : BinaryOp → Ideal → Ideal → Option Ideal
  | .logical op, .bool a, .bool b => some (.bool (op.apply a b))
  | .equality op, a, b => (equal? a b).map fun same => .bool (same == (op == .eq))
  | .comparison op, .number x, .number y => some (.bool (op.compares x y))
  | .arithmetic op, .number x, .number y => (op.ideal? x y).map .number
  | .bitwise op, .number x, .number y =>
    (whole? x).bind fun a => (whole? y).bind fun b => (op.ideal? a b).map fun n => .number n
  | _, _, _ => none

def orFail {V : Type} : Option V → Except Unit V
  | some v => .ok v
  | none => .error ()

/-- The ideal meaning of expressions. -/
def meaning : Meaning Ideal Unit where
  literal l := orFail (literal? l)
  unary glyph a := orFail ((UnaryOp.ofGlyph? glyph).bind (unary? · a))
  binary glyph a b := orFail ((BinaryOp.ofGlyph? glyph).bind (binary? · a b))
  condition
    | .bool b => .ok b
    | _ => .error ()
  unevaluable _ := ()
  noSuchPart := ()
  blaming _ := id

end Ideal
end Comptime
