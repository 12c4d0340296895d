import Comptime.Bits
import Comptime.Fault
/-!
Binary operators come in five groups, and the group decides which operands are acceptable. Logical
and bitwise operators take them as they are, equality compares without promotion and refuses
strings, comparison and arithmetic promote both sides to decimals. Arithmetic results that are
whole become integers again.
-/
namespace Comptime

inductive LogicalOp where
  | and
  | or
  deriving DecidableEq, Repr

inductive EqualityOp where
  | eq
  | ne
  deriving DecidableEq, Repr

inductive ComparisonOp where
  | lt
  | le
  | gt
  | ge
  deriving DecidableEq, Repr

inductive ArithmeticOp where
  | add
  | sub
  | mul
  | div
  | rem
  | pow
  deriving DecidableEq, Repr

inductive BitwiseOp where
  | shiftLeft
  | shiftRight
  | or
  | and
  | xor
  deriving DecidableEq, Repr

inductive BinaryOp where
  | logical (op : LogicalOp)
  | equality (op : EqualityOp)
  | comparison (op : ComparisonOp)
  | arithmetic (op : ArithmeticOp)
  | bitwise (op : BitwiseOp)
  deriving DecidableEq, Repr

namespace BinaryOp

def ofGlyph? : String → Option BinaryOp
  | "&&" => some (.logical .and)
  | "||" => some (.logical .or)
  | "==" => some (.equality .eq)
  | "!=" => some (.equality .ne)
  | "<" => some (.comparison .lt)
  | "<=" => some (.comparison .le)
  | ">" => some (.comparison .gt)
  | ">=" => some (.comparison .ge)
  | "+" => some (.arithmetic .add)
  | "-" => some (.arithmetic .sub)
  | "*" => some (.arithmetic .mul)
  | "/" => some (.arithmetic .div)
  | "%" => some (.arithmetic .rem)
  | "**" => some (.arithmetic .pow)
  | "<<" => some (.bitwise .shiftLeft)
  | ">>" => some (.bitwise .shiftRight)
  | "|" => some (.bitwise .or)
  | "&" => some (.bitwise .and)
  | "^" => some (.bitwise .xor)
  | _ => none

def groupName : BinaryOp → String
  | .logical _ => "Logical"
  | .equality _ => "Equality"
  | .comparison _ => "Comparison"
  | .arithmetic _ => "Arithmetic"
  | .bitwise _ => "Bitwise"

end BinaryOp

def operatorGroup? (glyph : String) : Option String := (BinaryOp.ofGlyph? glyph).map (·.groupName)

def LogicalOp.apply : LogicalOp → Bool → Bool → Bool
  | .and, a, b => a && b
  | .or, a, b => a || b

/-- Whether two values are of one type and equal. Decimals are compared by value, which what signals
does not stand. -/
def Value.same? : Value → Value → Except Signal Bool
  | .decimal a, .decimal b =>
    if a.signals || b.signals then .error .invalidOperation else .ok (a.sameValue b)
  | .int a, .int b => .ok (a == b)
  | .bool a, .bool b => .ok (a == b)
  | .string a, .string b => .ok (a == b)
  | _, _ => .ok false

def ComparisonOp.holds : ComparisonOp → Ordering → Bool
  | .lt, o => o == .lt
  | .le, o => o != .gt
  | .gt, o => o == .gt
  | .ge, o => o != .lt

def ArithmeticOp.apply (p : Precision) : ArithmeticOp → Extended → Extended → Except Signal Extended
  | .add, a, b => a.add p b
  | .sub, a, b => a.sub p b
  | .mul, a, b => a.mul p b
  | .div, a, b => a.div p b
  | .rem, a, b => a.rem p b
  | .pow, a, b => a.power p b

def ArithmeticOp.divides : ArithmeticOp → Bool
  | .div | .rem => true
  | _ => false

/-- The precision that an operator works with, if a context can be set to it. A remainder needs the
whole quotient, however long that is. -/
def ArithmeticOp.workingPrecision? (p : Precision) (op : ArithmeticOp) (a b : Extended) :
    Option Precision :=
  match op with
  | .rem =>
    let w := Decimal.remainderPrecision p a.adjusted b.adjusted
    if w.digits ≤ Precision.greatest then some w else none
  | _ => some p

def evalArithmetic (p : Precision) (op : ArithmeticOp) (glyph : String) (a b : Extended) :
    Except Stop Value :=
  if op.divides && b.isZero then .error (.fault (.divisionByZero glyph a b))
  else if op == .pow && a.isZero && b.isZero then .ok (.int 1)
  else
    match op.workingPrecision? p a b with
    | none => .error (.escape .precision)
    | some w =>
      match op.apply w a b with
      | .error s => .error (.fault (.stopped glyph a b s))
      | .ok (.finite d) => .ok (Value.demote d)
      | .ok _ => .error (.fault (.notFinite glyph a b))

def maxShift : Int := 65536

def evalBitwise (op : BitwiseOp) (a b : Int) : Except Fault Value :=
  match op with
  | .or => .ok (.int (Bits.or a b))
  | .and => .ok (.int (Bits.and a b))
  | .xor => .ok (.int (Bits.xor a b))
  | .shiftLeft =>
    if b < 0 then .error (.negativeShift b)
    else if maxShift < b then .error (.excessiveShift b)
    else .ok (.int (Bits.shiftLeft a b.toNat))
  | .shiftRight =>
    if b < 0 then .error (.negativeShift b) else .ok (.int (Bits.shiftRight a b.toNat))

def promoteBoth (lhs rhs : Value) : Except Fault (Extended × Extended) :=
  match lhs.promote?, rhs.promote? with
  | none, _ => .error (.notANumber lhs)
  | _, none => .error (.notANumber rhs)
  | some a, some b => .ok (a, b)

def evalComparison (op : ComparisonOp) (lhs rhs : Value) : Except Stop Value :=
  match promoteBoth lhs rhs with
  | .error f => .error (.fault f)
  | .ok (a, b) =>
    match a.compare? b with
    | some o => .ok (.bool (op.holds o))
    | none => .error (.escape (.signal .invalidOperation))

def evalBinary (p : Precision) (glyph : String) (lhs rhs : Value) : Except Stop Value :=
  match BinaryOp.ofGlyph? glyph with
  | none => .error (.fault (.unknownBinary glyph lhs rhs))
  | some (.logical op) =>
    match lhs, rhs with
    | .bool a, .bool b => .ok (.bool (op.apply a b))
    | _, _ => .error (.fault (.notBooleans glyph lhs rhs))
  | some (.equality op) =>
    match lhs, rhs with
    | .string _, _ | _, .string _ => .error (.fault (.comparedStrings glyph lhs rhs))
    | _, _ =>
      match lhs.same? rhs with
      | .ok same => .ok (.bool (same == (op == .eq)))
      | .error s => .error (.escape (.signal s))
  | some (.comparison op) => evalComparison op lhs rhs
  | some (.arithmetic op) =>
    match promoteBoth lhs rhs with
    | .error f => .error (.fault f)
    | .ok (a, b) => evalArithmetic p op glyph a b
  | some (.bitwise op) =>
    match lhs, rhs with
    | .int a, .int b => (evalBitwise op a b).mapError .fault
    | _, _ => .error (.fault (.notIntegers glyph lhs rhs))

end Comptime
