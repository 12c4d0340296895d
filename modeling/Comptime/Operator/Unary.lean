import Comptime.Bits
import Comptime.Fault
/-!
Unary operators. Each asks for operands of one type: booleans, integers or numbers.
-/
namespace Comptime

inductive UnaryOp where
  | not
  | complement
  | plus
  | minus
  deriving DecidableEq, Repr

namespace UnaryOp

def ofGlyph? : String → Option UnaryOp
  | "!" => some .not
  | "~" => some .complement
  | "+" => some .plus
  | "-" => some .minus
  | _ => none

def expected : UnaryOp → String
  | .not => "a boolean"
  | .complement => "an integer"
  | .plus | .minus => "an integer or a decimal"

def result? : UnaryOp → Value → Option Value
  | .not, .bool b => some (.bool !b)
  | .complement, .int n => some (.int (Bits.complement n))
  | .plus, .int n => some (.int n)
  | .plus, .decimal d => some (.decimal d)
  | .minus, .int n => some (.int (-n))
  | .minus, .decimal d => some (.decimal d.negate)
  | _, _ => none

end UnaryOp

def evalUnary (glyph : String) (v : Value) : Except Fault Value :=
  match UnaryOp.ofGlyph? glyph with
  | none => .error (.unknownUnary glyph v)
  | some op =>
    match op.result? v with
    | some r => .ok r
    | none => .error (.unfitOperand v op.expected)

end Comptime
