import Comptime.Value
import Comptime.Text.Quoted
/-!
Why a literal has no value, or an operator none for its operands.
-/
namespace Comptime

inductive Fault where
  | notANumber (v : Value)
  | malformedNumber (text : String)
  | unknownDenomination (unit : String)
  | unsupportedKind (kind : String)
  | unknownUnary (op : String) (v : Value)
  | unfitOperand (v : Value) (expected : String)
  | unknownBinary (op : String) (lhs rhs : Value)
  | notBooleans (op : String) (lhs rhs : Value)
  | comparedStrings (op : String) (lhs rhs : Value)
  | notIntegers (op : String) (lhs rhs : Value)
  | negativeShift (count : Int)
  | excessiveShift (count : Int)
  | divisionByZero (op : String) (lhs rhs : Extended)
  | stopped (op : String) (lhs rhs : Extended) (signal : Signal)
  | notFinite (op : String) (lhs rhs : Extended)
  | conditionNotBoolean (v : Value)
  deriving DecidableEq, Repr

def Signal.name : Signal → String
  | .invalidOperation => "InvalidOperation"
  | .divisionByZero => "DivisionByZero"
  | .overflow => "Overflow"

namespace Fault

def message? (limit : Option Nat) : Fault → Option String
  | .notANumber v => (v.render? limit).map fun text =>
    s!"Expected a number, not {v.typeName} {text}"
  | .malformedNumber text => some s!"Malformed number {Text.quoted text}"
  | .unknownDenomination unit => some s!"Unknown denomination {Text.quoted unit}"
  | .unsupportedKind kind => some s!"Unsupported literal kind {Text.quoted kind}"
  | .unknownUnary op v => (v.render? limit).map fun text => s!"Unable to process {op}{text}"
  | .unfitOperand v expected => (v.render? limit).map fun text =>
    s!"Expected {text} to be {expected}"
  | .unknownBinary op lhs rhs => both lhs rhs fun a b => s!"Unable to process {a} {op} {b}"
  | .notBooleans op lhs rhs => both lhs rhs fun a b => s!"{op} expects booleans, not {a} and {b}"
  | .comparedStrings op lhs rhs => both lhs rhs fun a b =>
    s!"{op} not allowed for strings {a} and {b}"
  | .notIntegers op lhs rhs => both lhs rhs fun a b => s!"{op} expects integers, not {a} and {b}"
  | .negativeShift count => (integerText? limit count).map fun text =>
    s!"Negative shift amount {text}"
  | .excessiveShift count => (integerText? limit count).map fun text =>
    s!"Shift amount too large: {text}"
  | .divisionByZero op lhs rhs => some s!"Division by zero in {lhs.text} {op} {rhs.text}"
  | .stopped op lhs rhs signal => some s!"Cannot compute {lhs.text} {op} {rhs.text} ({signal.name})"
  | .notFinite op lhs rhs => some s!"Cannot compute {lhs.text} {op} {rhs.text} (not finite)"
  | .conditionNotBoolean v =>
    (v.render? limit).map fun text => s!"Expected condition {text} to be a boolean"
where
  both (lhs rhs : Value) (message : String → String → String) : Option String :=
    match lhs.render? limit, rhs.render? limit with
    | some a, some b => some (message a b)
    | _, _ => none

end Fault

/-- What gets past all that handles errors: a signal of the decimal arithmetic, a precision beyond
what a context can be set to, or the text of an integer that the host does not write. -/
inductive Escape where
  | signal (s : Signal)
  | precision
  | text
  deriving DecidableEq, Repr

inductive Stop where
  | fault (f : Fault)
  | escape (e : Escape)
  deriving DecidableEq, Repr

end Comptime
