import Comptime.Fault
import Comptime.Literal.Number
import Comptime.Literal.Denomination
/-!
Literals and their values. Strings denote themselves, a hexadecimal string its decoded text where
that is known, and a number may carry a denomination that scales it.
-/
namespace Comptime

inductive LiteralKind where
  | bool
  | number
  | string
  | unicodeString
  | hexString
  | other (name : String)
  deriving DecidableEq, Repr

namespace LiteralKind

def ofName : String → LiteralKind
  | "bool" => .bool
  | "number" => .number
  | "string" => .string
  | "unicodeString" => .unicodeString
  | "hexString" => .hexString
  | name => .other name

end LiteralKind

/-- A literal where it stands in the source. The empty unit is none. -/
structure Literal where
  kind : LiteralKind
  text : String
  hex : Option String := none
  unit : Option String := none
  spot : Int := 0
  deriving DecidableEq, Repr

namespace Literal

def namedUnit? : Option String → Option String
  | some "" => none
  | unit => unit

/-- A number in units of the denomination. Integers are multiplied exactly, other numbers to the
precision. -/
def scaled (p : Precision) (d : Decimal) (multiplier : Nat) : Except Stop Value :=
  if d.isIntegral then .ok (.int (d.toInt * multiplier))
  else
    match d.mul p (.ofInt multiplier) with
    | .ok product => .ok (Value.demote product)
    | .error s => .error (.escape (.signal s))

def parseNumber (text : String) : Except Fault Decimal :=
  match readNumber? text.toList with
  | some d => .ok d
  | none => .error (.malformedNumber text)

def withoutSeparators (text : String) : String :=
  String.ofList (text.toList.filter (· ≠ '_'))

def evalNumber (p : Precision) (text : String) (unit : Option String) : Except Stop Value :=
  match parseNumber (withoutSeparators text) with
  | .error f => .error (.fault f)
  | .ok d =>
    match namedUnit? unit with
    | none => .ok (Value.demote d)
    | some name =>
      match multiplier? name with
      | none => .error (.fault (.unknownDenomination name))
      | some m => scaled p d m

def eval (p : Precision) (kind : LiteralKind) (text : String) (unit : Option String) :
    Except Stop Value :=
  match kind with
  | .bool => .ok (.bool (text == "true"))
  | .string | .unicodeString | .hexString => .ok (.string text)
  | .number => evalNumber p text unit
  | .other name => .error (.fault (.unsupportedKind name))

def meaning (l : Literal) : String :=
  if l.kind = .hexString then l.hex.getD l.text else l.text

def value (p : Precision) (l : Literal) : Except Stop Value := eval p l.kind l.meaning l.unit

def source (l : Literal) : String :=
  match l.kind with
  | .string => "\"" ++ l.text ++ "\""
  | .unicodeString => "unicode\"" ++ l.text ++ "\""
  | .hexString => "hex\"" ++ l.text ++ "\""
  | _ =>
    match namedUnit? l.unit with
    | some unit => l.text ++ " " ++ unit
    | none => l.text

end Literal
end Comptime
