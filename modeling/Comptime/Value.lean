import Comptime.Decimal.Extended
/-!
What a constant expression can evaluate to. Numbers are integers whenever they are whole; other
numbers are decimals.
-/
namespace Comptime

inductive Value where
  | int (n : Int)
  | decimal (d : Extended)
  | bool (b : Bool)
  | string (s : String)
  deriving DecidableEq, Repr

namespace Value

def typeName : Value → String
  | .int _ => "integer"
  | .decimal _ => "decimal"
  | .bool _ => "boolean"
  | .string _ => "string"

def isInteger : Value → Bool
  | .int _ => true
  | _ => false

def isNumber : Value → Bool
  | .int _ | .decimal _ => true
  | _ => false

def render? (limit : Option Nat) : Value → Option String
  | .int n => integerText? limit n
  | .decimal d => some d.text
  | .bool b => some (if b then "true" else "false")
  | .string s => some ("\"" ++ s ++ "\"")

def demote (d : Decimal) : Value :=
  if d.isIntegral then .int d.toInt else .decimal (.finite d)

def promote? : Value → Option Extended
  | .int n => some (.finite (.ofInt n))
  | .decimal d => some d
  | _ => none

end Value
end Comptime
