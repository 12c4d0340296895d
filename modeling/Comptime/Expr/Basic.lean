import Comptime.Literal
/-!
Expressions, as a front end has built and resolved them. Every node has a number of its own, by
which errors tell it apart from others that look the same. Names refer to declarations by their
place in a table, so that initializers may refer to one another in any way, circles included.
-/
namespace Comptime

/-- A name or an operator where it stands in the source; spot zero is no place in particular. -/
structure Token where
  text : String
  spot : Int := 0
  deriving DecidableEq, Repr, Inhabited

inductive Target where
  | variable (index : Nat)
  | symbol (name : String)
  | unresolved
  deriving DecidableEq, Repr

inductive CallKind where
  | functionCall
  | typeConversion
  | structConstructorCall
  | other (name : String)
  deriving DecidableEq, Repr

def CallKind.ofName : String → CallKind
  | "functionCall" => .functionCall
  | "typeConversion" => .typeConversion
  | "structConstructorCall" => .structConstructorCall
  | name => .other name

structure Brackets where
  isArray : Bool := false
  openSpot : Int := 0
  closeSpot : Int := 0
  deriving DecidableEq, Repr

/-- What may stand where an expression is expected without being one: parts of the syntax that have
no value, and plain data. -/
inductive Foreign where
  | name (token : Token)
  | declaration (index : Nat)
  | symbol (token : Token)
  | featureless
  | integer (n : Int)
  | boolean (b : Bool)
  | string (s : String)
  deriving DecidableEq, Repr

/-- An expression; `missing` stands where there is none. -/
inductive Expr where
  | missing
  | literal (id : Nat) (literal : Literal)
  | unary (id : Nat) (op : Token) (arg : Expr)
  | binary (id : Nat) (lhs : Expr) (op : Token) (rhs : Expr)
  | tuple (id : Nat) (brackets : Brackets) (items : List Expr)
  | conditional (id : Nat) (test yes no : Expr)
  | lookup (id : Nat) (name : Token) (target : Target)
  | call (id : Nat) (kind : CallKind) (fn : Expr) (args : List Expr)
  | foreign (id : Nat) (it : Foreign)
  deriving Repr, Inhabited

structure Declaration where
  name : Token
  isConstant : Bool := true
  init : Expr := .missing
  deriving Repr, Inhabited

abbrev Declarations := Array Declaration

namespace Expr

def id? : Expr → Option Nat
  | .missing => none
  | .literal id _ | .unary id _ _ | .binary id _ _ _ | .tuple id _ _ | .conditional id _ _ _
  | .lookup id _ _ | .call id _ _ _ | .foreign id _ => some id

def isMissing : Expr → Bool
  | .missing => true
  | _ => false

def number (id : Nat) (text : String) (spot : Int) (unit : Option String) : Expr :=
  .literal id { kind := .number, text, spot, unit }

def truth (id : Nat) (b : Bool) (spot : Int) : Expr :=
  .literal id { kind := .bool, text := if b then "true" else "false", spot }

def conversion (id : Nat) (type : Token) (arg : Expr) : Expr :=
  .call id .typeConversion (.lookup id type .unresolved) [arg]

end Expr
end Comptime
