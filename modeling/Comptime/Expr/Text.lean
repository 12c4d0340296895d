import Comptime.Expr.Basic
/-!
Expressions as text, the way the source language writes them.
-/
namespace Comptime

def Declaration.text (d : Declaration) : String :=
  "\x7b" ++ (if d.isConstant then "constant " else "") ++ d.name.text ++ "\x7d"

namespace Foreign

def symbolText (name : String) : String := "\x7b" ++ name ++ ":TermSymbol\x7d"

def text? (limit : Option Nat) (ds : Declarations) : Foreign → Option String
  | .name t => some t.text
  | .declaration i => some ((ds[i]?.map (·.text)).getD "")
  | .symbol t => some (symbolText t.text)
  | .featureless => some ""
  | .integer n => integerText? limit n
  | .boolean b => some (if b then "True" else "False")
  | .string s => some s

def debugText? (limit : Option Nat) (ds : Declarations) : Foreign → Option String
  | .name t => some ("<Name " ++ Text.quoted t.text ++ ">")
  | it => it.text? limit ds

end Foreign

namespace Expr

mutual

/-- The text of an expression, if all integers in it can be written; where an expression is missing,
it says so. -/
def text? (limit : Option Nat) (ds : Declarations) : Expr → Option String
  | .missing => some "None"
  | .literal _ l => some l.source
  | .unary _ op arg => do
    let a ← text? limit ds arg
    return op.text ++ a
  | .binary _ lhs op rhs => do
    let a ← text? limit ds lhs
    let b ← text? limit ds rhs
    return a ++ " " ++ op.text ++ " " ++ b
  | .tuple _ b items => do
    let inner := ", ".intercalate (← itemTexts? limit ds items)
    return if b.isArray then "[" ++ inner ++ "]" else "(" ++ inner ++ ")"
  | .conditional _ test yes no => do
    let a ← text? limit ds test
    let b ← text? limit ds yes
    let c ← text? limit ds no
    return a ++ " ? " ++ b ++ " : " ++ c
  | .lookup _ name _ => some name.text
  | .call _ _ fn args => do
    let f ← text? limit ds fn
    let inner := ", ".intercalate (← argTexts? limit ds args)
    return f ++ "(" ++ inner ++ ")"
  | .foreign _ it => it.text? limit ds

def itemTexts? (limit : Option Nat) (ds : Declarations) : List Expr → Option (List String)
  | [] => some []
  | e :: rest => do
    let a ← if e.isMissing then some "" else text? limit ds e
    let more ← itemTexts? limit ds rest
    return a :: more

def argTexts? (limit : Option Nat) (ds : Declarations) : List Expr → Option (List String)
  | [] => some []
  | e :: rest => do
    let a ← text? limit ds e
    let more ← argTexts? limit ds rest
    return a :: more

end

def sortName : Expr → String
  | .missing => "NoneType"
  | .literal .. => "Literal"
  | .unary .. => "UnaryExp"
  | .binary .. => "BinExp"
  | .tuple .. => "TupleExp"
  | .conditional .. => "Cond"
  | .lookup .. => "Lookup"
  | .call .. => "Call"
  | .foreign _ (.name _) => "Nom"
  | .foreign _ (.declaration _) => "VariableDecl"
  | .foreign _ (.symbol _) => "TermSymbol"
  | .foreign _ .featureless => "ValueExpression"
  | .foreign _ (.integer _) => "int"
  | .foreign _ (.boolean _) => "bool"
  | .foreign _ (.string _) => "str"

end Expr

/-- What the host can write: integers of so many digits, any if the number is missing, and those
expressions that are not nested too deeply for it. -/
structure Limits where
  digits : Option Nat
  prints : Expr → Bool

def Expr.shownText? (lim : Limits) (ds : Declarations) (e : Expr) : Option String :=
  if lim.prints e then e.text? lim.digits ds
  else some ("<" ++ e.sortName ++ " nested too deeply to print>")

end Comptime
