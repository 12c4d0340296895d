import Comptime.Expr.Text
/-!
Errors of evaluation and what they blame. Literals and operators raise them without a node; on the
way out the innermost node is supplied, and an error that blames a node keeps it.
-/
namespace Comptime

inductive ErrorKind where
  | evaluation
  | nonConstant
  deriving DecidableEq, Repr

/-- An error with its message and the node that it blames, which is missing if it blames none. -/
structure EvalError where
  kind : ErrorKind
  message : String
  blame : Expr := .missing
  deriving Repr

namespace EvalError

def isBlaming (e : EvalError) : Bool := !e.blame.isMissing

def blaming (node : Expr) (e : EvalError) : EvalError :=
  if e.isBlaming then e else { e with blame := node }

theorem blaming_of_isBlaming {e : EvalError} (h : e.isBlaming = true) (node : Expr) :
    e.blaming node = e := by
  simp [blaming, h]

end EvalError

/-- What ends an evaluation without a value: an error, something that gets past the handling of
errors, a part that is not there, or initializers that refer to one another without end. -/
inductive Failure where
  | error (e : EvalError)
  | escape (e : Escape)
  | noSuchPart
  | endless
  deriving Repr

namespace Failure

def ofMessage (kind : ErrorKind) (blame : Expr) : Option String → Failure
  | some message => .error { kind, message, blame }
  | none => .escape .text

def ofFault (lim : Limits) (f : Fault) : Failure :=
  ofMessage .evaluation .missing (f.message? lim.digits)

def ofStop (lim : Limits) : Stop → Failure
  | .fault f => ofFault lim f
  | .escape e => .escape e

def unevaluable (lim : Limits) (ds : Declarations) (e : Expr) : Failure :=
  ofMessage .evaluation e ((e.text? lim.digits ds).map
    ("Unable to evaluate constant expression " ++ ·))

def notConstant (lim : Limits) (ds : Declarations) (e : Expr) : Failure :=
  ofMessage .nonConstant e ((e.shownText? lim ds).map fun text =>
    "Found non-constant expression " ++ text ++ " during constant evaluation")

def blaming (node : Expr) : Failure → Failure
  | .error e => .error (e.blaming node)
  | f => f

end Failure

def blamed (node : Expr) (outcome : Except Failure α) : Except Failure α :=
  outcome.mapError (.blaming node)

end Comptime
