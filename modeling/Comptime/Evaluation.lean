import Comptime.Constancy
import Comptime.EvalError
import Comptime.Operator.Unary
import Comptime.Operator.Binary
/-!
The value of a constant expression. Both operands of a binary operator are evaluated, left to
right, but only the selected branch of a conditional. Parentheses, names and type conversions pass
a value through. An error blames the innermost node that it arose in.
-/
namespace Comptime

def conditionOf (lim : Limits) : Value → Except Failure Bool
  | .bool b => .ok b
  | v => .error (.ofFault lim (.conditionNotBoolean v))

def isInitialized (ds : Declarations) (i : Nat) : Bool :=
  match ds[i]? with
  | some d => !d.init.isMissing
  | none => false

namespace Expr

def evaluateUsing (lim : Limits) (ds : Declarations) (p : Precision)
    (follow : Nat → Except Failure Value) : Expr → Except Failure Value
  | e@(.literal _ l) => blamed e ((l.value p).mapError (.ofStop lim))
  | e@(.unary _ op arg) => blamed e do
    let v ← evaluateUsing lim ds p follow arg
    (evalUnary op.text v).mapError (.ofFault lim)
  | e@(.binary _ lhs op rhs) => blamed e do
    let a ← evaluateUsing lim ds p follow lhs
    let b ← evaluateUsing lim ds p follow rhs
    (evalBinary p op.text a b).mapError (.ofStop lim)
  | e@(.tuple _ _ (item :: _)) => blamed e (evaluateUsing lim ds p follow item)
  | .tuple _ _ [] => .error .noSuchPart
  | e@(.conditional _ test yes no) => blamed e do
    let v ← evaluateUsing lim ds p follow test
    let b ← conditionOf lim v
    if b then evaluateUsing lim ds p follow yes else evaluateUsing lim ds p follow no
  | e@(.lookup _ _ (.variable i)) =>
    if isInitialized ds i then blamed e (follow i) else .error (.unevaluable lim ds e)
  | e@(.call _ .typeConversion _ (arg :: _)) => blamed e (evaluateUsing lim ds p follow arg)
  | .call _ .typeConversion _ [] => .error .noSuchPart
  | e => .error (.unevaluable lim ds e)

end Expr

/-- The value of the initializer of a declaration. The budget counts the declarations that may
still be entered: one more than there are can only be met in a circle. -/
def initializerValue (lim : Limits) (ds : Declarations) (p : Precision) :
    Nat → Nat → Except Failure Value
  | 0, _ => .error .endless
  | budget + 1, i =>
    match ds[i]? with
    | none => .error .endless
    | some d => d.init.evaluateUsing lim ds p (initializerValue lim ds p budget)

def evaluate (lim : Limits) (ds : Declarations) (p : Precision) (e : Expr) : Except Failure Value :=
  e.evaluateUsing lim ds p (initializerValue lim ds p ds.size)

def evaluateConstant (lim : Limits) (ds : Declarations) (p : Precision) (e : Expr) :
    Except Failure Value :=
  if isConstant ds maxDepth e then evaluate lim ds p e else .error (.notConstant lim ds e)

end Comptime
