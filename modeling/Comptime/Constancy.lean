import Comptime.Expr.Basic
/-!
Which expressions are constant. This looks at shapes only and evaluates nothing. A conditional
needs all three parts constant, and operators may be any: one that cannot apply to its operands is
an error of evaluation.
-/
namespace Comptime

def maxDepth : Int := 150

namespace Expr

/-- Whether an expression at the given depth is constant, given the answer for initializers of
declarations at the depth below a name. -/
def constantUsing (limit : Int) (follow : Nat → Int → Bool) : Int → Expr → Bool
  | _, .missing => false
  | depth, .literal .. => depth ≤ limit
  | depth, .unary _ _ arg => depth ≤ limit && constantUsing limit follow (depth + 1) arg
  | depth, .binary _ lhs _ rhs =>
    depth ≤ limit && constantUsing limit follow (depth + 1) lhs &&
      constantUsing limit follow (depth + 1) rhs
  | depth, .tuple _ b [item] =>
    depth ≤ limit && !b.isArray && constantUsing limit follow (depth + 1) item
  | _, .tuple .. => false
  | depth, .conditional _ test yes no =>
    depth ≤ limit && constantUsing limit follow (depth + 1) test &&
      constantUsing limit follow (depth + 1) yes && constantUsing limit follow (depth + 1) no
  | depth, .lookup _ _ (.variable i) => depth ≤ limit && follow i (depth + 1)
  | _, .lookup .. => false
  | depth, .call _ .typeConversion _ (arg :: _) =>
    depth ≤ limit && constantUsing limit follow (depth + 1) arg
  | _, .call .. => false
  | _, .foreign .. => false

end Expr

/-- Whether a declaration is constant and has a constant initializer. One that is pending refers to
itself and is not constant. The budget counts the declarations that are not pending yet. -/
def constantInitializer (ds : Declarations) (limit : Int) : Nat → List Nat → Nat → Int → Bool
  | 0, _, _, _ => false
  | budget + 1, pending, i, depth =>
    match ds[i]? with
    | none => false
    | some d =>
      d.isConstant && !pending.contains i &&
        d.init.constantUsing limit (constantInitializer ds limit budget (i :: pending)) depth

def isConstant (ds : Declarations) (limit : Int) (e : Expr) : Bool :=
  e.constantUsing limit (constantInitializer ds limit ds.size []) 0

end Comptime
