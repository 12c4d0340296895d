import Comptime.Expr.Basic
/-!
The first and last token of an expression. Each node delegates to one of its tokens or children; a
declaration ends with its initializer.
-/
namespace Comptime

inductive SpanFault where
  | unplaced
  | notAPhrase
  | endless
  deriving DecidableEq, Repr

namespace Foreign

def left (ds : Declarations) : Foreign → Except SpanFault Int
  | .name t | .symbol t => .ok t.spot
  | .declaration i =>
    match ds[i]? with
    | some d => .ok d.name.spot
    | none => .error .notAPhrase
  | .featureless => .error .unplaced
  | .integer _ | .boolean _ | .string _ => .error .notAPhrase

def isVoid : Foreign → Bool
  | .integer n => n == 0
  | .boolean b => !b
  | .string s => s.isEmpty
  | _ => false

end Foreign

namespace Expr

def left (ds : Declarations) : Expr → Except SpanFault Int
  | .missing => .error .notAPhrase
  | .literal _ l => .ok l.spot
  | .unary _ op _ => .ok op.spot
  | .binary _ lhs _ _ => left ds lhs
  | .tuple _ b _ => .ok b.openSpot
  | .conditional _ test _ _ => left ds test
  | .lookup _ name _ => .ok name.spot
  | .call _ _ fn _ => left ds fn
  | .foreign _ it => it.left ds

mutual

def rightUsing (follow : Nat → Except SpanFault Int) : Expr → Except SpanFault Int
  | .missing => .error .notAPhrase
  | .literal _ l => .ok l.spot
  | .unary _ _ arg => rightUsing follow arg
  | .binary _ _ _ rhs => rightUsing follow rhs
  | .tuple _ b _ => .ok b.closeSpot
  | .conditional _ _ _ no => rightUsing follow no
  | .lookup _ name _ => .ok name.spot
  | .call _ _ fn args => if args.isEmpty then rightUsing follow fn else lastRightUsing follow args
  | .foreign _ (.declaration i) => follow i
  | .foreign _ (.name t) | .foreign _ (.symbol t) => .ok t.spot
  | .foreign _ .featureless => .error .unplaced
  | .foreign _ (.integer _) | .foreign _ (.boolean _) | .foreign _ (.string _) => .error .notAPhrase

def lastRightUsing (follow : Nat → Except SpanFault Int) : List Expr → Except SpanFault Int
  | [] => .error .notAPhrase
  | [e] => rightUsing follow e
  | _ :: rest => lastRightUsing follow rest

end

def isPhrase : Expr → Bool
  | .missing | .foreign _ (.integer _) | .foreign _ (.boolean _) | .foreign _ (.string _) => false
  | _ => true

/-- Whether an initializer counts as given: it is neither missing nor void data. -/
def isGiven : Expr → Bool
  | .missing => false
  | .foreign _ it => !it.isVoid
  | _ => true

end Expr

/-- The last token of a declaration: that of its initializer, or else its name. Declarations that
end with one another without end exhaust the budget. -/
def declarationRight (ds : Declarations) : Nat → Nat → Except SpanFault Int
  | 0, _ => .error .endless
  | budget + 1, i =>
    match ds[i]? with
    | none => .error .notAPhrase
    | some d =>
      if d.init.isGiven then d.init.rightUsing (declarationRight ds budget) else .ok d.name.spot

def Expr.right (ds : Declarations) (e : Expr) : Except SpanFault Int :=
  e.rightUsing (declarationRight ds ds.size)

def Expr.span (ds : Declarations) (e : Expr) : Except SpanFault (Int × Int) := do
  let first ← e.left ds
  let last ← e.right ds
  return (first, last)

def Declaration.span (ds : Declarations) (d : Declaration) : Except SpanFault (Int × Int) := do
  let last ← if d.init.isGiven then d.init.right ds else .ok d.name.spot
  return (d.name.spot, last)

def Expr.parenthesized (ds : Declarations) (id : Nat) (e : Expr) : Except SpanFault Expr := do
  let (openSpot, closeSpot) ← e.span ds
  return .tuple id { openSpot, closeSpot } [e]

end Comptime
