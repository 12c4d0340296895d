import Comptime.Evaluation
import Comptime.Report
/-!
Folding evaluates every constant declaration of a batch. What cannot be folded is reported, and the
others are folded all the same, until the report stops the work.
-/
namespace Comptime

inductive FoldFault where
  | report (f : ReportFault)
  | evaluation (f : Failure)
  deriving Repr

structure Folding where
  report : Report
  values : List (Nat × Value) := []
  told : String := ""
  deriving Repr

namespace Folding

/-- Gives a declaration its value; one that has a value already keeps its place. -/
def setValue (i : Nat) (v : Value) : List (Nat × Value) → List (Nat × Value)
  | [] => [(i, v)]
  | (j, w) :: rest => if j = i then (i, v) :: rest else (j, w) :: setValue i v rest

def reported (outcome : Except ReportFault Unit × Report) (s : Folding) :
    Except FoldFault Unit × Folding :=
  (outcome.1.mapError .report, { s with report := outcome.2 })

/-- Folds a constant with an initializer. The value is written even if nothing is told. -/
def foldConstant (lim : Limits) (ds : Declarations) (p : Precision) (index : SourceIndex) (i : Nat)
    (d : Declaration) (s : Folding) : Except FoldFault Unit × Folding :=
  if !isConstant ds maxDepth d.init then
    s.reported (s.report.addNotConstant ds index d)
  else
    match evaluate lim ds p d.init with
    | .error (.error e) => s.reported (s.report.addFailed ds index (some d) e)
    | .error f => (.error (.evaluation f), s)
    | .ok v =>
      match v.render? lim.digits with
      | none => (.error (.evaluation (.escape .text)), s)
      | some text =>
        (.ok (), { s with
          values := setValue i v s.values
          told := s.told ++ s.report.told ["Folded", d.name.text, "=", text] })

def step (lim : Limits) (ds : Declarations) (p : Precision) (index : SourceIndex) (i : Nat)
    (s : Folding) : Except FoldFault Unit × Folding :=
  match ds[i]? with
  | none => (.ok (), s)
  | some d =>
    if d.isConstant && !d.init.isMissing then s.foldConstant lim ds p index i d else (.ok (), s)

def run (lim : Limits) (ds : Declarations) (p : Precision) (index : SourceIndex) :
    List Nat → Folding → Except FoldFault Unit × Folding
  | [], s => (.ok (), s)
  | i :: rest, s =>
    match s.step lim ds p index i with
    | (.ok _, s) => run lim ds p index rest s
    | (.error f, s) => (.error f, s)

end Folding

def foldConstants (lim : Limits) (ds : Declarations) (p : Precision) (index : SourceIndex)
    (batch : List Nat) (r : Report) : Except FoldFault Unit × Folding :=
  Folding.run lim ds p index batch { report := r }

end Comptime
