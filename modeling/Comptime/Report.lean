import Comptime.EvalError
import Comptime.Report.Mark
/-!
A report collects the issues found while declarations are folded, to show them all at once. It
stops the work at the moment when the number of issues reaches its limit.
-/
namespace Comptime

structure Issue where
  description : String
  marks : List Mark := []
  footer : List String := []
  deriving DecidableEq, Repr

def pathText (path : Option Path) : String := (path.map (·.text)).getD "None"

/-- The lines about some marks, behind one about the given path. The path is told where it
changes. -/
def drawMarks (draw : Renderer) :
    Option Path → List Mark → Sources → Except MarkFault (List String) × Sources
  | _, [], s => (.ok [], s)
  | path, a :: rest, s =>
    match a.illustrate draw s with
    | (.error f, s) => (.error f, s)
    | (.ok picture, s) =>
      match drawMarks draw a.span.path rest s with
      | (.error f, s) => (.error f, s)
      | (.ok more, s) =>
        let told := if a.span.path = path then [] else [pathText a.span.path]
        (.ok (told ++ picture :: more), s)

def Issue.text (draw : Renderer) (i : Issue) (s : Sources) : Except MarkFault String × Sources :=
  match drawMarks draw none i.marks s with
  | (.error f, s) => (.error f, s)
  | (.ok lines, s) => (.ok ("\n".intercalate ([i.description, ""] ++ lines ++ i.footer)), s)

structure Report where
  isVerbose : Bool := false
  limit : Option Int := some 10
  issues : List Issue := []
  deriving DecidableEq, Repr

inductive ReportFault where
  | tooManyIssues
  | mark (f : MarkFault)
  deriving DecidableEq, Repr

/-- What is exclaimed over the issues, as one choice from each of three lists. -/
structure Outburst where
  particle : Fin 5
  oath : Fin 10
  resignation : Fin 3
  deriving DecidableEq, Repr

namespace Outburst

def particles : Vector String 5 := #v["Oh, ", "Well, ", "Hmm. ", "", ""]

def oaths : Vector String 10 :=
  #v["Blast", "Botheration", "Crud", "Drat", "Fiddlesticks", "Good Grief", "Great Scott", "Heavens",
    "Nuts", "Rats"]

def resignations : Vector String 3 :=
  #v["Those constants do not add up.", "Some of this must wait for run-time.",
    "I cannot fold that."]

def text (o : Outburst) : String :=
  particles[o.particle] ++ oaths[o.oath] ++ "! " ++ resignations[o.resignation]

end Outburst

namespace Report

def isOk (r : Report) : Bool := r.issues.isEmpty

def count (r : Report) : Nat := r.issues.length

/-- Adds an issue, which is too many if the limit is reached thereby. -/
def add (i : Issue) (r : Report) : Except ReportFault Unit × Report :=
  let r := { r with issues := r.issues ++ [i] }
  (if r.limit = some (r.count : Int) then .error .tooManyIssues else .ok (), r)

def told (words : List String) (r : Report) : String :=
  if r.isVerbose then " ".intercalate words ++ "\n" else ""

def addMarked (description : String) (mark : Except MarkFault Mark) (r : Report) :
    Except ReportFault Unit × Report :=
  match mark with
  | .error f => (.error (.mark f), r)
  | .ok a => r.add { description, marks := [a] }

def addNotConstant (ds : Declarations) (index : SourceIndex) (d : Declaration) (r : Report) :
    Except ReportFault Unit × Report :=
  r.addMarked ("The initializer of constant '" ++ d.name.text ++
    "' cannot be worked out at compile-time.")
    (Mark.ofExpr ds index d.init "not a constant expression")

def addFailed (ds : Declarations) (index : SourceIndex) (d : Option Declaration) (e : EvalError)
    (r : Report) : Except ReportFault Unit × Report :=
  let description := match d with
    | none => "Constant evaluation failed."
    | some d => "Constant evaluation of '" ++ d.name.text ++ "' failed."
  if e.blame.isPhrase then r.addMarked description (Mark.ofExpr ds index e.blame e.message)
  else r.add { description, footer := [e.message] }

def complaintAbout (draw : Renderer) :
    List Issue → Sources → String × Except MarkFault Unit × Sources
  | [], s => ("", .ok (), s)
  | i :: rest, s =>
    let rule := String.join (List.replicate 20 "  -") ++ "\n"
    match i.text draw s with
    | (.error f, s) => (rule, .error f, s)
    | (.ok text, s) =>
      let (more, outcome, s) := complaintAbout draw rest s
      (rule ++ text ++ "\n" ++ more, outcome, s)

def complaint (draw : Renderer) (o : Outburst) (r : Report) (s : Sources) :
    String × Except MarkFault Unit × Sources :=
  if r.isOk then ("", .ok (), s)
  else
    let (text, outcome, s) := complaintAbout draw r.issues s
    (String.ofList (List.replicate 60 '*') ++ "\n" ++ o.text ++ "\n" ++ text, outcome, s)

end Report

inductive AssertionFault where
  | mark (f : MarkFault)
  | issues (message : String)
  deriving DecidableEq, Repr

/-- Asserts that there are no issues, and complains about them otherwise. The outburst of the error
is not that of the complaint. -/
def Report.assertNoIssues (draw : Renderer) (complaining failing : Outburst) (message : String)
    (r : Report) (s : Sources) : String × Except AssertionFault Unit × Sources :=
  if r.isOk then ("", .ok (), s)
  else
    match r.complaint draw complaining s with
    | (text, .error f, s) => (text, .error (.mark f), s)
    | (text, .ok _, s) => (text, .error (.issues (failing.text ++ " " ++ message)), s)

end Comptime
