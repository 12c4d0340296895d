import Comptime.Expr.Span
import Comptime.Source.Illustration
import Comptime.Source.Reader
/-!
Marks show what a node covers in its source, with a caption. The source is looked up when the
mark is made, but its text is fetched only when the mark is shown.
-/
namespace Comptime

inductive MarkFault where
  | span (f : SpanFault)
  | index (f : IndexFault)
  | noSuchFile (p : Path)
  deriving DecidableEq, Repr

structure Mark where
  span : Span
  caption : String
  deriving DecidableEq, Repr

namespace Mark

def ofTokens (index : SourceIndex) (tokens : Except SpanFault (Int × Int)) (caption : String) :
    Except MarkFault Mark :=
  match tokens with
  | .error f => .error (.span f)
  | .ok (first, last) =>
    match index.lookupSpan first last with
    | .error f => .error (.index f)
    | .ok span => .ok ⟨span, caption⟩

def ofExpr (ds : Declarations) (index : SourceIndex) (e : Expr) (caption : String) :
    Except MarkFault Mark :=
  ofTokens index (e.span ds) caption

def illustrate (draw : Renderer) (a : Mark) (s : Sources) : Except MarkFault String × Sources :=
  match a.span.path with
  | none => (.ok (Illustration.builtIn a.caption), s)
  | some p =>
    match s.fetch p with
    | (some text, s) => (.ok (Illustration.ofSlice draw text a.span.slice a.caption), s)
    | (none, s) => (.error (.noSuchFile p), s)

end Mark
end Comptime
