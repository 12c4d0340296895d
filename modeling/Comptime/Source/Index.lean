import Comptime.Source.Path
/-!
Which source each token comes from. Tokens are numbered in the order of their registration, and
each run of them between two starts of a segment belongs to the source of the earlier start. Token
zero is built in and comes from nowhere in particular.
-/
namespace Comptime

structure Slice where
  start : Int
  stop : Int
  deriving DecidableEq, Repr

structure Span where
  path : Option Path
  slice : Slice
  deriving DecidableEq, Repr

structure Segment where
  path : Option Path
  firstToken : Nat
  deriving DecidableEq, Repr

inductive IndexFault where
  | textWithoutPath
  | unknownToken
  | mixedSources
  deriving DecidableEq, Repr

/-- The segments and tokens so far, and the texts that came with their paths, latest first. -/
structure SourceIndex where
  segments : List Segment
  slices : List Slice
  texts : List (Path × String)
  deriving DecidableEq, Repr

/-- The element at a position, which counts from the end if it is negative. -/
def wrapped? (xs : List α) (i : Int) : Option α :=
  if 0 ≤ i then xs[i.toNat]?
  else if -(xs.length : Int) ≤ i then xs[(xs.length + i).toNat]?
  else none

namespace SourceIndex

def initial : SourceIndex := ⟨[⟨none, 0⟩], [⟨0, 0⟩], []⟩

/-- The tokens from here on belong to the given source. Its text may be given too, which takes a
path; if the path is lacking, the segment has started nevertheless. -/
def startSegment (path : Option Path) (text : Option String) (s : SourceIndex) :
    Except IndexFault Unit × SourceIndex :=
  let started := { s with segments := s.segments ++ [⟨path, s.slices.length⟩] }
  match text, path with
  | none, _ => (.ok (), started)
  | some _, none => (.error .textWithoutPath, started)
  | some t, some p => (.ok (), { started with texts := (p, t) :: s.texts })

def insertToken (slice : Slice) (s : SourceIndex) : Nat × SourceIndex :=
  (s.slices.length, { s with slices := s.slices ++ [slice] })

def segmentsUpTo (s : SourceIndex) (i : Int) : Nat :=
  s.segments.countP fun g => (g.firstToken : Int) ≤ i

def lookupToken (s : SourceIndex) (i : Int) : Except IndexFault Span :=
  match wrapped? s.segments (s.segmentsUpTo i - 1 : Int), wrapped? s.slices i with
  | some g, some slice => .ok ⟨g.path, slice⟩
  | _, _ => .error .unknownToken

def lookupSpan (s : SourceIndex) (first last : Int) : Except IndexFault Span := do
  let left ← s.lookupToken first
  let right ← s.lookupToken last
  if left.path = right.path then .ok ⟨left.path, ⟨left.slice.start, right.slice.stop⟩⟩
  else .error .mixedSources

def knownText? (s : SourceIndex) (p : Path) : Option String := s.texts.lookup p

end SourceIndex
end Comptime
