/-!
Paths of sources, in a normal form: no empty parts, no parts that stay in place, and slashes only
between parts and at the root. Parts that lead upwards are kept.
-/
namespace Comptime

structure Path where
  text : String
  deriving DecidableEq, Repr

namespace Path

def pieces : List Char → List (List Char)
  | [] => [[]]
  | c :: rest =>
    if c = '/' then [] :: pieces rest
    else
      match pieces rest with
      | piece :: more => (c :: piece) :: more
      | [] => [[c]]

/-- The root of a path: exactly two slashes are a root of their own, any other number is one. -/
def root : List Char → List Char
  | '/' :: '/' :: '/' :: _ => ['/']
  | '/' :: '/' :: _ => ['/', '/']
  | '/' :: _ => ['/']
  | _ => []

def isProper (piece : List Char) : Bool := !piece.isEmpty && piece != ['.']

def normalize (cs : List Char) : List Char :=
  match root cs ++ ['/'].intercalate ((pieces cs).filter isProper) with
  | [] => ['.']
  | normal => normal

def ofText (s : String) : Path := ⟨String.ofList (normalize s.toList)⟩

end Path
end Comptime
