import Comptime.Source.Index
/-!
The texts of sources. A text that was given with its path is taken as it is. Any other is read from
its file, line breaks becoming line feeds, and the five files used last are remembered as read.
-/
namespace Comptime

structure Files where
  entries : List (Path × String) := []
  deriving DecidableEq, Repr

namespace Files

def write (p : Path) (content : String) (f : Files) : Files := ⟨(p, content) :: f.entries⟩

def read? (f : Files) (p : Path) : Option String := f.entries.lookup p

end Files

structure ReadCache where
  entries : List (Path × String) := []
  deriving DecidableEq, Repr

namespace ReadCache

def capacity : Nat := 5

def find? (c : ReadCache) (p : Path) : Option String := c.entries.lookup p

/-- The cache after a use of a text: it comes first, and those beyond the capacity are dropped. -/
def use (p : Path) (text : String) (c : ReadCache) : ReadCache :=
  ⟨((p, text) :: c.entries.filter (·.1 ≠ p)).take capacity⟩

end ReadCache

structure Sources where
  index : SourceIndex := .initial
  files : Files := {}
  cache : ReadCache := {}
  deriving DecidableEq, Repr

namespace Sources

def withFeeds : List Char → List Char
  | [] => []
  | '\r' :: '\n' :: rest => '\n' :: withFeeds rest
  | c :: rest => (if c = '\r' then '\n' else c) :: withFeeds rest

def fetch (p : Path) (s : Sources) : Option String × Sources :=
  match s.index.knownText? p with
  | some text => (some text, s)
  | none =>
    match s.cache.find? p with
    | some text => (some text, { s with cache := s.cache.use p text })
    | none =>
      match s.files.read? p with
      | none => (none, s)
      | some content =>
        let text := String.ofList (withFeeds content.toList)
        (some text, { s with cache := s.cache.use p text })

/-- Forgets all segments, tokens and given texts. What was read stays remembered. -/
def reset (s : Sources) : Sources := { s with index := .initial }

end Sources
end Comptime
