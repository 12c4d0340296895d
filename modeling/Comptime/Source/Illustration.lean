import Comptime.Digits
import Comptime.Source.Index
/-!
A line of source with marks under a part of it and a caption. Where the line is and how it is drawn
is up to a renderer.
-/
namespace Comptime

/-- Finds the row and the column of an offset in a text, tells the text of a row, and draws a line
with so many marks from a column on, behind a label and with a caption. -/
structure Renderer where
  locate : String → Int → Int × Int
  line : String → Int → String
  picture : String → Int → Int → String → String → String

namespace Illustration

def rowNumber (row : Int) : String :=
  let text := (if row < 0 then '-' else ' ') :: numeral row.natAbs
  String.ofList (List.replicate (6 - text.length) ' ' ++ text)

def ofSlice (draw : Renderer) (content : String) (slice : Slice) (caption : String) : String :=
  let (row, column) := draw.locate content slice.start
  draw.picture (draw.line content row) column (slice.stop - slice.start)
    (rowNumber row ++ " |") caption

def builtIn (caption : String) : String := "  (built-in) " ++ caption

end Illustration
end Comptime
