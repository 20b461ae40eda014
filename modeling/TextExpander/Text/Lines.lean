import TextExpander.Text.Basic

/-!
# Lines

A line ends with a line feed, or with a carriage return and a line feed. The last line may lack
its end; it then keeps a carriage return that it ends with. Nothing after the last line end is no
line.

## Main definitions

* `Text.lines`: the lines of a text, without their ends.
-/

namespace TextExpander

namespace Text

/-- A text without the carriage return that it ends with, if it ends with one. -/
def dropReturn (t : Text) : Text :=
  if t.getLast? = some '\r' then t.dropLast else t

/-- The lines, given the pieces that the line feeds cut a text into: all but the last piece were
ended by a line feed. -/
def linesOfPieces : List Text → List Text
  | [] => []
  | [last] => if last.isEmpty then [] else [last]
  | piece :: next :: rest => dropReturn piece :: linesOfPieces (next :: rest)

/-- The lines of a text, without their ends. -/
def lines (t : Text) : List Text :=
  linesOfPieces (t.splitOn '\n')

end Text

end TextExpander
