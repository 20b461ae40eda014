import TextExpander.Path

/-!
# Where text comes from

A location is a line of a file. Every line of a document carries its location, and how many
`include` lines led to its file.

## Main definitions

* `Location`: a line of a file.
* `SourceLine`: a line of a document with its location and include depth.
* `SourceLine.number`: the lines of a file, numbered from one.
-/

namespace TextExpander

/-- A line of a file. -/
structure Location where
  /-- The file, as its path was spelled. -/
  file : Path
  /-- The number of the line, the first being one. -/
  line : Nat
  deriving DecidableEq, Repr

/-- A location as it is shown: file, colon, line. -/
def Location.render (l : Location) : Text :=
  l.file.text ++ ':' :: Text.decimal l.line

/-- A location in the pieces that are written one by one. -/
def Location.pieces (l : Location) : List Text :=
  [l.file.text, [':'], Text.decimal l.line]

@[simp]
theorem Location.flatten_pieces (l : Location) : l.pieces.flatten = l.render := by
  simp [pieces, render]

/-- A line of a document. -/
structure SourceLine where
  /-- The line, without its end. -/
  text : Text
  /-- Where it stands. -/
  location : Location
  /-- How many files include one another down to the file of the line: zero for the document. -/
  depth : Nat
  deriving DecidableEq, Repr

/-- The lines of a file that is read at an include depth, numbered from one. -/
def SourceLine.number (file : Path) (depth : Nat) (lines : List Text) : List SourceLine :=
  lines.mapIdx fun i text => ⟨text, ⟨file, i + 1⟩, depth⟩

end TextExpander
