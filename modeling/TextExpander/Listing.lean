import TextExpander.Document.Termination
import TextExpander.Text.Quoted
import TextExpander.Trail

/-!
# Listings

Two ways to look at a document without expanding it. One lists the lexemes of every line of a
single file. The other lists the steps of the document: its includes, which are followed, its
definitions, and its text. Every item is a line of its own, with its location and its text quoted.

## Main definitions

* `Listing.lexemes`, `Listing.writeLexemes`: the lexemes of a source.
* `Step.item`, `Listing.writeSteps`: the steps of a document.
-/

namespace TextExpander

namespace Listing

/-- A line of a listing, in the pieces that are written one by one. -/
def item (location : Location) (what : List Text) : List Text :=
  location.pieces ++ what ++ [['\n']]

@[simp]
theorem flatten_item (location : Location) (what : List Text) :
    (item location what).flatten = location.render ++ what.flatten ++ ['\n'] := by
  simp [item]

/-! ### Lexemes -/

/-- The line of a listing for a lexeme. -/
def lexemeItem (location : Location) (l : Lexeme Char) : List Text :=
  item location (": ".toList :: l.kind.name :: [' '] :: Text.quotePieces l.symbols)

/-- The lexemes of every line of a source, in order. -/
def lexemes (name : Path) (source : Text) : List Text :=
  (SourceLine.number name 0 (Text.lines source)).flatMap fun line =>
    (Lexeme.split line.text).flatMap (lexemeItem line.location)

/-- Writes the lexemes of a source. -/
def writeLexemes (name : Path) (source : Text) (sink : Sink) : Sink × Option Error :=
  match sink.write (lexemes name source) with
  | (sink, some e) => (sink, some e)
  | (sink, none) => sink.flush

end Listing

/-! ### Steps -/

/-- A step as a listing shows it. -/
def Step.item : Step → List Text
  | .splice named location =>
    Listing.item location (": include ".toList :: Text.quotePieces named)
  | .define d =>
    Listing.item d.location (": define ".toList :: d.name :: ['('] ::
      ", ".toList.intercalate d.parameters :: ") ".toList :: Text.quotePieces d.body)
  | .text line => Listing.item line.location (": text ".toList :: Text.quotePieces line.text)

namespace Listing

/-- Writes one step of a document. -/
def writeStep : Trail → Step → Trail × Option Error
  | { sink, opened }, step =>
    let (sink, failure) := sink.write step.item
    ({ sink, opened := step.opened ++ opened }, failure)

/-- Writes the steps of a document, with what was done before it. -/
def writeSteps (read : Trail → Reader) (includeLimit : Nat) (files : OpenFiles) (trail : Trail) :
    Sink × Option Error :=
  match Cursor.feed read includeLimit writeStep { files } trail with
  | (trail, some e) => (trail.sink, some e)
  | (trail, none) => trail.sink.flush

end Listing

end TextExpander
