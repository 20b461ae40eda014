import TextExpander.Symbol

/-!
# Lexemes

Text is cut into its maximal runs of word characters and its maximal runs of other characters.
A word that is an ASCII identifier can be a name; any other word is only a word, so that neither
`1foo` nor `fooé` holds a name.

The cut is `List.splitBy` on "both or neither are word symbols", and the kind of a run is read off
the run. Nothing is skipped: the runs concatenate to the text.

## Main definitions

* `Lexeme`: a run with its kind.
* `Lexeme.split`: the lexemes of a text, in order.
* `Lexeme.identifiers`: the identifiers among them.
* `Lexeme.locate`: the lexemes with the byte offsets where each starts and ends.
* `Lexeme.cutAt`: a text cut at its first identifier of a given name.
-/

namespace TextExpander

/-- What a run of symbols is. -/
inductive LexemeKind where
  /-- An ASCII identifier that is a whole word. -/
  | identifier
  /-- Any other word: a number, or a word with letters outside ASCII. -/
  | word
  /-- What stands between words. -/
  | other
  deriving DecidableEq, Repr

namespace LexemeKind

/-- The name of a kind in a listing. -/
def name : LexemeKind → Text
  | identifier => "Identifier".toList
  | word => "Word".toList
  | other => "Other".toList

end LexemeKind

/-- A run of symbols and its kind. -/
structure Lexeme (α : Type) where
  /-- What the run is. -/
  kind : LexemeKind
  /-- The symbols of the run. -/
  symbols : List α
  deriving DecidableEq, Repr

namespace Lexeme

variable {α : Type} [Symbol α]

/-- Whether two neighbours belong to one run. -/
def sameRun (a b : α) : Bool :=
  Symbol.isWord a == Symbol.isWord b

/-- The kind of a run, all of word symbols or all of others. -/
def kindOf (run : List α) : LexemeKind :=
  if Text.isIdentifier (Symbol.chars run) then .identifier
  else if run.any Symbol.isWord then .word
  else .other

/-- A run together with its kind. -/
def ofRun (run : List α) : Lexeme α :=
  ⟨kindOf run, run⟩

/-- The lexemes of a text, in order. -/
def split (xs : List α) : List (Lexeme α) :=
  (xs.splitBy sameRun).map ofRun

/-- The characters that a lexeme shows. -/
def chars (l : Lexeme α) : Text :=
  Symbol.chars l.symbols

/-- Whether a lexeme is an identifier. -/
def isIdentifier (l : Lexeme α) : Bool :=
  l.kind == .identifier

/-- Whether a lexeme is the identifier `name`. -/
def isNamed (name : Text) (l : Lexeme α) : Bool :=
  l.isIdentifier && l.chars == name

/-- The identifiers of a text, in order. -/
def identifiers (xs : List α) : List Text :=
  ((split xs).filter isIdentifier).map chars

/-- The symbols of several lexemes, in order. -/
def concat (ls : List (Lexeme α)) : List α :=
  ls.flatMap symbols

/-! ### Positions -/

/-- Lexemes with the byte offsets where each starts and ends, the first starting at `start`. -/
def locateFrom (start : Nat) : List (Lexeme α) → List (Lexeme α × Nat × Nat)
  | [] => []
  | l :: rest =>
    let stop := start + Symbol.byteLength l.symbols
    (l, start, stop) :: locateFrom stop rest

/-- The lexemes of a text with the byte offsets where each starts and ends. -/
def locate (xs : List α) : List (Lexeme α × Nat × Nat) :=
  locateFrom 0 (split xs)

/-! ### Cutting at a name -/

/-- What stands before and after the first identifier `name` of a text, if it has one. -/
def cutAt (name : Text) (xs : List α) : Option (List α × List α) :=
  match (split xs).span fun l => !l.isNamed name with
  | (_, []) => none
  | (before, _ :: after) => some (concat before, concat after)

end Lexeme

end TextExpander
