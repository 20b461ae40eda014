import TextExpander.Text.Space
import TextExpander.Text.WordChar

/-!
# Symbols

What the scanner reads. A character of a text is a symbol, and so is a cell of a half-expanded
text, which may hide its character. The scanner looks at a symbol only through the character that
it shows; so every scanning function below is written once, for any type of symbols, and what it
does depends on the shown characters alone.

## Main definitions

* `Symbol`: a type whose members show a character.
* `Symbol.chars`: the shown characters.
* `Symbol.trim`: a run of symbols without the white space at its ends.
-/

namespace TextExpander

/-- A type whose members show a character to the scanner. -/
class Symbol (α : Type) where
  /-- The character that the scanner sees. -/
  shown : α → Char

/-- A character shows itself. -/
instance : Symbol Char where
  shown := id

namespace Symbol

variable {α : Type} [Symbol α]

/-- The characters that a run of symbols shows. -/
def chars (xs : List α) : Text :=
  xs.map shown

/-- Whether a symbol belongs to a word. -/
def isWord (a : α) : Bool :=
  Text.isWordChar (shown a)

/-- Whether a symbol is white space. -/
def isSpace (a : α) : Bool :=
  Text.isSpace (shown a)

/-- Whether a run of symbols is empty or all white space. -/
def isBlank (xs : List α) : Bool :=
  xs.all isSpace

/-- A run of symbols without the white space that it ends with. -/
def trimRight (xs : List α) : List α :=
  (xs.reverse.dropWhile isSpace).reverse

/-- A run of symbols without the white space that it starts with. -/
def trimLeft (xs : List α) : List α :=
  xs.dropWhile isSpace

/-- A run of symbols without the white space at either end. -/
def trim (xs : List α) : List α :=
  trimLeft (trimRight xs)

/-! ### Positions -/

/-- The number of bytes that the shown characters take. -/
def byteLength (xs : List α) : Nat :=
  Text.byteLength (chars xs)

/-- What is left of a run of symbols after its first `n` bytes. -/
def dropBytes : (n : Nat) → List α → List α
  | 0, xs => xs
  | _ + 1, [] => []
  | n + 1, a :: rest => dropBytes (n + 1 - (shown a).utf8Size) rest

/-- The symbols in the first `n` bytes of a run. -/
def takeBytes : (n : Nat) → List α → List α
  | 0, _ => []
  | _ + 1, [] => []
  | n + 1, a :: rest => a :: takeBytes (n + 1 - (shown a).utf8Size) rest

end Symbol

end TextExpander
