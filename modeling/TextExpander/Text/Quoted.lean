import TextExpander.Text.Unprintable

/-!
# Quoted text

A text between double quotes, on one line and in visible characters. The usual control characters
have a letter, a quote and a backslash are escaped, and every other character that would not show
is written by its code point in braces. Each character's form tells where it ends, so the text can
be read back.

## Main definitions

* `Text.quoteChar`: the form of one character.
* `Text.quote`: the form of a text.
* `Text.quotePieces`: the same in the pieces that are written one by one.

## Main results

* `Text.flatten_quotePieces`: the pieces make up the form of the text.
-/

namespace TextExpander

namespace Text

/-- A code point in lower case hexadecimal, without leading zeros. -/
def hexadecimal (n : Nat) : Text :=
  Nat.toDigits 16 n

/-- The form of one character inside double quotes. -/
def quoteChar (c : Char) : Text :=
  if c = '\t' then ['\\', 't']
  else if c = '\r' then ['\\', 'r']
  else if c = '\n' then ['\\', 'n']
  else if c = '\x00' then ['\\', '0']
  else if c = '"' then ['\\', '"']
  else if c = '\\' then ['\\', '\\']
  else if isUnprintable c then ['\\', 'u', '\x7b'] ++ hexadecimal c.toNat ++ ['\x7d']
  else [c]

/-- A text between double quotes. -/
def quote (t : Text) : Text :=
  '"' :: t.flatMap quoteChar ++ ['"']

/-! ### Pieces -/

/-- Puts a character in front of the pieces of what follows it. A character that stands for itself
joins the first piece; any other is a piece of its own. -/
def quoteBefore (c : Char) (pieces : List Text) : List Text :=
  if quoteChar c = [c] then
    match pieces with
    | [] => [[c]]
    | run :: rest => (c :: run) :: rest
  else [] :: quoteChar c :: pieces

/-- A text between double quotes in the pieces that are written one by one: the quotes, the runs of
characters that stand for themselves, and every other character by itself. -/
def quotePieces (t : Text) : List Text :=
  ['"'] :: t.foldr quoteBefore [[]] ++ [['"']]

theorem flatten_quoteBefore (c : Char) (pieces : List Text) :
    (quoteBefore c pieces).flatten = quoteChar c ++ pieces.flatten := by
  unfold quoteBefore
  split
  · next h => cases pieces <;> simp [h]
  · simp

theorem flatten_foldr_quoteBefore (t : Text) :
    (t.foldr quoteBefore [[]]).flatten = t.flatMap quoteChar := by
  induction t with
  | nil => rfl
  | cons c t ih => rw [List.foldr_cons, flatten_quoteBefore, ih, List.flatMap_cons]

@[simp]
theorem flatten_quotePieces (t : Text) : (quotePieces t).flatten = quote t := by
  simp [quotePieces, quote, flatten_foldr_quoteBefore]

end Text

end TextExpander
