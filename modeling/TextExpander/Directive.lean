import TextExpander.Lexeme

/-!
# Directives

Two kinds of line are not text: `include "path"`, which stands for the lines of another file, and
a line that starts with `define`, which begins a definition. Between the parts of a directive only
spaces and tabs may stand. A keyword ends where its word ends.

## Main definitions

* `Directive.includePath?`: the path of an `include` line, with its escapes resolved.
* `Directive.startsDefinition`: whether a line starts with `define`.
* `Directive.header`: the name in a `define` line and what follows its opening parenthesis.
* `Directive.cutAtEnd?`: a text cut at its first `endmacro`.
-/

namespace TextExpander

namespace Directive

/-- The keyword of a line that names another file. -/
def includeKeyword : Text := "include".toList

/-- The keyword that begins a definition. -/
def defineKeyword : Text := "define".toList

/-- The keyword that ends a definition. -/
def endKeyword : Text := "endmacro".toList

/-- A space or a tab. -/
def isBlank (c : Char) : Bool :=
  c == ' ' || c == '\t'

/-- Whether the word that stands before a text goes on in it. -/
def startsWithWord (t : Text) : Bool :=
  t.head?.any Text.isWordChar

/-- What follows a keyword that is the first word of a line. -/
def afterKeyword? (keyword line : Text) : Option Text :=
  (keyword.isPrefixOf? (line.dropWhile isBlank)).filter fun rest => !startsWithWord rest

/-! ### Including a file -/

/-- The character that an escape stands for. -/
def unescape (c : Char) : Char :=
  if c = 'n' then '\n' else if c = 't' then '\t' else c

/-- Reads a path up to its closing quote. The result is the path, after the characters `passed`
that were read before (last first), and what follows the quote. -/
def readPath (passed : Text) : Text → Option (Text × Text)
  | [] => none
  | '"' :: rest => some (passed.reverse, rest)
  | ['\\'] => none
  | '\\' :: c :: rest => readPath (unescape c :: passed) rest
  | c :: rest => readPath (c :: passed) rest

/-- The path that an `include` line names; `none` if the line is no `include` line. -/
def includePath? (line : Text) : Option Text := do
  let rest ← afterKeyword? includeKeyword line
  match rest.dropWhile isBlank with
  | '"' :: quoted =>
    let (path, tail) ← readPath [] quoted
    if tail.all isBlank then some path else none
  | _ => none

/-! ### Beginning a definition -/

/-- Whether the first word of a line is `define`. -/
def startsDefinition (line : Text) : Bool :=
  (afterKeyword? defineKeyword line).isSome

/-- The part of a `define` line up to the parameter list. -/
structure Header where
  /-- The name that is defined. -/
  name : Text
  /-- What stands before the parenthesis that opens the parameter list. -/
  before : Text
  /-- What follows that parenthesis. -/
  after : Text
  deriving DecidableEq, Repr

/-- Why a line has no header. -/
inductive HeaderFault where
  /-- There is no name after `define`. -/
  | missingName
  /-- There is no parenthesis after the name. -/
  | missingParameters (name : Text)
  deriving DecidableEq, Repr

/-- The byte offset of the parenthesis that opens the parameter list. -/
def Header.opening (h : Header) : Nat :=
  Text.byteLength h.before

/-- The header of a line: blanks, `define`, at least one blank, an identifier, blanks and a
parenthesis. -/
def header (line : Text) : Except HeaderFault Header :=
  match afterKeyword? defineKeyword line with
  | none => .error .missingName
  | some rest =>
    let named := rest.dropWhile isBlank
    let name := named.takeWhile Text.isWordChar
    if (rest.head?.any isBlank) && Text.isIdentifier name then
      match (named.dropWhile Text.isWordChar).dropWhile isBlank with
      | '(' :: after => .ok ⟨name, line.take (line.length - (after.length + 1)), after⟩
      | _ => .error (.missingParameters name)
    else .error .missingName

/-! ### Ending a definition -/

/-- What stands before and after the first `endmacro` of a text, if there is one. -/
def cutAtEnd? (t : Text) : Option (Text × Text) :=
  Lexeme.cutAt endKeyword t

/-- The byte offsets where the first `endmacro` of a text starts and ends. -/
def endOffsets? (t : Text) : Option (Nat × Nat) :=
  (cutAtEnd? t).map fun (before, _) =>
    (Text.byteLength before, Text.byteLength before + Text.byteLength endKeyword)

end Directive

end TextExpander
