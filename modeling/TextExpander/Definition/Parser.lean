import TextExpander.Definition
import TextExpander.Directive
import TextExpander.Error
import TextExpander.Parens
import TextExpander.Table

/-!
# Reading a definition

A definition starts on a line with `define`, a name and a parameter list, and goes on to the first
`endmacro`, on that line or a later one of the same file. What stands between is its body, without
the white space at its ends. The body holds no directive. Text after the `endmacro` belongs to the
document again.

The reader takes the line of the header and the lines that follow in its file. It tells how many of
them it used, also when it fails: lines that were looked at are gone.

## Main definitions

* `Definition.signature`: the name and the parameters in a header.
* `Definition.readBody`: the parts of the body, and the text after its end.
* `Definition.parse`: the definition that starts on a line.
-/

namespace TextExpander

namespace Definition

/-- The names that no definition may have. -/
def reserved : List Text :=
  [Directive.defineKeyword, Directive.includeKeyword, Directive.endKeyword, glueName]

/-! ### The header -/

/-- The names of a parameter list, after the names `seen` (last first). Each must be an identifier
that was not seen before. -/
def checkParameters (seen : List Text) : List Text → Except Malformed (List Text)
  | [] => .ok seen.reverse
  | parameter :: rest =>
    if !Text.isIdentifier parameter then .error (.badParameter parameter)
    else if seen.contains parameter then .error (.repeatedParameter parameter)
    else checkParameters (parameter :: seen) rest

/-- The parameters of a definition, given what stands between its parentheses. -/
def parseParameters (list : Text) : Except Malformed (List Text) :=
  if Symbol.isBlank list then .ok []
  else checkParameters [] ((list.splitOn ',').map Symbol.trim)

/-- The name and the parameters in a header, and what follows the parameter list. -/
structure Signature where
  /-- The name that is defined. -/
  name : Text
  /-- Its parameters. -/
  parameters : List Text
  /-- What follows the parameter list. -/
  rest : Text
  deriving DecidableEq, Repr

/-- What is wrong with a line that has no header. -/
def malformedOfHeader : Directive.HeaderFault → Malformed
  | .missingName => .missingName
  | .missingParameters name => .missingParameters name

/-- The signature in the line of a header. -/
def signature (line : Text) : Except Fault Signature :=
  match Directive.header line with
  | .error reason => .error (.malformedHeader (malformedOfHeader reason))
  | .ok header =>
    if reserved.contains header.name then .error (.malformedHeader (.reserved header.name))
    else
      match Parens.close? header.after with
      | none => .error (.unbalanced (.parameters header.name))
      | some (list, rest) =>
        match parseParameters list with
        | .error reason => .error (.malformedHeader reason)
        | .ok parameters => .ok ⟨header.name, parameters, rest⟩

/-! ### The body -/

/-- The directive that a part of a body is, if it is one. -/
def nested? (part : Text) : Option Nested :=
  if (Directive.includePath? part).isSome then some .inclusion
  else if Directive.startsDefinition part then some .definition
  else none

/-- The parts of a body, line by line, and the text after its end. -/
structure Body where
  /-- The parts. -/
  parts : List Text
  /-- What follows the `endmacro` on its line. -/
  rest : Text
  deriving DecidableEq, Repr

/-- A part that is a directive is an error at its line. -/
def checkPart (name : Text) (here : Location) (part : Text) : Except Error Unit :=
  match nested? part with
  | some construct => .error (.fault here (.illegalNested construct name))
  | none => .ok ()

/-- Reads the body of the definition of `name` whose header stands at `home`, from the text
`segment` at `here` and the lines that follow it. The second result is the number of lines used. -/
def readBody (name : Text) (home here : Location) (segment : Text) (following : List SourceLine) :
    Except Error Body × Nat :=
  match Directive.cutAtEnd? segment with
  | some (part, rest) => ((checkPart name here part).map fun _ => ⟨[part], rest⟩, 0)
  | none =>
    match checkPart name here segment, following with
    | .error e, _ => (.error e, 0)
    | .ok _, [] => (.error (.fault home (.unterminated name)), 0)
    | .ok _, next :: following =>
      let (body, used) := readBody name home next.location next.text following
      (body.map fun b => { b with parts := segment :: b.parts }, used + 1)

/-! ### The definition -/

/-- A definition that was read. -/
structure Parsed where
  /-- The definition. -/
  definition : Definition
  /-- The text after its `endmacro`, if it is not blank. -/
  trailing : Option Text
  deriving DecidableEq, Repr

/-- Reads the definition that starts on the line `header`, from that line and those that follow it
in its file. The second result is the number of those lines that were used. -/
def parse (header : SourceLine) (following : List SourceLine) : Except Error Parsed × Nat :=
  match signature header.text with
  | .error what => (.error (.fault header.location what), 0)
  | .ok s =>
    let (body, used) := readBody s.name header.location header.location s.rest following
    (body.map fun b =>
      ⟨⟨s.name, s.parameters, Symbol.trim (Text.joinLines b.parts), header.location⟩,
        if Symbol.isBlank b.rest then none else some b.rest⟩, used)

end Definition

end TextExpander
