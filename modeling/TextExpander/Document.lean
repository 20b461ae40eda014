import TextExpander.Definition.Parser
import TextExpander.OpenFiles

/-!
# Documents

A document is read step by step. A line is an `include`, and the lines of the file come next; or it
begins a definition, which is read to its end; or it is text. Text that follows a definition on the
line of its end is a step of its own, and has the location of the line where the definition starts.

## Main definitions

* `Step`: what comes next in a document.
* `Cursor`: a place in a document.
* `Cursor.next?`: the next step, and the place after it.
-/

namespace TextExpander

/-- What comes next in a document. -/
inductive Step where
  /-- A line that includes a file. The lines of the file come next. -/
  | splice (named : Text) (location : Location)
  /-- A definition. -/
  | define (definition : Definition)
  /-- A line of text, or the rest of a line after a definition. -/
  | text (line : SourceLine)
  deriving DecidableEq, Repr

/-- A place in a document. -/
structure Cursor where
  /-- What is not read yet. -/
  files : OpenFiles
  /-- The text after a definition, which comes before the next line. -/
  queued : Option SourceLine := none
  deriving DecidableEq, Repr

namespace Cursor

/-- The next step of a document, and the place after it; `none` at the end. -/
def next? (read : Reader) (limit : Nat) (c : Cursor) : Except Error (Option (Step × Cursor)) :=
  match c.queued with
  | some line => .ok (some (.text line, { files := c.files }))
  | none =>
    match c.files.next? with
    | none => .ok none
    | some (line, files) =>
      match Directive.includePath? line.text with
      | some named =>
        match files.splice read limit line named with
        | .error e => .error e
        | .ok spliced => .ok (some (.splice named line.location, { files := spliced }))
      | none =>
        if Directive.startsDefinition line.text then
          match Definition.parse line files.innermost with
          | (.error e, _) => .error e
          | (.ok parsed, used) =>
            .ok (some (.define parsed.definition,
              ⟨files.skip used, parsed.trailing.map fun t => { line with text := t }⟩))
        else .ok (some (.text line, { files }))

end Cursor

end TextExpander
