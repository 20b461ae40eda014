import TextExpander.Document.Termination
import TextExpander.Expansion
import TextExpander.Trail

/-!
# Runs

A run reads a document to its end. Definitions go into the table; text is expanded and written,
line by line. A call may go on over several lines: as long as the text ends inside a call, the next
line of text is added to it, and all is expanded together once the call is closed. It is reported
at the line where it began. An error ends the run. What was defined and written before it stays.

## Main definitions

* `Settings`: the limits and policies of a run.
* `Progress`: what a run has done so far.
* `Progress.step`: what one step of the document adds.
* `runDocument`: a run from beginning to end.
* `Session`: runs over one set of files, with the table of the last run.
-/

namespace TextExpander

/-- The limits and policies of a run. -/
structure Settings where
  /-- How deep files may include one another below the document. -/
  includeLimit : Nat := 10
  /-- How deep calls may nest. -/
  expansionLimit : Nat := 10
  /-- What to do about a name that is defined again. -/
  redefinition : Redefinition := .reject
  deriving DecidableEq, Repr

/-- Text that ends inside a call and waits for more lines. -/
structure Pending where
  /-- The lines so far. -/
  text : Text
  /-- Where the first of them stands. -/
  location : Location
  deriving DecidableEq, Repr

/-- The text that waits, with a line added to it. -/
def Pending.add (pending : Option Pending) (line : SourceLine) : Pending :=
  match pending with
  | none => ⟨line.text, line.location⟩
  | some p => ⟨p.text ++ '\n' :: line.text, p.location⟩

/-- What a run has done so far. -/
structure Progress extends Trail where
  /-- The definitions. -/
  table : Table := .empty
  /-- The text that waits for the end of a call. -/
  pending : Option Pending := none

namespace Progress

/-- Expands a text and writes it as a line. -/
def emit (settings : Settings) (p : Progress) (ready : Pending) : Progress × Option Error :=
  match expand p.table settings.expansionLimit ready.text with
  | .error what => (p, some (.fault ready.location what))
  | .ok out =>
    let (sink, failure) := p.sink.write [out, ['\n']]
    ({ p with sink }, failure)

/-- Takes in a line of text. -/
def addText (settings : Settings) (p : Progress) (line : SourceLine) : Progress × Option Error :=
  if (Directive.cutAtEnd? line.text).isSome then (p, some (.fault line.location .unmatchedEnd))
  else
    let ready := Pending.add p.pending line
    if hasOpenCall p.table ready.text then ({ p with pending := some ready }, none)
    else emit settings { p with pending := none } ready

/-- Takes in one step of the document. -/
def step (settings : Settings) (p : Progress) : Step → Progress × Option Error
  | .splice named location =>
    ({ p with opened := Step.opened (.splice named location) ++ p.opened }, none)
  | .define d =>
    match p.table.define settings.redefinition d with
    | .ok table => ({ p with table }, none)
    | .error e => (p, some e)
  | .text line => p.addText settings line

/-- Hands on what was written. -/
def flush (p : Progress) : Progress × Option Error :=
  let (sink, failure) := p.sink.flush
  ({ p with sink }, failure)

/-- Ends a run. Text that still waits holds a call that is never closed, and expanding it says so.
-/
def finish (settings : Settings) (p : Progress) : Progress × Option Error :=
  match p.pending with
  | none => p.flush
  | some ready =>
    match emit settings { p with pending := none } ready with
    | (p, some e) => (p, some e)
    | (p, none) => p.flush

end Progress

/-- Runs a document, with what was done before it. The result is what was done, and the error that
ended the run early. -/
def runDocument (settings : Settings) (read : Trail → Reader) (files : OpenFiles)
    (trail : Trail) : Progress × Option Error :=
  match Cursor.feed (fun p => read p.toTrail) settings.includeLimit (Progress.step settings)
      { files } { toTrail := trail } with
  | (p, some e) => (p, some e)
  | (p, none) => p.finish settings

/-! ### Sessions -/

/-- Runs over one set of files. -/
structure Session where
  /-- The files, as they are after what was done. -/
  read : Trail → Reader
  /-- The limits and policies. -/
  settings : Settings := {}
  /-- The definitions of the last run that began. -/
  table : Table := .empty

namespace Session

/-- Runs a document in a session. -/
def runFiles (s : Session) (files : OpenFiles) (trail : Trail) : Session × Sink × Option Error :=
  let (p, failure) := runDocument s.settings s.read files trail
  ({ s with table := p.table }, p.sink, failure)

/-- Runs the document in a file. If the file cannot be read, no run begins. -/
def runFile (s : Session) (path : Path) (sink : Sink) : Session × Sink × Option Error :=
  match OpenFiles.ofFile (s.read { sink }) path with
  | .error e => (s, sink, some e)
  | .ok files => s.runFiles files { sink, opened := [path] }

/-- Runs a document that is given as text, under a name that its includes are relative to. -/
def runSource (s : Session) (name : Path) (source : Text) (sink : Sink) :
    Session × Sink × Option Error :=
  s.runFiles (OpenFiles.ofLines name (Text.lines source)) { sink }

/-- Runs a document that is given as text, and collects the output. A run that fails has no output.
-/
def expandSource (s : Session) (name : Path) (source : Text) : Session × Except Error Text :=
  match s.runSource name source {} with
  | (next, sink, none) => (next, .ok sink.text)
  | (next, _, some e) => (next, .error e)

end Session

end TextExpander
