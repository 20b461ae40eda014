import TextExpander.Listing
import TextExpander.Run

/-!
# Requests

What can be asked for about a document: its expansion, or one of its listings, with limits and
policies. The work on a request reads files only through their text, so it is the same on a disk
that is a value and on a real one.

A failure is reported with its cause. Where the document itself is at fault, there is no other
cause than the fault.

## Main definitions

* `Request`, `View`: what is asked for.
* `Failure`, `Failure.report`: why it failed, and the wording.
* `Request.perform`: the work.
-/

namespace TextExpander

/-- What is shown of a document. -/
inductive View where
  /-- The document with its calls expanded. -/
  | expanded
  /-- The lexemes of its lines. -/
  | lexemes
  /-- Its steps. -/
  | steps
  deriving DecidableEq, Repr

/-- What the program is asked to do with a document. -/
structure Request where
  /-- The file with the document; standard input if there is none. -/
  file : Option Path
  /-- The file for the output; standard output if there is none. -/
  output : Option Path
  /-- The limits and policies. -/
  settings : Settings
  /-- What is shown. -/
  view : View
  deriving DecidableEq, Repr

/-! ### Failures -/

/-- Why a request failed. -/
inductive Failure where
  /-- The output file cannot be created. -/
  | output (path : Path) (reason : FileFault)
  /-- Standard input cannot be read. -/
  | input (reason : FileFault)
  /-- The file to be listed cannot be read. -/
  | source (path : Path) (reason : FileFault)
  /-- The work on the document failed. -/
  | work (error : Error)
  deriving DecidableEq, Repr

namespace Failure

/-- The wording of a failure. -/
def message : Failure → Text
  | output path _ => "cannot create ".toList ++ path.text
  | input _ => "cannot read standard input".toList
  | source path _ => "cannot read ".toList ++ path.text
  | work error => error.message

/-- The wording of its cause, if it has one. -/
def cause? : Failure → Option Text
  | output _ reason => some reason.message
  | input reason => some reason.message
  | source _ reason => some reason.message
  | work error => error.cause?

/-- A failure as the program reports it. -/
def report (f : Failure) : Text :=
  "Error: ".toList ++ f.message ++ ['\n'] ++
    match f.cause? with
    | some cause => "\nCaused by:\n    ".toList ++ cause ++ ['\n']
    | none => []

/-- The file that has to be fetched before anything can be said. -/
def unfetched? : Failure → Option Path
  | source path .notFetched => some path
  | work (.unreadable path .notFetched) => some path
  | work (.fault _ (.includeNotFound path .notFetched)) => some path
  | _ => none

end Failure

/-! ### The work -/

namespace Request

/-- The name of a document that comes from standard input. -/
def inputName : Path := ⟨"<stdin>".toList⟩

/-- Shows a document that is given as text. -/
def showSource (r : Request) (session : Session) (name : Path) (source : Text) (trail : Trail) :
    Sink × Option Error :=
  let files := OpenFiles.ofLines name (Text.lines source)
  match r.view with
  | .expanded => (session.runFiles files trail).2
  | .lexemes => Listing.writeLexemes name source trail.sink
  | .steps => Listing.writeSteps session.read r.settings.includeLimit files trail

/-- Does the work, given the text of each file, the bytes of standard input, and the output. -/
def perform (r : Request) (textOf : Trail → Path → Except FileFault Text) (input : List UInt8)
    (sink : Sink) : Sink × Option Failure :=
  let session : Session :=
    { read := fun trail path => (textOf trail path).map Text.lines, settings := r.settings }
  match r.file, r.view with
  | none, _ =>
    match Utf8.decode? input with
    | none => (sink, some (.input .notText))
    | some source => (r.showSource session inputName source { sink }).map id (Option.map .work)
  | some path, .expanded => (session.runFile path sink).2.map id (Option.map .work)
  | some path, _ =>
    match textOf { sink } path with
    | .error reason => (sink, some (.source path reason))
    | .ok source =>
      (r.showSource session path source { sink, opened := [path] }).map id (Option.map .work)

end Request

end TextExpander
