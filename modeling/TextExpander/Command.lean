import TextExpander.Command.Arguments
import TextExpander.Disk.System

/-!
# The command line

The program as a function of its arguments, its standard input and the disk that it works on. The
output file is emptied before anything is read, and what was written before a failure stays
written. A document that includes its own output file finds there what was handed on so far. The
output may also go to a device: back to standard output, to standard error, or nowhere.

## Main definitions

* `Command.Outcome`: what the program leaves behind.
* `Command.run`: the program.
-/

namespace TextExpander

namespace Command

/-- What the program leaves behind. -/
structure Outcome where
  /-- Its exit code. -/
  code : Nat
  /-- What it wrote to standard output. -/
  output : List UInt8 := []
  /-- What it wrote to standard error before it reported a failure. -/
  errors : List UInt8 := []
  /-- The failure that it reported. -/
  failure : Option Failure := none
  /-- The disk afterwards. -/
  disk : Disk

/-- All that the program wrote to standard error. -/
def Outcome.errorText (o : Outcome) : Text :=
  Utf8.decodeLossy o.errors ++
    match o.failure with
    | some failure => failure.report
    | none => []

/-- The version of the program, as it is shown. -/
def versionText : Text := "xpd 0.1.0\n".toList

/-- How the program is used, as it is shown. -/
def helpText : Text :=
  ("Expand macro calls to their definitions\n\n" ++
    "Usage: xpd [OPTIONS] [FILE]\n\n" ++
    "Options:\n" ++
    "  -o, --output <OUTPUT>\n" ++
    "      --max-include-depth <N>\n" ++
    "      --max-expansion-depth <N>\n" ++
    "      --allow-redefinition\n" ++
    "      --debug-tokenize\n" ++
    "      --debug-matched\n" ++
    "  -h, --help\n" ++
    "  -V, --version\n").toList

/-- The exit code after the work on a request. -/
def codeOf (failure : Option Failure) : Nat :=
  if failure.isSome then 1 else 0

/-- The output of the program before its work. It gathers 8 KiB before it hands them on, and where
it goes may refuse it. -/
def outputTo (device : Option Device) : Sink :=
  if device = some .full then { capacity := 8192, limit := some 0, reason := .noSpace }
  else { capacity := 8192 }

/-- The text of a file after what was done. The file that the output goes to holds what was handed
on, and standard input is empty once it was read. -/
def textAfter (disk : Disk) (output : Option Place) (trail : Trail) (path : Path) :
    Except FileFault Text :=
  match disk.locate path with
  | .error reason => .error reason
  | .ok place =>
    if disk.device? place = some .input ∧ trail.opened.any disk.isInput then .ok []
    else if output = some place then (disk.store place trail.sink.handedOn).text path
    else disk.text path

/-- Does what a request asks for, on a disk. -/
def runRequest (r : Request) (input : List UInt8) (disk : Disk) : Outcome :=
  let disk := { disk with input := if r.file.isNone then [] else input }
  match r.output with
  | none =>
    let (sink, failure) := r.perform (textAfter disk none) input (outputTo none)
    { code := codeOf failure, output := sink.bytes, failure, disk }
  | some path =>
    match disk.target path with
    | .error reason =>
      let failure := some (.output path reason)
      { code := codeOf failure, failure, disk }
    | .ok place =>
      let device := disk.device? place
      let emptied := (disk.withOpen place).store place #[]
      let textOf := textAfter emptied (some place)
      let (sink, failure) := r.perform textOf input (outputTo device)
      let code := codeOf failure
      match device with
      | some .output => { code, output := sink.bytes, failure, disk }
      | some .errors => { code, errors := sink.bytes, failure, disk }
      | _ => { code, failure, disk := disk.store place sink.accepted }

/-- The program: its arguments, its standard input, and the disk that it works on. -/
def run (arguments : List Text) (input : List UInt8) (disk : Disk) : Outcome :=
  match parse arguments with
  | .error _ => { code := 2, disk }
  | .ok .version => { code := 0, output := Utf8.encode versionText, disk }
  | .ok .help => { code := 0, output := Utf8.encode helpText, disk }
  | .ok (.work request) => runRequest request input disk

end Command

end TextExpander
