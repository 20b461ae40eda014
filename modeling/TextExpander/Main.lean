import TextExpander.Command

/-!
# The program

The command line on a real disk. The work is the pure `Request.perform`; this module only fetches
files and hands bytes on. The work starts with no file fetched. When it asks for one, the output so
far is written, the file is fetched, and the work starts over, until it asks for none. Files are
known by the order in which they are opened, since a file may have changed when it is opened again.

## Main definitions

* `Program.settle`: the work on a request, with its files fetched on demand.
* `main`: the program.
-/

namespace TextExpander

namespace Program

/-- The reason that the system gives for refusing a file. -/
def faultOf : IO.Error → FileFault
  | .noFileOrDirectory .. => .notFound
  | .inappropriateType _ code details =>
    if code = 21 then .isDirectory else if code = 20 then .notDirectory else .system details.toList
  | .invalidArgument _ code details =>
    if code = 36 then .nameTooLong else .system details.toList
  | .noSuchThing _ code details => if code = 6 then .noDevice else .system details.toList
  | e => .system (toString e).toList

/-- The text in a file of the system. -/
def fetch (path : Path) : IO (Except FileFault Text) := do
  if let some reason := Disk.refusal? path then return .error reason
  try
    let handle ← IO.FS.Handle.mk (String.ofList path.text) .read
    let bytes ← handle.readBinToEnd
    match Utf8.decode? bytes.toList with
    | some t => return .ok t
    | none => return .error .notText
  catch e => return .error (faultOf e)

/-- All that is left on a stream, after the bytes that were read before. -/
partial def readAll (stream : IO.FS.Stream) (before : ByteArray) : IO ByteArray := do
  let chunk ← stream.read 65536
  if chunk.isEmpty then return before else readAll stream (before ++ chunk)

/-- The reason that the system gives for not taking output. -/
def writeFaultOf : IO.Error → WriteFault
  | .resourceExhausted _ code details => if code = 28 then .noSpace else .system details.toList
  | e => .system (toString e).toList

/-- Writes bytes, and gives the failure to do so. -/
def attempt (write : ByteArray → IO Unit) (bytes : Array UInt8) : IO (Option Failure) := do
  try
    write ⟨bytes⟩
    return none
  catch e => return some (.work (.output (writeFaultOf e)))

/-- Does the work on a request, of whose output some bytes are `written`, and fetches the files that
it asks for, after those that are `known`. What was handed on during the work has to be taken before
the work can fail otherwise; what was held back until its end has not. -/
partial def settle (request : Request) (input : List UInt8) (write : ByteArray → IO Unit)
    (written : Nat) (known : Array (Except FileFault Text)) : IO (Option Failure) := do
  let textOf (trail : Trail) (_ : Path) : Except FileFault Text :=
    known.getD trail.opened.length (.error .notFetched)
  let (sink, failure) := request.perform textOf input (Command.outputTo none)
  if let some refused ← attempt write (sink.accepted.extract written sink.reach) then
    return some refused
  match failure.bind Failure.unfetched? with
  | some path => settle request input write sink.reach (known.push (← fetch path))
  | none =>
    let refused ← attempt write (sink.accepted.extract sink.reach sink.accepted.size)
    return failure <|> refused

/-- Reports a failure, if there is one, and gives the exit code. -/
def conclude (failure : Option Failure) : IO UInt32 := do
  if let some f := failure then IO.eprint (String.ofList f.report)
  return UInt32.ofNat (Command.codeOf failure)

/-- Does the work on a request and hands its output on. -/
def work (request : Request) (write : ByteArray → IO Unit) : IO UInt32 := do
  let input ← if request.file.isNone then readAll (← IO.getStdin) .empty else pure .empty
  conclude (← settle request input.toList write 0 #[])

/-- Creates the output file of a request, if it names one, and does the work. -/
def runRequest (request : Request) : IO UInt32 := do
  match request.output with
  | none =>
    work request fun bytes => do
      (← IO.getStdout).write bytes
      (← IO.getStdout).flush
  | some path =>
    let created ← (IO.FS.Handle.mk (String.ofList path.text) .write).toBaseIO
    match created with
    | .error e => conclude (some (.output path (faultOf e)))
    | .ok handle =>
      work request fun bytes => do
        handle.write bytes
        handle.flush

/-- Does what the arguments ask for. -/
def start (arguments : List Text) : IO UInt32 := do
  match Command.parse arguments with
  | .error misuse =>
    IO.eprintln ("error: " ++ String.ofList misuse.message)
    return 2
  | .ok .version =>
    IO.print (String.ofList Command.versionText)
    return 0
  | .ok .help =>
    IO.print (String.ofList Command.helpText)
    return 0
  | .ok (.work request) => runRequest request

end Program

end TextExpander

/-- The program. -/
def main (args : List String) : IO UInt32 :=
  TextExpander.Program.start (args.map String.toList)
