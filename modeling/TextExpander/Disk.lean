import TextExpander.Reader
import TextExpander.Text.Utf8

/-!
# Disks

The files of a system, as a value: what the command line works on. A path is walked piece by piece
from the working directory, or from the root. Every piece but the last must lead to a directory,
also if the next one is `.`, `..` or empty, so a path through a missing or plain file fails even if
its spelling leads out of it again. Names and paths are bounded, by their bytes. A link leads to
another place, and the walk goes on from there.

Some files are devices. They hold nothing of their own: what is written to them goes elsewhere, and
what is read from them comes from elsewhere.

## Main definitions

* `Disk`: files, directories, links and devices, and a working directory.
* `Disk.refusal?`: why a path is refused before it is walked.
* `Disk.locate`: the place that a path leads to.
* `Disk.bytes`, `Disk.text`, `Disk.reader`: the content of a file.
* `Disk.target`, `Disk.store`: the place for a file, and its new content.

## Main results

* `Disk.get?_put`: what a disk holds after an entry is put.
-/

namespace TextExpander

/-- A place on a disk: the names that lead to it from the root. -/
abbrev Place := List Text

/-- A file that holds nothing of its own. -/
inductive Device where
  /-- It is always empty, and takes all that is written. -/
  | null
  /-- It never ends, and takes all that is written. -/
  | endless
  /-- It never ends, and takes nothing that is written. -/
  | full
  /-- A terminal that is not there. -/
  | terminal
  /-- The running program, which is not text and cannot be written. -/
  | program
  /-- Standard input. -/
  | input
  /-- Standard output. -/
  | output
  /-- Standard error. -/
  | errors
  deriving DecidableEq, Repr

/-- What stands at a place. -/
inductive DiskEntry where
  /-- A directory. -/
  | directory
  /-- A file with its content. -/
  | file (content : Array UInt8)
  /-- A link to a place, which is not a link itself. -/
  | link (goal : Place)
  /-- A device. -/
  | device (kind : Device)
  deriving DecidableEq, Repr

/-- The files of a system. -/
structure Disk where
  /-- The entries, each with its place. A later entry counts before an earlier one of the same
  place. -/
  entries : List (Place × DiskEntry) := []
  /-- The working directory. -/
  here : Place := []
  /-- What can be read from standard input. -/
  input : List UInt8 := []
  deriving DecidableEq, Repr

namespace Disk

/-- The entry at a place. The root is a directory. -/
def get? (d : Disk) (place : Place) : Option DiskEntry :=
  if place = [] then some .directory
  else (d.entries.find? fun e => e.1 == place).map Prod.snd

/-- The disk with an entry in addition, or in the place of another. -/
def put (d : Disk) (place : Place) (entry : DiskEntry) : Disk :=
  { d with entries := (place, entry) :: d.entries }

/-- After an entry is put at a place, the place holds it, and all other places hold what they held
before. -/
theorem get?_put (d : Disk) (place : Place) (entry : DiskEntry) {q : Place} (hq : q ≠ []) :
    (d.put place entry).get? q = if q = place then some entry else d.get? q := by
  by_cases h : q = place
  · simp [put, get?, h ▸ hq, h]
  · simp [put, get?, hq, h, Ne.symm h]

/-- Whether a place is a directory. -/
def isDirectory (d : Disk) (place : Place) : Bool :=
  d.get? place == some .directory

/-- The device at a place, if there is one. -/
def device? (d : Disk) (place : Place) : Option Device :=
  match d.get? place with
  | some (.device kind) => some kind
  | _ => none

/-- The place itself, or the place that the link there leads to. -/
def follow (d : Disk) (place : Place) : Place :=
  match d.get? place with
  | some (.link goal) => goal
  | _ => place

/-! ### Walking a path -/

/-- The number of bytes in the longest name that a file or directory may have. -/
def longestName : Nat := 255

/-- The number of bytes in the longest path. -/
def longestPath : Nat := 4095

/-- Why a path is refused before it is walked. -/
def refusal? (path : Path) : Option FileFault :=
  if '\x00' ∈ path.text then some .nullInPath
  else if longestPath < Text.byteLength path.text then some .nameTooLong
  else if path.text = [] then some .notFound
  else none

/-- Whether the files in a directory are made by the system alone, which then bounds no names. -/
def isFixed (place : Place) : Bool :=
  place.head? == some "proc".toList

/-- Why a name that a directory does not hold is not found there. -/
def missing (directory : Place) (name : Text) : FileFault :=
  if longestName < Text.byteLength name ∧ ¬ isFixed directory then .nameTooLong else .notFound

/-- The place that a piece of a path leads to. -/
def enter (d : Disk) (place : Place) (piece : Text) : Except FileFault Place :=
  if !d.isDirectory place then .error .notDirectory
  else if Path.isIdle piece then .ok place
  else if piece = ['.', '.'] then .ok place.dropLast
  else if (d.get? (place ++ [piece])).isNone then .error (missing place piece)
  else .ok (d.follow (place ++ [piece]))

/-- The place that a path starts at. -/
def start (d : Disk) (path : Path) : Place :=
  if path.isAbsolute then [] else d.here

/-- The place that a path leads to. -/
def locate (d : Disk) (path : Path) : Except FileFault Place :=
  match refusal? path with
  | some reason => .error reason
  | none => (path.text.splitOn '/').foldlM d.enter (d.start path)

/-! ### Reading -/

/-- The content of a file. -/
def bytes (d : Disk) (path : Path) : Except FileFault (List UInt8) :=
  match d.locate path with
  | .error reason => .error reason
  | .ok place =>
    match d.get? place with
    | some (.file content) => .ok content.toList
    | some (.device .null) => .ok []
    | some (.device .input) => .ok d.input
    | some (.device .terminal) => .error .noDevice
    | some (.device .program) => .error .notText
    | some (.device _) => .error .endless
    | some .directory => .error .isDirectory
    | some (.link _) => .error .notFound
    | none => .error .notFound

/-- The text in a file. -/
def text (d : Disk) (path : Path) : Except FileFault Text :=
  match d.bytes path with
  | .error reason => .error reason
  | .ok bytes =>
    match Utf8.decode? bytes with
    | some t => .ok t
    | none => .error .notText

/-- A reader over the files of a disk. -/
def reader (d : Disk) : Reader := fun path =>
  (d.text path).map Text.lines

/-- Whether a path leads to standard input. -/
def isInput (d : Disk) (path : Path) : Bool :=
  match d.locate path with
  | .ok place => d.device? place == some .input
  | .error _ => false

/-! ### Writing -/

/-- The place for a file in a directory, which need not exist yet but must not be a directory. -/
def targetIn (d : Disk) (directory : Place) (name : Text) : Except FileFault Place :=
  match d.get? (d.follow (directory ++ [name])) with
  | some .directory => .error .isDirectory
  | some (.device .terminal) => .error .noDevice
  | some (.device .program) => .error .busy
  | some _ => .ok (d.follow (directory ++ [name]))
  | none =>
    if isFixed directory then .error .notFound
    else if longestName < Text.byteLength name then .error .nameTooLong
    else .ok (directory ++ [name])

/-- The place for a file at a path. A path that ends with a slash can only be that of a directory.
-/
def target (d : Disk) (path : Path) : Except FileFault Place :=
  match refusal? path with
  | some reason => .error reason
  | none =>
    let pieces := path.text.splitOn '/'
    match pieces.reverse.dropWhile List.isEmpty with
    | [] => .error .isDirectory
    | last :: above =>
      match above.reverse.foldlM d.enter (d.start path) with
      | .error reason => .error reason
      | .ok place =>
        if !d.isDirectory place then .error .notDirectory
        else if last = ['.'] ∨ last = ['.', '.'] ∨ pieces.getLast? = some [] then
          .error .isDirectory
        else d.targetIn place last

/-- The disk with a content in the file at a place. A device holds nothing. -/
def store (d : Disk) (place : Place) (content : Array UInt8) : Disk :=
  if (d.device? place).isSome then d else d.put place (.file content)

end Disk

end TextExpander
