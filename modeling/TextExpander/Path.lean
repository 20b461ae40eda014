import TextExpander.Text.Basic

/-!
# Paths

A path is kept as it was spelled. Two spellings name the same file when their components agree:
repeated and trailing slashes and every `.` but a leading one do not count, while `..` does. The
directory of a path, and a path taken relative to it, are again spelled with what was written.

## Main definitions

* `Path`: a path as it was spelled.
* `Path.components`: what the spelling names, step by step.
* `Path.parent?`: the directory that a path lies in.
* `Path.resolve`: a path named in a file, relative to the directory of that file.
-/

namespace TextExpander

/-- A path, as it was spelled. -/
structure Path where
  /-- The spelling. -/
  text : Text
  deriving DecidableEq, Repr

/-- One step of a path. -/
inductive PathComponent where
  /-- The leading slash of an absolute path. -/
  | root
  /-- A leading `.`. -/
  | current
  /-- A `..`. -/
  | up
  /-- A name. -/
  | name (text : Text)
  deriving DecidableEq, Repr

namespace Path

/-- Whether a path starts at the root. -/
def isAbsolute (p : Path) : Bool :=
  p.text.head? == some '/'

/-- What a spelling starts with before its first piece: the slash of an absolute path, the dot of
a path that starts at the current directory, or nothing. -/
def lead (p : Path) : Text :=
  match p.text with
  | '/' :: _ => ['/']
  | ['.'] => ['.']
  | '.' :: '/' :: _ => ['.']
  | _ => []

/-- The pieces between slashes after the lead. -/
def pieces (p : Path) : List Text :=
  (p.text.drop p.lead.length).splitOn '/'

/-- Whether a piece between slashes does not count. -/
def isIdle (piece : Text) : Bool :=
  piece == [] || piece == ['.']

/-- The component that a piece stands for. -/
def componentOfPiece (piece : Text) : PathComponent :=
  if piece = ['.', '.'] then .up else .name piece

/-- The component that the lead stands for, if there is a lead. -/
def leadComponents (p : Path) : List PathComponent :=
  match p.lead with
  | ['/'] => [.root]
  | ['.'] => [.current]
  | _ => []

/-- What a path names, step by step. -/
def components (p : Path) : List PathComponent :=
  p.leadComponents ++ (p.pieces.filter fun piece => !isIdle piece).map componentOfPiece

/-- Whether two spellings name the same file. -/
def sameFile (p q : Path) : Bool :=
  p.components == q.components

/-- Pieces without those at the end that do not count. -/
def dropIdleEnd (pieces : List Text) : List Text :=
  (pieces.reverse.dropWhile isIdle).reverse

/-- The path without its last component, spelled as before; `none` for the root and for the empty
path, which have no last component to drop. -/
def parent? (p : Path) : Option Path :=
  match dropIdleEnd p.pieces with
  | [] => if p.lead = ['.'] then some ⟨[]⟩ else none
  | pieces => some ⟨p.lead ++ ['/'].intercalate (dropIdleEnd pieces.dropLast)⟩

/-- A relative path put behind a directory, with a slash between them where one is needed. -/
def join (dir : Path) (relative : Text) : Path :=
  if dir.text = [] ∨ dir.text.getLast? = some '/' then ⟨dir.text ++ relative⟩
  else ⟨dir.text ++ '/' :: relative⟩

/-- The path that `named` stands for in the file `p`: absolute paths stand for themselves, others
are relative to the directory of `p`. -/
def resolve (p : Path) (named : Text) : Path :=
  if isAbsolute ⟨named⟩ then ⟨named⟩
  else
    match p.parent? with
    | some dir => dir.join named
    | none => ⟨named⟩

end Path

end TextExpander
