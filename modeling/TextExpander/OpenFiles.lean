import TextExpander.Reader

/-!
# Open files

A document that is being read: the file itself and the files included in one another down to the
place where reading is. For each there are the lines not read yet. The innermost file is first; it
is read to its end before reading goes back to the file that includes it.

Lines are numbered and given their include depth when their file is opened, so a line always knows
where it stands.

## Main definitions

* `OpenFiles`: the unread lines of each open file.
* `OpenFiles.next?`: the next line of the document.
* `OpenFiles.nextInFile?`: the next line of the innermost file only.
* `OpenFiles.splice`: an included file put in front.
-/

namespace TextExpander

/-- The lines not read yet of each open file, the innermost file first. -/
abbrev OpenFiles := List (List SourceLine)

namespace OpenFiles

/-- A document of the given lines, of which nothing is read yet. -/
def ofLines (name : Path) (lines : List Text) : OpenFiles :=
  [SourceLine.number name 0 lines]

/-- The document in a file. -/
def ofFile (read : Reader) (path : Path) : Except Error OpenFiles :=
  match read path with
  | .ok lines => .ok (ofLines path lines)
  | .error reason => .error (.unreadable path reason)

/-- The next line of the document, and the document after it. Files that are read to their end are
left. -/
def next? : OpenFiles → Option (SourceLine × OpenFiles)
  | [] => none
  | [] :: outer => next? outer
  | (line :: lines) :: outer => some (line, lines :: outer)

/-- The next line of the innermost file, and the document after it; `none` at the end of that
file. -/
def nextInFile? : OpenFiles → Option (SourceLine × OpenFiles)
  | (line :: lines) :: outer => some (line, lines :: outer)
  | _ => none

/-- The lines not read yet of the innermost file. -/
def innermost : OpenFiles → List SourceLine
  | [] => []
  | lines :: _ => lines

/-- The document after the next `n` lines of the innermost file. -/
def skip (n : Nat) : OpenFiles → OpenFiles
  | [] => []
  | lines :: outer => lines.drop n :: outer

/-- The document with the file in front that the line `directive` names. It fails if the file would
be deeper than `limit`, and otherwise if the file cannot be read. -/
def splice (read : Reader) (limit : Nat) (directive : SourceLine) (named : Text)
    (files : OpenFiles) : Except Error OpenFiles :=
  let path := directive.location.file.resolve named
  let depth := directive.depth + 1
  if limit < depth then .error (.fault directive.location (.includeTooDeep path limit))
  else
    match read path with
    | .ok lines => .ok (SourceLine.number path depth lines :: files)
    | .error reason => .error (.fault directive.location (.includeNotFound path reason))

end OpenFiles

end TextExpander
