import TextExpander.Error
import TextExpander.Text.Lines

/-!
# Readers

A reader gives the lines of a file, or the reason why it has none. The rest of the library knows
files only through a reader, so a document can be taken from a disk or from memory.

## Main definitions

* `Reader`: the lines of each file.
* `Reader.ofFiles`: a reader over files in memory.
-/

namespace TextExpander

/-- The lines of each file that can be read. -/
abbrev Reader := Path → Except FileFault (List Text)

/-- A reader over files in memory. A file is found under every spelling of its path, and of two
files of one path the later one counts. -/
def Reader.ofFiles (files : List (Path × Text)) : Reader := fun path =>
  match files.reverse.find? fun file => file.1.sameFile path with
  | some (_, content) => .ok (Text.lines content)
  | none => .error .absent

end TextExpander
