import TextExpander.Document
import TextExpander.Sink

/-!
# Trails

What a run has done that its files can tell. The output may go to a file that the document includes,
and some files, such as standard input, can be read only once. So what a file holds is a matter of
what was written, and of which files were opened, before it is read.

## Main definitions

* `Trail`: the output so far, and the files opened so far.
* `Step.opened`: the file that a step of the document opens.
-/

namespace TextExpander

/-- What a run has done that its files can tell. -/
structure Trail where
  /-- The output. -/
  sink : Sink := {}
  /-- The files that were opened, the last one first. -/
  opened : List Path := []
  deriving DecidableEq, Repr

/-- The file that a step of the document opens, if it opens one. -/
def Step.opened : Step → List Path
  | .splice named location => [location.file.resolve named]
  | .define _ => []
  | .text _ => []

end TextExpander
