import TextExpander.Location

/-!
# Definitions

What a name stands for: its parameters, and the text that a call of it is replaced by.

## Main definitions

* `Definition`: a name with its parameters and body.
* `Redefinition`: what to do about a name that is defined again.
-/

namespace TextExpander

/-- A name with its parameters and the text that it stands for. -/
structure Definition where
  /-- The name. -/
  name : Text
  /-- The names that stand for the arguments in the body. -/
  parameters : List Text
  /-- The text that a call stands for, before the arguments are put in. -/
  body : Text
  /-- The line with the keyword `define`. -/
  location : Location
  deriving DecidableEq, Repr

/-- What to do about a name that is defined again. -/
inductive Redefinition where
  /-- It is an error. -/
  | reject
  /-- The later definition takes the place of the earlier one. -/
  | replace
  deriving DecidableEq, Repr

end TextExpander
