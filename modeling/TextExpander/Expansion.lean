import TextExpander.Fragment
import TextExpander.Lexeme
import TextExpander.Outline
import TextExpander.Table

/-!
# Expansion

A call is replaced by what it stands for, from the left to the right and the arguments first: the
arguments are expanded, put into the body in place of the parameters, and the result is scanned
again. The built-in `glue` joins its expanded arguments instead, and what it makes is protected
from every later scan.

A limit bounds how deep calls nest. It is counted down: an expansion that has nothing left of it
may hold no call. The faults of a text are found in the order of its calls. For one call, first
the parenthesis that is never closed counts, then the limit, then the number of arguments, then
the arguments themselves.

## Main definitions

* `Expansion.substitute`: a body with values in place of its parameters.
* `Expansion.expandFragment`: expansion with a number of levels left.
* `expand`: expansion of a text.
* `hasOpenCall`: whether a text ends inside the arguments of a call.
-/

namespace TextExpander

namespace Expansion

/-- What a lexeme of a body becomes: the value of the first parameter that it names, or itself. -/
def substituteLexeme (bindings : List (Text × Fragment)) (l : Lexeme Char) : Fragment :=
  if l.isIdentifier then (bindings.lookup l.symbols).getD (Fragment.plain l.symbols)
  else Fragment.plain l.symbols

/-- The body of a definition with a value in the place of each parameter. The values themselves are
not searched. -/
def substitute (d : Definition) (values : List Fragment) : Fragment :=
  (Lexeme.split d.body).flatMap (substituteLexeme (d.parameters.zip values))

/-- Replaces the calls of an outline, given what a call with its enclosed text becomes. -/
def expandOutline (expandCall : Callee → Fragment → Except Fault Fragment) :
    Outline Cell Callee → Except Fault Fragment
  | .text rest => .ok rest
  | .unclosed _ callee _ => .error (.unbalanced (.call callee.name))
  | .call before callee inside next => do
    let value ← expandCall callee inside
    let rest ← expandOutline expandCall next
    return before ++ value ++ rest

/-- Expands a call, given how its arguments and the body with the values in it are expanded. -/
def expandCall (expandInner : Fragment → Except Fault Fragment) (callee : Callee)
    (inside : Fragment) : Except Fault Fragment :=
  let arguments := Parens.arguments inside
  match callee with
  | .glue => do
    let values ← arguments.mapM expandInner
    return Fragment.protect values.flatten
  | .user d =>
    if arguments.length = d.parameters.length then do
      let values ← arguments.mapM expandInner
      expandInner (substitute d values)
    else .error (.arityMismatch d.name d.parameters.length arguments.length)

/-- Expands a fragment with `levels` levels of calls left of the limit. -/
def expandFragment (table : Table) (limit : Nat) :
    (levels : Nat) → Fragment → Except Fault Fragment
  | 0, f =>
    expandOutline (fun callee _ => .error (.expansionTooDeep callee.name limit))
      (Outline.scan table.callee? f)
  | levels + 1, f =>
    expandOutline (expandCall (expandFragment table limit levels)) (Outline.scan table.callee? f)

end Expansion

/-- The text with all its calls expanded. -/
def expand (table : Table) (limit : Nat) (t : Text) : Except Fault Text :=
  (Expansion.expandFragment table limit limit (Fragment.plain t)).map Fragment.text

/-- Whether a text ends inside the arguments of a call, so that it cannot be expanded before more
of it is known. -/
def hasOpenCall (table : Table) (t : Text) : Bool :=
  (Outline.scan table.callee? t).isOpen

end TextExpander
