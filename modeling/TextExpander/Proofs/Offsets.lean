import TextExpander.Expansion
import TextExpander.Text.Utf8

/-!
# Expansion by offsets

Expansion once more, with positions as numbers. A fragment is kept as two texts, what stands there
and what the scanner sees. Offsets count bytes; they are found in the second text and used to cut
both. What can go wrong with numbers is checked where it could happen: a cut must be in order,
within bounds and between characters of the text that is cut, a closing parenthesis is looked for
only where an opening one stands, a parameter must have a value, and no subtraction may go below
zero. A check that fails stops the expansion with a `Breach`, apart from the faults that a text may
have.

The expander on cells in `Expansion` needs none of these checks. That both give the same answer, so
that no check ever fails, is shown in `Bounds`.

## Main definitions

* `Breach`, `Stop`: a check that failed, and why an expansion by offsets stops.
* `Offsets.cut`, `Views.cut`: the part of a text, and of a fragment, between two offsets.
* `Offsets.closingOffset`: where a parenthesis is closed.
* `Offsets.argumentRanges`: where the arguments of a call are.
* `Offsets.candidates`: the names in a text that are directly followed by a parenthesis.
* `Offsets.substitute`: a body with values in place of its parameters.
* `expandByOffsets`: expansion of a text.
-/

namespace TextExpander

/-- A check on numbers that failed. -/
inductive Breach where
  /-- A cut that is out of order or out of bounds, or falls into a character. -/
  | cut
  /-- A search for a closing parenthesis that starts at no opening one. -/
  | opening
  /-- An index beyond the values. -/
  | index
  /-- A subtraction below zero. -/
  | underflow
  deriving DecidableEq, Repr

/-- Why an expansion by offsets stops. -/
inductive Stop where
  /-- A check failed. -/
  | breach (what : Breach)
  /-- The text has a fault. -/
  | fault (what : Fault)
  deriving DecidableEq, Repr

namespace Offsets

/-- A difference that must not be below zero. -/
def subtract (a b : Nat) : Except Stop Nat :=
  if b ≤ a then .ok (a - b) else .error (.breach .underflow)

/-- Whether a character of a text starts at an offset, or the text ends there. -/
def isBoundary : Text → Nat → Bool
  | _, 0 => true
  | [], _ + 1 => false
  | c :: rest, n + 1 => c.utf8Size ≤ n + 1 && isBoundary rest (n + 1 - c.utf8Size)

/-- The part of a text between two offsets, which must be in order, within the text and between its
characters. -/
def cut (t : Text) (start stop : Nat) : Except Stop Text :=
  if start ≤ stop ∧ stop ≤ Text.byteLength t ∧ isBoundary t start ∧ isBoundary t stop then
    .ok (Symbol.takeBytes (stop - start) (Symbol.dropBytes start t))
  else .error (.breach .cut)

end Offsets

/-- A fragment as two texts of the same length in bytes. -/
structure Views where
  /-- What stands there. -/
  text : Text
  /-- What the scanner sees. -/
  scan : Text
  deriving DecidableEq, Repr

namespace Views

/-- Nothing. -/
def empty : Views := ⟨[], []⟩

/-- Text that is scanned as it is written. -/
def plain (t : Text) : Views := ⟨t, t⟩

/-- Text that is never scanned: the scanner sees a mark for each of its bytes. -/
def literal (t : Text) : Views := ⟨t, List.replicate (Text.byteLength t) mask⟩

/-- The length in bytes of what stands there. -/
def byteLength (v : Views) : Nat :=
  Text.byteLength v.text

/-- The part between two offsets, which is cut out of both texts. -/
def cut (v : Views) (start stop : Nat) : Except Stop Views := do
  let text ← Offsets.cut v.text start stop
  let scan ← Offsets.cut v.scan start stop
  return ⟨text, scan⟩

/-- A cut into a protected character is seen in the text only. -/
example : (literal ['é']).cut 0 1 = .error (.breach .cut) ∧
    Offsets.cut (literal ['é']).scan 0 1 = .ok [mask] := ⟨rfl, rfl⟩

/-- One after the other. -/
def push (v w : Views) : Views := ⟨v.text ++ w.text, v.scan ++ w.scan⟩

end Views

namespace Offsets

/-! ### Parentheses and arguments, byte by byte -/

/-- The byte of `(`. -/
def openingByte : UInt8 := 0x28

/-- The byte of `)`. -/
def closingByte : UInt8 := 0x29

/-- The byte of `,`. -/
def commaByte : UInt8 := 0x2C

/-- The offset of the byte that closes the last of `depth` parentheses, where the bytes start at
`offset`. -/
def closingFrom : (depth offset : Nat) → List UInt8 → Except Stop (Option Nat)
  | _, _, [] => .ok none
  | depth, offset, b :: rest =>
    if b = openingByte then closingFrom (depth + 1) (offset + 1) rest
    else if b = closingByte then do
      let left ← subtract depth 1
      if left = 0 then return some offset else closingFrom left (offset + 1) rest
    else closingFrom depth (offset + 1) rest

/-- The offset of the parenthesis that closes the one at offset `opening`, if it is ever closed. -/
def closingOffset (t : Text) (opening : Nat) : Except Stop (Option Nat) :=
  if (Utf8.encode t)[opening]? = some openingByte then
    closingFrom 0 opening ((Utf8.encode t).drop opening)
  else .error (.breach .opening)

/-- The ranges between commas outside parentheses. The current range starts at `start`, and the
bytes at `offset`. -/
def rangesFrom : (depth start offset : Nat) → List UInt8 → List (Nat × Nat)
  | _, start, offset, [] => [(start, offset)]
  | depth, start, offset, b :: rest =>
    if b = openingByte then rangesFrom (depth + 1) start (offset + 1) rest
    else if b = closingByte then rangesFrom (depth - 1) start (offset + 1) rest
    else if b = commaByte ∧ depth = 0 then
      (start, offset) :: rangesFrom depth (offset + 1) (offset + 1) rest
    else rangesFrom depth start (offset + 1) rest

/-- The range of a value from `start` to `stop` without the parentheses around it, if one pair
encloses the whole. -/
def unwrapRange (value : Text) (start stop : Nat) : Except Stop (Nat × Nat) :=
  if value.head? = some '(' then do
    let close ← closingOffset value 0
    let last ← subtract (Text.byteLength value) 1
    if close = some last then
      let inner ← subtract stop 1
      return (start + 1, inner)
    else return (start, stop)
  else .ok (start, stop)

/-- The range of the value of an argument, given the range between its commas. -/
def valueRange (t : Text) (raw : Nat × Nat) : Except Stop (Nat × Nat) := do
  let piece ← cut t raw.1 raw.2
  let stop := raw.1 + Text.byteLength (Symbol.trimRight piece)
  let start ← subtract stop (Text.byteLength (Symbol.trim piece))
  let value ← cut t start stop
  unwrapRange value start stop

/-- The ranges of the values of the arguments, given what stands between the parentheses. -/
def argumentRanges (t : Text) : Except Stop (List (Nat × Nat)) :=
  if (Symbol.trim t).isEmpty then .ok []
  else (rangesFrom 0 0 0 (Utf8.encode t)).mapM (valueRange t)

/-- The arguments of a call with parentheses at two offsets. -/
def callArguments (v : Views) (opening close : Nat) : Except Stop (List Views) := do
  let interior ← v.cut (opening + 1) close
  let ranges ← argumentRanges interior.scan
  ranges.mapM fun range => interior.cut range.1 range.2

/-! ### Calls -/

/-- The identifiers among lexemes with the offsets where each starts and ends, the first lexeme
starting at `start`. -/
def identifiersFrom (start : Nat) (lexemes : List (Lexeme Char)) : List (Lexeme Char × Nat × Nat) :=
  (Lexeme.locateFrom start lexemes).filter fun l => l.1.isIdentifier

/-- The identifiers of a text with the offsets where each starts and ends. -/
def identifiers (t : Text) : List (Lexeme Char × Nat × Nat) :=
  identifiersFrom 0 (Lexeme.split t)

/-- A known name that is directly followed by a parenthesis. -/
structure Candidate where
  /-- The name. -/
  name : Text
  /-- Where the name starts. -/
  start : Nat
  /-- Where the parenthesis is. -/
  opening : Nat
  /-- What the name refers to. -/
  callee : Callee
  deriving DecidableEq, Repr

/-- The candidate that an identifier of a text is, if it is one. -/
def candidate? (table : Table) (scan : Text) (word : Lexeme Char × Nat × Nat) :
    Except Stop (Option Candidate) := do
  let after ← cut scan word.2.2 (Text.byteLength scan)
  if after.head? = some '(' then
    return (table.callee? word.1.symbols).map fun callee =>
      ⟨word.1.symbols, word.2.1, word.2.2, callee⟩
  else return none

/-- The candidates of a text, those between the parentheses of others included. -/
def candidates (table : Table) (scan : Text) : Except Stop (List Candidate) := do
  let found ← (identifiers scan).mapM (candidate? table scan)
  return found.filterMap id

/-- Replaces the candidates that are left, given what a call with its arguments becomes. What stands
before `copied` has been dealt with and gave `result`. -/
def replaceFrom (callValue : Callee → List Views → Except Stop Views) (v : Views) :
    List Candidate → (result : Views) → (copied : Nat) → Except Stop Views
  | [], result, copied => do
    let rest ← v.cut copied v.byteLength
    return result.push rest
  | candidate :: left, result, copied =>
    -- A candidate between the parentheses of a call that was replaced.
    if candidate.start < copied then replaceFrom callValue v left result copied
    else do
      match ← closingOffset v.scan candidate.opening with
      | none => .error (.fault (.unbalanced (.call candidate.name)))
      | some close =>
        let arguments ← callArguments v candidate.opening close
        let value ← callValue candidate.callee arguments
        let before ← v.cut copied candidate.start
        replaceFrom callValue v left ((result.push before).push value) (close + 1)

/-! ### Values in a body -/

/-- Replaces the parameters among the identifiers that are left. What stands before `copied` has
been dealt with and gave `result`. -/
def substituteFrom (parameters : List Text) (values : List Views) (body : Views) :
    List (Lexeme Char × Nat × Nat) → (result : Views) → (copied : Nat) → Except Stop Views
  | [], result, copied => do
    let rest ← body.cut copied body.byteLength
    return result.push rest
  | word :: left, result, copied =>
    match parameters.idxOf? word.1.symbols with
    | none => substituteFrom parameters values body left result copied
    | some index => do
      let before ← body.cut copied word.2.1
      match values[index]? with
      | none => .error (.breach .index)
      | some value =>
        substituteFrom parameters values body left ((result.push before).push value) word.2.2

/-- The body of a definition with a value in the place of each parameter. -/
def substitute (d : Definition) (values : List Views) : Except Stop Views :=
  if d.parameters.isEmpty then .ok (Views.plain d.body)
  else substituteFrom d.parameters values (Views.plain d.body) (identifiers d.body) Views.empty 0

/-! ### Expansion -/

/-- Expands a call, given how its arguments and the body with the values in it are expanded. -/
def expandCall (expandInner : Views → Except Stop Views) (callee : Callee)
    (arguments : List Views) : Except Stop Views :=
  match callee with
  | .glue => do
    let values ← arguments.mapM expandInner
    return Views.literal (values.flatMap Views.text)
  | .user d =>
    if arguments.length = d.parameters.length then do
      let values ← arguments.mapM expandInner
      let body ← substitute d values
      expandInner body
    else .error (.fault (.arityMismatch d.name d.parameters.length arguments.length))

/-- Replaces the calls of a fragment, given what a call with its arguments becomes. -/
def replaceCalls (table : Table) (callValue : Callee → List Views → Except Stop Views)
    (v : Views) : Except Stop Views := do
  let found ← candidates table v.scan
  replaceFrom callValue v found Views.empty 0

/-- Expands a fragment with `levels` levels of calls left of the limit. -/
def expandViews (table : Table) (limit : Nat) : (levels : Nat) → Views → Except Stop Views
  | 0 =>
    replaceCalls table fun callee _ => .error (.fault (.expansionTooDeep callee.name limit))
  | levels + 1 => replaceCalls table (expandCall (expandViews table limit levels))

end Offsets

/-- The text with all its calls expanded, by offsets. -/
def expandByOffsets (table : Table) (limit : Nat) (t : Text) : Except Stop Text :=
  (Offsets.expandViews table limit limit (Views.plain t)).map Views.text

end TextExpander
