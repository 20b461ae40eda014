import TextExpander.Symbol

/-!
# Parentheses

The parenthesis that closes an opening one, and the splitting of what stands between the two into
arguments. Only the shown characters count, so a parenthesis or comma that is hidden from the
scanner neither closes nor separates anything.

An argument loses the white space around it. An argument that is wrapped whole in one pair of
parentheses loses the pair instead, and keeps what is inside as it is; this is how a comma or a
blank is put into an argument.

## Main definitions

* `Parens.close?`: what stands before and after the closing parenthesis.
* `Parens.pieces`: a text cut at its commas outside parentheses.
* `Parens.arguments`: the values of the arguments of a call.
-/

namespace TextExpander

namespace Parens

variable {α : Type} [Symbol α]

/-! ### The closing parenthesis -/

/-- Looks for the closing parenthesis with `depth` inner ones still to be closed before it. The
symbols passed over are kept last first. -/
def closeFrom : (depth : Nat) → (passed : List α) → List α → Option (List α × List α)
  | _, _, [] => none
  | depth, passed, a :: rest =>
    if Symbol.shown a = '(' then closeFrom (depth + 1) (a :: passed) rest
    else if Symbol.shown a = ')' then
      if depth = 0 then some (passed.reverse, rest)
      else closeFrom (depth - 1) (a :: passed) rest
    else closeFrom depth (a :: passed) rest

/-- Given what follows an opening parenthesis: what stands before and after the parenthesis that
closes it, or `none` if it is never closed. -/
def close? (xs : List α) : Option (List α × List α) :=
  closeFrom 0 [] xs

/-- The two sides of the closing parenthesis and the parenthesis itself are all there is. -/
theorem length_closeFrom {depth : Nat} {passed xs inside rest : List α}
    (h : closeFrom depth passed xs = some (inside, rest)) :
    inside.length + rest.length + 1 = passed.length + xs.length := by
  induction xs generalizing depth passed with
  | nil => simp [closeFrom] at h
  | cons a xs ih =>
    rw [closeFrom] at h
    split at h
    · have := ih h
      simp at this ⊢
      omega
    · split at h
      · split at h
        · obtain ⟨rfl, rfl⟩ := by simpa using h
          simp
          omega
        · have := ih h
          simp at this ⊢
          omega
      · have := ih h
        simp at this ⊢
        omega

theorem length_of_close? {xs inside rest : List α} (h : close? xs = some (inside, rest)) :
    inside.length + rest.length + 1 = xs.length := by
  simpa using length_closeFrom h

/-! ### Arguments -/

/-- The depth after a symbol. A closing parenthesis without an opening one changes nothing. -/
def depthAfter (depth : Nat) (a : α) : Nat :=
  if Symbol.shown a = '(' then depth + 1
  else if Symbol.shown a = ')' then depth - 1
  else depth

/-- The pieces between commas outside parentheses. The symbols of the current piece that were
passed are kept last first. -/
def piecesFrom : (depth : Nat) → (passed : List α) → List α → List (List α)
  | _, passed, [] => [passed.reverse]
  | depth, passed, a :: rest =>
    if Symbol.shown a = ',' ∧ depth = 0 then passed.reverse :: piecesFrom 0 [] rest
    else piecesFrom (depthAfter depth a) (a :: passed) rest

/-- A text cut at its commas outside parentheses. -/
def pieces (xs : List α) : List (List α) :=
  piecesFrom 0 [] xs

/-- The inside of a text that is one pair of parentheses from end to end. -/
def unwrap? : List α → Option (List α)
  | [] => none
  | a :: rest =>
    if Symbol.shown a = '(' then
      match close? rest with
      | some (inside, []) => some inside
      | _ => none
    else none

/-- An argument as it was written: what is dropped before its value, and the value. -/
structure Argument (α : Type) where
  /-- The symbols before the value: white space, or white space and an opening parenthesis. -/
  dropped : List α
  /-- The value. -/
  value : List α
  deriving DecidableEq, Repr

/-- The argument that a piece holds. -/
def Argument.ofPiece (piece : List α) : Argument α :=
  let ended := Symbol.trimRight piece
  let space := ended.takeWhile Symbol.isSpace
  let value := ended.dropWhile Symbol.isSpace
  match unwrap? value with
  | some inside => ⟨space ++ value.take 1, inside⟩
  | none => ⟨space, value⟩

/-- The values of the arguments of a call, given what stands between its parentheses. Blank text
holds no argument at all. -/
def arguments (xs : List α) : List (List α) :=
  if Symbol.isBlank xs then [] else (pieces xs).map fun piece => (Argument.ofPiece piece).value

/-! ### Positions -/

/-- The values of pieces with the byte offsets where each starts and ends, the first piece starting
at `start` and one comma standing between each two. -/
def locateFrom (start : Nat) : List (List α) → List (List α × Nat × Nat)
  | [] => []
  | piece :: rest =>
    let argument := Argument.ofPiece piece
    let first := start + Symbol.byteLength argument.dropped
    (argument.value, first, first + Symbol.byteLength argument.value) ::
      locateFrom (start + Symbol.byteLength piece + 1) rest

/-- The values of the arguments with the byte offsets where each starts and ends. -/
def locate (xs : List α) : List (List α × Nat × Nat) :=
  if Symbol.isBlank xs then [] else locateFrom 0 (pieces xs)

/-- The byte offset of the parenthesis that closes the opening one at byte offset `opening`. -/
def closeOffset? (xs : List α) (opening : Nat) : Option Nat :=
  (close? ((Symbol.dropBytes opening xs).drop 1)).map fun (inside, _) =>
    opening + 1 + Symbol.byteLength inside

end Parens

end TextExpander
