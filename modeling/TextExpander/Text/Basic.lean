/-!
# Text

The library works on lists of characters. Scanning, splitting and joining are then the list
operations, and every position is a decomposition `before ++ rest` rather than a number. Where a
position has to be reported, it is a count of bytes of the UTF-8 encoding, computed from the part
before it.

## Main definitions

* `Text`: a list of characters.
* `Text.byteLength`: the size of the UTF-8 encoding.
* `Text.decimal`: a number in decimal digits.
-/

namespace TextExpander

/-- Text, as the list of its characters. -/
abbrev Text := List Char

namespace Text

/-- The number of bytes in the UTF-8 encoding of a text. -/
def byteLength (t : Text) : Nat :=
  t.foldr (fun c n => c.utf8Size + n) 0

@[simp]
theorem byteLength_nil : byteLength [] = 0 := rfl

@[simp]
theorem byteLength_cons (c : Char) (t : Text) :
    byteLength (c :: t) = c.utf8Size + byteLength t := rfl

@[simp]
theorem byteLength_append (s t : Text) : byteLength (s ++ t) = byteLength s + byteLength t := by
  induction s with
  | nil => simp
  | cons c s ih => rw [List.cons_append, byteLength_cons, ih, byteLength_cons, Nat.add_assoc]

/-- A number in decimal, without leading zeros. -/
def decimal (n : Nat) : Text :=
  Nat.toDigits 10 n

/-- The lines of a text put together, with a line feed between each two. -/
def joinLines (lines : List Text) : Text :=
  ['\n'].intercalate lines

@[simp]
theorem joinLines_singleton (t : Text) : joinLines [t] = t := by
  simp [joinLines, List.intercalate]

theorem joinLines_cons {lines : List Text} (h : lines ≠ []) (t : Text) :
    joinLines (t :: lines) = t ++ '\n' :: joinLines lines := by
  obtain ⟨u, rest, rfl⟩ := List.exists_cons_of_ne_nil h
  simp [joinLines, List.intercalate]

end Text

end TextExpander
