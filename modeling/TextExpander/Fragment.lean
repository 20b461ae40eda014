import TextExpander.Symbol

/-!
# Fragments

Text in the middle of expansion. Part of it has been put together by `glue` and is protected: it
belongs to the text, but the scanner must not read it, so that it never becomes a name, a
parenthesis or a comma. A fragment is a list of cells. Each cell shows the scanner a character and
carries the text that stands there: a plain cell shows what it carries, a protected one shows a
neutral mark.

A protected character takes as many cells as its encoding has bytes; the first carries it and the
others carry nothing. So text and scan have the same length in bytes, and an offset found in one
is an offset in the other.

## Main definitions

* `Cell`, `Fragment`: what is shown and what is carried.
* `Fragment.plain`, `Fragment.literal`: text to be scanned, and text never to be scanned.
* `Fragment.protect`: the same text, no longer scanned.
* `Fragment.text`, `Fragment.scan`: the two views.
-/

namespace TextExpander

/-- A place in half-expanded text. -/
structure Cell where
  /-- The character that the scanner sees. -/
  shown : Char
  /-- The text that stands there. -/
  carried : Text
  deriving DecidableEq, Repr

instance : Symbol Cell where
  shown := Cell.shown

/-- Half-expanded text. -/
abbrev Fragment := List Cell

/-- What the scanner sees in place of protected text. It is no part of a word, no parenthesis, no
comma and no white space. -/
def mask : Char := '#'

namespace Cell

/-- A cell that shows the character that it carries. -/
def plain (c : Char) : Cell :=
  ⟨c, [c]⟩

/-- The cells that hide a cell: as many marks as the shown character has bytes, the first of which
carries the text. -/
def protect (cell : Cell) : Fragment :=
  ⟨mask, cell.carried⟩ :: List.replicate (cell.shown.utf8Size - 1) ⟨mask, []⟩

end Cell

namespace Fragment

/-- Text that is scanned as it is written. -/
def plain (t : Text) : Fragment :=
  t.map Cell.plain

/-- A fragment whose text is never scanned again. -/
def protect (f : Fragment) : Fragment :=
  f.flatMap Cell.protect

/-- Text that is never scanned. -/
def literal (t : Text) : Fragment :=
  protect (plain t)

/-- The text of a fragment. -/
def text (f : Fragment) : Text :=
  f.flatMap Cell.carried

/-- What the scanner sees of a fragment. -/
def scan (f : Fragment) : Text :=
  Symbol.chars f

/-- The length of a fragment in bytes. -/
def byteLength (f : Fragment) : Nat :=
  Text.byteLength f.text

/-- The part of a fragment between two byte offsets. -/
def slice (f : Fragment) (start stop : Nat) : Fragment :=
  Symbol.takeBytes (stop - start) (Symbol.dropBytes start f)

/-! ### The text view -/

@[simp]
theorem text_append (f g : Fragment) : text (f ++ g) = text f ++ text g := by
  simp [text]

@[simp]
theorem text_plain (t : Text) : text (plain t) = t := by
  induction t with
  | nil => rfl
  | cons c t ih =>
    rw [show plain (c :: t) = [Cell.plain c] ++ plain t from rfl, text_append, ih]
    rfl

theorem text_replicate_mask (n : Nat) : text (List.replicate n ⟨mask, []⟩) = [] := by
  induction n with
  | zero => rfl
  | succ n ih => simp [text, List.replicate_succ]

/-- Protecting a fragment keeps its text. -/
@[simp]
theorem text_protect (f : Fragment) : text (protect f) = text f := by
  induction f with
  | nil => rfl
  | cons cell f ih =>
    have hcell : text (Cell.protect cell) = cell.carried := by
      rw [Cell.protect, show ∀ (a : Cell) (g : Fragment), text (a :: g) = a.carried ++ text g from
        fun _ _ => rfl, text_replicate_mask, List.append_nil]
    rw [show protect (cell :: f) = Cell.protect cell ++ protect f from rfl, text_append, hcell, ih]
    rfl

@[simp]
theorem text_literal (t : Text) : text (literal t) = t := by
  simp [literal]

end Fragment

end TextExpander
