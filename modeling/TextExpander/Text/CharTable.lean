import TextExpander.Text.Basic

/-!
# Tables of characters

A set of characters given by inclusive ranges of code points. The ranges stand in rows, and each
row knows the code points it spans, so that a look-up reads one row and not the whole table.

## Main definitions

* `CharTable`: rows of ranges.
* `CharTable.contains`: membership of a character.
-/

namespace TextExpander

/-- Ranges of code points, both ends included, and the least and greatest code point in them. -/
structure CharRow where
  /-- The least code point of the row. -/
  first : Nat
  /-- The greatest code point of the row. -/
  last : Nat
  /-- The ranges, in increasing order. -/
  ranges : List (Nat × Nat)

/-- Whether a code point lies in one of the ranges of a row. -/
def CharRow.contains (row : CharRow) (n : Nat) : Bool :=
  decide (row.first ≤ n) && decide (n ≤ row.last) &&
    row.ranges.any fun r => decide (r.1 ≤ n) && decide (n ≤ r.2)

/-- A set of characters, as rows of ranges of code points. -/
abbrev CharTable := List CharRow

/-- Whether a character belongs to the set. -/
def CharTable.contains (table : CharTable) (c : Char) : Bool :=
  table.any fun row => row.contains c.toNat

end TextExpander
