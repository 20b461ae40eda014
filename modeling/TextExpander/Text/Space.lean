import TextExpander.Text.Basic

/-!
# White space

The characters with the Unicode property `White_Space`. They are what is trimmed from arguments,
parameters and bodies. The blanks that a directive allows between its parts are fewer: only the
space and the tab.

## Main definitions

* `Text.isSpace`: a white space character.
-/

namespace TextExpander

namespace Text

/-- Whether a character is white space: TAB to CR, the space, and the spaces and separators of
Unicode, with NEL and the no-break spaces among them. -/
def isSpace (c : Char) : Bool :=
  let n := c.toNat
  (decide (0x9 ≤ n) && decide (n ≤ 0xD)) || n == 0x20 || n == 0x85 || n == 0xA0 || n == 0x1680 ||
    (decide (0x2000 ≤ n) && decide (n ≤ 0x200A)) || n == 0x2028 || n == 0x2029 || n == 0x202F ||
    n == 0x205F || n == 0x3000

end Text

end TextExpander
