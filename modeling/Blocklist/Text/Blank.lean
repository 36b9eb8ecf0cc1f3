/-!
# Blank characters

The characters that separate words in a filter list, and the removal of blank ends. The class is
Unicode's `White_Space` property, so a list may indent its lines with any space a writer may use.

## Implementation notes

Texts are lists of characters throughout the compiler; a `String` appears only in the records it
makes. Both ends are cut by dropping from a list, so every cut is a sublist of its text.
-/

namespace Blocklist.Text

/-- A character with the `White_Space` property. -/
def isBlank (c : Char) : Bool :=
  let n := c.toNat
  (9 ≤ n && n ≤ 13) || n == 32 || n == 133 || n == 160 || n == 5760 ||
    (8192 ≤ n && n ≤ 8202) || n == 8232 || n == 8233 || n == 8239 || n == 8287 || n == 12288

/-- Drop the longest end of `s` whose characters all satisfy `p`. -/
def dropEndWhile (p : Char → Bool) (s : List Char) : List Char :=
  (s.reverse.dropWhile p).reverse

/-- Drop the blanks a text starts with. -/
def trimStart (s : List Char) : List Char :=
  s.dropWhile isBlank

/-- Drop the blanks a text ends with. -/
def trimEnd (s : List Char) : List Char :=
  dropEndWhile isBlank s

/-- Drop the blanks at both ends of a text. -/
def trim (s : List Char) : List Char :=
  trimEnd (trimStart s)

end Blocklist.Text
