import DocumentTree.Text.Letter
import DocumentTree.Text.Numeral
import DocumentTree.Text.Unprintable

/-!
# Character classes

The classes of characters that decide how a text is escaped, trimmed and quoted. They are those of
Unicode 14, so a Chinese character is a letter and a no-break space is blank.

## Main definitions

* `isBlank c` — white space, the characters that trimming removes.
* `isLetter c`, `isAlphanumeric c` — letters; letters and numerals.
* `isDecimalDigit c` — the digits that have a place value, in every script.
* `isPrintable c` — the characters that a quoted text shows as they are.
-/

namespace DocumentTree.Text

/-- Membership in a list of closed ranges that stand in increasing order. The search ends at the
first range that begins behind the number. -/
def inRanges : List (Nat × Nat) → Nat → Bool
  | [], _ => false
  | (lo, hi) :: rest, n =>
    if n < lo then false
    else if n ≤ hi then true
    else inRanges rest n

/-- Closed ranges of white space: the ASCII blanks and separators, and the Unicode spaces. -/
def blankRanges : List (Nat × Nat) := [
  (0x9, 0xD), (0x1C, 0x20), (0x85, 0x85), (0xA0, 0xA0), (0x1680, 0x1680), (0x2000, 0x200A),
  (0x2028, 0x2029), (0x202F, 0x202F), (0x205F, 0x205F), (0x3000, 0x3000)]

/-- White space. -/
def isBlank (c : Char) : Bool :=
  inRanges blankRanges c.toNat

/-- A letter of any script. -/
def isLetter (c : Char) : Bool :=
  inRanges letterRanges c.toNat

/-- A letter, or a character that has a numeric value. -/
def isAlphanumeric (c : Char) : Bool :=
  isLetter c || inRanges numeralRanges c.toNat

/-- A decimal digit of any script. -/
def isDecimalDigit (c : Char) : Bool :=
  inRanges decimalDigitRanges c.toNat

/-- A character that a quoted text shows as it is. -/
def isPrintable (c : Char) : Bool :=
  !inRanges unprintableRanges c.toNat

/-- A space or a tab, the blanks that Markdown allows inside a line. -/
def isLineBlank (c : Char) : Bool :=
  c = ' ' || c = '\t'

/-- A control character: below the space, or the delete character. -/
def isControl (c : Char) : Bool :=
  c.toNat < 0x20 || c.toNat = 0x7F

end DocumentTree.Text
