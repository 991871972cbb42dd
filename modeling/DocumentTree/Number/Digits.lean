import DocumentTree.Number.Decimal

/-!
# Digits of other bases, and grouped digits

## Main definitions

* `hexValue?`, `ofHexDigits?` — hexadecimal digits.
* `ofDigitsIn base` — the number that a run of digits denotes in a base.
* `spanGrouped` — a run of digits in which single underscores may stand between digits.
-/

namespace DocumentTree

/-- The value of a hexadecimal digit. -/
def hexValue? (c : Char) : Option Nat :=
  if c.isDigit then some (c.toNat - '0'.toNat)
  else if 'a' ≤ c ∧ c ≤ 'f' then some (c.toNat - 'a'.toNat + 10)
  else if 'A' ≤ c ∧ c ≤ 'F' then some (c.toNat - 'A'.toNat + 10)
  else none

/-- Whether a character is a hexadecimal digit. -/
def isHexDigit (c : Char) : Bool :=
  (hexValue? c).isSome

/-- The number that digits up to `f` denote in a base; other characters count as zero. -/
def ofDigitsIn (base : Nat) (digits : List Char) : Nat :=
  digits.foldl (fun n c => base * n + (hexValue? c).getD 0) 0

/-- The number that hexadecimal digits denote, if all of them are such digits. -/
def ofHexDigits? (digits : List Char) : Option Nat :=
  if digits.all isHexDigit then some (ofDigitsIn 16 digits) else none

/-- The digits of a class that go on at the start of a text, single underscores between them left
out, and the rest. -/
def spanGroupedTail (isDigit : Char → Bool) : List Char → List Char × List Char
  | '_' :: c :: rest =>
    if isDigit c then
      let (digits, later) := spanGroupedTail isDigit rest
      (c :: digits, later)
    else ([], '_' :: c :: rest)
  | c :: rest =>
    if isDigit c then
      let (digits, later) := spanGroupedTail isDigit rest
      (c :: digits, later)
    else ([], c :: rest)
  | [] => ([], [])

/-- The digits of a class that a text starts with, single underscores between them left out, and the
rest. There is at least one digit. -/
def spanGrouped (isDigit : Char → Bool) : List Char → Option (List Char × List Char)
  | [] => none
  | c :: rest =>
    if isDigit c then
      let (digits, later) := spanGroupedTail isDigit rest
      some (c :: digits, later)
    else none

end DocumentTree
