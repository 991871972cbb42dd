import DocumentTree.Number.Decimal
import DocumentTree.Text.Basic
import DocumentTree.Value.Basic

/-!
# Values as messages show them

A message shows a value so that its kind can be told: strings stand in quotes, with escapes for what
has no printed form. Where a value is inserted into running text, a string stands as it is.

## Main definitions

* `Text.quoted t` — a string in quotes: single ones, unless that saves an escape.
* `Value.quoted v`, `Key.quoted k` — the form that shows a value's kind.
* `Value.plain v`, `Key.plain k` — the form inserted into running text.
-/

namespace DocumentTree

namespace Text

/-- A number in hexadecimal, with at least a given number of digits. -/
def hexadecimal (width n : Nat) : Text :=
  let digits := Nat.toDigits 16 n
  List.replicate (width - digits.length) '0' ++ digits

/-- One character between quotes of a given kind. What has no printed form is shown by its number,
in as few digits as its size allows. -/
def quotedChar (quote c : Char) : Text :=
  if c = quote ∨ c = '\\' then ['\\', c]
  else if c = '\n' then ['\\', 'n']
  else if c = '\r' then ['\\', 'r']
  else if c = '\t' then ['\\', 't']
  else if isPrintable c then [c]
  else if c.toNat < 0x100 then ['\\', 'x'] ++ hexadecimal 2 c.toNat
  else if c.toNat < 0x10000 then ['\\', 'u'] ++ hexadecimal 4 c.toNat
  else ['\\', 'U'] ++ hexadecimal 8 c.toNat

/-- A text in quotes. Double quotes serve when the text holds a single quote and no double one. -/
def quoted (t : Text) : Text :=
  let quote := if t.contains '\'' && !t.contains '"' then '"' else '\''
  [quote] ++ t.flatMap (quotedChar quote) ++ [quote]

end Text

/-- The names of the values without digits in messages. -/
def Value.displayNames : Double.Names where
  nan := ['n', 'a', 'n']
  infinity := ['i', 'n', 'f']

namespace Key

/-- The form of a key that shows its kind. -/
def quoted : Key → Text
  | null => "None".toList
  | bool b => (if b then "True" else "False").toList
  | int i => integerText i
  | float x => x.text Value.displayNames
  | str s => Text.quoted s.toList
  | object _ shown => shown.toList

/-- The form of a key in running text: a string as it is, anything else in its quoted form. -/
def plain : Key → String
  | str s => s
  | key => String.ofList key.quoted

end Key

namespace Value

mutual

/-- The form of a value that shows its kind. -/
def quoted : Value → Text
  | null => Key.null.quoted
  | bool b => (Key.bool b).quoted
  | int i => (Key.int i).quoted
  | float x => (Key.float x).quoted
  | str s => (Key.str s).quoted
  | list items => ['['] ++ quotedItems items ++ [']']
  | map entries => ['{'] ++ quotedEntries entries ++ ['}']
  | object _ shown => shown.toList

/-- The items of a list, with commas between them. -/
def quotedItems : List Value → Text
  | [] => []
  | [v] => quoted v
  | v :: vs => quoted v ++ [',', ' '] ++ quotedItems vs

/-- The entries of a map, with commas between them. -/
def quotedEntries : List (Key × Value) → Text
  | [] => []
  | [(k, v)] => k.quoted ++ [':', ' '] ++ quoted v
  | (k, v) :: es => k.quoted ++ [':', ' '] ++ quoted v ++ [',', ' '] ++ quotedEntries es

end

/-- The form of a value in running text: a string as it is, anything else in its quoted form. -/
def plain : Value → String
  | str s => s
  | v => String.ofList v.quoted

/-- The quoted form as a string. -/
def quotedString (v : Value) : String :=
  String.ofList v.quoted

end Value

end DocumentTree
