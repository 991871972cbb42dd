import DocumentTree.Number.Decimal
import DocumentTree.Text.Basic
import DocumentTree.Text.Character
import DocumentTree.Value.Basic
import DocumentTree.Value.Count
import DocumentTree.Value.Display

/-!
# Writing JSON

Values are written on one line, or spread over lines with an indent. Characters outside ASCII stand
as they are; quotes, backslashes and the control characters below the space are escaped. The
floating-point values without digits are written by name, which strict readers refuse. A key that is
no string is written as the string of its own JSON text, an object as the string that shows it.

## Main definitions

* `Json.quote t` — a string between double quotes.
* `Json.write layout v` — a value, on one line or indented.
-/

namespace DocumentTree.Json

/-- How a value is laid out: on one line, or on many with a text before a line for each level. -/
inductive Layout where
  | inline
  | indented (unit : Text)

/-- The layout that a value asks for: a count of spaces for each level, or the text itself. -/
def Layout.ofValue : Value → Except CountError Layout
  | .null => .ok inline
  | .str s => .ok (indented s.toList)
  | v => do return indented (← repetition (← v.toCount) [' '])

/-- One character inside a string. -/
def quoteChar (c : Char) : Text :=
  match c with
  | '"' => ['\\', '"']
  | '\\' => ['\\', '\\']
  | '\n' => ['\\', 'n']
  | '\r' => ['\\', 'r']
  | '\t' => ['\\', 't']
  | '\x0c' => ['\\', 'f']
  | '\x08' => ['\\', 'b']
  | c => if c.toNat < 0x20 then ['\\', 'u'] ++ Text.hexadecimal 4 c.toNat else [c]

/-- A string between double quotes. -/
def quote (t : Text) : Text :=
  ['"'] ++ t.flatMap quoteChar ++ ['"']

/-- The names of the values without digits. -/
def names : Double.Names where
  nan := ['N', 'a', 'N']
  infinity := ['I', 'n', 'f', 'i', 'n', 'i', 't', 'y']

/-- The text of a key between the quotes. -/
def keyText : Key → Text
  | .null => "null".toList
  | .bool b => (if b then "true" else "false").toList
  | .int i => integerText i
  | .float x => x.text names
  | .str s => s.toList
  | .object _ shown => shown.toList

/-- A line break and the indent of a level; nothing on one line. -/
def Layout.newline (layout : Layout) (level : Nat) : Text :=
  match layout with
  | .inline => []
  | .indented unit => '\n' :: Text.repeated level unit

/-- What stands between two items: on one line a space follows the comma. -/
def Layout.comma (layout : Layout) (level : Nat) : Text :=
  match layout with
  | .inline => [',', ' ']
  | .indented _ => ',' :: layout.newline level

mutual

/-- A value at a level of nesting. Empty lists and maps stay on one line. -/
def writeAt (layout : Layout) (level : Nat) : Value → Text
  | .null => "null".toList
  | .bool b => (if b then "true" else "false").toList
  | .int i => integerText i
  | .float x => x.text names
  | .str s => quote s.toList
  | .list [] => ['[', ']']
  | .list (v :: vs) =>
    ['['] ++ layout.newline (level + 1) ++ writeItems layout (level + 1) (v :: vs)
      ++ layout.newline level ++ [']']
  | .map [] => ['{', '}']
  | .map (e :: es) =>
    ['{'] ++ layout.newline (level + 1) ++ writeEntries layout (level + 1) (e :: es)
      ++ layout.newline level ++ ['}']
  | .object _ shown => quote shown.toList

/-- The items of a list. -/
def writeItems (layout : Layout) (level : Nat) : List Value → Text
  | [] => []
  | [v] => writeAt layout level v
  | v :: vs => writeAt layout level v ++ layout.comma level ++ writeItems layout level vs

/-- The entries of a map. -/
def writeEntries (layout : Layout) (level : Nat) : List (Key × Value) → Text
  | [] => []
  | [(k, v)] => quote (keyText k) ++ [':', ' '] ++ writeAt layout level v
  | (k, v) :: es =>
    quote (keyText k) ++ [':', ' '] ++ writeAt layout level v ++ layout.comma level
      ++ writeEntries layout level es

end

/-- The JSON text of a value. -/
def write (layout : Layout) (v : Value) : Text :=
  writeAt layout 0 v

end DocumentTree.Json
