import DocumentTree.Number.Digits
import DocumentTree.Text.Basic
import DocumentTree.Value.Basic

/-!
# Reading JSON

The reader takes every JSON text, and besides the names of the floating-point values without digits.
A number without point and exponent is an integer of any size, every other number is the nearest
floating-point number. Of equal keys in one map the last value counts, in the place of the first.

## Main definitions

* `Json.readString`, `Json.readNumber` — the scalars; each gives the value and the rest of the text.
* `Json.readValue` — a value, with fuel for its depth.
* `Json.read?` — the value of a whole text.
-/

namespace DocumentTree.Json

/-- White space between tokens. -/
def isBlank (c : Char) : Bool :=
  c = ' ' || c = '\t' || c = '\n' || c = '\r'

/-- The text from the next token on. -/
def skipBlanks (t : Text) : Text :=
  t.dropWhile isBlank

/-! ## Strings -/

/-- The character that a letter stands for behind a backslash. -/
def escaped? (c : Char) : Option Char :=
  match c with
  | '"' => some '"'
  | '\\' => some '\\'
  | '/' => some '/'
  | 'b' => some '\x08'
  | 'f' => some '\x0c'
  | 'n' => some '\n'
  | 'r' => some '\r'
  | 't' => some '\t'
  | _ => none

/-- The code points of a string behind its opening quote, and the text behind its closing quote. A
pair of surrogates is not yet joined. Control characters cannot stand in a string. -/
def readPoints : Text → Option (List Nat × Text)
  | [] => none
  | '"' :: rest => some ([], rest)
  | '\\' :: 'u' :: a :: b :: c :: d :: rest => do
    let n ← ofHexDigits? [a, b, c, d]
    let (points, rest) ← readPoints rest
    return (n :: points, rest)
  | '\\' :: c :: rest => do
    let c ← escaped? c
    let (points, rest) ← readPoints rest
    return (c.toNat :: points, rest)
  | c :: rest =>
    if c.toNat < 0x20 then none
    else do
      let (points, rest) ← readPoints rest
      return (c.toNat :: points, rest)

/-- The character with a code point; a surrogate that stands alone has none. -/
def charOf (n : Nat) : Char :=
  if 0xD800 ≤ n ∧ n < 0xE000 then '\uFFFD' else Char.ofNat n

/-- Whether a number is the first half of a pair of surrogates. -/
def isHighSurrogate (n : Nat) : Bool :=
  0xD800 ≤ n && n < 0xDC00

/-- Whether a number is the second half of a pair of surrogates. -/
def isLowSurrogate (n : Nat) : Bool :=
  0xDC00 ≤ n && n < 0xE000

/-- The text of code points, pairs of surrogates joined. -/
def joinSurrogates : List Nat → Text
  | [] => []
  | [n] => [charOf n]
  | high :: low :: rest =>
    if isHighSurrogate high && isLowSurrogate low then
      Char.ofNat (0x10000 + (high - 0xD800) * 0x400 + (low - 0xDC00)) :: joinSurrogates rest
    else charOf high :: joinSurrogates (low :: rest)

/-- A string behind its opening quote. -/
def readString (t : Text) : Option (String × Text) := do
  let (points, rest) ← readPoints t
  return (String.ofList (joinSurrogates points), rest)

/-! ## Numbers -/

/-- The digits that a text starts with, and the rest. -/
def spanDigits (t : Text) : Text × Text :=
  (t.takeWhile Char.isDigit, t.dropWhile Char.isDigit)

/-- The whole part of a number: a zero, or digits that do not start with one. -/
def readWhole : Text → Option (Text × Text)
  | '0' :: rest => some (['0'], rest)
  | t =>
    let (digits, rest) := spanDigits t
    if digits.isEmpty then none else some (digits, rest)

/-- The digits behind a point, if there are any; a point without digits is left alone. -/
def readFraction : Text → Text × Text
  | '.' :: rest =>
    let (digits, later) := spanDigits rest
    if digits.isEmpty then ([], '.' :: rest) else (digits, later)
  | t => ([], t)

/-- The sign that may stand before an exponent. -/
def readSign : Text → Bool × Text
  | '-' :: rest => (true, rest)
  | '+' :: rest => (false, rest)
  | t => (false, t)

/-- An exponent, if there is one; a mark without digits is left alone. -/
def readExponent (t : Text) : Option Int × Text :=
  match t with
  | c :: rest =>
    if c = 'e' || c = 'E' then
      let (negative, rest) := readSign rest
      let (digits, later) := spanDigits rest
      if digits.isEmpty then (none, t)
      else (some (if negative then -(ofDigits digits : Int) else ofDigits digits), later)
    else (none, t)
  | [] => (none, t)

/-- A number without its sign. -/
def readUnsigned (negative : Bool) (t : Text) : Option (Value × Text) := do
  let (whole, rest) ← readWhole t
  let (fraction, rest) := readFraction rest
  let (exponent, rest) := readExponent rest
  if fraction.isEmpty && exponent.isNone then
    let n : Int := ofDigits whole
    return (.int (if negative then -n else n), rest)
  else
    let digits := ofDigits (whole ++ fraction)
    return (.float (Double.ofDecimal negative digits (exponent.getD 0 - fraction.length)), rest)

/-- A number. -/
def readNumber : Text → Option (Value × Text)
  | '-' :: rest => readUnsigned true rest
  | t => readUnsigned false t

/-! ## Values -/

mutual

/-- A value at the start of a text, and the text behind it. -/
def readValue : (fuel : Nat) → Text → Option (Value × Text)
  | 0, _ => none
  | fuel + 1, t =>
    match t with
    | '"' :: rest => do
      let (s, rest) ← readString rest
      return (.str s, rest)
    | '{' :: rest =>
      match skipBlanks rest with
      | '}' :: rest => some (.map [], rest)
      | rest => do
        let (entries, rest) ← readEntries fuel rest
        return (.map (Entries.ofList entries), rest)
    | '[' :: rest =>
      match skipBlanks rest with
      | ']' :: rest => some (.list [], rest)
      | rest => do
        let (items, rest) ← readItems fuel rest
        return (.list items, rest)
    | 'n' :: 'u' :: 'l' :: 'l' :: rest => some (.null, rest)
    | 't' :: 'r' :: 'u' :: 'e' :: rest => some (.bool true, rest)
    | 'f' :: 'a' :: 'l' :: 's' :: 'e' :: rest => some (.bool false, rest)
    | 'N' :: 'a' :: 'N' :: rest => some (.float .nan, rest)
    | 'I' :: 'n' :: 'f' :: 'i' :: 'n' :: 'i' :: 't' :: 'y' :: rest =>
      some (.float (.infinite false), rest)
    | '-' :: 'I' :: 'n' :: 'f' :: 'i' :: 'n' :: 'i' :: 't' :: 'y' :: rest =>
      some (.float (.infinite true), rest)
    | t => readNumber t

/-- The items of a list up to its closing bracket; there is at least one. -/
def readItems : (fuel : Nat) → Text → Option (List Value × Text)
  | 0, _ => none
  | fuel + 1, t => do
    let (v, rest) ← readValue fuel t
    match skipBlanks rest with
    | ',' :: rest => do
      let (vs, rest) ← readItems fuel (skipBlanks rest)
      return (v :: vs, rest)
    | ']' :: rest => return ([v], rest)
    | _ => none

/-- The entries of a map up to its closing brace; there is at least one. -/
def readEntries : (fuel : Nat) → Text → Option (List (Key × Value) × Text)
  | 0, _ => none
  | fuel + 1, t =>
    match t with
    | '"' :: rest => do
      let (key, rest) ← readString rest
      match skipBlanks rest with
      | ':' :: rest => do
        let (v, rest) ← readValue fuel (skipBlanks rest)
        match skipBlanks rest with
        | ',' :: rest => do
          let (entries, rest) ← readEntries fuel (skipBlanks rest)
          return ((key, v) :: entries, rest)
        | '}' :: rest => return ([(key, v)], rest)
        | _ => none
      | _ => none
    | _ => none

end

/-- The value of a JSON text, with nothing but white space around it. No value is deeper than the
text is long. -/
def read? (t : Text) : Option Value := do
  let (v, rest) ← readValue (t.length + 1) (skipBlanks t)
  if (skipBlanks rest).isEmpty then return v else none

end DocumentTree.Json
