import DocumentTree.Number.Digits
import DocumentTree.Text.Basic
import DocumentTree.Toml.Table

/-!
# Reading a restricted TOML

The part of TOML that configuration is written in: comments, entries with bare, quoted and dotted
keys, strings on one line, integers and floating-point numbers in every notation, truth values,
arrays, headers of tables and of lists of tables. Strings over several lines, dates and times, and
tables on one line have no form here, so the reader makes nothing of them.

## Main definitions

* `readKey`, `readString`, `readNumber`, `readValue` — parts of a statement.
* `Toml.readRestricted?` — the map of a whole document, if it is written in this part.
-/

namespace DocumentTree.Toml

/-! ## Blanks, comments and line ends -/

/-- White space inside a line. -/
def isBlank (c : Char) : Bool :=
  c = ' ' || c = '\t'

/-- The characters that stand neither in comments nor in strings. -/
def isForbidden (c : Char) : Bool :=
  (c.toNat < 0x20 && c ≠ '\t') || c = '\x7f'

/-- The text from the next token of the line on. -/
def skipBlanks (t : Text) : Text :=
  t.dropWhile isBlank

/-- The text behind the rest of a comment, from its line feed on. -/
def skipComment (t : Text) : Option Text :=
  let comment := t.takeWhile (· ≠ '\n')
  if comment.any isForbidden then none else some (t.drop comment.length)

/-- The text behind the end of a line, which may have blanks and a comment before it. -/
def endLine (t : Text) : Option Text := do
  let t ←
    match skipBlanks t with
    | '#' :: rest => skipComment rest
    | t => some t
  match t with
  | [] => some []
  | '\n' :: rest => some rest
  | _ => none

/-- The text behind blanks, comments and line feeds, which may separate the items of an array. -/
def skipFiller (inComment : Bool) : Text → Option Text
  | [] => some []
  | c :: cs =>
    if c = '\n' then skipFiller false cs
    else if inComment then if isForbidden c then none else skipFiller true cs
    else if isBlank c then skipFiller false cs
    else if c = '#' then skipFiller true cs
    else some (c :: cs)

/-! ## Strings -/

/-- The character with a number, unless the number is that of none. -/
def scalar? (n : Nat) : Option Char :=
  if n < 0xD800 ∨ (0xE000 ≤ n ∧ n < 0x110000) then some (Char.ofNat n) else none

/-- The character that a letter stands for behind a backslash. -/
def escaped? (c : Char) : Option Char :=
  match c with
  | 'b' => some '\x08'
  | 't' => some '\t'
  | 'n' => some '\n'
  | 'f' => some '\x0c'
  | 'r' => some '\r'
  | '"' => some '"'
  | '\\' => some '\\'
  | _ => none

/-- A string with escapes, behind its opening quote. -/
def readBasic : Text → Option (Text × Text)
  | [] => none
  | '"' :: rest => some ([], rest)
  | '\\' :: 'u' :: a :: b :: c :: d :: rest => do
    let x ← scalar? (← ofHexDigits? [a, b, c, d])
    let (body, rest) ← readBasic rest
    return (x :: body, rest)
  | '\\' :: 'U' :: a :: b :: c :: d :: e :: f :: g :: h :: rest => do
    let x ← scalar? (← ofHexDigits? [a, b, c, d, e, f, g, h])
    let (body, rest) ← readBasic rest
    return (x :: body, rest)
  | '\\' :: c :: rest => do
    let x ← escaped? c
    let (body, rest) ← readBasic rest
    return (x :: body, rest)
  | c :: rest =>
    if isForbidden c then none
    else do
      let (body, rest) ← readBasic rest
      return (c :: body, rest)

/-- A string without escapes, behind its opening quote. -/
def readLiteral (t : Text) : Option (Text × Text) :=
  let body := t.takeWhile (· ≠ '\'')
  match t.drop body.length with
  | [] => none
  | _ :: rest => if body.any isForbidden then none else some (body, rest)

/-- A string of either kind. -/
def readString : Text → Option (String × Text)
  | '"' :: rest => do
    let (body, rest) ← readBasic rest
    return (String.ofList body, rest)
  | '\'' :: rest => do
    let (body, rest) ← readLiteral rest
    return (String.ofList body, rest)
  | _ => none

/-! ## Keys -/

/-- The characters of bare keys. -/
def isBareKeyChar (c : Char) : Bool :=
  c.isAlphanum || c = '-' || c = '_'

/-- A part of a key. -/
def readKeyPart (t : Text) : Option (String × Text) :=
  let bare := t.takeWhile isBareKeyChar
  if bare.isEmpty then readString t else some (String.ofList bare, t.drop bare.length)

/-- A key, with blanks around its dots. -/
def readKey : (fuel : Nat) → Text → Option (List String × Text)
  | 0, _ => none
  | fuel + 1, t => do
    let (part, rest) ← readKeyPart t
    match skipBlanks rest with
    | '.' :: rest => do
      let (parts, rest) ← readKey fuel (skipBlanks rest)
      return (part :: parts, rest)
    | rest => return ([part], rest)

/-! ## Numbers -/

/-- The fraction of a number, if digits follow the point. -/
def readFraction (t : Text) : Text × Text :=
  match t with
  | '.' :: rest => (spanGrouped Char.isDigit rest).getD ([], t)
  | t => ([], t)

/-- The exponent of a number, if digits follow its mark and sign. -/
def readExponent (t : Text) : Option Int × Text :=
  match t with
  | c :: rest =>
    if c = 'e' || c = 'E' then
      let (negative, rest) : Bool × Text :=
        match rest with
        | '-' :: rest => (true, rest)
        | '+' :: rest => (false, rest)
        | rest => (false, rest)
      match spanGrouped Char.isDigit rest with
      | some (digits, later) =>
        (some (if negative then -(ofDigits digits : Int) else ofDigits digits), later)
      | none => (none, t)
    else (none, t)
  | [] => (none, t)

/-- The whole part of a number: a zero, or digits that do not start with one. -/
def readWhole : Text → Option (Text × Text)
  | '0' :: rest => some (['0'], rest)
  | t => spanGrouped Char.isDigit t

/-- A number without its sign. -/
def readUnsigned (negative : Bool) : Text → Option (Value × Text)
  | 'i' :: 'n' :: 'f' :: rest => some (.float (.infinite negative), rest)
  | 'n' :: 'a' :: 'n' :: rest => some (.float .nan, rest)
  | t => do
    let (whole, rest) ← readWhole t
    let (fraction, rest) := readFraction rest
    let (exponent, rest) := readExponent rest
    if fraction.isEmpty && exponent.isNone then
      let n : Int := ofDigits whole
      return (.int (if negative then -n else n), rest)
    else
      let digits := ofDigits (whole ++ fraction)
      return (.float (Double.ofDecimal negative digits (exponent.getD 0 - fraction.length)), rest)

/-- The digits of a number in another base than ten. -/
def readBased (base : Nat) (isDigit : Char → Bool) (t : Text) : Option (Value × Text) :=
  (spanGrouped isDigit t).map fun (digits, rest) => (.int (ofDigitsIn base digits), rest)

/-- A number. -/
def readNumber : Text → Option (Value × Text)
  | '0' :: 'x' :: rest => readBased 16 isHexDigit rest
  | '0' :: 'o' :: rest => readBased 8 (fun c => '0' ≤ c && c ≤ '7') rest
  | '0' :: 'b' :: rest => readBased 2 (fun c => c = '0' || c = '1') rest
  | '+' :: rest => readUnsigned false rest
  | '-' :: rest => readUnsigned true rest
  | t => readUnsigned false t

/-! ## Values -/

mutual

/-- A value. -/
def readValue : (fuel : Nat) → Text → Option (Value × Text)
  | 0, _ => none
  | fuel + 1, t =>
    match t with
    | '"' :: _ | '\'' :: _ => do
      let (s, rest) ← readString t
      return (.str s, rest)
    | 't' :: 'r' :: 'u' :: 'e' :: rest => some (.bool true, rest)
    | 'f' :: 'a' :: 'l' :: 's' :: 'e' :: rest => some (.bool false, rest)
    | '[' :: rest => do
      let (items, rest) ← readItems fuel (← skipFiller false rest)
      return (.list items, rest)
    | t => readNumber t

/-- The items of an array up to its closing bracket; a comma may stand before it. -/
def readItems : (fuel : Nat) → Text → Option (List Value × Text)
  | 0, _ => none
  | fuel + 1, t =>
    match t with
    | ']' :: rest => some ([], rest)
    | t => do
      let (v, rest) ← readValue fuel t
      match ← skipFiller false rest with
      | ',' :: rest => do
        let (items, rest) ← readItems fuel (← skipFiller false rest)
        return (v :: items, rest)
      | ']' :: rest => return ([v], rest)
      | _ => none

end

/-! ## Documents -/

/-- A document as far as it has been read. -/
structure Progress where
  /-- The tables so far. -/
  items : Items := []
  /-- The path of the table that entries go to. -/
  header : List String := []
  /-- The number of headers so far. -/
  sectionNumber : Nat := 0

/-- The next section, under a header. -/
def Progress.enter (p : Progress) (header : List String) (items : Items) : Progress :=
  { items, header, sectionNumber := p.sectionNumber + 1 }

/-- The header of a list of tables behind its opening brackets. -/
def readListHeader (p : Progress) (t : Text) : Option (Progress × Text) := do
  let (path, rest) ← readKey (t.length + 1) (skipBlanks t)
  match rest with
  | ']' :: ']' :: rest => return (p.enter path (← p.items.addTable path), rest)
  | _ => none

/-- The header of a table behind its opening bracket. -/
def readHeader (p : Progress) (t : Text) : Option (Progress × Text) := do
  let (path, rest) ← readKey (t.length + 1) (skipBlanks t)
  match rest with
  | ']' :: rest => return (p.enter path (← p.items.declareTable path), rest)
  | _ => none

/-- An entry. -/
def readEntry (p : Progress) (t : Text) : Option (Progress × Text) := do
  let (key, rest) ← readKey (t.length + 1) t
  match rest with
  | '=' :: rest => do
    let (v, rest) ← readValue (t.length + 1) (skipBlanks rest)
    let items ← p.items.setValue p.header p.sectionNumber key v
    return ({ p with items }, rest)
  | _ => none

/-- The statements of a document. -/
def readStatements : (fuel : Nat) → Progress → Text → Option Progress
  | 0, _, _ => none
  | fuel + 1, p, t =>
    match skipBlanks t with
    | [] => some p
    | '\n' :: rest => readStatements fuel p rest
    | '#' :: rest => do readStatements fuel p (← endLine (← skipComment rest))
    | '[' :: '[' :: rest => do
      let (p, rest) ← readListHeader p rest
      readStatements fuel p (← endLine rest)
    | '[' :: rest => do
      let (p, rest) ← readHeader p rest
      readStatements fuel p (← endLine rest)
    | t => do
      let (p, rest) ← readEntry p t
      readStatements fuel p (← endLine rest)

/-- A carriage return right before a line feed is part of the line end. -/
def joinLineEnds : Text → Text
  | [] => []
  | '\r' :: '\n' :: cs => '\n' :: joinLineEnds cs
  | c :: cs => c :: joinLineEnds cs

/-- The map of a document that is written in this part of TOML. -/
def readRestricted? (t : Text) : Option Entries := do
  let t := joinLineEnds t
  let p ← readStatements (t.length + 1) {} t
  return toEntries p.items

end DocumentTree.Toml
