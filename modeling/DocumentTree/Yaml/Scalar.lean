import DocumentTree.Number.Digits
import DocumentTree.Text.Basic
import DocumentTree.Value.Basic

/-!
# Scalars of YAML

A plain scalar is resolved by its spelling: the words for truth values and null, integers in several
bases, also in base sixty with colons, and floating-point numbers; anything else is a string. A
quoted scalar is always a string.

## Main definitions

* `resolve` — the value of a plain scalar.
* `readQuoted` — a quoted scalar on one line.
* `readPlain` — the extent of a plain scalar on one line.
* `readKey` — the key of a mapping's entry.
-/

namespace DocumentTree.Yaml

/-! ## Resolution -/

/-- The spellings of a word: small, capitalized, and in capitals. -/
def spellings (word : String) : List String :=
  let cs := word.toList
  [word, String.ofList ((cs.take 1).map Char.toUpper ++ cs.drop 1),
    String.ofList (cs.map Char.toUpper)]

/-- The truth value that a word stands for. -/
def truthValue? (s : String) : Option Bool :=
  if (["yes", "true", "on"].flatMap spellings).contains s then some true
  else if (["no", "false", "off"].flatMap spellings).contains s then some false
  else none

/-- Whether a text stands for null. -/
def isNull (s : String) : Bool :=
  s = "" || s = "~" || (spellings "null").contains s

/-- The sign of a number, and the text behind it. -/
def cutSign : Text → Bool × Text
  | '-' :: rest => (true, rest)
  | '+' :: rest => (false, rest)
  | t => (false, t)

/-- Whether a text consists of characters of a class and of underscores. -/
def isRun (isDigit : Char → Bool) (t : Text) : Bool :=
  !t.isEmpty && t.all fun c => isDigit c || c = '_'

/-- A text without its underscores. -/
def ungrouped (t : Text) : Text :=
  t.filter (· ≠ '_')

/-- Whether a part behind a colon is a digit below sixty: one digit, or two the first of which is at
most five. -/
def isSexagesimalDigit : Text → Bool
  | [c] => c.isDigit
  | [c, d] => '0' ≤ c && c ≤ '5' && d.isDigit
  | _ => false

/-- The number that an unsigned text denotes, if it is spelled as an integer. -/
def natural? (t : Text) : Option Nat :=
  match t with
  | '0' :: 'b' :: rest =>
    if isRun (fun c => c = '0' || c = '1') rest then some (ofDigitsIn 2 (ungrouped rest)) else none
  | '0' :: 'x' :: rest =>
    if isRun isHexDigit rest then some (ofDigitsIn 16 (ungrouped rest)) else none
  | ['0'] => some 0
  | '0' :: rest =>
    if isRun (fun c => '0' ≤ c && c ≤ '7') rest then some (ofDigitsIn 8 (ungrouped rest)) else none
  | t =>
    match Text.splitOn ':' t with
    | [] => none
    | first :: parts =>
      if (first.head?.map Char.isDigit).getD false && isRun Char.isDigit first
          && parts.all isSexagesimalDigit then
        some (parts.foldl (fun n part => 60 * n + ofDigits part) (ofDigits (ungrouped first)))
      else none

/-- The exponent of a floating-point number: missing, or with a mark and a sign. -/
def exponent? : Text → Option Int
  | [] => some 0
  | mark :: sign :: digits =>
    if (mark = 'e' || mark = 'E') && (sign = '-' || sign = '+') && !digits.isEmpty
        && digits.all Char.isDigit then
      some (if sign = '-' then -(ofDigits digits : Int) else ofDigits digits)
    else none
  | _ => none

/-- The floating-point number that an unsigned text with a point denotes. -/
def decimal? (negative : Bool) (t : Text) : Option Double := do
  let isPart := fun c : Char => c.isDigit || c = '_'
  let whole := t.takeWhile isPart
  match t.drop whole.length with
  | '.' :: rest =>
    let fraction := rest.takeWhile isPart
    let exponent ← exponent? (rest.drop fraction.length)
    let starts := fun u : Text => (u.head?.map Char.isDigit).getD false
    if starts whole || (whole.isEmpty && starts fraction) then
      let digits := ungrouped (whole ++ fraction)
      some (Double.ofDecimal negative (ofDigits digits)
        (exponent - (ungrouped fraction).length))
    else none
  | _ => none

/-- The floating-point number that a text denotes. -/
def float? (t : Text) : Option Double :=
  let (negative, body) := cutSign t
  let name := String.ofList body
  if (spellings "inf").any fun s => name = "." ++ s then some (.infinite negative)
  else if name ∈ [".nan", ".NaN", ".NAN"] then if body = t then some .nan else none
  else if body.head? = some '.' && body ≠ t then none
  else decimal? negative body

/-- The integer that a text denotes. -/
def integer? (t : Text) : Option Int :=
  let (negative, body) := cutSign t
  (natural? body).map fun n => if negative then -(n : Int) else n

/-- The value of a plain scalar. A lone equals sign, and the sign for a mapping to be merged, stand
for values that have no form here. -/
def resolve (t : Text) : Option Value :=
  let s := String.ofList t
  if s = "=" || s = "<<" then none
  else if isNull s then some .null
  else
    match truthValue? s, float? t, integer? t with
    | some b, _, _ => some (.bool b)
    | _, some x, _ => some (.float x)
    | _, _, some i => some (.int i)
    | _, _, _ => some (.str s)

/-! ## Quoted scalars -/

/-- A single-quoted scalar behind its opening quote; a quote inside is written twice. -/
def readSingle : Text → Option (Text × Text)
  | [] => none
  | '\'' :: '\'' :: rest => do
    let (body, rest) ← readSingle rest
    return ('\'' :: body, rest)
  | '\'' :: rest => some ([], rest)
  | c :: rest => do
    let (body, rest) ← readSingle rest
    return (c :: body, rest)

/-- The character that a letter stands for behind a backslash. -/
def escaped? (c : Char) : Option Char :=
  match c with
  | '0' => some '\x00'
  | 'a' => some '\x07'
  | 'b' => some '\x08'
  | 't' => some '\t'
  | '\t' => some '\t'
  | 'n' => some '\n'
  | 'v' => some '\x0b'
  | 'f' => some '\x0c'
  | 'r' => some '\r'
  | 'e' => some '\x1b'
  | ' ' => some ' '
  | '"' => some '"'
  | '\\' => some '\\'
  | '/' => some '/'
  | 'N' => some '\u0085'
  | '_' => some '\u00a0'
  | 'L' => some '\u2028'
  | 'P' => some '\u2029'
  | _ => none

/-- A double-quoted scalar behind its opening quote. -/
def readDouble : Text → Option (Text × Text)
  | [] => none
  | '"' :: rest => some ([], rest)
  | '\\' :: 'x' :: a :: b :: rest => do
    let n ← ofHexDigits? [a, b]
    let (body, rest) ← readDouble rest
    return (Char.ofNat n :: body, rest)
  | '\\' :: 'u' :: a :: b :: c :: d :: rest => do
    let n ← ofHexDigits? [a, b, c, d]
    let (body, rest) ← readDouble rest
    return (Char.ofNat n :: body, rest)
  | '\\' :: 'U' :: a :: b :: c :: d :: e :: f :: g :: h :: rest => do
    let n ← ofHexDigits? [a, b, c, d, e, f, g, h]
    let (body, rest) ← readDouble rest
    return (Char.ofNat n :: body, rest)
  | '\\' :: c :: rest => do
    let x ← escaped? c
    let (body, rest) ← readDouble rest
    return (x :: body, rest)
  | c :: rest => do
    let (body, rest) ← readDouble rest
    return (c :: body, rest)

/-- A quoted scalar of either kind. -/
def readQuoted : Text → Option (String × Text)
  | '\'' :: rest => do
    let (body, rest) ← readSingle rest
    return (String.ofList body, rest)
  | '"' :: rest => do
    let (body, rest) ← readDouble rest
    return (String.ofList body, rest)
  | _ => none

/-! ## Plain scalars -/

/-- Whether a character ends a plain scalar inside brackets. -/
def isFlowMark (c : Char) : Bool :=
  c = ',' || c = '?' || c = '[' || c = ']' || c = '\x7b' || c = '\x7d'

/-- Whether a text goes on with a blank, or not at all. -/
def startsBlank : Text → Bool
  | [] => true
  | c :: _ => c = ' ' || c = '\t'

/-- Whether a colon before a text ends a key. -/
def endsKey (inFlow : Bool) (rest : Text) : Bool :=
  startsBlank rest || (inFlow && (rest.head?.map isFlowMark).getD false)

/-- The characters that no plain scalar starts with. -/
def isIndicator (c : Char) : Bool :=
  ",[]#&*!|>'\"%@`".toList.contains c || c = '\x7b' || c = '\x7d'

/-- Whether a plain scalar starts here. A dash, and outside brackets a question mark or a colon, may
start one when no blank follows. -/
def startsPlain (inFlow : Bool) : Text → Bool
  | [] => false
  | c :: rest =>
    if c = '-' then !startsBlank rest
    else if c = '?' || c = ':' then !inFlow && !startsBlank rest
    else c ≠ ' ' && c ≠ '\t' && !isIndicator c

/-- A plain scalar on one line with the blanks behind it, and the rest. A comment needs a blank
before it. -/
def spanPlain (inFlow afterBlank : Bool) : Text → Text × Text
  | [] => ([], [])
  | c :: rest =>
    if (c = ':' && endsKey inFlow rest) || (c = '#' && afterBlank) || c = '\t'
        || (inFlow && isFlowMark c) then ([], c :: rest)
    else
      let (body, later) := spanPlain inFlow (c = ' ') rest
      (c :: body, later)

/-- A plain scalar on one line, and the rest. -/
def readPlain (inFlow : Bool) (t : Text) : Option (Text × Text) :=
  if startsPlain inFlow t then
    let (body, rest) := spanPlain inFlow false t
    some (Text.dropRightWhile (· = ' ') body, rest)
  else none

/-! ## Keys -/

/-- The key that a plain scalar stands for. A lone equals sign is a string here. -/
def resolveKey (t : Text) : Option Key :=
  if t = ['='] then some (.str "=") else (resolve t).bind Value.key?

/-- A key on one line: a quoted string, or what a plain scalar stands for. -/
def readKey (inFlow : Bool) (t : Text) : Option (Key × Text) :=
  match readQuoted t with
  | some (s, rest) => some (.str s, rest)
  | none => do
    let (body, rest) ← readPlain inFlow t
    return (← resolveKey body, rest)

end DocumentTree.Yaml
