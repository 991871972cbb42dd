import DocumentTree.Text.Basic

/-!
# Escaping of running text

Text is stored raw and escaped only when it is written, so that a literal `*` never becomes emphasis
and a literal `|` never splits a cell. An escape is a backslash before the character.

## Main definitions

* `escapeText t` — the characters that inline syntax is made of.
* `escapeBlockStart line` — the start of a paragraph that would open another block.
* `escapeClosingHashes content` — the end of a heading that would close it.
* `escapePipes t` — the pipes inside a table cell.
-/

namespace DocumentTree.Markdown

/-! ## Inline syntax -/

/-- The characters that are escaped wherever they stand. -/
def isAlwaysEscaped (c : Char) : Bool :=
  c = '\\' || c = '`' || c = '*' || c = '[' || c = ']' || c = '~'

/-- Whether a neighbour is a letter or numeral. -/
def isWordBeside (neighbour : Option Char) : Bool :=
  match neighbour with
  | some c => Text.isAlphanumeric c
  | none => false

/-- Whether `<` before this character would open a tag or an autolink. -/
def opensTag (next : Option Char) : Bool :=
  match next with
  | some c => Text.isLetter c || c = '/' || c = '!' || c = '?'
  | none => false

/-- Whether `&` before this character would open a character reference. -/
def opensReference (next : Option Char) : Bool :=
  match next with
  | some c => c = '#' || Text.isLetter c
  | none => false

/-- Whether a character between two neighbours is escaped. An underscore inside a word stands for
itself. -/
def needsEscape (previous : Option Char) (c : Char) (next : Option Char) : Bool :=
  if isAlwaysEscaped c then true
  else if c = '_' then !(isWordBeside previous && isWordBeside next)
  else if c = '<' then opensTag next
  else if c = '&' then opensReference next
  else false

/-- The escaped form of a text that follows a character. -/
def escapeTextAfter (previous : Option Char) : Text → Text
  | [] => []
  | c :: cs =>
    if needsEscape previous c cs.head? then '\\' :: c :: escapeTextAfter (some c) cs
    else c :: escapeTextAfter (some c) cs

/-- A text with the characters of inline syntax escaped. -/
def escapeText (t : Text) : Text :=
  escapeTextAfter none t

/-! ## Block starts -/

/-- Whether a line, up to a final line feed, consists of one character of thematic breaks, three
times or more, with blanks between and behind. -/
def isBreakLike (line : Text) : Bool :=
  match (Text.cutFinalLineFeed line).1 with
  | [] => false
  | mark :: rest =>
    (mark = '-' || mark = '_' || mark = '*')
      && rest.all (fun c => c = mark || Text.isLineBlank c)
      && 2 ≤ rest.count mark

/-- Whether a line, up to a final line feed, is a run of equals signs with blanks behind. -/
def isUnderlineLike (line : Text) : Bool :=
  let body := (Text.cutFinalLineFeed line).1
  match body with
  | '=' :: _ => (body.dropWhile (· = '=')).all Text.isLineBlank
  | _ => false

/-- Whether what follows a list marker makes it one: white space, or nothing. -/
def endsMarker : Text → Bool
  | [] => true
  | c :: _ => Text.isBlank c

/-- Whether a line starts with a bullet. A star is escaped in any text and is no bullet here. -/
def startsWithBullet : Text → Bool
  | c :: cs => (c = '-' || c = '+') && endsMarker cs
  | [] => false

/-- The digits of an ordered list marker that a line starts with. -/
def orderedMarker? (line : Text) : Option Text :=
  let digits := line.takeWhile Text.isDecimalDigit
  match line.dropWhile Text.isDecimalDigit with
  | c :: rest =>
    if (c = '.' || c = ')') && 1 ≤ digits.length && digits.length ≤ 9 && endsMarker rest then
      some digits
    else none
  | [] => none

/-- A line with an escape where its start would open another block than a paragraph. -/
def escapeBlockStart (line : Text) : Text :=
  if isBreakLike line || isUnderlineLike line then '\\' :: line
  else if line.head? = some '#' || line.head? = some '>' then '\\' :: line
  else if startsWithBullet line then '\\' :: line
  else
    match orderedMarker? line with
    | some digits => digits ++ '\\' :: line.drop digits.length
    | none => line

/-! ## Closing sequences of headings -/

/-- The run of hashes that a text ends with, and what stands before it. -/
def cutClosingHashes (t : Text) : Text × Text :=
  let body := Text.dropRightWhile (· = '#') t
  (body, t.drop body.length)

/-- A heading's content with an escape before a final run of hashes that white space, or nothing,
precedes; a line feed may follow it. -/
def escapeClosingHashes (content : Text) : Text :=
  let (line, final) := Text.cutFinalLineFeed content
  let (body, hashes) := cutClosingHashes line
  let separated :=
    match body.getLast? with
    | none => true
    | some c => Text.isBlank c
  if !hashes.isEmpty && separated then body ++ '\\' :: hashes ++ final else content

/-! ## Pipes -/

/-- The form of a text that follows a character, with an escape before each pipe that no backslash
precedes. -/
def escapePipesAfter (previous : Option Char) : Text → Text
  | [] => []
  | c :: cs =>
    if c = '|' && previous != some '\\' then '\\' :: c :: escapePipesAfter (some c) cs
    else c :: escapePipesAfter (some c) cs

/-- A text with an escape before each pipe that no backslash precedes. -/
def escapePipes (t : Text) : Text :=
  escapePipesAfter none t

end DocumentTree.Markdown
