import DocumentTree.Text.Character

/-!
# Texts

A text is a list of characters, so that everything said about it is said by recursion on the list.
This module holds the operations that the rest of the library is written in: trimming, cutting into
lines and joining them, padding to a width, and the normalization of line ends.

## Main definitions

* `trim`, `trimLeft`, `trimRight` — removal of white space at the ends.
* `splitOn sep t`, `lines t`, `join sep ts`, `unlines ts` — cutting and joining.
* `padRight`, `padLeft`, `padCenter` — filling with spaces up to a width.
* `normalizeLineEnds t` — every line end written as one line feed.
* `collapseBlanks t` — every run of ASCII blanks written as one space.
-/

namespace DocumentTree

/-- A text, as its characters in order. -/
abbrev Text := List Char

namespace Text

/-! ## Trimming -/

/-- The text without the white space it starts with. -/
def trimLeft (t : Text) : Text :=
  t.dropWhile isBlank

/-- The text without the characters of a class that it ends with. -/
def dropRightWhile (p : Char → Bool) : Text → Text
  | [] => []
  | c :: cs =>
    match dropRightWhile p cs with
    | [] => if p c then [] else [c]
    | rest => c :: rest

/-- The text without the white space it ends with. -/
def trimRight (t : Text) : Text :=
  dropRightWhile isBlank t

/-- The text without the white space at both ends. -/
def trim (t : Text) : Text :=
  trimRight (trimLeft t)

/-- The white space a text starts with. -/
def leadingBlanks (t : Text) : Text :=
  t.takeWhile isBlank

/-- The white space a text ends with. -/
def trailingBlanks (t : Text) : Text :=
  t.drop (trimRight t).length

/-! ## Cutting and joining -/

/-- The pieces of a text between the occurrences of a separator. There is always at least one. -/
def splitOn (sep : Char) : Text → List Text
  | [] => [[]]
  | c :: cs =>
    if c = sep then [] :: splitOn sep cs
    else
      match splitOn sep cs with
      | [] => [[c]]
      | piece :: pieces => (c :: piece) :: pieces

/-- The lines of a text. A line feed at the end starts one more, empty line. -/
def lines (t : Text) : List Text :=
  splitOn '\n' t

/-- The texts in order, with a separator between neighbours. -/
def join (sep : Text) : List Text → Text
  | [] => []
  | [t] => t
  | t :: ts => t ++ sep ++ join sep ts

/-- The texts as the lines of one text. -/
def unlines (ts : List Text) : Text :=
  join ['\n'] ts

/-- Each line with a text put before it, empty lines left empty. -/
def indentLine (indent line : Text) : Text :=
  if line.isEmpty then [] else indent ++ line

/-- A text repeated. -/
def repeated (n : Nat) (t : Text) : Text :=
  (List.replicate n t).flatten

/-- A number of spaces. -/
def spaces (n : Nat) : Text :=
  List.replicate n ' '

/-! ## Filling to a width -/

/-- The text followed by spaces up to a width. -/
def padRight (width : Nat) (t : Text) : Text :=
  t ++ spaces (width - t.length)

/-- The text preceded by spaces up to a width. -/
def padLeft (width : Nat) (t : Text) : Text :=
  spaces (width - t.length) ++ t

/-- The text between spaces up to a width; of an odd number of spaces the left side has one more. -/
def padCenter (width : Nat) (t : Text) : Text :=
  let free := width - t.length
  spaces (free - free / 2) ++ t ++ spaces (free / 2)

/-! ## Line ends and blanks -/

/-- Every line end written as one line feed: a carriage return, alone or before a line feed,
becomes a line feed. -/
def normalizeLineEnds : Text → Text
  | [] => []
  | '\r' :: '\n' :: cs => '\n' :: normalizeLineEnds cs
  | c :: cs => (if c = '\r' then '\n' else c) :: normalizeLineEnds cs

/-- The ASCII blanks that run together in running text. -/
def isRunningBlank (c : Char) : Bool :=
  c = ' ' || c = '\t' || c = '\n' || c = '\x0c' || c = '\r'

/-- Every run of ASCII blanks written as one space; `after` says whether a blank came right
before. -/
def collapseBlanksFrom (after : Bool) : Text → Text
  | [] => []
  | c :: cs =>
    if isRunningBlank c then
      if after then collapseBlanksFrom true cs else ' ' :: collapseBlanksFrom true cs
    else c :: collapseBlanksFrom false cs

/-- Every run of ASCII blanks written as one space. -/
def collapseBlanks (t : Text) : Text :=
  collapseBlanksFrom false t

/-- A text cut before its final line feed, if it ends in one. -/
def cutFinalLineFeed : Text → Text × Text
  | [] => ([], [])
  | ['\n'] => ([], ['\n'])
  | c :: cs => let (body, final) := cutFinalLineFeed cs; (c :: body, final)

/-- The ASCII capital form of a text of which only ASCII letters matter. Beside the small ASCII
letters, the characters whose capital form consists of ASCII letters are the dotless i, the long s
and the ligatures. -/
def asciiCapitals (t : Text) : Text :=
  t.flatMap fun c =>
    if c.isLower then [c.toUpper]
    else
      match c.toNat with
      | 0xDF => ['S', 'S']
      | 0x131 => ['I']
      | 0x17F => ['S']
      | 0xFB00 => ['F', 'F']
      | 0xFB01 => ['F', 'I']
      | 0xFB02 => ['F', 'L']
      | 0xFB03 => ['F', 'F', 'I']
      | 0xFB04 => ['F', 'F', 'L']
      | 0xFB05 => ['S', 'T']
      | 0xFB06 => ['S', 'T']
      | _ => [c]

end Text

end DocumentTree
