import DocumentTree.Text.Basic

/-!
# Delimiters of code

Code is written verbatim, so its delimiter has to be longer than any run of the same character
inside.

## Main definitions

* `longestRun c t` — the length of the longest run of a character.
* `fence c minimum t` — a fence that no line of the text closes.
* `spanDelimiter c t` — the body and the delimiter of a code span.
* `codeSpan t` — a whole code span.
-/

namespace DocumentTree.Markdown

/-- The longest run of items that pass a test, given the longest run so far and the run that is
open. -/
def longestRunFrom {α : Type} (p : α → Bool) (best current : Nat) : List α → Nat
  | [] => best
  | x :: xs =>
    if p x then longestRunFrom p (max best (current + 1)) (current + 1) xs
    else longestRunFrom p best 0 xs

/-- The length of the longest run of a character in a text. -/
def longestRun (c : Char) (t : Text) : Nat :=
  longestRunFrom (· = c) 0 0 t

/-- The length of the longest run of a delimiter in a text. A delimiter that is not a single
character is never met. -/
def longestRunOf (delimiter : Text) (t : Text) : Nat :=
  match delimiter with
  | [c] => longestRun c t
  | _ => 0

/-- A fence longer than every run of its delimiter in a text, and of a minimal length. -/
def fence (delimiter : Text) (minimum : Int) (t : Text) : Text :=
  Text.repeated (max minimum.toNat (longestRunOf delimiter t + 1)) delimiter

/-- The body and the delimiter of a code span for a preferred delimiter. A body that starts or ends
with the delimiter is set off by spaces. -/
def spanDelimiter (delimiter : Text) (t : Text) : Text × Text :=
  let run := longestRunOf delimiter t
  if run = 0 then (t, delimiter)
  else
    let touches := delimiter.isPrefixOf t || delimiter.isSuffixOf t
    (if touches then [' '] ++ t ++ [' '] else t, Text.repeated (run + 1) delimiter)

/-- A text on one line: every line end becomes a space. -/
def onOneLine (t : Text) : Text :=
  (Text.normalizeLineEnds t).map fun c => if c = '\n' then ' ' else c

/-- A code span; empty code has none. A reader takes one space off each end of a body that starts
and ends with a space and is not all spaces, so such a body gets one more at each end. -/
def codeSpan (t : Text) : Text :=
  let line := onOneLine t
  if line.isEmpty then []
  else
    let (body, delimiter) := spanDelimiter ['`'] line
    let stripped :=
      body = line && line.head? = some ' ' && line.getLast? = some ' ' && line.any (· ≠ ' ')
    let body := if stripped then [' '] ++ body ++ [' '] else body
    delimiter ++ body ++ delimiter

end DocumentTree.Markdown
