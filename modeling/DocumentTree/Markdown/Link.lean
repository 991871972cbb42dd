import DocumentTree.Text.Basic

/-!
# Parts of links and images

## Main definitions

* `escapeBrackets t` — the alternative text of an image.
* `parensBalanced t` — whether the parentheses of a text match.
* `destination url` — a destination, bare where that is possible, between angle brackets otherwise.
* `title t` — a title between double quotes.
-/

namespace DocumentTree.Markdown

/-- A text with backslashes and square brackets escaped. -/
def escapeBrackets (t : Text) : Text :=
  t.flatMap fun c => if c = '\\' || c = '[' || c = ']' then ['\\', c] else [c]

/-- Whether a text closes the open parentheses and no others; `depth` of them are open. -/
def parensBalancedFrom (depth : Nat) : Text → Bool
  | [] => depth = 0
  | c :: cs =>
    if c = '(' then parensBalancedFrom (depth + 1) cs
    else if c = ')' then
      match depth with
      | 0 => false
      | depth + 1 => parensBalancedFrom depth cs
    else parensBalancedFrom depth cs

/-- Whether the parentheses of a text match. -/
def parensBalanced (t : Text) : Bool :=
  parensBalancedFrom 0 t

/-- A text with each ampersand escaped. -/
def escapeAmpersands (t : Text) : Text :=
  t.flatMap fun c => if c = '&' then ['\\', c] else [c]

/-- Whether a destination cannot stand bare: an empty one, and one with white space, control
characters, angle brackets or parentheses that do not match. -/
def needsAngles (url : Text) : Bool :=
  url.isEmpty
    || url.any (fun c => Text.isBlank c || Text.isControl c || c = '<' || c = '>')
    || !parensBalanced url

/-- A destination between angle brackets. Brackets inside are escaped, a line feed becomes a
space. -/
def angled (url : Text) : Text :=
  ['<'] ++ url.flatMap (fun c =>
    if c = '<' || c = '>' then ['\\', c] else if c = '\n' then [' '] else [c]) ++ ['>']

/-- A link's destination, ready to stand between parentheses. -/
def destination (url : Text) : Text :=
  let url := escapeAmpersands url
  if needsAngles url then angled url else url

/-- A link's title, between double quotes. -/
def title (t : Text) : Text :=
  ['"'] ++ t.flatMap (fun c => if c = '\\' || c = '"' then ['\\', c] else [c]) ++ ['"']

end DocumentTree.Markdown
