import DocumentTree.Markdown.Escape
import DocumentTree.Markdown.Options

/-!
# Inline fragments

Inline nodes are written one by one and then joined, but what a delimiter means depends on its
neighbours: an underscore beside a letter opens and closes nothing, and an exclamation mark before a
link makes an image of it. So each node is first written as a fragment that remembers what it is,
and `settle` then goes through the fragments from left to right and replaces what its neighbours
would misread.

## Main definitions

* `Fragment` — the text of a node, with what the adjustment needs to know.
* `wrap marker inner` — content between markers, white space at its ends moved outside.
* `settle`, `joinFragments` — the texts of neighbouring fragments, adjusted; and their sequence.
-/

namespace DocumentTree.Markdown

/-- What a fragment is to its neighbours. -/
inductive FragmentKind where
  /-- Literal text. -/
  | text
  /-- A link. -/
  | link
  /-- Emphasis, strong or not, with the form that it has between asterisks. -/
  | stress (asterisks : Text)
  /-- Anything else. -/
  | other

/-- A node as written, before its neighbours are looked at. -/
structure Fragment where
  /-- The text. -/
  text : Text
  /-- What the fragment is to its neighbours. -/
  kind : FragmentKind := .other

/-- Content between two markers. White space at the ends stays outside, and content that is nothing
else is not marked at all. -/
def wrap (marker inner : Text) : Text :=
  let core := Text.trim inner
  if core.isEmpty then inner
  else Text.leadingBlanks inner ++ marker ++ core ++ marker ++ Text.trailingBlanks inner

/-- Content as emphasis between a number of marks; it can change to asterisks. -/
def stressed (mark : Stress) (width : Nat) (inner : Text) : Fragment where
  text := wrap (List.replicate width mark.char) inner
  kind := .stress (wrap (List.replicate width Stress.star.char) inner)

/-- Whether a text starts or ends with an underscore that touches a letter or numeral outside. -/
def touchesWord (previous : Option Char) (t : Text) (next : Option Char) : Bool :=
  (t.head? = some '_' && isWordBeside previous) || (t.getLast? = some '_' && isWordBeside next)

/-- Whether a fragment is a link. -/
def Fragment.isLink (f : Fragment) : Bool :=
  match f.kind with
  | .link => true
  | _ => false

/-- The text of a fragment between its neighbours: the last character before it, which has been
adjusted already, and the fragment that follows, which has not. -/
def Fragment.settled (o : Options) (previous : Option Char) (f : Fragment)
    (following : Option Fragment) : Text :=
  match f.kind with
  | .stress asterisks =>
    if touchesWord previous f.text (following.bind fun g => g.text.head?) then asterisks
    else f.text
  | .text =>
    if o.escapeSpecial && (following.map Fragment.isLink).getD false
        && f.text.getLast? = some '!' then
      f.text.dropLast ++ ['\\', '!']
    else f.text
  | _ => f.text

/-- The texts of neighbouring fragments that follow a character. -/
def settle (o : Options) (previous : Option Char) : List Fragment → List Text
  | [] => []
  | f :: rest =>
    let text := f.settled o previous rest.head?
    text :: settle o text.getLast? rest

/-- Fragments in sequence. Those without text are no neighbours. -/
def joinFragments (o : Options) (fragments : List Fragment) : Text :=
  (settle o none (fragments.filter fun f => !f.text.isEmpty)).flatten

end DocumentTree.Markdown
