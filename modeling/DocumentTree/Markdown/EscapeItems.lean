import DocumentTree.Markdown.Escape
import DocumentTree.Value.Equality

/-!
# Escaping of texts in parts

Running text may be given as a sequence of parts, each a string. A part is escaped where a single
character would be: it is escaped as a whole, with one backslash before it, and its neighbours are
the parts beside it. A part that is a piece of the row of characters escaped everywhere counts as
one of them, and so does the empty part.

A map serves as the sequence of its keys, but neighbours are looked up in it by position, as keys.

## Main definitions

* `escapeList`, `escapeKeys` — the escaped text of the items of a list, and of the keys of a map.
* `ItemFault` — why there is none.
-/

namespace DocumentTree.Markdown

/-- Why parts cannot be escaped. -/
inductive ItemFault where
  /-- A part is no string. -/
  | notAString
  /-- A neighbour is no string. -/
  | neighbour
  /-- Nothing stands at the position of a neighbour. -/
  | missing (position : Nat)

/-- The characters that are escaped wherever they stand, in a row. -/
def alwaysEscaped : Text :=
  ['\\', '`', '*', '[', ']', '~']

/-- Whether a text stands somewhere inside another one. -/
def isPieceOf (piece : Text) : Text → Bool
  | [] => piece.isEmpty
  | c :: rest => piece.isPrefixOf (c :: rest) || isPieceOf piece rest

/-- Whether a text is not empty and all its characters are of a class. -/
def isAll (p : Char → Bool) (t : Text) : Bool :=
  !t.isEmpty && t.all p

/-- A neighbour as a text. -/
def neighbourText : Value → Except ItemFault Text
  | .str s => .ok s.toList
  | _ => .error .neighbour

/-- Whether a part is escaped, given its position and what stands behind it. `look` finds what
stands at a position. What counts as empty is no neighbour for an opening sign. -/
def needsEscapeAt (look : Nat → Except ItemFault Value) (i : Nat) (part : Text) (next : Value) :
    Except ItemFault Bool :=
  if isPieceOf part alwaysEscaped then .ok true
  else if part = ['_'] then do
    let before ← if i = 0 then pure [] else (look (i - 1)).bind neighbourText
    let behind ← neighbourText next
    return !(isAll Text.isAlphanumeric before && isAll Text.isAlphanumeric behind)
  else if !next.isTruthy then .ok false
  else if part = ['<'] then do
    let next ← neighbourText next
    return isAll Text.isLetter next || isPieceOf next ['/', '!', '?']
  else if part = ['&'] then do
    if next.equal (.str "#") then return true
    return isAll Text.isLetter (← neighbourText next)
  else .ok false

/-- The escaped text of parts from a position on. -/
def escapeItemsFrom (look : Nat → Except ItemFault Value) (i : Nat) :
    List Value → Except ItemFault Text
  | [] => .ok []
  | part :: rest => do
    let next ← if rest.isEmpty then pure (.str "") else look (i + 1)
    match part with
    | .str s => do
      let escaped ← needsEscapeAt look i s.toList next
      let later ← escapeItemsFrom look (i + 1) rest
      return (if escaped then '\\' :: s.toList else s.toList) ++ later
    | _ => throw .notAString

/-- The escaped text of the items of a list. -/
def escapeList (items : List Value) : Except ItemFault Text :=
  escapeItemsFrom (fun i => (items[i]?.map .ok).getD (.error (.missing i))) 0 items

/-- The escaped text of the keys of a map. -/
def escapeKeys (entries : Entries) : Except ItemFault Text :=
  escapeItemsFrom (fun i => ((entries.get? (.int i)).map .ok).getD (.error (.missing i))) 0
    (entries.map fun entry => entry.1.toValue)

end DocumentTree.Markdown
