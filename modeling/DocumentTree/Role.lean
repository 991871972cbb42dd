import DocumentTree.Value.Display

/-!
# Roles of elements

The vocabulary has eighteen roles, each with a name. A record's role can be overwritten from outside
with any value, so a value beyond the vocabulary is a role too; only the lowering refuses it.

## Main definitions

* `Role` — a role of the vocabulary, or another value.
* `Role.toValue`, `Role.ofValue` — the value of a role and back.
* `Role.name` — the role in running text.
* `Role.isInline` — the roles that run together into paragraphs.
-/

namespace DocumentTree

/-- A role of the vocabulary, or another value. -/
inductive Role where
  | root
  | heading
  | paragraph
  | strong
  | emphasis
  | strikethrough
  | inlineCode
  | code
  | blockquote
  | link
  | image
  | list
  | listItem
  | table
  | tableRow
  | tableCell
  | tableHeader
  | thematicBreak
  | other (given : Value)
  deriving DecidableEq, Repr

namespace Role

/-- The value of a role: its name, for a role of the vocabulary. -/
def toValue : Role → Value
  | root => .str "root"
  | heading => .str "heading"
  | paragraph => .str "paragraph"
  | strong => .str "strong"
  | emphasis => .str "emphasis"
  | strikethrough => .str "strikethrough"
  | inlineCode => .str "inlineCode"
  | code => .str "code"
  | blockquote => .str "blockquote"
  | link => .str "link"
  | image => .str "image"
  | list => .str "list"
  | listItem => .str "listItem"
  | table => .str "table"
  | tableRow => .str "tableRow"
  | tableCell => .str "tableCell"
  | tableHeader => .str "tableHeader"
  | thematicBreak => .str "thematicBreak"
  | other given => given

/-- The role in running text. -/
def name (role : Role) : String :=
  role.toValue.plain

/-- The roles of the vocabulary. -/
def vocabulary : List Role :=
  [root, heading, paragraph, strong, emphasis, strikethrough, inlineCode, code, blockquote, link,
    image, list, listItem, table, tableRow, tableCell, tableHeader, thematicBreak]

/-- The role with a value: the one of the vocabulary if there is one, another otherwise. -/
def ofValue (v : Value) : Role :=
  (vocabulary.find? fun role => role.toValue = v).getD (other v)

/-- Whether the role belongs to the vocabulary. -/
def isKnown : Role → Bool
  | other _ => false
  | _ => true

/-- The roles that are grouped into paragraphs at block level. An image is not among them: it gets a
paragraph of its own. -/
def isInline : Role → Bool
  | strong | emphasis | strikethrough | inlineCode | link => true
  | _ => false

/-- Reading a value gives a role with that value. -/
theorem toValue_ofValue (v : Value) : (ofValue v).toValue = v := by
  unfold ofValue
  cases h : vocabulary.find? fun role => role.toValue = v with
  | none => rfl
  | some role => simpa using List.find?_some h

/-- The value of a role of the vocabulary gives that role. -/
theorem ofValue_toValue {role : Role} (h : role.isKnown = true) : ofValue role.toValue = role := by
  cases role with
  | other given => cases h
  | _ => rfl

end Role

end DocumentTree
