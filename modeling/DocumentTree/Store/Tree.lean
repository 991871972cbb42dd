import DocumentTree.Json.Writer
import DocumentTree.Store.Container

/-!
# Trees

The subtree under a record, unfolded from the arena. Everything that reads a subtree as a whole
reads it in this form, so it depends on nothing but the subtree: not on the other records, and on
the handles of its own records only where they are shown.

A root element inside a tree is a mere bracket: `Tree.splice` replaces it by its children.

## Main definitions

* `Tree` — a subtree with the handles of its records.
* `Store.subtree?` — the subtree under a record.
* `Tree.splice` — the tree without root elements, as a sequence.
* `Tree.outline` — the subtree printed one node a line.
-/

namespace DocumentTree

/-- A subtree with the handles of its records, as they were given. -/
inductive Tree where
  | text (handle : Value) (value : String)
  | element (handle : Value) (role : Role) (properties : Entries) (children : List Tree)

namespace Tree

/-- The handle of the record at the top. -/
def handle : Tree → Value
  | text handle _ => handle
  | element handle .. => handle

/-- The role at the top; a text has none. -/
def role? : Tree → Option Role
  | text .. => none
  | element _ role .. => some role

/-- Whether the node runs together with its neighbours at block level. -/
def isInline : Tree → Bool
  | text .. => true
  | element _ role .. => role.isInline

mutual

/-- The tree without root elements: each is replaced by its children. -/
def splice : Tree → List Tree
  | text handle value => [text handle value]
  | element handle role properties children =>
    if role = .root then spliceAll children
    else [element handle role properties (spliceAll children)]

/-- The trees without root elements, in order. -/
def spliceAll : List Tree → List Tree
  | [] => []
  | t :: ts => splice t ++ spliceAll ts

end

mutual

/-- The values of the texts in a tree, one after the other. -/
def plainText : Tree → String
  | text _ value => value
  | element _ _ _ children => plainTextAll children

/-- The values of the texts in trees, one after the other. -/
def plainTextAll : List Tree → String
  | [] => ""
  | t :: ts => plainText t ++ plainTextAll ts

end

/-- A property of a node, as `key: value`. -/
def outlineProperty (entry : Key × Value) : Text :=
  entry.1.plain.toList ++ [':', ' '] ++ Json.write .inline entry.2

/-- The properties of a node behind its role. -/
def outlineProperties (properties : Entries) : Text :=
  if properties.isEmpty then [] else ' ' :: Text.join [',', ' '] (properties.map outlineProperty)

mutual

/-- The outline of a tree: a line for each node, the children between brackets. An indent below zero
leaves no space. -/
def outline (indent : Int) : Tree → Text
  | text _ value => Text.spaces indent.toNat ++ "text value: ".toList ++ Json.quote value.toList
  | element _ role properties children =>
    let margin := Text.spaces indent.toNat
    let head := margin ++ role.name.toList ++ outlineProperties properties
    if children.isEmpty then head
    else
      Text.unlines
        ((head ++ [' ', '[']) :: outlineAll (indent + 2) children ++ [margin ++ [']']])

/-- The outlines of trees. -/
def outlineAll (indent : Int) : List Tree → List Text
  | [] => []
  | t :: ts => outline indent t :: outlineAll indent ts

end

end Tree

namespace Store

/-- The subtree under a record, as far as a depth, with the handle that shows its top. There is none
for an unknown number, nor for a subtree that is deeper. -/
def subtreeWithin (s : Store) : (depth : Nat) → Value → NodeId → Option Tree
  | 0, _, _ => none
  | depth + 1, handle, n => do
    let r ← s.get? n
    match r.content with
    | .text value => some (.text handle value)
    | .element role properties children =>
      let trees ← children.mapM fun c => s.subtreeWithin depth (s.shown c) c
      some (.element handle role properties trees)

/-- The subtree under a record. Where no node is its own ancestor, no subtree is deeper than there
are records. -/
def subtree? (s : Store) (h : Handle) : Option Tree :=
  s.subtreeWithin s.size h.given h.id

/-- The subtree under the record that a value names; null stands for no tree. -/
def tree? (s : Store) (root : Value) : Except StoreError (Option Tree) :=
  match root with
  | .null => .ok none
  | root => do
    let (h, _) ← s.find root
    match s.subtree? h with
    | some t => return some t
    | none => throw (.unknownHandle root)

end Store

/-- The outline of a tree; without one, a line that says so. -/
def outlineOf (indent : Int) : Option Tree → Text
  | none => Text.spaces indent.toNat ++ "(empty)".toList
  | some t => t.outline indent

end DocumentTree
