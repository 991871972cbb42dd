import DocumentTree.Property
import DocumentTree.Role
import DocumentTree.Store.Handle
import DocumentTree.Value.Display

/-!
# The element store

A store is an arena of records. A record is a text or an element, and knows its parent; an element
knows its children in order. Records are numbered in the order of creation and never removed: taking
a node out of its parent only cuts the link.

Operations are given handles from outside, so a handle argument can be any value. One that equals
the number of a record names it; any other key names nothing; a list or a map cannot be a key at
all. A link keeps the handles of its two ends as they were given when it was made.

## Main definitions

* `Content`, `Link`, `Record`, `Store` — the records and the arena.
* `StoreError` — why an operation is refused, and its `message`.
* `Store.find`, `Store.findElement` — the record that a value names.
* `Store.ancestors` — the ancestors of a record, nearest first.
-/

namespace DocumentTree

/-- What a record holds. -/
inductive Content where
  | text (value : String)
  | element (role : Role) (properties : Entries) (children : List NodeId)

/-- How a record hangs on its parent. -/
structure Link where
  /-- The element that the record is a child of. -/
  parent : Handle
  /-- The handle by which the record itself was attached. -/
  child : Value

/-- A node of the arena. -/
structure Record where
  /-- What the record holds. -/
  content : Content
  /-- How the record hangs on its parent, if it has one. -/
  link : Option Link := none

namespace Record

/-- The parent of the record, if it has one. -/
def parent (r : Record) : Option NodeId :=
  r.link.map fun link => link.parent.id

/-- The role of an element; a text has none. -/
def role? (r : Record) : Option Role :=
  match r.content with
  | .text _ => none
  | .element role _ _ => some role

/-- The children of an element; a text has none. -/
def children (r : Record) : List NodeId :=
  match r.content with
  | .text _ => []
  | .element _ _ children => children

/-- Whether the record is a text. -/
def isText (r : Record) : Bool :=
  match r.content with
  | .text _ => true
  | .element .. => false

/-- The record with other children; a text stays as it is. -/
def mapChildren (f : List NodeId → List NodeId) (r : Record) : Record :=
  match r.content with
  | .text _ => r
  | .element role properties children => { r with content := .element role properties (f children) }

end Record

/-- Why a store operation is refused. A handle is carried as it was given. -/
inductive StoreError where
  /-- A list or a map was given for a handle or a role. -/
  | noKey (given : Value)
  /-- The role of a new element is not in the vocabulary. -/
  | unsupportedRole (role : Value)
  /-- A text or a property map has another type. -/
  | property (error : PropertyError)
  /-- No record has this handle. -/
  | unknownHandle (handle : Value)
  /-- An element is needed, and the record is a text. -/
  | notAnElement (handle : Value)
  /-- A text is needed, and the record is an element. -/
  | notAText (handle : Value)
  /-- A node would become its own child. -/
  | ownChild (handle : Value)
  /-- A node would become the child of one of its descendants. -/
  | ancestor (child parent : Value)
  /-- Something that is neither a text nor an element description was to be built. -/
  | notADescription

namespace StoreError

/-- The invariant that the operation would break, if that is why it is refused. -/
def broken? : StoreError → Option BrokenInvariant
  | unknownHandle handle => some ⟨"unknown node handle " ++ handle.quotedString⟩
  | notAnElement handle =>
    some ⟨"node " ++ handle.plain ++ " is a text record and cannot have children"⟩
  | notAText handle => some ⟨"node " ++ handle.plain ++ " is not a text record"⟩
  | ownChild handle => some ⟨"node " ++ handle.plain ++ " cannot be its own child"⟩
  | ancestor child parent =>
    some ⟨"node " ++ child.plain ++ " is an ancestor of " ++ parent.plain
      ++ " and cannot become its child"⟩
  | _ => none

/-- The wording of the error, where it has one. -/
def message? : StoreError → Option String
  | unsupportedRole role => some ("Unsupported element role: " ++ role.quotedString)
  | property error => some error.message
  | e => e.broken?.map BrokenInvariant.message

end StoreError

/-- An arena of records. -/
structure Store where
  /-- The records; a handle is a position. -/
  records : Array Record := #[]

namespace Store

/-- The number of records. -/
def size (s : Store) : Nat := s.records.size

/-- The record with a number. -/
def get? (s : Store) (n : NodeId) : Option Record := s.records[n]?

/-! ## Handles -/

/-- The record that a value names, with the value as its handle. -/
def find (s : Store) (v : Value) : Except StoreError (Handle × Record) :=
  if v.isKey then
    match Handle.ofValue? v with
    | some h =>
      match s.get? h.id with
      | some r => .ok (h, r)
      | none => .error (.unknownHandle v)
    | none => .error (.unknownHandle v)
  else .error (.noKey v)

/-- The element that a value names. -/
def findElement (s : Store) (v : Value) : Except StoreError (Handle × Record) := do
  let (h, r) ← s.find v
  if r.isText then throw (.notAnElement v)
  return (h, r)

/-- Whether a handle names a record. A list or a map cannot be asked about. -/
def contains (s : Store) (handle : Value) : Except StoreError Bool :=
  if handle.isKey then
    match handle.index? with
    | some n => .ok (n < s.size)
    | none => .ok false
  else .error (.noKey handle)

/-! ## Links -/

/-- The parent of a record. -/
def parent? (s : Store) (n : NodeId) : Option NodeId :=
  (s.get? n).bind Record.parent

/-- The children of a record. -/
def childrenOf (s : Store) (n : NodeId) : List NodeId :=
  ((s.get? n).map Record.children).getD []

/-- The handle by which a record hangs on its parent; its number if it has none. -/
def shown (s : Store) (n : NodeId) : Value :=
  match (s.get? n).bind Record.link with
  | some link => link.child
  | none => .int n

/-- At most a number of ancestors, nearest first. -/
def climb (s : Store) : (limit : Nat) → NodeId → List Handle
  | 0, _ => []
  | limit + 1, n =>
    match (s.get? n).bind Record.link with
    | none => []
    | some link => link.parent :: climb s limit link.parent.id

/-- The ancestors of a record, nearest first, each as its child was attached to it. Where no node is
its own ancestor, there are fewer of them than records. -/
def ancestors (s : Store) (n : NodeId) : List Handle :=
  s.climb s.size n

/-- Whether a record is an ancestor of another one. -/
def isAncestor (s : Store) (ancestor n : NodeId) : Bool :=
  (s.ancestors n).any fun h => h.id = ancestor

end Store

end DocumentTree
