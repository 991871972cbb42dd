import DocumentTree.Store.Basic

/-!
# Operations on the store

Creation, attachment, removal and update of records. Every operation either gives the store that
results or says why it is refused; a refused operation has no effect. Attaching a node that hangs
elsewhere takes it out of its old place first.

## Main definitions

* `Store.createText`, `Store.createElement` — a new record without a parent.
* `Store.appendChild`, `Store.insertBefore`, `Store.removeChild` — the links.
* `Store.updateText`, `Store.updateProperties`, `Store.setRole` — the contents.
* `StoreNotice` — what an operation reports when it changes nothing or does more than asked.
-/

namespace DocumentTree

/-- What an operation has to report. -/
inductive StoreNotice where
  /-- An insertion was ignored, its reference being no child of the parent. -/
  | insertIgnored (reference parent : Value)
  /-- A removal was ignored, the node being no child of the parent. -/
  | removeIgnored (child parent : Value)
  /-- A synthetic root element was put above the previous root. -/
  | wrapped (root : NodeId)
  /-- An insertion at the top level was ignored, the root being no root element. -/
  | topInsertIgnored
  /-- The removal of a top-level node resets the root. -/
  | topRemoved (node : Value)

/-- The wording of a report. -/
def StoreNotice.message : StoreNotice → String
  | insertIgnored reference parent =>
    "insert_before ignored: node " ++ reference.plain ++ " is not a child of " ++ parent.plain
  | removeIgnored child parent =>
    "remove_child ignored: node " ++ child.plain ++ " is not a child of " ++ parent.plain
  | wrapped root => "Wrapped root nodes in synthetic root element " ++ toString root
  | topInsertIgnored => "insert_before_in_root ignored: container root is not a root element"
  | topRemoved node => "Removing node " ++ node.plain ++ " from container resets its root"

/-- A list with an item put before the first occurrence of a reference, or at the end if there is
none. -/
def insertBeforeIn (reference item : NodeId) : List NodeId → List NodeId
  | [] => [item]
  | n :: ns => if n = reference then item :: n :: ns else n :: insertBeforeIn reference item ns

namespace Store

/-! ## Changes of records -/

/-- A record with a number replaced by a function of it. -/
def modify (s : Store) (n : NodeId) (f : Record → Record) : Store :=
  ⟨s.records.modify n f⟩

/-- A new record at the end. -/
def push (s : Store) (r : Record) : Store :=
  ⟨s.records.push r⟩

/-- Another link to a parent for a record. -/
def setLink (s : Store) (n : NodeId) (link : Option Link) : Store :=
  s.modify n fun r => { r with link := link }

/-- Other children for an element. -/
def setChildren (s : Store) (n : NodeId) (f : List NodeId → List NodeId) : Store :=
  s.modify n (Record.mapChildren f)

/-- A node taken out of its parent. -/
def detach (s : Store) (n : NodeId) : Store :=
  match s.parent? n with
  | none => s
  | some p => (s.setChildren p fun children => children.erase n).setLink n none

/-- A node moved into an element, at the place that a function of the remaining children gives. -/
def attach (s : Store) (parent child : Handle) (place : List NodeId → List NodeId) : Store :=
  ((s.detach child.id).setChildren parent.id place).setLink child.id (some ⟨parent, child.given⟩)

/-! ## Creation -/

/-- A new text without a parent. -/
def createText (s : Store) (value : Value) : Except StoreError (NodeId × Store) :=
  match value with
  | .str text => .ok (s.size, s.push { content := .text text })
  | v => .error (.property (.wrongType "string" v (some "value")))

/-- A property map, from a value that may be missing. -/
def propertyMap (v : Value) : Except StoreError Entries :=
  match v with
  | .map entries => .ok entries
  | v => .error (.property (.wrongType "mapping" v (some "properties")))

/-- A role of the vocabulary, from a value. -/
def knownRole (v : Value) : Except StoreError Role :=
  if (Role.ofValue v).isKnown then .ok (Role.ofValue v)
  else .error (if v.isKey then .unsupportedRole v else .noKey v)

/-- A new element without children and parent. Missing properties are none. -/
def createElement (s : Store) (role properties : Value) : Except StoreError (NodeId × Store) := do
  let role ← knownRole role
  let properties ← match properties with
    | .null => pure []
    | v => propertyMap v
  return (s.size, s.push { content := .element role properties [] })

/-! ## Links -/

/-- The record that is to become a child of an element: it must be known, another node, and no
ancestor of the element. -/
def attachable (s : Store) (parent : Handle) (child : Value) : Except StoreError Handle := do
  let (c, _) ← s.find child
  if c.id = parent.id then throw (.ownChild child)
  if s.isAncestor c.id parent.id then throw (.ancestor child parent.given)
  return c

/-- A node made the last child of an element. -/
def appendChild (s : Store) (parent child : Value) : Except StoreError Store := do
  let (p, _) ← s.findElement parent
  let c ← s.attachable p child
  return s.attach p c fun children => children ++ [c.id]

/-- The number that a value names among some records. -/
def named? (v : Value) (ids : List NodeId) : Option NodeId :=
  v.index?.filter fun n => ids.contains n

/-- A node made a child of an element, right before another child. Nothing happens when the
reference is no child of the element, or when it is the node itself. -/
def insertBefore (s : Store) (parent child reference : Value) :
    Except StoreError (Store × List StoreNotice) := do
  let (p, r) ← s.findElement parent
  match named? reference r.children with
  | none => return (s, [.insertIgnored reference parent])
  | some n =>
    if child.index? = some n then return (s, [])
    let c ← s.attachable p child
    return (s.attach p c (insertBeforeIn n c.id), [])

/-- A child taken out of an element. Nothing happens when the node is no child of it. -/
def removeChild (s : Store) (parent child : Value) :
    Except StoreError (Store × List StoreNotice) := do
  let (p, r) ← s.findElement parent
  match named? child r.children with
  | none => return (s, [.removeIgnored child parent])
  | some c => return ((s.setChildren p.id fun children => children.erase c).setLink c none, [])

/-! ## Contents -/

/-- Another value for a text. -/
def updateText (s : Store) (handle value : Value) : Except StoreError Store := do
  let (h, r) ← s.find handle
  if !r.isText then throw (.notAText handle)
  match value with
  | .str text => return s.modify h.id fun r => { r with content := .text text }
  | v => throw (.property (.wrongType "string" v (some "value")))

/-- The record with other properties; a text stays as it is. -/
def withProperties (properties : Entries) (r : Record) : Record :=
  match r.content with
  | .text _ => r
  | .element role _ children => { r with content := .element role properties children }

/-- Another property map for an element. -/
def updateProperties (s : Store) (handle properties : Value) : Except StoreError Store := do
  let (h, _) ← s.findElement handle
  let properties ← propertyMap properties
  return s.modify h.id (withProperties properties)

/-- The record with another role; a text stays as it is. -/
def withRole (role : Role) (r : Record) : Record :=
  match r.content with
  | .text _ => r
  | .element _ properties children => { r with content := .element role properties children }

/-- Another role for an element, from outside the vocabulary too. -/
def setRole (s : Store) (handle role : Value) : Except StoreError Store := do
  let (h, _) ← s.findElement handle
  return s.modify h.id (withRole (.ofValue role))

end Store

end DocumentTree
