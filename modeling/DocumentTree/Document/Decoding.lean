import DocumentTree.Document.Encoding
import DocumentTree.Value.Display
import DocumentTree.Value.Mapping

/-!
# Documents read from data

A node is read from a map that names its kind. Each kind has fields, some of which must be there; of
the others, a value stands for those that are left out. What stands in a field is taken as it is,
except that the level of a heading must be one of the six. Fields that the kind does not have are
ignored. So data gives a raw node, which may hold anything in its fields; the nodes of a document
are those whose fields hold what they are meant to.

## Main definitions

* `NodeKind`, `NodeKind.form` — the kinds of nodes, and what the data of each kind holds.
* `RawNode.ofValue`, `RawNode.ofVersioned` — the raw node that data gives.
* `RawNode.typed` — the node that a raw node is.
* `Node.ofValue`, `Node.ofVersioned` — both steps.
* `DecodeError` — why data gives no node, and its wording.
-/

namespace DocumentTree

/-- Why data gives no node. -/
inductive DecodeError where
  /-- A map names no kind. -/
  | noKind
  /-- A map names a kind that is none. -/
  | unknownKind (given : Value)
  /-- The kind is a list or a map, which can name nothing. -/
  | noKey
  /-- A needed field is missing. -/
  | missing (field : String)
  /-- A heading has a number for its level that is none of the six. -/
  | levelOutOfRange (level : Value)
  /-- The version is not the one there is. -/
  | unsupportedVersion (given : Value)
  /-- What stands for a node is no map. -/
  | notAMap
  /-- What stands for children has no items. -/
  | notASequence
  /-- What stands for metadata is no map. -/
  | metadata (error : MappingError)
  /-- A field holds a value of another type: a level that is no number, which nothing can be told
  of, or anything that a raw node holds and a node of a document cannot. -/
  | wrongType (field : String)

/-- The wording of the error, where it has one. -/
def DecodeError.message? : DecodeError → Option String
  | noKind => some "Dictionary must contain 'node_type' field"
  | unknownKind given => some ("Unknown node type: " ++ given.plain)
  | levelOutOfRange level => some ("Heading level must be 1-6, got " ++ level.plain)
  | unsupportedVersion given => some ("Unsupported schema version: " ++ given.plain)
  | missing field => some (Value.str field).quotedString
  | metadata error => error.message?
  | noKey | notAMap | notASequence | wrongType _ => none

/-! ## Kinds of nodes -/

/-- The kinds of nodes. -/
inductive NodeKind where
  | document
  | blockQuote
  | heading
  | paragraph
  | codeBlock
  | list
  | listItem
  | table
  | tableRow
  | tableCell
  | thematicBreak
  | text
  | emphasis
  | strong
  | strikethrough
  | code
  | link
  | image
  deriving DecidableEq, Repr

/-- A field of a kind of nodes. -/
structure FieldForm where
  /-- The name of the field. -/
  name : String
  /-- The value that stands for the field where it is left out; there is none if it is needed. -/
  default? : Option Value

/-- A field that must be there. -/
def FieldForm.needed (name : String) : FieldForm := ⟨name, none⟩

/-- A field that is null where it is left out. -/
def FieldForm.optional (name : String) : FieldForm := ⟨name, some .null⟩

/-- What the data of a kind of nodes holds, apart from metadata. -/
structure NodeForm where
  /-- The fields, in the order in which they are read. -/
  fields : List FieldForm
  /-- The name under which the children stand, if the kind has any. -/
  children? : Option String

namespace NodeKind

open FieldForm (needed optional)

/-- All kinds. -/
def all : List NodeKind :=
  [document, blockQuote, heading, paragraph, codeBlock, list, listItem, table, tableRow, tableCell,
    thematicBreak, text, emphasis, strong, strikethrough, code, link, image]

/-- The name of a kind. -/
def name : NodeKind → String
  | document => "Document"
  | blockQuote => "BlockQuote"
  | heading => "Heading"
  | paragraph => "Paragraph"
  | codeBlock => "CodeBlock"
  | list => "List"
  | listItem => "ListItem"
  | table => "Table"
  | tableRow => "TableRow"
  | tableCell => "TableCell"
  | thematicBreak => "ThematicBreak"
  | text => "Text"
  | emphasis => "Emphasis"
  | strong => "Strong"
  | strikethrough => "Strikethrough"
  | code => "Code"
  | link => "Link"
  | image => "Image"

/-- The kind with a name. -/
def ofName? (name : String) : Option NodeKind :=
  all.find? fun kind => kind.name = name

/-- What the data of a kind holds. -/
def form : NodeKind → NodeForm
  | document | blockQuote => ⟨[], some "children"⟩
  | heading => ⟨[needed "level"], some "content"⟩
  | paragraph | emphasis | strong | strikethrough => ⟨[], some "content"⟩
  | codeBlock => ⟨[needed "content", optional "language"], none⟩
  | list => ⟨[needed "ordered", ⟨"start", some (.int 1)⟩], some "items"⟩
  | listItem => ⟨[optional "task_status"], some "children"⟩
  | table => ⟨[], some "rows"⟩
  | tableRow => ⟨[], some "cells"⟩
  | tableCell => ⟨[optional "alignment", ⟨"is_header", some (.bool false)⟩], some "content"⟩
  | thematicBreak => ⟨[], none⟩
  | text | code => ⟨[needed "content"], none⟩
  | link => ⟨[needed "url", optional "title"], some "content"⟩
  | image => ⟨[needed "url", ⟨"alt_text", some (.str "")⟩, optional "title"], none⟩

theorem ofName?_name (kind : NodeKind) : ofName? kind.name = some kind := by
  cases kind <;> rfl

/-- A name is that of a kind just where it is read as this kind. -/
theorem ofName?_eq_some_iff {name : String} {kind : NodeKind} :
    ofName? name = some kind ↔ name = kind.name := by
  constructor
  · intro h
    have hname := List.find?_some h
    exact (of_decide_eq_true hname).symm
  · rintro rfl
    exact ofName?_name kind

end NodeKind

/-- The kind that a value names. -/
def Value.kind? : Value → Option NodeKind
  | str name => NodeKind.ofName? name
  | _ => none

/-! ## Reading -/

/-- A node as data gives it, with whatever stands in its fields. -/
structure RawNode where
  /-- The kind of the node. -/
  kind : NodeKind
  /-- The fields of its kind. -/
  fields : Entries
  /-- The nodes directly below, in order. -/
  children : List RawNode
  /-- The metadata of the node. -/
  metadata : Metadata

/-- What stands in a field. -/
def FieldForm.read (entries : Entries) (field : FieldForm) : Except DecodeError (Key × Value) :=
  match (entries.get? field.name).or field.default? with
  | some v => .ok (field.name, v)
  | none => .error (.missing field.name)

/-- The metadata of a node, empty when it is missing. -/
def readMetadata (entries : Entries) : Except DecodeError Metadata :=
  match entries.get? "metadata" with
  | none => .ok []
  | some v => v.toMapping.mapError .metadata

namespace RawNode

/-- The children that entries hold under a name, as far as they can be read; none when the name is
missing. -/
abbrev Branches := List (Key × Except DecodeError (List RawNode))

/-- The children under a name. -/
def Branches.under (field : String) : Branches → Except DecodeError (List RawNode)
  | [] => .ok []
  | (key, children) :: rest => if key.same field then children else under field rest

/-- The children under the name that a kind has for them, if it has one. -/
@[simp] def Branches.under? (branches : Branches) :
    Option String → Except DecodeError (List RawNode)
  | some field => branches.under field
  | none => .ok []

/-- The node, unless it is a heading whose level is none of the six. -/
def checked (n : RawNode) : Except DecodeError RawNode :=
  if n.kind = .heading then
    let level := n.fields.get "level"
    match level.within? 1 6 with
    | some true => .ok n
    | some false => .error (.levelOutOfRange level)
    | none => .error (.wrongType "level")
  else .ok n

/-- A node of a kind. Its fields are read first, then its children, then its metadata. -/
def ofKind (kind : NodeKind) (entries : Entries) (branches : Branches) :
    Except DecodeError RawNode := do
  let fields ← kind.form.fields.mapM (FieldForm.read entries)
  let children ← branches.under? kind.form.children?
  let metadata ← readMetadata entries
  checked ⟨kind, fields, children, metadata⟩

/-- A node from its entries, and from what stands under them as children. -/
def ofEntries (entries : Entries) (branches : Branches) : Except DecodeError RawNode :=
  let given := entries.get "node_type"
  if !given.isTruthy then .error .noKind
  else if !given.isKey then .error .noKey
  else
    match given.kind? with
    | some kind => ofKind kind entries branches
    | none => .error (.unknownKind given)

mutual

/-- The node that data gives. -/
def ofValue : Value → Except DecodeError RawNode
  | .map entries => ofEntries entries (branchesOf entries)
  | _ => .error .notAMap

/-- What stands under each name, read as children. -/
def branchesOf : List (Key × Value) → Branches
  | [] => []
  | (key, v) :: rest => (key, childrenOf v) :: branchesOf rest

/-- A value read as children. What has no items holds none. -/
def childrenOf : Value → Except DecodeError (List RawNode)
  | .list items => ofValues items
  | .map [] => .ok []
  | .map (_ :: _) => .error .notAMap
  | .str s => if s = "" then .ok [] else .error .notAMap
  | _ => .error .notASequence

/-- The nodes that items give. -/
def ofValues : List Value → Except DecodeError (List RawNode)
  | [] => .ok []
  | v :: vs => do
    let n ← ofValue v
    let ns ← ofValues vs
    return n :: ns

end

/-- Whether a value is the number of the version. -/
def isVersion (v : Value) : Bool :=
  v.index? = some 1

/-- The node that data gives apart from the version, which may be missing. -/
def ofVersioned : Value → Except DecodeError RawNode
  | .map entries =>
    let given := (Entries.get? "schema_version" entries).getD (.int Node.version)
    if isVersion given then ofValue (.map (Entries.erase "schema_version" entries))
    else .error (.unsupportedVersion given)
  | .list _ => .error .notASequence
  | _ => .error .notAMap

/-! ## Typed fields -/

/-- The string in a field. -/
def stringIn (fields : Entries) (field : String) : Except DecodeError String :=
  match fields.get field with
  | .str s => .ok s
  | _ => .error (.wrongType field)

/-- The string in a field that may hold null. -/
def stringIn? (fields : Entries) (field : String) : Except DecodeError (Option String) :=
  match fields.get field with
  | .null => .ok none
  | .str s => .ok (some s)
  | _ => .error (.wrongType field)

/-- The flag in a field. -/
def flagIn (fields : Entries) (field : String) : Except DecodeError Bool :=
  match fields.get field with
  | .bool b => .ok b
  | _ => .error (.wrongType field)

/-- The integer in a field. -/
def integerIn (fields : Entries) (field : String) : Except DecodeError Int :=
  match fields.get field with
  | .int i => .ok i
  | _ => .error (.wrongType field)

/-- The level in the fields of a heading. -/
def levelIn (fields : Entries) : Except DecodeError HeadingLevel := do
  let i ← integerIn fields "level"
  match HeadingLevel.ofInt? i with
  | some level => return level
  | none => throw (.levelOutOfRange (.int i))

/-- The node of a kind with typed fields. -/
def typedKind (kind : NodeKind) (fields : Entries) (below : List Node) (m : Metadata) :
    Except DecodeError Node :=
  match kind with
  | .document => .ok (.document below m)
  | .blockQuote => .ok (.blockQuote below m)
  | .heading => do return .heading (← levelIn fields) below m
  | .paragraph => .ok (.paragraph below m)
  | .codeBlock => do
    return .codeBlock (← stringIn fields "content") (← stringIn? fields "language") m
  | .list => do return .list (← flagIn fields "ordered") below (← integerIn fields "start") m
  | .listItem => do return .listItem below (← stringIn? fields "task_status") m
  | .table => .ok (.table below m)
  | .tableRow => .ok (.tableRow below m)
  | .tableCell => do
    return .tableCell below (← stringIn? fields "alignment") (← flagIn fields "is_header") m
  | .thematicBreak => .ok (.thematicBreak m)
  | .text => do return .text (← stringIn fields "content") m
  | .emphasis => .ok (.emphasis below m)
  | .strong => .ok (.strong below m)
  | .strikethrough => .ok (.strikethrough below m)
  | .code => do return .code (← stringIn fields "content") m
  | .link => do return .link (← stringIn fields "url") below (← stringIn? fields "title") m
  | .image => do
    return .image (← stringIn fields "url") (← stringIn fields "alt_text")
      (← stringIn? fields "title") m

mutual

/-- The node of a document that a raw node is, if its fields hold values of their types. -/
def typed : RawNode → Except DecodeError Node
  | ⟨kind, fields, children, m⟩ => do typedKind kind fields (← typedAll children) m

/-- The nodes of a document that raw nodes are. -/
def typedAll : List RawNode → Except DecodeError (List Node)
  | [] => .ok []
  | n :: ns => do
    let below ← typed n
    let rest ← typedAll ns
    return below :: rest

end

end RawNode

namespace Node

/-- The node of a document that data gives. -/
def ofValue (v : Value) : Except DecodeError Node := do
  (← RawNode.ofValue v).typed

/-- The node of a document that data gives apart from the version. -/
def ofVersioned (v : Value) : Except DecodeError Node := do
  (← RawNode.ofVersioned v).typed

/-- Whether a node survives being written as data and read back. -/
def survivesEncoding (n : Node) : Bool :=
  match ofValue n.toValue with
  | .ok m => same m n
  | .error _ => false

end Node

end DocumentTree
