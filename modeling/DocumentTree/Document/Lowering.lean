import DocumentTree.Document.Node
import DocumentTree.Store.Tree
import DocumentTree.Traced

/-!
# From trees to documents

A tree of elements is permissive: any element may hold any child. Lowering makes a document of it
that is well formed. Root elements are spliced away first. Then neighbouring inline nodes at a block
position are grouped into one paragraph, a child that its parent cannot hold is dropped, and an
item, row or cell that stands alone is wrapped in a list or table of its own. Such repairs are
reported and never refused; what is refused is a property of the wrong type and a role outside the
vocabulary.

## Main definitions

* `LoweringError`, `LoweringNotice` — refusals and reports.
* `Piece`, `group` — lowered siblings, and the grouping of inline runs into paragraphs.
* `Lowering.inline`, `Lowering.blocks` — lowering at inline and at block positions.
* `Tree.lower`, `Store.lower` — the document of a tree, and of the tree under a handle.
-/

namespace DocumentTree

/-- Why a tree cannot be lowered. -/
inductive LoweringError where
  /-- A role outside the vocabulary stands at a position that is lowered. -/
  | unknownRole (given : Value)
  /-- The role at such a position is a list or a map, which cannot be looked up. -/
  | roleNoKey (given : Value)
  /-- A property has another type. -/
  | property (error : PropertyError)
  /-- The start of a list is an integer beyond every floating-point number. -/
  | startOutOfRange
  /-- The handle of the root names no record. -/
  | store (error : StoreError)

/-- The wording of the error, where it has one. -/
def LoweringError.message? : LoweringError → Option String
  | unknownRole given => some ("Unknown node role: " ++ given.quotedString)
  | roleNoKey _ => none
  | property error => some error.message
  | startOutOfRange => none
  | store error => error.message?

/-- The refusal of a role outside the vocabulary. -/
def LoweringError.ofRole (given : Value) : LoweringError :=
  if given.isKey then unknownRole given else roleNoKey given

/-- Whether a role cannot be looked up among others. -/
def Role.isNoKey : Role → Bool
  | .other given => !given.isKey
  | _ => false

/-- What lowering reports. Nodes are shown by the handles they were given as. -/
inductive LoweringNotice where
  /-- An item outside a list was wrapped in one. -/
  | strayItem (handle : Value)
  /-- A row outside a table was wrapped in one. -/
  | strayRow (handle : Value)
  /-- A cell outside a row was wrapped in a table. -/
  | strayCell (handle : Value)
  /-- A child of a list that is no item was dropped. -/
  | droppedFromList (handle : Value)
  /-- A child of a table that is no row was dropped. -/
  | droppedFromTable (handle : Value)
  /-- A child of a row that is no cell was dropped. -/
  | droppedFromRow (handle : Value)
  /-- A child of an inline container that is not inline was dropped. -/
  | droppedFromInline (handle : Value) (role : Option Role) (container : String)

/-- The wording of a report. -/
def LoweringNotice.message : LoweringNotice → String
  | strayItem handle => s!"List item {handle.plain} outside a list; wrapping it in a bullet list"
  | strayRow handle => s!"Table row {handle.plain} outside a table; wrapping it in a table"
  | strayCell handle => s!"Table cell {handle.plain} outside a row; wrapping it in a table"
  | droppedFromList handle => s!"Dropping non-item child {handle.plain} of list"
  | droppedFromTable handle => s!"Dropping non-row child {handle.plain} of table"
  | droppedFromRow handle => s!"Dropping non-cell child {handle.plain} of table row"
  | droppedFromInline handle role container =>
    let role := (role.map Role.name).getD "None"
    s!"Dropping non-inline child {handle.plain} ({role}) of {container}"

/-- Lowering, with its reports and refusals. -/
abbrev Lowering := Traced LoweringNotice LoweringError

/-! ## Grouping -/

/-- The metadata of nodes that no element stands for. -/
def synthesized : Metadata := [("synthesized", .bool true)]

/-- A lowered sibling at a block position. -/
inductive Piece where
  | inline (node : Node)
  | block (node : Node)

/-- The paragraph of a run of inline nodes; there is none for an empty run. -/
def runParagraph (run : List Node) : List Node :=
  if run.isEmpty then [] else [.paragraph run synthesized]

/-- The blocks of lowered siblings: each maximal run of inline nodes becomes one paragraph. `run` is
the run that is open. -/
def groupFrom (run : List Node) : List Piece → List Node
  | [] => runParagraph run
  | .inline node :: rest => groupFrom (run ++ [node]) rest
  | .block node :: rest => runParagraph run ++ node :: groupFrom [] rest

/-- The blocks of lowered siblings. -/
def group (pieces : List Piece) : List Node :=
  groupFrom [] pieces

namespace Lowering

/-! ## Properties of nodes -/

/-- A property read, its refusal being that of the lowering. -/
def property {α : Type} (x : Except PropertyError α) : Lowering α :=
  .lift (x.mapError LoweringError.property)

/-- A string property, empty when it is missing. -/
def stringProperty (properties : Entries) (key : String) : Lowering String := do
  return (← property (Property.string (some key) (properties.get key))).getD ""

/-- A string property that may be missing. -/
def stringProperty? (properties : Entries) (key : String) : Lowering (Option String) :=
  property (Property.string? (some key) (properties.get key))

/-- The literal text of a code element: its value, or the texts below it. -/
def literal (properties : Entries) (children : List Tree) : Lowering String := do
  return (← stringProperty? properties "value").getD (Tree.plainTextAll children)

/-- The language of a code block, under its long or its short name. -/
def language (properties : Entries) : Lowering (Option String) := do
  match ← stringProperty? properties "language" with
  | some language => return some language
  | none => stringProperty? properties "lang"

/-- The first number of an ordered list: the integer part of its start, but not below 0. A number
that is not finite counts as missing; an integer beyond every floating-point number is
refused. -/
def startNumber : Number → Except LoweringError Int
  | .int i => if i.natAbs < Double.rangeEnd then .ok (max 0 i) else .error .startOutOfRange
  | .float x =>
    match x.trunc? with
    | some i => .ok (max 0 i)
    | none => .ok 1

/-- The first number of a list. -/
def start (properties : Entries) : Lowering Int := do
  let given ← property (Property.number (some "start") (properties.get "start"))
  .lift (startNumber (given.getD (.int 1)))

/-- The status of a task item; an item that is no task has none. -/
def taskStatus (properties : Entries) : Lowering (Option String) := do
  let checked ← property (Property.flag? (some "checked") (properties.get "checked"))
  return checked.map fun checked => if checked then "checked" else "unchecked"

/-- An item of lowered siblings; an empty one holds an empty paragraph. -/
def item (status : Option String) (pieces : List Piece) : Node :=
  let children := group pieces
  .listItem (if children.isEmpty then [.paragraph [] synthesized] else children) status

/-- An image. -/
def image (properties : Entries) : Lowering Node := do
  let url ← stringProperty properties "url"
  let alt ← stringProperty properties "alt"
  let title ← stringProperty? properties "title"
  return .image url alt title

/-- A cell of lowered content. -/
def cell (role : Role) (properties : Entries) (content : List Node) : Lowering Node := do
  let alignment ← property (Property.alignment? (some "align") (properties.get "align"))
  return .tableCell content alignment (role == .tableHeader)

/-- The sole image of a paragraph's children, by its properties. -/
def soleImage? : List Tree → Option Entries
  | [.element _ .image properties _] => some properties
  | _ => none

/-! ## The passes over a tree without root elements -/

mutual

/-- A node at an inline position; there is none for a role of block level. -/
def inline : Tree → Lowering (Option Node)
  | .text _ value => return some (.text value)
  | .element _ .strong _ children => return some (.strong (← inlines "strong" children))
  | .element _ .emphasis _ children => return some (.emphasis (← inlines "emphasis" children))
  | .element _ .strikethrough _ children =>
    return some (.strikethrough (← inlines "strikethrough" children))
  | .element _ .inlineCode properties children =>
    return some (.code (← literal properties children))
  | .element _ .link properties children => do
    let url ← stringProperty properties "url"
    let content ← inlines "link" children
    let title ← stringProperty? properties "title"
    return some (.link url content title)
  | .element _ (.other given) _ _ => .refuse (.ofRole given)
  | .element .. => return none

/-- The children of an inline container, without those that are not inline. -/
def inlines (container : String) : List Tree → Lowering (List Node)
  | [] => return []
  | t :: ts => do
    match ← inline t with
    | some node => return node :: (← inlines container ts)
    | none =>
      .report (.droppedFromInline t.handle t.role? container)
      inlines container ts

/-- The items of a list, without the children that are no items. -/
def items : List Tree → Lowering (List Node)
  | [] => return []
  | .element _ .listItem properties children :: ts => do
    let status ← taskStatus properties
    let pieces ← pieces children
    return item status pieces :: (← items ts)
  | t :: ts => do
    .report (.droppedFromList t.handle)
    items ts

/-- The cells of a row, without the children that are no cells. -/
def cells : List Tree → Lowering (List Node)
  | [] => return []
  | .element handle role properties children :: ts =>
    if role = .tableCell ∨ role = .tableHeader then do
      let content ← inlines "table cell" children
      let first ← cell role properties content
      return first :: (← cells ts)
    else if role.isNoKey then .refuse (.roleNoKey role.toValue)
    else do
      .report (.droppedFromRow handle)
      cells ts
  | .text handle _ :: ts => do
    .report (.droppedFromRow handle)
    cells ts

/-- The rows of a table, without the children that are no rows. -/
def rows : List Tree → Lowering (List Node)
  | [] => return []
  | .element _ .tableRow _ children :: ts => do
    let first ← cells children
    return .tableRow first :: (← rows ts)
  | t :: ts => do
    .report (.droppedFromTable t.handle)
    rows ts

/-- A node at a block position. -/
def piece : Tree → Lowering Piece
  | .text _ value => return .inline (.text value)
  | .element handle role properties children =>
    match role with
    | .strong => return .inline (.strong (← inlines "strong" children))
    | .emphasis => return .inline (.emphasis (← inlines "emphasis" children))
    | .strikethrough => return .inline (.strikethrough (← inlines "strikethrough" children))
    | .inlineCode => return .inline (.code (← literal properties children))
    | .link => do
      let url ← stringProperty properties "url"
      let content ← inlines "link" children
      let title ← stringProperty? properties "title"
      return .inline (.link url content title)
    | .heading => do
      let level ← property
        (Property.headingLevel (.int 1) (some "depth") (properties.get "depth"))
      return .block (.heading level (← inlines "heading" children))
    | .paragraph =>
      match soleImage? children with
      | some properties => return .block (.paragraph [← image properties])
      | none => return .block (.paragraph (← inlines "paragraph" children))
    | .blockquote => return .block (.blockQuote (group (← pieces children)))
    | .code => do
      let language ← language properties
      return .block (.codeBlock (← literal properties children) language)
    | .list => do
      let ordered ← property (Property.flag (some "ordered") (properties.get "ordered"))
      let start ← start properties
      return .block (.list (ordered.getD false) (← items children) start)
    | .listItem => do
      .report (.strayItem handle)
      let status ← taskStatus properties
      let pieces ← pieces children
      return .block (.list false [item status pieces] 1 synthesized)
    | .table => return .block (.table (← rows children))
    | .tableRow => do
      .report (.strayRow handle)
      return .block (.table [.tableRow (← cells children)] synthesized)
    | .tableCell | .tableHeader => do
      .report (.strayCell handle)
      let content ← inlines "table cell" children
      return .block (.table [.tableRow [← cell role properties content]] synthesized)
    | .thematicBreak => return .block .thematicBreak
    | .image => return .block (.paragraph [← image properties] synthesized)
    | .root => .refuse (.unknownRole Role.root.toValue)
    | .other given => .refuse (.ofRole given)

/-- Siblings at a block position. -/
def pieces : List Tree → Lowering (List Piece)
  | [] => return []
  | t :: ts => return (← piece t) :: (← pieces ts)

end

/-- The blocks of siblings that hold no root elements. -/
def blocks (trees : List Tree) : Lowering (List Node) :=
  return group (← pieces trees)

end Lowering

/-- The document of a tree; root elements in it are mere brackets. -/
def Tree.lower (t : Tree) : Lowering Node :=
  return .document (← Lowering.blocks t.splice)

/-- The document of a tree that may be missing. -/
def lowerTree? : Option Tree → Lowering Node
  | none => return .document []
  | some t => t.lower

/-- The document of the tree under a handle; null stands for no tree. -/
def Store.lower (s : Store) (root : Value) : Lowering Node := do
  lowerTree? (← .lift ((s.tree? root).mapError LoweringError.store))

end DocumentTree
