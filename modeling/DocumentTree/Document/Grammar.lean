import DocumentTree.Document.Node
import DocumentTree.Value.Display

/-!
# The grammar of documents

Which nodes may stand where. Documents, quotes and items hold blocks; headings, paragraphs, cells
and inline containers hold inline nodes, and an image only as the sole content of a paragraph; lists
hold items, tables rows, and rows cells. Ordered lists start at 0 or above, and the status of an
item and the alignment of a cell come from fixed vocabularies.

A document is examined in two ways: `problems` collects everything that breaks a rule, `check` stops
at the first thing that does.

## Main definitions

* `Problem` — a broken rule, and its `message`.
* `Node.isInline`, `Node.isBlock` — what may stand among inline nodes and among blocks.
* `Node.problems` — all broken rules, a node's own before those of its children.
* `Node.check` — the first broken rule, if any.
-/

namespace DocumentTree

/-- A broken rule of the grammar. `holder` names the kind of the node that holds the child, `kind`
that of the child, and `index` its place. -/
inductive Problem where
  /-- A child that is not inline where only inline nodes may stand. -/
  | notInline (holder : String) (index : Nat) (kind : String)
  /-- An image outside a paragraph. -/
  | imageOutsideParagraph (holder : String) (index : Nat)
  /-- An image in a paragraph that holds more. -/
  | imageNotAlone
  /-- A child that is no block where only blocks may stand. -/
  | notBlock (holder : String) (index : Nat) (kind : String)
  /-- An ordered list that starts below 0. -/
  | negativeStart (start : Int)
  /-- A child of a list that is no item. -/
  | notItem (index : Nat) (kind : String)
  /-- A status outside the vocabulary. -/
  | unknownStatus (status : String)
  /-- A child of a table that is no row. -/
  | notRow (index : Nat) (kind : String)
  /-- A child of a row that is no cell. -/
  | notCell (index : Nat) (kind : String)
  /-- An alignment outside the vocabulary. -/
  | unknownAlignment (alignment : String)
  deriving DecidableEq

/-- The wording of a broken rule. -/
def Problem.message : Problem → String
  | notInline holder index kind =>
    s!"{holder} can only contain inline nodes, but child {index} is {kind}"
  | imageOutsideParagraph holder index => s!"{holder} cannot contain an Image (child {index})"
  | imageNotAlone => "Image must be the sole content of its Paragraph"
  | notBlock holder index kind =>
    s!"{holder} can only contain block nodes, but child {index} is {kind}"
  | negativeStart start =>
    "Ordered list start must be >= 0, got " ++ String.ofList (integerText start)
  | notItem index kind => s!"List can only contain ListItem nodes, but item {index} is {kind}"
  | unknownStatus status => "Invalid task status: " ++ (Value.str status).quotedString
  | notRow index kind => s!"Table can only contain TableRow nodes, but row {index} is {kind}"
  | notCell index kind => s!"TableRow can only contain TableCell nodes, but cell {index} is {kind}"
  | unknownAlignment alignment =>
    "Invalid cell alignment: " ++ (Value.str alignment).quotedString

namespace Node

/-! ## Classes of nodes -/

/-- Whether a node may stand among inline nodes, images included. -/
def isInline : Node → Bool
  | text .. | emphasis .. | strong .. | strikethrough .. | code .. | link .. | image .. => true
  | _ => false

/-- Whether a node may stand among blocks. -/
def isBlock : Node → Bool
  | heading .. | paragraph .. | codeBlock .. | blockQuote .. | list .. | table ..
  | thematicBreak .. => true
  | _ => false

/-- Whether a node is an image. -/
def isImage : Node → Bool
  | image .. => true
  | _ => false

/-- Whether a node is an item. -/
def isItem : Node → Bool
  | listItem .. => true
  | _ => false

/-- Whether a node is a row. -/
def isRow : Node → Bool
  | tableRow .. => true
  | _ => false

/-- Whether a node is a cell. -/
def isCell : Node → Bool
  | tableCell .. => true
  | _ => false

/-- The status of an item is that of a done or of an open task. -/
def isTaskStatus (s : String) : Bool :=
  s = "checked" || s = "unchecked"

/-- The alignments of cells. -/
def isAlignment (s : String) : Bool :=
  s = "left" || s = "center" || s = "right"

/-! ## All problems -/

/-- The problem of one child among inline nodes. -/
def inlineProblem (holder : String) (index : Nat) (n : Node) : Option Problem :=
  if !n.isInline then some (.notInline holder index n.kind)
  else if n.isImage && holder != "Paragraph" then some (.imageOutsideParagraph holder index)
  else none

/-- The problems of children among inline nodes. -/
def inlineProblems (holder : String) (children : List Node) : List Problem :=
  children.zipIdx.filterMap fun (n, i) => inlineProblem holder i n

/-- The problems of children that must belong to a class. -/
def classProblems (belongs : Node → Bool) (problem : Nat → String → Problem)
    (children : List Node) : List Problem :=
  children.zipIdx.filterMap fun (n, i) => if belongs n then none else some (problem i n.kind)

/-- The problem of an image that is not alone in its paragraph. -/
def crowdedImage (content : List Node) : List Problem :=
  if 1 < content.length && content.any isImage then [.imageNotAlone] else []

/-- The problem of the start of a list. -/
def startProblem (ordered : Bool) (start : Int) : List Problem :=
  if ordered && start < 0 then [.negativeStart start] else []

/-- The problem of a status. -/
def statusProblem (status : Option String) : List Problem :=
  (status.filter fun s => !isTaskStatus s).toList.map .unknownStatus

/-- The problem of an alignment. -/
def alignmentProblem (alignment : Option String) : List Problem :=
  (alignment.filter fun s => !isAlignment s).toList.map .unknownAlignment

/-- The rules that a node breaks itself, whatever its children break. -/
def ownProblems : Node → List Problem
  | document children _ => classProblems isBlock (.notBlock "Document") children
  | blockQuote children _ => classProblems isBlock (.notBlock "BlockQuote") children
  | heading _ content _ => inlineProblems "Heading" content
  | paragraph content _ => inlineProblems "Paragraph" content ++ crowdedImage content
  | list ordered items start _ =>
    startProblem ordered start ++ classProblems isItem .notItem items
  | listItem children status _ =>
    statusProblem status ++ classProblems isBlock (.notBlock "ListItem") children
  | table rows _ => classProblems isRow .notRow rows
  | tableRow cells _ => classProblems isCell .notCell cells
  | tableCell content alignment _ _ =>
    alignmentProblem alignment ++ inlineProblems "TableCell" content
  | emphasis content _ => inlineProblems "Emphasis" content
  | strong content _ => inlineProblems "Strong" content
  | strikethrough content _ => inlineProblems "Strikethrough" content
  | link _ content _ _ => inlineProblems "Link" content
  | codeBlock .. | thematicBreak .. | text .. | code .. | image .. => []

mutual

/-- All rules that a node and its descendants break, each node before its children. -/
def problems : Node → List Problem
  | n@(document children _) | n@(blockQuote children _) | n@(listItem children _ _)
  | n@(list _ children _ _) | n@(table children _) | n@(tableRow children _)
  | n@(heading _ children _) | n@(paragraph children _) | n@(tableCell children _ _ _)
  | n@(emphasis children _) | n@(strong children _) | n@(strikethrough children _)
  | n@(link _ children _ _) => ownProblems n ++ allProblems children
  | codeBlock .. | thematicBreak .. | text .. | code .. | image .. => []

/-- All rules that nodes and their descendants break. -/
def allProblems : List Node → List Problem
  | [] => []
  | n :: ns => problems n ++ allProblems ns

end

/-! ## The first problem -/

/-- Refuses the first child that may not stand among inline nodes; `index` is the place of the first
child. -/
def checkInline (holder : String) (index : Nat) : List Node → Except Problem Unit
  | [] => .ok ()
  | n :: ns =>
    if !n.isInline then .error (.notInline holder index n.kind)
    else if n.isImage && holder != "Paragraph" then .error (.imageOutsideParagraph holder index)
    else checkInline holder (index + 1) ns

/-- Refuses the first child outside a class; `index` is the place of the first child. -/
def checkClass (belongs : Node → Bool) (problem : Nat → String → Problem) (index : Nat) :
    List Node → Except Problem Unit
  | [] => .ok ()
  | n :: ns =>
    if belongs n then checkClass belongs problem (index + 1) ns
    else .error (problem index n.kind)

mutual

/-- Refuses a document at the first broken rule. -/
def check : Node → Except Problem Unit
  | document children _ => do
    checkClass isBlock (.notBlock "Document") 0 children
    checkAll children
  | heading _ content _ => do
    checkInline "Heading" 0 content
    checkAll content
  | paragraph content _ => do
    checkInline "Paragraph" 0 content
    if 1 < content.length && content.any isImage then throw .imageNotAlone
    checkAll content
  | blockQuote children _ => do
    checkClass isBlock (.notBlock "BlockQuote") 0 children
    checkAll children
  | list ordered items start _ => do
    if ordered && start < 0 then throw (.negativeStart start)
    checkClass isItem .notItem 0 items
    checkAll items
  | listItem children status _ => do
    if let some s := status then
      if !isTaskStatus s then throw (.unknownStatus s)
    checkClass isBlock (.notBlock "ListItem") 0 children
    checkAll children
  | table rows _ => do
    checkClass isRow .notRow 0 rows
    checkAll rows
  | tableRow cells _ => do
    checkClass isCell .notCell 0 cells
    checkAll cells
  | tableCell content alignment _ _ => do
    if let some s := alignment then
      if !isAlignment s then throw (.unknownAlignment s)
    checkInline "TableCell" 0 content
    checkAll content
  | emphasis content _ => do
    checkInline "Emphasis" 0 content
    checkAll content
  | strong content _ => do
    checkInline "Strong" 0 content
    checkAll content
  | strikethrough content _ => do
    checkInline "Strikethrough" 0 content
    checkAll content
  | link _ content _ _ => do
    checkInline "Link" 0 content
    checkAll content
  | codeBlock .. | thematicBreak .. | text .. | code .. | image .. => .ok ()

/-- Refuses the first broken rule in several documents. -/
def checkAll : List Node → Except Problem Unit
  | [] => .ok ()
  | n :: ns => do
    check n
    checkAll ns

end

end Node

end DocumentTree
