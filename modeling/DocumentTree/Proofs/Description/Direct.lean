import DocumentTree.Document.Lowering
import DocumentTree.Proofs.Outcome
import DocumentTree.Store.Description

/-!
# The document of a description

A description has a document of its own, by recursion on the description alone: no store, no
handles, no reports, and no pass that removes root elements first. At every position a root element
stands for what its children stand for there, one after the other.

A tree that fits a description, whatever its handles are, is lowered to the document of the
description.

## Main definitions

* `Element.inlines`, `Element.cells`, `Element.rows`, `Element.items`, `Element.pieces` — what a
  description stands for at each position.
* `Element.document` — its document.
* `Tree.Fits` — a tree with the roles, properties and children of a description.
* `Tree.Hereditary` — what is shown of such trees by induction.
-/

namespace DocumentTree

namespace Element

/-! ## Texts and images -/

mutual

/-- The texts in a description, one after the other. -/
def plainText : Element → String
  | text value => value
  | element _ _ children => plainTextAll children

/-- The texts in descriptions, one after the other. -/
def plainTextAll : List Element → String
  | [] => ""
  | e :: es => plainText e ++ plainTextAll es

end

/-- The literal text of a code element: its value, or the texts in it. -/
def literal (properties : Entries) (children : List Element) : Except LoweringError String := do
  return (← (Lowering.stringProperty? properties "value").result).getD (plainTextAll children)

mutual

/-- The role and the properties of an element; those of its children for a root element, and none
for a text. -/
def heads : Element → List (Option (Role × Entries))
  | text _ => [none]
  | element role properties children =>
    if Role.ofValue role = .root then headsAll children
    else [some (Role.ofValue role, properties)]

/-- The roles and properties of elements, in order. -/
def headsAll : List Element → List (Option (Role × Entries))
  | [] => []
  | e :: es => heads e ++ headsAll es

end

/-- The sole image of a paragraph's children, by its properties. -/
def soleImage? (children : List Element) : Option Entries :=
  match headsAll children with
  | [some (.image, properties)] => some properties
  | _ => none

/-! ## Positions -/

mutual

/-- The nodes of a description at an inline position. -/
def inlines : Element → Except LoweringError (List Node)
  | text value => return [.text value]
  | element role properties children =>
    match Role.ofValue role with
    | .root => inlinesAll children
    | .strong => return [.strong (← inlinesAll children)]
    | .emphasis => return [.emphasis (← inlinesAll children)]
    | .strikethrough => return [.strikethrough (← inlinesAll children)]
    | .inlineCode => return [.code (← literal properties children)]
    | .link => do
      let url ← (Lowering.stringProperty properties "url").result
      let content ← inlinesAll children
      let title ← (Lowering.stringProperty? properties "title").result
      return [.link url content title]
    | .other given => .error (.ofRole given)
    | _ => return []

/-- The nodes of descriptions at an inline position. -/
def inlinesAll : List Element → Except LoweringError (List Node)
  | [] => return []
  | e :: es => return (← inlines e) ++ (← inlinesAll es)

end

mutual

/-- The cells of a description in a row. -/
def cells : Element → Except LoweringError (List Node)
  | text _ => return []
  | element role properties children =>
    match Role.ofValue role with
    | .root => cellsAll children
    | .tableCell => do
      let content ← inlinesAll children
      return [← (Lowering.cell .tableCell properties content).result]
    | .tableHeader => do
      let content ← inlinesAll children
      return [← (Lowering.cell .tableHeader properties content).result]
    | .other given => if given.isKey then return [] else .error (.roleNoKey given)
    | _ => return []

/-- The cells of descriptions in a row. -/
def cellsAll : List Element → Except LoweringError (List Node)
  | [] => return []
  | e :: es => return (← cells e) ++ (← cellsAll es)

end

mutual

/-- The rows of a description in a table. -/
def rows : Element → Except LoweringError (List Node)
  | text _ => return []
  | element role _ children =>
    match Role.ofValue role with
    | .root => rowsAll children
    | .tableRow => return [.tableRow (← cellsAll children)]
    | _ => return []

/-- The rows of descriptions in a table. -/
def rowsAll : List Element → Except LoweringError (List Node)
  | [] => return []
  | e :: es => return (← rows e) ++ (← rowsAll es)

end

mutual

/-- The items of a description in a list. -/
def items : Element → Except LoweringError (List Node)
  | text _ => return []
  | element role properties children =>
    match Role.ofValue role with
    | .root => itemsAll children
    | .listItem => do
      let status ← (Lowering.taskStatus properties).result
      return [Lowering.item status (← piecesAll children)]
    | _ => return []

/-- The items of descriptions in a list. -/
def itemsAll : List Element → Except LoweringError (List Node)
  | [] => return []
  | e :: es => return (← items e) ++ (← itemsAll es)

/-- The pieces of a description at a block position. -/
def pieces : Element → Except LoweringError (List Piece)
  | text value => return [.inline (.text value)]
  | element role properties children =>
    match Role.ofValue role with
    | .root => piecesAll children
    | .strong | .emphasis | .strikethrough | .inlineCode | .link =>
      return (← inlines (.element role properties children)).map .inline
    | .heading => do
      let level ← (Property.headingLevel (.int 1) (some "depth") (properties.get "depth")).mapError
        LoweringError.property
      return [.block (.heading level (← inlinesAll children))]
    | .paragraph =>
      match soleImage? children with
      | some properties => return [.block (.paragraph [← (Lowering.image properties).result])]
      | none => return [.block (.paragraph (← inlinesAll children))]
    | .blockquote => return [.block (.blockQuote (group (← piecesAll children)))]
    | .code => do
      let language ← (Lowering.language properties).result
      return [.block (.codeBlock (← literal properties children) language)]
    | .list => do
      let ordered ← (Property.flag (some "ordered") (properties.get "ordered")).mapError
        LoweringError.property
      let start ← (Lowering.start properties).result
      return [.block (.list (ordered.getD false) (← itemsAll children) start)]
    | .listItem => do
      let status ← (Lowering.taskStatus properties).result
      let children ← piecesAll children
      return [.block (.list false [Lowering.item status children] 1 synthesized)]
    | .table => return [.block (.table (← rowsAll children))]
    | .tableRow => return [.block (.table [.tableRow (← cellsAll children)] synthesized)]
    | .tableCell | .tableHeader => do
      let cells ← cells (.element role properties children)
      return [.block (.table [.tableRow cells] synthesized)]
    | .thematicBreak => return [.block .thematicBreak]
    | .image => return [.block (.paragraph [← (Lowering.image properties).result] synthesized)]
    | .other given => .error (.ofRole given)

/-- The pieces of descriptions at a block position. -/
def piecesAll : List Element → Except LoweringError (List Piece)
  | [] => return []
  | e :: es => return (← pieces e) ++ (← piecesAll es)

end

/-- The document of a description. -/
def document (e : Element) : Except LoweringError Node :=
  return .document (group (← e.pieces))

end Element

/-! ## Trees that fit a description -/

mutual

/-- A tree has the roles, the properties and the children of a description. -/
def Tree.Fits : Tree → Element → Prop
  | .text _ value, .text value' => value = value'
  | .element _ role properties children, .element role' properties' children' =>
    role = Role.ofValue role' ∧ properties = properties' ∧ FitsAll children children'
  | _, _ => False

/-- Trees fit descriptions one by one. -/
def Tree.FitsAll : List Tree → List Element → Prop
  | [], [] => True
  | t :: ts, e :: es => Fits t e ∧ FitsAll ts es
  | _, _ => False

end

/-- A property of trees and the descriptions that they fit, passed on from children to parents;
`all` is the same for siblings. -/
structure Tree.Hereditary (one : Tree → Element → Prop) (all : List Tree → List Element → Prop) :
    Prop where
  /-- Texts have the property. -/
  text : ∀ handle value, one (.text handle value) (.text value)
  /-- An element has the property when its children have it. -/
  element : ∀ handle role properties ts es, FitsAll ts es → all ts es →
    one (.element handle (Role.ofValue role) properties ts) (.element role properties es)
  /-- No siblings have the property. -/
  nil : all [] []
  /-- A node before siblings keeps the property. -/
  cons : ∀ t ts e es, one t e → all ts es → all (t :: ts) (e :: es)

namespace Tree.Hereditary

variable {one : Tree → Element → Prop} {all : List Tree → List Element → Prop}

mutual

/-- **What is passed on from children to parents holds of every tree that fits a description.** -/
theorem fits (H : Hereditary one all) : (t : Tree) → (e : Element) → t.Fits e → one t e
  | .text handle value, .text value', h => by
    obtain rfl : value = value' := h
    exact H.text handle value
  | .element handle role properties ts, .element role' properties' es, h => by
    obtain ⟨rfl, rfl, hts⟩ := h
    exact H.element handle role' properties ts es hts (H.fitsAll ts es hts)
  | .text .., .element .., h => by cases h
  | .element .., .text _, h => by cases h

theorem fitsAll (H : Hereditary one all) : (ts : List Tree) → (es : List Element) →
    FitsAll ts es → all ts es
  | [], [], _ => H.nil
  | t :: ts, e :: es, h => H.cons t ts e es (H.fits t e h.1) (H.fitsAll ts es h.2)
  | [], _ :: _, h => by cases h
  | _ :: _, [], h => by cases h

end

end Tree.Hereditary

end DocumentTree
