import DocumentTree.Document.Encoding
import DocumentTree.Proofs.Description.Building
import DocumentTree.Proofs.Document.Grammatical
import Mathlib.Algebra.Ring.Int.Defs

/-!
# Documents written as descriptions

Every node of a document has an element of its own role, with the fields of the node as properties
and its children in order. Lowering reads each property back as the field it was written from. What
cannot be written this way is metadata; an item without children and a start beyond the numbers are
repaired or refused by lowering.

## Main definitions

* `Node.describe` — the description that writes a document.
* `Node.Normal` — the documents that are read back as they are.
-/

namespace DocumentTree

namespace Node

/-- The status of an item, as a property. -/
def statusValue : Option String → Value
  | none => .null
  | some s => .bool (s = "checked")

/-- The fields of an image, as properties. -/
def imageProperties (url altText : String) (title : Option String) : Entries :=
  [("url", .str url), ("alt", .str altText), ("title", optionalValue title)]

mutual

/-- The description that writes a node as an element of its own role. -/
def describe : Node → Element
  | document children _ => .element Role.root.toValue [] (describeAll children)
  | heading level content _ =>
    .element Role.heading.toValue [("depth", .int level.val)] (describeAll content)
  | paragraph content _ => .element Role.paragraph.toValue [] (describeAll content)
  | codeBlock content language _ =>
    .element Role.code.toValue (("value", .str content) :: optionalEntry "language" language) []
  | blockQuote children _ => .element Role.blockquote.toValue [] (describeAll children)
  | list ordered items start _ =>
    .element Role.list.toValue [("ordered", .bool ordered), ("start", .int start)]
      (describeAll items)
  | listItem children status _ =>
    .element Role.listItem.toValue [("checked", statusValue status)] (describeAll children)
  | table rows _ => .element Role.table.toValue [] (describeAll rows)
  | tableRow cells _ => .element Role.tableRow.toValue [] (describeAll cells)
  | tableCell content alignment isHeader _ =>
    .element (if isHeader then Role.tableHeader else Role.tableCell).toValue
      [("align", optionalValue alignment)] (describeAll content)
  | thematicBreak _ => .element Role.thematicBreak.toValue [] []
  | text content _ => .text content
  | emphasis content _ => .element Role.emphasis.toValue [] (describeAll content)
  | strong content _ => .element Role.strong.toValue [] (describeAll content)
  | strikethrough content _ => .element Role.strikethrough.toValue [] (describeAll content)
  | code content _ => .element Role.inlineCode.toValue [("value", .str content)] []
  | link url content title _ =>
    .element Role.link.toValue [("url", .str url), ("title", optionalValue title)]
      (describeAll content)
  | image url altText title _ =>
    .element Role.image.toValue (imageProperties url altText title) []

/-- The descriptions that write nodes, in order. -/
def describeAll : List Node → List Element
  | [] => []
  | n :: ns => describe n :: describeAll ns

end

mutual

/-- There is no metadata, no item is empty, and every list starts within 0 and 2 ^ 1023. -/
def Normal : Node → Prop
  | document children m | blockQuote children m | heading _ children m | paragraph children m
  | table children m | tableRow children m | tableCell children _ _ m | emphasis children m
  | strong children m | strikethrough children m | link _ children _ m =>
    m = [] ∧ AllNormal children
  | list _ items start m => m = [] ∧ (0 ≤ start ∧ start ≤ 2 ^ 1023) ∧ AllNormal items
  | listItem children _ m => m = [] ∧ children ≠ [] ∧ AllNormal children
  | codeBlock _ _ m | thematicBreak m | text _ m | code _ m | image _ _ _ m => m = []

/-- The same of all nodes of a sequence. -/
def AllNormal : List Node → Prop
  | [] => True
  | n :: ns => Normal n ∧ AllNormal ns

end

/-! ## Only roles of the vocabulary are written -/

mutual

theorem isKnown_describe : (n : Node) → n.describe.isKnown = true
  | document children _ | blockQuote children _ | list _ children _ _ | listItem children _ _
  | table children _ | tableRow children _ | heading _ children _ | paragraph children _
  | emphasis children _ | strong children _ | strikethrough children _ | link _ children _ _ => by
    rw [describe, Element.isKnown, Role.ofValue_toValue rfl, isKnownAll_describeAll children]
    rfl
  | tableCell content _ isHeader _ => by
    rw [describe, Element.isKnown, isKnownAll_describeAll content]
    cases isHeader <;> rfl
  | codeBlock .. | thematicBreak _ | text .. | code .. | image .. => rfl

theorem isKnownAll_describeAll : (ns : List Node) → Element.isKnownAll (describeAll ns) = true
  | [] => rfl
  | n :: ns => by
    rw [describeAll, Element.isKnownAll, isKnown_describe n, isKnownAll_describeAll ns]
    rfl

end

end Node

namespace Lowering

/-! ## Properties are read back -/

theorem stringProperty_url (url : String) (rest : Entries) :
    (stringProperty (("url", .str url) :: rest) "url").result = .ok url := rfl

theorem title_link (url : String) (title : Option String) :
    (stringProperty? [("url", .str url), ("title", Node.optionalValue title)] "title").result =
      .ok title := by
  cases title <;> rfl

theorem image_written (url altText : String) (title : Option String) :
    (image (Node.imageProperties url altText title)).result = .ok (.image url altText title) := by
  cases title <;> rfl

theorem literal_written (content : String) (rest : Entries) (children : List Element) :
    Element.literal (("value", .str content) :: rest) children = .ok content := rfl

theorem ordered_written (ordered : Bool) (rest : Entries) :
    Property.flag (some "ordered") (Entries.get "ordered" (("ordered", .bool ordered) :: rest)) =
      .ok (some ordered) := rfl

theorem language_written (content : String) (language : Option String) :
    (Lowering.language (("value", .str content) :: Node.optionalEntry "language" language)).result =
      .ok language := by
  cases language <;> rfl

theorem status_written {status : Option String}
    (h : ∀ s, status = some s → Node.isTaskStatus s = true) :
    (taskStatus [("checked", Node.statusValue status)]).result = .ok status := by
  cases status with
  | none => rfl
  | some s =>
    have hs := h s rfl
    simp only [Node.isTaskStatus, Bool.or_eq_true, decide_eq_true_eq] at hs
    rcases hs with rfl | rfl <;> rfl

theorem cell_written {alignment : Option String}
    (h : ∀ s, alignment = some s → Node.isAlignment s = true) (role : Role) (content : List Node) :
    (cell role [("align", Node.optionalValue alignment)] content).result =
      .ok (.tableCell content alignment (role == .tableHeader)) := by
  cases alignment with
  | none => rfl
  | some s =>
    have hs := h s rfl
    simp only [Node.isAlignment, Bool.or_eq_true, decide_eq_true_eq] at hs
    rcases hs with (rfl | rfl) | rfl <;> rfl

theorem start_written {start : Int} (hlow : 0 ≤ start) (hhigh : start ≤ 2 ^ 1023)
    (ordered : Bool) :
    (Lowering.start [("ordered", .bool ordered), ("start", .int start)]).result = .ok start := by
  have hread : Property.number (some "start")
      (Entries.get "start" [("ordered", .bool ordered), ("start", .int start)]) =
        .ok (some (.int start)) := rfl
  have hbound : (2 : Int) ^ 1023 < Double.rangeEnd := by decide +kernel
  have hlt : start.natAbs < Double.rangeEnd := by
    rw [← Int.ofNat_lt, Int.natAbs_of_nonneg hlow]
    exact Int.lt_of_le_of_lt hhigh hbound
  simp only [Lowering.start, hread, property, Traced.result_bind_eq, Traced.result_lift,
    Except.mapError, ok_bind, Option.getD_some, startNumber, hlt, if_true, Int.max_eq_right hlow]

theorem level_written (level : HeadingLevel) :
    Property.headingLevel (.int 1) (some "depth")
      (Entries.get "depth" [("depth", .int level.val)]) = .ok level := by
  have hread : Property.headingLevel (.int 1) (some "depth")
      (Entries.get "depth" [("depth", .int level.val)]) =
        .ok (HeadingLevel.clamp (.int level.val)) := rfl
  obtain ⟨val, hlow, hhigh⟩ := level
  have hval : ((Number.int val).truncWithin 1 6).toNat = val := by
    simp only [Number.truncWithin]
    omega
  rw [hread]
  simp only [HeadingLevel.clamp, hval]

end Lowering

end DocumentTree
