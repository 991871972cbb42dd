import DocumentTree.Document.Grammar
import DocumentTree.Document.Json
import DocumentTree.Proofs.Outcome

/-!
# Nodes are read back from their data

The writer leaves fields out and the reader fills them in, so the two have to agree on what a
missing field stands for, for each kind of node. They do for every node whose statuses and
alignments are words of the grammar: an empty word would be left out and read as a missing one. What
is read first is the node with all its fields as data, of which the node is the typed form.

The JSON text of a node is read back as well, given that the JSON value it is made of is.

## Main definitions

* `Node.InVocabulary` — statuses and alignments are missing or words of the grammar.
* `Node.untyped` — a node with its fields as data.
-/

namespace DocumentTree

/-! ## Looking up fields -/

namespace Entries

@[simp] theorem get?_cons (name key : String) (v : Value) (rest : Entries) :
    get? key ((Key.str name, v) :: rest) = if name = key then some v else get? key rest := by
  by_cases h : name = key <;> simp [get?, h]

@[simp] theorem get?_append (key : Key) (xs ys : Entries) :
    get? key (xs ++ ys) = (get? key xs).or (get? key ys) := by
  induction xs with
  | nil => rfl
  | cons e xs ih =>
    obtain ⟨k, v⟩ := e
    by_cases h : k.same key <;> simp [get?, h, ih]

end Entries

@[simp] theorem RawNode.under_branchesOf_cons (field name : String) (v : Value) (rest : Entries) :
    (branchesOf ((Key.str name, v) :: rest)).under field =
      if name = field then childrenOf v else (branchesOf rest).under field := by
  simp [branchesOf, Branches.under]

namespace Node

open RawNode (Branches branchesOf childrenOf ofValues)

/-! ## Fields that may be left out -/

@[simp] theorem get?_optionalEntry (name key : String) (s : Option String) :
    Entries.get? key (optionalEntry name s) = if name = key then s.map .str else none := by
  cases s <;> simp [optionalEntry, Entries.get?]

@[simp] theorem get?_metadataEntry (key : String) (m : Metadata) :
    Entries.get? key (metadataEntry m) =
      if "metadata" = key ∧ m ≠ [] then some (.map m) else none := by
  cases m <;> simp [metadataEntry, Entries.get?]

/-- A word that is not empty is not left out. -/
theorem get?_filledEntry {s : Option String} (h : s ≠ some "") (name key : String) :
    Entries.get? key (filledEntry name s) = if name = key then s.map .str else none := by
  cases s with
  | none => simp [filledEntry, Entries.get?]
  | some s =>
    have hs : s ≠ "" := fun hs => h (congrArg some hs)
    simp [filledEntry, hs, Entries.get?]

@[simp] theorem get?_raisedEntry (name key : String) (flag : Bool) :
    Entries.get? key (raisedEntry name flag) =
      if name = key ∧ flag = true then some (.bool true) else none := by
  cases flag <;> simp [raisedEntry, Entries.get?]

/-- Metadata that is left out is read as empty. -/
theorem readMetadata_eq {entries : Entries} {m : Metadata}
    (h : entries.get? "metadata" = if m ≠ [] then some (.map m) else none) :
    readMetadata entries = .ok m := by
  rw [readMetadata, h]
  cases m <;> rfl

theorem ofInt?_val (level : HeadingLevel) : HeadingLevel.ofInt? level.val = some level := by
  have hlow := level.one_le
  have hhigh := level.le_six
  rw [HeadingLevel.ofInt?, dif_pos ⟨by omega, by omega⟩]
  simp

/-! ## Statuses and alignments -/

mutual

/-- Every status and every alignment in the node is missing or a word of the grammar. -/
def InVocabulary : Node → Prop
  | listItem children status _ =>
    (∀ s, status = some s → isTaskStatus s = true) ∧ AllInVocabulary children
  | tableCell content alignment _ _ =>
    (∀ s, alignment = some s → isAlignment s = true) ∧ AllInVocabulary content
  | document children _ | blockQuote children _ | heading _ children _ | paragraph children _
  | list _ children _ _ | table children _ | tableRow children _ | emphasis children _
  | strong children _ | strikethrough children _ | link _ children _ _ => AllInVocabulary children
  | codeBlock .. | thematicBreak _ | text .. | code .. | image .. => True

/-- Every status and every alignment in the nodes is missing or a word of the grammar. -/
def AllInVocabulary : List Node → Prop
  | [] => True
  | n :: ns => InVocabulary n ∧ AllInVocabulary ns

end

theorem ne_empty_of_isTaskStatus {status : Option String}
    (h : ∀ s, status = some s → isTaskStatus s = true) : status ≠ some "" := by
  rintro rfl
  have := h "" rfl
  simp [isTaskStatus] at this

theorem ne_empty_of_isAlignment {alignment : Option String}
    (h : ∀ s, alignment = some s → isAlignment s = true) : alignment ≠ some "" := by
  rintro rfl
  have := h "" rfl
  simp [isAlignment] at this

/-! ## Nodes with their fields as data -/

mutual

/-- A node with its fields as data. -/
def untyped : Node → RawNode
  | document children m => ⟨.document, [], untypedAll children, m⟩
  | blockQuote children m => ⟨.blockQuote, [], untypedAll children, m⟩
  | heading level content m => ⟨.heading, [("level", .int level.val)], untypedAll content, m⟩
  | paragraph content m => ⟨.paragraph, [], untypedAll content, m⟩
  | codeBlock content language m =>
    ⟨.codeBlock, [("content", .str content), ("language", optionalValue language)], [], m⟩
  | list ordered items start m =>
    ⟨.list, [("ordered", .bool ordered), ("start", .int start)], untypedAll items, m⟩
  | listItem children status m =>
    ⟨.listItem, [("task_status", optionalValue status)], untypedAll children, m⟩
  | table rows m => ⟨.table, [], untypedAll rows, m⟩
  | tableRow cells m => ⟨.tableRow, [], untypedAll cells, m⟩
  | tableCell content alignment header m =>
    ⟨.tableCell, [("alignment", optionalValue alignment), ("is_header", .bool header)],
      untypedAll content, m⟩
  | thematicBreak m => ⟨.thematicBreak, [], [], m⟩
  | text content m => ⟨.text, [("content", .str content)], [], m⟩
  | emphasis content m => ⟨.emphasis, [], untypedAll content, m⟩
  | strong content m => ⟨.strong, [], untypedAll content, m⟩
  | strikethrough content m => ⟨.strikethrough, [], untypedAll content, m⟩
  | code content m => ⟨.code, [("content", .str content)], [], m⟩
  | link url content title m =>
    ⟨.link, [("url", .str url), ("title", optionalValue title)], untypedAll content, m⟩
  | image url alternative title m =>
    ⟨.image, [("url", .str url), ("alt_text", .str alternative), ("title", optionalValue title)],
      [], m⟩

/-- Nodes with their fields as data. -/
def untypedAll : List Node → List RawNode
  | [] => []
  | n :: ns => untyped n :: untypedAll ns

end

theorem stringIn?_optionalValue {fields : Entries} {name : String} {s : Option String}
    (h : fields.get? name = some (optionalValue s)) : RawNode.stringIn? fields name = .ok s := by
  rw [RawNode.stringIn?, Entries.get, h]
  cases s <;> rfl

mutual

/-- **A node is the typed form of itself.** -/
theorem typed_untyped : (n : Node) → n.untyped.typed = .ok n
  | document children _ | blockQuote children _ | paragraph children _ | table children _
  | tableRow children _ | emphasis children _ | strong children _ | strikethrough children _ => by
    simp [untyped, RawNode.typed, typedAll_untypedAll children, RawNode.typedKind]
  | heading level content m => by
    simp [untyped, RawNode.typed, typedAll_untypedAll content, RawNode.typedKind, RawNode.levelIn,
      RawNode.integerIn, Entries.get, ofInt?_val]
  | list ordered items start m => by
    simp [untyped, RawNode.typed, typedAll_untypedAll items, RawNode.typedKind, RawNode.flagIn,
      RawNode.integerIn, Entries.get]
  | listItem children status m => by
    simp [untyped, RawNode.typed, typedAll_untypedAll children, RawNode.typedKind,
      stringIn?_optionalValue (s := status)]
  | tableCell content alignment header m => by
    simp [untyped, RawNode.typed, typedAll_untypedAll content, RawNode.typedKind, RawNode.flagIn,
      Entries.get, stringIn?_optionalValue (s := alignment)]
  | thematicBreak m => by
    simp [untyped, RawNode.typed, RawNode.typedAll, RawNode.typedKind]
  | text content m | code content m => by
    simp [untyped, RawNode.typed, RawNode.typedAll, RawNode.typedKind, RawNode.stringIn,
      Entries.get]
  | codeBlock content language m => by
    simp [untyped, RawNode.typed, RawNode.typedAll, RawNode.typedKind, RawNode.stringIn,
      Entries.get, stringIn?_optionalValue (s := language)]
  | link url content title m => by
    simp [untyped, RawNode.typed, typedAll_untypedAll content, RawNode.typedKind, RawNode.stringIn,
      Entries.get, stringIn?_optionalValue (s := title)]
  | image url alternative title m => by
    simp [untyped, RawNode.typed, RawNode.typedAll, RawNode.typedKind, RawNode.stringIn,
      Entries.get, stringIn?_optionalValue (s := title)]

theorem typedAll_untypedAll : (ns : List Node) → RawNode.typedAll (untypedAll ns) = .ok ns
  | [] => rfl
  | n :: ns => by
    simp [untypedAll, RawNode.typedAll, typed_untyped n, typedAll_untypedAll ns]

end

/-! ## Reading what was written -/

/-- A map that names its kind is read as a node of this kind. -/
theorem ofEntries_cons (kind : NodeKind) (fields : Entries) (branches : Branches) :
    RawNode.ofEntries (("node_type", .str kind.name) :: fields) branches =
      RawNode.ofKind kind (("node_type", .str kind.name) :: fields) branches := by
  have hne : kind.name ≠ "" := by cases kind <;> decide
  simp [RawNode.ofEntries, Entries.get, Value.isTruthy, Value.isKey, Value.key?, Value.kind?, hne,
    NodeKind.ofName?_name]

/-- A string that is left out where it is missing is read as null. -/
@[simp] theorem getD_map_str (s : Option String) :
    (s.map Value.str).getD .null = optionalValue s := by
  cases s <;> rfl

theorem within?_val (level : HeadingLevel) :
    (Value.int level.val).within? 1 6 = some true := by
  have hlow := level.one_le
  have hhigh := level.le_six
  exact congrArg some (decide_eq_true (by omega))

/-- Nodes of a kind that has nothing but children are read back if the children are. -/
theorem ofEntries_bare (kind : NodeKind) {field : String} (hform : kind.form = ⟨[], some field⟩)
    {ns : List Node} {below : List RawNode} (hbelow : ofValues (toValues ns) = .ok below)
    (m : Metadata) :
    let entries : Entries :=
      ("node_type", .str kind.name) :: (field, .list (toValues ns)) :: metadataEntry m
    RawNode.ofEntries entries (branchesOf entries) = .ok ⟨kind, [], below, m⟩ := by
  have hkind : kind ≠ .heading := by
    rintro rfl
    cases hform
  have hname : field ≠ "node_type" ∧ field ≠ "metadata" := by
    cases kind <;> cases hform <;> decide
  intro entries
  have hmetadata : readMetadata entries = .ok m :=
    readMetadata_eq (by simp [entries, hname.2])
  rw [ofEntries_cons kind, RawNode.ofKind, hform, hmetadata]
  simp [entries, hname.1.symm, childrenOf, hbelow, RawNode.checked, hkind]

mutual

/-- **A node is read back from its fields**, with all of them as data. -/
theorem ofEntries_toEntries : (n : Node) → n.InVocabulary →
    RawNode.ofEntries n.toEntries (branchesOf n.toEntries) = .ok n.untyped
  | document children m, h =>
    ofEntries_bare .document rfl (ofValues_toValues children (by simpa [InVocabulary] using h)) m
  | blockQuote children m, h =>
    ofEntries_bare .blockQuote rfl (ofValues_toValues children (by simpa [InVocabulary] using h)) m
  | paragraph content m, h =>
    ofEntries_bare .paragraph rfl (ofValues_toValues content (by simpa [InVocabulary] using h)) m
  | table rows m, h =>
    ofEntries_bare .table rfl (ofValues_toValues rows (by simpa [InVocabulary] using h)) m
  | tableRow cells m, h =>
    ofEntries_bare .tableRow rfl (ofValues_toValues cells (by simpa [InVocabulary] using h)) m
  | emphasis content m, h =>
    ofEntries_bare .emphasis rfl (ofValues_toValues content (by simpa [InVocabulary] using h)) m
  | strong content m, h =>
    ofEntries_bare .strong rfl (ofValues_toValues content (by simpa [InVocabulary] using h)) m
  | strikethrough content m, h =>
    ofEntries_bare .strikethrough rfl
      (ofValues_toValues content (by simpa [InVocabulary] using h)) m
  | heading level content m, h => by
    have hbelow := ofValues_toValues content (by simpa [InVocabulary] using h)
    rw [toEntries]
    refine (ofEntries_cons .heading _ _).trans ?_
    simp [RawNode.ofKind, NodeKind.form, NodeKind.name, FieldForm.needed, FieldForm.read,
      childrenOf, hbelow, readMetadata_eq (m := m), RawNode.checked, Entries.get, within?_val,
      untyped]
  | list ordered items start m, h => by
    have hbelow := ofValues_toValues items (by simpa [InVocabulary] using h)
    rw [toEntries]
    refine (ofEntries_cons .list _ _).trans ?_
    simp [RawNode.ofKind, NodeKind.form, NodeKind.name, FieldForm.needed, FieldForm.read,
      childrenOf, hbelow, readMetadata_eq (m := m), RawNode.checked, untyped]
  | listItem children status m, h => by
    rw [InVocabulary] at h
    have hbelow := ofValues_toValues children h.2
    have hstatus := get?_filledEntry (ne_empty_of_isTaskStatus h.1)
    rw [toEntries]
    refine (ofEntries_cons .listItem _ _).trans ?_
    simp [RawNode.ofKind, NodeKind.form, NodeKind.name, FieldForm.optional, FieldForm.read,
      childrenOf, hbelow, hstatus, readMetadata_eq (m := m), RawNode.checked, untyped]
  | tableCell content alignment header m, h => by
    rw [InVocabulary] at h
    have hbelow := ofValues_toValues content h.2
    have halignment := get?_filledEntry (ne_empty_of_isAlignment h.1)
    rw [toEntries]
    refine (ofEntries_cons .tableCell _ _).trans ?_
    cases header <;>
      simp [RawNode.ofKind, NodeKind.form, NodeKind.name, FieldForm.optional, FieldForm.read,
        childrenOf, hbelow, halignment, readMetadata_eq (m := m), RawNode.checked, untyped]
  | thematicBreak m, _ => by
    rw [toEntries]
    refine (ofEntries_cons .thematicBreak _ _).trans ?_
    simp [RawNode.ofKind, NodeKind.form, NodeKind.name, readMetadata_eq (m := m), RawNode.checked,
      untyped]
  | text content m, _ => by
    rw [toEntries]
    refine (ofEntries_cons .text _ _).trans ?_
    simp [RawNode.ofKind, NodeKind.form, NodeKind.name, FieldForm.needed, FieldForm.read,
      readMetadata_eq (m := m), RawNode.checked, untyped]
  | code content m, _ => by
    rw [toEntries]
    refine (ofEntries_cons .code _ _).trans ?_
    simp [RawNode.ofKind, NodeKind.form, NodeKind.name, FieldForm.needed, FieldForm.read,
      readMetadata_eq (m := m), RawNode.checked, untyped]
  | codeBlock content language m, _ => by
    rw [toEntries]
    refine (ofEntries_cons .codeBlock _ _).trans ?_
    simp [RawNode.ofKind, NodeKind.form, NodeKind.name, FieldForm.needed, FieldForm.optional,
      FieldForm.read, readMetadata_eq (m := m), RawNode.checked, untyped]
  | link url content title m, h => by
    have hbelow := ofValues_toValues content (by simpa [InVocabulary] using h)
    rw [toEntries]
    refine (ofEntries_cons .link _ _).trans ?_
    simp [RawNode.ofKind, NodeKind.form, NodeKind.name, FieldForm.needed, FieldForm.optional,
      FieldForm.read, childrenOf, hbelow, readMetadata_eq (m := m), RawNode.checked, untyped]
  | image url alternative title m, _ => by
    rw [toEntries]
    refine (ofEntries_cons .image _ _).trans ?_
    simp [RawNode.ofKind, NodeKind.form, NodeKind.name, FieldForm.needed, FieldForm.optional,
      FieldForm.read, readMetadata_eq (m := m), RawNode.checked, untyped]

theorem ofValues_toValues : (ns : List Node) → AllInVocabulary ns →
    ofValues (toValues ns) = .ok (untypedAll ns)
  | [], _ => rfl
  | n :: ns, h => by
    rw [AllInVocabulary] at h
    rw [toValues, ofValues, RawNode.ofValue, ofEntries_toEntries n h.1, ofValues_toValues ns h.2]
    rfl

end

theorem ofValue_toValue {n : Node} (h : n.InVocabulary) : ofValue n.toValue = .ok n := by
  have hraw : RawNode.ofValue n.toValue = .ok n.untyped := ofEntries_toEntries n h
  rw [ofValue, hraw]
  exact typed_untyped n

/-- The version in front is taken off again. -/
theorem rawOfVersioned_toVersioned {n : Node} (h : n.InVocabulary) :
    RawNode.ofVersioned n.toVersioned = .ok n.untyped := by
  have hentries : RawNode.ofValue (.map n.toEntries) = .ok n.untyped := ofEntries_toEntries n h
  have hversion : RawNode.isVersion (.int version) = true := by decide
  simp [RawNode.ofVersioned, toVersioned, hversion, Entries.erase, hentries]

/-- Different nodes are written as different data. -/
theorem toValue_inj {m n : Node} (hm : m.InVocabulary) (hn : n.InVocabulary)
    (h : m.toValue = n.toValue) : m = n := by
  have hread : ofValue m.toValue = .ok n := by rw [h, ofValue_toValue hn]
  rw [ofValue_toValue hm] at hread
  exact Except.ok.inj hread

/-- The JSON text of a node is read back as that node, when the JSON value is read back. -/
theorem ofJson_toJson {n : Node} (h : n.InVocabulary) {layout : Json.Layout}
    (hjson : Json.read? (Json.write layout n.toVersioned) = some n.toVersioned) :
    ofJson (n.toJson layout) = .ok n := by
  rw [ofJson, RawNode.ofJson, toJson, hjson]
  simp [rawOfVersioned_toVersioned h, typed_untyped, Except.mapError]

end Node

open Node (InVocabulary)

/-- **A node whose statuses and alignments are missing or words of the grammar is read back from its
data**, so no two such nodes have the same data. In any layout in which the JSON value of the node
is read back from its text, the node is read back from its JSON text too, and no other node that is
read back has that text in any layout. -/
theorem encoded_node_is_read_back (n : Node) (h : n.InVocabulary) :
    Node.ofValue n.toValue = .ok n ∧
    (∀ m : Node, m.InVocabulary → m.toValue = n.toValue → m = n) ∧
    ∀ layout : Json.Layout,
      Json.read? (Json.write layout n.toVersioned) = some n.toVersioned →
      Node.ofJson (n.toJson layout) = .ok n ∧
      ∀ (m : Node) (other : Json.Layout), m.InVocabulary →
        Json.read? (Json.write other m.toVersioned) = some m.toVersioned →
        m.toJson other = n.toJson layout → m = n := by
  refine ⟨Node.ofValue_toValue h, fun m hm heq => Node.toValue_inj hm h heq, ?_⟩
  intro layout hjson
  have hread : Node.ofJson (n.toJson layout) = .ok n := Node.ofJson_toJson h hjson
  refine ⟨hread, ?_⟩
  intro m other hm hother heq
  have hback : Node.ofJson (m.toJson other) = .ok m := Node.ofJson_toJson hm hother
  rw [heq, hread] at hback
  exact (Except.ok.inj hback).symm

/-- A node with fields that are left out, empty, or below zero, and with metadata of each type. -/
def annotated : Node :=
  .blockQuote
    [.list true [.listItem [.codeBlock "a\tb" (some "")] (some "checked"), .listItem [] none] 0,
      .table [.tableRow [.tableCell [.text "c", .link "d" [] (some "")] (some "left") true]
        [("e", .list [.null, .float (.finite true 4503599627370496 (-53))])]]]
    [("f", .map [("g", .int (-1)), ("", .bool false)])]

theorem annotated_is_read_back :
    annotated.InVocabulary ∧ Node.ofValue annotated.toValue = .ok annotated ∧
      Json.read? (Json.write (.indented [' ', ' ']) annotated.toVersioned) =
        some annotated.toVersioned ∧
      Node.ofJson (annotated.toJson (.indented [' ', ' '])) = .ok annotated := by
  have h : annotated.InVocabulary := by
    simp [annotated, InVocabulary, Node.AllInVocabulary, Node.isTaskStatus, Node.isAlignment]
  have hjson : Json.read? (Json.write (.indented [' ', ' ']) annotated.toVersioned) =
      some annotated.toVersioned := by
    decide +kernel
  obtain ⟨hvalue, -, htext⟩ := encoded_node_is_read_back annotated h
  exact ⟨h, hvalue, hjson, (htext _ hjson).1⟩

end DocumentTree
