import DocumentTree.Proofs.Document.Grammatical
import DocumentTree.Proofs.Document.Passes
import DocumentTree.Proofs.Store.Run

/-!
# Lowered documents are grammatical

Any role may hold any role at any depth, so every pass over a tree is followed through every role.
A pass gives nodes of one class: inline positions give running text, lists give items, tables rows
and rows cells, and block positions give pieces that group into blocks.

## Main definitions

* `Piece.Grammatical` — what a pass gives at a block position.
-/

namespace DocumentTree

open Node (AllGrammatical AreBlocks RunningText allGrammatical_and_iff)

/-- A piece that is running text or a grammatical block. -/
def Piece.Grammatical : Piece → Prop
  | .inline node => node.IsRunning
  | .block node => node.isBlock = true ∧ node.Grammatical

/-- Running text makes a grammatical paragraph. -/
theorem Node.grammatical_paragraph {ns : List Node} (h : ∀ n ∈ ns, n.IsRunning)
    (m : Metadata) : (Node.paragraph ns m).Grammatical := by
  rw [Node.Grammatical]
  exact ⟨⟨fun n hn => (h n hn).1, fun _ n hn => (h n hn).2.1⟩,
    (Node.runningText_iff.mpr h).2⟩

/-! ## Grouping -/

private theorem blocks_runParagraph {run : List Node} (h : ∀ n ∈ run, n.IsRunning) :
    ∀ n ∈ runParagraph run, n.isBlock = true ∧ n.Grammatical := by
  unfold runParagraph
  split
  · simp
  · intro n hn
    obtain rfl := List.mem_singleton.mp hn
    exact ⟨rfl, Node.grammatical_paragraph h synthesized⟩

private theorem blocks_groupFrom {run : List Node} {pieces : List Piece}
    (hrun : ∀ n ∈ run, n.IsRunning) (hpieces : ∀ p ∈ pieces, p.Grammatical) :
    ∀ n ∈ groupFrom run pieces, n.isBlock = true ∧ n.Grammatical := by
  induction pieces generalizing run with
  | nil => exact blocks_runParagraph hrun
  | cons p pieces ih =>
    have hp : p.Grammatical := hpieces p (by simp)
    have hrest : ∀ q ∈ pieces, q.Grammatical := fun q hq => hpieces q (by simp [hq])
    cases p with
    | inline node =>
      refine ih ?_ hrest
      intro n hn
      rcases List.mem_append.mp hn with hn | hn
      · exact hrun n hn
      · obtain rfl := List.mem_singleton.mp hn
        exact hp
    | block node =>
      intro n hn
      simp only [groupFrom, List.mem_append, List.mem_cons] at hn
      rcases hn with hn | rfl | hn
      · exact blocks_runParagraph hrun n hn
      · exact hp
      · exact ih (by simp) hrest n hn

/-- Grouping pieces gives blocks. -/
theorem blocks_group {pieces : List Piece} (h : ∀ p ∈ pieces, p.Grammatical) :
    AreBlocks (group pieces) ∧ AllGrammatical (group pieces) :=
  allGrammatical_and_iff.mpr (blocks_groupFrom (by simp) h)

namespace Lowering

/-! ## Properties in their ranges -/

theorem start_nonneg {properties : Entries} {i : Int} (h : (start properties).result = .ok i) :
    0 ≤ i := by
  simp only [start, Traced.result_bind_eq_ok, Traced.result_lift] at h
  obtain ⟨given, -, h⟩ := h
  unfold startNumber at h
  split at h
  · split at h
    · cases h
      exact Int.le_max_left 0 _
    · cases h
  · split at h <;> cases h
    · exact Int.le_max_left 0 _
    · decide

theorem taskStatus_known {properties : Entries} {status : Option String}
    (h : (taskStatus properties).result = .ok status) :
    ∀ s, status = some s → Node.isTaskStatus s = true := by
  simp only [taskStatus, Traced.result_bind_eq_ok, Traced.result_pure_eq_ok] at h
  obtain ⟨checked, -, rfl⟩ := h
  rcases checked with _ | _ | _ <;> simp [Node.isTaskStatus]

theorem alignment_known {name : Option String} {v : Value} {alignment : Option String}
    (h : Property.alignment? name v = .ok alignment) :
    ∀ s, alignment = some s → Node.isAlignment s = true := by
  simp only [Property.alignment?, bind_eq_ok] at h
  obtain ⟨given, -, h⟩ := h
  cases given with
  | none =>
    simp only [pure_eq_ok] at h
    simp [← h]
  | some align =>
    by_cases hmem : align ∈ Property.alignmentNames
    · simp only [hmem, if_true, pure_eq_ok] at h
      subst h
      simp only [Property.alignmentNames, List.mem_cons, List.not_mem_nil, or_false] at hmem
      rcases hmem with rfl | rfl | rfl | rfl <;> simp [Node.isAlignment]
    · simp [hmem] at h

theorem image_isImage {properties : Entries} {n : Node} (h : (image properties).result = .ok n) :
    ∃ url alt title, n = .image url alt title := by
  simp only [image, Traced.result_bind_eq_ok, Traced.result_pure_eq_ok] at h
  obtain ⟨url, -, alt, -, title, -, rfl⟩ := h
  exact ⟨url, alt, title, rfl⟩

/-- A paragraph with a sole image is grammatical. -/
private theorem grammatical_imageParagraph {properties : Entries} {n : Node} (m : Metadata)
    (h : (image properties).result = .ok n) : (Node.paragraph [n] m).Grammatical := by
  obtain ⟨url, alt, title, rfl⟩ := image_isImage h
  simp [Node.Grammatical, Node.ParagraphContent, AllGrammatical, Node.isInline]

theorem cell_grammatical {role : Role} {properties : Entries} {content : List Node} {n : Node}
    (hcontent : ∀ m ∈ content, m.IsRunning)
    (h : (cell role properties content).result = .ok n) :
    n.isCell = true ∧ n.Grammatical := by
  simp only [cell, property, Traced.result_bind_eq_ok, Traced.result_lift, mapError_eq_ok,
    Traced.result_pure_eq_ok] at h
  obtain ⟨alignment, halign, rfl⟩ := h
  refine ⟨rfl, ?_⟩
  rw [Node.Grammatical]
  exact ⟨alignment_known halign, Node.runningText_iff.mpr hcontent⟩

theorem item_grammatical {status : Option String} {pieces : List Piece}
    (hstatus : ∀ s, status = some s → Node.isTaskStatus s = true)
    (hpieces : ∀ p ∈ pieces, p.Grammatical) :
    (item status pieces).isItem = true ∧ (item status pieces).Grammatical := by
  refine ⟨rfl, ?_⟩
  rw [item, Node.Grammatical]
  refine ⟨hstatus, ?_⟩
  split
  · have hempty : (Node.paragraph [] synthesized).Grammatical :=
      Node.grammatical_paragraph (by simp) synthesized
    exact allGrammatical_and_iff.mpr (by simpa [Node.isBlock] using hempty)
  · exact blocks_group hpieces

/-! ## The passes -/

mutual

theorem inline_isRunning : (t : Tree) → {answer : Option Node} →
    (inline t).result = .ok answer → ∀ n, answer = some n → n.IsRunning
  | .text handle value, answer, h => by
    simp only [inline, Traced.result_pure_eq_ok] at h
    rintro n rfl
    obtain rfl := Option.some.inj h
    simp [Node.IsRunning, Node.isInline, Node.isImage, Node.Grammatical]
  | .element handle role properties children, answer, h => by
    rintro n rfl
    cases role with
    | strong | emphasis | strikethrough =>
      simp only [inline, Traced.result_bind_eq_ok, Traced.result_pure_eq_ok,
        Option.some.injEq] at h
      obtain ⟨content, hcontent, rfl⟩ := h
      refine ⟨rfl, rfl, ?_⟩
      rw [Node.Grammatical]
      exact Node.runningText_iff.mpr (inlines_areRunning children hcontent)
    | link =>
      simp only [inline, Traced.result_bind_eq_ok, Traced.result_pure_eq_ok,
        Option.some.injEq] at h
      obtain ⟨url, -, content, hcontent, title, -, rfl⟩ := h
      refine ⟨rfl, rfl, ?_⟩
      rw [Node.Grammatical]
      exact Node.runningText_iff.mpr (inlines_areRunning children hcontent)
    | inlineCode =>
      simp only [inline, Traced.result_bind_eq_ok, Traced.result_pure_eq_ok,
        Option.some.injEq] at h
      obtain ⟨content, -, rfl⟩ := h
      simp [Node.IsRunning, Node.isInline, Node.isImage, Node.Grammatical]
    | _ => simp [inline] at h

theorem inlines_areRunning {container : String} : (ts : List Tree) → {ns : List Node} →
    (inlines container ts).result = .ok ns → ∀ n ∈ ns, n.IsRunning
  | [], ns, h => by
    simp only [inlines, Traced.result_pure_eq_ok] at h
    simp [← h]
  | t :: ts, ns, h => by
    simp only [inlines, Traced.result_bind_eq_ok] at h
    obtain ⟨answer, hanswer, h⟩ := h
    cases answer with
    | none =>
      simp only [Traced.result_bind_eq_ok] at h
      obtain ⟨-, -, h⟩ := h
      exact inlines_areRunning ts h
    | some node =>
      simp only [Traced.result_bind_eq_ok, Traced.result_pure_eq_ok] at h
      obtain ⟨rest, hrest, rfl⟩ := h
      exact List.forall_mem_cons.mpr
        ⟨inline_isRunning t hanswer node rfl, inlines_areRunning ts hrest⟩

end

/-- A node of an inline role gives running text at a block position too. -/
theorem piece_of_isInline {t : Tree} {p : Piece} (hinline : t.isInline = true)
    (h : (piece t).result = .ok p) : p.Grammatical := by
  obtain ⟨node, hanswer, hpiece⟩ := result_piece_of_isInline hinline
  simp only [hpiece, bind_eq_ok, pure_eq_ok] at h
  obtain ⟨n, rfl, rfl⟩ := h
  exact inline_isRunning t hanswer n rfl

/-- The cells of a row are cells. -/
theorem cells_grammatical : (ts : List Tree) → {ns : List Node} →
    (cells ts).result = .ok ns → ∀ n ∈ ns, n.isCell = true ∧ n.Grammatical
  | [], ns, h => by
    simp only [cells, Traced.result_pure_eq_ok] at h
    simp [← h]
  | .text handle value :: ts, ns, h => by
    simp only [cells, Traced.result_bind_eq_ok] at h
    obtain ⟨-, -, h⟩ := h
    exact cells_grammatical ts h
  | .element handle role properties children :: ts, ns, h => by
    unfold cells at h
    split at h
    · simp only [Traced.result_bind_eq_ok, Traced.result_pure_eq_ok] at h
      obtain ⟨content, hcontent, first, hfirst, rest, hrest, rfl⟩ := h
      exact List.forall_mem_cons.mpr
        ⟨cell_grammatical (inlines_areRunning children hcontent) hfirst, cells_grammatical ts hrest⟩
    · split at h
      · simp at h
      · simp only [Traced.result_bind_eq_ok] at h
        obtain ⟨-, -, h⟩ := h
        exact cells_grammatical ts h

private theorem grammatical_tableRow {cells : List Node}
    (h : ∀ n ∈ cells, n.isCell = true ∧ n.Grammatical) (m : Metadata) :
    (Node.tableRow cells m).isRow = true ∧ (Node.tableRow cells m).Grammatical := by
  refine ⟨rfl, ?_⟩
  rw [Node.Grammatical]
  exact allGrammatical_and_iff.mpr h

private theorem grammatical_table {rows : List Node}
    (h : ∀ n ∈ rows, n.isRow = true ∧ n.Grammatical) (m : Metadata) :
    (Node.table rows m).isBlock = true ∧ (Node.table rows m).Grammatical := by
  refine ⟨rfl, ?_⟩
  rw [Node.Grammatical]
  exact allGrammatical_and_iff.mpr h

/-- The rows of a table are rows. -/
theorem rows_grammatical (ts : List Tree) {ns : List Node} (h : (rows ts).result = .ok ns) :
    ∀ n ∈ ns, n.isRow = true ∧ n.Grammatical := by
  induction ts generalizing ns with
  | nil =>
    simp only [rows, Traced.result_pure_eq_ok] at h
    simp [← h]
  | cons t ts ih =>
    by_cases hrole : t.role? = some .tableRow
    · obtain ⟨handle, properties, children, rfl⟩ := Tree.eq_element_of_role? hrole
      simp only [rows, Traced.result_bind_eq_ok, Traced.result_pure_eq_ok] at h
      obtain ⟨first, hfirst, rest, hrest, rfl⟩ := h
      exact List.forall_mem_cons.mpr
        ⟨grammatical_tableRow (cells_grammatical children hfirst) [], ih hrest⟩
    · rw [result_rows_of_ne ts hrole] at h
      exact ih h

mutual

/-- The items of a list are items. -/
theorem items_grammatical : (ts : List Tree) → {ns : List Node} →
    (items ts).result = .ok ns → ∀ n ∈ ns, n.isItem = true ∧ n.Grammatical
  | [], ns, h => by
    simp only [items, Traced.result_pure_eq_ok] at h
    simp [← h]
  | .text handle value :: ts, ns, h => by
    rw [result_items_of_ne ts (by simp [Tree.role?])] at h
    exact items_grammatical ts h
  | .element handle role properties children :: ts, ns, h => by
    by_cases hrole : role = .listItem
    · subst hrole
      simp only [items, Traced.result_bind_eq_ok, Traced.result_pure_eq_ok] at h
      obtain ⟨status, hstatus, kids, hkids, rest, hrest, rfl⟩ := h
      exact List.forall_mem_cons.mpr
        ⟨item_grammatical (taskStatus_known hstatus) (pieces_grammatical children hkids),
          items_grammatical ts hrest⟩
    · rw [result_items_of_ne ts (by simpa [Tree.role?] using hrole)] at h
      exact items_grammatical ts h

/-- A node at a block position gives running text or a block, whatever its role. -/
theorem piece_grammatical : (t : Tree) → {p : Piece} → (piece t).result = .ok p → p.Grammatical
  | .text handle value, p, h => piece_of_isInline rfl h
  | .element handle role properties children, p, h => by
    cases role with
    | strong | emphasis | strikethrough | inlineCode | link => exact piece_of_isInline rfl h
    | heading =>
      simp only [piece, Traced.result_bind_eq_ok, Traced.result_pure_eq_ok] at h
      obtain ⟨level, -, content, hcontent, rfl⟩ := h
      refine ⟨rfl, ?_⟩
      rw [Node.Grammatical]
      exact Node.runningText_iff.mpr (inlines_areRunning children hcontent)
    | paragraph =>
      simp only [piece] at h
      split at h
      · simp only [Traced.result_bind_eq_ok, Traced.result_pure_eq_ok] at h
        obtain ⟨n, hn, rfl⟩ := h
        exact ⟨rfl, grammatical_imageParagraph [] hn⟩
      · simp only [Traced.result_bind_eq_ok, Traced.result_pure_eq_ok] at h
        obtain ⟨content, hcontent, rfl⟩ := h
        exact ⟨rfl, Node.grammatical_paragraph (inlines_areRunning children hcontent) []⟩
    | blockquote =>
      simp only [piece, Traced.result_bind_eq_ok, Traced.result_pure_eq_ok] at h
      obtain ⟨kids, hkids, rfl⟩ := h
      refine ⟨rfl, ?_⟩
      rw [Node.Grammatical]
      exact blocks_group (pieces_grammatical children hkids)
    | code =>
      simp only [piece, Traced.result_bind_eq_ok, Traced.result_pure_eq_ok] at h
      obtain ⟨language, -, content, -, rfl⟩ := h
      simp [Piece.Grammatical, Node.isBlock, Node.Grammatical]
    | list =>
      simp only [piece, Traced.result_bind_eq_ok, Traced.result_pure_eq_ok] at h
      obtain ⟨ordered, -, first, hfirst, kids, hkids, rfl⟩ := h
      refine ⟨rfl, ?_⟩
      rw [Node.Grammatical]
      exact ⟨fun _ => start_nonneg hfirst,
        allGrammatical_and_iff.mpr (items_grammatical children hkids)⟩
    | listItem =>
      simp only [piece, Traced.result_bind_eq_ok, Traced.result_pure_eq_ok] at h
      obtain ⟨-, -, status, hstatus, kids, hkids, rfl⟩ := h
      have hitem := item_grammatical (taskStatus_known hstatus) (pieces_grammatical children hkids)
      refine ⟨rfl, ?_⟩
      rw [Node.Grammatical]
      exact ⟨by simp, allGrammatical_and_iff.mpr (by simpa using hitem)⟩
    | table =>
      simp only [piece, Traced.result_bind_eq_ok, Traced.result_pure_eq_ok] at h
      obtain ⟨kids, hkids, rfl⟩ := h
      exact grammatical_table (rows_grammatical children hkids) []
    | tableRow =>
      simp only [piece, Traced.result_bind_eq_ok, Traced.result_pure_eq_ok] at h
      obtain ⟨-, -, kids, hkids, rfl⟩ := h
      have hrow := grammatical_tableRow (cells_grammatical children hkids) []
      exact grammatical_table (by simpa using hrow) synthesized
    | tableCell | tableHeader =>
      simp only [piece, Traced.result_bind_eq_ok, Traced.result_pure_eq_ok] at h
      obtain ⟨-, -, content, hcontent, first, hfirst, rfl⟩ := h
      have hcell := cell_grammatical (inlines_areRunning children hcontent) hfirst
      have hrow := @grammatical_tableRow [first] (by simpa using hcell) []
      exact grammatical_table (by simpa using hrow) synthesized
    | thematicBreak =>
      simp only [piece, Traced.result_pure_eq_ok] at h
      subst h
      simp [Piece.Grammatical, Node.isBlock, Node.Grammatical]
    | image =>
      simp only [piece, Traced.result_bind_eq_ok, Traced.result_pure_eq_ok] at h
      obtain ⟨n, hn, rfl⟩ := h
      exact ⟨rfl, grammatical_imageParagraph synthesized hn⟩
    | root | other => simp [piece] at h

theorem pieces_grammatical : (ts : List Tree) → {ps : List Piece} →
    (pieces ts).result = .ok ps → ∀ p ∈ ps, p.Grammatical
  | [], ps, h => by
    simp only [pieces, Traced.result_pure_eq_ok] at h
    simp [← h]
  | t :: ts, ps, h => by
    simp only [pieces, Traced.result_bind_eq_ok, Traced.result_pure_eq_ok] at h
    obtain ⟨first, hfirst, rest, hrest, rfl⟩ := h
    exact List.forall_mem_cons.mpr ⟨piece_grammatical t hfirst, pieces_grammatical ts hrest⟩

end

end Lowering

/-! ## Documents -/

/-- **The document of a tree is grammatical**, whatever the tree. -/
theorem Tree.lower_grammatical (t : Tree) {doc : Node} (h : t.lower.result = .ok doc) :
    doc.Grammatical := by
  simp only [lower, Lowering.blocks, Traced.result_bind_eq_ok, Traced.result_pure_eq_ok] at h
  obtain ⟨children, ⟨kids, hkids, rfl⟩, rfl⟩ := h
  rw [Node.Grammatical]
  exact blocks_group (Lowering.pieces_grammatical t.splice hkids)

theorem Store.lower_grammatical (s : Store) (root : Value) {doc : Node}
    (h : (s.lower root).result = .ok doc) : doc.Grammatical := by
  simp only [lower, Traced.result_bind_eq_ok] at h
  obtain ⟨tree, -, h⟩ := h
  cases tree with
  | none =>
    simp only [lowerTree?, Traced.result_pure_eq_ok] at h
    subst h
    simp [Node.Grammatical, AreBlocks, AllGrammatical]
  | some t => exact t.lower_grammatical h

/-- **Whatever document lowering gives after a run, it has no problems.** The level of a heading is
one of the six by its type. -/
theorem lowered_document_has_no_problems (operations : List Operation) (root : Value) {doc : Node}
    (h : ((Container.run operations).store.lower root).result = .ok doc) :
    doc.problems = [] ∧ doc.Grammatical := by
  have hdoc : doc.Grammatical := Store.lower_grammatical _ root h
  exact ⟨(Node.problems_eq_nil_iff doc).mpr hdoc, hdoc⟩

/-- A heading of infinite depth with an image in it, an item and a text outside a list, and below a
code element one of a role beyond the vocabulary. -/
def misplaced : List Operation :=
  [.createElement (.str "root") .null,
    .createElement (.str "heading") (.map [("depth", .float (.infinite true))]),
    .createElement (.str "image") .null,
    .createElement (.str "listItem") (.map [("checked", .bool true)]),
    .createText (.str "a"),
    .createElement (.str "code") .null,
    .createElement (.str "paragraph") .null,
    .setRole (.int 6) (.str "unheard"),
    .appendChild (.int 0) (.int 1), .appendChild (.int 1) (.int 2),
    .appendChild (.int 0) (.int 3), .appendChild (.int 0) (.int 4),
    .appendChild (.int 0) (.int 5), .appendChild (.int 5) (.int 6),
    .append (.int 0)]

/-- The document of it: the heading is of the first level and empty, the item stands in a list of
its own, and the text in a paragraph. -/
def misplacedDocument : Node :=
  .document [.heading .first [],
    .list false [.listItem [.paragraph [] synthesized] (some "checked")] 1 synthesized,
    .paragraph [.text "a"] synthesized, .codeBlock "" none]

theorem misplaced_has_no_problems :
    ((Container.run misplaced).store.lower (.int 0)).result = .ok misplacedDocument ∧
      misplacedDocument.problems = [] ∧ misplacedDocument.Grammatical := by
  have h : ((Container.run misplaced).store.lower (.int 0)).result = .ok misplacedDocument := by
    cbv
  exact ⟨h, lowered_document_has_no_problems misplaced (.int 0) h⟩

end DocumentTree
