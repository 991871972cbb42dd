import DocumentTree.Proofs.Document.Written

/-!
# Written documents are read back

On a grammatical document without metadata, every pass of lowering is the identity: the description
of a node stands for that node and nothing else at the position where the grammar has it.
-/

namespace DocumentTree.Node

/-! ## Inline positions -/

mutual

theorem inlines_describe : (n : Node) → n.IsRunning → n.Normal → n.describe.inlines = .ok [n]
  | text content m, _, hnormal => by
    rw [Normal] at hnormal
    subst hnormal
    rfl
  | code content m, _, hnormal => by
    rw [Normal] at hnormal
    subst hnormal
    rfl
  | emphasis content m, h, hnormal | strong content m, h, hnormal
  | strikethrough content m, h, hnormal => by
    rw [Normal] at hnormal
    obtain ⟨rfl, hcontent⟩ := hnormal
    have hrunning := runningText_iff.mp h.2.2
    rw [describe, Element.inlines, Role.ofValue_toValue rfl]
    simp [inlinesAll_describeAll content hrunning hcontent]
  | link url content title m, h, hnormal => by
    rw [Normal] at hnormal
    obtain ⟨rfl, hcontent⟩ := hnormal
    have hrunning := runningText_iff.mp h.2.2
    rw [describe, Element.inlines, Role.ofValue_toValue rfl]
    simp [inlinesAll_describeAll content hrunning hcontent, Lowering.stringProperty_url,
      Lowering.title_link]
  | image .., h, _ => by cases h.2.1
  | document .., h, _ | heading .., h, _ | paragraph .., h, _ | codeBlock .., h, _
  | blockQuote .., h, _ | list .., h, _ | listItem .., h, _ | table .., h, _ | tableRow .., h, _
  | tableCell .., h, _ | thematicBreak .., h, _ => by cases h.1

theorem inlinesAll_describeAll : (ns : List Node) → (∀ n ∈ ns, n.IsRunning) → AllNormal ns →
    Element.inlinesAll (describeAll ns) = .ok ns
  | [], _, _ => rfl
  | n :: ns, h, hnormal => by
    rw [AllNormal] at hnormal
    have hrest : ∀ m ∈ ns, m.IsRunning := fun m hm => h m (List.mem_cons_of_mem n hm)
    rw [describeAll, Element.inlinesAll, inlines_describe n (h n List.mem_cons_self) hnormal.1,
      inlinesAll_describeAll ns hrest hnormal.2]
    rfl

end

/-! ## Tables -/

theorem cells_describe : (n : Node) → n.isCell = true ∧ n.Grammatical → n.Normal →
    n.describe.cells = .ok [n]
  | tableCell content alignment isHeader m, h, hnormal => by
    rw [Normal] at hnormal
    obtain ⟨rfl, hcontent⟩ := hnormal
    obtain ⟨halignment, hrunning⟩ := h.2
    rw [runningText_iff] at hrunning
    cases isHeader with
    | false =>
      rw [describe, Element.cells, Role.ofValue_toValue rfl]
      simp [inlinesAll_describeAll content hrunning hcontent, Lowering.cell_written halignment]
    | true =>
      rw [describe, Element.cells, Role.ofValue_toValue rfl]
      simp [inlinesAll_describeAll content hrunning hcontent, Lowering.cell_written halignment]

theorem cellsAll_describeAll : (ns : List Node) → (∀ n ∈ ns, n.isCell = true ∧ n.Grammatical) →
    AllNormal ns → Element.cellsAll (describeAll ns) = .ok ns
  | [], _, _ => rfl
  | n :: ns, h, hnormal => by
    rw [AllNormal] at hnormal
    rw [describeAll, Element.cellsAll, cells_describe n (h n List.mem_cons_self) hnormal.1,
      cellsAll_describeAll ns (fun m hm => h m (List.mem_cons_of_mem n hm)) hnormal.2]
    rfl

theorem rows_describe : (n : Node) → n.isRow = true ∧ n.Grammatical → n.Normal →
    n.describe.rows = .ok [n]
  | tableRow cells m, h, hnormal => by
    rw [Normal] at hnormal
    obtain ⟨rfl, hcells⟩ := hnormal
    have hall := allGrammatical_and_iff.mp h.2
    rw [describe, Element.rows, Role.ofValue_toValue rfl]
    simp [cellsAll_describeAll cells hall hcells]

theorem rowsAll_describeAll : (ns : List Node) → (∀ n ∈ ns, n.isRow = true ∧ n.Grammatical) →
    AllNormal ns → Element.rowsAll (describeAll ns) = .ok ns
  | [], _, _ => rfl
  | n :: ns, h, hnormal => by
    rw [AllNormal] at hnormal
    rw [describeAll, Element.rowsAll, rows_describe n (h n List.mem_cons_self) hnormal.1,
      rowsAll_describeAll ns (fun m hm => h m (List.mem_cons_of_mem n hm)) hnormal.2]
    rfl

/-! ## Paragraphs -/

/-- Running text shows at its top as nodes that are no images. -/
theorem heads_describe (n : Node) (h : n.IsRunning) :
    ∃ head, n.describe.heads = [head] ∧ ∀ properties, head ≠ some (.image, properties) := by
  cases n with
  | text content m => exact ⟨none, rfl, by simp⟩
  | emphasis content m => exact ⟨some (.emphasis, []), rfl, by simp⟩
  | strong content m => exact ⟨some (.strong, []), rfl, by simp⟩
  | strikethrough content m => exact ⟨some (.strikethrough, []), rfl, by simp⟩
  | code content m => exact ⟨some (.inlineCode, _), rfl, by simp⟩
  | link url content title m => exact ⟨some (.link, _), rfl, by simp⟩
  | image => cases h.2.1
  | _ => cases h.1

/-- Running text is no sole image. -/
theorem soleImage?_describeAll {ns : List Node} (h : ∀ n ∈ ns, n.IsRunning) :
    Element.soleImage? (describeAll ns) = none := by
  rcases ns with _ | ⟨n, _ | ⟨k, ns⟩⟩
  · rfl
  · obtain ⟨head, hhead, hne⟩ := heads_describe n (h n (by simp))
    simp only [Element.soleImage?, describeAll, Element.headsAll, hhead, List.append_nil]
    split
    · rename_i properties heq
      exact absurd (List.cons.inj heq).1 (hne properties)
    · rfl
  · obtain ⟨head, hhead, -⟩ := heads_describe n (h n (by simp))
    obtain ⟨next, hnext, -⟩ := heads_describe k (h k (by simp))
    simp only [Element.soleImage?, describeAll, Element.headsAll, hhead, hnext]
    split
    · rename_i heq
      cases (List.cons.inj heq).2
    · rfl

/-- An image that stands alone is one. -/
theorem soleImage?_image (url altText : String) (title : Option String) (m : Metadata) :
    Element.soleImage? (describeAll [.image url altText title m]) =
      some (imageProperties url altText title) := rfl

/-- The content of a paragraph is running text or a sole image. -/
theorem paragraphContent_cases {ns : List Node} (h : ParagraphContent ns)
    (hns : AllGrammatical ns) :
    (∀ n ∈ ns, n.IsRunning) ∨ ∃ url altText title m, ns = [.image url altText title m] := by
  by_cases himages : ∀ n ∈ ns, n.isImage = false
  · left
    intro n hn
    exact ⟨h.1 n hn, himages n hn, (allGrammatical_iff ns).mp hns n hn⟩
  · right
    have hlength : ¬ 1 < ns.length := fun hlt => himages (h.2 hlt)
    rcases ns with _ | ⟨n, _ | ⟨k, ns⟩⟩
    · simp at himages
    · cases n with
      | image url altText title m => exact ⟨url, altText, title, m, rfl⟩
      | _ => simp [isImage] at himages
    · simp at hlength

/-! ## Block positions -/

/-- Blocks are grouped as they are. -/
theorem group_blocks (ns : List Node) : group (ns.map .block) = ns := by
  induction ns with
  | nil => rfl
  | cons n ns ih =>
    rw [group] at ih ⊢
    simp [groupFrom, runParagraph, ih]

/-- An item of blocks is not repaired. -/
theorem item_blocks {children : List Node} (h : children ≠ []) (status : Option String) :
    Lowering.item status (children.map .block) = .listItem children status := by
  simp [Lowering.item, group_blocks, h]

mutual

theorem items_describe : (n : Node) → n.isItem = true ∧ n.Grammatical → n.Normal →
    n.describe.items = .ok [n]
  | listItem children status m, h, hnormal => by
    rw [Normal] at hnormal
    obtain ⟨rfl, hne, hchildren⟩ := hnormal
    obtain ⟨hstatus, hblocks⟩ := h.2
    have hall := allGrammatical_and_iff.mp hblocks
    rw [describe, Element.items, Role.ofValue_toValue rfl]
    simp [Lowering.status_written hstatus, piecesAll_describeAll children hall hchildren,
      item_blocks hne]

theorem itemsAll_describeAll : (ns : List Node) → (∀ n ∈ ns, n.isItem = true ∧ n.Grammatical) →
    AllNormal ns → Element.itemsAll (describeAll ns) = .ok ns
  | [], _, _ => rfl
  | n :: ns, h, hnormal => by
    rw [AllNormal] at hnormal
    rw [describeAll, Element.itemsAll, items_describe n (h n List.mem_cons_self) hnormal.1,
      itemsAll_describeAll ns (fun m hm => h m (List.mem_cons_of_mem n hm)) hnormal.2]
    rfl

theorem pieces_describe : (n : Node) → n.isBlock = true ∧ n.Grammatical → n.Normal →
    n.describe.pieces = .ok [.block n]
  | heading level content m, h, hnormal => by
    rw [Normal] at hnormal
    obtain ⟨rfl, hcontent⟩ := hnormal
    have hrunning := runningText_iff.mp h.2
    rw [describe, Element.pieces, Role.ofValue_toValue rfl]
    simp [Lowering.level_written, Except.mapError, inlinesAll_describeAll content hrunning hcontent]
  | paragraph content m, h, hnormal => by
    rw [Normal] at hnormal
    obtain ⟨rfl, hcontent⟩ := hnormal
    rw [describe, Element.pieces, Role.ofValue_toValue rfl]
    rcases paragraphContent_cases h.2.1 h.2.2 with hrunning | ⟨url, altText, title, m, rfl⟩
    · simp [soleImage?_describeAll hrunning, inlinesAll_describeAll content hrunning hcontent]
    · obtain rfl : m = [] := hcontent.1
      simp [soleImage?_image, Lowering.image_written]
  | blockQuote children m, h, hnormal => by
    rw [Normal] at hnormal
    obtain ⟨rfl, hchildren⟩ := hnormal
    have hall := allGrammatical_and_iff.mp h.2
    rw [describe, Element.pieces, Role.ofValue_toValue rfl]
    simp [piecesAll_describeAll children hall hchildren, group_blocks]
  | codeBlock content language m, h, hnormal => by
    rw [Normal] at hnormal
    subst hnormal
    rw [describe, Element.pieces, Role.ofValue_toValue rfl]
    simp [Lowering.language_written, Lowering.literal_written]
  | list ordered items start m, h, hnormal => by
    rw [Normal] at hnormal
    obtain ⟨rfl, ⟨hlow, hhigh⟩, hitems⟩ := hnormal
    have hall := allGrammatical_and_iff.mp h.2.2
    rw [describe, Element.pieces, Role.ofValue_toValue rfl]
    simp [Lowering.ordered_written, Except.mapError, Lowering.start_written hlow hhigh,
      itemsAll_describeAll items hall hitems]
  | table rows m, h, hnormal => by
    rw [Normal] at hnormal
    obtain ⟨rfl, hrows⟩ := hnormal
    have hall := allGrammatical_and_iff.mp h.2
    rw [describe, Element.pieces, Role.ofValue_toValue rfl]
    simp [rowsAll_describeAll rows hall hrows]
  | thematicBreak m, h, hnormal => by
    rw [Normal] at hnormal
    subst hnormal
    rfl
  | document .., h, _ | listItem .., h, _ | tableRow .., h, _ | tableCell .., h, _ | text .., h, _
  | emphasis .., h, _ | strong .., h, _ | strikethrough .., h, _ | code .., h, _ | link .., h, _
  | image .., h, _ => by cases h.1

theorem piecesAll_describeAll : (ns : List Node) → (∀ n ∈ ns, n.isBlock = true ∧ n.Grammatical) →
    AllNormal ns → Element.piecesAll (describeAll ns) = .ok (ns.map .block)
  | [], _, _ => rfl
  | n :: ns, h, hnormal => by
    rw [AllNormal] at hnormal
    rw [describeAll, Element.piecesAll, pieces_describe n (h n List.mem_cons_self) hnormal.1,
      piecesAll_describeAll ns (fun m hm => h m (List.mem_cons_of_mem n hm)) hnormal.2]
    rfl

end

/-! ## Documents -/

/-- **The description of a grammatical document without metadata stands for the document.** -/
theorem document_describe {children : List Node} {m : Metadata}
    (h : (Node.document children m).Grammatical) (hnormal : (Node.document children m).Normal) :
    (Node.document children m).describe.document = .ok (.document children m) := by
  rw [Normal] at hnormal
  obtain ⟨rfl, hchildren⟩ := hnormal
  have hall := allGrammatical_and_iff.mp h
  rw [Element.document, describe, Element.pieces, Role.ofValue_toValue rfl]
  simp [piecesAll_describeAll children hall hchildren, group_blocks]

end DocumentTree.Node

namespace DocumentTree

open Node (AllNormal)

/-- **A grammatical document is read back from the elements of its nodes.** Every tree that writes
the document is lowered to it, and after any run such a tree can be built. So lowering reaches each
of these documents, repairs nothing in them, and keeps an empty field apart from a missing one. -/
theorem written_document_is_read_back (children : List Node) (m : Metadata)
    (h : (Node.document children m).problems = []) (hnormal : (Node.document children m).Normal) :
    let doc := Node.document children m
    (∀ tree : Tree, tree.Fits doc.describe → tree.lower.result = .ok doc) ∧
    ∀ operations : List Operation, let c := Container.run operations
      ∃ n t tree, doc.describe.build c = ⟨{ c with store := t }, [], .ok n⟩ ∧
        t.tree? (.int n) = .ok (some tree) ∧ tree.Fits doc.describe ∧
        (t.lower (.int n)).result = .ok doc := by
  intro doc
  have hgrammatical : doc.Grammatical := (Node.problems_eq_nil_iff doc).mp h
  have hdoc : doc.describe.document = .ok doc := Node.document_describe hgrammatical hnormal
  refine ⟨fun tree hfits => hfits.result_lower.trans hdoc, ?_⟩
  intro operations c
  have H : c.store.Forest := (Container.consistent_run operations).forest
  obtain ⟨n, t, hbuild, X, -, hstands⟩ := doc.describe.build_spec doc.isKnown_describe c H
  obtain ⟨tree, hsubtree, htree, -⟩ := X.forest.exists_tree (.ofId n) hstands.spells.lt_size
  refine ⟨n, t, tree, hbuild, htree, Store.Spells.fits _ hstands.spells hsubtree, ?_⟩
  exact (X.forest.result_lower (h := .ofId n) hstands.spells).trans hdoc

/-- A document with all kinds of nodes, some fields of which are empty and some missing. -/
def assorted : List Node :=
  [.heading .first [.text "a", .code ""],
    .paragraph [.strong [.emphasis [.strikethrough [.text ""]]], .link "b" [.text "c"] (some ""),
      .link "" [] none],
    .paragraph [.image "d" "" none],
    .codeBlock "e" none, .codeBlock "" (some ""),
    .blockQuote [.thematicBreak, .paragraph []],
    .list true [.listItem [.paragraph [.text "f"]] (some "unchecked"),
      .listItem [.list false [] 0] none] 7,
    .table [.tableRow [.tableCell [.text "g"] (some "left") true, .tableCell [] none false],
      .tableRow []]]

theorem assorted_is_read_back :
    (Node.document assorted).problems = [] ∧ (Node.document assorted).Normal ∧
      ∃ n t, (Node.document assorted).describe.build {} = ⟨{ store := t }, [], .ok n⟩ ∧
        (t.lower (.int n)).result = .ok (.document assorted) := by
  have h : (Node.document assorted).problems = [] := by cbv
  have hnormal : (Node.document assorted).Normal := by
    simp only [assorted, Node.Normal, AllNormal, ne_eq, reduceCtorEq, not_false_eq_true, and_true,
      true_and]
    decide +kernel
  obtain ⟨n, t, tree, hbuild, -, -, hlower⟩ :=
    (written_document_is_read_back assorted [] h hnormal).2 []
  exact ⟨h, hnormal, n, t, hbuild, hlower⟩

end DocumentTree
