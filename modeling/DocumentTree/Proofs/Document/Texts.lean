import DocumentTree.Proofs.Document.LoweredGrammar

/-!
# Texts are conserved

The texts of a lowered document are texts of the tree, in the same order and none of them twice.
Texts are lost in two ways only: with a child that its parent cannot hold, and below an element that
is written from its properties. Where a tree has neither, its document has all its texts.

## Main definitions

* `Node.texts`, `Tree.texts` — the texts in document order, and in depth-first order.
* `Tree.Lossless` — nothing in a tree loses texts when it is lowered.
* `Conserved` — what a pass keeps of the texts it is given.
-/

namespace DocumentTree

/-! ## Texts in order -/

namespace Node

mutual

/-- The contents of the texts in a document, in order. -/
def texts : Node → List String
  | text content _ => [content]
  | document children _ | heading _ children _ | paragraph children _ | blockQuote children _
  | list _ children _ _ | listItem children _ _ | table children _ | tableRow children _
  | tableCell children _ _ _ | emphasis children _ | strong children _ | strikethrough children _
  | link _ children _ _ => textsAll children
  | codeBlock .. | thematicBreak _ | code .. | image .. => []

/-- The contents of the texts in documents, in order. -/
def textsAll : List Node → List String
  | [] => []
  | n :: ns => texts n ++ textsAll ns

end

theorem textsAll_eq_flatMap (ns : List Node) : textsAll ns = ns.flatMap texts := by
  induction ns with
  | nil => rfl
  | cons n ns ih => rw [textsAll, ih, List.flatMap_cons]

theorem textsAll_append (ms ns : List Node) :
    textsAll (ms ++ ns) = textsAll ms ++ textsAll ns := by
  simp [textsAll_eq_flatMap]

@[simp] theorem textsAll_singleton (n : Node) : textsAll [n] = n.texts := by
  simp [textsAll]

end Node

namespace Tree

mutual

/-- The values of the texts in a tree, depth first. -/
def texts : Tree → List String
  | text _ value => [value]
  | element _ _ _ children => textsAll children

/-- The values of the texts in trees, depth first. -/
def textsAll : List Tree → List String
  | [] => []
  | t :: ts => texts t ++ textsAll ts

end

theorem textsAll_append (ts us : List Tree) :
    textsAll (ts ++ us) = textsAll ts ++ textsAll us := by
  induction ts with
  | nil => rfl
  | cons t ts ih => rw [List.cons_append, textsAll, textsAll, ih, List.append_assoc]

mutual

/-- Taking root elements out keeps the texts. -/
theorem textsAll_splice : (t : Tree) → textsAll t.splice = t.texts
  | text _ value => by simp [splice, textsAll]
  | element _ role properties children => by
    rw [splice]
    split
    · rw [texts, textsAll_spliceAll children]
    · simp [textsAll, texts, textsAll_spliceAll children]

theorem textsAll_spliceAll : (ts : List Tree) → textsAll (spliceAll ts) = textsAll ts
  | [] => rfl
  | t :: ts => by
    rw [spliceAll, textsAll_append, textsAll_splice t, textsAll_spliceAll ts, textsAll]

end

/-! ## Where texts are lost -/

/-- An element of a role keeps the texts of its children: a list has items only, a table rows, a row
cells, and an inline container inline nodes, unless it is a paragraph with a sole image. Elements
that are written from their properties have no texts below them. -/
def KeepsChildren (role : Role) (children : List Tree) : Prop :=
  match role with
  | .list => ∀ c ∈ children, c.role? = some .listItem
  | .table => ∀ c ∈ children, c.role? = some .tableRow
  | .tableRow => ∀ c ∈ children, c.role? = some .tableCell ∨ c.role? = some .tableHeader
  | .paragraph => (∀ c ∈ children, c.isInline = true) ∨ ∃ c, children = [c] ∧ c.role? = some .image
  | .heading | .tableCell | .tableHeader | .strong | .emphasis | .strikethrough | .link =>
    ∀ c ∈ children, c.isInline = true
  | .code | .inlineCode | .image | .thematicBreak => textsAll children = []
  | .root | .blockquote | .listItem | .other _ => True

mutual

/-- Every element of a tree keeps the texts of its children. -/
def Lossless : Tree → Prop
  | text .. => True
  | element _ role _ children => KeepsChildren role children ∧ AllLossless children

/-- Every element of the trees keeps the texts of its children. -/
def AllLossless : List Tree → Prop
  | [] => True
  | t :: ts => Lossless t ∧ AllLossless ts

end

end Tree

/-! ## What a pass keeps -/

/-- The texts that are kept stand in the same order among all of them, and they are all of them
where nothing is lost. -/
structure Conserved (lossless : Prop) (kept all : List String) : Prop where
  /-- Nothing is invented, doubled or moved. -/
  sublist : kept.Sublist all
  /-- Nothing is lost. -/
  eq : lossless → kept = all

namespace Conserved

variable {p q : Prop} {kept kept' all all' : List String}

theorem refl (p : Prop) (all : List String) : Conserved p all all :=
  ⟨List.Sublist.refl all, fun _ => rfl⟩

/-- Texts may be left out where something is lost, or where there are none. -/
theorem dropped (h : p → all = []) : Conserved p [] all :=
  ⟨List.nil_sublist all, fun hp => (h hp).symm⟩

theorem append (h : Conserved p kept all) (h' : Conserved q kept' all') :
    Conserved (p ∧ q) (kept ++ kept') (all ++ all') :=
  ⟨h.sublist.append h'.sublist, fun hpq => by rw [h.eq hpq.1, h'.eq hpq.2]⟩

/-- Texts that are not kept may stand in front where something is lost. -/
theorem skip (h : Conserved p kept all) (hq : ¬ q) (lost : List String) :
    Conserved q kept (lost ++ all) :=
  ⟨h.sublist.trans (List.sublist_append_right lost all), fun hkeep => absurd hkeep hq⟩

theorem mono (h : Conserved p kept all) (hqp : q → p) : Conserved q kept all :=
  ⟨h.sublist, fun hq => h.eq (hqp hq)⟩

end Conserved

/-! ## Grouping -/

/-- The texts of a lowered sibling. -/
def Piece.texts : Piece → List String
  | .inline node | .block node => node.texts

theorem Piece.texts_eq : Piece.texts = fun p => p.node.texts := by
  funext p
  cases p <;> rfl

theorem Node.texts_synthesized (run : List Node) :
    (paragraph run synthesized).texts = run.flatMap texts := by
  rw [texts, textsAll_eq_flatMap]

/-- Grouping siblings into paragraphs keeps all texts in order. -/
theorem textsAll_group (pieces : List Piece) :
    Node.textsAll (group pieces) = pieces.flatMap Piece.texts := by
  rw [Node.textsAll_eq_flatMap, flatMap_group Node.texts_synthesized, Piece.texts_eq]

namespace Lowering

open DocumentTree.Tree (Lossless AllLossless KeepsChildren)

theorem texts_item (status : Option String) (pieces : List Piece) :
    (item status pieces).texts = pieces.flatMap Piece.texts := by
  rw [Piece.texts_eq]
  refine flatMap_item Node.texts_synthesized (fun children status => ?_) status pieces
  rw [Node.texts, Node.textsAll_eq_flatMap]

theorem texts_cell {role : Role} {properties : Entries} {content : List Node} {n : Node}
    (h : (cell role properties content).result = .ok n) : n.texts = Node.textsAll content := by
  simp only [cell, Traced.result_bind_eq_ok, Traced.result_pure_eq_ok] at h
  obtain ⟨alignment, -, rfl⟩ := h
  rw [Node.texts]

theorem texts_image {properties : Entries} {n : Node} (h : (image properties).result = .ok n) :
    n.texts = [] := by
  obtain ⟨url, alt, title, rfl⟩ := image_isImage h
  rfl

theorem soleImage?_eq_some_iff {ts : List Tree} {properties : Entries} :
    soleImage? ts = some properties ↔
      ∃ handle children, ts = [.element handle .image properties children] := by
  unfold soleImage?
  split
  · simp
  · rename_i hne
    simp only [reduceCtorEq, false_iff]
    rintro ⟨handle, children, rfl⟩
    exact hne _ _ _ rfl

/-! ## The passes -/

mutual

theorem conserved_inline : (t : Tree) → {answer : Option Node} →
    (inline t).result = .ok answer →
    Conserved (t.Lossless ∧ t.isInline = true) (Node.textsAll answer.toList) t.texts
  | .text handle value, answer, h => by
    simp only [inline, Traced.result_pure_eq_ok] at h
    subst h
    exact .refl _ [value]
  | .element handle role properties children, answer, h => by
    cases role with
    | strong | emphasis | strikethrough =>
      simp only [inline, Traced.result_bind_eq_ok, Traced.result_pure_eq_ok] at h
      obtain ⟨content, hcontent, rfl⟩ := h
      rw [Option.toList_some, Node.textsAll_singleton, Node.texts, Tree.texts]
      exact (conserved_inlines children hcontent).mono fun hkeep => ⟨hkeep.1.2, hkeep.1.1⟩
    | link =>
      simp only [inline, Traced.result_bind_eq_ok, Traced.result_pure_eq_ok] at h
      obtain ⟨url, -, content, hcontent, title, -, rfl⟩ := h
      rw [Option.toList_some, Node.textsAll_singleton, Node.texts, Tree.texts]
      exact (conserved_inlines children hcontent).mono fun hkeep => ⟨hkeep.1.2, hkeep.1.1⟩
    | inlineCode =>
      simp only [inline, Traced.result_bind_eq_ok, Traced.result_pure_eq_ok] at h
      obtain ⟨content, -, rfl⟩ := h
      exact .dropped fun hkeep => hkeep.1.1
    | other given => simp [inline] at h
    | _ =>
      -- Block roles give nothing here; they are the children that an inline container drops.
      simp only [inline, Traced.result_pure_eq_ok] at h
      subst h
      exact .dropped fun hkeep => absurd hkeep.2 Bool.false_ne_true

/-- An inline container keeps the texts of its inline children. -/
theorem conserved_inlines {container : String} : (ts : List Tree) → {ns : List Node} →
    (inlines container ts).result = .ok ns →
    Conserved (AllLossless ts ∧ ∀ t ∈ ts, t.isInline = true) (Node.textsAll ns) (Tree.textsAll ts)
  | [], ns, h => by
    simp only [inlines, Traced.result_pure_eq_ok] at h
    subst h
    exact .refl _ []
  | t :: ts, ns, h => by
    simp only [result_inlines_cons, bind_eq_ok, pure_eq_ok] at h
    obtain ⟨answer, hanswer, rest, hrest, rfl⟩ := h
    rw [Node.textsAll_append, Tree.textsAll]
    refine ((conserved_inline t hanswer).append (conserved_inlines ts hrest)).mono ?_
    rintro ⟨⟨ht, hts⟩, hinline⟩
    exact ⟨⟨ht, hinline t (by simp)⟩, hts, fun u hu => hinline u (by simp [hu])⟩

end

/-- A node of an inline role keeps its texts at a block position too. -/
theorem conserved_piece_of_isInline {t : Tree} {p : Piece} (hinline : t.isInline = true)
    (h : (piece t).result = .ok p) : Conserved t.Lossless p.texts t.texts := by
  obtain ⟨node, hanswer, hpiece⟩ := result_piece_of_isInline hinline
  simp only [hpiece, bind_eq_ok, pure_eq_ok] at h
  obtain ⟨n, rfl, rfl⟩ := h
  have hkept := conserved_inline t hanswer
  rw [Option.toList_some, Node.textsAll_singleton] at hkept
  exact hkept.mono fun hlossless => ⟨hlossless, hinline⟩

/-- A row keeps the texts of its cells. -/
theorem conserved_cells : (ts : List Tree) → {ns : List Node} → (cells ts).result = .ok ns →
    Conserved (AllLossless ts ∧
      ∀ t ∈ ts, t.role? = some .tableCell ∨ t.role? = some .tableHeader)
      (Node.textsAll ns) (Tree.textsAll ts)
  | [], ns, h => by
    simp only [cells, Traced.result_pure_eq_ok] at h
    subst h
    exact .refl _ []
  | .text handle value :: ts, ns, h => by
    simp only [cells, Traced.result_bind_eq_ok] at h
    obtain ⟨-, -, h⟩ := h
    exact (conserved_cells ts h).skip (by simp [Tree.role?]) [value]
  | .element handle role properties children :: ts, ns, h => by
    unfold cells at h
    split at h
    · rename_i hrole
      simp only [Traced.result_bind_eq_ok, Traced.result_pure_eq_ok] at h
      obtain ⟨content, hcontent, first, hfirst, rest, hrest, rfl⟩ := h
      rw [Node.textsAll, texts_cell hfirst, Tree.textsAll, Tree.texts]
      refine ((conserved_inlines children hcontent).append (conserved_cells ts hrest)).mono ?_
      rintro ⟨⟨⟨hchildren, hall⟩, hts⟩, hcells⟩
      refine ⟨⟨hall, ?_⟩, hts, fun u hu => hcells u (by simp [hu])⟩
      rcases hrole with rfl | rfl <;> exact hchildren
    · rename_i hrole
      split at h
      · simp at h
      · simp only [Traced.result_bind_eq_ok] at h
        obtain ⟨-, -, h⟩ := h
        refine (conserved_cells ts h).skip (fun hkeep => hrole ?_) _
        simpa [Tree.role?] using hkeep.2 _ List.mem_cons_self

/-- A table keeps the texts of its rows. -/
theorem conserved_rows (ts : List Tree) {ns : List Node} (h : (rows ts).result = .ok ns) :
    Conserved (AllLossless ts ∧ ∀ t ∈ ts, t.role? = some .tableRow)
      (Node.textsAll ns) (Tree.textsAll ts) := by
  induction ts generalizing ns with
  | nil =>
    simp only [rows, Traced.result_pure_eq_ok] at h
    subst h
    exact .refl _ []
  | cons t ts ih =>
    by_cases hrole : t.role? = some .tableRow
    · obtain ⟨handle, properties, children, rfl⟩ := Tree.eq_element_of_role? hrole
      simp only [rows, Traced.result_bind_eq_ok, Traced.result_pure_eq_ok] at h
      obtain ⟨first, hfirst, rest, hrest, rfl⟩ := h
      rw [Node.textsAll, Node.texts, Tree.textsAll, Tree.texts]
      refine ((conserved_cells children hfirst).append (ih hrest)).mono ?_
      rintro ⟨⟨⟨hchildren, hall⟩, hts⟩, hrows⟩
      exact ⟨⟨hall, hchildren⟩, hts, fun u hu => hrows u (by simp [hu])⟩
    · rw [result_rows_of_ne ts hrole] at h
      exact (ih h).skip (fun hkeep => hrole (hkeep.2 t List.mem_cons_self)) t.texts

mutual

/-- A list keeps the texts of its items. -/
theorem conserved_items : (ts : List Tree) → {ns : List Node} → (items ts).result = .ok ns →
    Conserved (AllLossless ts ∧ ∀ t ∈ ts, t.role? = some .listItem)
      (Node.textsAll ns) (Tree.textsAll ts)
  | [], ns, h => by
    simp only [items, Traced.result_pure_eq_ok] at h
    subst h
    exact .refl _ []
  | .text handle value :: ts, ns, h => by
    rw [result_items_of_ne ts (by simp [Tree.role?])] at h
    exact (conserved_items ts h).skip (by simp [Tree.role?]) [value]
  | .element handle role properties children :: ts, ns, h => by
    by_cases hrole : role = .listItem
    · subst hrole
      simp only [items, Traced.result_bind_eq_ok, Traced.result_pure_eq_ok] at h
      obtain ⟨status, -, kids, hkids, rest, hrest, rfl⟩ := h
      rw [Node.textsAll, texts_item, Tree.textsAll, Tree.texts]
      refine ((conserved_pieces children hkids).append (conserved_items ts hrest)).mono ?_
      rintro ⟨⟨⟨-, hall⟩, hts⟩, hitems⟩
      exact ⟨hall, hts, fun u hu => hitems u (by simp [hu])⟩
    · have hne : (Tree.element handle role properties children).role? ≠ some .listItem := by
        simpa [Tree.role?] using hrole
      rw [result_items_of_ne ts hne] at h
      exact (conserved_items ts h).skip (fun hkeep => hne (hkeep.2 _ List.mem_cons_self)) _

/-- A node at a block position keeps its texts. -/
theorem conserved_piece : (t : Tree) → {p : Piece} → (piece t).result = .ok p →
    Conserved t.Lossless p.texts t.texts
  | .text _ _, p, h => conserved_piece_of_isInline rfl h
  | .element handle role properties children, p, h => by
    cases role with
    | strong | emphasis | strikethrough | inlineCode | link =>
      exact conserved_piece_of_isInline rfl h
    | heading =>
      simp only [piece, Traced.result_bind_eq_ok, Traced.result_pure_eq_ok] at h
      obtain ⟨level, -, content, hcontent, rfl⟩ := h
      rw [Piece.texts, Node.texts, Tree.texts]
      exact (conserved_inlines children hcontent).mono And.symm
    | paragraph =>
      simp only [piece] at h
      split at h
      · rename_i himage
        obtain ⟨inner, kids, rfl⟩ := soleImage?_eq_some_iff.mp himage
        simp only [Traced.result_bind_eq_ok, Traced.result_pure_eq_ok] at h
        obtain ⟨n, hn, rfl⟩ := h
        rw [Piece.texts, Node.texts, Node.textsAll_singleton, texts_image hn]
        refine .dropped fun hlossless => ?_
        rw [Tree.texts, Tree.textsAll, Tree.textsAll, List.append_nil]
        exact hlossless.2.1.1
      · rename_i himage
        simp only [Traced.result_bind_eq_ok, Traced.result_pure_eq_ok] at h
        obtain ⟨content, hcontent, rfl⟩ := h
        rw [Piece.texts, Node.texts, Tree.texts]
        refine (conserved_inlines children hcontent).mono ?_
        rintro ⟨hinline | ⟨c, rfl, hc⟩, hall⟩
        · exact ⟨hall, hinline⟩
        · obtain ⟨inner, properties, kids, rfl⟩ := Tree.eq_element_of_role? hc
          rw [soleImage?_eq_some_iff.mpr ⟨inner, kids, rfl⟩] at himage
          cases himage
    | blockquote =>
      simp only [piece, Traced.result_bind_eq_ok, Traced.result_pure_eq_ok] at h
      obtain ⟨kids, hkids, rfl⟩ := h
      rw [Piece.texts, Node.texts, textsAll_group, Tree.texts]
      exact (conserved_pieces children hkids).mono And.right
    | code =>
      simp only [piece, Traced.result_bind_eq_ok, Traced.result_pure_eq_ok] at h
      obtain ⟨language, -, content, -, rfl⟩ := h
      exact .dropped And.left
    | list =>
      simp only [piece, Traced.result_bind_eq_ok, Traced.result_pure_eq_ok] at h
      obtain ⟨ordered, -, first, -, kids, hkids, rfl⟩ := h
      rw [Piece.texts, Node.texts, Tree.texts]
      exact (conserved_items children hkids).mono And.symm
    | listItem =>
      simp only [piece, Traced.result_bind_eq_ok, Traced.result_pure_eq_ok] at h
      obtain ⟨-, -, status, -, kids, hkids, rfl⟩ := h
      rw [Piece.texts, Node.texts, Node.textsAll_singleton, texts_item, Tree.texts]
      exact (conserved_pieces children hkids).mono And.right
    | table =>
      simp only [piece, Traced.result_bind_eq_ok, Traced.result_pure_eq_ok] at h
      obtain ⟨kids, hkids, rfl⟩ := h
      rw [Piece.texts, Node.texts, Tree.texts]
      exact (conserved_rows children hkids).mono And.symm
    | tableRow =>
      simp only [piece, Traced.result_bind_eq_ok, Traced.result_pure_eq_ok] at h
      obtain ⟨-, -, kids, hkids, rfl⟩ := h
      rw [Piece.texts, Node.texts, Node.textsAll_singleton, Node.texts, Tree.texts]
      exact (conserved_cells children hkids).mono And.symm
    | tableCell | tableHeader =>
      simp only [piece, Traced.result_bind_eq_ok, Traced.result_pure_eq_ok] at h
      obtain ⟨-, -, content, hcontent, first, hfirst, rfl⟩ := h
      rw [Piece.texts, Node.texts, Node.textsAll_singleton, Node.texts, Node.textsAll_singleton,
        texts_cell hfirst, Tree.texts]
      exact (conserved_inlines children hcontent).mono And.symm
    | thematicBreak =>
      simp only [piece, Traced.result_pure_eq_ok] at h
      subst h
      exact .dropped And.left
    | image =>
      simp only [piece, Traced.result_bind_eq_ok, Traced.result_pure_eq_ok] at h
      obtain ⟨n, hn, rfl⟩ := h
      rw [Piece.texts, Node.texts, Node.textsAll_singleton, texts_image hn]
      exact .dropped And.left
    | root | other => simp [piece] at h

/-- Siblings at a block position keep their texts. -/
theorem conserved_pieces : (ts : List Tree) → {ps : List Piece} → (pieces ts).result = .ok ps →
    Conserved (AllLossless ts) (ps.flatMap Piece.texts) (Tree.textsAll ts)
  | [], ps, h => by
    simp only [pieces, Traced.result_pure_eq_ok] at h
    subst h
    exact .refl _ []
  | t :: ts, ps, h => by
    simp only [pieces, Traced.result_bind_eq_ok, Traced.result_pure_eq_ok] at h
    obtain ⟨first, hfirst, rest, hrest, rfl⟩ := h
    rw [List.flatMap_cons, Tree.textsAll]
    exact (conserved_piece t hfirst).append (conserved_pieces ts hrest)

end

end Lowering

/-! ## Documents -/

/-- The document of a tree keeps its texts. -/
theorem Tree.conserved_lower (t : Tree) {doc : Node} (h : t.lower.result = .ok doc) :
    Conserved (AllLossless t.splice) doc.texts t.texts := by
  simp only [lower, Lowering.blocks, Traced.result_bind_eq_ok, Traced.result_pure_eq_ok] at h
  obtain ⟨children, ⟨kids, hkids, rfl⟩, rfl⟩ := h
  rw [Node.texts, textsAll_group, ← textsAll_splice t]
  exact Lowering.conserved_pieces t.splice hkids

/-- **Lowering conserves texts.** The texts of a document, in document order, are a sublist of the
texts of the tree that it is lowered from, in depth-first order. Both are the same where, apart from
root elements, every element of the tree keeps the texts of its children. -/
theorem lowered_texts_are_conserved (s : Store) (root : Value) {doc : Node}
    (h : (s.lower root).result = .ok doc) :
    ∃ t? : Option Tree, s.tree? root = .ok t? ∧
      doc.texts.Sublist (Tree.textsAll t?.toList) ∧
      (Tree.AllLossless (Tree.spliceAll t?.toList) → doc.texts = Tree.textsAll t?.toList) := by
  simp only [Store.lower, Traced.result_bind_eq_ok, Traced.result_lift, mapError_eq_ok] at h
  obtain ⟨t?, htree, h⟩ := h
  refine ⟨t?, htree, ?_⟩
  cases t? with
  | none =>
    simp only [lowerTree?, Traced.result_pure_eq_ok] at h
    subst h
    exact ⟨List.nil_sublist _, fun _ => rfl⟩
  | some t =>
    have hkept : Conserved (Tree.AllLossless t.splice) doc.texts t.texts := t.conserved_lower h
    simpa [Tree.textsAll, Tree.spliceAll] using And.intro hkept.sublist hkept.eq

/-- A quote of an item, in which a text stands in a fragment and another behind it, and of a table
that holds a text. -/
def strayTexts : List Operation :=
  [.createElement (.str "blockquote") .null, .createElement (.str "listItem") .null,
    .createElement (.str "root") .null, .createText (.str "a"), .createText (.str "b"),
    .createElement (.str "table") .null, .createText (.str "c"),
    .appendChild (.int 0) (.int 1), .appendChild (.int 1) (.int 2),
    .appendChild (.int 2) (.int 3), .appendChild (.int 1) (.int 4),
    .appendChild (.int 0) (.int 5), .appendChild (.int 5) (.int 6)]

/-- The table loses its text. The item on its own loses nothing. -/
theorem stray_texts_are_conserved :
    let s := (Container.run strayTexts).store
    (∃ doc t, (s.lower (.int 0)).result = .ok doc ∧ s.tree? (.int 0) = .ok (some t) ∧
      doc.texts.Sublist t.texts ∧ doc.texts = ["a", "b"] ∧ t.texts = ["a", "b", "c"]) ∧
    ∃ doc t, (s.lower (.int 1)).result = .ok doc ∧ s.tree? (.int 1) = .ok (some t) ∧
      Tree.AllLossless t.splice ∧ doc.texts = t.texts ∧ t.texts = ["a", "b"] := by
  intro s
  have hquote : (s.lower (.int 0)).result = .ok (.document [.blockQuote
      [.list false [.listItem [.paragraph [.text "a", .text "b"] synthesized] none] 1 synthesized,
        .table []]]) := rfl
  have hitem : (s.lower (.int 1)).result = .ok (.document
      [.list false [.listItem [.paragraph [.text "a", .text "b"] synthesized] none] 1
        synthesized]) := rfl
  have hwhole : s.tree? (.int 0) = .ok (some (.element (.int 0) .blockquote []
      [.element (.int 1) .listItem []
          [.element (.int 2) .root [] [.text (.int 3) "a"], .text (.int 4) "b"],
        .element (.int 5) .table [] [.text (.int 6) "c"]])) := rfl
  have hpart : s.tree? (.int 1) = .ok (some (.element (.int 1) .listItem []
      [.element (.int 2) .root [] [.text (.int 3) "a"], .text (.int 4) "b"])) := rfl
  constructor
  · obtain ⟨t?, ht, hsub, -⟩ := lowered_texts_are_conserved s (.int 0) hquote
    obtain rfl := Except.ok.inj (hwhole.symm.trans ht)
    exact ⟨_, _, hquote, hwhole, hsub, rfl, rfl⟩
  · obtain ⟨t?, ht, -, heq⟩ := lowered_texts_are_conserved s (.int 1) hitem
    obtain rfl := Except.ok.inj (hpart.symm.trans ht)
    have hlossless : Tree.AllLossless (Tree.spliceAll [.element (.int 1) .listItem []
        [.element (.int 2) .root [] [.text (.int 3) "a"], .text (.int 4) "b"]]) := by
      simp [Tree.spliceAll, Tree.splice, Tree.AllLossless, Tree.Lossless, Tree.KeepsChildren]
    exact ⟨_, _, hitem, hpart, by simpa [Tree.spliceAll] using hlossless, heq hlossless, rfl⟩

end DocumentTree
