import DocumentTree.Proofs.Document.Accounts

/-!
# Nothing is dropped without a report

Each text of a tree lies at or below a place that nothing is visited below. There it becomes part of
a literal, or the node is reported as dropped, or the node is an element that is written from its
properties.

## Main definitions

* `Tree.HidesTexts` — the elements that are written from their properties.
-/

namespace DocumentTree

/-- The element is written from its properties, whatever texts are below it. -/
def Tree.HidesTexts : Tree → Prop
  | element _ .image _ _ | element _ .thematicBreak _ _ => True
  | element _ .code properties _ | element _ .inlineCode properties _ =>
    properties.get "value" ≠ .null
  | _ => False

/-- A code element without a value has the texts below it. -/
theorem Lowering.literalOf_of_null {properties : Entries} (children : List Tree)
    (h : properties.get "value" = .null) :
    literalOf properties children = Tree.plainTextAll children := by
  rw [literalOf, h]

/-- **A text has three fates.** Where nothing is visited below a node, the node becomes a literal
that has all its texts, it is reported as dropped, or it is written from its properties. -/
theorem Place.fate_of_isEnd {place : Place} (hend : place.IsEnd)
    (haccepted : place.position.refuses place.node = false) :
    (∃ l, place.literal? = some l ∧ l.content = place.node.plainText) ∨
      place.notice?.isSome = true ∨ place.node.HidesTexts := by
  obtain ⟨p, t⟩ := place
  cases hheld : p.holds t with
  | false =>
    right; left
    rw [isSome_notice?, hheld]
    rfl
  | true =>
    have hliteral : Place.literal? ⟨p, t⟩ = t.literal? := by simp [Place.literal?, hheld]
    have hleaf : t.childPosition? = none := by
      rcases hend with hend | hend
      · cases hheld.symm.trans hend
      · exact hend
    rw [hliteral]
    cases t with
    | text handle value => exact .inl ⟨.text value, rfl, rfl⟩
    | element handle role properties children =>
      cases role with
      | code | inlineCode =>
        by_cases hvalue : properties.get "value" = .null
        · exact .inl ⟨_, rfl, Lowering.literalOf_of_null children hvalue⟩
        · exact .inr (.inr hvalue)
      | image | thematicBreak => exact .inr (.inr trivial)
      | root | other =>
        -- Only a block position holds such a node, and there it is refused.
        cases p with
        | block => cases haccepted
        | _ => cases hheld
      | _ => cases hleaf

/-- **Nothing is dropped silently.** Where a tree is lowered, the reports that something is dropped
are, in depth-first order, those of the nodes that the position where they stand does not hold: the
children of a kept list that are no items, of a kept table that are no rows, of a kept row that are
no cells, and of a kept inline container that are not inline, apart from the sole image of a
paragraph. The literals of the document are those of the nodes that are kept. And each text of the
tree is part of a literal, or lies at or below a node that is reported, or below an image, a
thematic break or a code element that has a value. -/
theorem nothing_is_dropped_silently (s : Store) (root : Value) {doc : Node}
    (h : (s.lower root).result = .ok doc) :
    ∃ t? : Option Tree, s.tree? root = .ok t? ∧
      let places := Tree.placesAll .block (Tree.spliceAll t?.toList)
      (s.lower root).notices.filter LoweringNotice.isDrop = places.filterMap Place.notice? ∧
      doc.literals = places.filterMap Place.literal? ∧
      ∀ x ∈ Tree.leavesAll t?.toList, ∃ place ∈ places, x ∈ place.node.leaves ∧
        ((∃ l, place.literal? = some l ∧
            l.content = String.join (place.node.leaves.map Prod.snd)) ∨
          place.notice?.isSome = true ∨ place.node.HidesTexts) := by
  have hlower := h
  simp only [Store.lower, Traced.result_bind_eq_ok, Traced.result_lift, mapError_eq_ok] at hlower
  obtain ⟨t?, htree, hlower⟩ := hlower
  have hnotices : (s.lower root).notices = (lowerTree? t?).notices := by
    rw [Store.lower, Traced.notices_bind_of_ok (a := t?) (by simp [htree])]
    rfl
  have haccounted : Accounted (Tree.placesAll .block (Tree.spliceAll t?.toList))
      (s.lower root).notices doc.literals := by
    rw [hnotices]
    cases t? with
    | none =>
      simp only [lowerTree?, Traced.result_pure_eq_ok] at hlower
      subst hlower
      exact .nil
    | some t =>
      have hone : Tree.spliceAll [t] = t.splice := by simp [Tree.spliceAll]
      rw [Option.toList_some, hone]
      exact t.accounted_lower hlower
  refine ⟨t?, htree, haccounted.drops, haccounted.literals_eq, fun x hx => ?_⟩
  rw [← Tree.leavesAll_spliceAll] at hx
  obtain ⟨place, hplace, hleaf, hend⟩ := Tree.exists_end_of_mem_leavesAll _ .block hx
  have hfate := place.fate_of_isEnd hend (haccounted.accepted place hplace)
  rw [Tree.plainText_eq_join] at hfate
  exact ⟨place, hplace, hleaf, hfate⟩

/-- A quote of a table that holds a text, of a code block that has a value and holds a text, and of
a text in a fragment. -/
def droppedAndHidden : List Operation :=
  [.createElement (.str "blockquote") .null, .createElement (.str "table") .null,
    .createText (.str "a"), .createElement (.str "code") (.map [("value", .str "x")]),
    .createText (.str "b"), .createElement (.str "root") .null, .createText (.str "c"),
    .appendChild (.int 0) (.int 1), .appendChild (.int 1) (.int 2),
    .appendChild (.int 0) (.int 3), .appendChild (.int 3) (.int 4),
    .appendChild (.int 0) (.int 5), .appendChild (.int 5) (.int 6)]

/-- The text in the table is dropped with a report, that in the code block is hidden by the
value. -/
theorem dropped_text_is_reported :
    let s := (Container.run droppedAndHidden).store
    ∃ doc, (s.lower (.int 0)).result = .ok doc ∧
      (s.lower (.int 0)).notices.filter LoweringNotice.isDrop = [.droppedFromTable (.int 2)] ∧
      doc.literals = [.codeBlock "x", .text "c"] := by
  intro s
  have hdoc : (s.lower (.int 0)).result = .ok (.document [.blockQuote
      [.table [], .codeBlock "x" none, .paragraph [.text "c"] synthesized]]) := rfl
  have htree : s.tree? (.int 0) = .ok (some (.element (.int 0) .blockquote []
      [.element (.int 1) .table [] [.text (.int 2) "a"],
        .element (.int 3) .code [("value", .str "x")] [.text (.int 4) "b"],
        .element (.int 5) .root [] [.text (.int 6) "c"]])) := rfl
  obtain ⟨t?, ht, hdrops, hliterals, -⟩ := nothing_is_dropped_silently s (.int 0) hdoc
  obtain rfl := Except.ok.inj (htree.symm.trans ht)
  exact ⟨_, hdoc, hdrops, hliterals⟩

end DocumentTree
