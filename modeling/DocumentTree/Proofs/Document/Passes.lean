import DocumentTree.Document.Lowering
import DocumentTree.Proofs.Outcome

/-!
# Passes over siblings

A pass goes through siblings in order and collects what each of them gives; what it drops gives
nothing. At a block position, a node that may stand among inline nodes gives the same node as at an
inline position. Grouping runs of them into paragraphs moves nothing.

## Main definitions

* `InOrder` — a pass that collects what it gives for each sibling.
* `Piece.node` — the node of a lowered sibling.
-/

namespace DocumentTree

/-- A pass over siblings that collects, in order, what it gives for each. -/
def InOrder {α β ε : Type} (pass : List α → Except ε (List β)) : Prop :=
  ∀ xs ys, pass (xs ++ ys) = do return (← pass xs) ++ (← pass ys)

namespace InOrder

variable {α β ε : Type} {pass : List α → Except ε (List β)}

/-- It is enough that a pass goes in order at each first sibling. -/
theorem of_cons (hnil : pass [] = .ok [])
    (hcons : ∀ x xs, pass (x :: xs) = do return (← pass [x]) ++ (← pass xs)) :
    InOrder pass := by
  intro xs ys
  induction xs with
  | nil => simp [hnil]
  | cons x xs ih =>
    rw [List.cons_append, hcons, ih, hcons x xs]
    simp only [bind_assoc, pure_bind, List.append_assoc]

end InOrder

/-- Only an element has a role. -/
theorem Tree.eq_element_of_role? {t : Tree} {role : Role} (h : t.role? = some role) :
    ∃ handle properties children, t = .element handle role properties children := by
  cases t with
  | text handle value => cases h
  | element handle role' properties children =>
    obtain rfl := Option.some.inj h
    exact ⟨handle, properties, children, rfl⟩

/-! ## Grouping -/

/-- The lowered sibling, apart from whether it is inline. -/
def Piece.node : Piece → Node
  | .inline node | .block node => node

/-- Whatever a paragraph has from its content, the blocks have from the siblings. -/
theorem flatMap_groupFrom {α : Type} {g : Node → List α}
    (hg : ∀ run, g (.paragraph run synthesized) = run.flatMap g) (run : List Node)
    (pieces : List Piece) :
    (groupFrom run pieces).flatMap g = run.flatMap g ++ pieces.flatMap fun p => g p.node := by
  have hrun : ∀ run, (runParagraph run).flatMap g = run.flatMap g := by
    intro run
    cases run with
    | nil => rfl
    | cons n ns => simp [runParagraph, hg]
  induction pieces generalizing run with
  | nil => simp [groupFrom, hrun]
  | cons p pieces ih =>
    cases p with
    | inline node => simp [groupFrom, ih, Piece.node]
    | block node => simp [groupFrom, ih, hrun, Piece.node]

theorem flatMap_group {α : Type} {g : Node → List α}
    (hg : ∀ run, g (.paragraph run synthesized) = run.flatMap g) (pieces : List Piece) :
    (group pieces).flatMap g = pieces.flatMap fun p => g p.node := by
  rw [group, flatMap_groupFrom hg, List.flatMap_nil, List.nil_append]

namespace Lowering

/-- Whatever an item has from its children, it has from the siblings in it. -/
theorem flatMap_item {α : Type} {g : Node → List α}
    (hrun : ∀ run, g (.paragraph run synthesized) = run.flatMap g)
    (hitem : ∀ children status, g (.listItem children status) = children.flatMap g)
    (status : Option String) (pieces : List Piece) :
    g (item status pieces) = pieces.flatMap fun p => g p.node := by
  rw [item, hitem, ← flatMap_group hrun]
  split
  · rename_i hempty
    rw [List.isEmpty_iff.mp hempty, List.flatMap_singleton, hrun]
  · rfl

/-! ## Passes go in order -/

/-- An inline container holds what each child gives. -/
theorem result_inlines_cons (container : String) (t : Tree) (ts : List Tree) :
    (inlines container (t :: ts)).result = do
      let answer ← (inline t).result
      return answer.toList ++ (← (inlines container ts).result) := by
  rw [inlines, Traced.result_bind_eq]
  refine bind_congr fun answer => ?_
  cases answer with
  | none => simp
  | some node => simp

theorem inOrder_inlines (container : String) : InOrder fun ts => (inlines container ts).result := by
  refine .of_cons rfl ?_
  intro t ts
  simp only [result_inlines_cons]
  simp [inlines]

theorem inOrder_cells : InOrder fun ts => (cells ts).result := by
  refine .of_cons rfl ?_
  intro t ts
  cases t with
  | text handle value => simp [cells]
  | element handle role properties children =>
    simp only [cells]
    split
    · simp
    · split <;> simp

/-- A table reports a child that is no row. -/
theorem rows_of_ne {t : Tree} (ts : List Tree) (h : t.role? ≠ some .tableRow) :
    rows (t :: ts) = (do .report (.droppedFromTable t.handle); rows ts) := by
  rw [rows]
  rintro handle properties children rfl
  exact h rfl

/-- A table drops a child that is no row. -/
theorem result_rows_of_ne {t : Tree} (ts : List Tree) (h : t.role? ≠ some .tableRow) :
    (rows (t :: ts)).result = (rows ts).result := by
  rw [rows_of_ne ts h, Traced.result_bind_eq]
  rfl

theorem inOrder_rows : InOrder fun ts => (rows ts).result := by
  refine .of_cons rfl ?_
  intro t ts
  by_cases h : t.role? = some .tableRow
  · obtain ⟨handle, properties, children, rfl⟩ := Tree.eq_element_of_role? h
    simp [rows]
  · simp only [result_rows_of_ne _ h]
    simp [rows]

/-- A list reports a child that is no item. -/
theorem items_of_ne {t : Tree} (ts : List Tree) (h : t.role? ≠ some .listItem) :
    items (t :: ts) = (do .report (.droppedFromList t.handle); items ts) := by
  rw [items]
  rintro handle properties children rfl
  exact h rfl

/-- A list drops a child that is no item. -/
theorem result_items_of_ne {t : Tree} (ts : List Tree) (h : t.role? ≠ some .listItem) :
    (items (t :: ts)).result = (items ts).result := by
  rw [items_of_ne ts h, Traced.result_bind_eq]
  rfl

theorem inOrder_items : InOrder fun ts => (items ts).result := by
  refine .of_cons rfl ?_
  intro t ts
  by_cases h : t.role? = some .listItem
  · obtain ⟨handle, properties, children, rfl⟩ := Tree.eq_element_of_role? h
    simp [items]
  · simp only [result_items_of_ne _ h]
    simp [items]

theorem inOrder_pieces : InOrder fun ts => (pieces ts).result := by
  refine .of_cons rfl ?_
  intro t ts
  simp [pieces]

/-! ## Inline nodes at block positions -/

/-- A node of an inline role is lowered alike at both positions. -/
theorem result_piece_of_isInline {t : Tree} (h : t.isInline = true) :
    ∃ node : Except LoweringError Node,
      (inline t).result = (do return some (← node)) ∧
      (piece t).result = do return .inline (← node) := by
  cases t with
  | text handle value => exact ⟨.ok (.text value), rfl, rfl⟩
  | element handle role properties children =>
    cases role with
    | strong =>
      exact ⟨do return .strong (← (inlines "strong" children).result),
        by simp [inline], by simp [piece]⟩
    | emphasis =>
      exact ⟨do return .emphasis (← (inlines "emphasis" children).result),
        by simp [inline], by simp [piece]⟩
    | strikethrough =>
      exact ⟨do return .strikethrough (← (inlines "strikethrough" children).result),
        by simp [inline], by simp [piece]⟩
    | inlineCode =>
      exact ⟨do return .code (← (literal properties children).result),
        by simp [inline], by simp [piece]⟩
    | link =>
      exact ⟨do
        let url ← (stringProperty properties "url").result
        let content ← (inlines "link" children).result
        return .link url content (← (stringProperty? properties "title").result),
        by simp [inline], by simp [piece]⟩
    | _ => cases h

/-- Its own pass at a block position gives what its own pass at an inline position gives. -/
theorem result_pieces_of_isInline {t : Tree} (h : t.isInline = true) (container : String) :
    (pieces [t]).result = do return (← (inlines container [t]).result).map .inline := by
  obtain ⟨node, hinline, hpiece⟩ := result_piece_of_isInline h
  rw [result_inlines_cons, hinline]
  simp [pieces, inlines, hpiece]

end Lowering

end DocumentTree
