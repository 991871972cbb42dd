import DocumentTree.Proofs.Document.Passes

/-!
# Lowering does not depend on handles

The handles in a tree are shown in reports and nowhere else: a tree and the same tree under other
handles are lowered to the same document, or refused alike.

## Main definitions

* `Tree.bare` — the tree with no handles to tell its records apart.
-/

namespace DocumentTree

namespace Tree

mutual

/-- The tree with one handle, that of nothing, for all records. -/
def bare : Tree → Tree
  | text _ value => text .null value
  | element _ role properties children => element .null role properties (bareAll children)

/-- The trees without handles, in order. -/
def bareAll : List Tree → List Tree
  | [] => []
  | t :: ts => bare t :: bareAll ts

end

theorem bareAll_append (ts us : List Tree) : bareAll (ts ++ us) = bareAll ts ++ bareAll us := by
  induction ts with
  | nil => rfl
  | cons t ts ih => simp [bareAll, ih]

@[simp] theorem role?_bare (t : Tree) : t.bare.role? = t.role? := by
  cases t <;> rfl

mutual

theorem plainText_bare : (t : Tree) → t.bare.plainText = t.plainText
  | text _ value => rfl
  | element _ role properties children => by
    rw [bare, plainText, plainText, plainTextAll_bareAll children]

@[simp] theorem plainTextAll_bareAll : (ts : List Tree) →
    plainTextAll (bareAll ts) = plainTextAll ts
  | [] => rfl
  | t :: ts => by
    rw [bareAll, plainTextAll, plainTextAll, plainText_bare t, plainTextAll_bareAll ts]

end

mutual

/-- Root elements are taken out alike, whatever their handles are. -/
theorem splice_bare : (t : Tree) → t.bare.splice = bareAll t.splice
  | text _ value => rfl
  | element _ role properties children => by
    rw [bare, splice, splice, spliceAll_bareAll children]
    split <;> rfl

theorem spliceAll_bareAll : (ts : List Tree) → spliceAll (bareAll ts) = bareAll (spliceAll ts)
  | [] => rfl
  | t :: ts => by
    rw [bareAll, spliceAll, spliceAll, splice_bare t, spliceAll_bareAll ts, bareAll_append]

end

end Tree

namespace Lowering

open DocumentTree.Tree (bare bareAll)

@[simp] theorem result_literal_bareAll (properties : Entries) (ts : List Tree) :
    literal properties (bareAll ts) = literal properties ts := by
  rw [literal, literal, Tree.plainTextAll_bareAll]

@[simp] theorem soleImage?_bareAll (ts : List Tree) : soleImage? (bareAll ts) = soleImage? ts := by
  rcases ts with _ | ⟨t, _ | ⟨u, us⟩⟩
  · rfl
  · cases t with
    | text handle value => rfl
    | element handle role properties children => cases role <;> rfl
  · cases t with
    | text handle value => rfl
    | element handle role properties children => cases role <;> rfl

mutual

theorem result_inline_bare : (t : Tree) → (inline t.bare).result = (inline t).result
  | .text _ value => rfl
  | .element handle role properties children => by
    cases role with
    | strong | emphasis | strikethrough | link =>
      simp [bare, inline, result_inlines_bare _ children]
    | inlineCode => simp [bare, inline]
    | _ => rfl

/-- An inline container holds the same nodes under any handles. -/
theorem result_inlines_bare (container : String) : (ts : List Tree) →
    (inlines container (bareAll ts)).result = (inlines container ts).result
  | [] => rfl
  | t :: ts => by
    rw [bareAll, result_inlines_cons, result_inlines_cons, result_inline_bare t,
      result_inlines_bare container ts]

end

theorem result_cells_bare (ts : List Tree) : (cells (bareAll ts)).result = (cells ts).result := by
  induction ts with
  | nil => rfl
  | cons t ts ih =>
    cases t with
    | text handle value => simpa [bareAll, bare, cells] using ih
    | element handle role properties children =>
      simp only [bareAll, bare, cells]
      split
      · simp [result_inlines_bare, ih]
      · split
        · rfl
        · simpa using ih

theorem result_rows_bare (ts : List Tree) : (rows (bareAll ts)).result = (rows ts).result := by
  induction ts with
  | nil => rfl
  | cons t ts ih =>
    by_cases h : t.role? = some .tableRow
    · obtain ⟨handle, properties, children, rfl⟩ := Tree.eq_element_of_role? h
      simp [bareAll, bare, rows, result_cells_bare, ih]
    · rw [bareAll, result_rows_of_ne _ (by simpa using h), result_rows_of_ne _ h, ih]

mutual

theorem result_items_bare : (ts : List Tree) → (items (bareAll ts)).result = (items ts).result
  | [] => rfl
  | .text _ value :: ts => by
    simpa [bareAll, bare, items] using result_items_bare ts
  | .element handle role properties children :: ts => by
    by_cases h : role = .listItem
    · subst h
      simp [bareAll, bare, items, result_pieces_bare children, result_items_bare ts]
    · have hrole : (Tree.element handle role properties children).role? ≠ some .listItem := by
        simpa [Tree.role?] using h
      rw [bareAll, result_items_of_ne _ (by simpa using hrole), result_items_of_ne _ hrole,
        result_items_bare ts]

theorem result_piece_bare : (t : Tree) → (piece t.bare).result = (piece t).result
  | .text _ value => rfl
  | .element handle role properties children => by
    cases role with
    | strong | emphasis | strikethrough | link | heading =>
      simp [bare, piece, result_inlines_bare]
    | inlineCode | code => simp [bare, piece]
    | paragraph =>
      simp only [bare, piece, soleImage?_bareAll]
      cases soleImage? children <;> simp [result_inlines_bare]
    | blockquote | listItem => simp [bare, piece, result_pieces_bare children]
    | list => simp [bare, piece, result_items_bare children]
    | table => simp [bare, piece, result_rows_bare]
    | tableRow => simp [bare, piece, result_cells_bare]
    | tableCell | tableHeader => simp [bare, piece, result_inlines_bare]
    | _ => rfl

theorem result_pieces_bare : (ts : List Tree) → (pieces (bareAll ts)).result = (pieces ts).result
  | [] => rfl
  | t :: ts => by
    simp [bareAll, pieces, result_piece_bare t, result_pieces_bare ts]

end

end Lowering

/-- **A tree is lowered alike under any handles.** -/
theorem Tree.result_lower_bare (t : Tree) : t.bare.lower.result = t.lower.result := by
  simp [lower, Lowering.blocks, splice_bare, Lowering.result_pieces_bare]

/-- **The document of a tree depends on what the tree is without handles and root elements.** -/
theorem Tree.result_lower_congr {t u : Tree} (h : t.bare.splice = u.bare.splice) :
    t.lower.result = u.lower.result := by
  rw [← result_lower_bare t, ← result_lower_bare u, lower, lower, h]

end DocumentTree
