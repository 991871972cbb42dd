import DocumentTree.Proofs.Description.Direct
import DocumentTree.Proofs.Document.Passes

/-!
# Lowering a tree that fits a description

A tree that fits a description, whatever its handles are, is lowered to the document of the
description. Since passes go in order, the siblings that take the place of a root element are passed
on their own; by induction on the tree, each pass then gives what the description stands for at that
position.
-/

namespace DocumentTree

/-! ## Texts and images -/

namespace Tree

@[simp] theorem plainTextAll_append (xs ys : List Tree) :
    plainTextAll (xs ++ ys) = plainTextAll xs ++ plainTextAll ys := by
  induction xs with
  | nil => simp [plainTextAll]
  | cons x xs ih => simp [plainTextAll, ih, String.append_assoc]

/-- Taking root elements out leaves the texts. -/
theorem hereditary_plainText :
    Hereditary (fun t e => plainTextAll t.splice = e.plainText)
      (fun ts es => plainTextAll (spliceAll ts) = Element.plainTextAll es) where
  text _ _ := by simp [splice, plainTextAll, plainText, Element.plainText]
  element handle role properties ts es _ ih := by
    rw [splice, Element.plainText, ← ih]
    split
    · rfl
    · simp [plainTextAll, plainText]
  nil := rfl
  cons t ts e es h ih := by
    rw [spliceAll, plainTextAll_append, Element.plainTextAll, h, ih]

/-- The role and the properties at the top; a text has none. -/
def head : Tree → Option (Role × Entries)
  | text .. => none
  | element _ role properties _ => some (role, properties)

theorem hereditary_heads :
    Hereditary (fun t e => t.splice.map head = e.heads)
      (fun ts es => (spliceAll ts).map head = Element.headsAll es) where
  text _ _ := rfl
  element handle role properties ts es _ ih := by
    rw [splice, Element.heads]
    split
    · exact ih
    · rfl
  nil := rfl
  cons t ts e es h ih := by
    rw [spliceAll, List.map_append, Element.headsAll, h, ih]

end Tree

namespace Lowering

/-- Whether children are a sole image shows in their roles. -/
theorem soleImage?_eq (ts : List Tree) :
    soleImage? ts =
      match ts.map Tree.head with
      | [some (.image, properties)] => some properties
      | _ => none := by
  rcases ts with _ | ⟨t, _ | ⟨u, us⟩⟩
  · rfl
  · cases t with
    | text handle value => rfl
    | element handle role properties children => cases role <;> rfl
  · cases t with
    | text handle value => rfl
    | element handle role properties children => cases role <;> rfl

theorem soleImage?_spliceAll {ts : List Tree} {es : List Element} (h : Tree.FitsAll ts es) :
    soleImage? (Tree.spliceAll ts) = Element.soleImage? es := by
  rw [soleImage?_eq, Tree.hereditary_heads.fitsAll ts es h]
  rfl

theorem literal_spliceAll (properties : Entries) {ts : List Tree} {es : List Element}
    (h : Tree.FitsAll ts es) :
    (literal properties (Tree.spliceAll ts)).result = Element.literal properties es := by
  rw [literal, Element.literal, Traced.result_bind_eq,
    Tree.hereditary_plainText.fitsAll ts es h]
  rfl

/-! ## The passes -/

open DocumentTree.Tree (Hereditary)

/-- An inline container holds what the description stands for, whatever it is called. -/
theorem hereditary_inlines :
    Hereditary (fun t e => ∀ container, (inlines container t.splice).result = e.inlines)
      (fun ts es => ∀ container,
        (inlines container (Tree.spliceAll ts)).result = Element.inlinesAll es) where
  text _ _ _ := rfl
  element handle role properties ts es hts ih := by
    intro container
    rw [Element.inlines]
    generalize Role.ofValue role = role
    by_cases hroot : role = .root
    · subst hroot
      exact ih container
    · rw [Tree.splice, if_neg hroot, result_inlines_cons]
      cases role with
      | strong | emphasis | strikethrough | link => simp [inline, inlines, ih]
      | inlineCode => simp [inline, inlines, literal_spliceAll _ hts]
      | root => exact absurd rfl hroot
      | _ => rfl
  nil _ := rfl
  cons t ts e es h ih := by
    intro container
    rw [Tree.spliceAll, Element.inlinesAll, ← h container, ← ih container]
    exact inOrder_inlines container t.splice (Tree.spliceAll ts)

theorem inlines_spliceAll {ts : List Tree} {es : List Element} (h : Tree.FitsAll ts es)
    (container : String) :
    (inlines container (Tree.spliceAll ts)).result = Element.inlinesAll es :=
  hereditary_inlines.fitsAll ts es h container

theorem hereditary_cells :
    Hereditary (fun t e => (cells t.splice).result = e.cells)
      (fun ts es => (cells (Tree.spliceAll ts)).result = Element.cellsAll es) where
  text _ _ := rfl
  element handle role properties ts es hts ih := by
    rw [Element.cells]
    generalize Role.ofValue role = role
    by_cases hroot : role = .root
    · subst hroot
      exact ih
    · rw [Tree.splice, if_neg hroot]
      cases role with
      | tableCell | tableHeader => simp [cells, inlines_spliceAll hts]
      | other given =>
        simp only [cells, Role.isNoKey, Role.toValue, reduceCtorEq, or_self, if_false]
        by_cases hkey : given.isKey = true <;> simp [hkey]
      | root => exact absurd rfl hroot
      | _ => rfl
  nil := rfl
  cons t ts e es h ih := by
    rw [Tree.spliceAll, Element.cellsAll, ← h, ← ih]
    exact inOrder_cells t.splice (Tree.spliceAll ts)

theorem hereditary_rows :
    Hereditary (fun t e => (rows t.splice).result = e.rows)
      (fun ts es => (rows (Tree.spliceAll ts)).result = Element.rowsAll es) where
  text _ _ := rfl
  element handle role properties ts es hts ih := by
    rw [Element.rows]
    generalize Role.ofValue role = role
    by_cases hroot : role = .root
    · subst hroot
      exact ih
    · rw [Tree.splice, if_neg hroot]
      cases role with
      | tableRow => simp [rows, hereditary_cells.fitsAll ts es hts]
      | root => exact absurd rfl hroot
      | _ => rfl
  nil := rfl
  cons t ts e es h ih := by
    rw [Tree.spliceAll, Element.rowsAll, ← h, ← ih]
    exact inOrder_rows t.splice (Tree.spliceAll ts)

/-- Items hold blocks and blocks hold items, so both positions are followed at once. -/
theorem hereditary_items_pieces :
    Hereditary
      (fun t e => (items t.splice).result = e.items ∧ (pieces t.splice).result = e.pieces)
      (fun ts es => (items (Tree.spliceAll ts)).result = Element.itemsAll es ∧
        (pieces (Tree.spliceAll ts)).result = Element.piecesAll es) where
  text _ _ := ⟨rfl, rfl⟩
  element handle role properties ts es hts ih := by
    obtain ⟨hitems, hpieces⟩ := ih
    have hfits : (Tree.element handle (Role.ofValue role) properties ts).Fits
        (.element role properties es) := ⟨rfl, rfl, hts⟩
    rw [Element.items, Element.pieces, ← hereditary_inlines.fits _ _ hfits "",
      ← hereditary_cells.fits _ _ hfits]
    generalize Role.ofValue role = role
    by_cases hroot : role = .root
    · subst hroot
      exact ⟨hitems, hpieces⟩
    rw [Tree.splice, if_neg hroot]
    constructor
    · cases role with
      | listItem => simp [items, hpieces]
      | root => exact absurd rfl hroot
      | _ => rfl
    · cases role with
      | strong | emphasis | strikethrough | inlineCode | link =>
        exact result_pieces_of_isInline rfl ""
      | heading => simp [pieces, piece, property, inlines_spliceAll hts]
      | paragraph =>
        simp only [pieces, piece, soleImage?_spliceAll hts]
        cases Element.soleImage? es <;> simp [inlines_spliceAll hts]
      | blockquote | listItem => simp [pieces, piece, hpieces]
      | code => simp [pieces, piece, literal_spliceAll _ hts]
      | list => simp [pieces, piece, property, hitems]
      | table => simp [pieces, piece, hereditary_rows.fitsAll ts es hts]
      | tableRow => simp [pieces, piece, hereditary_cells.fitsAll ts es hts]
      | tableCell | tableHeader => simp [pieces, piece, cells]
      | image => simp [pieces, piece]
      | thematicBreak | other => rfl
      | root => exact absurd rfl hroot
  nil := ⟨rfl, rfl⟩
  cons t ts e es h ih := by
    rw [Tree.spliceAll, Element.itemsAll, Element.piecesAll, ← h.1, ← h.2, ← ih.1, ← ih.2]
    exact ⟨inOrder_items t.splice (Tree.spliceAll ts), inOrder_pieces t.splice (Tree.spliceAll ts)⟩

end Lowering

/-! ## Documents -/

/-- **A tree is lowered to the document of a description that it fits**, or refused alike. -/
theorem Tree.Fits.result_lower {t : Tree} {e : Element} (h : t.Fits e) :
    t.lower.result = e.document := by
  rw [Tree.lower, Lowering.blocks, Element.document,
    ← (Lowering.hereditary_items_pieces.fits t e h).2]
  simp

end DocumentTree
