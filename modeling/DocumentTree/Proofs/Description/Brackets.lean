import DocumentTree.Proofs.Description.DirectLowering

/-!
# Root elements as brackets

Taking the root elements out of a description leaves a sequence of descriptions. Putting some of
them into a root element, or taking them out of it, changes neither that sequence nor what the
descriptions stand for.

## Main definitions

* `Element.splice` — a description without root elements, as a sequence.
* `Element.Alike` — descriptions that differ in root elements only.
-/

namespace DocumentTree

namespace Element

/-! ## Descriptions without root elements -/

mutual

/-- The description without root elements: each is replaced by its children. -/
def splice : Element → List Element
  | text value => [text value]
  | element role properties es =>
    if Role.ofValue role = .root then spliceAll es else [element role properties (spliceAll es)]

/-- The descriptions without root elements, in order. -/
def spliceAll : List Element → List Element
  | [] => []
  | e :: es => splice e ++ spliceAll es

end

theorem spliceAll_append (es fs : List Element) :
    spliceAll (es ++ fs) = spliceAll es ++ spliceAll fs := by
  induction es with
  | nil => rfl
  | cons e es ih => rw [List.cons_append, spliceAll, spliceAll, ih, List.append_assoc]

theorem inOrder_piecesAll : InOrder piecesAll := by
  refine .of_cons rfl ?_
  intro e es
  simp [piecesAll]

/-- The descriptions differ in root elements only, which are mere brackets. -/
structure Alike (es fs : List Element) : Prop where
  /-- At a block position they give the same. -/
  pieces : piecesAll es = piecesAll fs
  /-- Without root elements they are the same. -/
  splice : spliceAll es = spliceAll fs

theorem Alike.refl (es : List Element) : Alike es es := ⟨rfl, rfl⟩

theorem Alike.symm {es fs : List Element} (h : Alike es fs) : Alike fs es :=
  ⟨h.pieces.symm, h.splice.symm⟩

theorem Alike.trans {es fs gs : List Element} (h : Alike es fs) (k : Alike fs gs) : Alike es gs :=
  ⟨h.pieces.trans k.pieces, h.splice.trans k.splice⟩

theorem Alike.append {es fs gs ks : List Element} (h : Alike es fs) (k : Alike gs ks) :
    Alike (es ++ gs) (fs ++ ks) where
  pieces := by rw [inOrder_piecesAll, h.pieces, k.pieces, ← inOrder_piecesAll]
  splice := by rw [spliceAll_append, h.splice, k.splice, ← spliceAll_append]

/-- A root element is its children. -/
theorem alike_children {role : Value} (hrole : Role.ofValue role = .root) (properties : Entries)
    (es : List Element) : Alike [element role properties es] es where
  pieces := by simp [piecesAll, Element.pieces, hrole]
  splice := by simp [spliceAll, splice, hrole]

theorem piecesAll_singleton (e : Element) : piecesAll [e] = e.pieces := by
  simp [piecesAll]

theorem Alike.document {e f : Element} (h : Alike [e] [f]) : e.document = f.document := by
  rw [Element.document, Element.document, ← piecesAll_singleton e, ← piecesAll_singleton f,
    h.pieces]

end Element

namespace Tree

theorem FitsAll.append : {ts us : List Tree} → {es fs : List Element} → FitsAll ts es →
    FitsAll us fs → FitsAll (ts ++ us) (es ++ fs)
  | [], _, [], _, _, h => h
  | _ :: _, _, _ :: _, _, h, k => ⟨h.1, FitsAll.append h.2 k⟩
  | [], _, _ :: _, _, h, _ => by cases h
  | _ :: _, _, [], _, h, _ => by cases h

/-- A tree fits a description without root elements as well. -/
theorem hereditary_splice :
    Hereditary (fun t e => FitsAll t.splice e.splice)
      (fun ts es => FitsAll (spliceAll ts) (Element.spliceAll es)) where
  text _ _ := ⟨rfl, trivial⟩
  element handle role properties ts es _ ih := by
    rw [splice, Element.splice]
    split
    · exact ih
    · exact ⟨⟨rfl, rfl, ih⟩, trivial⟩
  nil := trivial
  cons _ _ _ _ h ih := h.append ih

end Tree

end DocumentTree
