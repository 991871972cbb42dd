import DocumentTree.Store.Mutation
import Mathlib.Data.List.Perm.Basic

/-!
# Changes of records and the links they leave

The links of a store are two functions: the parent of a record, and the children of an element.
Every operation is composed of a few changes of records, and each change is described here by what
it does to these functions. Later modules reason about links alone.

## Main definitions

* `Store.IsElement` — a number names an element record.
-/

namespace DocumentTree.Store

/-- The number names an element. -/
def IsElement (s : Store) (n : NodeId) : Prop :=
  ∃ r, s.get? n = some r ∧ r.isText = false

/-! ## Known records -/

theorem lt_size_iff {s : Store} {n : NodeId} : n < s.size ↔ ∃ r, s.get? n = some r := by
  simp only [get?, size, Option.ne_none_iff_exists'.symm]
  simp

theorem lt_size_of_get? {s : Store} {n : NodeId} {r : Record} (h : s.get? n = some r) :
    n < s.size :=
  lt_size_iff.mpr ⟨r, h⟩

theorem get?_eq_none {s : Store} {n : NodeId} (h : s.size ≤ n) : s.get? n = none := by
  simpa [get?, size] using h

theorem IsElement.lt_size {s : Store} {n : NodeId} (h : s.IsElement n) : n < s.size := by
  obtain ⟨r, hr, -⟩ := h
  exact lt_size_of_get? hr

theorem lt_size_of_parent? {s : Store} {c p : NodeId} (h : s.parent? c = some p) :
    c < s.size := by
  obtain ⟨r, hr, -⟩ := Option.bind_eq_some_iff.mp h
  exact lt_size_of_get? hr

theorem parent?_eq_none {s : Store} {n : NodeId} (h : s.size ≤ n) : s.parent? n = none := by
  simp [parent?, get?_eq_none h]

theorem childrenOf_eq {s : Store} {n : NodeId} {r : Record} (h : s.get? n = some r) :
    s.childrenOf n = r.children := by
  simp [childrenOf, h]

/-- Only an element has children. -/
theorem isElement_of_mem_childrenOf {s : Store} {p c : NodeId} (h : c ∈ s.childrenOf p) :
    s.IsElement p := by
  cases hp : s.get? p with
  | none => simp [childrenOf, hp] at h
  | some r =>
    refine ⟨r, rfl.trans hp, ?_⟩
    rw [childrenOf_eq hp] at h
    cases hr : r.content with
    | text value => simp [Record.children, hr] at h
    | element role properties children => simp [Record.isText, hr]

/-! ## Replaced and added records -/

@[simp] theorem size_modify (s : Store) (n : NodeId) (f : Record → Record) :
    (s.modify n f).size = s.size := by
  simp [modify, size]

@[simp] theorem size_setLink (s : Store) (n : NodeId) (link : Option Link) :
    (s.setLink n link).size = s.size :=
  size_modify ..

@[simp] theorem size_setChildren (s : Store) (n : NodeId) (f : List NodeId → List NodeId) :
    (s.setChildren n f).size = s.size :=
  size_modify ..

@[simp] theorem size_push (s : Store) (r : Record) : (s.push r).size = s.size + 1 := by
  simp [push, size]

theorem get?_modify (s : Store) (n m : NodeId) (f : Record → Record) :
    (s.modify n f).get? m = if n = m then (s.get? m).map f else s.get? m := by
  simp [modify, get?, Array.getElem?_modify]

theorem get?_push (s : Store) (r : Record) (m : NodeId) :
    (s.push r).get? m = if m = s.size then some r else s.get? m := by
  simp only [push, get?, Array.getElem?_push]
  rfl

/-- A replacement that keeps a record's link keeps every parent. -/
theorem parent?_modify {s : Store} {n : NodeId} {f : Record → Record}
    (h : ∀ r, s.get? n = some r → (f r).link = r.link) (m : NodeId) :
    (s.modify n f).parent? m = s.parent? m := by
  simp only [parent?, get?_modify]
  split
  · rename_i heq
    subst heq
    cases hr : s.get? n with
    | none => rfl
    | some r => simp [Record.parent, h r hr]
  · rfl

/-- A replacement that keeps a record's children keeps those of all records. -/
theorem childrenOf_modify {s : Store} {n : NodeId} {f : Record → Record}
    (h : ∀ r, s.get? n = some r → (f r).children = r.children) (m : NodeId) :
    (s.modify n f).childrenOf m = s.childrenOf m := by
  simp only [childrenOf, get?_modify]
  split
  · rename_i heq
    subst heq
    cases hr : s.get? n with
    | none => rfl
    | some r => simp [h r hr]
  · rfl

theorem parent?_setLink {s : Store} {n : NodeId} (hn : n < s.size) (link : Option Link)
    (m : NodeId) :
    (s.setLink n link).parent? m =
      if m = n then link.map fun l => l.parent.id else s.parent? m := by
  obtain ⟨r, hr⟩ := lt_size_iff.mp hn
  by_cases hm : m = n
  · subst hm
    simp [parent?, setLink, get?_modify, hr, Record.parent]
  · simp [parent?, setLink, get?_modify, hm, Ne.symm hm]

@[simp] theorem childrenOf_setLink (s : Store) (n : NodeId) (link : Option Link) (m : NodeId) :
    (s.setLink n link).childrenOf m = s.childrenOf m :=
  by
  unfold setLink
  exact childrenOf_modify (fun _ _ => by rfl) m

@[simp] theorem parent?_setChildren (s : Store) (n : NodeId) (f : List NodeId → List NodeId)
    (m : NodeId) : (s.setChildren n f).parent? m = s.parent? m := by
  refine parent?_modify (fun r _ => ?_) m
  unfold Record.mapChildren
  split <;> rfl

theorem childrenOf_setChildren {s : Store} {p : NodeId} (hp : s.IsElement p)
    (f : List NodeId → List NodeId) (m : NodeId) :
    (s.setChildren p f).childrenOf m =
      if m = p then f (s.childrenOf p) else s.childrenOf m := by
  obtain ⟨r, hr, htext⟩ := hp
  by_cases hm : m = p
  · subst hm
    cases hc : r.content with
    | text value => simp [Record.isText, hc] at htext
    | element role properties children =>
      simp [childrenOf, setChildren, get?_modify, hr, Record.mapChildren, Record.children, hc]
  · simp [childrenOf, setChildren, get?_modify, hm, Ne.symm hm]

/-- A replacement that keeps the kind of a record leaves elements where they were. -/
theorem isElement_modify {s : Store} {n : NodeId} {f : Record → Record}
    (h : ∀ r, s.get? n = some r → (f r).isText = r.isText) (m : NodeId) :
    (s.modify n f).IsElement m ↔ s.IsElement m := by
  simp only [IsElement, get?_modify]
  split
  · rename_i heq
    subst heq
    cases hr : s.get? n with
    | none => simp
    | some r => simp [h r hr]
  · rfl

@[simp] theorem isElement_setLink {s : Store} {n : NodeId} {link : Option Link} {m : NodeId} :
    (s.setLink n link).IsElement m ↔ s.IsElement m :=
  by
  unfold setLink
  exact isElement_modify (fun _ _ => by rfl) m

@[simp] theorem isElement_setChildren {s : Store} {n : NodeId}
    {f : List NodeId → List NodeId} {m : NodeId} :
    (s.setChildren n f).IsElement m ↔ s.IsElement m := by
  refine isElement_modify (fun r _ => ?_) m
  cases hc : r.content <;> simp [Record.mapChildren, Record.isText, hc]

/-- A new record without a link changes no parent. -/
theorem parent?_push {s : Store} {r : Record} (h : r.link = none) (m : NodeId) :
    (s.push r).parent? m = s.parent? m := by
  simp only [parent?, get?_push]
  split
  · rename_i heq
    simp [heq, get?_eq_none (s := s) (Nat.le_refl _), Record.parent, h]
  · rfl

/-- A new record without children changes no children. -/
theorem childrenOf_push {s : Store} {r : Record} (h : r.children = []) (m : NodeId) :
    (s.push r).childrenOf m = s.childrenOf m := by
  simp only [childrenOf, get?_push]
  split
  · rename_i heq
    simp [heq, get?_eq_none (s := s) (Nat.le_refl _), h]
  · rfl

/-! ## The list that an insertion makes -/

/-- An insertion adds the item and nothing else. -/
theorem insertBeforeIn_perm (reference item : NodeId) (ids : List NodeId) :
    (insertBeforeIn reference item ids).Perm (item :: ids) := by
  induction ids with
  | nil => exact List.Perm.refl _
  | cons n ns ih =>
    by_cases h : n = reference
    · simp [insertBeforeIn, h]
    · simp only [insertBeforeIn, h, if_false]
      exact (ih.cons n).trans (List.Perm.swap item n ns)

end DocumentTree.Store
