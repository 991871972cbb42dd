import DocumentTree.Proofs.Description.Spelling

/-!
# What a change of links does to contents

An insertion and a removal change the children of the elements involved, and the contents of no
other record. When they are not refused, they do exactly this.

## Main definitions

* `Content.mapChildren` — the same content with other children.
-/

namespace DocumentTree

/-- The same content with other children; a text has none. -/
def Content.mapChildren (f : List NodeId → List NodeId) : Content → Content
  | .text value => .text value
  | .element role properties children => .element role properties (f children)

namespace Store

variable {s : Store}

/-- An element has a role, properties and its children. -/
theorem IsElement.content?_eq {n : NodeId} (h : s.IsElement n) :
    ∃ role properties, s.content? n = some (.element role properties (s.childrenOf n)) := by
  obtain ⟨r, hr, htext⟩ := h
  rw [content?, childrenOf_eq hr, hr]
  cases hcontent : r.content with
  | text value => simp [Record.isText, hcontent] at htext
  | element role properties children =>
    exact ⟨role, properties, by simp [Record.children, hcontent]⟩

/-! ## Single changes -/

@[simp] theorem content?_setLink (s : Store) (n : NodeId) (link : Option Link) (m : NodeId) :
    (s.setLink n link).content? m = s.content? m := by
  rw [content?, setLink, get?_modify, content?]
  split <;> cases s.get? m <;> rfl

theorem content?_setChildren (s : Store) (n : NodeId) (f : List NodeId → List NodeId)
    (m : NodeId) :
    (s.setChildren n f).content? m =
      if m = n then (s.content? m).map (Content.mapChildren f) else s.content? m := by
  have hmap : ∀ r : Record, (r.mapChildren f).content = r.content.mapChildren f := by
    intro r
    cases hr : r.content <;> simp [Record.mapChildren, Content.mapChildren, hr]
  rw [content?, setChildren, get?_modify, content?]
  by_cases h : m = n
  · subst h
    cases s.get? m <;> simp [hmap]
  · simp [h, Ne.symm h]

theorem content?_cut (s : Store) (p c m : NodeId) :
    (s.cut p c).content? m =
      if m = p then (s.content? m).map (Content.mapChildren fun children => children.erase c)
      else s.content? m := by
  rw [cut, content?_setLink, content?_setChildren]

theorem content?_attach_eq (s : Store) (p c : Handle) (place : List NodeId → List NodeId)
    (m : NodeId) :
    (s.attach p c place).content? m =
      if m = p.id then ((s.detach c.id).content? m).map (Content.mapChildren place)
      else (s.detach c.id).content? m := by
  rw [attach, content?_setLink, content?_setChildren]

/-! ## Operations that are not refused -/

theorem named?_of_mem {h : Handle} {ids : List NodeId} (hmem : h.id ∈ ids) :
    named? h.given ids = some h.id := by
  rw [named?, h.index?_given, Option.filter_some, if_pos (by simpa using hmem)]

/-- A record that may be attached is inserted before another child. -/
theorem Forest.insertBefore_eq (H : s.Forest) {p c r : Handle} (hr : r.id ∈ s.childrenOf p.id)
    (hc : s.Attachable p.id c.id) (hne : c.id ≠ r.id) :
    s.insertBefore p.given c.given r.given = .ok (s.attach p c (insertBeforeIn r.id c.id), []) := by
  obtain ⟨q, hq, htext⟩ := hc.element
  rw [childrenOf_eq hq] at hr
  have hfind : s.findElement p.given = .ok (p, q) := findElement_eq_ok.mpr ⟨rfl, hq, htext⟩
  have hcheck : s.attachable p c.given = .ok c :=
    (H.attachable_eq_ok hc.element).mpr ⟨rfl, hc⟩
  have hother : ¬ c.given.index? = some r.id := by simpa [c.index?_given] using hne
  simp [Store.insertBefore, hfind, named?_of_mem hr, hother, hcheck]

/-- A child is removed. -/
theorem removeChild_eq {p c : Handle} (hc : c.id ∈ s.childrenOf p.id) :
    s.removeChild p.given c.given = .ok (s.cut p.id c.id, []) := by
  obtain ⟨q, hq, htext⟩ := isElement_of_mem_childrenOf hc
  rw [childrenOf_eq hq] at hc
  have hfind : s.findElement p.given = .ok (p, q) := findElement_eq_ok.mpr ⟨rfl, hq, htext⟩
  simp [removeChild, hfind, named?_of_mem hc, cut]

/-- An insertion puts the item right before the first occurrence of the reference. -/
theorem insertBeforeIn_append {reference : NodeId} (item : NodeId) {before : List NodeId}
    (h : reference ∉ before) (after : List NodeId) :
    insertBeforeIn reference item (before ++ reference :: after) =
      before ++ item :: reference :: after := by
  induction before with
  | nil => simp [insertBeforeIn]
  | cons n ns ih =>
    have hn : n ≠ reference := fun heq => h (by simp [heq])
    have hns : reference ∉ ns := fun hmem => h (by simp [hmem])
    simp [insertBeforeIn, hn, ih hns]

end Store

end DocumentTree
