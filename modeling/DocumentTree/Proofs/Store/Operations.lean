import DocumentTree.Proofs.Outcome
import DocumentTree.Proofs.Store.Attachment

/-!
# Operations on a forest

Each operation that is not refused does one of a few things: it adds a record without links,
replaces the contents of one, attaches a record or cuts one out. What it has checked before is
stated with it. From this, every operation turns a forest into a forest and forgets no record.

## Main definitions

* `Store.Follows` — a forest that knows at least the records of another store.
-/

namespace DocumentTree

theorem Handle.given_of_ofValue? {v : Value} {h : Handle} (hv : Handle.ofValue? v = some h) :
    h.given = v := by
  unfold Handle.ofValue? at hv
  split at hv
  · cases hv
    rfl
  · cases hv

theorem Handle.isKey_given (h : Handle) : h.given.isKey = true := by
  have hid := h.index?_given
  cases hg : h.given <;> simp_all [Value.isKey, Value.key?, Value.index?]

namespace Store

variable {s t : Store}

/-! ## Finding records -/

/-- Finding gives the record that the value numbers. -/
theorem find_eq_ok {v : Value} {h : Handle} {r : Record} :
    s.find v = .ok (h, r) ↔ h.given = v ∧ s.get? h.id = some r := by
  constructor
  · intro hf
    unfold find at hf
    split at hf
    · split at hf
      · rename_i k hk
        split at hf
        · rename_i q hq
          cases hf
          exact ⟨Handle.given_of_ofValue? hk, hq⟩
        · cases hf
      · cases hf
    · cases hf
  · rintro ⟨rfl, hr⟩
    simp [find, Handle.isKey_given, hr]

theorem findElement_eq_ok {v : Value} {h : Handle} {r : Record} :
    s.findElement v = .ok (h, r) ↔
      h.given = v ∧ s.get? h.id = some r ∧ r.isText = false := by
  simp only [findElement, bind_eq_ok, Prod.exists, find_eq_ok]
  constructor
  · rintro ⟨k, q, ⟨hk, hq⟩, hrest⟩
    cases htext : q.isText with
    | true => simp [htext] at hrest
    | false =>
      simp only [htext, Bool.false_eq_true, if_false, pure_eq_ok] at hrest
      simp_all
  · rintro ⟨hk, hq, htext⟩
    exact ⟨h, r, ⟨hk, hq⟩, by simp [htext]⟩

theorem isElement_of_findElement {v : Value} {h : Handle} {r : Record}
    (hf : s.findElement v = .ok (h, r)) : s.IsElement h.id :=
  ⟨r, (findElement_eq_ok.mp hf).2⟩

/-- The element that a handle names, with its children. -/
theorem IsElement.findElement {p : Handle} (hp : s.IsElement p.id) :
    ∃ r, s.findElement p.given = .ok (p, r) ∧ r.children = s.childrenOf p.id := by
  obtain ⟨r, hr, htext⟩ := hp
  exact ⟨r, findElement_eq_ok.mpr ⟨rfl, hr, htext⟩, (childrenOf_eq hr).symm⟩

/-- The check before an attachment is exact. -/
theorem Forest.attachable_eq_ok (H : s.Forest) {p c : Handle} (hp : s.IsElement p.id)
    {child : Value} :
    s.attachable p child = .ok c ↔ c.given = child ∧ s.Attachable p.id c.id := by
  simp only [attachable, bind_eq_ok, Prod.exists, find_eq_ok]
  constructor
  · rintro ⟨k, q, ⟨hk, hq⟩, hrest⟩
    by_cases hne : k.id = p.id
    · simp [hne] at hrest
    · by_cases hanc : s.isAncestor k.id p.id
      · simp [hne, hanc] at hrest
      · simp only [hne, hanc, if_false, pure_eq_ok, Bool.false_eq_true] at hrest
        subst hrest
        exact ⟨hk, hp, lt_size_of_get? hq, hne, fun ha => hanc ((H.isAncestor_iff _ _).mpr ha)⟩
  · rintro ⟨hc, hat⟩
    obtain ⟨r, hr⟩ := lt_size_iff.mp hat.known
    have hanc : s.isAncestor c.id p.id = false := by
      simpa using fun ha => hat.notAncestor ((H.isAncestor_iff _ _).mp ha)
    exact ⟨c, r, ⟨hc, hr⟩, by simp [hat.ne, hanc]⟩

/-! ## What an operation has done -/

theorem createText_eq_ok {value : Value} {n : NodeId} (h : s.createText value = .ok (n, t)) :
    n = s.size ∧ ∃ text, t = s.push { content := .text text } := by
  cases value with
  | str text =>
    simp only [createText, Except.ok.injEq, Prod.mk.injEq] at h
    exact ⟨h.1.symm, text, h.2.symm⟩
  | _ => simp [createText] at h

theorem createElement_eq_ok {role properties : Value} {n : NodeId}
    (h : s.createElement role properties = .ok (n, t)) :
    n = s.size ∧ ∃ role properties, t = s.push { content := .element role properties [] } := by
  simp only [createElement, bind_eq_ok] at h
  obtain ⟨role, -, h⟩ := h
  split at h <;> simp only [bind_eq_ok, pure_eq_ok, Prod.mk.injEq] at h
  all_goals
    obtain ⟨entries, -, rfl, rfl⟩ := h
    exact ⟨rfl, role, entries, rfl⟩

/-- A record is appended exactly where it may be attached. -/
theorem Forest.appendChild_eq_ok_iff (H : s.Forest) {parent child : Value} :
    s.appendChild parent child = .ok t ↔
      ∃ p c : Handle, p.given = parent ∧ c.given = child ∧ s.Attachable p.id c.id ∧
        t = s.attach p c fun ids => ids ++ [c.id] := by
  constructor
  · intro h
    simp only [Store.appendChild, bind_eq_ok, pure_eq_ok, Prod.exists] at h
    obtain ⟨p, r, hp, c, hc, rfl⟩ := h
    obtain ⟨rfl, hat⟩ := (H.attachable_eq_ok (isElement_of_findElement hp)).mp hc
    exact ⟨p, c, (findElement_eq_ok.mp hp).1, rfl, hat, rfl⟩
  · rintro ⟨p, c, rfl, rfl, hat, rfl⟩
    obtain ⟨r, hr, -⟩ := hat.element.findElement
    have hc : s.attachable p c.given = .ok c := (H.attachable_eq_ok hat.element).mpr ⟨rfl, hat⟩
    simp [Store.appendChild, hr, hc]

theorem Forest.insertBefore_eq_ok (H : s.Forest) {parent child reference : Value}
    {notices : List StoreNotice} (h : s.insertBefore parent child reference = .ok (t, notices)) :
    t = s ∨ ∃ (p c : Handle) (n : NodeId), s.Attachable p.id c.id ∧
      t = s.attach p c (insertBeforeIn n c.id) := by
  simp only [insertBefore, bind_eq_ok, Prod.exists] at h
  obtain ⟨p, r, hp, h⟩ := h
  split at h
  · simp only [pure_eq_ok, Prod.mk.injEq] at h
    exact .inl h.1.symm
  · rename_i n _
    split at h
    · simp only [pure_eq_ok, Prod.mk.injEq] at h
      exact .inl h.1.symm
    · simp only [bind_eq_ok, pure_eq_ok, Prod.mk.injEq] at h
      obtain ⟨c, hc, rfl, -⟩ := h
      exact .inr ⟨p, c, n, ((H.attachable_eq_ok (isElement_of_findElement hp)).mp hc).2, rfl⟩

theorem named?_eq_some_iff {v : Value} {ids : List NodeId} {n : NodeId} :
    named? v ids = some n ↔ v.index? = some n ∧ n ∈ ids := by
  rw [named?, Option.filter_eq_some_iff, List.contains_iff_mem]

theorem removeChild_eq_ok {parent child : Value} {notices : List StoreNotice}
    (h : s.removeChild parent child = .ok (t, notices)) :
    t = s ∨ ∃ p c : NodeId, c ∈ s.childrenOf p ∧ t = s.cut p c := by
  simp only [removeChild, bind_eq_ok, Prod.exists] at h
  obtain ⟨p, r, hp, h⟩ := h
  split at h
  · simp only [pure_eq_ok, Prod.mk.injEq] at h
    exact .inl h.1.symm
  · rename_i c hc
    simp only [pure_eq_ok, Prod.mk.injEq] at h
    refine .inr ⟨p.id, c, ?_, h.1.symm⟩
    rw [childrenOf_eq (findElement_eq_ok.mp hp).2.1]
    exact (named?_eq_some_iff.mp hc).2

theorem updateText_eq_ok {handle value : Value} (h : s.updateText handle value = .ok t) :
    ∃ (n : NodeId) (r : Record) (text : String), s.get? n = some r ∧ r.isText = true ∧
      t = s.modify n fun r => { r with content := .text text } := by
  simp only [updateText, bind_eq_ok, Prod.exists, find_eq_ok] at h
  obtain ⟨k, r, ⟨-, hr⟩, h⟩ := h
  cases htext : r.isText with
  | false => simp [htext] at h
  | true =>
    cases value with
    | str text =>
      simp only [htext, Bool.not_true, Bool.false_eq_true, if_false, pure_eq_ok] at h
      exact ⟨k.id, r, text, hr, htext, h.symm⟩
    | _ => simp [htext] at h

theorem updateProperties_eq_ok {handle properties : Value}
    (h : s.updateProperties handle properties = .ok t) :
    ∃ (n : NodeId) (entries : Entries), t = s.modify n (withProperties entries) := by
  simp only [updateProperties, bind_eq_ok, pure_eq_ok, Prod.exists] at h
  obtain ⟨k, r, -, entries, -, rfl⟩ := h
  exact ⟨k.id, entries, rfl⟩

theorem setRole_eq_ok {handle role : Value} (h : s.setRole handle role = .ok t) :
    ∃ n : NodeId, t = s.modify n (withRole (.ofValue role)) := by
  simp only [setRole, bind_eq_ok, pure_eq_ok, Prod.exists] at h
  obtain ⟨k, r, -, rfl⟩ := h
  exact ⟨k.id, rfl⟩

/-! ## What an operation keeps -/

/-- The second store is a forest and knows at least the records of the first. -/
structure Follows (s t : Store) : Prop where
  /-- The links agree with each other. -/
  forest : t.Forest
  /-- No record is forgotten. -/
  size_le : s.size ≤ t.size

theorem Forest.follows (H : s.Forest) : s.Follows s := ⟨H, Nat.le_refl _⟩

theorem Forest.push (H : s.Forest) {r : Record} (hlink : r.link = none)
    (hchildren : r.children = []) : s.Follows (s.push r) where
  forest := H.congr (parent?_push hlink) (childrenOf_push hchildren)
  size_le := by simp

/-- New contents with the old links. -/
theorem Forest.modify (H : s.Forest) {n : NodeId} {f : Record → Record}
    (hlink : ∀ r, s.get? n = some r → (f r).link = r.link)
    (hchildren : ∀ r, s.get? n = some r → (f r).children = r.children) :
    s.Follows (s.modify n f) where
  forest := H.congr (parent?_modify hlink) (childrenOf_modify hchildren)
  size_le := by simp

theorem Forest.follows_attach (H : s.Forest) {p c : Handle} (h : s.Attachable p.id c.id)
    {place : List NodeId → List NodeId} (hplace : ∀ ids, (place ids).Perm (c.id :: ids)) :
    s.Follows (s.attach p c place) where
  forest := H.attach h hplace
  size_le := by simp

theorem Forest.createText (H : s.Forest) {value : Value} {n : NodeId}
    (h : s.createText value = .ok (n, t)) : s.Follows t := by
  obtain ⟨-, text, rfl⟩ := createText_eq_ok h
  exact H.push rfl rfl

theorem Forest.createElement (H : s.Forest) {role properties : Value} {n : NodeId}
    (h : s.createElement role properties = .ok (n, t)) : s.Follows t := by
  obtain ⟨-, role, properties, rfl⟩ := createElement_eq_ok h
  exact H.push rfl rfl

theorem Forest.appendChild (H : s.Forest) {parent child : Value}
    (h : s.appendChild parent child = .ok t) : s.Follows t := by
  obtain ⟨p, c, -, -, hat, rfl⟩ := H.appendChild_eq_ok_iff.mp h
  exact H.follows_attach hat fun ids => List.perm_append_singleton c.id ids

theorem Forest.insertBefore (H : s.Forest) {parent child reference : Value}
    {notices : List StoreNotice} (h : s.insertBefore parent child reference = .ok (t, notices)) :
    s.Follows t := by
  obtain rfl | ⟨p, c, n, hat, rfl⟩ := H.insertBefore_eq_ok h
  · exact H.follows
  · exact H.follows_attach hat (insertBeforeIn_perm n c.id)

theorem Forest.removeChild (H : s.Forest) {parent child : Value} {notices : List StoreNotice}
    (h : s.removeChild parent child = .ok (t, notices)) : s.Follows t := by
  obtain rfl | ⟨p, c, hc, rfl⟩ := removeChild_eq_ok h
  · exact H.follows
  · exact ⟨H.cut ((H.mem_childrenOf p c).mp hc), by simp⟩

theorem Forest.updateText (H : s.Forest) {handle value : Value}
    (h : s.updateText handle value = .ok t) : s.Follows t := by
  obtain ⟨n, r, text, hr, htext, rfl⟩ := updateText_eq_ok h
  refine H.modify (fun _ _ => rfl) fun q hq => ?_
  obtain rfl : r = q := Option.some.inj (hr.symm.trans hq)
  -- the record was a text before, so it had no children to lose
  cases hc : r.content <;> simp_all [Record.children, Record.isText]

theorem Forest.updateProperties (H : s.Forest) {handle properties : Value}
    (h : s.updateProperties handle properties = .ok t) : s.Follows t := by
  obtain ⟨n, entries, rfl⟩ := updateProperties_eq_ok h
  refine H.modify (fun r _ => ?_) fun r _ => ?_ <;>
    cases hc : r.content <;> simp [withProperties, hc, Record.children]

theorem Forest.setRole (H : s.Forest) {handle role : Value}
    (h : s.setRole handle role = .ok t) : s.Follows t := by
  obtain ⟨n, rfl⟩ := setRole_eq_ok h
  refine H.modify (fun r _ => ?_) fun r _ => ?_ <;>
    cases hc : r.content <;> simp [withRole, hc, Record.children]

end Store

end DocumentTree
