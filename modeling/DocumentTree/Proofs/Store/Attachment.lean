import DocumentTree.Proofs.Store.Forest

/-!
# Cutting and making links

A record is cut out of its parent by removing it from the children and clearing its link. It is
attached by cutting it out first and then linking it to the new parent, which must be an element
that does not lie below it. Both keep the forest.

## Main definitions

* `Store.cut` — a child taken out of its parent.
* `Store.Attachable` — what a record and its new parent must satisfy.
-/

namespace DocumentTree.Store

variable {s : Store}

/-! ## Cutting -/

/-- A child taken out of its parent. -/
def cut (s : Store) (p c : NodeId) : Store :=
  (s.setChildren p fun children => children.erase c).setLink c none

theorem detach_of_parent? {c p : NodeId} (h : s.parent? c = some p) : s.detach c = s.cut p c := by
  simp [detach, cut, h]

theorem detach_of_parent?_eq_none {c : NodeId} (h : s.parent? c = none) : s.detach c = s := by
  simp [detach, h]

@[simp] theorem size_cut (s : Store) (p c : NodeId) : (s.cut p c).size = s.size := by
  simp [cut]

theorem parent?_cut {p c : NodeId} (hc : c < s.size) (m : NodeId) :
    (s.cut p c).parent? m = if m = c then none else s.parent? m := by
  rw [cut, parent?_setLink (by simpa using hc)]
  simp

theorem childrenOf_cut {p : NodeId} (hp : s.IsElement p) (c m : NodeId) :
    (s.cut p c).childrenOf m =
      if m = p then (s.childrenOf p).erase c else s.childrenOf m := by
  rw [cut, childrenOf_setLink, childrenOf_setChildren hp]

theorem isElement_cut {p c m : NodeId} : (s.cut p c).IsElement m ↔ s.IsElement m := by
  simp [cut]

/-- Fewer parents leave fewer ancestors. -/
theorem Ancestor.mono {t : Store} (h : ∀ c p, t.parent? c = some p → s.parent? c = some p)
    {a n : NodeId} (ha : t.Ancestor a n) : s.Ancestor a n :=
  Relation.TransGen.mono h n a ha

theorem parent?_of_parent?_cut {p c : NodeId} (hc : c < s.size) {n q : NodeId}
    (h : (s.cut p c).parent? n = some q) : s.parent? n = some q := by
  rw [parent?_cut hc] at h
  by_cases hn : n = c <;> simp_all

theorem Forest.cut (H : s.Forest) {p c : NodeId} (h : s.parent? c = some p) :
    (s.cut p c).Forest := by
  have hc : c < s.size := lt_size_of_parent? h
  have hp : s.IsElement p := H.isElement_parent h
  refine ⟨?_, ?_, ?_⟩
  · intro q x
    rw [childrenOf_cut hp, parent?_cut hc]
    by_cases hx : x = c
    · subst hx
      by_cases hq : q = p
      · simpa [hq] using (H.nodup p).not_mem_erase
      · have : x ∉ s.childrenOf q := by
          intro hmem
          exact hq (Option.some.inj (((H.mem_childrenOf q x).mp hmem).symm.trans h))
        simpa [hq] using this
    · by_cases hq : q = p
      · subst hq
        rw [if_pos rfl, if_neg hx, List.mem_erase_of_ne hx]
        exact H.mem_childrenOf q x
      · rw [if_neg hq, if_neg hx]
        exact H.mem_childrenOf q x
  · intro q
    rw [childrenOf_cut hp]
    split
    · exact (H.nodup p).erase c
    · exact H.nodup q
  · intro n hn
    exact H.acyclic n (hn.mono fun _ _ => parent?_of_parent?_cut hc)

/-! ## Detaching -/

@[simp] theorem size_detach (s : Store) (c : NodeId) : (s.detach c).size = s.size := by
  cases h : s.parent? c with
  | none => rw [detach_of_parent?_eq_none h]
  | some p => rw [detach_of_parent? h, size_cut]

theorem parent?_detach (c m : NodeId) :
    (s.detach c).parent? m = if m = c then none else s.parent? m := by
  cases h : s.parent? c with
  | none =>
    rw [detach_of_parent?_eq_none h]
    split
    · rename_i hm
      rw [hm, h]
    · rfl
  | some p => rw [detach_of_parent? h, parent?_cut (lt_size_of_parent? h)]

theorem isElement_detach {c m : NodeId} : (s.detach c).IsElement m ↔ s.IsElement m := by
  cases h : s.parent? c with
  | none => rw [detach_of_parent?_eq_none h]
  | some p => rw [detach_of_parent? h, isElement_cut]

theorem Forest.detach (H : s.Forest) (c : NodeId) : (s.detach c).Forest := by
  cases h : s.parent? c with
  | none => rwa [detach_of_parent?_eq_none h]
  | some p =>
    rw [detach_of_parent? h]
    exact H.cut h

theorem ancestor_of_detach {c a n : NodeId} (h : (s.detach c).Ancestor a n) : s.Ancestor a n := by
  refine h.mono fun m p hm => ?_
  rw [parent?_detach] at hm
  by_cases hmc : m = c <;> simp_all

/-! ## Attaching -/

/-- What a record and its new parent must satisfy. -/
structure Attachable (s : Store) (parent child : NodeId) : Prop where
  /-- The parent is an element. -/
  element : s.IsElement parent
  /-- The record is known. -/
  known : child < s.size
  /-- The record is not its own parent. -/
  ne : child ≠ parent
  /-- The parent does not lie below the record. -/
  notAncestor : ¬ s.Ancestor child parent

/-- A record may be put under an element that is not the record and has no parent. -/
theorem Attachable.of_top {p c : NodeId} (hp : s.IsElement p) (htop : s.parent? p = none)
    (hc : c < s.size) (hne : c ≠ p) : s.Attachable p c where
  element := hp
  known := hc
  ne := hne
  notAncestor := not_ancestor_of_parent?_eq_none htop

theorem Attachable.detach {p c : NodeId} (h : s.Attachable p c) : (s.detach c).Attachable p c where
  element := isElement_detach.mpr h.element
  known := by simpa using h.known
  ne := h.ne
  notAncestor := fun ha => h.notAncestor (ancestor_of_detach ha)

/-- No way up leads from the parent to the record. -/
theorem Attachable.not_below {p c : NodeId} (h : s.Attachable p c) :
    ¬ Relation.ReflTransGen s.HangsOn p c := by
  intro hpc
  rcases Relation.reflTransGen_iff_eq_or_transGen.mp hpc with heq | hpc
  · exact h.ne heq
  · exact h.notAncestor hpc

/-- A link from a record without a parent to an element. -/
private theorem parent?_link {p c : NodeId} (hc : c < s.size)
    (place : List NodeId → List NodeId) {link : Link} (hlink : link.parent.id = p) (m : NodeId) :
    ((s.setChildren p place).setLink c (some link)).parent? m =
      if m = c then some p else s.parent? m := by
  rw [parent?_setLink (by simpa using hc), Option.map_some, hlink, parent?_setChildren]

/-- Above a new link from `c` to `p`, a way up is an old one, or an old one to `c` continued by an
old one from `p`. It cannot come back to `c`, since `p` does not lie below `c`. -/
private theorem way_up_of_link {t : Store} {p c : NodeId} (h : s.Attachable p c)
    (ht : ∀ m, t.parent? m = if m = c then some p else s.parent? m) {n a : NodeId}
    (ha : Relation.ReflTransGen t.HangsOn n a) :
    Relation.ReflTransGen s.HangsOn n a ∨
      Relation.ReflTransGen s.HangsOn n c ∧ Relation.ReflTransGen s.HangsOn p a := by
  induction ha with
  | refl => exact .inl .refl
  | @tail b a _ hba ih =>
    simp only [HangsOn, ht] at hba
    by_cases hb : b = c
    · subst hb
      have hap : p = a := by simpa using hba
      subst hap
      rcases ih with hnb | ⟨_, hpb⟩
      · exact .inr ⟨hnb, .refl⟩
      · exact absurd hpb h.not_below
    · rw [if_neg hb] at hba
      rcases ih with hnb | ⟨hnc, hpb⟩
      · exact .inl (hnb.tail hba)
      · exact .inr ⟨hnc, hpb.tail hba⟩

/-- Linking a record to an element that does not lie below it makes no loop. -/
private theorem acyclic_link {t : Store} (H : s.Forest) {p c : NodeId} (h : s.Attachable p c)
    (ht : ∀ m, t.parent? m = if m = c then some p else s.parent? m) (n : NodeId) :
    ¬ t.Ancestor n n := by
  intro hn
  obtain ⟨m, hnm, hmn⟩ := Relation.TransGen.head'_iff.mp hn
  simp only [HangsOn, ht] at hnm
  by_cases hnc : n = c
  · subst hnc
    have hmp : p = m := by simpa using hnm
    subst hmp
    rcases way_up_of_link h ht hmn with hpn | ⟨hpn, _⟩ <;> exact h.not_below hpn
  · rw [if_neg hnc] at hnm
    rcases way_up_of_link h ht hmn with hmn | ⟨hmc, hpn⟩
    · exact H.acyclic n (.head' hnm hmn)
    · exact h.not_below (hpn.trans (.head hnm hmc))

/-- **A record without a parent can be put among the children of an element** that does not lie
below it, at any place. -/
theorem Forest.link (H : s.Forest) {p c : NodeId} (h : s.Attachable p c)
    (htop : s.parent? c = none) {place : List NodeId → List NodeId}
    (hplace : (place (s.childrenOf p)).Perm (c :: s.childrenOf p)) {link : Link}
    (hlink : link.parent.id = p) :
    ((s.setChildren p place).setLink c (some link)).Forest := by
  have hparent := parent?_link h.known place hlink
  have hfresh : ∀ q, c ∉ s.childrenOf q := by
    intro q hmem
    simpa [htop] using (H.mem_childrenOf q c).mp hmem
  refine ⟨?_, ?_, acyclic_link H h hparent⟩
  · intro q x
    rw [childrenOf_setLink, childrenOf_setChildren h.element, hparent]
    by_cases hq : q = p
    · subst hq
      rw [if_pos rfl, hplace.mem_iff, List.mem_cons, H.mem_childrenOf]
      by_cases hx : x = c <;> simp [hx]
    · rw [if_neg hq]
      by_cases hx : x = c
      · subst hx
        simpa [Ne.symm hq] using hfresh q
      · rw [if_neg hx]
        exact H.mem_childrenOf q x
  · intro q
    rw [childrenOf_setLink, childrenOf_setChildren h.element]
    split
    · exact hplace.nodup_iff.mpr (List.nodup_cons.mpr ⟨hfresh p, H.nodup p⟩)
    · exact H.nodup q

/-- **Attaching keeps the forest**, wherever the record hung before. -/
theorem Forest.attach (H : s.Forest) {p c : Handle} (h : s.Attachable p.id c.id)
    {place : List NodeId → List NodeId}
    (hplace : ∀ ids, (place ids).Perm (c.id :: ids)) : (s.attach p c place).Forest :=
  (H.detach c.id).link h.detach (by simp [parent?_detach]) (hplace _) rfl

/-- Only the attached record gets another parent. -/
theorem parent?_attach {p c : Handle} (hc : c.id < s.size) (place : List NodeId → List NodeId)
    (m : NodeId) :
    (s.attach p c place).parent? m = if m = c.id then some p.id else s.parent? m := by
  rw [attach, parent?_link (p := p.id) (by simpa using hc) place rfl, parent?_detach]
  by_cases hm : m = c.id <;> simp [hm]

@[simp] theorem size_attach (s : Store) (p c : Handle) (place : List NodeId → List NodeId) :
    (s.attach p c place).size = s.size := by
  simp [attach]

theorem isElement_attach {p c : Handle} {place : List NodeId → List NodeId} {m : NodeId} :
    (s.attach p c place).IsElement m ↔ s.IsElement m := by
  rw [attach, isElement_setLink, isElement_setChildren, isElement_detach]

end DocumentTree.Store
