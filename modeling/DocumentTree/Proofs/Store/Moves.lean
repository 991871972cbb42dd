import DocumentTree.Proofs.Store.Calls

/-!
# What a move changes, and what it leaves alone

Appending, inserting and removing change the link of one record and the children of at most two
elements. Everything else stays: the other links, all roles, properties and texts, the records that
are not involved, and the subtree that moves.

A record is taken out of its old place before it gets a new one. In a forest this leaves every list
of children without the record, also the list that it is put back into. So a move within one
element, from another element and from nowhere are the same case.

## Main definitions

* `Store.link?` — how a record hangs on its parent.
* `Store.Frame` — only one record's link and the children of some elements have changed.
* `Store.Moved` — the frame of a record that has been given a parent.
-/

namespace DocumentTree

theorem Content.mapChildren_mapChildren (f g : List NodeId → List NodeId) (content : Content) :
    (content.mapChildren f).mapChildren g = content.mapChildren fun ids => g (f ids) := by
  cases content <;> rfl

namespace Store

variable {s t : Store}

/-- How a record hangs on its parent. -/
def link? (s : Store) (n : NodeId) : Option Link :=
  (s.get? n).bind Record.link

/-! ## A record is its content and its link -/

theorem get?_eq_of_content?_of_link? {n : NodeId} (hcontent : t.content? n = s.content? n)
    (hlink : t.link? n = s.link? n) : t.get? n = s.get? n := by
  unfold content? at hcontent
  unfold link? at hlink
  cases hs : s.get? n with
  | none => simpa [hs] using hcontent
  | some r =>
    cases ht : t.get? n with
    | none => simp [hs, ht] at hcontent
    | some q =>
      obtain ⟨content, link⟩ := r
      obtain ⟨content', link'⟩ := q
      simp_all

/-! ## Links after a change -/

theorem link?_setLink {n : NodeId} (hn : n < s.size) (link : Option Link) (m : NodeId) :
    (s.setLink n link).link? m = if m = n then link else s.link? m := by
  obtain ⟨r, hr⟩ := lt_size_iff.mp hn
  rw [link?, setLink, get?_modify, link?]
  by_cases hm : m = n
  · subst hm
    simp [hr]
  · simp [hm, Ne.symm hm]

@[simp] theorem link?_setChildren (s : Store) (n : NodeId) (f : List NodeId → List NodeId)
    (m : NodeId) : (s.setChildren n f).link? m = s.link? m := by
  have hlink : ∀ r : Record, (r.mapChildren f).link = r.link := by
    intro r
    unfold Record.mapChildren
    split <;> rfl
  rw [link?, setChildren, get?_modify, link?]
  cases s.get? m <;> split <;> simp [hlink]

theorem link?_detach (c m : NodeId) :
    (s.detach c).link? m = if m = c then none else s.link? m := by
  cases hc : s.parent? c with
  | some p =>
    rw [detach_of_parent? hc, cut, link?_setLink (by simpa using lt_size_of_parent? hc),
      link?_setChildren]
  | none =>
    rw [detach_of_parent?_eq_none hc]
    split
    · rename_i hm
      rw [parent?_eq_map, Option.map_eq_none_iff] at hc
      rw [hm, link?, hc]
    · rfl

theorem link?_attach {p c : Handle} (hc : c.id < s.size) (place : List NodeId → List NodeId)
    (m : NodeId) :
    (s.attach p c place).link? m = if m = c.id then some ⟨p, c.given⟩ else s.link? m := by
  rw [attach, link?_setLink (by simpa using hc), link?_setChildren, link?_detach]
  by_cases hm : m = c.id <;> simp [hm]

/-! ## Roles, properties and texts after a change -/

/-- What a record holds differs in its children only. -/
def KeepsKinds (s t : Store) : Prop :=
  ∀ n, ∃ f, t.content? n = (s.content? n).map (Content.mapChildren f)

theorem content?_eq_map_childrenOf (s : Store) (n : NodeId) :
    s.content? n = (s.content? n).map (Content.mapChildren fun _ => s.childrenOf n) := by
  unfold content? childrenOf Record.children
  cases s.get? n with
  | none => rfl
  | some r => cases hr : r.content <;> simp [Content.mapChildren, hr]

/-- The new children are those that the second store lists. -/
theorem KeepsKinds.content?_eq (h : s.KeepsKinds t) (n : NodeId) :
    t.content? n = (s.content? n).map (Content.mapChildren fun _ => t.childrenOf n) := by
  obtain ⟨f, hf⟩ := h n
  have ht := t.content?_eq_map_childrenOf n
  rw [hf, Option.map_map] at ht
  rw [hf, ht]
  congr 1
  funext content
  exact content.mapChildren_mapChildren f _

theorem KeepsKinds.refl (s : Store) : s.KeepsKinds s :=
  fun n => ⟨_, s.content?_eq_map_childrenOf n⟩

theorem KeepsKinds.trans {u : Store} (h : s.KeepsKinds t) (h' : t.KeepsKinds u) :
    s.KeepsKinds u := by
  intro n
  obtain ⟨f, hf⟩ := h n
  obtain ⟨g, hg⟩ := h' n
  refine ⟨fun ids => g (f ids), ?_⟩
  rw [hg, hf, Option.map_map]
  congr 1
  funext content
  exact content.mapChildren_mapChildren f g

theorem keepsKinds_setLink (s : Store) (n : NodeId) (link : Option Link) :
    s.KeepsKinds (s.setLink n link) := by
  intro m
  rw [content?_setLink]
  exact KeepsKinds.refl s m

theorem keepsKinds_setChildren (s : Store) (n : NodeId) (f : List NodeId → List NodeId) :
    s.KeepsKinds (s.setChildren n f) := by
  intro m
  rw [content?_setChildren]
  split
  · exact ⟨f, rfl⟩
  · exact KeepsKinds.refl s m

theorem keepsKinds_detach (s : Store) (c : NodeId) : s.KeepsKinds (s.detach c) := by
  cases hc : s.parent? c with
  | none => rw [detach_of_parent?_eq_none hc]; exact .refl s
  | some p =>
    rw [detach_of_parent? hc, cut]
    exact (keepsKinds_setChildren s p _).trans (keepsKinds_setLink _ c none)

theorem keepsKinds_attach (s : Store) (p c : Handle) (place : List NodeId → List NodeId) :
    s.KeepsKinds (s.attach p c place) :=
  ((keepsKinds_detach s c.id).trans (keepsKinds_setChildren _ p.id place)).trans
    (keepsKinds_setLink _ c.id (some ⟨p, c.given⟩))

/-! ## Children after a change -/

/-- A list of children in which a record does not occur is the list without it. -/
theorem filter_ne_eq_self {c : NodeId} {ids : List NodeId} (h : c ∉ ids) :
    ids.filter (· != c) = ids := by
  refine List.filter_eq_self.mpr fun x hx => ?_
  simpa using fun heq : x = c => h (heq ▸ hx)

/-- **Detaching leaves every list of children without the record.** -/
theorem Forest.childrenOf_detach (H : s.Forest) (c m : NodeId) :
    (s.detach c).childrenOf m = (s.childrenOf m).filter (· != c) := by
  cases hc : s.parent? c with
  | none =>
    rw [detach_of_parent?_eq_none hc, filter_ne_eq_self]
    simp [H.mem_childrenOf, hc]
  | some p =>
    rw [detach_of_parent? hc, childrenOf_cut (H.isElement_parent hc)]
    split
    · rename_i hm
      rw [hm, (H.nodup p).erase_eq_filter]
    · rename_i hm
      rw [filter_ne_eq_self]
      simpa [H.mem_childrenOf, hc] using Ne.symm hm

/-- **Attaching puts the record into the list of its new parent**, and leaves the others without
it. -/
theorem Forest.childrenOf_attach (H : s.Forest) {p : Handle} (hp : s.IsElement p.id) (c : Handle)
    (place : List NodeId → List NodeId) (m : NodeId) :
    (s.attach p c place).childrenOf m =
      if m = p.id then place ((s.childrenOf p.id).filter (· != c.id))
      else (s.childrenOf m).filter (· != c.id) := by
  rw [Store.attach, childrenOf_setLink, childrenOf_setChildren (isElement_detach.mpr hp),
    H.childrenOf_detach, H.childrenOf_detach]

/-! ## Subtrees that a change does not reach -/

/-- A subtree is read off the contents, level by level. -/
theorem subtreeWithin_succ (s : Store) (depth : Nat) (given : Value) (n : NodeId) :
    s.subtreeWithin (depth + 1) given n =
      match s.content? n with
      | none => none
      | some (.text value) => some (.text given value)
      | some (.element role properties ids) =>
        (ids.mapM fun c => s.subtreeWithin depth (s.shown c) c).map
          (.element given role properties) := by
  rw [subtreeWithin, content?]
  cases s.get? n with
  | none => rfl
  | some r =>
    cases hr : r.content with
    | text value => simp [hr]
    | element role properties ids =>
      cases hids : ids.mapM fun c => s.subtreeWithin depth (s.shown c) c <;> simp [hr, hids]

theorem mapM_congr {α β : Type} {f g : α → Option β} {xs : List α} (h : ∀ x ∈ xs, f x = g x) :
    xs.mapM f = xs.mapM g := by
  induction xs with
  | nil => rfl
  | cons x xs ih =>
    rw [List.mapM_cons, List.mapM_cons, h x (by simp), ih fun y hy => h y (by simp [hy])]

/-- A subtree is the same in two stores if what it can reach holds the same, and hangs as it did
below the top. -/
theorem subtreeWithin_congr (kept : NodeId → Prop)
    (hclosed : ∀ m d, kept m → d ∈ s.childrenOf m → kept d ∧ t.link? d = s.link? d)
    (hsame : ∀ m, kept m → t.content? m = s.content? m) (depth : Nat) (given : Value)
    {n : NodeId} (hn : kept n) : t.subtreeWithin depth given n = s.subtreeWithin depth given n := by
  induction depth generalizing given n with
  | zero => rfl
  | succ depth ih =>
    rw [subtreeWithin_succ, subtreeWithin_succ, hsame n hn]
    cases hcontent : s.content? n with
    | none => rfl
    | some content =>
      cases content with
      | text value => rfl
      | element role properties ids =>
        refine congrArg (Option.map _) (mapM_congr fun d hd => ?_)
        rw [← childrenOf_of_content? hcontent] at hd
        obtain ⟨hkept, hlink⟩ := hclosed n d hn hd
        have hshown : t.shown d = s.shown d := by
          unfold link? at hlink
          rw [shown, shown, hlink]
        rw [hshown, ih _ hkept]

/-! ## Frames -/

/-- Only one record's link and the children of some elements have changed. -/
structure Frame (s t : Store) (c : NodeId) (touched : NodeId → Prop) : Prop where
  /-- No record is added or forgotten. -/
  size : t.size = s.size
  /-- The other records hang where they hung. -/
  links : ∀ n, n ≠ c → t.link? n = s.link? n
  /-- Roles, properties and texts are kept; what a record holds differs in its children at most. -/
  contents : ∀ n,
    t.content? n = (s.content? n).map (Content.mapChildren fun _ => t.childrenOf n)
  /-- The record holds what it held. -/
  held : t.content? c = s.content? c
  /-- The records that are not involved are what they were. -/
  records : ∀ n, n ≠ c → ¬ touched n → t.get? n = s.get? n
  /-- The subtree of the record is what it was. -/
  subtree : ∀ h : Handle, h.id = c → t.subtree? h = s.subtree? h

/-- A change has a frame if it touches no element of the subtree of the record. -/
theorem Forest.frame (H : s.Forest) {c : NodeId} {touched : NodeId → Prop}
    (hsize : t.size = s.size) (hlinks : ∀ n, n ≠ c → t.link? n = s.link? n)
    (hkinds : s.KeepsKinds t) (hchildren : ∀ n, ¬ touched n → t.childrenOf n = s.childrenOf n)
    (hoff : ∀ n, touched n → n ≠ c ∧ ¬ s.Ancestor c n) : s.Frame t c touched := by
  have hcontent : ∀ n, ¬ touched n → t.content? n = s.content? n := by
    intro n hn
    rw [hkinds.content?_eq, hchildren n hn, ← content?_eq_map_childrenOf]
  refine ⟨hsize, hlinks, hkinds.content?_eq, ?_, ?_, ?_⟩
  · exact hcontent c fun htouched => (hoff c htouched).1 rfl
  · exact fun n hne hn => get?_eq_of_content?_of_link? (hcontent n hn) (hlinks n hne)
  · rintro h rfl
    have hbelow : ∀ m d, m = h.id ∨ s.Ancestor h.id m → d ∈ s.childrenOf m →
        s.Ancestor h.id d := by
      intro m d hm hd
      have hdm : s.parent? d = some m := (H.mem_childrenOf m d).mp hd
      rcases hm with rfl | hm
      · exact .single hdm
      · exact .head hdm hm
    rw [subtree?, subtree?, hsize]
    refine subtreeWithin_congr (fun m => m = h.id ∨ s.Ancestor h.id m) ?_ ?_ _ _ (.inl rfl)
    · intro m d hm hd
      have hanc := hbelow m d hm hd
      refine ⟨.inr hanc, hlinks d ?_⟩
      rintro rfl
      exact H.acyclic _ hanc
    · intro m hm
      refine hcontent m fun htouched => ?_
      obtain ⟨hne, hanc⟩ := hoff m htouched
      exact hm.elim hne hanc

/-- A record has been given a parent. -/
structure Moved (s t : Store) (p c : Handle) : Prop where
  /-- The record hangs on its new parent. -/
  link : t.link? c.id = some ⟨p, c.given⟩
  /-- The previous parent, if it is another one, keeps its other children in order. -/
  left : ∀ q, s.parent? c.id = some q → q ≠ p.id →
    t.childrenOf q = (s.childrenOf q).filter (· != c.id)
  /-- Besides, only the children of the new parent have changed. -/
  frame : s.Frame t c.id fun n => n = p.id ∨ s.parent? c.id = some n

/-- A record has no ancestor below itself. -/
theorem Forest.off_subtree (H : s.Forest) {c q : NodeId} (h : s.parent? c = some q) :
    q ≠ c ∧ ¬ s.Ancestor c q := by
  constructor
  · rintro rfl
    exact H.acyclic q (.single h)
  · exact fun hanc => H.acyclic c (.head h hanc)

/-- **What an attachment does.** -/
theorem Forest.moved_attach (H : s.Forest) {p c : Handle} (h : s.Attachable p.id c.id)
    (place : List NodeId → List NodeId) : s.Moved (s.attach p c place) p c where
  link := by rw [link?_attach h.known, if_pos rfl]
  left := by
    intro q hq hne
    rw [H.childrenOf_attach h.element, if_neg hne]
  frame := by
    refine H.frame (size_attach s p c place) ?_ (keepsKinds_attach s p c place) ?_ ?_
    · intro n hn
      rw [link?_attach h.known, if_neg hn]
    · intro n hn
      obtain ⟨hnp, hparent⟩ := not_or.mp hn
      rw [H.childrenOf_attach h.element, if_neg hnp, filter_ne_eq_self]
      rwa [H.mem_childrenOf]
    · rintro n (rfl | hparent)
      · exact ⟨h.ne.symm, h.notAncestor⟩
      · exact H.off_subtree hparent

/-- **What a detachment does.** -/
theorem Forest.frame_detach (H : s.Forest) {p c : NodeId} (h : s.parent? c = some p) :
    s.Frame (s.detach c) c fun n => n = p := by
  refine H.frame (size_detach s c) ?_ (keepsKinds_detach s c) ?_ ?_
  · intro n hn
    rw [link?_detach, if_neg hn]
  · intro n hn
    rw [H.childrenOf_detach, filter_ne_eq_self]
    simpa [H.mem_childrenOf, h] using Ne.symm hn
  · rintro n rfl
    exact H.off_subtree h

/-! ## The operations -/

/-- A child that is taken out of its parent is detached. -/
theorem Forest.cut_eq_detach (H : s.Forest) {p c : NodeId} (h : c ∈ s.childrenOf p) :
    s.cut p c = s.detach c :=
  (detach_of_parent? ((H.mem_childrenOf p c).mp h)).symm

theorem Forest.moved_appendChild (H : s.Forest) {parent child : Value}
    (h : s.appendChild parent child = .ok t) :
    ∃ p c : Handle, p.given = parent ∧ c.given = child ∧ s.Moved t p c ∧
      t.childrenOf p.id = (s.childrenOf p.id).filter (· != c.id) ++ [c.id] := by
  obtain ⟨p, c, hp, hc, hat, rfl⟩ := H.appendChild_eq_ok_iff.mp h
  refine ⟨p, c, hp, hc, H.moved_attach hat _, ?_⟩
  rw [H.childrenOf_attach hat.element, if_pos rfl]

/-- An insertion before a child moves the record right before it. -/
theorem Forest.moved_insertBefore (H : s.Forest) {p : Handle} (hp : s.IsElement p.id)
    {child reference : Value} {notices : List StoreNotice}
    (h : s.insertBefore p.given child reference = .ok (t, notices)) {r : NodeId}
    (hr : reference.index? = some r) (hmem : r ∈ s.childrenOf p.id)
    (hne : child.index? ≠ some r) :
    ∃ c : Handle, c.given = child ∧ s.Moved t p c ∧
      ∃ before after, (s.childrenOf p.id).filter (· != c.id) = before ++ r :: after ∧
        t.childrenOf p.id = before ++ c.id :: r :: after := by
  rw [hp.insertBefore_eq, named?_eq_some_iff.mpr ⟨hr, hmem⟩] at h
  simp only [if_neg hne, bind_eq_ok, pure_eq_ok, Prod.mk.injEq] at h
  obtain ⟨c, hc, rfl, -⟩ := h
  obtain ⟨rfl, hat⟩ := (H.attachable_eq_ok hp).mp hc
  have hrc : r ≠ c.id := fun heq => hne (by rw [c.index?_given, heq])
  -- the reference is still there when the record has been taken out
  have hstays : r ∈ (s.childrenOf p.id).filter (· != c.id) := by
    simpa using ⟨hmem, hrc⟩
  obtain ⟨before, after, hsplit, hfirst⟩ := List.eq_append_cons_of_mem hstays
  refine ⟨c, rfl, H.moved_attach hat _, before, after, hsplit, ?_⟩
  rw [H.childrenOf_attach hp, if_pos rfl, hsplit, insertBeforeIn_append c.id hfirst]

/-- An insertion before what is no child, or before the record itself, changes nothing. -/
theorem insertBefore_eq_self {p : Handle} (hp : s.IsElement p.id) {child reference : Value}
    {notices : List StoreNotice}
    (h : s.insertBefore p.given child reference = .ok (t, notices))
    (hno : ∀ r, reference.index? = some r → r ∈ s.childrenOf p.id → child.index? = some r) :
    t = s := by
  rw [hp.insertBefore_eq] at h
  cases hnamed : named? reference (s.childrenOf p.id) with
  | none =>
    simp only [hnamed, Except.ok.injEq, Prod.mk.injEq] at h
    exact h.1.symm
  | some r =>
    obtain ⟨hr, hmem⟩ := named?_eq_some_iff.mp hnamed
    simp only [hnamed, if_pos (hno r hr hmem), Except.ok.injEq, Prod.mk.injEq] at h
    exact h.1.symm

/-- A removal of a child detaches it. -/
theorem Forest.frame_removeChild (H : s.Forest) {p : Handle} (hp : s.IsElement p.id)
    {child : Value} {notices : List StoreNotice}
    (h : s.removeChild p.given child = .ok (t, notices)) {c : NodeId}
    (hc : child.index? = some c) (hmem : c ∈ s.childrenOf p.id) :
    t.link? c = none ∧ t.childrenOf p.id = (s.childrenOf p.id).filter (· != c) ∧
      s.Frame t c fun n => n = p.id := by
  rw [hp.removeChild_eq, named?_eq_some_iff.mpr ⟨hc, hmem⟩] at h
  simp only [Except.ok.injEq, Prod.mk.injEq] at h
  obtain ⟨rfl, -⟩ := h
  rw [H.cut_eq_detach hmem]
  exact ⟨by rw [link?_detach, if_pos rfl], H.childrenOf_detach c p.id,
    H.frame_detach ((H.mem_childrenOf p.id c).mp hmem)⟩

/-- A removal of what is no child changes nothing. -/
theorem removeChild_eq_self {p : Handle} (hp : s.IsElement p.id) {child : Value}
    {notices : List StoreNotice} (h : s.removeChild p.given child = .ok (t, notices))
    (hno : ∀ c, child.index? = some c → c ∉ s.childrenOf p.id) : t = s := by
  rw [hp.removeChild_eq, named?_eq_none_iff.mpr hno] at h
  simp only [Except.ok.injEq, Prod.mk.injEq] at h
  exact h.1.symm

end Store

/-- **What a call that succeeds changes, and that it changes nothing else.** After any run of
operations and for any handles: appending makes the children of the parent what they were without
the record, and the record after them; inserting puts the record right before the reference; and
removing leaves the children without the record, which then has no parent. An insertion without the
reference among the children, or before the record itself, and a removal of what is no child leave
the store as it is. It does not matter where the record hung before, in the same element or in
another one: the frame says what else has changed. -/
theorem calls_change_links_only (operations : List Operation) :
    let s := (Container.run operations).store
    (∀ parent child t, s.appendChild parent child = .ok t →
      ∃ p c : Handle, p.given = parent ∧ c.given = child ∧ s.Moved t p c ∧
        t.childrenOf p.id = (s.childrenOf p.id).filter (· != c.id) ++ [c.id]) ∧
    (∀ parent child reference t notices,
      s.insertBefore parent child reference = .ok (t, notices) →
      ∃ p : Handle, p.given = parent ∧
        ((∀ r, reference.index? = some r → r ∈ s.childrenOf p.id → child.index? = some r) →
          t = s) ∧
        ∀ r, reference.index? = some r → r ∈ s.childrenOf p.id → child.index? ≠ some r →
          ∃ c : Handle, c.given = child ∧ s.Moved t p c ∧
            ∃ before after, (s.childrenOf p.id).filter (· != c.id) = before ++ r :: after ∧
              t.childrenOf p.id = before ++ c.id :: r :: after) ∧
    ∀ parent child t notices, s.removeChild parent child = .ok (t, notices) →
      ∃ p : Handle, p.given = parent ∧
        ((∀ c, child.index? = some c → c ∉ s.childrenOf p.id) → t = s) ∧
        ∀ c, child.index? = some c → c ∈ s.childrenOf p.id →
          t.link? c = none ∧ t.childrenOf p.id = (s.childrenOf p.id).filter (· != c) ∧
            s.Frame t c fun n => n = p.id := by
  intro s
  have H : s.Forest := (Container.consistent_run operations).forest
  refine ⟨fun _ _ _ h => H.moved_appendChild h, ?_, ?_⟩
  · intro parent child reference t notices h
    obtain ⟨p, rfl, hp⟩ := (Store.namesElement_of_insertBefore h).exists_handle
    exact ⟨p, rfl, Store.insertBefore_eq_self hp h,
      fun r hr hmem hne => H.moved_insertBefore hp h hr hmem hne⟩
  · intro parent child t notices h
    obtain ⟨p, rfl, hp⟩ := (Store.namesElement_of_removeChild h).exists_handle
    exact ⟨p, rfl, Store.removeChild_eq_self hp h,
      fun c hc hmem => H.frame_removeChild hp h hc hmem⟩

/-- An element with three texts. -/
def threeTexts : List Operation :=
  [.createElement (.str "paragraph") .null, .createText (.str "a"), .createText (.str "b"),
    .createText (.str "c"), .appendChild (.int 0) (.int 1), .appendChild (.int 0) (.int 2),
    .appendChild (.int 0) (.int 3)]

/-- Within one element, the last child goes before the first one, and the first one to the end. -/
theorem reordering_changes_links_only :
    let s := (Container.run threeTexts).store
    s.childrenOf 0 = [1, 2, 3] ∧
    (∃ t, s.insertBefore (.int 0) (.int 3) (.int 1) = .ok (t, []) ∧
      t.childrenOf 0 = [3, 1, 2] ∧ s.Moved t (.ofId 0) (.ofId 3)) ∧
    ∃ t, s.appendChild (.int 0) (.int 1) = .ok t ∧
      t.childrenOf 0 = [2, 3, 1] ∧ s.Moved t (.ofId 0) (.ofId 1) := by
  obtain ⟨happend, hinsert, -⟩ := calls_change_links_only threeTexts
  refine ⟨rfl, ⟨_, rfl, rfl, ?_⟩, ⟨_, rfl, rfl, ?_⟩⟩
  · obtain ⟨p, hp, -, hmoves⟩ := hinsert (.int 0) (.int 3) (.int 1) _ _ rfl
    obtain rfl : p = .ofId 0 := Handle.eq_of_given_eq hp
    have hmem : 1 ∈ (Container.run threeTexts).store.childrenOf 0 := by decide +kernel
    obtain ⟨c, hc, hmoved, -⟩ := hmoves 1 rfl hmem (by decide)
    obtain rfl : c = .ofId 3 := Handle.eq_of_given_eq hc
    exact hmoved
  · obtain ⟨p, c, hp, hc, hmoved, -⟩ := happend (.int 0) (.int 1) _ rfl
    obtain rfl : p = .ofId 0 := Handle.eq_of_given_eq hp
    obtain rfl : c = .ofId 1 := Handle.eq_of_given_eq hc
    exact hmoved

end DocumentTree
