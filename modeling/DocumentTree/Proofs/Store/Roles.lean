import DocumentTree.Proofs.Store.Moves

/-!
# The roles that records can have

An element is created with a role of the vocabulary, and from then on only an overwriting of its
role changes it. So if a property holds of the vocabulary and of every role that a run writes, it
holds of the role of every record after the run.

## Main definitions

* `Operation.Writes` — a property of the role that an operation writes, if it writes one.
* `Store.RolesAre` — a property of the roles of all records.
* `Act.Preserves` — steps that keep a property of the store, refused or not.
-/

namespace DocumentTree

/-- The role that the operation writes, if it writes one, has a property. -/
def Operation.Writes (P : Role → Prop) : Operation → Prop
  | .setRole _ role => P (Role.ofValue role)
  | _ => True

/-- The role of the content, if it has one, has a property. -/
def Content.RoleIs (P : Role → Prop) : Content → Prop
  | .text _ => True
  | .element role _ _ => P role

/-- The role of each record that has one has a property. -/
def Store.RolesAre (P : Role → Prop) (s : Store) : Prop :=
  ∀ n content, s.content? n = some content → content.RoleIs P

variable {P : Role → Prop}

/-! ## Changes of records -/

namespace Store

variable {s t : Store}

theorem rolesAre_empty : ({} : Store).RolesAre P := by
  intro n content h
  simp [content?, get?] at h

theorem RolesAre.push (H : s.RolesAre P) {r : Record} (hr : r.content.RoleIs P) :
    (s.push r).RolesAre P := by
  intro n content h
  rw [content?, get?_push] at h
  split at h
  · obtain rfl := Option.some.inj h
    exact hr
  · exact H n content h

/-- It is enough that the record's new content has the property when the old one has. -/
theorem RolesAre.modify (H : s.RolesAre P) {n : NodeId} {f : Record → Record}
    (hf : ∀ r : Record, r.content.RoleIs P → (f r).content.RoleIs P) :
    (s.modify n f).RolesAre P := by
  intro m content h
  rw [content?, get?_modify] at h
  split at h
  · simp only [Option.map_map, Option.map_eq_some_iff, Function.comp_apply] at h
    obtain ⟨r, hr, rfl⟩ := h
    exact hf r (H m r.content (by rw [content?, hr]; rfl))
  · exact H m content h

/-- Roles do not depend on links. -/
theorem RolesAre.keepsKinds (H : s.RolesAre P) (h : s.KeepsKinds t) : t.RolesAre P := by
  intro n content hcontent
  obtain ⟨f, hf⟩ := h n
  rw [hf, Option.map_eq_some_iff] at hcontent
  obtain ⟨old, hold, rfl⟩ := hcontent
  have hrole := H n old hold
  cases old <;> exact hrole

/-! ## The operations on a store -/

theorem RolesAre.createText (H : s.RolesAre P) {value : Value} {n : NodeId}
    (h : s.createText value = .ok (n, t)) : t.RolesAre P := by
  obtain ⟨-, text, rfl⟩ := createText_eq_ok h
  exact H.push trivial

/-- A new element has a role of the vocabulary. -/
theorem RolesAre.createElement (H : s.RolesAre P) (hP : ∀ role : Role, role.isKnown → P role)
    {role properties : Value} {n : NodeId} (h : s.createElement role properties = .ok (n, t)) :
    t.RolesAre P := by
  simp only [Store.createElement, bind_eq_ok] at h
  obtain ⟨known, hknown, h⟩ := h
  have hpush : ∃ entries, t = s.push { content := .element known entries [] } := by
    split at h <;> simp only [bind_eq_ok, pure_eq_ok, Prod.mk.injEq] at h
    all_goals
      obtain ⟨entries, -, -, rfl⟩ := h
      exact ⟨entries, rfl⟩
  obtain ⟨entries, rfl⟩ := hpush
  unfold knownRole at hknown
  split at hknown
  · rename_i hrole
    obtain rfl := Except.ok.inj hknown
    exact H.push (hP _ hrole)
  · cases hknown

theorem RolesAre.appendChild (H : s.RolesAre P) {parent child : Value}
    (h : s.appendChild parent child = .ok t) : t.RolesAre P := by
  simp only [Store.appendChild, bind_eq_ok, pure_eq_ok, Prod.exists] at h
  obtain ⟨p, r, -, c, -, rfl⟩ := h
  exact H.keepsKinds (keepsKinds_attach s p c _)

theorem RolesAre.insertBefore (H : s.RolesAre P) {parent child reference : Value}
    {notices : List StoreNotice} (h : s.insertBefore parent child reference = .ok (t, notices)) :
    t.RolesAre P := by
  simp only [Store.insertBefore, bind_eq_ok, Prod.exists] at h
  obtain ⟨p, r, -, h⟩ := h
  split at h
  · simp only [pure_eq_ok, Prod.mk.injEq] at h
    exact h.1 ▸ H
  · split at h
    · simp only [pure_eq_ok, Prod.mk.injEq] at h
      exact h.1 ▸ H
    · simp only [bind_eq_ok, pure_eq_ok, Prod.mk.injEq] at h
      obtain ⟨c, -, rfl, -⟩ := h
      exact H.keepsKinds (keepsKinds_attach s p c _)

theorem RolesAre.removeChild (H : s.RolesAre P) {parent child : Value}
    {notices : List StoreNotice} (h : s.removeChild parent child = .ok (t, notices)) :
    t.RolesAre P := by
  obtain rfl | ⟨p, c, -, rfl⟩ := removeChild_eq_ok h
  · exact H
  · exact H.keepsKinds
      ((keepsKinds_setChildren s p _).trans (keepsKinds_setLink _ c none))

theorem RolesAre.updateText (H : s.RolesAre P) {handle value : Value}
    (h : s.updateText handle value = .ok t) : t.RolesAre P := by
  obtain ⟨n, r, text, -, -, rfl⟩ := updateText_eq_ok h
  exact H.modify fun _ _ => trivial

theorem RolesAre.updateProperties (H : s.RolesAre P) {handle properties : Value}
    (h : s.updateProperties handle properties = .ok t) : t.RolesAre P := by
  obtain ⟨n, entries, rfl⟩ := updateProperties_eq_ok h
  refine H.modify fun r hr => ?_
  cases hc : r.content <;> simp_all [withProperties, Content.RoleIs]

/-- The role that is written has to have the property. -/
theorem RolesAre.setRole (H : s.RolesAre P) {handle role : Value} (hrole : P (Role.ofValue role))
    (h : s.setRole handle role = .ok t) : t.RolesAre P := by
  obtain ⟨n, rfl⟩ := setRole_eq_ok h
  refine H.modify fun r _ => ?_
  cases hc : r.content <;> simp_all [withRole, Content.RoleIs]

end Store

/-! ## Steps on a container -/

namespace Act

variable {α β : Type} {I : Store → Prop}

/-- A property of the store still holds after the steps, refused or not. -/
def Preserves (I : Store → Prop) (x : Act α) : Prop :=
  ∀ c : Container, I c.store → I (x c).after.store

theorem Preserves.bind {x : Act α} {f : α → Act β} (hx : Preserves I x)
    (hf : ∀ a, Preserves I (f a)) : Preserves I (x >>= f) := by
  intro c H
  have H₁ := hx c H
  cases hr : (x c).result with
  | error e =>
    rw [bind_of_error hr]
    exact H₁
  | ok a =>
    rw [bind_of_ok hr]
    exact hf a (x c).after H₁

theorem Preserves.pure (a : α) : Preserves I (pure a : Act α) := fun _ H => H

theorem Preserves.report (notice : StoreNotice) : Preserves I (report notice) := fun _ H => H

theorem Preserves.ask (f : Store → Except StoreError α) : Preserves I (ask f) := fun _ H => H

/-- The root and the index are beside the store. -/
theorem Preserves.change {f : Container → Container} (hf : ∀ c, (f c).store = c.store) :
    Preserves I (change f) := by
  intro c H
  rw [Act.change, hf]
  exact H

theorem Preserves.onStore {f : Store → Except StoreError (α × Store)}
    (hf : ∀ s a t, I s → f s = .ok (a, t) → I t) : Preserves I (onStore f) := by
  intro c H
  unfold Act.onStore
  cases hs : f c.store with
  | error e => exact H
  | ok result => exact hf c.store result.1 result.2 H hs

theorem Preserves.onStore_ {f : Store → Except StoreError Store}
    (hf : ∀ s t, I s → f s = .ok t → I t) : Preserves I (onStore_ f) := by
  apply Preserves.onStore
  intro s a t H h
  cases hs : f s with
  | error e => simp [hs, Except.map] at h
  | ok u =>
    have hut : u = t := by simpa [hs, Except.map] using h
    exact hf s t H (hut ▸ hs)

theorem Preserves.onStoreReporting {f : Store → Except StoreError (Store × List StoreNotice)}
    (hf : ∀ s t notices, I s → f s = .ok (t, notices) → I t) :
    Preserves I (onStoreReporting f) := by
  intro c H
  unfold Act.onStoreReporting
  cases hs : f c.store with
  | error e => exact H
  | ok result => exact hf c.store result.1 result.2 H hs

end Act

/-! ## The operations on a container -/

namespace Container

open Act (Preserves)

theorem preserves_appendChild (parent child : Value) :
    Preserves (Store.RolesAre P) (Act.onStore_ fun s => s.appendChild parent child) :=
  Preserves.onStore_ fun _ _ H h => H.appendChild h

section

variable (hP : ∀ role : Role, role.isKnown → P role)

include hP

theorem preserves_newRoot : Preserves (Store.RolesAre P) newRoot :=
  (Preserves.onStore fun _ _ _ H h => H.createElement hP h).bind fun _ => .pure _

theorem preserves_link (node : Value) : Preserves (Store.RolesAre P) (link node) := by
  intro c H
  unfold link
  split
  · refine ((Preserves.ask _).bind fun found => ?_) c H
    exact .change fun _ => rfl
  · rename_i root _
    split
    · exact preserves_appendChild root.given node c H
    · refine ((preserves_newRoot hP).bind fun wrapper => ?_) c H
      refine (preserves_appendChild wrapper.given root.given).bind fun _ => ?_
      refine (preserves_appendChild wrapper.given node).bind fun _ => ?_
      exact (Preserves.change fun _ => rfl).bind fun _ => .report (.wrapped wrapper.id)

theorem preserves_append (node : Value) : Preserves (Store.RolesAre P) (append node) := by
  refine (preserves_link hP node).bind fun _ => (Preserves.ask _).bind fun found => ?_
  exact .change fun _ => rfl

theorem preserves_clear : Preserves (Store.RolesAre P) clear := by
  refine (preserves_newRoot hP).bind fun root => ?_
  exact .change fun _ => rfl

end

theorem preserves_insertBefore (node reference : Value) :
    Preserves (Store.RolesAre P) (insertBefore node reference) := by
  intro c H
  unfold insertBefore
  split
  · split
    · exact Preserves.onStoreReporting (fun _ _ _ H h => H.insertBefore h) c H
    · exact Preserves.report .topInsertIgnored c H
  · exact Preserves.report .topInsertIgnored c H

/-- **One operation keeps a property of the roles**, if it holds of the vocabulary and of the role
that the operation writes. -/
theorem rolesAre_after (hP : ∀ role : Role, role.isKnown → P role) {c : Container}
    (H : c.store.RolesAre P) {operation : Operation} (hwrites : operation.Writes P) :
    (c.after operation).store.RolesAre P := by
  cases operation with
  | createText value => exact Preserves.onStore (fun _ _ _ H h => H.createText h) c H
  | createElement role properties =>
    exact Preserves.onStore (fun _ _ _ H h => H.createElement hP h) c H
  | appendChild parent child => exact preserves_appendChild parent child c H
  | insertBefore parent child reference =>
    exact Preserves.onStoreReporting (fun _ _ _ H h => H.insertBefore h) c H
  | removeChild parent child =>
    exact Preserves.onStoreReporting (fun _ _ _ H h => H.removeChild h) c H
  | updateText node value => exact Preserves.onStore_ (fun _ _ H h => H.updateText h) c H
  | updateProperties node properties =>
    exact Preserves.onStore_ (fun _ _ H h => H.updateProperties h) c H
  | setRole node role => exact Preserves.onStore_ (fun _ _ H h => H.setRole hwrites h) c H
  | append node => exact preserves_append hP node c H
  | insertBeforeTop node reference => exact preserves_insertBefore node reference c H
  | remove node => exact ((Preserves.report _).bind fun _ => preserves_clear hP) c H
  | clear => exact preserves_clear hP c H

/-- **After a run, a property of the vocabulary and of all roles that the run writes holds of the
role of every record.** -/
theorem rolesAre_run (hP : ∀ role : Role, role.isKnown → P role) {operations : List Operation}
    (hwrites : ∀ operation ∈ operations, operation.Writes P) :
    (run operations).store.RolesAre P := by
  have hrun : ∀ c : Container, c.store.RolesAre P →
      (operations.foldl Container.after c).store.RolesAre P := by
    induction operations with
    | nil => exact fun _ H => H
    | cons operation rest ih =>
      intro c H
      have hfirst := rolesAre_after hP H (hwrites operation (by simp))
      exact ih (fun later hlater => hwrites later (by simp [hlater])) _ hfirst
  exact hrun {} Store.rolesAre_empty

end Container

end DocumentTree
