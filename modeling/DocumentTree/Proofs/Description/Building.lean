import DocumentTree.Proofs.Description.Spelling

/-!
# Building a description

Building creates the records of a description from the inside out and changes no record that was
there before. The record that it gives spells the description and has no parent yet. Each child is
built on its own and then appended, which changes the two records that are linked and nothing else.

## Main definitions

* `Store.Extends` — a store with more records, in which few of the old ones are changed.
* `Store.Stands` — a record without a parent that spells a description.
* `Element.isKnown` — whether all roles of a description are in the vocabulary.
-/

namespace DocumentTree

namespace Element

mutual

/-- Whether all roles are in the vocabulary. -/
def isKnown : Element → Bool
  | text _ => true
  | element role _ es => (Role.ofValue role).isKnown && isKnownAll es

/-- Whether all roles in descriptions are in the vocabulary. -/
def isKnownAll : List Element → Bool
  | [] => true
  | e :: es => isKnown e && isKnownAll es

end

end Element

namespace Store

/-- More records, among which the old ones are the same except for those that are changed. -/
structure Extends (s t : Store) (changed : NodeId → Prop) : Prop extends Follows s t where
  /-- The other records are the same. -/
  kept : ∀ m, m < s.size → ¬ changed m → t.get? m = s.get? m

/-- A record without a parent that spells a description. -/
structure Stands (s : Store) (e : Element) (n : NodeId) : Prop where
  /-- The record has no parent. -/
  top : s.parent? n = none
  /-- The record spells the description. -/
  spells : s.Spells e n

variable {s t u : Store} {changed more : NodeId → Prop}

theorem Extends.trans (X : Extends s t changed) {any : NodeId → Prop} (Y : Extends t u more)
    (hchanged : ∀ m, m < s.size → changed m → any m) (hmore : ∀ m, m < s.size → more m → any m) :
    Extends s u any where
  forest := Y.forest
  size_le := Nat.le_trans X.size_le Y.size_le
  kept := by
    intro m hm hany
    rw [Y.kept m (Nat.lt_of_lt_of_le hm X.size_le) fun h => hany (hmore m hm h)]
    exact X.kept m hm fun h => hany (hchanged m hm h)

/-- What stands keeps standing when only new records are made. -/
theorem Stands.extend {e : Element} {n : NodeId} (H : s.Forest) (h : s.Stands e n)
    (X : Extends s t fun _ => False) : t.Stands e n where
  top := by
    rw [parent?, X.kept n h.spells.lt_size id]
    exact h.top
  spells := h.spells.grow H fun m hm => X.kept m hm id

/-! ## Creating -/

theorem Forest.extends_push (H : s.Forest) {r : Record} (hlink : r.link = none)
    (hchildren : r.children = []) : Extends s (s.push r) fun _ => False where
  toFollows := H.push hlink hchildren
  kept := by
    intro m hm _
    rw [get?_push, if_neg (Nat.ne_of_lt hm)]

private theorem content?_push (r : Record) : (s.push r).content? s.size = some r.content := by
  simp [content?, get?_push]

theorem top_push {r : Record} (hlink : r.link = none) :
    (s.push r).parent? s.size = none := by
  rw [parent?_push hlink]
  exact parent?_eq_none (Nat.le_refl _)

theorem stands_text (value : String) :
    (s.push { content := .text value }).Stands (.text value) s.size :=
  ⟨top_push rfl, content?_push _⟩

theorem stands_element (role : Value) (properties : Entries) :
    (s.push { content := .element (Role.ofValue role) properties [] }).Stands
      (.element role properties []) s.size :=
  ⟨top_push rfl, [], content?_push _, trivial⟩

theorem createElement_of_isKnown {role : Value} (h : (Role.ofValue role).isKnown = true)
    (properties : Entries) :
    s.createElement role (.map properties) =
      .ok (s.size, s.push { content := .element (Role.ofValue role) properties [] }) := by
  simp [createElement, knownRole, h, propertyMap]

/-! ## Appending -/

/-- The contents after an attachment: the parent has other children. -/
private theorem content?_attach {p c : Handle} (htop : s.parent? c.id = none)
    (place : List NodeId → List NodeId) {role : Role} {properties : Entries} {ids : List NodeId}
    (hp : s.content? p.id = some (.element role properties ids)) :
    (s.attach p c place).content? p.id = some (.element role properties (place ids)) := by
  obtain ⟨r, hr, hcontent⟩ := Option.map_eq_some_iff.mp hp
  rw [attach, detach_of_parent?_eq_none htop, content?, setLink, get?_modify, setChildren,
    get?_modify, if_pos rfl, hr]
  by_cases hpc : c.id = p.id <;> simp [hpc, Record.mapChildren, hcontent]

private theorem content?_attach_of_ne {p c : Handle} (htop : s.parent? c.id = none)
    (place : List NodeId → List NodeId) {m : NodeId} (hm : m ≠ p.id) :
    (s.attach p c place).content? m = s.content? m := by
  rw [attach, detach_of_parent?_eq_none htop, content?, setLink, get?_modify, setChildren,
    get?_modify, if_neg (Ne.symm hm)]
  by_cases hc : c.id = m
  · cases hr : s.get? m <;> simp [hc, content?, hr]
  · simp [hc, content?]

private theorem get?_attach_of_ne {p c : Handle} (htop : s.parent? c.id = none)
    (place : List NodeId → List NodeId) {m : NodeId} (hm : m ≠ p.id) (hc : m ≠ c.id) :
    (s.attach p c place).get? m = s.get? m := by
  rw [attach, detach_of_parent?_eq_none htop, setLink, get?_modify, if_neg (Ne.symm hc),
    setChildren, get?_modify, if_neg (Ne.symm hm)]

/-- No child reaches a record without a parent, so giving it another child leaves the spellings of
other records alone. -/
private theorem undisturbed_attach (H : s.Forest) {p c : Handle} (hp : s.parent? p.id = none)
    (hc : s.parent? c.id = none) (place : List NodeId → List NodeId) :
    Undisturbed s (s.attach p c place) fun m => m ≠ p.id := by
  refine ⟨?_, fun m hm => content?_attach_of_ne hc place hm⟩
  rintro m x - hx rfl
  rw [(H.mem_childrenOf m p.id).mp hx] at hp
  cases hp

/-- **What stands can be appended to an element that stands**, as its last child. Nothing but the
two records is changed, and whatever else stands keeps standing. -/
theorem Forest.append_stands (H : s.Forest) {p c : Handle} {role : Value} {properties : Entries}
    {es : List Element} {e : Element} (hp : s.Stands (.element role properties es) p.id)
    (hc : s.Stands e c.id) (hne : c.id ≠ p.id) :
    ∃ t, s.appendChild p.given c.given = .ok t ∧
      Extends s t (fun m => m = p.id ∨ m = c.id) ∧
      t.Stands (.element role properties (es ++ [e])) p.id ∧
      ∀ f m, m ≠ p.id → m ≠ c.id → s.Stands f m → t.Stands f m := by
  obtain ⟨htop, ids, hids, hes⟩ := hp
  obtain ⟨r, hr, htext⟩ := isElement_of_content? hids
  have hat : s.Attachable p.id c.id := .of_top ⟨r, hr, htext⟩ htop hc.spells.lt_size hne
  let place : List NodeId → List NodeId := fun ids => ids ++ [c.id]
  have U := undisturbed_attach H htop hc.top place
  refine ⟨s.attach p c place, H.appendChild_eq_ok_iff.mpr ⟨p, c, rfl, rfl, hat, rfl⟩,
    ⟨H.follows_attach hat fun ids => List.perm_append_singleton c.id ids, ?_⟩, ⟨?_, ?_⟩, ?_⟩
  · intro m _ hm
    exact get?_attach_of_ne hc.top place (fun h => hm (.inl h)) fun h => hm (.inr h)
  · rw [parent?_attach hat.known, if_neg (Ne.symm hne), htop]
  · have hkids : ∀ x ∈ ids, x ≠ p.id := by
      rintro x hx rfl
      rw [← childrenOf_of_content? hids] at hx
      exact H.acyclic p.id (.single ((H.mem_childrenOf p.id p.id).mp hx))
    refine ⟨ids ++ [c.id], content?_attach hc.top place hids, ?_⟩
    exact (U.spellsAll es hkids hes).append ⟨U.spells e hne hc.spells, trivial⟩
  · intro f m hmp hmc hm
    refine ⟨?_, U.spells f hmp hm.spells⟩
    rw [parent?_attach hat.known, if_neg hmc, hm.top]

end Store

/-! ## Building -/

theorem Act.bind_eq {α β : Type} {x : Act α} {f : α → Act β} {c c' : Container} {a : α}
    (h : x c = ⟨c', [], .ok a⟩) : (x >>= f) c = f a c' := by
  rw [Act.bind_of_ok (by rw [h]), h]
  rfl

theorem Act.ask_eq {α : Type} {f : Store → Except StoreError α} {c : Container}
    {answer : Except StoreError α} (h : f c.store = answer) : Act.ask f c = ⟨c, [], answer⟩ := by
  rw [Act.ask, h]

/-- A known record is found by its number. -/
theorem Store.find_int {s : Store} {n : NodeId} (hn : n < s.size) :
    ∃ r, s.find (.int n) = .ok (.ofId n, r) := by
  obtain ⟨r, hr⟩ := lt_size_iff.mp hn
  exact ⟨r, find_eq_ok.mpr ⟨rfl, hr⟩⟩

theorem Act.onStore_eq {α : Type} {f : Store → Except StoreError (α × Store)} {c : Container}
    {a : α} {t : Store} (h : f c.store = .ok (a, t)) :
    Act.onStore f c = ⟨{ c with store := t }, [], .ok a⟩ := by
  rw [Act.onStore, h]

theorem Act.onStore_eq_of_change {f : Store → Except StoreError Store} {c : Container} {t : Store}
    (h : f c.store = .ok t) : Act.onStore_ f c = ⟨{ c with store := t }, [], .ok ()⟩ :=
  Act.onStore_eq (by rw [h]; rfl)

namespace Element

open Store (Extends Stands)

mutual

/-- **A description with roles of the vocabulary is built**: only new records are made, and the one
that is given stands for the description. -/
theorem build_spec : (e : Element) → e.isKnown = true → (c : Container) → c.store.Forest →
    ∃ n t, e.build c = ⟨{ c with store := t }, [], .ok n⟩ ∧
      Extends c.store t (fun _ => False) ∧ c.store.size ≤ n ∧ t.Stands e n
  | .text value, _, c, H =>
    ⟨c.store.size, _, rfl, H.extends_push rfl rfl, Nat.le_refl _, Store.stands_text value⟩
  | .element role properties es, he, c, H => by
    rw [isKnown, Bool.and_eq_true] at he
    have hcreate := Store.createElement_of_isKnown (s := c.store) he.1 properties
    have X := H.extends_push (r := { content := .element (Role.ofValue role) properties [] })
      rfl rfl
    obtain ⟨t, hbuild, Y, hstands⟩ := buildChildren_spec es he.2
      { c with store := c.store.push { content := .element (Role.ofValue role) properties [] } }
      X.forest (Store.stands_element role properties)
    refine ⟨c.store.size, t, ?_, ?_, Nat.le_refl _, hstands⟩
    · rw [build, Act.bind_eq (Act.onStore_eq hcreate), Act.bind_eq hbuild]
      rfl
    · exact X.trans Y (fun _ _ => id) fun m hm heq => Nat.lt_irrefl _ (heq ▸ hm)

theorem buildChildren_spec : (es : List Element) → isKnownAll es = true → (c : Container) →
    {n : NodeId} → {role : Value} → {properties : Entries} → {done : List Element} →
    c.store.Forest → c.store.Stands (.element role properties done) n →
    ∃ t, buildChildren n es c = ⟨{ c with store := t }, [], .ok ()⟩ ∧
      Extends c.store t (fun m => m = n) ∧ t.Stands (.element role properties (done ++ es)) n
  | [], _, c, n, role, properties, done, H, hn => by
    refine ⟨c.store, rfl, ⟨H.follows, fun _ _ _ => rfl⟩, ?_⟩
    rwa [List.append_nil]
  | e :: es, hes, c, n, role, properties, done, H, hn => by
    rw [isKnownAll, Bool.and_eq_true] at hes
    obtain ⟨k, t₁, hbuild, X, hk, hstands⟩ := build_spec e hes.1 c H
    have hne : k ≠ n := Nat.ne_of_gt (Nat.lt_of_lt_of_le hn.spells.lt_size hk)
    obtain ⟨t₂, happend, Y, hn₂, -⟩ := X.forest.append_stands (p := .ofId n) (c := .ofId k)
      (hn.extend H X) hstands hne
    obtain ⟨t, hrest, Z, hn₃⟩ := buildChildren_spec es hes.2 { c with store := t₂ } Y.forest hn₂
    have XY : Extends c.store t₂ fun m => m = n := by
      refine X.trans Y (fun _ _ => False.elim) ?_
      rintro m hm (rfl | rfl)
      · rfl
      · exact absurd hm (by simpa using hk)
    refine ⟨t, ?_, XY.trans Z (fun _ _ => id) fun _ _ => id, by simpa using hn₃⟩
    rw [buildChildren, Act.bind_eq hbuild, Act.bind_eq (Act.onStore_eq_of_change happend)]
    exact hrest

end

end Element

end DocumentTree
