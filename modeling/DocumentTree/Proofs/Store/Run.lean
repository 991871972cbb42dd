import DocumentTree.Document.Lowering
import DocumentTree.Proofs.Store.Operations
import DocumentTree.Store.Container

/-!
# Runs of operations on a container

A run is any sequence of operations on a container and on its store, each with any values for its
arguments. A refused operation is a step like any other: it leaves what it did before it was
refused. Whatever the operations are, the container stays consistent.

## Main definitions

* `Operation` — an operation with its arguments.
* `Container.run` — the container after operations, from an empty one.
* `Container.Consistent` — the invariant.
* `Act.Keeps` — steps that keep the invariant, and the handles they make known.
-/

namespace DocumentTree

/-- An operation, with the values given for its arguments. -/
inductive Operation where
  | createText (value : Value)
  | createElement (role properties : Value)
  | appendChild (parent child : Value)
  | insertBefore (parent child reference : Value)
  | removeChild (parent child : Value)
  | updateText (node value : Value)
  | updateProperties (node properties : Value)
  | setRole (node role : Value)
  | append (node : Value)
  | insertBeforeTop (node reference : Value)
  | remove (node : Value)
  | clear

namespace Container

/-- The container after an operation, refused or not. -/
def after (c : Container) : Operation → Container
  | .createText value => (Act.onStore (fun s => s.createText value) c).after
  | .createElement role properties =>
    (Act.onStore (fun s => s.createElement role properties) c).after
  | .appendChild parent child => (Act.onStore_ (fun s => s.appendChild parent child) c).after
  | .insertBefore parent child reference =>
    (Act.onStoreReporting (fun s => s.insertBefore parent child reference) c).after
  | .removeChild parent child =>
    (Act.onStoreReporting (fun s => s.removeChild parent child) c).after
  | .updateText node value => (Act.onStore_ (fun s => s.updateText node value) c).after
  | .updateProperties node properties =>
    (Act.onStore_ (fun s => s.updateProperties node properties) c).after
  | .setRole node role => (Act.onStore_ (fun s => s.setRole node role) c).after
  | .append node => (append node c).after
  | .insertBeforeTop node reference => (insertBefore node reference c).after
  | .remove node => (remove node c).after
  | .clear => (clear c).after

/-- The container after operations in order, from an empty one. -/
def run (operations : List Operation) : Container :=
  operations.foldl after {}

/-- What operations keep. -/
structure Consistent (c : Container) : Prop where
  /-- The links of the store agree with each other. -/
  forest : c.store.Forest
  /-- The root is a known record. -/
  root_known : ∀ h, c.root = some h → h.id < c.store.size
  /-- The index is numbered from 0 without gaps. -/
  nodes_numbered : c.nodes.map Prod.fst = List.range c.nodes.length
  /-- The index holds known records. -/
  nodes_known : ∀ e ∈ c.nodes, e.2.id < c.store.size

/-- All handles of a list name records. -/
def Knows (c : Container) (hs : List Handle) : Prop :=
  ∀ h ∈ hs, h.id < c.store.size

/-- Nothing in a container is lost when its store grows. -/
theorem Consistent.follow {c : Container} (H : c.Consistent) {t : Store}
    (h : c.store.Follows t) : ({ c with store := t } : Container).Consistent where
  forest := h.forest
  root_known := fun r hr => Nat.lt_of_lt_of_le (H.root_known r hr) h.size_le
  nodes_numbered := H.nodes_numbered
  nodes_known := fun e he => Nat.lt_of_lt_of_le (H.nodes_known e he) h.size_le

theorem Knows.follow {c : Container} {hs : List Handle} (H : c.Knows hs) {t : Store}
    (h : c.store.Follows t) : ({ c with store := t } : Container).Knows hs :=
  fun k hk => Nat.lt_of_lt_of_le (H k hk) h.size_le

/-- The empty container is consistent. -/
theorem consistent_empty : ({} : Container).Consistent where
  forest := by
    refine ⟨?_, ?_, ?_⟩
    · intro p c
      simp [Store.childrenOf, Store.parent?, Store.get?]
    · intro p
      simp [Store.childrenOf, Store.get?]
    · intro n hn
      exact absurd hn.descendant_lt (Nat.not_lt_zero n)
  root_known := by simp
  nodes_numbered := rfl
  nodes_known := by simp

end Container

/-! ## The index -/

/-- A number that is not there yet goes to the end. -/
theorem Index.set_of_forall_ne {number : Nat} (node : Handle) {index : Index}
    (h : ∀ e ∈ index, e.1 ≠ number) : index.set number node = index ++ [(number, node)] := by
  induction index with
  | nil => rfl
  | cons e rest ih =>
    have hne : e.1 ≠ number := h e (by simp)
    simp only [set, hne, if_false, List.cons_append]
    rw [ih fun e' he' => h e' (by simp [he'])]

/-- In an index numbered without gaps, the number of entries is free. -/
theorem Index.set_length {index : Index} (h : index.map Prod.fst = List.range index.length)
    (node : Handle) : index.set index.length node = index ++ [(index.length, node)] := by
  apply set_of_forall_ne
  intro e he heq
  have hmem : e.1 ∈ List.range index.length := h ▸ List.mem_map_of_mem he
  rw [heq] at hmem
  exact absurd (List.mem_range.mp hmem) (Nat.lt_irrefl _)

/-! ## Steps that keep the invariant -/

namespace Act

variable {α β : Type}

theorem bind_of_error {x : Act α} {f : α → Act β} {c : Container} {e : StoreError}
    (h : (x c).result = .error e) : (x >>= f) c = ⟨(x c).after, (x c).notices, .error e⟩ := by
  show Act.bind x f c = _
  simp only [Act.bind, h]

theorem bind_of_ok {x : Act α} {f : α → Act β} {c : Container} {a : α}
    (h : (x c).result = .ok a) :
    (x >>= f) c = ⟨(f a (x c).after).after, (x c).notices ++ (f a (x c).after).notices,
      (f a (x c).after).result⟩ := by
  show Act.bind x f c = _
  simp only [Act.bind, h]

/-- Steps that keep a container consistent when it knows some handles, and what handles it knows
by their result. -/
def Keeps (known : List Handle) (x : Act α) (gained : α → List Handle) : Prop :=
  ∀ c : Container, c.Consistent → c.Knows known →
    (x c).after.Consistent ∧ ∀ a, (x c).result = .ok a → (x c).after.Knows (gained a)

theorem Keeps.bind {known : List Handle} {x : Act α} {gained : α → List Handle}
    {f : α → Act β} {final : β → List Handle} (hx : Keeps known x gained)
    (hf : ∀ a, Keeps (gained a) (f a) final) : Keeps known (x >>= f) final := by
  intro c H K
  obtain ⟨H₁, K₁⟩ := hx c H K
  cases hr : (x c).result with
  | error e =>
    rw [bind_of_error hr]
    exact ⟨H₁, by simp⟩
  | ok a =>
    rw [bind_of_ok hr]
    exact hf a (x c).after H₁ (K₁ a hr)

theorem Keeps.report {known : List Handle} (notice : StoreNotice) :
    Keeps known (report notice) fun _ => known :=
  fun _ H K => ⟨H, fun _ _ => K⟩

theorem Keeps.onStore {known : List Handle} {f : Store → Except StoreError (α × Store)}
    (hf : ∀ s a t, s.Forest → f s = .ok (a, t) → s.Follows t) :
    Keeps known (onStore f) fun _ => known := by
  intro c H K
  unfold Act.onStore
  cases hs : f c.store with
  | error e => exact ⟨H, fun _ _ => K⟩
  | ok result =>
    have hfollow := hf c.store result.1 result.2 H.forest hs
    exact ⟨H.follow hfollow, fun _ _ => K.follow hfollow⟩

theorem Keeps.onStore_ {known : List Handle} {f : Store → Except StoreError Store}
    (hf : ∀ s t, s.Forest → f s = .ok t → s.Follows t) :
    Keeps known (onStore_ f) fun _ => known := by
  apply Keeps.onStore
  intro s a t H h
  cases hs : f s with
  | error e => simp [hs, Except.map] at h
  | ok u =>
    have hut : u = t := by simpa [hs, Except.map] using h
    exact hf s t H (hut ▸ hs)

theorem Keeps.onStoreReporting {known : List Handle}
    {f : Store → Except StoreError (Store × List StoreNotice)}
    (hf : ∀ s t notices, s.Forest → f s = .ok (t, notices) → s.Follows t) :
    Keeps known (onStoreReporting f) fun _ => known := by
  intro c H K
  unfold Act.onStoreReporting
  cases hs : f c.store with
  | error e => exact ⟨H, fun _ _ => K⟩
  | ok result =>
    have hfollow := hf c.store result.1 result.2 H.forest hs
    exact ⟨H.follow hfollow, fun _ _ => K.follow hfollow⟩

/-- A handle that was found is known. -/
theorem Keeps.find {known : List Handle} (v : Value) :
    Keeps known (ask fun s => s.find v) fun found => found.1 :: known := by
  intro c H K
  refine ⟨H, fun found hfound => ?_⟩
  have hget := (Store.find_eq_ok.mp (show c.store.find v = .ok (found.1, found.2) from hfound)).2
  intro h hh
  rcases List.mem_cons.mp hh with rfl | hh
  · exact Store.lt_size_of_get? hget
  · exact K h hh

/-- A new root element is known. -/
theorem Keeps.newRoot {known : List Handle} :
    Keeps known Container.newRoot fun h => h :: known := by
  intro c H K
  cases hs : c.store.createElement Role.root.toValue .null with
  | error e =>
    have hrun : Container.newRoot c = ⟨c, [], .error e⟩ := by
      simp [Container.newRoot, Bind.bind, Act.bind, Act.onStore, hs]
    rw [hrun]
    exact ⟨H, by simp⟩
  | ok result =>
    obtain ⟨n, t⟩ := result
    have hrun : Container.newRoot c = ⟨{ c with store := t }, [], .ok (.ofId n)⟩ := by
      simp [Container.newRoot, Bind.bind, Act.bind, Act.onStore, hs, Pure.pure, Act.pure]
    have hfollow := H.forest.createElement hs
    rw [hrun]
    refine ⟨H.follow hfollow, ?_⟩
    intro h hh k hk
    obtain rfl : Handle.ofId n = h := by simpa using hh
    rcases List.mem_cons.mp hk with rfl | hk
    · obtain ⟨hn, role, properties, ht⟩ := Store.createElement_eq_ok hs
      simp [hn, ht]
    · exact K.follow hfollow k hk

/-- A known record may become the root. -/
theorem Keeps.setRoot {known : List Handle} (h : Handle) :
    Keeps (h :: known) (change fun c => { c with root := some h }) fun _ => known := by
  intro c H K
  refine ⟨⟨H.forest, ?_, H.nodes_numbered, H.nodes_known⟩, fun _ _ k hk => K k (by simp [hk])⟩
  intro r hr
  obtain rfl : h = r := by simpa [change] using hr
  exact K h (by simp)

/-- A known record may be entered in the index, under the number of entries. -/
theorem Keeps.enter {known : List Handle} (h : Handle) :
    Keeps (h :: known) (change fun c => { c with nodes := c.nodes.set c.nodes.length h })
      fun _ => known := by
  intro c H K
  have hset := Index.set_length H.nodes_numbered h
  refine ⟨⟨H.forest, H.root_known, ?_, ?_⟩, fun _ _ k hk => K k (by simp [hk])⟩
  · simp only [change, hset, List.map_append, List.length_append, List.length_singleton,
      List.range_succ, H.nodes_numbered]
    rfl
  · intro e he
    simp only [change, hset, List.mem_append, List.mem_singleton] at he
    rcases he with he | rfl
    · exact H.nodes_known e he
    · exact K h (by simp)

end Act

/-! ## Every operation keeps the invariant -/

namespace Container

open Act (Keeps)

theorem keeps_appendChild {known : List Handle} (parent child : Value) :
    Keeps known (Act.onStore_ fun s => s.appendChild parent child) fun _ => known :=
  Keeps.onStore_ fun _ _ H h => H.appendChild h

theorem keeps_clear {known : List Handle} : Keeps known clear fun _ => known := by
  refine Keeps.newRoot.bind fun root => ?_
  intro c H K
  refine ⟨⟨H.forest, ?_, rfl, ?_⟩, fun _ _ k hk => K k (by simp [hk])⟩
  · intro r hr
    obtain rfl : root = r := by simpa [Act.change] using hr
    exact K root (by simp)
  · simp [Act.change]

theorem keeps_remove {known : List Handle} (node : Value) :
    Keeps known (remove node) fun _ => known :=
  (Keeps.report _).bind fun _ => keeps_clear

theorem keeps_enter {known : List Handle} (node : Value) :
    Keeps known (enter node) fun _ => known :=
  (Keeps.find node).bind fun found => Keeps.enter found.1

/-- All three ways of linking at the top level make a known record the root, or keep the root. -/
theorem keeps_link (node : Value) : Keeps [] (link node) fun _ => [] := by
  intro c H K
  unfold link
  split
  · exact ((Keeps.find node).bind fun found => Keeps.setRoot found.1) c H K
  · rename_i root _
    split
    · exact keeps_appendChild root.given node c H K
    · have hwrap : Keeps [] _ fun _ => [] := Keeps.newRoot.bind fun wrapper =>
        (keeps_appendChild wrapper.given root.given).bind fun _ =>
          (keeps_appendChild wrapper.given node).bind fun _ =>
            (Keeps.setRoot wrapper).bind fun _ => Keeps.report (.wrapped wrapper.id)
      exact hwrap c H K

theorem keeps_append (node : Value) : Keeps [] (append node) fun _ => [] :=
  (keeps_link node).bind fun _ => keeps_enter node

theorem keeps_insertBefore (node reference : Value) :
    Keeps [] (insertBefore node reference) fun _ => [] := by
  intro c H K
  unfold insertBefore
  split
  · split
    · exact Keeps.onStoreReporting (fun _ _ _ H h => H.insertBefore h) c H K
    · exact Keeps.report .topInsertIgnored c H K
  · exact Keeps.report .topInsertIgnored c H K

/-- **One operation keeps the invariant**, refused or not. -/
theorem Consistent.after {c : Container} (H : c.Consistent) (operation : Operation) :
    (c.after operation).Consistent := by
  have K : c.Knows [] := by simp [Knows]
  cases operation with
  | createText value => exact (Keeps.onStore (fun _ _ _ H h => H.createText h) c H K).1
  | createElement role properties =>
    exact (Keeps.onStore (fun _ _ _ H h => H.createElement h) c H K).1
  | appendChild parent child => exact (keeps_appendChild parent child c H K).1
  | insertBefore parent child reference =>
    exact (Keeps.onStoreReporting (fun _ _ _ H h => H.insertBefore h) c H K).1
  | removeChild parent child =>
    exact (Keeps.onStoreReporting (fun _ _ _ H h => H.removeChild h) c H K).1
  | updateText node value => exact (Keeps.onStore_ (fun _ _ H h => H.updateText h) c H K).1
  | updateProperties node properties =>
    exact (Keeps.onStore_ (fun _ _ H h => H.updateProperties h) c H K).1
  | setRole node role => exact (Keeps.onStore_ (fun _ _ H h => H.setRole h) c H K).1
  | append node => exact (keeps_append node c H K).1
  | insertBeforeTop node reference => exact (keeps_insertBefore node reference c H K).1
  | remove node => exact (keeps_remove node c H K).1
  | clear => exact (keeps_clear c H K).1

/-- **A run keeps the invariant**, whatever its operations are. -/
theorem consistent_run (operations : List Operation) : (run operations).Consistent := by
  have hrun : ∀ c : Container, c.Consistent → (operations.foldl Container.after c).Consistent := by
    induction operations with
    | nil => exact fun _ H => H
    | cons operation rest ih => exact fun c H => ih (c.after operation) (H.after operation)
  exact hrun {} consistent_empty

end Container

/-! ## What holds after every run -/

/-- The tree of a known record exists, and lowering the record is lowering its tree. -/
theorem Store.Forest.exists_tree {s : Store} (H : s.Forest) (h : Handle) (hn : h.id < s.size) :
    ∃ t, s.subtree? h = some t ∧ s.tree? h.given = .ok (some t) ∧
      s.lower h.given = t.lower := by
  obtain ⟨t, ht⟩ := H.exists_subtree h hn
  obtain ⟨r, hr⟩ := lt_size_iff.mp hn
  have hfind : s.find h.given = .ok (h, r) := find_eq_ok.mpr ⟨rfl, hr⟩
  have htree : s.tree? h.given = .ok (some t) := by
    have hid := h.index?_given
    unfold tree?
    split
    · rename_i hnull
      simp [hnull, Value.index?] at hid
    · simp [hfind, ht]
  refine ⟨t, ht, htree, ?_⟩
  simp only [lower, htree]
  rfl

/-- **After any run of operations, refused ones among them, the arena is a forest.** The records are
numbered without gaps; children and parents tell the same links, and no child is listed twice; only
elements are parents; no record is above itself, so the ancestors of a record are a complete way up
and every known record has a tree to lower or to print; root and index hold known records, and the
index is numbered from 0. -/
theorem run_is_forest (operations : List Operation) :
    let c := Container.run operations
    let s := c.store
    (∀ n, (∃ r, s.get? n = some r) ↔ n < s.size) ∧
    (∀ p n, s.IsElement p → (n ∈ s.childrenOf p ↔ n < s.size ∧ s.parent? n = some p)) ∧
    (∀ p, (s.childrenOf p).Nodup) ∧
    (∀ n p, s.parent? n = some p → s.IsElement p) ∧
    (∀ n, ¬ s.Ancestor n n) ∧
    (∀ n, s.PathToTop n (s.ancestors n)) ∧
    (∀ h : Handle, h.id < s.size → ∃ t, s.subtree? h = some t ∧ s.tree? h.given = .ok (some t) ∧
      s.lower h.given = t.lower) ∧
    (∀ h, c.root = some h → h.id < s.size) ∧
    c.nodes.map Prod.fst = List.range c.nodes.length ∧
    ∀ e ∈ c.nodes, e.2.id < s.size := by
  intro c s
  have H : c.Consistent := Container.consistent_run operations
  refine ⟨fun n => Store.lt_size_iff.symm, ?_, H.forest.nodup,
    fun n p hp => H.forest.isElement_parent hp, H.forest.acyclic, H.forest.pathToTop_ancestors,
    fun h hn => H.forest.exists_tree h hn, H.root_known, H.nodes_numbered, H.nodes_known⟩
  intro p n _
  rw [H.forest.mem_childrenOf]
  exact ⟨fun hp => ⟨Store.lt_size_of_parent? hp, hp⟩, fun hp => hp.2⟩

end DocumentTree
