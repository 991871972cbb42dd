import DocumentTree.Proofs.Store.TopSteps

/-!
# The index of the nodes at the top level

A container keeps an index of the nodes that are attached at the top level. An attachment enters its
node there, and whatever resets the root empties it. An insertion before another node attaches a
node at the top level too, but enters nothing. So after operations at the top level, the nodes that
the root collects are in the index, apart from inserted ones.

## Main definitions

* `Operation.isTop` — the operations at the top level.
* `Container.Inserts`, `Container.InsertedBy` — an operation makes a node a child of the root by
  inserting it, and so does one operation of a run.
* `Container.Indexes` — a node is in the index.
* `Container.IndexedBut` — the invariant of the index.
-/

namespace DocumentTree

/-- Whether an operation is one at the top level, or creates a node for it. -/
def Operation.isTop : Operation → Bool
  | .createText _ | .createElement .. => true
  | .append _ | .insertBeforeTop .. | .remove _ | .clear => true
  | _ => false

/-- An insertion adds at most the inserted node to the children of the parent, and changes links
only. -/
theorem Store.Forest.mem_of_insertBefore {s t : Store} (H : s.Forest) {p : Handle}
    {child reference : Value} {notices : List StoreNotice}
    (h : s.insertBefore p.given child reference = .ok (t, notices)) :
    (∀ n ∈ t.childrenOf p.id, n ∈ s.childrenOf p.id ∨ child.index? = some n) ∧
      s.KeepsKinds t := by
  have hp : s.IsElement p.id := namesElement_given.mp (namesElement_of_insertBefore h)
  by_cases hno : ∀ r, reference.index? = some r → r ∈ s.childrenOf p.id → child.index? = some r
  · obtain rfl := insertBefore_eq_self hp h hno
    exact ⟨fun n hn => .inl hn, .refl t⟩
  · push Not at hno
    obtain ⟨r, hr, hmem, hne⟩ := hno
    obtain ⟨c, rfl, hmoved, before, after, hold, hnew⟩ := H.moved_insertBefore hp h hr hmem hne
    refine ⟨fun n hn => ?_, fun n => ⟨_, hmoved.frame.contents n⟩⟩
    have hn : n = c.id ∨ n ∈ (s.childrenOf p.id).filter (· != c.id) := by
      rw [hnew] at hn
      rw [hold]
      simpa [or_left_comm] using hn
    rcases hn with rfl | hn
    · exact .inr c.index?_given
    · exact .inl (List.mem_of_mem_filter hn)

namespace Container

variable {c c₁ : Container} {n : Handle} {inserted : NodeId → Prop} {operation : Operation}

/-- The operation is an insertion of the node, and it takes effect in this container: the node is
no child of the root, and becomes one. -/
structure Inserts (c : Container) (operation : Operation) (m : NodeId) : Prop where
  /-- The operation inserts the node before another one. -/
  names : ∃ node reference, operation = .insertBeforeTop node reference ∧ node.index? = some m
  /-- The node is a child of the root afterwards, and was none. -/
  attaches : ∃ root, c.root = some root ∧ m ∉ c.store.childrenOf root.id ∧
    m ∈ (c.after operation).store.childrenOf root.id

/-- An operation of the run has inserted the node, in the container that the operations before it
have made. -/
def InsertedBy (operations : List Operation) (m : NodeId) : Prop :=
  ∃ before operation after, operations = before ++ operation :: after ∧
    (run before).Inserts operation m

theorem InsertedBy.append {operations : List Operation} {m : NodeId}
    (h : InsertedBy operations m) (later : List Operation) :
    InsertedBy (operations ++ later) m := by
  obtain ⟨before, operation, after, rfl, hinserts⟩ := h
  exact ⟨before, operation, after ++ later, by simp, hinserts⟩

/-- What an operation has inserted is named by an insertion of the run. -/
theorem InsertedBy.exists_mem {operations : List Operation} {m : NodeId}
    (h : InsertedBy operations m) :
    ∃ node reference, .insertBeforeTop node reference ∈ operations ∧ node.index? = some m := by
  obtain ⟨before, _, after, rfl, ⟨node, reference, rfl, hnode⟩, -⟩ := h
  exact ⟨node, reference, by simp, hnode⟩

/-- The node is in the index. -/
def Indexes (c : Container) (n : NodeId) : Prop :=
  ∃ entry ∈ c.nodes, entry.2.id = n

/-- What is entered is in the index, and what was there before stays. -/
theorem indexes_enter_iff {nodes : Index} {number : Nat} {m : NodeId}
    (h : c.nodes = nodes ++ [(number, n)]) :
    c.Indexes m ↔ (∃ entry ∈ nodes, entry.2.id = m) ∨ n.id = m := by
  simp [Indexes, h, or_and_right, exists_or]

/-- The invariant of the index: what the root collects is in the index, apart from some inserted
nodes. -/
structure IndexedBut (c : Container) (inserted : NodeId → Prop) : Prop where
  /-- As long as there is no root, nothing is attached to anything. -/
  childless : c.root = none → ∀ p, c.store.childrenOf p = []
  /-- A root that does not collect nodes has been attached itself. -/
  lone : ∀ root, c.root = some root → c.rootCollects = false → c.Indexes root.id
  /-- The children of a root that collects nodes have been attached or inserted. -/
  listed : ∀ root, c.root = some root → c.rootCollects = true →
    ∀ m ∈ c.store.childrenOf root.id, c.Indexes m ∨ inserted m

/-- The more nodes are excused, the less the invariant says. -/
theorem IndexedBut.mono (I : c.IndexedBut inserted) {inserted' : NodeId → Prop}
    (h : ∀ m, inserted m → inserted' m) : c.IndexedBut inserted' where
  childless := I.childless
  lone := I.lone
  listed root hroot hcollects m hm := (I.listed root hroot hcollects m hm).imp_right (h m)

theorem indexedBut_empty : ({} : Container).IndexedBut inserted where
  childless _ p := by simp [Store.childrenOf, Store.get?]
  lone := nofun
  listed := nofun

/-- The invariant depends on the store by the role of the root and by its children. -/
theorem IndexedBut.setStore (I : c.IndexedBut inserted) {t : Store}
    (hnone : c.root = none → ∀ p, t.childrenOf p = [])
    (hrole : ∀ root, c.root = some root →
      (t.get? root.id).bind Record.role? = (c.store.get? root.id).bind Record.role?)
    (hkids : ∀ root, c.root = some root → c.rootCollects = true →
      ∀ m ∈ t.childrenOf root.id, m ∈ c.store.childrenOf root.id ∨ inserted m) :
    ({ c with store := t } : Container).IndexedBut inserted where
  childless := hnone
  lone root hroot hcollects :=
    I.lone root hroot ((rootCollects_congr (c := c) hroot (hrole root hroot)).symm.trans hcollects)
  listed root hroot hcollects m hm := by
    rw [rootCollects_congr (c := c) hroot (hrole root hroot)] at hcollects
    rcases hkids root hroot hcollects m hm with hm | hm
    · exact I.listed root hroot hcollects m hm
    · exact .inr hm

/-- Below a root that collects nodes, the invariant is about the children of the root. -/
theorem indexedBut_collecting {root : Handle} (hroot : c.root = some root)
    (hcollects : c.rootCollects = true)
    (hlisted : ∀ m ∈ c.store.childrenOf root.id, c.Indexes m ∨ inserted m) :
    c.IndexedBut inserted where
  childless hnone := by simp [hroot] at hnone
  lone _ _ hlone := by simp [hcollects] at hlone
  listed root' hroot' _ := by
    obtain rfl : root = root' := Option.some.inj (hroot.symm.trans hroot')
    exact hlisted

/-! ## The operations -/

/-- A new record is not looked at by the index. -/
theorem IndexedBut.push (I : c.IndexedBut inserted) (H : c.Consistent) {r : Record}
    (hchildren : r.children = []) :
    ({ c with store := c.store.push r } : Container).IndexedBut inserted := by
  have hkids := Store.childrenOf_push (s := c.store) hchildren
  refine I.setStore (fun hroot p => ?_) (fun root hroot => ?_) fun root _ _ m hm => ?_
  · rw [hkids, I.childless hroot p]
  · rw [Store.get?_push, if_neg (Nat.ne_of_lt (H.root_known root hroot))]
  · exact .inl (hkids root.id ▸ hm)

theorem IndexedBut.create (I : c.IndexedBut inserted) (H : c.Consistent)
    {f : Store → Except StoreError (NodeId × Store)}
    (hf : ∀ m t, f c.store = .ok (m, t) → ∃ r, r.children = [] ∧ t = c.store.push r) :
    (Act.onStore f c).after.IndexedBut inserted := by
  unfold Act.onStore
  cases hs : f c.store with
  | error e => exact I
  | ok result =>
    obtain ⟨r, hchildren, ht⟩ := hf result.1 result.2 hs
    show ({ c with store := result.2 } : Container).IndexedBut inserted
    rw [ht]
    exact I.push H hchildren

/-- **Linking and entering keep the invariant.** A root that is put under a new root element has
been entered before, and the node is entered now. -/
theorem IndexedBut.linked (I : c.IndexedBut inserted) (H : c.Consistent) (L : c.Linked n c₁)
    {nodes : Index} {number : Nat} (hnodes : nodes = c.nodes ++ [(number, n)]) :
    ({ c₁ with nodes := nodes } : Container).IndexedBut inserted := by
  have hin : ∀ m, ({ c₁ with nodes := nodes } : Container).Indexes m ↔ c.Indexes m ∨ n.id = m :=
    fun m => indexes_enter_iff hnodes
  cases L with
  | first hroot hn =>
    refine ⟨nofun, ?_, ?_⟩
    · rintro _ ⟨⟩ -
      exact (hin _).mpr (.inr rfl)
    · rintro _ ⟨⟩ - m hm
      simp [I.childless hroot] at hm
  | @collected root hroot hcollects hat =>
    have hstill : (Container.mk (c.store.attach root n _) c.root nodes).rootCollects = true :=
      (rootCollects_congr hroot
        ((Store.keepsKinds_attach c.store root n fun ids => ids ++ [n.id]).role?_eq _)).trans
        hcollects
    refine indexedBut_collecting hroot hstill fun m hm => ?_
    have hm : m ∈ (c.store.childrenOf root.id).filter (· != n.id) ++ [n.id] := by
      simpa only [H.forest.childrenOf_attach hat.element, if_pos] using hm
    rw [hin]
    rcases List.mem_append.mp hm with hm | hm
    · have hold := I.listed root hroot hcollects m (List.mem_of_mem_filter hm)
      exact hold.imp_left .inl
    · exact .inl (.inr (List.mem_singleton.mp hm).symm)
  | @wrapped root hroot hcollects hn =>
    have hknown := H.root_known root hroot
    have hnew := (Store.attachable_wrap hknown hn).element
    have hstill : (Container.mk ((c.store.wrap root).attach (.ofId c.store.size) n
        fun ids => ids ++ [n.id]) (some (.ofId c.store.size)) nodes).rootCollects = true := by
      rw [rootCollects_eq rfl, (Store.keepsKinds_attach _ _ _ _).role?_eq, Handle.id_ofId,
        Store.role?_wrap_size, beq_self_eq_true]
    refine indexedBut_collecting rfl hstill fun m hm => ?_
    have hm : m ∈ [root.id].filter (· != n.id) ++ [n.id] := by
      simpa only [(H.forest.wrap hknown).childrenOf_attach (p := .ofId c.store.size) hnew,
        Handle.id_ofId, H.forest.childrenOf_wrap, if_pos] using hm
    rw [hin]
    rcases List.mem_append.mp hm with hm | hm
    · obtain rfl : m = root.id := List.mem_singleton.mp (List.mem_of_mem_filter hm)
      exact .inl (.inl (I.lone root hroot hcollects))
    · exact .inl (.inr (List.mem_singleton.mp hm).symm)

/-- **An attachment keeps the invariant**, refused or not. -/
theorem IndexedBut.append (I : c.IndexedBut inserted) (H : c.Consistent) (node : Value) :
    (append node c).after.IndexedBut inserted := by
  cases hresult : (Container.append node c).result with
  | ok _ =>
    obtain ⟨n, c₁, -, L, hafter⟩ := H.appended hresult
    rw [hafter]
    exact I.linked H L rfl
  | error e =>
    rcases H.refused hresult with hafter | ⟨root, hroot, hcollects, hafter⟩
    · rw [hafter]
      exact I
    · rw [hafter]
      refine I.setStore (by simp [hroot]) (fun root' hroot' => ?_) (by simp [hcollects])
      exact Store.role?_wrap root (H.root_known root' hroot')

/-- An insertion leaves the container as it is, or the store is what an insertion below the root has
made of it. -/
theorem after_insertBefore_cases (node reference : Value) (c : Container) :
    (insertBefore node reference c).after = c ∨
      ∃ root t notices, c.root = some root ∧
        c.store.insertBefore root.given node reference = .ok (t, notices) ∧
        (insertBefore node reference c).after = { c with store := t } := by
  unfold Container.insertBefore
  split
  · rename_i root hroot
    split
    · unfold Act.onStoreReporting
      split
      · rename_i t notices hs
        exact .inr ⟨root, t, notices, hroot, hs, rfl⟩
      · exact .inl rfl
    · exact .inl rfl
  · exact .inl rfl

/-- An insertion keeps the invariant if the node counts as inserted where it takes effect. -/
theorem IndexedBut.insertBefore (I : c.IndexedBut inserted) (H : c.Consistent)
    {node reference : Value}
    (hnode : ∀ m, c.Inserts (.insertBeforeTop node reference) m → inserted m) :
    (insertBefore node reference c).after.IndexedBut inserted := by
  rcases after_insertBefore_cases node reference c with
    hafter | ⟨root, t, notices, hroot, hs, hafter⟩
  · rw [hafter]
    exact I
  · obtain ⟨hkids, hkinds⟩ := H.forest.mem_of_insertBefore hs
    rw [hafter]
    refine I.setStore (by simp [hroot]) (fun root' _ => hkinds.role?_eq _) ?_
    intro root' hroot' _ m hm
    obtain rfl : root = root' := Option.some.inj (hroot.symm.trans hroot')
    by_cases hold : m ∈ c.store.childrenOf root.id
    · exact .inl hold
    · have hnames : node.index? = some m := (hkids m hm).resolve_left hold
      have hnow : m ∈ (c.after (.insertBeforeTop node reference)).store.childrenOf root.id := by
        rw [Container.after, hafter]
        exact hm
      exact .inr (hnode m
        { names := ⟨node, reference, rfl, hnames⟩
          attaches := ⟨root, hroot, hold, hnow⟩ })

/-- An empty index under a fresh root element. -/
theorem indexedBut_clear (c : Container) : (clear c).after.IndexedBut inserted := by
  have hafter : (clear c).after =
      { store := c.store.push { content := .element .root [] [] }
        root := some (.ofId c.store.size), nodes := [] } := by
    rw [clear, Act.bind_eq (newRoot_eq c)]
    rfl
  rw [hafter]
  have hcollects : (Container.mk (c.store.push { content := .element .root [] [] })
      (some (.ofId c.store.size)) []).rootCollects = true := by
    rw [rootCollects_eq rfl, Store.get?_push, if_pos (by rfl)]
    rfl
  refine indexedBut_collecting rfl hcollects fun m hm => ?_
  simp [Store.childrenOf_push (r := { content := .element .root [] [] }) rfl,
    Store.childrenOf_size] at hm

/-- **One operation at the top level keeps the invariant**, refused or not. -/
theorem IndexedBut.after (I : c.IndexedBut inserted) (H : c.Consistent)
    (htop : operation.isTop = true) (hinserts : ∀ m, c.Inserts operation m → inserted m) :
    (c.after operation).IndexedBut inserted := by
  cases operation with
  | createText value =>
    refine I.create H fun m t h => ?_
    obtain ⟨-, text, rfl⟩ := Store.createText_eq_ok h
    exact ⟨_, rfl, rfl⟩
  | createElement role properties =>
    refine I.create H fun m t h => ?_
    obtain ⟨-, role, properties, rfl⟩ := Store.createElement_eq_ok h
    exact ⟨_, rfl, rfl⟩
  | append node => exact I.append H node
  | insertBeforeTop node reference => exact I.insertBefore H hinserts
  | remove node => exact indexedBut_clear c
  | clear => exact indexedBut_clear c
  | _ => cases htop

/-- **A run of operations at the top level keeps the invariant** of what it inserts. The induction
takes the last operation off, since each one inserts into what the operations before it have
made. -/
theorem indexedBut_run {operations : List Operation}
    (htop : ∀ operation ∈ operations, operation.isTop = true) :
    (run operations).IndexedBut (InsertedBy operations) := by
  induction operations using List.reverseRecOn with
  | nil => exact indexedBut_empty
  | append_singleton operations operation ih =>
    have I : (run operations).IndexedBut (InsertedBy (operations ++ [operation])) :=
      (ih fun earlier h => htop earlier (by simp [h])).mono fun m h => h.append [operation]
    have hlast : ∀ m, (run operations).Inserts operation m →
        InsertedBy (operations ++ [operation]) m :=
      fun m h => ⟨operations, operation, [], rfl, h⟩
    rw [run, List.foldl_append]
    exact I.after (consistent_run operations) (htop operation (by simp)) hlast

/-- An insertion of a node that hangs nowhere and has no children is not refused before a child of
a root that collects nodes, and does not reach the index. -/
theorem insertBefore_fresh (H : c.Consistent) {root reference : Handle} (hroot : c.root = some root)
    (hcollects : c.rootCollects = true) (hreference : reference.id ∈ c.store.childrenOf root.id)
    (hn : n.id < c.store.size) (htop : c.store.parent? n.id = none)
    (hleaf : c.store.childrenOf n.id = []) :
    ∃ t, Container.insertBefore n.given reference.given c = ⟨{ c with store := t }, [], .ok ()⟩ ∧
      n.id ∈ t.childrenOf root.id := by
  have hat : c.store.Attachable root.id n.id := by
    refine ⟨Store.isElement_of_mem_childrenOf hreference, hn, fun heq => ?_, fun hanc => ?_⟩
    · simp [← heq, hleaf] at hreference
    · obtain ⟨m, -, hm⟩ := Relation.TransGen.tail'_iff.mp hanc
      have hmem := (H.forest.mem_childrenOf n.id m).mpr hm
      simp [hleaf] at hmem
  have hne : n.id ≠ reference.id := by
    intro heq
    rw [H.forest.mem_childrenOf, ← heq, htop] at hreference
    cases hreference
  have hinsert := H.forest.insertBefore_eq hreference hat hne
  refine ⟨c.store.attach root n (insertBeforeIn reference.id n.id), ?_, ?_⟩
  · simp only [Container.insertBefore, hroot, hcollects, if_true, Act.onStoreReporting, hinsert]
  · rw [H.forest.childrenOf_attach hat.element, if_pos rfl,
      (Store.insertBeforeIn_perm reference.id n.id _).mem_iff]
    exact List.mem_cons_self ..

end Container

/-- **The index holds all nodes that the root collects, apart from inserted ones.** After any run of
operations at the top level, refused ones among them: each child of a root that collects nodes is in
the index, or has become a child of the root by an insertion of the run. And in each such state an
insertion leaves its node out: a known node without a parent and without children is inserted before
any child of the root, and only the store has changed then. -/
theorem top_children_are_indexed_or_inserted (operations : List Operation)
    (htop : ∀ operation ∈ operations, operation.isTop = true) :
    let c := Container.run operations
    ∀ root, c.root = some root → c.rootCollects = true →
      (∀ m ∈ c.store.childrenOf root.id, c.Indexes m ∨ Container.InsertedBy operations m) ∧
      ∀ n reference : Handle, n.id < c.store.size → c.store.parent? n.id = none →
        c.store.childrenOf n.id = [] → reference.id ∈ c.store.childrenOf root.id →
        ∃ t, Container.insertBefore n.given reference.given c =
            ⟨{ c with store := t }, [], .ok ()⟩ ∧ n.id ∈ t.childrenOf root.id := by
  intro c root hroot hcollects
  refine ⟨(Container.indexedBut_run htop).listed root hroot hcollects, ?_⟩
  intro n reference hn hfree hleaf hreference
  exact Container.insertBefore_fresh (Container.consistent_run operations) hroot hcollects
    hreference hn hfree hleaf

/-- Three texts, of which the first two are attached at the top level. -/
def twoOfThree : List Operation :=
  [.createText (.str "a"), .createText (.str "b"), .createText (.str "c"), .append (.int 0),
    .append (.int 1)]

/-- Both attached texts are in the index, and the third one can be inserted. -/
theorem attached_texts_are_indexed :
    let c := Container.run twoOfThree
    c.store.childrenOf 3 = [0, 1] ∧ (∀ m ∈ c.store.childrenOf 3, c.Indexes m) ∧
    ∃ t, Container.insertBefore (.int 2) (.int 1) c = ⟨{ c with store := t }, [], .ok ()⟩ ∧
      2 ∈ t.childrenOf 3 := by
  obtain ⟨hlisted, hinsert⟩ :=
    top_children_are_indexed_or_inserted twoOfThree (by decide) (.ofId 3) rfl rfl
  refine ⟨rfl, fun m hm => ?_, ?_⟩
  · refine (hlisted m hm).resolve_right fun hinserted => ?_
    obtain ⟨node, reference, hmem, -⟩ := hinserted.exists_mem
    simp [twoOfThree] at hmem
  · exact hinsert (.ofId 2) (.ofId 1) (by decide +kernel) rfl rfl (by decide +kernel)

/-- A text that is inserted between two attached ones is a child of the root, and not in the
index. -/
theorem inserted_text_is_not_indexed :
    let c := Container.run (twoOfThree ++ [.insertBeforeTop (.int 2) (.int 1)])
    c.root = some (.ofId 3) ∧ c.rootCollects = true ∧ c.store.childrenOf 3 = [0, 2, 1] ∧
    ¬ c.Indexes 2 := by
  refine ⟨rfl, rfl, rfl, ?_⟩
  rintro ⟨entry, hentry, hid⟩
  have hentries : (Container.run (twoOfThree ++ [.insertBeforeTop (.int 2) (.int 1)])).nodes =
      [(0, .ofId 0), (1, .ofId 1)] := rfl
  simp only [hentries, List.mem_cons, List.not_mem_nil, or_false] at hentry
  rcases hentry with rfl | rfl <;> cases hid

end DocumentTree
