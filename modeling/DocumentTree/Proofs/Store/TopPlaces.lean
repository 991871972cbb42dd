import DocumentTree.Proofs.Store.TopSteps

/-!
# Where a node stands that has been attached at the top level

A node that is attached at the top level is to stand there and nowhere else: it is the root, without
a parent, or it is the last child of a root that collects nodes. Where there is a root already, the
node is taken out of its old place, whatever that was. The first node only becomes the root. It
stands at the top if it had no parent; otherwise it is shown twice, as the root and under its
parent.

## Main definitions

* `Container.AtTop` — a node stands at the top and nowhere else.
-/

namespace DocumentTree

/-- What an attachment at the end leaves: the node is the last child of its new parent, and a child
of nothing else. -/
theorem Store.Forest.last_of_attach {s : Store} (H : s.Forest) {p n : Handle}
    (h : s.Attachable p.id n.id) :
    let t := s.attach p n fun ids => ids ++ [n.id]
    (t.childrenOf p.id).getLast? = some n.id ∧ t.link? n.id = some ⟨p, n.given⟩ ∧
      ∀ q, n.id ∈ t.childrenOf q → q = p.id := by
  intro t
  refine ⟨?_, ?_, fun q hq => ?_⟩
  · rw [H.childrenOf_attach h.element, if_pos rfl, List.getLast?_concat]
  · rw [link?_attach h.known, if_pos rfl]
  · by_contra hne
    rw [H.childrenOf_attach h.element, if_neg hne] at hq
    simp at hq

namespace Container

variable {c c₁ : Container} {n : Handle}

/-- The node stands at the top and nowhere else. -/
structure AtTop (c : Container) (n : Handle) : Prop where
  /-- The node is the root and has no parent, or it is the last child of a root that collects nodes
  and hangs on it. -/
  place : (c.root = some n ∧ c.store.parent? n.id = none) ∨
    ∃ root, c.root = some root ∧ c.rootCollects = true ∧
      (c.store.childrenOf root.id).getLast? = some n.id ∧
      c.store.link? n.id = some ⟨root, n.given⟩
  /-- Only the root lists the node among its children. -/
  nowhereElse : ∀ p, n.id ∈ c.store.childrenOf p → ∃ root, c.root = some root ∧ p = root.id

/-- The index does not matter for where a node stands. -/
theorem AtTop.setNodes (h : c.AtTop n) (nodes : Index) :
    ({ c with nodes := nodes } : Container).AtTop n :=
  ⟨h.place, h.nowhereElse⟩

/-- A node that is the root stands at the top just if it has no parent. -/
theorem atTop_root_iff (H : c.store.Forest) (hroot : c.root = some n) :
    c.AtTop n ↔ c.store.parent? n.id = none := by
  constructor
  · rintro ⟨⟨-, htop⟩ | ⟨root, hroot', -, hlast, -⟩, -⟩
    · exact htop
    · -- the root would be its own child
      obtain rfl : n = root := Option.some.inj (hroot.symm.trans hroot')
      have hself := (H.mem_childrenOf n.id n.id).mp (List.mem_of_getLast? hlast)
      exact absurd (.single hself) (H.acyclic n.id)
  · intro htop
    refine ⟨.inl ⟨hroot, htop⟩, fun p hp => ?_⟩
    rw [H.mem_childrenOf, htop] at hp
    cases hp

/-- **Linking moves the node to the top**, just if it is no first node that hangs elsewhere. -/
theorem Linked.atTop_iff (H : c.Consistent) (L : c.Linked n c₁) :
    c₁.AtTop n ↔ (c.root = none → c.store.parent? n.id = none) := by
  cases L with
  | first hroot hn =>
    rw [atTop_root_iff (c := { c with root := some n }) H.forest rfl]
    exact ⟨fun htop _ => htop, fun htop => htop hroot⟩
  | @collected root hroot hcollects hat =>
    obtain ⟨hlast, hlink, honly⟩ := H.forest.last_of_attach hat
    have hstill := rootCollects_congr hroot
      ((Store.keepsKinds_attach c.store root n fun ids => ids ++ [n.id]).role?_eq root.id)
    have hafter := hstill.trans hcollects
    refine iff_of_true ⟨.inr ⟨root, hroot, hafter, hlast, hlink⟩, ?_⟩ (by simp [hroot])
    exact fun p hp => ⟨root, hroot, honly p hp⟩
  | @wrapped root hroot _ hn =>
    have hknown := H.root_known root hroot
    obtain ⟨hlast, hlink, honly⟩ := (H.forest.wrap hknown).last_of_attach (p := .ofId c.store.size)
      (Store.attachable_wrap hknown hn)
    have hnew : ∀ place, (((c.store.wrap root).attach (.ofId c.store.size) n place).get?
        c.store.size).bind Record.role? = some .root := fun place => by
      rw [(Store.keepsKinds_attach _ _ _ _).role?_eq, Store.role?_wrap_size]
    refine iff_of_true ⟨.inr ⟨_, rfl, ?_, hlast, hlink⟩, ?_⟩ (by simp [hroot])
    · rw [rootCollects_eq rfl, Handle.id_ofId, hnew, beq_self_eq_true]
    · exact fun p hp => ⟨_, rfl, honly p hp⟩

end Container

/-- **A node that is attached at the top level stands there and nowhere else, unless it is the first
one and hangs on a parent.** After any run of operations, and for any value that is attached without
a refusal: the value is a handle of a known node, and afterwards the node is the root without a
parent or the last child of a collecting root, and a child of nothing else. The exception is a first
node with a parent. The store is not changed for a first node, so this one stays a child of its
parent while it becomes the root. -/
theorem attached_node_is_at_top_iff (operations : List Operation) (node : Value)
    (happend : (Container.append node (Container.run operations)).result = .ok ()) :
    let c := Container.run operations
    let after := (Container.append node c).after
    ∃ n : Handle, n.given = node ∧ n.id < c.store.size ∧
      (after.AtTop n ↔ (c.root = none → c.store.parent? n.id = none)) ∧
      (c.root = none → after.store = c.store ∧ after.root = some n) := by
  intro c after
  have H : c.Consistent := Container.consistent_run operations
  obtain ⟨n, c₁, hn, L, hafter⟩ := H.appended happend
  have hafter : after = { c₁ with nodes := c.nodes ++ [(c.nodes.length, n)] } := hafter
  refine ⟨n, hn, L.known_before, ?_, ?_⟩
  · rw [← L.atTop_iff H, hafter]
    exact ⟨fun h => h.setNodes c₁.nodes, fun h => h.setNodes _⟩
  · intro hroot
    rw [hafter]
    cases L with
    | first _ _ => exact ⟨rfl, rfl⟩
    | collected hroot' _ _ => simp [hroot] at hroot'
    | wrapped hroot' _ _ => simp [hroot] at hroot'

/-- A paragraph with a text. -/
def textInParagraph : List Operation :=
  [.createElement (.str "paragraph") .null, .createText (.str "a"), .appendChild (.int 0) (.int 1)]

/-- Next to another root, the text of a paragraph moves under the new root element. -/
theorem text_moves_out_of_paragraph :
    let c := Container.run (textInParagraph ++ [.createText (.str "b"), .append (.int 2)])
    let after := (Container.append (.int 1) c).after
    c.store.childrenOf 0 = [1] ∧ after.AtTop (.ofId 1) ∧
    after.store.childrenOf 0 = [] ∧ after.store.childrenOf 3 = [2, 1] := by
  obtain ⟨n, hn, -, htop, -⟩ := attached_node_is_at_top_iff
    (textInParagraph ++ [.createText (.str "b"), .append (.int 2)]) (.int 1) rfl
  obtain rfl : n = .ofId 1 := Handle.eq_of_given_eq hn
  exact ⟨rfl, htop.mpr nofun, rfl, rfl⟩

/-- Without a root, the text of a paragraph becomes the root and stays in the paragraph. -/
theorem first_node_stays_with_parent :
    let c := Container.run textInParagraph
    let appended := Container.append (.int 1) c
    appended.result = .ok () ∧ appended.after.root = some (.ofId 1) ∧
    appended.after.store.parent? 1 = some 0 ∧ appended.after.store.childrenOf 0 = [1] ∧
    ¬ appended.after.AtTop (.ofId 1) := by
  refine ⟨rfl, rfl, rfl, rfl, fun htop => ?_⟩
  obtain ⟨root, hroot, hid⟩ := htop.nowhereElse 0 (by decide +kernel)
  obtain rfl : Handle.ofId 1 = root := Option.some.inj hroot
  cases hid

end DocumentTree
