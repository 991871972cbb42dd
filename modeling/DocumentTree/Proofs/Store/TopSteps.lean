import DocumentTree.Proofs.Store.Moves
import DocumentTree.Proofs.Store.TopLevel

/-!
# What an operation at the top level does

An attachment at the top level that succeeds has linked the node in one of three ways and then
entered it in the index. One that is refused has done nothing, or has only put the root under a new
root element. Whatever is to be shown of the operations at the top level follows from these cases.

## Main definitions

* `Container.Linked` — the three ways in which a node is linked, with what has been checked.
-/

namespace DocumentTree

namespace Store

variable {s t : Store}

/-! ## Roles and children after a change -/

/-- Where only links have changed, every element has its role still. -/
theorem KeepsKinds.role?_eq (h : s.KeepsKinds t) (n : NodeId) :
    (t.get? n).bind Record.role? = (s.get? n).bind Record.role? := by
  obtain ⟨f, hf⟩ := h n
  unfold content? at hf
  cases hs : s.get? n with
  | none =>
    have ht : t.get? n = none := by simpa [hs] using hf
    rw [ht]
  | some r =>
    obtain ⟨q, hq, hcontent⟩ : ∃ q, t.get? n = some q ∧ q.content = r.content.mapChildren f := by
      simpa [hs] using hf
    rw [hq]
    cases hr : r.content <;> simp [Record.role?, hcontent, hr, Content.mapChildren]

/-- A new record has no children. -/
theorem childrenOf_size (s : Store) : s.childrenOf s.size = [] := by
  rw [childrenOf, get?_eq_none (Nat.le_refl _)]
  rfl

/-- A forest stays one when a record is put under a new root element. -/
theorem Forest.wrap (H : s.Forest) {root : Handle} (hroot : root.id < s.size) :
    (s.wrap root).Forest :=
  ((H.push rfl rfl).forest.appendChild (H.appendChild_wrapper hroot)).forest

/-- The old root is the only child of the new root element, and a child of nothing else. -/
theorem Forest.childrenOf_wrap (H : s.Forest) (root : Handle) (m : NodeId) :
    (s.wrap root).childrenOf m =
      if m = s.size then [root.id] else (s.childrenOf m).filter (· != root.id) := by
  have hnew : (s.push { content := .element .root [] [] }).IsElement (Handle.ofId s.size).id :=
    s.isElement_wrapper
  have hkids := childrenOf_push (s := s) (r := { content := .element .root [] [] }) rfl
  rw [Store.wrap, (H.push rfl rfl).forest.childrenOf_attach hnew, hkids, hkids, Handle.id_ofId,
    childrenOf_size]
  rfl

/-- Known records keep their roles when one of them is put under a new root element. -/
theorem role?_wrap (root : Handle) {n : NodeId} (hn : n < s.size) :
    ((s.wrap root).get? n).bind Record.role? = (s.get? n).bind Record.role? := by
  rw [wrap, (keepsKinds_attach _ _ _ _).role?_eq, get?_push, if_neg (Nat.ne_of_lt hn)]

theorem role?_wrap_size {root : Handle} :
    ((s.wrap root).get? s.size).bind Record.role? = some .root := by
  rw [wrap, (keepsKinds_attach _ _ _ _).role?_eq, get?_push, if_pos rfl]
  rfl

/-- The new root element is at the top, so it takes in whatever was a record before. -/
theorem attachable_wrap {root : Handle} (hroot : root.id < s.size) {n : NodeId}
    (hn : n < s.size) : (s.wrap root).Attachable s.size n := by
  refine Attachable.of_top (isElement_attach.mpr s.isElement_wrapper) ?_ ?_ (Nat.ne_of_lt hn)
  · rw [wrap, parent?_attach (attachable_wrapper hroot).known, if_neg (Nat.ne_of_gt hroot),
      top_push rfl]
  · simpa using Nat.lt_succ_of_lt hn

end Store

namespace Container

variable {c c₁ : Container} {n root : Handle} {node : Value}

/-- Whether the root collects nodes is seen from its role. -/
theorem rootCollects_eq (hroot : c.root = some root) :
    c.rootCollects = (((c.store.get? root.id).bind Record.role?) == some .root) := by
  rw [rootCollects, hroot]

/-- The root collects nodes as before while it keeps its role. -/
theorem rootCollects_congr {t : Store} (hroot : c.root = some root)
    (hrole : (t.get? root.id).bind Record.role? = (c.store.get? root.id).bind Record.role?) :
    ({ c with store := t } : Container).rootCollects = c.rootCollects := by
  have hafter : ({ c with store := t } : Container).root = some root := hroot
  rw [rootCollects_eq hroot, rootCollects_eq hafter, hrole]

/-! ## Linking -/

/-- The ways in which a node is linked at the top level: what has been checked, and the container
afterwards. -/
inductive Linked (c : Container) (n : Handle) : Container → Prop
  /-- The first node becomes the root. It stays where it hangs. -/
  | first : c.root = none → n.id < c.store.size → Linked c n { c with root := some n }
  /-- A root that collects nodes takes the node in as its last child. -/
  | collected {root : Handle} : c.root = some root → c.rootCollects = true →
      c.store.Attachable root.id n.id →
      Linked c n { c with store := c.store.attach root n fun ids => ids ++ [n.id] }
  /-- Any other root is put under a new root element, and the node after it. -/
  | wrapped {root : Handle} : c.root = some root → c.rootCollects = false →
      n.id < c.store.size →
      Linked c n
        { c with
          store := (c.store.wrap root).attach (.ofId c.store.size) n fun ids => ids ++ [n.id]
          root := some (.ofId c.store.size) }

/-- Linking does not look at the index. -/
theorem Linked.nodes_eq (L : c.Linked n c₁) : c₁.nodes = c.nodes := by
  cases L <;> rfl

/-- Only a known node is linked. -/
theorem Linked.known_before (L : c.Linked n c₁) : n.id < c.store.size := by
  cases L with
  | first _ hn => exact hn
  | collected _ _ hat => exact hat.known
  | wrapped _ _ hn => exact hn

theorem Linked.known (L : c.Linked n c₁) : n.id < c₁.store.size := by
  cases L with
  | first _ hn => exact hn
  | collected _ _ hat => simpa using hat.known
  | wrapped _ _ hn => simpa using Nat.lt_succ_of_lt hn

/-- **A link that is not refused is made in one of the three ways.** -/
theorem Consistent.linked (H : c.Consistent) (h : (link node c).result = .ok ()) :
    ∃ n : Handle, n.given = node ∧ c.Linked n (link node c).after := by
  cases hroot : c.root with
  | none =>
    cases hfind : c.store.find node with
    | error e =>
      rw [link_of_not_found hroot hfind] at h
      cases h
    | ok found =>
      obtain ⟨n, r⟩ := found
      obtain ⟨hn, hr⟩ := Store.find_eq_ok.mp hfind
      rw [link_of_found hroot hfind]
      exact ⟨n, hn, .first hroot (Store.lt_size_of_get? hr)⟩
  | some root =>
    cases hcollects : c.rootCollects with
    | true =>
      have hlink := link_collected hroot hcollects node
      cases happend : c.store.appendChild root.given node with
      | error e =>
        rw [hlink, Act.onStore_eq_of_refusal happend] at h
        cases h
      | ok t =>
        rw [hlink, Act.onStore_eq_of_change happend]
        obtain ⟨p, n, hp, hn, hat, rfl⟩ := H.forest.appendChild_eq_ok_iff.mp happend
        obtain rfl : p = root := Handle.eq_of_given_eq hp
        exact ⟨n, hn, .collected hroot hcollects hat⟩
    | false =>
      have hknown := H.root_known root hroot
      have hfirst := H.forest.appendChild_wrapper hknown
      cases happend : (c.store.wrap root).appendChild (.int c.store.size) node with
      | error e =>
        rw [link_wrapping H hroot hcollects happend] at h
        cases h
      | ok t =>
        obtain ⟨k, hk, hlt⟩ := (H.forest.appendChild_wrap_ok_iff hknown).mp ⟨t, happend⟩
        obtain ⟨n, hn, rfl⟩ := Handle.exists_of_index? hk
        obtain ⟨p, m, hp, hm, -, rfl⟩ := (H.forest.wrap hknown).appendChild_eq_ok_iff.mp happend
        obtain rfl : p = .ofId c.store.size := Handle.eq_of_given_eq hp
        obtain rfl : m = n := Handle.eq_of_given_eq (hm.trans hn.symm)
        rw [link_wrapped hroot hcollects hfirst happend]
        exact ⟨m, hn, .wrapped hroot hcollects hlt⟩

/-! ## Attaching -/

/-- A known node is entered in the index under the number of entries. -/
theorem enter_known (hnumbered : c.nodes.map Prod.fst = List.range c.nodes.length)
    (hn : n.id < c.store.size) :
    enter n.given c = ⟨{ c with nodes := c.nodes ++ [(c.nodes.length, n)] }, [], .ok ()⟩ := by
  obtain ⟨r, hr⟩ := Store.lt_size_iff.mp hn
  have hfind : c.store.find n.given = .ok (n, r) := Store.find_eq_ok.mpr ⟨rfl, hr⟩
  rw [enter_of_found hfind, Index.set_length hnumbered]

/-- **An attachment that is not refused links the node and enters it at the end of the index.** -/
theorem Consistent.appended (H : c.Consistent) (h : (append node c).result = .ok ()) :
    ∃ (n : Handle) (c₁ : Container), n.given = node ∧ c.Linked n c₁ ∧
      (append node c).after = { c₁ with nodes := c.nodes ++ [(c.nodes.length, n)] } := by
  cases hlink : (link node c).result with
  | error e =>
    rw [append, Act.bind_of_error hlink] at h
    cases h
  | ok _ =>
    obtain ⟨n, rfl, L⟩ := H.linked hlink
    have hnumbered := H.nodes_numbered
    rw [← L.nodes_eq] at hnumbered
    refine ⟨n, _, rfl, L, ?_⟩
    rw [append, Act.bind_of_ok hlink, enter_known hnumbered L.known, L.nodes_eq]

/-- **An attachment that is refused changes nothing, or leaves the root under a new root element.**
-/
theorem Consistent.refused (H : c.Consistent) {e : StoreError}
    (h : (append node c).result = .error e) :
    (append node c).after = c ∨ ∃ root, c.root = some root ∧ c.rootCollects = false ∧
      (append node c).after = { c with store := c.store.wrap root } := by
  cases hroot : c.root with
  | none => exact .inl (allOrNothing_append_first hroot node e h)
  | some root =>
    cases hcollects : c.rootCollects with
    | true => exact .inl (allOrNothing_append_collected H.forest hroot hcollects node e h)
    | false =>
      by_cases hnode : c.store.Names node
      · rw [append_wrapping_of_names H hroot hcollects hnode] at h
        cases h
      · obtain ⟨e', he'⟩ := append_wrapping_of_not_names H hroot hcollects hnode
        exact .inr ⟨root, rfl, rfl, by rw [he', ← hroot]⟩

end Container

end DocumentTree
