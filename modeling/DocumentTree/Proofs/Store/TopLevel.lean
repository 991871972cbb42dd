import DocumentTree.Proofs.Description.Mounting
import DocumentTree.Proofs.Store.Calls

/-!
# Refusals at the top level

An attachment at the top level is several operations on the store, and what they have done stays
done when a later one is refused. Where there is no root yet, and where the root collects nodes, the
node is checked before anything is changed. Where the root has to be wrapped first, the node is
checked last: the new root element is already there then, and the old root hangs on it.

## Main definitions

* `Store.wrap` — a store with one of its records put under a new root element.
* `Act.AllOrNothing` — steps that leave a container alone when they are refused there.
-/

namespace DocumentTree

/-- One of the records put under a new root element. -/
def Store.wrap (s : Store) (root : Handle) : Store :=
  (s.push { content := .element .root [] [] }).attach (.ofId s.size) root
    fun ids => ids ++ [root.id]

namespace Store

variable {s t : Store}

/-! ## A new root element takes known records in -/

theorem isElement_wrapper (s : Store) :
    (s.push { content := .element .root [] [] }).IsElement s.size :=
  ⟨_, by rw [get?_push, if_pos rfl], rfl⟩

@[simp] theorem size_wrap (s : Store) (root : Handle) : (s.wrap root).size = s.size + 1 := by
  simp [wrap]

theorem attachable_wrapper {root : Handle} (hroot : root.id < s.size) :
    (s.push { content := .element .root [] [] }).Attachable s.size root.id :=
  Attachable.of_top s.isElement_wrapper (top_push rfl)
    (by simpa using Nat.lt_succ_of_lt hroot) (Nat.ne_of_lt hroot)

/-- The old root goes under a new root element. -/
theorem Forest.appendChild_wrapper (H : s.Forest) {root : Handle} (hroot : root.id < s.size) :
    (s.push { content := .element .root [] [] }).appendChild (.int s.size) root.given =
      .ok (s.wrap root) :=
  (H.push rfl rfl).forest.appendChild_eq_ok_iff.mpr
    ⟨.ofId s.size, root, rfl, rfl, attachable_wrapper hroot, rfl⟩

/-- Next to the old root, the new root element takes in what was a record before. -/
theorem Forest.appendChild_wrap_ok_iff (H : s.Forest) {root : Handle} (hroot : root.id < s.size)
    {node : Value} :
    (∃ t, (s.wrap root).appendChild (.int s.size) node = .ok t) ↔ s.Names node := by
  have hwrap := (H.push rfl rfl).forest.appendChild (H.appendChild_wrapper hroot)
  simp only [hwrap.forest.appendChild_eq_ok_iff]
  constructor
  · rintro ⟨-, p, c, hp, rfl, hat, rfl⟩
    obtain rfl : p = .ofId s.size := Handle.eq_of_given_eq hp
    have hlt : c.id < s.size + 1 := by simpa using hat.known
    exact ⟨c.id, c.index?_given, Nat.lt_of_le_of_ne (Nat.le_of_lt_succ hlt) hat.ne⟩
  · rintro ⟨n, hn, hlt⟩
    obtain ⟨c, rfl, rfl⟩ := Handle.exists_of_index? hn
    refine ⟨_, .ofId s.size, c, rfl, rfl, Attachable.of_top ?_ ?_ ?_ (Nat.ne_of_lt hlt), rfl⟩
    · exact isElement_attach.mpr s.isElement_wrapper
    · rw [wrap, Handle.id_ofId, parent?_attach (attachable_wrapper hroot).known,
        if_neg (Nat.ne_of_gt hroot), top_push rfl]
    · simpa using Nat.lt_succ_of_lt hlt

end Store

/-! ## Steps that are refused as a whole -/

namespace Act

variable {α β : Type} {c : Container}

/-- Steps that leave the container alone when they are refused there. -/
def AllOrNothing (x : Act α) (c : Container) : Prop :=
  ∀ e, (x c).result = .error e → (x c).after = c

theorem allOrNothing_report (notice : StoreNotice) : AllOrNothing (report notice) c :=
  fun _ h => nomatch h

theorem allOrNothing_onStore (f : Store → Except StoreError (α × Store)) :
    AllOrNothing (onStore f) c := by
  intro e h
  unfold onStore at h ⊢
  cases hf : f c.store <;> simp_all

theorem allOrNothing_onStoreReporting
    (f : Store → Except StoreError (Store × List StoreNotice)) :
    AllOrNothing (onStoreReporting f) c := by
  intro e h
  unfold onStoreReporting at h ⊢
  cases hf : f c.store <;> simp_all

theorem bind_eq_of_error {x : Act α} {f : α → Act β} {c' : Container} {e : StoreError}
    (h : x c = ⟨c', [], .error e⟩) : (x >>= f) c = ⟨c', [], .error e⟩ := by
  rw [bind_of_error (by rw [h]), h]

theorem onStore_eq_of_refusal {f : Store → Except StoreError Store} {e : StoreError}
    (h : f c.store = .error e) : onStore_ f c = ⟨c, [], .error e⟩ := by
  rw [onStore_, onStore, h]
  rfl

/-- Nothing is lost by further steps that are not refused. -/
theorem AllOrNothing.bind {x : Act α} {f : α → Act β} (hx : AllOrNothing x c)
    (hf : ∀ a, (x c).result = .ok a → ∃ b, (f a (x c).after).result = .ok b) :
    AllOrNothing (x >>= f) c := by
  intro e h
  cases hr : (x c).result with
  | error e =>
    rw [bind_of_error hr]
    exact hx e hr
  | ok a =>
    obtain ⟨b, hb⟩ := hf a hr
    rw [bind_of_ok hr, hb] at h
    cases h

end Act

/-! ## The operations at the top level -/

namespace Container

variable {c : Container}

/-- Without a root, what is not found is refused. -/
theorem link_of_not_found (hroot : c.root = none) {node : Value} {e : StoreError}
    (hfind : c.store.find node = .error e) : link node c = ⟨c, [], .error e⟩ := by
  simp only [link, hroot]
  exact Act.bind_eq_of_error (Act.ask_eq hfind)

/-- A known node is entered in the index. -/
theorem enter_of_names {node : Value} (h : c.store.Names node) :
    (enter node c).result = .ok () := by
  obtain ⟨found, hfound⟩ := Store.find_ok_iff.mpr h
  rw [enter_of_found hfound]

/-- An insertion at the top level is one operation on the store, or nothing. -/
theorem allOrNothing_insertBefore (node reference : Value) :
    (insertBefore node reference).AllOrNothing c := by
  unfold Act.AllOrNothing insertBefore
  split
  · split
    · exact Act.allOrNothing_onStoreReporting _
    · exact Act.allOrNothing_report _
  · exact Act.allOrNothing_report _

/-- An attachment is refused as a whole if its link is, and if what is linked is known. -/
theorem allOrNothing_append {node : Value} (hlink : (link node).AllOrNothing c)
    (hknown : (link node c).result = .ok () → (link node c).after.store.Names node) :
    (append node).AllOrNothing c :=
  hlink.bind fun _ hok => ⟨(), enter_of_names (hknown hok)⟩

/-- The first node is checked before it becomes the root. -/
theorem allOrNothing_append_first (hroot : c.root = none) (node : Value) :
    (append node).AllOrNothing c := by
  cases hfind : c.store.find node with
  | error e =>
    have hlink := link_of_not_found hroot hfind
    refine allOrNothing_append ?_ (by simp [hlink])
    intro _ _
    rw [hlink]
  | ok found =>
    have hlink := link_of_found hroot hfind
    have hnode : c.store.Names node := Store.find_ok_iff.mp ⟨found, hfind⟩
    refine allOrNothing_append ?_ fun _ => ?_
    · intro e he
      rw [hlink] at he
      cases he
    · rw [hlink]
      exact hnode

/-- A root that collects nodes takes one in or refuses it. -/
theorem allOrNothing_append_collected (H : c.store.Forest) {root : Handle}
    (hroot : c.root = some root) (hcollects : c.rootCollects = true) (node : Value) :
    (append node).AllOrNothing c := by
  have hlink := link_collected hroot hcollects node
  refine allOrNothing_append ?_ ?_
  · unfold Act.AllOrNothing
    rw [hlink]
    exact Act.allOrNothing_onStore _
  · rw [hlink]
    cases happend : c.store.appendChild root.given node with
    | error e =>
      intro hok
      rw [Act.onStore_eq_of_refusal happend] at hok
      cases hok
    | ok t =>
      intro _
      rw [Act.onStore_eq_of_change happend]
      exact H.names_of_appendChild happend

/-- A root that has to be wrapped is wrapped before the node is appended. -/
theorem link_wrapping (H : c.Consistent) {root : Handle} (hroot : c.root = some root)
    (hcollects : c.rootCollects = false) {node : Value} {e : StoreError}
    (herror : (c.store.wrap root).appendChild (.int c.store.size) node = .error e) :
    link node c = ⟨{ c with store := c.store.wrap root }, [], .error e⟩ := by
  have hfirst := H.forest.appendChild_wrapper (H.root_known root hroot)
  have hsecond := Act.onStore_eq_of_refusal
    (f := fun s => s.appendChild (Handle.ofId c.store.size).given node)
    (c := { c with store := c.store.wrap root }) herror
  simp only [link, hroot, hcollects, Bool.false_eq_true, if_false]
  rw [Act.bind_eq (newRoot_eq c), Act.bind_eq (Act.onStore_eq_of_change hfirst),
    Act.bind_eq_of_error hsecond, hroot]

/-- Where the root has to be wrapped, a known node is taken in. -/
theorem append_wrapping_of_names (H : c.Consistent) {root : Handle} (hroot : c.root = some root)
    (hcollects : c.rootCollects = false) {node : Value} (hnode : c.store.Names node) :
    (append node c).result = .ok () := by
  have hfirst := H.forest.appendChild_wrapper (H.root_known root hroot)
  obtain ⟨u, hsecond⟩ :=
    (H.forest.appendChild_wrap_ok_iff (H.root_known root hroot)).mpr hnode
  have hwrap := (H.forest.push rfl rfl).forest.appendChild hfirst
  have hlink := link_wrapped hroot hcollects hfirst hsecond
  rw [append, Act.bind_of_ok (by rw [hlink]), hlink]
  exact enter_of_names (hwrap.forest.names_of_appendChild hsecond)

/-- Where the root has to be wrapped, any other value is refused when the root is wrapped. -/
theorem append_wrapping_of_not_names (H : c.Consistent) {root : Handle}
    (hroot : c.root = some root) (hcollects : c.rootCollects = false) {node : Value}
    (hnode : ¬ c.store.Names node) :
    ∃ e, append node c = ⟨{ c with store := c.store.wrap root }, [], .error e⟩ := by
  rw [← H.forest.appendChild_wrap_ok_iff (H.root_known root hroot), ← exists_error_iff] at hnode
  obtain ⟨e, he⟩ := hnode
  exact ⟨e, Act.bind_eq_of_error (link_wrapping H hroot hcollects he)⟩

end Container

/-- **A refused attachment at the top level changes nothing, unless the root is wrapped for an
unknown node.** After any run of operations and for any handles: a refused insertion leaves the
container as it was, and so does a refused attachment where there is no root yet, where the root
collects nodes, and where the node is known. Any other root is wrapped before the node is checked,
so an unknown node is refused too late: the new root element stays behind, and the old root hangs on
it. -/
theorem refused_attachment_leaves_at_most_wrapper (operations : List Operation)
    (node reference : Value) :
    let c := Container.run operations
    (Container.insertBefore node reference).AllOrNothing c ∧
    (c.root = none ∨ c.rootCollects = true ∨ c.store.Names node →
      (Container.append node).AllOrNothing c) ∧
    ∀ root, c.root = some root → c.rootCollects = false → ¬ c.store.Names node →
      ∃ e, Container.append node c = ⟨{ c with store := c.store.wrap root }, [], .error e⟩ := by
  intro c
  have H : c.Consistent := Container.consistent_run operations
  refine ⟨Container.allOrNothing_insertBefore node reference, fun hchecked => ?_,
    fun root hroot hcollects => Container.append_wrapping_of_not_names H hroot hcollects⟩
  cases hroot : c.root with
  | none => exact Container.allOrNothing_append_first hroot node
  | some root =>
    cases hcollects : c.rootCollects with
    | true => exact Container.allOrNothing_append_collected H.forest hroot hcollects node
    | false =>
      have hnode : c.store.Names node := by simpa [hroot, hcollects] using hchecked
      intro e he
      rw [Container.append_wrapping_of_names H hroot hcollects hnode] at he
      cases he

/-- A root element with a text. -/
def collecting : List Operation :=
  [.createElement (.str "root") .null, .append (.int 0), .createText (.str "a"), .append (.int 1)]

/-- A root element refuses an unknown node and stays as it is. -/
theorem collecting_root_refuses_unknown_node :
    let c := Container.run collecting
    let inserted := Container.insertBefore (.int 7) (.int 1) c
    let appended := Container.append (.int 7) c
    c.rootCollects = true ∧
    inserted.result = .error (.unknownHandle (.int 7)) ∧ inserted.after = c ∧
    appended.result = .error (.unknownHandle (.int 7)) ∧ appended.after = c := by
  obtain ⟨hinsert, happend, -⟩ :=
    refused_attachment_leaves_at_most_wrapper collecting (.int 7) (.int 1)
  have hcollects : (Container.run collecting).rootCollects = true := by rfl
  exact ⟨hcollects, rfl, hinsert _ rfl, rfl, happend (.inr (.inl hcollects)) _ rfl⟩

/-- A text as the root. -/
def loneText : List Operation :=
  [.createText (.str "a"), .append (.int 0)]

/-- A text that is the root is put under a new root element before an unknown node is refused. -/
theorem unknown_node_leaves_wrapper :
    let c := Container.run loneText
    let appended := Container.append (.int 7) c
    appended.result = .error (.unknownHandle (.int 7)) ∧ appended.after ≠ c ∧
    c.store.size = 1 ∧ appended.after.store.size = 2 ∧
    c.store.parent? 0 = none ∧ appended.after.store.parent? 0 = some 1 := by
  refine ⟨rfl, fun hsame => ?_, rfl, rfl, rfl, rfl⟩
  have hsize := congrArg (fun c => c.store.size) hsame
  exact absurd hsize (by decide)

end DocumentTree
