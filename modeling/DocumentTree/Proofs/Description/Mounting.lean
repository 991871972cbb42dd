import DocumentTree.Proofs.Description.Brackets
import DocumentTree.Proofs.Description.Building

/-!
# Mounting descriptions

Mounting builds each description and attaches it at the top level: the first one becomes the root, a
root element takes further ones in, and another root is put under a new root element. In all three
ways the container holds the descriptions one after the other, root elements being mere brackets.

## Main definitions

* `Container.Mounted` — a container that holds descriptions at the top level.
* `Child.isDescription` — what a description among children may be made of.
-/

namespace DocumentTree

namespace Container

/-- A container that holds descriptions at the top level. Its root stands for all of them. -/
structure Mounted (c : Container) (es : List Element) : Prop where
  /-- The links of the store agree with each other. -/
  forest : c.store.Forest
  /-- Without a root there is nothing. -/
  rootless : c.root = none → es = []
  /-- The root is all there is. -/
  rooted : ∀ root, c.root = some root →
    ∃ e, c.store.Stands e root.id ∧ Element.Alike [e] es

/-- A root that takes further nodes in is a root element. -/
theorem role_of_rootCollects {c : Container} {root : Handle} (hroot : c.root = some root)
    {e : Element} (hs : c.store.Spells e root.id) (h : c.rootCollects = true) :
    ∃ role properties es, e = .element role properties es ∧ Role.ofValue role = .root := by
  rw [rootCollects, hroot] at h
  cases e with
  | text value =>
    obtain ⟨r, hr, hcontent⟩ := Option.map_eq_some_iff.mp hs
    simp [hr, Record.role?, hcontent] at h
  | element role properties es =>
    obtain ⟨ids, hids, -⟩ := hs
    obtain ⟨r, hr, hcontent⟩ := Option.map_eq_some_iff.mp hids
    refine ⟨role, properties, es, rfl, ?_⟩
    simpa [hr, Record.role?, hcontent] using h

/-- What is mounted stays mounted when only new records are made. -/
theorem Mounted.extend {c : Container} {es : List Element} (M : c.Mounted es) {t : Store}
    (X : c.store.Extends t fun _ => False) : ({ c with store := t } : Container).Mounted es where
  forest := X.forest
  rootless := M.rootless
  rooted := by
    intro root hroot
    obtain ⟨e, he, halike⟩ := M.rooted root hroot
    exact ⟨e, he.extend M.forest X, halike⟩

theorem Mounted.root_lt {c : Container} {es : List Element} (M : c.Mounted es) {root : Handle}
    (hroot : c.root = some root) : root.id < c.store.size := by
  obtain ⟨e, he, -⟩ := M.rooted root hroot
  exact he.spells.lt_size

/-- A root that stands for the descriptions. -/
theorem mounted_root {s : Store} (H : s.Forest) (root : Handle) {e : Element}
    (he : s.Stands e root.id) {es : List Element} (halike : Element.Alike [e] es)
    (nodes : Index) :
    ({ store := s, root := some root, nodes := nodes } : Container).Mounted es where
  forest := H
  rootless := nofun
  rooted := by
    rintro _ ⟨⟩
    exact ⟨e, he, halike⟩

/-! ## Attaching at the top level -/

theorem newRoot_eq (c : Container) :
    newRoot c =
      ⟨{ c with store := c.store.push { content := .element .root [] [] } }, [],
        .ok (.ofId c.store.size)⟩ :=
  rfl

/-- What is found is entered in the index. -/
theorem enter_of_found {c : Container} {node : Value} {found : Handle × Record}
    (hfind : c.store.find node = .ok found) :
    enter node c = ⟨{ c with nodes := c.nodes.set c.nodes.length found.1 }, [], .ok ()⟩ := by
  rw [enter, Act.bind_eq (Act.ask_eq hfind)]
  rfl

/-- Without a root, what is found becomes the root. -/
theorem link_of_found {c : Container} (hroot : c.root = none) {node : Value}
    {found : Handle × Record} (hfind : c.store.find node = .ok found) :
    link node c = ⟨{ c with root := some found.1 }, [], .ok ()⟩ := by
  simp only [link, hroot]
  rw [Act.bind_eq (Act.ask_eq hfind)]
  rfl

/-- A root that collects nodes takes one in by one operation on the store. -/
theorem link_collected {c : Container} {root : Handle} (hroot : c.root = some root)
    (hcollects : c.rootCollects = true) (node : Value) :
    link node c = Act.onStore_ (fun s => s.appendChild root.given node) c := by
  simp only [link, hroot, hcollects, if_true]

/-- A root element takes the description in. -/
private theorem link_absorbed {c : Container} {root : Handle} (hroot : c.root = some root)
    (hcollects : c.rootCollects = true) {node : Value} {t : Store}
    (happend : c.store.appendChild root.given node = .ok t) :
    link node c = ⟨{ c with store := t, root := some root }, [], .ok ()⟩ := by
  rw [link_collected hroot hcollects, ← hroot]
  exact Act.onStore_eq_of_change (f := fun s => s.appendChild root.given node) happend

/-- Any other root is put under a new root element, together with the description. -/
theorem link_wrapped {c : Container} {root : Handle} (hroot : c.root = some root)
    (hcollects : c.rootCollects = false) {node : Value} {t u : Store}
    (hfirst : (c.store.push { content := .element .root [] [] }).appendChild
      (.int c.store.size) root.given = .ok t)
    (hsecond : t.appendChild (.int c.store.size) node = .ok u) :
    link node c =
      ⟨{ c with store := u, root := some (.ofId c.store.size) }, [.wrapped c.store.size],
        .ok ()⟩ := by
  simp only [link, hroot, hcollects, Bool.false_eq_true, if_false]
  rw [Act.bind_eq (newRoot_eq c), Act.bind_eq (Act.onStore_eq_of_change hfirst),
    Act.bind_eq (Act.onStore_eq_of_change hsecond)]
  rfl

/-- **All three ways of linking at the top level add the description at the end.** -/
theorem Mounted.link {c : Container} {es : List Element} (M : c.Mounted es) {e : Element}
    {n : NodeId} (hn : c.store.Stands e n) (hne : ∀ root, c.root = some root → n ≠ root.id) :
    ∃ t root notices,
      link (.int n) c = ⟨{ c with store := t, root := some root }, notices, .ok ()⟩ ∧
      n < t.size ∧ ({ c with store := t, root := some root } : Container).Mounted (es ++ [e]) := by
  have hlt : n < c.store.size := hn.spells.lt_size
  cases hroot : c.root with
  | none =>
    obtain rfl := M.rootless hroot
    obtain ⟨r, hfind⟩ := Store.find_int hlt
    exact ⟨c.store, .ofId n, [], link_of_found hroot hfind, hlt,
      mounted_root M.forest (.ofId n) hn (.refl [e]) c.nodes⟩
  | some root =>
    obtain ⟨f, hf, halike⟩ := M.rooted root hroot
    have hnroot : n ≠ root.id := hne root hroot
    by_cases hcollects : c.rootCollects = true
    · obtain ⟨role, properties, fs, rfl, hrole⟩ := role_of_rootCollects hroot hf.spells hcollects
      obtain ⟨t, happend, X, hstands, -⟩ := M.forest.append_stands (c := .ofId n) hf hn hnroot
      have hfs : Element.Alike fs es :=
        (Element.alike_children hrole properties fs).symm.trans halike
      have hall := (Element.alike_children hrole properties _).trans (hfs.append (.refl [e]))
      exact ⟨t, root, [], link_absorbed hroot hcollects happend,
        Nat.lt_of_lt_of_le hlt X.size_le, mounted_root X.forest root hstands hall c.nodes⟩
    · rw [Bool.not_eq_true] at hcollects
      have hwrapper := Store.stands_element (s := c.store) Role.root.toValue []
      have X := M.forest.extends_push (r := { content := .element .root [] [] }) rfl rfl
      have hfw : root.id ≠ c.store.size := Nat.ne_of_lt hf.spells.lt_size
      have hnw : n ≠ c.store.size := Nat.ne_of_lt hlt
      -- the old root goes under the new one first, and the description keeps standing meanwhile
      obtain ⟨t, hfirst, Y, hone, hkeep⟩ := X.forest.append_stands (p := .ofId c.store.size)
        hwrapper (hf.extend M.forest X) hfw
      have hnt : t.Stands e n := hkeep e n hnw hnroot (hn.extend M.forest X)
      obtain ⟨u, hsecond, Z, htwo, -⟩ := Y.forest.append_stands (p := .ofId c.store.size)
        (c := .ofId n) hone hnt hnw
      have hall : Element.Alike [.element Role.root.toValue [] [f, e]] (es ++ [e]) :=
        (Element.alike_children rfl [] [f, e]).trans (halike.append (.refl [e]))
      exact ⟨u, .ofId c.store.size, _, link_wrapped hroot hcollects hfirst hsecond,
        Nat.lt_of_lt_of_le hnt.spells.lt_size Z.size_le,
        mounted_root Z.forest (.ofId c.store.size) htwo hall c.nodes⟩

/-- **Attaching at the top level adds the description at the end.** -/
theorem Mounted.append {c : Container} {es : List Element} (M : c.Mounted es) {e : Element}
    {n : NodeId} (hn : c.store.Stands e n) (hne : ∀ root, c.root = some root → n ≠ root.id) :
    ∃ c' notices, append (.int n) c = ⟨c', notices, .ok ()⟩ ∧ c'.Mounted (es ++ [e]) := by
  obtain ⟨t, root, notices, hlink, hlt, M'⟩ := M.link hn hne
  let c' : Container :=
    { c with store := t, root := some root, nodes := c.nodes.set c.nodes.length (.ofId n) }
  obtain ⟨r, hfind⟩ := Store.find_int hlt
  refine ⟨c', notices ++ [], ?_, M'.forest, M'.rootless, M'.rooted⟩
  rw [Container.append, Act.bind_of_ok (by rw [hlink]), hlink, enter_of_found hfind]

end Container

/-! ## Mounting -/

open Container (Mounted)

theorem mounted_empty : ({} : Container).Mounted [] where
  forest := Container.consistent_empty.forest
  rootless _ := rfl
  rooted := nofun

/-- **Mounting adds the descriptions at the end**, in order, and is not refused. -/
theorem mount_spec (es : List Element) (hes : Element.isKnownAll es = true) {c : Container}
    {done : List Element} (M : c.Mounted done) :
    (mount es c).result = .ok () ∧ (mount es c).after.Mounted (done ++ es) := by
  induction es generalizing c done with
  | nil => exact ⟨rfl, by rwa [List.append_nil]⟩
  | cons e es ih =>
    rw [Element.isKnownAll, Bool.and_eq_true] at hes
    obtain ⟨n, t, hbuild, X, hn, hstands⟩ := e.build_spec hes.1 c M.forest
    have hne : ∀ root, c.root = some root → n ≠ root.id := fun root hroot =>
      Nat.ne_of_gt (Nat.lt_of_lt_of_le (M.root_lt hroot) hn)
    obtain ⟨c', notices, happend, M₂⟩ := (M.extend X).append hstands hne
    obtain ⟨hresult, M₃⟩ := ih hes.2 M₂
    rw [mount, Act.bind_eq hbuild, Act.bind_of_ok (by rw [happend]), happend]
    exact ⟨hresult, by simpa using M₃⟩

/-! ## What is mounted -/

/-- Apart from root elements, the tree in the container is the descriptions in order. -/
theorem Container.Mounted.tree {c : Container} {es : List Element} (M : c.Mounted es) :
    ∃ tree, c.store.tree? c.rootHandle = .ok tree ∧
      Tree.FitsAll (tree.elim [] Tree.splice) (Element.spliceAll es) := by
  cases hroot : c.root with
  | none =>
    obtain rfl := M.rootless hroot
    refine ⟨none, ?_, trivial⟩
    rw [Container.rootHandle, hroot]
    rfl
  | some root =>
    obtain ⟨e, he, halike⟩ := M.rooted root hroot
    obtain ⟨t, hsubtree, htree, -⟩ := M.forest.exists_tree root he.spells.lt_size
    have hfits : t.Fits e := Store.Spells.fits e he.spells hsubtree
    refine ⟨some t, ?_, ?_⟩
    · rw [Container.rootHandle, hroot]
      exact htree
    · have hsplice := Tree.hereditary_splice.fits t e hfits
      rw [← halike.splice]
      simpa [Element.spliceAll] using hsplice

/-- The container is lowered to the document of one root element around the descriptions. -/
theorem Container.Mounted.result_lower {c : Container} {es : List Element} (M : c.Mounted es) :
    (c.store.lower c.rootHandle).result =
      (Element.element Role.root.toValue [] es).document := by
  cases hroot : c.root with
  | none =>
    obtain rfl := M.rootless hroot
    rw [Container.rootHandle, hroot]
    rfl
  | some root =>
    obtain ⟨e, he, halike⟩ := M.rooted root hroot
    rw [Container.rootHandle, hroot]
    have hroot : Element.Alike [Element.element Role.root.toValue [] es] es :=
      Element.alike_children rfl [] es
    exact (M.forest.result_lower he.spells).trans (halike.trans hroot.symm).document

/-! ## Descriptions among children -/

mutual

/-- Whether data is made of texts, null, truth values and lists of such. -/
def Value.isWriting : Value → Bool
  | .null | .bool _ | .str _ => true
  | .list vs => areWriting vs
  | _ => false

/-- Whether all data in a list is made of texts, null, truth values and lists of such. -/
def Value.areWriting : List Value → Bool
  | [] => true
  | v :: vs => isWriting v && areWriting vs

end

namespace Child

mutual

/-- Whether a child is made of texts, elements with roles of the vocabulary, null, truth values and
sequences of such. -/
def isDescription : Child → Bool
  | item e => e.isKnown
  | data v => v.isWriting
  | sequence children => areDescriptions children

/-- Whether all children are made of such. -/
def areDescriptions : List Child → Bool
  | [] => true
  | child :: rest => isDescription child && areDescriptions rest

end

theorem isKnownAll_append {es fs : List Element} (hes : Element.isKnownAll es = true)
    (hfs : Element.isKnownAll fs = true) : Element.isKnownAll (es ++ fs) = true := by
  induction es with
  | nil => exact hfs
  | cons e es ih =>
    rw [Element.isKnownAll, Bool.and_eq_true] at hes
    rw [List.cons_append, Element.isKnownAll, hes.1, ih hes.2]
    rfl

mutual

theorem textsOf_spec : (v : Value) → v.isWriting = true →
    ∃ es, textsOf v = .ok es ∧ Element.isKnownAll es = true
  | .null, _ => ⟨[], rfl, rfl⟩
  | .bool _, _ => ⟨[], rfl, rfl⟩
  | .str s, _ => ⟨[.text s], rfl, rfl⟩
  | .list vs, h => textsOfAll_spec vs h
  | .int _, h => by cases h
  | .float _, h => by cases h
  | .map _, h => by cases h
  | .object .., h => by cases h

theorem textsOfAll_spec : (vs : List Value) → Value.areWriting vs = true →
    ∃ es, textsOfAll vs = .ok es ∧ Element.isKnownAll es = true
  | [], _ => ⟨[], rfl, rfl⟩
  | v :: vs, h => by
    rw [Value.areWriting, Bool.and_eq_true] at h
    obtain ⟨es, hes, hknown⟩ := textsOf_spec v h.1
    obtain ⟨fs, hfs, hknown'⟩ := textsOfAll_spec vs h.2
    exact ⟨es ++ fs, by simp [textsOfAll, hes, hfs], isKnownAll_append hknown hknown'⟩

end

mutual

theorem items_spec : (child : Child) → child.isDescription = true →
    ∃ es, child.items = .ok es ∧ Element.isKnownAll es = true
  | item e, h => by
    rw [isDescription] at h
    exact ⟨[e], rfl, by simp [Element.isKnownAll, h]⟩
  | data v, h => textsOf_spec v h
  | sequence children, h => flatten_spec children h

theorem flatten_spec : (children : List Child) → areDescriptions children = true →
    ∃ es, flatten children = .ok es ∧ Element.isKnownAll es = true
  | [], _ => ⟨[], rfl, rfl⟩
  | child :: rest, h => by
    rw [areDescriptions, Bool.and_eq_true] at h
    obtain ⟨es, hes, hknown⟩ := items_spec child h.1
    obtain ⟨fs, hfs, hknown'⟩ := flatten_spec rest h.2
    exact ⟨es ++ fs, by simp [flatten, hes, hfs], isKnownAll_append hknown hknown'⟩

end

end Child

/-- **Mounting descriptions and lowering the container is lowering one root description by
recursion**, for any texts, elements, sequences and gaps. Apart from root elements, the tree in the
container is the described items, each once and in order. -/
theorem mounted_lowers_directly (ds : List Child) (hds : Child.areDescriptions ds = true) :
    ∃ es, Child.flatten [.sequence ds] = .ok es ∧
      Element.describe (.str "root") .null ds = .ok (.element (.str "root") [] es) ∧
      let reply := mount es {}
      let store := reply.after.store
      let root := reply.after.rootHandle
      reply.result = .ok () ∧
      (∃ tree, store.tree? root = .ok tree ∧
        Tree.FitsAll (tree.elim [] Tree.splice) (Element.spliceAll es)) ∧
      (store.lower root).result = (Element.element (.str "root") [] es).document := by
  obtain ⟨es, hes, hknown⟩ := Child.flatten_spec ds hds
  obtain ⟨hresult, M⟩ := mount_spec es hknown mounted_empty
  refine ⟨es, ?_, ?_, hresult, M.tree, M.result_lower⟩
  · simp [Child.flatten, Child.items, hes]
  · rw [Element.describe, hes]
    rfl

/-- A text, a root element and a paragraph, in a nested sequence with gaps. The text becomes the
root first and is wrapped when the root element comes. -/
def mixed : List Child :=
  [.data (.bool true), .data (.str "a"),
    .sequence [.data .null,
      .item (.element (.str "root") []
        [.element (.str "heading") [("depth", .int 0)] [.text "b"],
          .element (.str "root") [] [.element (.str "strong") [] [.text "c"]]]),
      .data (.list [.str "d", .bool false])],
    .item (.element (.str "paragraph") [] [.element (.str "image") [("url", .str "e")] []])]

/-- The items of it. -/
def mixedItems : List Element :=
  [.text "a",
    .element (.str "root") []
      [.element (.str "heading") [("depth", .int 0)] [.text "b"],
        .element (.str "root") [] [.element (.str "strong") [] [.text "c"]]],
    .text "d",
    .element (.str "paragraph") [] [.element (.str "image") [("url", .str "e")] []]]

/-- The document of it: what stands on both sides of a bracket runs together. -/
def mixedDocument : Node :=
  .document [.paragraph [.text "a"] synthesized, .heading .first [.text "b"],
    .paragraph [.strong [.text "c"], .text "d"] synthesized, .paragraph [.image "e" "" none]]

theorem mixed_lowers_directly :
    Child.areDescriptions mixed = true ∧
      Child.flatten [.sequence mixed] = .ok mixedItems ∧
      ((mount mixedItems {}).after.store.lower (mount mixedItems {}).after.rootHandle).result =
        .ok mixedDocument := by
  have hds : Child.areDescriptions mixed = true := by cbv
  obtain ⟨es, hes, -, -, -, hlower⟩ := mounted_lowers_directly mixed hds
  have hitems : Child.flatten [.sequence mixed] = .ok mixedItems := by cbv
  obtain rfl : mixedItems = es := Except.ok.inj (hitems.symm.trans hes)
  exact ⟨hds, hitems, hlower.trans (by cbv)⟩

end DocumentTree
