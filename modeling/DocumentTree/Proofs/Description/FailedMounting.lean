import DocumentTree.Proofs.Store.TopSteps

/-!
# Mounting that fails

A description with a role outside the vocabulary is refused when its first element with such a role,
depth first, is to be created. What was built of it by then stays in the store: new records that
hang on each other, but on no record that was there before. So the container holds what it held, and
nothing of the failed item can be reached from its root.

The items before the failed one have been mounted by then, whatever state the container was in: an
item that has just been built has no parent and no old record below it, so it can be attached to any
root.

## Main definitions

* `Element.roles` — the roles of a description, depth first.
* `Element.unknownRole?` — the first of them that is outside the vocabulary.
-/

namespace DocumentTree

/-! ## Roles of a description -/

namespace Element

mutual

/-- The roles in a description, each before those of the children. -/
def roles : Element → List Value
  | text _ => []
  | element role _ es => role :: rolesAll es

/-- The roles in descriptions, in order. -/
def rolesAll : List Element → List Value
  | [] => []
  | e :: es => roles e ++ rolesAll es

end

/-- The first role of some that is outside the vocabulary. -/
def firstUnknown? (roles : List Value) : Option Value :=
  roles.find? fun role => !(Role.ofValue role).isKnown

/-- The first role in a description, depth first, that is outside the vocabulary. -/
def unknownRole? (e : Element) : Option Value :=
  firstUnknown? e.roles

mutual

theorem isKnown_of_unknownRole? : (e : Element) → e.unknownRole? = none → e.isKnown = true
  | text _, _ => rfl
  | element role _ es, h => by
    rw [unknownRole?, firstUnknown?, roles, List.find?_cons] at h
    split at h
    · cases h
    · rename_i hrole
      rw [isKnown, isKnownAll_of_firstUnknown? es h, Bool.and_true]
      simpa using hrole

theorem isKnownAll_of_firstUnknown? : (es : List Element) → firstUnknown? (rolesAll es) = none →
    isKnownAll es = true
  | [], _ => rfl
  | e :: es, h => by
    rw [rolesAll, firstUnknown?, List.find?_append, Option.or_eq_none_iff] at h
    rw [isKnownAll, isKnown_of_unknownRole? e h.1, isKnownAll_of_firstUnknown? es h.2]
    rfl

end

end Element

/-! ## New records beside old ones -/

namespace Store

variable {s t : Store}

theorem Extends.parent?_eq (X : s.Extends t fun _ => False) {n : NodeId} (hn : n < s.size) :
    t.parent? n = s.parent? n := by
  rw [parent?, parent?, X.kept n hn id]

theorem Extends.childrenOf_eq (X : s.Extends t fun _ => False) {n : NodeId} (hn : n < s.size) :
    t.childrenOf n = s.childrenOf n := by
  rw [childrenOf, childrenOf, X.kept n hn id]

/-- What is above an old record is old. -/
theorem Extends.ancestor_lt (H : s.Forest) (X : s.Extends t fun _ => False) {a n : NodeId}
    (h : t.Ancestor a n) (hn : n < s.size) : a < s.size := by
  have hstep : ∀ c p, c < s.size → t.HangsOn c p → p < s.size := by
    intro c p hc hp
    rw [HangsOn, X.parent?_eq hc] at hp
    exact (H.isElement_parent hp).lt_size
  induction h with
  | single hp => exact hstep _ _ hn hp
  | tail _ hp ih => exact hstep _ _ ih hp

/-- What is below an old record is old. -/
theorem Extends.descendant_lt (H : s.Forest) (X : s.Extends t fun _ => False) {a n : NodeId}
    (h : t.Ancestor a n) (ha : a < s.size) : n < s.size := by
  have hstep : ∀ c p, p < s.size → t.HangsOn c p → c < s.size := by
    intro c p hp hc
    rw [HangsOn, ← X.forest.mem_childrenOf, X.childrenOf_eq hp, H.mem_childrenOf] at hc
    exact lt_size_of_parent? hc
  induction h using Relation.TransGen.head_induction_on with
  | single hc => exact hstep _ _ ha hc
  | head hc _ ih => exact hstep _ _ ih hc

theorem mapM_eq_some_mono {α β : Type} {f g : α → Option β} {xs : List α} {ys : List β}
    (h : ∀ x y, f x = some y → g x = some y) (hf : xs.mapM f = some ys) :
    xs.mapM g = some ys := by
  induction xs generalizing ys with
  | nil => exact hf
  | cons x xs ih =>
    simp only [List.mapM_cons, Option.bind_eq_bind, Option.bind_eq_some_iff] at hf ⊢
    obtain ⟨y, hy, zs, hzs, heq⟩ := hf
    exact ⟨y, h x y hy, zs, ih hzs, heq⟩

/-- A subtree that is unfolded within a depth is unfolded alike within a greater one. -/
theorem subtreeWithin_mono {depth depth' : Nat} (hdepth : depth ≤ depth') {given : Value}
    {n : NodeId} {tree : Tree} (h : s.subtreeWithin depth given n = some tree) :
    s.subtreeWithin depth' given n = some tree := by
  induction depth generalizing depth' given n tree with
  | zero => cases h
  | succ depth ih =>
    cases depth' with
    | zero => exact absurd hdepth (Nat.not_succ_le_zero depth)
    | succ depth' =>
      rw [subtreeWithin_succ] at h ⊢
      cases hcontent : s.content? n with
      | none => simp [hcontent] at h
      | some content =>
        cases content with
        | text value => simpa [hcontent] using h
        | element role properties ids =>
          simp only [hcontent, Option.map_eq_some_iff] at h ⊢
          obtain ⟨trees, htrees, rfl⟩ := h
          refine ⟨trees, ?_, rfl⟩
          exact mapM_eq_some_mono (fun c tree => ih (Nat.le_of_succ_le_succ hdepth)) htrees

/-- New records leave the subtrees of the old ones alone. -/
theorem Extends.subtree?_eq (H : s.Forest) (X : s.Extends t fun _ => False) {h : Handle}
    (hn : h.id < s.size) : t.subtree? h = s.subtree? h := by
  obtain ⟨tree, htree⟩ := H.exists_subtree h hn
  have hlarger : s.subtreeWithin t.size h.given h.id = some tree :=
    subtreeWithin_mono X.size_le htree
  rw [htree, subtree?, ← hlarger]
  refine subtreeWithin_congr (fun m => m < s.size) (fun m d _ hd => ?_)
    (fun m hm => content?_congr (X.kept m hm id)) t.size h.given hn
  have hlt : d < s.size := lt_size_of_parent? ((H.mem_childrenOf m d).mp hd)
  exact ⟨hlt, by rw [link?, link?, X.kept d hlt id]⟩

end Store

namespace Container

variable {c : Container} {t : Store}

/-- New records leave the tree of a container alone. -/
theorem Consistent.exists_tree (H : c.Consistent) (X : c.store.Extends t fun _ => False) :
    ∃ tree, c.store.tree? c.rootHandle = .ok tree ∧ t.tree? c.rootHandle = .ok tree := by
  cases hroot : c.root with
  | none =>
    rw [rootHandle, hroot]
    exact ⟨none, rfl, rfl⟩
  | some root =>
    have hknown := H.root_known root hroot
    obtain ⟨tree, hs, hstree, -⟩ := H.forest.exists_tree root hknown
    obtain ⟨tree', ht, httree, -⟩ :=
      X.forest.exists_tree root (Nat.lt_of_lt_of_le hknown X.size_le)
    rw [X.subtree?_eq H.forest hknown, hs, Option.some.injEq] at ht
    subst ht
    rw [rootHandle, hroot]
    exact ⟨some tree, hstree, httree⟩

end Container

/-! ## Building -/

theorem Act.onStore_eq_of_error {α : Type} {f : Store → Except StoreError (α × Store)}
    {c : Container} {e : StoreError} (h : f c.store = .error e) :
    Act.onStore f c = ⟨c, [], .error e⟩ := by
  rw [Act.onStore, h]

namespace Element

open Store (Extends)

/-- An element with a role outside the vocabulary is not created. -/
theorem createElement_of_unknown {s : Store} {role : Value}
    (h : (Role.ofValue role).isKnown = false) (hkey : role.isKey = true) (properties : Entries) :
    s.createElement role (.map properties) = .error (.unsupportedRole role) := by
  simp [Store.createElement, Store.knownRole, h, hkey]

mutual

/-- **A description is refused for its first role outside the vocabulary.** What has been built
before are new records. -/
theorem build_refused : (e : Element) → {role : Value} → e.unknownRole? = some role →
    role.isKey = true → (c : Container) → c.store.Forest →
    ∃ t, e.build c = ⟨{ c with store := t }, [], .error (.unsupportedRole role)⟩ ∧
      Extends c.store t fun _ => False
  | .text _, _, h, _, _, _ => by cases h
  | .element first properties es, role, h, hkey, c, H => by
    rw [unknownRole?, firstUnknown?, roles, List.find?_cons] at h
    split at h
    · rename_i hunknown
      obtain rfl : first = role := Option.some.inj h
      have hfirst : (Role.ofValue first).isKnown = false := by simpa using hunknown
      have hcreate := createElement_of_unknown (s := c.store) hfirst hkey properties
      refine ⟨c.store, ?_, ⟨H.follows, fun _ _ _ => rfl⟩⟩
      rw [build, Act.bind_eq_of_error (Act.onStore_eq_of_error hcreate)]
    · rename_i hknown
      have hfirst : (Role.ofValue first).isKnown = true := by simpa using hknown
      have hcreate := Store.createElement_of_isKnown (s := c.store) hfirst properties
      have X := H.extends_push (r := { content := .element (Role.ofValue first) properties [] })
        rfl rfl
      obtain ⟨t, hbuild, Y⟩ := buildChildren_refused es h hkey
        { c with store := c.store.push { content := .element (Role.ofValue first) properties [] } }
        X.forest (Store.stands_element first properties)
      refine ⟨t, ?_, X.trans Y (fun _ _ => id) fun m hm heq => Nat.lt_irrefl _ (heq ▸ hm)⟩
      rw [build, Act.bind_eq (Act.onStore_eq hcreate), Act.bind_eq_of_error hbuild]

theorem buildChildren_refused : (es : List Element) → {role : Value} →
    firstUnknown? (rolesAll es) = some role → role.isKey = true → (c : Container) → {n : NodeId} →
    {top : Value} → {properties : Entries} → {done : List Element} →
    c.store.Forest → c.store.Stands (.element top properties done) n →
    ∃ t, buildChildren n es c =
        ⟨{ c with store := t }, [], .error (.unsupportedRole role)⟩ ∧
      Extends c.store t fun m => m = n
  | [], _, h, _, _, _, _, _, _, _, _ => by cases h
  | e :: es, role, h, hkey, c, n, top, properties, done, H, hn => by
    rw [rolesAll, firstUnknown?, List.find?_append] at h
    rw [buildChildren]
    cases he : e.unknownRole? with
    | some first =>
      obtain rfl : first = role := by
        rw [unknownRole?, firstUnknown?] at he
        simpa [he] using h
      obtain ⟨t, hbuild, X⟩ := build_refused e he hkey c H
      exact ⟨t, Act.bind_eq_of_error hbuild, X.toFollows, fun m hm _ => X.kept m hm id⟩
    | none =>
      have hrest : firstUnknown? (rolesAll es) = some role := by
        rw [unknownRole?, firstUnknown?] at he
        simpa [he, firstUnknown?] using h
      obtain ⟨k, t₁, hbuild, X, hk, hstands⟩ :=
        build_spec e (isKnown_of_unknownRole? e he) c H
      have hne : k ≠ n := Nat.ne_of_gt (Nat.lt_of_lt_of_le hn.spells.lt_size hk)
      obtain ⟨t₂, happend, Y, hn₂, -⟩ := X.forest.append_stands (p := .ofId n) (c := .ofId k)
        (hn.extend H X) hstands hne
      obtain ⟨t, hothers, Z⟩ :=
        buildChildren_refused es hrest hkey { c with store := t₂ } Y.forest hn₂
      have XY : Extends c.store t₂ fun m => m = n := by
        refine X.trans Y (fun _ _ => False.elim) ?_
        rintro m hm (rfl | rfl)
        · rfl
        · exact absurd hm (by simpa using hk)
      refine ⟨t, ?_, XY.trans Z (fun _ _ => id) fun _ _ => id⟩
      rw [Act.bind_eq hbuild, Act.bind_eq (Act.onStore_eq_of_change happend)]
      exact hothers

end

end Element

/-! ## Mounting in any state -/

theorem Act.bind_assoc {α β γ : Type} (x : Act α) (f : α → Act β) (g : β → Act γ) :
    (x >>= f) >>= g = x >>= fun a => f a >>= g := by
  funext c
  cases hx : (x c).result with
  | error e =>
    have hfirst : ((x >>= f) c).result = .error e := by rw [bind_of_error hx]
    rw [bind_of_error hfirst, bind_of_error hx, bind_of_error hx]
  | ok a =>
    rw [bind_of_ok (f := fun a => f a >>= g) hx]
    cases hf : (f a (x c).after).result with
    | error e =>
      have hfirst : ((x >>= f) c).result = .error e := by rw [bind_of_ok hx, hf]
      rw [bind_of_error hfirst, bind_of_error hf, bind_of_ok hx]
    | ok b =>
      have hfirst : ((x >>= f) c).result = .ok b := by rw [bind_of_ok hx, hf]
      rw [bind_of_ok hfirst, bind_of_ok hf, bind_of_ok hx]
      simp [List.append_assoc]

/-- Items are mounted one after the other. -/
theorem mount_append (es fs : List Element) :
    mount (es ++ fs) = mount es >>= fun _ => mount fs := by
  induction es with
  | nil => rfl
  | cons e es ih =>
    rw [List.cons_append, mount, mount, ih, Act.bind_assoc]
    simp only [Act.bind_assoc]

namespace Container

variable {c : Container}

/-- A known record that is neither the root nor above it is attached. -/
theorem Consistent.append_ok (H : c.Consistent) {n : NodeId} (hn : n < c.store.size)
    (hfree : ∀ root, c.root = some root → n ≠ root.id ∧ ¬ c.store.Ancestor n root.id) :
    (append (.int n) c).result = .ok () := by
  have hnames : c.store.Names (.int n) := ⟨n, by simp [Value.index?], hn⟩
  cases hroot : c.root with
  | none =>
    obtain ⟨r, hfind⟩ := Store.find_int hn
    rw [append, Act.bind_eq (link_of_found hroot hfind)]
    exact enter_of_names hnames
  | some root =>
    cases hcollects : c.rootCollects with
    | false => exact append_wrapping_of_names H hroot hcollects hnames
    | true =>
      have helement : c.store.IsElement root.id := by
        have hrole := hcollects
        rw [rootCollects_eq hroot, beq_iff_eq, Option.bind_eq_some_iff] at hrole
        obtain ⟨r, hr, hrole⟩ := hrole
        refine ⟨r, hr, ?_⟩
        cases hcontent : r.content <;> simp_all [Record.role?, Record.isText]
      have hat : c.store.Attachable root.id n :=
        ⟨helement, hn, (hfree root hroot).1, (hfree root hroot).2⟩
      have happend := H.forest.appendChild_eq_ok_iff.mpr ⟨root, .ofId n, rfl, rfl, hat, rfl⟩
      have hlink := link_collected hroot hcollects (.int n)
      rw [Act.onStore_eq_of_change happend] at hlink
      rw [append, Act.bind_eq hlink]
      exact enter_of_names (H.forest.names_of_appendChild happend)

/-- **Descriptions with roles of the vocabulary are mounted in every consistent container.** -/
theorem Consistent.mount (H : c.Consistent) {es : List Element}
    (hes : Element.isKnownAll es = true) :
    (mount es c).result = .ok () ∧ (mount es c).after.Consistent := by
  induction es generalizing c with
  | nil => exact ⟨rfl, H⟩
  | cons e es ih =>
    rw [Element.isKnownAll, Bool.and_eq_true] at hes
    obtain ⟨n, t, hbuild, X, hn, hstands⟩ := e.build_spec hes.1 c H.forest
    have H₁ : ({ c with store := t } : Container).Consistent := H.follow X.toFollows
    have happend : (append (.int n) { c with store := t }).result = .ok () := by
      refine H₁.append_ok hstands.spells.lt_size fun root hroot => ?_
      have hold : root.id < c.store.size := H.root_known root hroot
      exact ⟨Nat.ne_of_gt (Nat.lt_of_lt_of_le hold hn),
        fun ha => Nat.not_lt.mpr hn (X.ancestor_lt H.forest ha hold)⟩
    have H₂ := (keeps_append (.int n) _ H₁ (by simp [Knows])).1
    rw [DocumentTree.mount, Act.bind_eq hbuild, Act.bind_of_ok happend]
    exact ih H₂ hes.2

end Container

/-- **A failed mount keeps what was mounted.** After any run of operations, let some items be
mounted of which the first one that has a role outside the vocabulary comes after others. Mounting
is refused for the first such role of this item, depth first. The root, the index and the tree of
the container are then those that mounting the items before it gives, and all records of these are
as they were. What is left of the failed item are new records, and none of them is the root or below
it. -/
theorem failed_mount_keeps_earlier_items (operations : List Operation) (ds : List Child)
    {done rest : List Element} {e : Element} {role : Value}
    (hds : Child.flatten ds = .ok (done ++ e :: rest)) (hdone : Element.isKnownAll done = true)
    (hrole : e.unknownRole? = some role) (hkey : role.isKey = true) :
    ∃ items, Child.flatten [.sequence ds] = .ok items ∧
      let kept := mount done (Container.run operations)
      let failed := mount items (Container.run operations)
      kept.result = .ok () ∧
      failed.result = .error (.unsupportedRole role) ∧
      failed.after.root = kept.after.root ∧
      failed.after.nodes = kept.after.nodes ∧
      (∃ tree, kept.after.store.tree? kept.after.rootHandle = .ok tree ∧
        failed.after.store.tree? failed.after.rootHandle = .ok tree) ∧
      (∀ n, n < kept.after.store.size → failed.after.store.get? n = kept.after.store.get? n) ∧
      ∀ n root, kept.after.store.size ≤ n → failed.after.root = some root →
        n ≠ root.id ∧ ¬ failed.after.store.Ancestor root.id n := by
  refine ⟨done ++ e :: rest, by simp [Child.flatten, Child.items, hds], ?_⟩
  intro kept failed
  obtain ⟨hkept, H⟩ := (Container.consistent_run operations).mount hdone
  obtain ⟨t, hbuild, X⟩ := e.build_refused hrole hkey kept.after H.forest
  have hitem : mount (e :: rest) kept.after =
      ⟨{ kept.after with store := t }, [], .error (.unsupportedRole role)⟩ := by
    rw [mount, Act.bind_eq_of_error hbuild]
  have hfailed : failed = ⟨{ kept.after with store := t }, kept.notices ++ [],
      .error (.unsupportedRole role)⟩ := by
    show mount (done ++ e :: rest) (Container.run operations) = _
    rw [mount_append, Act.bind_of_ok hkept, hitem]
  rw [hfailed]
  refine ⟨hkept, rfl, rfl, rfl, H.exists_tree X, fun n hn => X.kept n hn id, ?_⟩
  intro n root hn hroot
  have hold : root.id < kept.after.store.size := H.root_known root hroot
  exact ⟨Nat.ne_of_gt (Nat.lt_of_lt_of_le hold hn),
    fun ha => Nat.not_lt.mpr hn (X.descendant_lt H.forest ha hold)⟩

/-- A quote of a paragraph, an element of a role outside the vocabulary with another one in it, and
a third. -/
def quoteWithFigure : Element :=
  .element (.str "blockquote") []
    [.element (.str "paragraph") [] [.text "c"],
      .element (.str "figure") [] [.element (.str "caption") [] []],
      .element (.str "aside") [] []]

/-- A text comes before the quote and another one after it, in a nested sequence with gaps. -/
def failing : List Child :=
  [.sequence [.data (.str "b"), .data .null, .item quoteWithFigure], .data (.str "d")]

/-- The text before the quote is wrapped together with the root. The paragraph with its text is left
behind, and is not below the root. -/
theorem quote_with_figure_fails :
    let failed := mount [.text "b", quoteWithFigure, .text "d"] (Container.run loneText)
    Child.flatten failing = .ok [.text "b", quoteWithFigure, .text "d"] ∧
    Element.isKnownAll [.text "b"] = true ∧
    quoteWithFigure.unknownRole? = some (.str "figure") ∧
    failed.result = .error (.unsupportedRole (.str "figure")) ∧
    failed.after.root = some (.ofId 2) ∧
    failed.after.nodes = [(0, .ofId 0), (1, .ofId 1)] ∧
    failed.after.store.childrenOf 2 = [0, 1] ∧
    failed.after.store.childrenOf 4 = [5] ∧ ¬ failed.after.store.Ancestor 2 5 := by
  intro failed
  have hflatten : Child.flatten failing = .ok [.text "b", quoteWithFigure, .text "d"] := by cbv
  have hknown : Element.isKnownAll [.text "b"] = true := rfl
  have hrole : quoteWithFigure.unknownRole? = some (.str "figure") := by cbv
  obtain ⟨items, hitems, -, hresult, hroot, hnodes, -, -, hnew⟩ :=
    failed_mount_keeps_earlier_items loneText failing hflatten hknown hrole rfl
  have hall : Child.flatten [.sequence failing] = .ok [.text "b", quoteWithFigure, .text "d"] := by
    cbv
  obtain rfl : [.text "b", quoteWithFigure, .text "d"] = items :=
    Except.ok.inj (hall.symm.trans hitems)
  have hsize : (mount [.text "b"] (Container.run loneText)).after.store.size = 3 := by rfl
  have hafter : failed.after.root = some (.ofId 2) := hroot.trans (by rfl)
  refine ⟨hflatten, hknown, hrole, hresult, hafter, hnodes.trans (by rfl), by rfl, by rfl, ?_⟩
  exact (hnew 5 _ (by rw [hsize]; decide) hafter).2

end DocumentTree
