import DocumentTree.Proofs.Description.DirectLowering
import DocumentTree.Proofs.Document.Handles
import DocumentTree.Proofs.Store.Contents

/-!
# Root elements are transparent

A root element that has a parent may give its place among the children to its own children: whatever
the parent is and however deep it lies, the document stays the same, or the refusal.

## Main definitions

* `Tree.Dissolves` — a tree, and the tree in which one root element has given its place away.
* `Store.dissolution` — the operations that do this in a store.
* `Store.Dissolved` — what they do.
* `Store.Emptying` — what holds while they run.
-/

namespace DocumentTree

/-! ## In a tree -/

namespace Tree

theorem spliceAll_append (ts us : List Tree) :
    spliceAll (ts ++ us) = spliceAll ts ++ spliceAll us := by
  induction ts with
  | nil => rfl
  | cons t ts ih => rw [List.cons_append, spliceAll, spliceAll, ih, List.append_assoc]

/-- One root element of the first tree has given its place to its children in the second. -/
inductive Dissolves : Tree → Tree → Prop
  /-- The root element is a child of the element at the top. -/
  | here {handle inner : Value} {role : Role} {properties innerProperties : Entries}
      (before children after : List Tree) :
    Dissolves
      (.element handle role properties
        (before ++ .element inner .root innerProperties children :: after))
      (.element handle role properties (before ++ children ++ after))
  /-- The root element lies in a child of the element at the top. -/
  | deeper {handle : Value} {role : Role} {properties : Entries} (before after : List Tree)
      {t u : Tree} : Dissolves t u →
    Dissolves (.element handle role properties (before ++ t :: after))
      (.element handle role properties (before ++ u :: after))

/-- Without root elements, both trees are the same. -/
theorem Dissolves.splice_eq {t u : Tree} (h : Dissolves t u) : t.splice = u.splice := by
  induction h with
  | here before children after => simp [splice, spliceAll_append, spliceAll]
  | deeper before after _ ih => simp [splice, spliceAll_append, spliceAll, ih]

end Tree

/-! ## In a store -/

namespace Store

/-- The operations that insert records before a child of an element, one after the other. -/
def insertions (p r : NodeId) (ids : List NodeId) : List Operation :=
  ids.map fun c : NodeId => .insertBefore (.int p) (.int c) (.int r)

/-- The operations by which a root element gives its place to its children: each child is inserted
before the root element, and then the root element is removed. -/
def dissolution (s : Store) (p r : NodeId) : List Operation :=
  insertions p r (s.childrenOf r) ++ [.removeChild (.int p) (.int r)]

/-- The second store is the first with a root element dissolved: its parent has the children of the
root element in the place of the root element, and the other records hold what they held. -/
structure Dissolved (s t : Store) (p r : NodeId) (before after : List NodeId) : Prop where
  /-- The links agree with each other. -/
  forest : t.Forest
  /-- There are as many records. -/
  size : t.size = s.size
  /-- The children of the root element are where the root element was. -/
  parent : ∃ role properties,
    s.content? p = some (.element role properties (before ++ r :: after)) ∧
    t.content? p = some (.element role properties (before ++ s.childrenOf r ++ after))
  /-- The record is a root element. -/
  root : ∃ properties ids, s.content? r = some (.element .root properties ids)
  /-- The others hold what they held. -/
  same : ∀ m, m ≠ p → m ≠ r → t.content? m = s.content? m

variable {s t : Store} {p r : NodeId} {before after : List NodeId}

/-! ### The subtrees of a store with a dissolved root element -/

theorem subtreeWithin_of_text {depth : Nat} {given : Value} {n : NodeId} {value : String}
    (h : s.content? n = some (.text value)) {x : Tree}
    (hx : s.subtreeWithin depth given n = some x) : x = .text given value := by
  obtain ⟨q, hq, hcontent⟩ := Option.map_eq_some_iff.mp h
  cases depth with
  | zero => cases hx
  | succ depth =>
    simp only [subtreeWithin, hq, hcontent, Option.bind_eq_bind, Option.bind_some,
      Option.some.injEq] at hx
    exact hx.symm

theorem subtreeWithin_of_element {depth : Nat} {given : Value} {n : NodeId} {role : Role}
    {properties : Entries} {ids : List NodeId}
    (h : s.content? n = some (.element role properties ids)) {x : Tree}
    (hx : s.subtreeWithin depth given n = some x) :
    ∃ below ts, below < depth ∧
      (ids.mapM fun c => s.subtreeWithin below (s.shown c) c) = some ts ∧
      x = .element given role properties ts := by
  obtain ⟨q, hq, hcontent⟩ := Option.map_eq_some_iff.mp h
  cases depth with
  | zero => cases hx
  | succ depth =>
    simp only [subtreeWithin, hq, hcontent, Option.bind_eq_bind, Option.bind_some,
      Option.bind_eq_some_iff, Option.some.injEq] at hx
    obtain ⟨ts, hts, rfl⟩ := hx
    exact ⟨depth, ts, Nat.lt_succ_self depth, hts, rfl⟩

theorem exists_content?_of_subtreeWithin {depth : Nat} {given : Value} {n : NodeId} {x : Tree}
    (hx : s.subtreeWithin depth given n = some x) : ∃ content, s.content? n = some content := by
  cases depth with
  | zero => cases hx
  | succ depth =>
    cases hq : s.get? n with
    | none => simp [subtreeWithin, hq] at hx
    | some q => exact ⟨q.content, by rw [content?, hq]; rfl⟩

theorem mapM_append_eq_some {α β : Type} {f : α → Option β} {xs ys : List α} {zs : List β} :
    (xs ++ ys).mapM f = some zs ↔
      ∃ us vs, xs.mapM f = some us ∧ ys.mapM f = some vs ∧ zs = us ++ vs := by
  simp only [List.mapM_append, Option.bind_eq_bind, Option.bind_eq_some_iff, Option.pure_def,
    Option.some.injEq]
  constructor
  · rintro ⟨us, hus, vs, hvs, rfl⟩
    exact ⟨us, vs, hus, hvs, rfl⟩
  · rintro ⟨us, vs, hus, hvs, rfl⟩
    exact ⟨us, hus, vs, hvs, rfl⟩

/-- The subtree of an element with a root element among its children. -/
theorem subtreeWithin_of_root {depth : Nat} {given : Value} {n : NodeId} {role : Role}
    {properties rootProperties : Entries} {ids : List NodeId}
    (h : s.content? n = some (.element role properties (before ++ r :: after)))
    (hroot : s.content? r = some (.element .root rootProperties ids)) {x : Tree}
    (hx : s.subtreeWithin depth given n = some x) :
    ∃ below lowest ts kids us, below < depth ∧ lowest < depth ∧
      (before.mapM fun c => s.subtreeWithin below (s.shown c) c) = some ts ∧
      (ids.mapM fun c => s.subtreeWithin lowest (s.shown c) c) = some kids ∧
      (after.mapM fun c => s.subtreeWithin below (s.shown c) c) = some us ∧
      x = .element given role properties
        (ts ++ .element (s.shown r) .root rootProperties kids :: us) := by
  obtain ⟨below, all, hbelow, hall, rfl⟩ := subtreeWithin_of_element h hx
  rw [mapM_append_eq_some] at hall
  obtain ⟨ts, rest, hts, hrest, rfl⟩ := hall
  simp only [List.mapM_cons, Option.bind_eq_bind, Option.bind_eq_some_iff, Option.pure_def,
    Option.some.injEq] at hrest
  obtain ⟨z, hz, us, hus, rfl⟩ := hrest
  obtain ⟨lowest, kids, hlowest, hkids, rfl⟩ := subtreeWithin_of_element hroot hz
  exact ⟨below, lowest, ts, kids, us, hbelow, Nat.lt_trans hlowest hbelow, hts, hkids, hus, rfl⟩

theorem splice_congr {f g : NodeId → Option Tree} {ids : List NodeId}
    (h : ∀ c ∈ ids, ∀ x y, f c = some x → g c = some y → x.bare.splice = y.bare.splice)
    {ts us : List Tree} (hf : ids.mapM f = some ts) (hg : ids.mapM g = some us) :
    Tree.spliceAll (Tree.bareAll ts) = Tree.spliceAll (Tree.bareAll us) := by
  induction ids generalizing ts us with
  | nil =>
    obtain rfl : [] = ts := by simpa using hf
    obtain rfl : [] = us := by simpa using hg
    rfl
  | cons c ids ih =>
    simp only [List.mapM_cons, Option.bind_eq_bind, Option.bind_eq_some_iff, Option.pure_def,
      Option.some.injEq] at hf hg
    obtain ⟨x, hx, ts, hts, rfl⟩ := hf
    obtain ⟨y, hy, us, hus, rfl⟩ := hg
    simp only [Tree.bareAll, Tree.spliceAll]
    rw [h c (by simp) x y hx hy, ih (fun d hd => h d (by simp [hd])) hts hus]

/-- The dissolved root element is among the children of its parent and of no other record. -/
theorem Dissolved.ne_of_mem (H : s.Forest) (D : Dissolved s t p r before after) :
    (∀ c ∈ before, c ≠ r) ∧ (∀ c ∈ after, c ≠ r) ∧
      ∀ m, m ≠ p → ∀ c ∈ s.childrenOf m, c ≠ r := by
  obtain ⟨role, properties, hp, -⟩ := D.parent
  have hchildren : s.childrenOf p = before ++ r :: after := childrenOf_of_content? hp
  obtain ⟨hbefore, hafter⟩ := H.not_mem_of_childrenOf_eq hchildren
  refine ⟨fun c hc heq => hbefore (heq ▸ hc), fun c hc heq => hafter (heq ▸ hc), ?_⟩
  rintro m hm c hc rfl
  have hcp : s.parent? c = some p := (H.mem_childrenOf p c).mp (by simp [hchildren])
  exact hm (Option.some.inj (((H.mem_childrenOf m c).mp hc).symm.trans hcp))

/-- **The subtrees are the same but for handles and root elements.** The induction is on the depth:
the children of the root element lie two levels below its parent. -/
theorem Dissolved.splice_eq (H : s.Forest) (D : Dissolved s t p r before after) (depth : Nat) :
    ∀ {depth' : Nat} {given given' : Value} {n : NodeId} {x y : Tree}, n ≠ r →
      s.subtreeWithin depth given n = some x → t.subtreeWithin depth' given' n = some y →
      x.bare.splice = y.bare.splice := by
  obtain ⟨hbefore, hafter, hother⟩ := D.ne_of_mem H
  induction depth using Nat.strong_induction_on with
  | _ depth ih =>
  intro depth' given given' n x y hn hx hy
  by_cases hnp : n = p
  · subst hnp
    obtain ⟨role, properties, hs, ht⟩ := D.parent
    obtain ⟨rootProperties, ids, hroot⟩ := D.root
    have hids : s.childrenOf r = ids := childrenOf_of_content? hroot
    obtain ⟨below, lowest, ts₁, kids, ts₃, hbelow, hlowest, hts₁, hkids, hts₃, rfl⟩ :=
      subtreeWithin_of_root hs hroot hx
    obtain ⟨below', us, -, hus, rfl⟩ := subtreeWithin_of_element ht hy
    rw [mapM_append_eq_some] at hus
    obtain ⟨_, us₃, hus, hus₃, rfl⟩ := hus
    rw [mapM_append_eq_some, hids] at hus
    obtain ⟨us₁, us₂, hus₁, hus₂, rfl⟩ := hus
    have hfirst := splice_congr (fun c hc x y hx hy => ih below hbelow (hbefore c hc) hx hy)
      hts₁ hus₁
    have hlast := splice_congr (fun c hc x y hx hy => ih below hbelow (hafter c hc) hx hy)
      hts₃ hus₃
    have hmiddle := splice_congr
      (fun c hc x y hx hy => ih lowest hlowest (hother r hn.symm c (hids ▸ hc)) hx hy) hkids hus₂
    simp [Tree.bare, Tree.splice, Tree.bareAll_append, Tree.spliceAll_append, Tree.bareAll,
      Tree.spliceAll, hfirst, hmiddle, hlast]
  · have hsame := D.same n hnp hn
    obtain ⟨content, hcontent⟩ := exists_content?_of_subtreeWithin hx
    rw [hcontent] at hsame
    cases content with
    | text value =>
      rw [subtreeWithin_of_text hcontent hx, subtreeWithin_of_text hsame hy]
      rfl
    | element role properties ids =>
      obtain ⟨below, ts, hbelow, hts, rfl⟩ := subtreeWithin_of_element hcontent hx
      obtain ⟨below', us, -, hus, rfl⟩ := subtreeWithin_of_element hsame hy
      have hids : s.childrenOf n = ids := childrenOf_of_content? hcontent
      have hchildren := splice_congr
        (fun c hc x y hx hy => ih below hbelow (hother n hnp c (hids ▸ hc)) hx hy) hts hus
      simp [Tree.bare, Tree.splice, hchildren]

/-! ### The documents of a store with a dissolved root element -/

/-- Where no record is found, all stores of one size refuse alike. -/
theorem lower_congr_of_unknown (hsize : t.size = s.size) {root : Value}
    (h : ∀ k, Handle.ofValue? root = some k → s.size ≤ k.id) : t.lower root = s.lower root := by
  have hfind : t.find root = s.find root := by
    cases hk : Handle.ofValue? root with
    | none => rw [find, find, hk]
    | some k =>
      have hks : s.get? k.id = none := get?_eq_none (h k hk)
      have hkt : t.get? k.id = none := get?_eq_none (hsize ▸ h k hk)
      rw [find, find, hk]
      simp only [hks, hkt]
  have herror : ∀ x, s.find root ≠ .ok x := by
    rintro ⟨k, q⟩ hok
    obtain ⟨hk, hq⟩ := find_eq_ok.mp hok
    have hbound := h k (by rw [← hk, Handle.ofValue?_given])
    rw [get?_eq_none hbound] at hq
    cases hq
  have htree : t.tree? root = s.tree? root := by
    cases hs : s.find root with
    | ok x => exact absurd hs (herror x)
    | error e =>
      unfold tree?
      split
      · rfl
      · simp only [hfind, hs]
        rfl
  rw [lower, lower, htree]

/-- Every record but the root element has the same document as before, or is refused alike. -/
theorem Dissolved.result_lower (H : s.Forest) (D : Dissolved s t p r before after) {root : Value}
    (hroot : root.index? ≠ some r) : (t.lower root).result = (s.lower root).result := by
  by_cases hknown : ∃ k : Handle, k.given = root ∧ k.id < s.size
  · obtain ⟨k, rfl, hk⟩ := hknown
    obtain ⟨x, hx, -, hs⟩ := H.exists_tree k hk
    obtain ⟨y, hy, -, ht⟩ := D.forest.exists_tree k (by rw [D.size]; exact hk)
    have hne : k.id ≠ r := fun heq => hroot (by rw [k.index?_given, heq])
    rw [hs, ht]
    exact (Tree.result_lower_congr (D.splice_eq H _ hne hx hy)).symm
  · rw [lower_congr_of_unknown D.size]
    intro k hk
    by_contra hlt
    exact hknown ⟨k, Handle.given_of_ofValue? hk, Nat.lt_of_not_le hlt⟩

/-! ### The run of the operations -/

/-- The first children of the root element have moved before it, and the rest is still below it. -/
structure Emptying (s t : Store) (p r : NodeId) (before after moved rest : List NodeId) : Prop where
  /-- The links agree with each other. -/
  forest : t.Forest
  /-- There are as many records. -/
  size : t.size = s.size
  /-- The moved children stand before the root element. -/
  parent : ∃ role properties,
    s.content? p = some (.element role properties (before ++ r :: after)) ∧
    t.content? p = some (.element role properties (before ++ moved ++ r :: after))
  /-- The rest is below the root element. -/
  root : ∃ properties,
    s.content? r = some (.element .root properties (moved ++ rest)) ∧
    t.content? r = some (.element .root properties rest)
  /-- The others hold what they held. -/
  same : ∀ m, m ≠ p → m ≠ r → t.content? m = s.content? m

/-- The next child can be moved: it is neither the root element nor above it. -/
theorem Emptying.attachable {moved rest : List NodeId} {c : NodeId}
    (E : Emptying s t p r before after moved (c :: rest)) :
    t.parent? c = some r ∧ c ≠ r ∧ p ≠ r ∧ t.Attachable p c := by
  obtain ⟨role, properties, -, htp⟩ := E.parent
  obtain ⟨rootProperties, -, htr⟩ := E.root
  have hrp : t.parent? r = some p :=
    (E.forest.mem_childrenOf p r).mp (by simp [childrenOf_of_content? htp])
  have hcr : t.parent? c = some r :=
    (E.forest.mem_childrenOf r c).mp (by simp [childrenOf_of_content? htr])
  have hup : t.Ancestor p c := .head hcr (.single hrp)
  have hcp : c ≠ p := by
    rintro rfl
    exact E.forest.acyclic c hup
  have hne : c ≠ r := by
    rintro rfl
    exact E.forest.acyclic c (.single hcr)
  have hpr : p ≠ r := by
    rintro rfl
    exact E.forest.acyclic p (.single hrp)
  exact ⟨hcr, hne, hpr,
    { element := isElement_of_content? htp
      known := lt_size_of_parent? hcr
      ne := hcp
      notAncestor := fun ha => E.forest.acyclic c (hup.trans ha) }⟩

/-- **One insertion moves one child.** -/
theorem Emptying.step {moved rest : List NodeId} {c : NodeId}
    (E : Emptying s t p r before after moved (c :: rest)) :
    ∃ u, t.insertBefore (.int p) (.int c) (.int r) = .ok (u, []) ∧
      Emptying s u p r before after (moved ++ [c]) rest := by
  obtain ⟨role, properties, hsp, htp⟩ := E.parent
  obtain ⟨rootProperties, hsr, htr⟩ := E.root
  have hp : t.childrenOf p = before ++ moved ++ r :: after := childrenOf_of_content? htp
  obtain ⟨hcr, hne, hpr, hattach⟩ := E.attachable
  have hplace : r ∉ before ++ moved := (E.forest.not_mem_of_childrenOf_eq hp).1
  have hcontent := t.content?_attach_eq (.ofId p) (.ofId c) (insertBeforeIn r c)
  simp only [Handle.id_ofId, detach_of_parent? hcr, content?_cut] at hcontent
  refine ⟨_, E.forest.insertBefore_eq (p := .ofId p) (c := .ofId c) (r := .ofId r)
    (by simp [hp]) hattach hne, ?_⟩
  exact
    { forest := E.forest.attach hattach (insertBeforeIn_perm r c)
      size := by rw [size_attach, E.size]
      parent := by
        refine ⟨role, properties, hsp, ?_⟩
        rw [Handle.id_ofId, Handle.id_ofId, hcontent, if_pos rfl, if_neg hpr, htp, Option.map_some,
          Content.mapChildren, insertBeforeIn_append c hplace]
        simp
      root := by
        refine ⟨rootProperties, by simp [hsr], ?_⟩
        rw [Handle.id_ofId, Handle.id_ofId, hcontent, if_neg hpr.symm, if_pos rfl, htr,
          Option.map_some, Content.mapChildren, List.erase_cons_head]
      same := by
        intro m hmp hmr
        rw [Handle.id_ofId, Handle.id_ofId, hcontent, if_neg hmp, if_neg hmr]
        exact E.same m hmp hmr }

/-- **The insertions move all children**, one after the other. -/
theorem Emptying.run {moved rest : List NodeId} {c : Container}
    (E : Emptying s c.store p r before after moved rest) :
    ∃ u, (insertions p r rest).foldl Container.after c = { c with store := u } ∧
      Emptying s u p r before after (moved ++ rest) [] := by
  induction rest generalizing c moved with
  | nil => exact ⟨c.store, rfl, by simpa using E⟩
  | cons n rest ih =>
    obtain ⟨t, hinsert, E'⟩ := E.step
    have hafter : c.after (.insertBefore (.int p) (.int n) (.int r)) = { c with store := t } := by
      simp [Container.after, Act.onStoreReporting, hinsert]
    obtain ⟨u, hrun, hu⟩ := ih (c := { c with store := t }) E'
    refine ⟨u, ?_, by simpa using hu⟩
    rw [insertions, List.map_cons, List.foldl_cons, hafter, ← hrun, insertions]

/-- **The removal of the emptied root element ends the dissolution.** -/
theorem Emptying.finish {moved : List NodeId} (E : Emptying s t p r before after moved []) :
    ∃ u, t.removeChild (.int p) (.int r) = .ok (u, []) ∧ Dissolved s u p r before after := by
  obtain ⟨role, properties, hsp, htp⟩ := E.parent
  obtain ⟨rootProperties, hsr, htr⟩ := E.root
  have hp : t.childrenOf p = before ++ moved ++ r :: after := childrenOf_of_content? htp
  have hr : s.childrenOf r = moved := by simpa using childrenOf_of_content? hsr
  have hrp : t.parent? r = some p := (E.forest.mem_childrenOf p r).mp (by simp [hp])
  have hplace : r ∉ before ++ moved := (E.forest.not_mem_of_childrenOf_eq hp).1
  refine ⟨_, removeChild_eq (p := .ofId p) (c := .ofId r) (by simp [hp]), ?_⟩
  exact
    { forest := E.forest.cut hrp
      size := by rw [size_cut, E.size]
      parent := by
        refine ⟨role, properties, hsp, ?_⟩
        rw [Handle.id_ofId, Handle.id_ofId, content?_cut, if_pos rfl, htp, Option.map_some,
          Content.mapChildren, List.erase_append_right _ hplace, List.erase_cons_head, hr]
      root := ⟨rootProperties, _, hsr⟩
      same := by
        intro m hmp hmr
        rw [Handle.id_ofId, Handle.id_ofId, content?_cut, if_neg hmp]
        exact E.same m hmp hmr }

/-- **The operations dissolve a root element** that has a parent. -/
theorem Forest.dissolved_run (H : s.Forest) (hparent : s.parent? r = some p)
    (hroot : ∃ properties ids, s.content? r = some (.element .root properties ids))
    {c : Container} (hc : c.store = s) :
    ∃ before after,
      Dissolved s ((s.dissolution p r).foldl Container.after c).store p r before after := by
  obtain ⟨rootProperties, ids, hr⟩ := hroot
  have hids : s.childrenOf r = ids := childrenOf_of_content? hr
  have hmem : r ∈ s.childrenOf p := (H.mem_childrenOf p r).mpr hparent
  obtain ⟨role, properties, hp⟩ := (H.isElement_parent hparent).content?_eq
  obtain ⟨before, after, hsplit⟩ := List.append_of_mem hmem
  rw [hsplit] at hp
  have hstart : Emptying s c.store p r before after [] ids :=
    { forest := hc ▸ H
      size := by rw [hc]
      parent := ⟨role, properties, hp, by simpa [hc] using hp⟩
      root := ⟨rootProperties, hr, by rw [hc, hr]⟩
      same := fun m _ _ => by rw [hc] }
  obtain ⟨t, hrun, E⟩ := hstart.run
  obtain ⟨u, hremove, D⟩ := E.finish
  have hlast : Container.after { c with store := t } (.removeChild (.int p) (.int r)) =
      { c with store := u } := by
    simp [Container.after, Act.onStoreReporting, hremove]
  refine ⟨before, after, ?_⟩
  rw [dissolution, hids, List.foldl_append, hrun, List.foldl_cons, List.foldl_nil, hlast]
  exact D

end Store

/-- **Root elements inside a tree are transparent.** A tree in which one root element, wherever it
lies below the top, has given its place to its children has the same document, or is refused alike;
the stores and the handles do not matter. Lowering takes all root elements out before it begins.
Where they stay in the tree and each position takes them out itself, among blocks, inline content,
items, rows, cells, literal texts and what makes a sole image, the document is the same too. And in
the store that any run of operations has made, a root element with a parent can be dissolved by
operations: they put its children in its place, change no other record, and leave the document of
every other record what it was. -/
theorem root_element_is_transparent :
    (∀ (s t : Store) (a b : Value) (x y : Tree), s.tree? a = .ok (some x) →
      t.tree? b = .ok (some y) → x.bare.Dissolves y.bare →
      (t.lower b).result = (s.lower a).result) ∧
    (∀ (x y : Tree) (d e : Element), x.Fits d → y.Fits e → x.bare.Dissolves y.bare →
      e.document = d.document) ∧
    ∀ (operations : List Operation) (p r : NodeId),
      let s := (Container.run operations).store
      let t := (Container.run (operations ++ s.dissolution p r)).store
      s.parent? r = some p →
      (∃ properties ids, s.content? r = some (.element .root properties ids)) →
      ∃ before after, s.Dissolved t p r before after ∧
        ∀ root : Value, root.index? ≠ some r → (t.lower root).result = (s.lower root).result := by
  have hlower : ∀ x y : Tree, x.bare.Dissolves y.bare → y.lower.result = x.lower.result :=
    fun x y hxy => Tree.result_lower_congr hxy.splice_eq.symm
  refine ⟨?_, ?_, ?_⟩
  · intro s t a b x y hx hy hxy
    simpa [Store.lower, hx, hy, lowerTree?, Except.mapError] using hlower x y hxy
  · intro x y d e hd he hxy
    rw [← he.result_lower, hlower x y hxy, hd.result_lower]
  · intro operations p r s t hparent hroot
    have H : s.Forest := (Container.consistent_run operations).forest
    obtain ⟨before, after, D⟩ := H.dissolved_run hparent hroot (c := Container.run operations) rfl
    rw [Container.run, ← List.foldl_append] at D
    exact ⟨before, after, D, fun root hne => D.result_lower H hne⟩

/-- A quote that holds the parts of a fragment and a text after it. -/
def quotedFragment : List Operation :=
  [.createElement (.str "blockquote") .null, .createElement (.str "root") .null,
    .createText (.str "a"), .createElement (.str "strong") .null, .createText (.str "b"),
    .appendChild (.int 0) (.int 1), .appendChild (.int 1) (.int 2), .appendChild (.int 1) (.int 3),
    .appendChild (.int 0) (.int 4)]

/-- The tree of the quote, with the fragment in it or its parts. -/
def quotedTree (fragment : Bool) : Tree :=
  let parts : List Tree := [.text (.int 2) "a", .element (.int 3) .strong [] []]
  .element (.int 0) .blockquote []
    ((if fragment then [.element (.int 1) .root [] parts] else parts) ++ [.text (.int 4) "b"])

/-- What the quote describes. -/
def quotedElement (fragment : Bool) : Element :=
  let parts : List Element := [.text "a", .element Role.strong.toValue [] []]
  .element Role.blockquote.toValue []
    ((if fragment then [.element Role.root.toValue [] parts] else parts) ++ [.text "b"])

theorem quoted_fragment_is_transparent :
    let s := (Container.run quotedFragment).store
    let t := (Container.run (quotedFragment ++ s.dissolution 0 1)).store
    s.tree? (.int 0) = .ok (some (quotedTree true)) ∧
    t.tree? (.int 0) = .ok (some (quotedTree false)) ∧
    (quotedTree true).bare.Dissolves (quotedTree false).bare ∧
    (t.lower (.int 0)).result = (s.lower (.int 0)).result ∧
    (quotedTree true).Fits (quotedElement true) ∧ (quotedTree false).Fits (quotedElement false) ∧
    (quotedElement false).document = (quotedElement true).document ∧
    s.parent? 1 = some 0 ∧
    (∃ properties ids, s.content? 1 = some (.element .root properties ids)) ∧
    ∃ before after, s.Dissolved t 0 1 before after ∧
      (t.lower (.bool false)).result = (s.lower (.bool false)).result := by
  have hx : (Container.run quotedFragment).store.tree? (.int 0) =
      .ok (some (quotedTree true)) := rfl
  have hy : (Container.run (quotedFragment ++
      (Container.run quotedFragment).store.dissolution 0 1)).store.tree? (.int 0) =
      .ok (some (quotedTree false)) := rfl
  have hxy : (quotedTree true).bare.Dissolves (quotedTree false).bare :=
    .here [] [.text .null "a", .element .null .strong [] []] [.text .null "b"]
  have hfits : ∀ fragment, (quotedTree fragment).Fits (quotedElement fragment) := by
    intro fragment
    cases fragment <;>
      simp only [quotedTree, quotedElement, Tree.Fits, Tree.FitsAll, if_true, Bool.false_eq_true,
        if_false, List.cons_append, List.nil_append] <;>
      decide
  have hparent : (Container.run quotedFragment).store.parent? 1 = some 0 := rfl
  have hroot : ∃ properties ids, (Container.run quotedFragment).store.content? 1 =
      some (.element .root properties ids) := ⟨[], [2, 3], rfl⟩
  obtain ⟨before, after, D, hlower⟩ :=
    root_element_is_transparent.2.2 quotedFragment 0 1 hparent hroot
  exact ⟨hx, hy, hxy, root_element_is_transparent.1 _ _ _ _ _ _ hx hy hxy, hfits true, hfits false,
    root_element_is_transparent.2.1 _ _ _ _ (hfits true) (hfits false) hxy, hparent, hroot, before,
    after, D, hlower (.bool false) (by decide)⟩

end DocumentTree
