import DocumentTree.Proofs.Description.DirectLowering
import DocumentTree.Proofs.Store.Run

/-!
# Descriptions spelled out in a store

A record spells a description if its contents, those of its children and so on are the roles, the
properties and the texts of the description. Handles and links do not matter, and the records that
cannot be reached downward do not either: whatever happens to them, the spelling stays.

In a forest, lowering a record gives the document of the description that it spells.

## Main definitions

* `Store.content?` — what a record holds.
* `Store.Spells` — a record and what it holds below make up a description.
* `Store.Undisturbed` — records whose spellings are left alone.
-/

namespace DocumentTree

namespace Store

/-- What a record holds. -/
def content? (s : Store) (n : NodeId) : Option Content :=
  (s.get? n).map Record.content

mutual

/-- The record and what it holds below make up a description. -/
def Spells (s : Store) : Element → NodeId → Prop
  | .text value, n => s.content? n = some (.text value)
  | .element role properties es, n =>
    ∃ ids, s.content? n = some (.element (Role.ofValue role) properties ids) ∧ SpellsAll s es ids

/-- The records make up descriptions one by one. -/
def SpellsAll (s : Store) : List Element → List NodeId → Prop
  | [], [] => True
  | e :: es, n :: ids => Spells s e n ∧ SpellsAll s es ids
  | _, _ => False

end

variable {s t : Store}

/-! ## Contents and children -/

theorem content?_congr {n : NodeId} (h : t.get? n = s.get? n) : t.content? n = s.content? n := by
  rw [content?, content?, h]

theorem childrenOf_of_content? {n : NodeId} {role : Role} {properties : Entries}
    {ids : List NodeId} (h : s.content? n = some (.element role properties ids)) :
    s.childrenOf n = ids := by
  obtain ⟨r, hr, hcontent⟩ := Option.map_eq_some_iff.mp h
  rw [childrenOf_eq hr, Record.children, hcontent]

theorem isElement_of_content? {n : NodeId} {role : Role} {properties : Entries}
    {ids : List NodeId} (h : s.content? n = some (.element role properties ids)) :
    s.IsElement n := by
  obtain ⟨r, hr, hcontent⟩ := Option.map_eq_some_iff.mp h
  exact ⟨r, hr, by rw [Record.isText, hcontent]⟩

theorem Spells.lt_size {e : Element} {n : NodeId} (h : s.Spells e n) : n < s.size := by
  have hcontent : ∃ content, s.content? n = some content := by
    cases e with
    | text value => exact ⟨_, h⟩
    | element role properties es =>
      obtain ⟨ids, hids, -⟩ := h
      exact ⟨_, hids⟩
  obtain ⟨content, hcontent⟩ := hcontent
  obtain ⟨r, hr, -⟩ := Option.map_eq_some_iff.mp hcontent
  exact lt_size_of_get? hr

theorem SpellsAll.append : {es fs : List Element} → {ids ms : List NodeId} →
    s.SpellsAll es ids → s.SpellsAll fs ms → s.SpellsAll (es ++ fs) (ids ++ ms)
  | [], _, [], _, _, hfs => hfs
  | _ :: _, _, _ :: _, _, hes, hfs => ⟨hes.1, SpellsAll.append hes.2 hfs⟩
  | [], _, _ :: _, _, hes, _ => by cases hes
  | _ :: _, _, [], _, hes, _ => by cases hes

/-! ## What leaves a spelling alone -/

/-- Some records keep their contents, and their children are among them. -/
structure Undisturbed (s t : Store) (kept : NodeId → Prop) : Prop where
  /-- What lies below the records is among them. -/
  closed : ∀ m c, kept m → c ∈ s.childrenOf m → kept c
  /-- The contents of the records are the same in both stores. -/
  same : ∀ m, kept m → t.content? m = s.content? m

mutual

/-- **A spelling is kept with the contents of the records that it can reach.** -/
theorem Undisturbed.spells {kept : NodeId → Prop} (U : Undisturbed s t kept) : (e : Element) →
    {n : NodeId} → kept n → s.Spells e n → t.Spells e n
  | .text value, n, hn, h => (U.same n hn).trans h
  | .element role properties es, n, hn, h => by
    obtain ⟨ids, hids, hes⟩ := h
    refine ⟨ids, (U.same n hn).trans hids, U.spellsAll es ?_ hes⟩
    intro c hc
    rw [← childrenOf_of_content? hids] at hc
    exact U.closed n c hn hc

theorem Undisturbed.spellsAll {kept : NodeId → Prop} (U : Undisturbed s t kept) :
    (es : List Element) → {ids : List NodeId} → (∀ c ∈ ids, kept c) → s.SpellsAll es ids →
    t.SpellsAll es ids
  | [], [], _, h => h
  | e :: es, c :: ids, hids, h =>
    ⟨U.spells e (hids c (by simp)) h.1, U.spellsAll es (fun d hd => hids d (by simp [hd])) h.2⟩
  | [], _ :: _, _, h => by cases h
  | _ :: _, [], _, h => by cases h

end

/-- Records that are added leave every spelling alone. -/
theorem Spells.grow (H : s.Forest) (hkept : ∀ m, m < s.size → t.get? m = s.get? m) {e : Element}
    {n : NodeId} (h : s.Spells e n) : t.Spells e n := by
  have U : Undisturbed s t fun m => m < s.size := by
    refine ⟨?_, ?_⟩
    · intro m c _ hc
      exact lt_size_of_parent? ((H.mem_childrenOf m c).mp hc)
    · intro m hm
      exact content?_congr (hkept m hm)
  exact U.spells e h.lt_size h

/-! ## Lowering what is spelled -/

mutual

theorem Spells.fits : (e : Element) → {depth : Nat} → {given : Value} → {n : NodeId} →
    {tree : Tree} → s.Spells e n → s.subtreeWithin depth given n = some tree → tree.Fits e
  | _, 0, _, _, _, _, ht => by cases ht
  | .text value, depth + 1, given, n, tree, h, ht => by
    obtain ⟨r, hr, hcontent⟩ := Option.map_eq_some_iff.mp h
    simp only [subtreeWithin, hr, hcontent, Option.bind_eq_bind, Option.bind_some,
      Option.some.injEq] at ht
    subst ht
    rfl
  | .element role properties es, depth + 1, given, n, tree, h, ht => by
    obtain ⟨ids, hids, hes⟩ := h
    obtain ⟨r, hr, hcontent⟩ := Option.map_eq_some_iff.mp hids
    simp only [subtreeWithin, hr, hcontent, Option.bind_eq_bind, Option.bind_some,
      Option.bind_eq_some_iff, Option.some.injEq] at ht
    obtain ⟨trees, htrees, rfl⟩ := ht
    exact ⟨rfl, rfl, SpellsAll.fits es hes htrees⟩

theorem SpellsAll.fits : (es : List Element) → {depth : Nat} → {ids : List NodeId} →
    {trees : List Tree} → s.SpellsAll es ids →
    (ids.mapM fun c => s.subtreeWithin depth (s.shown c) c) = some trees → Tree.FitsAll trees es
  | [], depth, [], trees, _, ht => by
    obtain rfl : [] = trees := by simpa using ht
    trivial
  | e :: es, depth, c :: ids, trees, h, ht => by
    simp only [List.mapM_cons, Option.bind_eq_bind, Option.bind_eq_some_iff, Option.pure_def,
      Option.some.injEq] at ht
    obtain ⟨tree, htree, trees, htrees, rfl⟩ := ht
    exact ⟨Spells.fits e h.1 htree, SpellsAll.fits es h.2 htrees⟩
  | [], _, _ :: _, _, h, _ => by cases h
  | _ :: _, _, [], _, h, _ => by cases h

end

/-- **Lowering a record gives the document of what it spells**, or is refused alike. -/
theorem Forest.result_lower (H : s.Forest) {e : Element} {h : Handle} (hs : s.Spells e h.id) :
    (s.lower h.given).result = e.document := by
  obtain ⟨tree, htree, -, hlower⟩ := H.exists_tree h hs.lt_size
  have hfits : tree.Fits e := Spells.fits e hs htree
  rw [hlower, hfits.result_lower]

end Store

end DocumentTree
