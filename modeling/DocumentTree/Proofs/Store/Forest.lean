import DocumentTree.Proofs.Store.Links
import DocumentTree.Store.Tree
import Mathlib.Data.Finset.Card
import Mathlib.Data.Finset.Filter
import Mathlib.Data.Finset.Range
import Mathlib.Logic.Relation

/-!
# The records form a forest

Parents and children tell the same links, no child is listed twice, and no record is its own
ancestor. In a finite arena this bounds every walk along the links: upward by the number of
ancestors, downward by the number of descendants, both smaller than the number of records. So the
limits within which ancestors and subtrees are collected are never reached.

## Main definitions

* `Store.Ancestor` — proper ancestors, by the transitive closure of the parent links.
* `Store.Forest` — the invariant.
* `Store.PathToTop` — the complete list of ancestors, free of any limit.
-/

namespace DocumentTree.Store

/-- The first record hangs directly on the second. -/
def HangsOn (s : Store) (c p : NodeId) : Prop := s.parent? c = some p

/-- The first record is a proper ancestor of the second. -/
def Ancestor (s : Store) (a n : NodeId) : Prop := Relation.TransGen s.HangsOn n a

/-- The links of a store in agreement with each other. -/
structure Forest (s : Store) : Prop where
  /-- The children of a record are the records whose parent it is. -/
  mem_childrenOf : ∀ p c, c ∈ s.childrenOf p ↔ s.parent? c = some p
  /-- A record is listed once among the children of its parent. -/
  nodup : ∀ p, (s.childrenOf p).Nodup
  /-- No record is above itself. -/
  acyclic : ∀ n, ¬ s.Ancestor n n

variable {s : Store}

/-- The invariant speaks of links only. -/
theorem Forest.congr {t : Store} (H : s.Forest) (hp : ∀ n, t.parent? n = s.parent? n)
    (hc : ∀ n, t.childrenOf n = s.childrenOf n) : t.Forest := by
  have hrel : t.HangsOn = s.HangsOn := by
    funext c p
    simp [HangsOn, hp]
  refine ⟨?_, ?_, ?_⟩
  · intro p c
    rw [hc, hp]
    exact H.mem_childrenOf p c
  · intro p
    rw [hc]
    exact H.nodup p
  · intro n
    simp only [Ancestor, hrel]
    exact H.acyclic n

/-- A parent is an element. -/
theorem Forest.isElement_parent (H : s.Forest) {c p : NodeId} (h : s.parent? c = some p) :
    s.IsElement p :=
  isElement_of_mem_childrenOf ((H.mem_childrenOf p c).mpr h)

/-- A child stands at one place among the children. -/
theorem Forest.not_mem_of_childrenOf_eq (H : s.Forest) {p c : NodeId} {before after : List NodeId}
    (h : s.childrenOf p = before ++ c :: after) : c ∉ before ∧ c ∉ after := by
  have hnodup := H.nodup p
  rw [h, List.nodup_middle, List.nodup_cons, List.mem_append, not_or] at hnodup
  exact hnodup.1

/-! ## Ancestors and descendants are known -/

theorem Ancestor.descendant_lt {a n : NodeId} (h : s.Ancestor a n) : n < s.size := by
  obtain ⟨p, hp, -⟩ := Relation.TransGen.head'_iff.mp h
  exact lt_size_of_parent? hp

theorem Forest.ancestor_lt (H : s.Forest) {a n : NodeId} (h : s.Ancestor a n) : a < s.size := by
  obtain ⟨c, -, hc⟩ := Relation.TransGen.tail'_iff.mp h
  exact (H.isElement_parent hc).lt_size

/-- A record without a parent has no ancestors. -/
theorem not_ancestor_of_parent?_eq_none {a n : NodeId} (h : s.parent? n = none) :
    ¬ s.Ancestor a n := by
  intro ha
  obtain ⟨p, hp, -⟩ := Relation.TransGen.head'_iff.mp ha
  simp [HangsOn, h] at hp

/-! ## Ranks -/

/-- A transitive relation without loops whose sources lie below a bound has a rank: the number of
sources. It grows along the relation and stays below the bound. -/
theorem exists_rank {r : Nat → Nat → Prop} {bound : Nat} (trans : ∀ a b c, r a b → r b c → r a c)
    (irrefl : ∀ a, ¬ r a a) (source_lt : ∀ a b, r a b → a < bound) :
    ∃ rank : Nat → Nat, (∀ a b, r a b → rank a < rank b) ∧ ∀ n, n < bound → rank n < bound := by
  classical
  let sources : Nat → Finset Nat := fun n => (Finset.range bound).filter fun a => r a n
  refine ⟨fun n => (sources n).card, ?_, ?_⟩
  · intro a b hab
    apply Finset.card_lt_card
    refine Finset.ssubset_iff_subset_ne.mpr ⟨?_, ?_⟩
    · intro x hx
      simp only [sources, Finset.mem_filter] at hx ⊢
      exact ⟨hx.1, trans x a b hx.2 hab⟩
    · intro heq
      have ha : a ∈ sources b := by
        simpa [sources] using ⟨source_lt a b hab, hab⟩
      rw [← heq] at ha
      exact irrefl a (Finset.mem_filter.mp ha).2
  · intro n hn
    have hsub : sources n ⊂ Finset.range bound := by
      refine Finset.ssubset_iff_subset_ne.mpr ⟨Finset.filter_subset _ _, ?_⟩
      intro heq
      have hmem : n ∈ sources n := heq ▸ Finset.mem_range.mpr hn
      exact irrefl n (Finset.mem_filter.mp hmem).2
    simpa using Finset.card_lt_card hsub

/-- The number of ancestors grows downward. -/
theorem Forest.exists_depth (H : s.Forest) :
    ∃ depth : NodeId → Nat, (∀ c p, s.parent? c = some p → depth p < depth c) ∧
      ∀ n, n < s.size → depth n < s.size := by
  obtain ⟨depth, hmono, hlt⟩ := exists_rank (r := s.Ancestor)
    (fun a b c hab hbc => Relation.TransGen.trans hbc hab) H.acyclic
    (fun a b hab => H.ancestor_lt hab)
  exact ⟨depth, fun c p hp => hmono p c (.single hp), hlt⟩

/-- The number of descendants grows upward. -/
theorem Forest.exists_height (H : s.Forest) :
    ∃ height : NodeId → Nat, (∀ c p, s.parent? c = some p → height c < height p) ∧
      ∀ n, n < s.size → height n < s.size := by
  obtain ⟨height, hmono, hlt⟩ := exists_rank (r := fun n a => s.Ancestor a n)
    (fun a b c hab hbc => Relation.TransGen.trans hab hbc) H.acyclic
    (fun a b hab => hab.descendant_lt)
  exact ⟨height, fun c p hp => hmono c p (.single hp), hlt⟩

/-! ## The way up -/

/-- The parents from a record up to one without a parent, nearest first. -/
inductive PathToTop (s : Store) : NodeId → List Handle → Prop
  | top {n : NodeId} : (s.get? n).bind Record.link = none → PathToTop s n []
  | up {n : NodeId} {link : Link} {above : List Handle} :
      (s.get? n).bind Record.link = some link → PathToTop s link.parent.id above →
      PathToTop s n (link.parent :: above)

theorem parent?_eq_map (s : Store) (n : NodeId) :
    s.parent? n = ((s.get? n).bind Record.link).map fun link => link.parent.id := by
  cases h : s.get? n <;> simp [parent?, h, Record.parent]

/-- A limit above the number of ancestors is not reached. -/
private theorem pathToTop_climb {depth : NodeId → Nat}
    (hdepth : ∀ c p, s.parent? c = some p → depth p < depth c) (limit : Nat) (n : NodeId)
    (hn : depth n ≤ limit) : s.PathToTop n (s.climb limit n) := by
  induction limit generalizing n with
  | zero =>
    cases hlink : (s.get? n).bind Record.link with
    | none => exact .top hlink
    | some link =>
      have := hdepth n link.parent.id (by simp [parent?_eq_map, hlink])
      omega
  | succ limit ih =>
    unfold climb
    cases hlink : (s.get? n).bind Record.link with
    | none => exact .top hlink
    | some link =>
      have := hdepth n link.parent.id (by simp [parent?_eq_map, hlink])
      exact .up hlink (ih link.parent.id (by omega))

/-- **The ancestors of a record are the complete way up**, not cut off by a limit. -/
theorem Forest.pathToTop_ancestors (H : s.Forest) (n : NodeId) :
    s.PathToTop n (s.ancestors n) := by
  obtain ⟨depth, hdepth, hlt⟩ := H.exists_depth
  by_cases hn : n < s.size
  · exact pathToTop_climb hdepth s.size n (Nat.le_of_lt (hlt n hn))
  · have hlink : (s.get? n).bind Record.link = none := by
      simp [get?_eq_none (Nat.le_of_not_lt hn)]
    have : s.ancestors n = [] := by
      unfold ancestors
      cases s.size <;> simp [climb, hlink]
    rw [this]
    exact .top hlink

theorem PathToTop.mem_iff {n : NodeId} {above : List Handle} (h : s.PathToTop n above)
    (a : NodeId) : (∃ p ∈ above, p.id = a) ↔ s.Ancestor a n := by
  induction h with
  | top hlink => simpa using not_ancestor_of_parent?_eq_none (by simp [parent?_eq_map, hlink])
  | @up n link above hlink _ ih =>
    have hp : s.parent? n = some link.parent.id := by simp [parent?_eq_map, hlink]
    constructor
    · rintro ⟨p, hmem, rfl⟩
      rcases List.mem_cons.mp hmem with rfl | hmem
      · exact .single hp
      · exact .head hp (ih.mp ⟨p, hmem, rfl⟩)
    · intro ha
      obtain ⟨q, hq, hqa⟩ := Relation.TransGen.head'_iff.mp ha
      have hqp : q = link.parent.id := Option.some.inj (hq.symm.trans hp)
      subst hqp
      rcases Relation.reflTransGen_iff_eq_or_transGen.mp hqa with rfl | hqa
      · exact ⟨link.parent, by simp, rfl⟩
      · obtain ⟨p, hmem, hpa⟩ := ih.mpr hqa
        exact ⟨p, by simp [hmem], hpa⟩

/-- The test for ancestors is exact. -/
theorem Forest.isAncestor_iff (H : s.Forest) (a n : NodeId) :
    s.isAncestor a n = true ↔ s.Ancestor a n := by
  rw [← (H.pathToTop_ancestors n).mem_iff a]
  simp [isAncestor]

/-! ## The way down -/

/-- Trees for all items of a list. -/
private theorem exists_mapM {α β : Type} {f : α → Option β} (l : List α)
    (h : ∀ a ∈ l, ∃ b, f a = some b) : ∃ bs, l.mapM f = some bs := by
  induction l with
  | nil => exact ⟨[], rfl⟩
  | cons a l ih =>
    obtain ⟨b, hb⟩ := h a (by simp)
    obtain ⟨bs, hbs⟩ := ih fun x hx => h x (by simp [hx])
    exact ⟨b :: bs, by simp [hb, hbs]⟩

/-- A depth above the number of descendants suffices. -/
private theorem exists_subtreeWithin (H : s.Forest) {height : NodeId → Nat}
    (hheight : ∀ c p, s.parent? c = some p → height c < height p) (depth : Nat) (given : Value)
    (n : NodeId) (hn : n < s.size) (hlt : height n < depth) :
    ∃ t, s.subtreeWithin depth given n = some t := by
  induction depth generalizing given n with
  | zero => omega
  | succ depth ih =>
    obtain ⟨r, hr⟩ := lt_size_iff.mp hn
    cases hc : r.content with
    | text value => exact ⟨.text given value, by simp [subtreeWithin, hr, hc]⟩
    | element role properties children =>
      have hkids : s.childrenOf n = children := by
        simp [childrenOf_eq hr, Record.children, hc]
      obtain ⟨trees, htrees⟩ :
          ∃ trees, children.mapM (fun c => s.subtreeWithin depth (s.shown c) c) = some trees := by
        apply exists_mapM
        intro c hmem
        have hp : s.parent? c = some n := (H.mem_childrenOf n c).mp (hkids ▸ hmem)
        have := hheight c n hp
        exact ih (s.shown c) c (lt_size_of_parent? hp) (by omega)
      exact ⟨.element given role properties trees, by simp [subtreeWithin, hr, hc, htrees]⟩

/-- **Every known record has a subtree**, so whatever walks down from it comes to an end. -/
theorem Forest.exists_subtree (H : s.Forest) (h : Handle) (hn : h.id < s.size) :
    ∃ t, s.subtree? h = some t := by
  obtain ⟨height, hheight, hlt⟩ := H.exists_height
  exact exists_subtreeWithin H hheight s.size h.given h.id hn (hlt h.id hn)

end DocumentTree.Store
