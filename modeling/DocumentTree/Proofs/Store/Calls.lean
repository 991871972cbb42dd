import DocumentTree.Proofs.Store.Contents

/-!
# When a call succeeds

A handle from outside names a record or nothing. For each operation this says which arguments it
takes and what it gives for them, in terms of the records that the arguments name; whatever it does
not take it refuses.

## Main definitions

* `Store.Names`, `Store.NamesElement`, `Store.NamesText` — what a value names.
-/

namespace DocumentTree

theorem exists_error_iff {ε α : Type} {x : Except ε α} :
    (∃ e, x = .error e) ↔ ¬ ∃ a, x = .ok a := by
  cases x <;> simp

/-- A value that equals a number is a handle. -/
theorem Handle.exists_of_index? {v : Value} {n : NodeId} (h : v.index? = some n) :
    ∃ k : Handle, k.given = v ∧ k.id = n :=
  ⟨⟨v, n, h⟩, rfl, rfl⟩

/-- A handle is determined by how it was given. -/
theorem Handle.eq_of_given_eq {h k : Handle} (hgiven : h.given = k.given) : h = k := by
  have hread := h.ofValue?_given
  rw [hgiven, k.ofValue?_given, Option.some.injEq] at hread
  exact hread.symm

/-- The roles of the vocabulary are those that have a value there. -/
theorem Role.isKnown_ofValue_iff {v : Value} :
    (ofValue v).isKnown = true ↔ ∃ role ∈ vocabulary, role.toValue = v := by
  unfold ofValue
  cases h : vocabulary.find? fun role => role.toValue = v with
  | none =>
    simp only [List.find?_eq_none, decide_eq_true_eq] at h
    simpa [isKnown] using h
  | some role =>
    have hmem : role ∈ vocabulary := List.mem_of_find?_eq_some h
    have hvalue : role.toValue = v := by simpa using List.find?_some h
    refine iff_of_true ?_ ⟨role, hmem, hvalue⟩
    revert hmem
    cases role <;> simp [isKnown, vocabulary]

namespace Store

variable {s t : Store}

/-! ## What a value names -/

/-- The value names a record. -/
def Names (s : Store) (v : Value) : Prop :=
  ∃ n, v.index? = some n ∧ n < s.size

/-- The value names an element. -/
def NamesElement (s : Store) (v : Value) : Prop :=
  ∃ n, v.index? = some n ∧ s.IsElement n

/-- The value names a text. -/
def NamesText (s : Store) (v : Value) : Prop :=
  ∃ n r, v.index? = some n ∧ s.get? n = some r ∧ r.isText = true

theorem namesElement_given {p : Handle} : s.NamesElement p.given ↔ s.IsElement p.id := by
  simp [NamesElement, p.index?_given]

theorem NamesElement.exists_handle {v : Value} (h : s.NamesElement v) :
    ∃ p : Handle, p.given = v ∧ s.IsElement p.id := by
  obtain ⟨n, hn, helement⟩ := h
  obtain ⟨p, hp, rfl⟩ := Handle.exists_of_index? hn
  exact ⟨p, hp, helement⟩

theorem find_ok_iff {v : Value} : (∃ x, s.find v = .ok x) ↔ s.Names v := by
  simp only [Prod.exists, find_eq_ok]
  constructor
  · rintro ⟨k, r, rfl, hr⟩
    exact ⟨k.id, k.index?_given, lt_size_of_get? hr⟩
  · rintro ⟨n, hn, hlt⟩
    obtain ⟨k, hk, rfl⟩ := Handle.exists_of_index? hn
    obtain ⟨r, hr⟩ := lt_size_iff.mp hlt
    exact ⟨k, r, hk, hr⟩

theorem findElement_ok_iff {v : Value} : (∃ x, s.findElement v = .ok x) ↔ s.NamesElement v := by
  constructor
  · rintro ⟨⟨p, r⟩, h⟩
    obtain ⟨rfl, -⟩ := findElement_eq_ok.mp h
    exact namesElement_given.mpr (isElement_of_findElement h)
  · intro h
    obtain ⟨p, rfl, hp⟩ := h.exists_handle
    obtain ⟨r, hr, -⟩ := hp.findElement
    exact ⟨_, hr⟩

theorem findElement_error_iff {v : Value} :
    (∃ e, s.findElement v = .error e) ↔ ¬ s.NamesElement v := by
  rw [exists_error_iff, findElement_ok_iff]

theorem named?_eq_none_iff {v : Value} {ids : List NodeId} :
    named? v ids = none ↔ ∀ n, v.index? = some n → n ∉ ids := by
  rw [Option.eq_none_iff_forall_ne_some]
  exact forall_congr' fun n => by rw [ne_eq, named?_eq_some_iff, not_and]

/-! ## Links -/

/-- What has been appended to a forest is a record of it. -/
theorem Forest.names_of_appendChild (H : s.Forest) {parent child : Value}
    (h : s.appendChild parent child = .ok t) : t.Names child := by
  obtain ⟨p, k, -, rfl, hat, rfl⟩ := H.appendChild_eq_ok_iff.mp h
  exact ⟨k.id, k.index?_given, by simpa using hat.known⟩

theorem namesElement_of_insertBefore {parent child reference : Value}
    {x : Store × List StoreNotice} (h : s.insertBefore parent child reference = .ok x) :
    s.NamesElement parent := by
  simp only [Store.insertBefore, bind_eq_ok] at h
  obtain ⟨found, hfound, -⟩ := h
  exact findElement_ok_iff.mp ⟨found, hfound⟩

theorem namesElement_of_removeChild {parent child : Value} {x : Store × List StoreNotice}
    (h : s.removeChild parent child = .ok x) : s.NamesElement parent := by
  simp only [Store.removeChild, bind_eq_ok] at h
  obtain ⟨found, hfound, -⟩ := h
  exact findElement_ok_iff.mp ⟨found, hfound⟩

/-- An insertion into an element, by the child that the reference names there. -/
theorem IsElement.insertBefore_eq {p : Handle} (hp : s.IsElement p.id) (child reference : Value) :
    s.insertBefore p.given child reference =
      match named? reference (s.childrenOf p.id) with
      | none => .ok (s, [.insertIgnored reference p.given])
      | some n =>
        if child.index? = some n then .ok (s, [])
        else do
          let c ← s.attachable p child
          return (s.attach p c (insertBeforeIn n c.id), []) := by
  obtain ⟨r, hr, hkids⟩ := hp.findElement
  simp only [Store.insertBefore, hr, hkids, ok_bind]
  rfl

/-- A removal from an element, by the child that is named there. -/
theorem IsElement.removeChild_eq {p : Handle} (hp : s.IsElement p.id) (child : Value) :
    s.removeChild p.given child =
      match named? child (s.childrenOf p.id) with
      | none => .ok (s, [.removeIgnored child p.given])
      | some c => .ok (s.cut p.id c, []) := by
  obtain ⟨r, hr, hkids⟩ := hp.findElement
  simp only [Store.removeChild, hr, hkids, ok_bind]
  rfl

end Store

end DocumentTree
