import DocumentTree.Proofs.Document.Fragments

/-!
# Lowering depends on the tree alone

Two records, in one store or in two, have the same tree if they hold the same and their children
have the same trees, one by one. Which numbers the records have, how they came to hang where they
hang, and what else is in the stores plays no part in it, nor does the order in which a property map
was filled. Records with the same tree have the same document, or are refused alike.

## Main definitions

* `Entries.SameMap` — property maps in which every key is looked up alike.
* `Tree.Same` — trees that differ in handles and in the order of properties only.
* `Store.SameTree` — records of two stores that unfold to the same tree.
-/

namespace DocumentTree

/-! ## Property maps -/

/-- Every key is looked up alike in the two maps. -/
def Entries.SameMap (p q : Entries) : Prop :=
  ∀ key, p.get? key = q.get? key

theorem Entries.SameMap.get_eq {p q : Entries} (h : p.SameMap q) (key : Key) :
    p.get key = q.get key := by
  rw [get, get, h key]

/-! ## Trees -/

namespace Tree

mutual

/-- The trees differ in handles and in the order of properties only. -/
def Same : Tree → Tree → Prop
  | text _ value, text _ value' => value = value'
  | element _ role p ts, element _ role' q us => role = role' ∧ p.SameMap q ∧ SameAll ts us
  | _, _ => False

/-- The trees are the same one by one. -/
def SameAll : List Tree → List Tree → Prop
  | [], [] => True
  | t :: ts, u :: us => Same t u ∧ SameAll ts us
  | _, _ => False

end

theorem Same.role? {t u : Tree} (h : t.Same u) : t.role? = u.role? := by
  cases t <;> cases u <;> simp_all [Same, Tree.role?]

theorem SameAll.append : {ts us ts' us' : List Tree} → SameAll ts us → SameAll ts' us' →
    SameAll (ts ++ ts') (us ++ us')
  | [], [], _, _, _, h' => h'
  | _ :: _, _ :: _, _, _, h, h' => ⟨h.1, SameAll.append h.2 h'⟩
  | [], _ :: _, _, _, h, _ => by cases h
  | _ :: _, [], _, _, h, _ => by cases h

mutual

theorem Same.plainText : (t u : Tree) → t.Same u → t.plainText = u.plainText
  | text _ _, text _ _, h => h
  | element _ _ _ ts, element _ _ _ us, h => by
    rw [Tree.plainText, Tree.plainText, SameAll.plainText ts us h.2.2]
  | text _ _, element .., h => by cases h
  | element .., text _ _, h => by cases h

theorem SameAll.plainText : (ts us : List Tree) → SameAll ts us →
    plainTextAll ts = plainTextAll us
  | [], [], _ => rfl
  | t :: ts, u :: us, h => by
    rw [plainTextAll, plainTextAll, Same.plainText t u h.1, SameAll.plainText ts us h.2]
  | [], _ :: _, h => by cases h
  | _ :: _, [], h => by cases h

end

mutual

/-- Without root elements, the same trees are still the same one by one. -/
theorem Same.splice : (t u : Tree) → t.Same u → SameAll t.splice u.splice
  | text _ _, text _ _, h => ⟨h, trivial⟩
  | element _ role _ ts, element _ _ _ us, h => by
    obtain ⟨rfl, hp, hts⟩ := h
    rw [Tree.splice, Tree.splice]
    split
    · exact SameAll.splice ts us hts
    · exact ⟨⟨rfl, hp, SameAll.splice ts us hts⟩, trivial⟩
  | text _ _, element .., h => by cases h
  | element .., text _ _, h => by cases h

theorem SameAll.splice : (ts us : List Tree) → SameAll ts us →
    SameAll (spliceAll ts) (spliceAll us)
  | [], [], _ => trivial
  | t :: ts, u :: us, h => (Same.splice t u h.1).append (SameAll.splice ts us h.2)
  | [], _ :: _, h => by cases h
  | _ :: _, [], h => by cases h

end

end Tree

/-! ## Lowering the same trees -/

namespace Lowering

open DocumentTree.Tree (Same SameAll)

section Properties

variable {p q : Entries} (hp : p.SameMap q)

include hp

theorem stringProperty_congr (key : String) : stringProperty p key = stringProperty q key := by
  rw [stringProperty, stringProperty, hp.get_eq]

theorem stringProperty?_congr (key : String) : stringProperty? p key = stringProperty? q key := by
  rw [stringProperty?, stringProperty?, hp.get_eq]

theorem literal_congr {ts us : List Tree} (h : SameAll ts us) : literal p ts = literal q us := by
  rw [literal, literal, stringProperty?_congr hp, h.plainText]

theorem language_congr : language p = language q := by
  rw [language, language, stringProperty?_congr hp, stringProperty?_congr hp]

theorem start_congr : start p = start q := by
  rw [start, start, hp.get_eq]

theorem taskStatus_congr : taskStatus p = taskStatus q := by
  rw [taskStatus, taskStatus, hp.get_eq]

theorem image_congr : image p = image q := by
  simp only [image, stringProperty_congr hp, stringProperty?_congr hp]

theorem cell_congr (role : Role) (content : List Node) :
    cell role p content = cell role q content := by
  rw [cell, cell, hp.get_eq]

end Properties

/-- The same children have a sole image alike, with the same properties. -/
theorem soleImage?_congr : {ts us : List Tree} → SameAll ts us →
    Option.Rel Entries.SameMap (soleImage? ts) (soleImage? us)
  | [], [], _ => .none
  | [.text _ _], [.text _ _], _ => .none
  | [.element _ role _ _], [.element _ _ _ _], h => by
    obtain ⟨⟨rfl, hp, -⟩, -⟩ := h
    cases role with
    | image => exact .some hp
    | _ => exact .none
  | [.text _ _], [.element ..], h => by cases h.1
  | [.element ..], [.text _ _], h => by cases h.1
  | t :: _ :: _, u :: _ :: _, _ => by
    simp [soleImage?]
  | [], _ :: _, h => by cases h
  | _ :: _, [], h => by cases h
  | [_], _ :: _ :: _, h => by cases h.2
  | _ :: _ :: _, [_], h => by cases h.2

mutual

theorem result_inline_congr : (t u : Tree) → t.Same u → (inline t).result = (inline u).result
  | .text _ value, .text _ _, h => by rw [h]; rfl
  | .element _ role p ts, .element _ _ q us, h => by
    obtain ⟨rfl, hp, hts⟩ := h
    cases role with
    | strong | emphasis | strikethrough => simp [inline, result_inlines_congr _ ts us hts]
    | inlineCode => simp [inline, literal_congr hp hts]
    | link =>
      simp [inline, stringProperty_congr hp, stringProperty?_congr hp,
        result_inlines_congr _ ts us hts]
    | _ => rfl
  | .text _ _, .element .., h => by cases h
  | .element .., .text _ _, h => by cases h

/-- An inline container of the same children holds the same nodes. -/
theorem result_inlines_congr (container : String) : (ts us : List Tree) → SameAll ts us →
    (inlines container ts).result = (inlines container us).result
  | [], [], _ => rfl
  | t :: ts, u :: us, h => by
    rw [result_inlines_cons, result_inlines_cons, result_inline_congr t u h.1,
      result_inlines_congr container ts us h.2]
  | [], _ :: _, h => by cases h
  | _ :: _, [], h => by cases h

end

theorem result_cells_congr : (ts us : List Tree) → SameAll ts us →
    (cells ts).result = (cells us).result
  | [], [], _ => rfl
  | .text _ _ :: ts, .text _ _ :: us, h => by
    simpa [cells] using result_cells_congr ts us h.2
  | .element _ role _ kids :: ts, .element _ _ _ kids' :: us, h => by
    obtain ⟨⟨rfl, hp, hkids⟩, hts⟩ := h
    have ih := result_cells_congr ts us hts
    simp only [cells]
    split
    · simp [result_inlines_congr _ kids kids' hkids, cell_congr hp, ih]
    · split
      · rfl
      · simpa using ih
  | .text _ _ :: _, .element .. :: _, h => by cases h.1
  | .element .. :: _, .text _ _ :: _, h => by cases h.1
  | [], _ :: _, h => by cases h
  | _ :: _, [], h => by cases h

theorem result_rows_congr : (ts us : List Tree) → SameAll ts us →
    (rows ts).result = (rows us).result
  | [], [], _ => rfl
  | t :: ts, u :: us, h => by
    have ih := result_rows_congr ts us h.2
    by_cases hrow : t.role? = some .tableRow
    · obtain ⟨_, _, kids, rfl⟩ := Tree.eq_element_of_role? hrow
      obtain ⟨_, _, kids', rfl⟩ := Tree.eq_element_of_role? (h.1.role? ▸ hrow)
      simp [rows, result_cells_congr kids kids' h.1.2.2, ih]
    · rw [result_rows_of_ne _ hrow, result_rows_of_ne _ (h.1.role? ▸ hrow), ih]
  | [], _ :: _, h => by cases h
  | _ :: _, [], h => by cases h

mutual

theorem result_items_congr : (ts us : List Tree) → SameAll ts us →
    (items ts).result = (items us).result
  | [], [], _ => rfl
  | .text _ _ :: ts, .text _ _ :: us, h => by
    simpa [items] using result_items_congr ts us h.2
  | .element handle role p kids :: ts, .element handle' role' q kids' :: us, h => by
    have ih := result_items_congr ts us h.2
    by_cases hrole : role = .listItem
    · subst hrole
      obtain ⟨rfl, hp, hkids⟩ := h.1
      simp [items, taskStatus_congr hp, result_pieces_congr kids kids' hkids, ih]
    · have hitem : (Tree.element handle role p kids).role? ≠ some .listItem := by
        simpa [Tree.role?] using hrole
      rw [result_items_of_ne _ hitem, result_items_of_ne _ (h.1.role? ▸ hitem), ih]
  | .text _ _ :: _, .element .. :: _, h => by cases h.1
  | .element .. :: _, .text _ _ :: _, h => by cases h.1
  | [], _ :: _, h => by cases h
  | _ :: _, [], h => by cases h

theorem result_piece_congr : (t u : Tree) → t.Same u → (piece t).result = (piece u).result
  | .text _ value, .text _ _, h => by rw [h]; rfl
  | .element _ role p ts, .element _ _ q us, h => by
    obtain ⟨rfl, hp, hts⟩ := h
    cases role with
    | strong | emphasis | strikethrough => simp [piece, result_inlines_congr _ ts us hts]
    | inlineCode => simp [piece, literal_congr hp hts]
    | link =>
      simp [piece, stringProperty_congr hp, stringProperty?_congr hp,
        result_inlines_congr _ ts us hts]
    | heading => simp [piece, hp.get_eq, result_inlines_congr _ ts us hts]
    | paragraph =>
      have hsole := soleImage?_congr hts
      simp only [piece]
      generalize soleImage? ts = a, soleImage? us = b at hsole ⊢
      cases hsole with
      | some h => simp [image_congr h]
      | none => simp [result_inlines_congr _ ts us hts]
    | blockquote => simp [piece, result_pieces_congr ts us hts]
    | code => simp [piece, language_congr hp, literal_congr hp hts]
    | list => simp [piece, hp.get_eq, start_congr hp, result_items_congr ts us hts]
    | listItem => simp [piece, taskStatus_congr hp, result_pieces_congr ts us hts]
    | table => simp [piece, result_rows_congr ts us hts]
    | tableRow => simp [piece, result_cells_congr ts us hts]
    | tableCell | tableHeader =>
      simp [piece, cell_congr hp, result_inlines_congr _ ts us hts]
    | image => simp [piece, image_congr hp]
    | _ => rfl
  | .text _ _, .element .., h => by cases h
  | .element .., .text _ _, h => by cases h

theorem result_pieces_congr : (ts us : List Tree) → SameAll ts us →
    (pieces ts).result = (pieces us).result
  | [], [], _ => rfl
  | t :: ts, u :: us, h => by
    simp [pieces, result_piece_congr t u h.1, result_pieces_congr ts us h.2]
  | [], _ :: _, h => by cases h
  | _ :: _, [], h => by cases h

end

end Lowering

/-- **The same trees are lowered alike.** -/
theorem Tree.Same.result_lower {t u : Tree} (h : t.Same u) : t.lower.result = u.lower.result := by
  simp [lower, Lowering.blocks, Lowering.result_pieces_congr _ _ (Same.splice t u h)]

/-! ## Records with the same tree -/

namespace Store

mutual

/-- Two records, each in its store, unfold to the same tree: they hold the same, and their children
unfold to the same trees one by one. -/
inductive SameTree (s t : Store) : NodeId → NodeId → Prop
  | text {n m : NodeId} {value : String} :
    s.content? n = some (.text value) → t.content? m = some (.text value) → SameTree s t n m
  | element {n m : NodeId} {role : Role} {p q : Entries} {ns ms : List NodeId} :
    s.content? n = some (.element role p ns) → t.content? m = some (.element role q ms) →
    p.SameMap q → SameTrees s t ns ms → SameTree s t n m

/-- The records unfold to the same trees one by one. -/
inductive SameTrees (s t : Store) : List NodeId → List NodeId → Prop
  | nil : SameTrees s t [] []
  | cons {n m : NodeId} {ns ms : List NodeId} :
    SameTree s t n m → SameTrees s t ns ms → SameTrees s t (n :: ns) (m :: ms)

end

variable {s t : Store}

theorem SameTree.lt_size {n m : NodeId} (h : s.SameTree t n m) : n < s.size ∧ m < t.size := by
  cases h with
  | text hn hm | element hn hm =>
    obtain ⟨r, hr, -⟩ := Option.map_eq_some_iff.mp hn
    obtain ⟨q, hq, -⟩ := Option.map_eq_some_iff.mp hm
    exact ⟨lt_size_of_get? hr, lt_size_of_get? hq⟩

mutual

/-- What is unfolded from the records, however deep, are the same trees. -/
theorem SameTree.same {n m : NodeId} (h : s.SameTree t n m) {depth depth' : Nat}
    {given given' : Value} {x y : Tree} (hx : s.subtreeWithin depth given n = some x)
    (hy : t.subtreeWithin depth' given' m = some y) : x.Same y := by
  cases h with
  | text hn hm =>
    rw [subtreeWithin_of_text hn hx, subtreeWithin_of_text hm hy]
    rfl
  | element hn hm hp hns =>
    obtain ⟨_, ts, -, hts, rfl⟩ := subtreeWithin_of_element hn hx
    obtain ⟨_, us, -, hus, rfl⟩ := subtreeWithin_of_element hm hy
    exact ⟨rfl, hp, SameTrees.same hns hts hus⟩

theorem SameTrees.same {ns ms : List NodeId} (h : s.SameTrees t ns ms) {depth depth' : Nat}
    {xs ys : List Tree}
    (hxs : (ns.mapM fun c => s.subtreeWithin depth (s.shown c) c) = some xs)
    (hys : (ms.mapM fun c => t.subtreeWithin depth' (t.shown c) c) = some ys) :
    Tree.SameAll xs ys := by
  cases h with
  | nil =>
    obtain rfl : [] = xs := by simpa using hxs
    obtain rfl : [] = ys := by simpa using hys
    trivial
  | cons hn hns =>
    simp only [List.mapM_cons, Option.bind_eq_bind, Option.bind_eq_some_iff, Option.pure_def,
      Option.some.injEq] at hxs hys
    obtain ⟨x, hx, xs, hxs, rfl⟩ := hxs
    obtain ⟨y, hy, ys, hys, rfl⟩ := hys
    exact ⟨SameTree.same hn hx hy, SameTrees.same hns hxs hys⟩

end

/-- In forests, records with the same tree have the same document, or are refused alike. -/
theorem SameTree.result_lower (H : s.Forest) (K : t.Forest) {a b : Handle}
    (h : s.SameTree t a.id b.id) : (s.lower a.given).result = (t.lower b.given).result := by
  obtain ⟨x, hx, -, hs⟩ := H.exists_tree a h.lt_size.1
  obtain ⟨y, hy, -, ht⟩ := K.exists_tree b h.lt_size.2
  rw [hs, ht]
  exact (h.same hx hy).result_lower

end Store

/-- **Lowering depends on the tree that it is given, and on nothing else.** After any two runs of
operations, records that unfold to the same tree have the same document, or are refused for the same
reason: their numbers, the operations that built the trees, moves and removals on the way and the
other records of the stores do not matter. -/
theorem document_depends_on_tree_alone (first second : List Operation) (a b : Handle) :
    let s := (Container.run first).store
    let t := (Container.run second).store
    s.SameTree t a.id b.id → (s.lower a.given).result = (t.lower b.given).result :=
  Store.SameTree.result_lower (Container.consistent_run first).forest
    (Container.consistent_run second).forest

/-- A heading with its text. -/
def plainHeading : List Operation :=
  [.createElement (.str "heading") (.map [("depth", .int 2), ("id", .str "x")]),
    .createText (.str "a"), .appendChild (.int 0) (.int 1)]

/-- The same heading: its text is created first, and moved into it from a quote that stays behind,
after another text was in the heading for a while. -/
def shuffledHeading : List Operation :=
  [.createText (.str "a"), .createText (.str "b"), .createElement (.str "blockquote") .null,
    .createElement (.str "heading") (.map []), .appendChild (.int 2) (.int 0),
    .appendChild (.int 3) (.int 1), .insertBefore (.int 3) (.int 0) (.int 1),
    .removeChild (.int 3) (.int 1),
    .updateProperties (.int 3) (.map [("id", .str "x"), ("depth", .int 2)])]

theorem shuffled_heading_has_same_document :
    let s := (Container.run plainHeading).store
    let t := (Container.run shuffledHeading).store
    s.SameTree t 0 3 ∧ (s.lower (.int 0)).result = (t.lower (.int 3)).result := by
  have hmap : Entries.SameMap [("depth", .int 2), ("id", .str "x")]
      [("id", .str "x"), ("depth", .int 2)] := by
    intro key
    by_cases hdepth : Key.same "depth" key
    · have hid : ¬ Key.same "id" key := by
        intro hid
        rw [Key.same_comm] at hdepth
        exact absurd (Key.same_trans hid hdepth) (by decide)
      simp [Entries.get?, hdepth, hid]
    · simp [Entries.get?, hdepth]
  have hsame : (Container.run plainHeading).store.SameTree (Container.run shuffledHeading).store
      0 3 :=
    .element rfl rfl hmap (.cons (.text rfl rfl) .nil)
  exact ⟨hsame, document_depends_on_tree_alone plainHeading shuffledHeading (.ofId 0) (.ofId 3)
    hsame⟩

end DocumentTree
