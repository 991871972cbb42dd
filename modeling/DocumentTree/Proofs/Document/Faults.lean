import DocumentTree.Proofs.Document.Fragments
import DocumentTree.Proofs.Store.Roles
import Mathlib.Algebra.Group.Int.Defs

/-!
# Why lowering is refused

Lowering is refused for what one element of the tree says of itself: its role is outside the
vocabulary, or one of its properties has a value that cannot be read. A root element is never to
blame, since it is taken out first. Nothing else can go wrong, whatever the children are and
wherever they stand.

All but one of the refusals tell what was wrong with the element. The one that does not is that of a
list whose start is an integer beyond every floating-point number.

## Main definitions

* `Tree.elements` — the elements of a tree, by their roles and properties.
* `LoweringError.IsFaultOf` — the elements that a refusal can be blamed on.
* `Lowering.RefusesFor` — a part of lowering that is refused for the faults of some elements only.
* `Store.HasElement` — an element at a record or below it.
* `Operation.OverwritesByNames` — no role becomes anything but a string.
-/

namespace DocumentTree

/-! ## Elements of trees -/

namespace Tree

mutual

/-- The elements of a tree, by their roles and properties. -/
def elements : Tree → List (Role × Entries)
  | text .. => []
  | element _ role properties children => (role, properties) :: elementsAll children

/-- The elements of trees. -/
def elementsAll : List Tree → List (Role × Entries)
  | [] => []
  | t :: ts => elements t ++ elementsAll ts

end

theorem mem_elementsAll_iff {x : Role × Entries} {ts : List Tree} :
    x ∈ elementsAll ts ↔ ∃ t ∈ ts, x ∈ t.elements := by
  induction ts with
  | nil => simp [elementsAll]
  | cons t ts ih => simp [elementsAll, ih]

theorem elementsAll_append (ts us : List Tree) :
    elementsAll (ts ++ us) = elementsAll ts ++ elementsAll us := by
  induction ts with
  | nil => rfl
  | cons t ts ih => rw [List.cons_append, elementsAll, elementsAll, ih, List.append_assoc]

mutual

/-- Taking root elements out leaves the other elements. -/
theorem elementsAll_splice : (t : Tree) →
    elementsAll t.splice = t.elements.filter fun x => x.1 ≠ .root
  | text _ value => by simp [splice, elements, elementsAll]
  | element _ role properties children => by
    have ih := elementsAll_spliceAll children
    by_cases hroot : role = .root
    · simp [splice, elements, hroot, ih]
    · simp [splice, elements, elementsAll, hroot, ih]

theorem elementsAll_spliceAll : (ts : List Tree) →
    elementsAll (spliceAll ts) = (elementsAll ts).filter fun x => x.1 ≠ .root
  | [] => rfl
  | t :: ts => by
    rw [spliceAll, elementsAll_append, elementsAll_splice t, elementsAll_spliceAll ts, elementsAll,
      List.filter_append]

end

end Tree

/-! ## Faults of properties -/

namespace PropertyError

/-- The value that was found. -/
def found : PropertyError → Value
  | wrongType _ found _ => found
  | unknownAlignment found _ => .str found

/-- The error is about a property that is there. -/
def IsAbout (properties : Entries) (e : PropertyError) : Prop :=
  ∃ key : String, e.name = some key ∧ e.found = properties.get key ∧ e.found ≠ .null

end PropertyError

namespace Property

/-- The reading of a value is refused for this value only, under its name, and not when the value is
missing. -/
def Reads {α : Type} (name : Option String) (v : Value) (x : Except PropertyError α) : Prop :=
  ∀ e, x = .error e → e.name = name ∧ e.found = v ∧ v ≠ .null

variable {α β : Type} {name : Option String} {v : Value}

theorem Reads.bind {x : Except PropertyError α} {f : α → Except PropertyError β}
    (hx : Reads name v x) (hf : ∀ a, x = .ok a → Reads name v (f a)) : Reads name v (x >>= f) := by
  cases x with
  | ok a => exact hf a rfl
  | error e =>
    rintro _ ⟨⟩
    exact hx e rfl

theorem reads_pure (a : α) : Reads name v (pure a) := by
  intro e he
  cases he

theorem reads_read (expected : String) (reader : Value → Option α) (name : Option String)
    (v : Value) : Reads name v (read expected reader name v) := by
  intro e he
  unfold read at he
  split at he
  · cases he
  · rename_i hnull
    split at he
    · cases he
    · obtain rfl := Except.error.inj he
      exact ⟨rfl, rfl, hnull⟩

theorem reads_headingLevel (default : Number) : Reads name v (headingLevel default name v) :=
  (reads_read _ _ name v).bind fun _ _ => reads_pure _

/-- A string that names no alignment is the value itself. -/
theorem reads_alignment? : Reads name v (alignment? name v) := by
  refine (reads_read _ _ name v).bind fun given hgiven => ?_
  cases given with
  | none => exact reads_pure none
  | some align =>
    obtain rfl : v = .str align := by
      cases v <;> simp_all [read, asString]
    intro e he
    by_cases hmem : align ∈ alignmentNames
    · simp [hmem] at he
    · simp only [hmem, if_false] at he
      obtain rfl := Except.error.inj he
      simp [PropertyError.name, PropertyError.found]

end Property

/-! ## Faults of elements -/

/-- The refusal can be blamed on an element with the role and the properties. -/
def LoweringError.IsFaultOf (role : Role) (properties : Entries) : LoweringError → Prop
  | unknownRole given => role = .other given ∧ given.isKey = true
  | roleNoKey given => role = .other given ∧ given.isKey = false
  | property e => e.IsAbout properties
  | startOutOfRange =>
    role = .list ∧ ∃ i : Int, properties.get "start" = .int i ∧ Double.rangeEnd ≤ i.natAbs
  | store _ => False

theorem LoweringError.isFaultOf_ofRole (given : Value) (properties : Entries) :
    (ofRole given).IsFaultOf (.other given) properties := by
  cases h : given.isKey <;> simp [ofRole, h, IsFaultOf]

namespace Lowering

variable {α β : Type} {xs ys : List (Role × Entries)}

/-- Each refusal can be blamed on one of some elements, if there are no root elements among
them. -/
def RefusesFor (xs : List (Role × Entries)) (x : Lowering α) : Prop :=
  (∀ y ∈ xs, y.1 ≠ .root) → ∀ e, x.result = .error e → ∃ y ∈ xs, e.IsFaultOf y.1 y.2

namespace RefusesFor

theorem pure (a : α) : RefusesFor xs (Pure.pure a) := by
  intro _ e he
  cases he

theorem bind {x : Lowering α} {f : α → Lowering β} (hx : RefusesFor xs x)
    (hf : ∀ a, x.result = .ok a → RefusesFor xs (f a)) : RefusesFor xs (x >>= f) := by
  intro hroot e he
  rw [Traced.result_bind_eq] at he
  cases hr : x.result with
  | error e' =>
    obtain rfl : e' = e := by simpa [hr] using he
    exact hx hroot e' hr
  | ok a =>
    rw [hr, ok_bind] at he
    exact hf a hr hroot e he

/-- Other elements may be there as well. -/
theorem mono {x : Lowering α} (hx : RefusesFor xs x) (h : xs ⊆ ys) : RefusesFor ys x := by
  intro hroot e he
  obtain ⟨y, hy, hfault⟩ := hx (fun y hy => hroot y (h hy)) e he
  exact ⟨y, h hy, hfault⟩

theorem report (notice : LoweringNotice) :
    RefusesFor xs (Traced.report notice : Lowering Unit) := by
  intro _ e he
  cases he

theorem refuse {role : Role} {properties : Entries} (hmem : (role, properties) ∈ xs)
    {e : LoweringError} (h : e.IsFaultOf role properties) :
    RefusesFor xs (Traced.refuse e : Lowering α) := by
  rintro - _ ⟨⟩
  exact ⟨_, hmem, h⟩

end RefusesFor

/-! ## Properties of nodes -/

section

variable {role : Role} {properties : Entries} (hmem : (role, properties) ∈ xs)

include hmem

theorem refusesFor_property {key : String} {x : Except PropertyError α}
    (h : Property.Reads (some key) (properties.get key) x) : RefusesFor xs (property x) := by
  intro _ e he
  cases hx : x with
  | ok a => simp [property, hx, Except.mapError] at he
  | error e' =>
    obtain ⟨hname, hfound, hnull⟩ := h e' hx
    obtain rfl : LoweringError.property e' = e := by
      simpa [property, hx, Except.mapError] using he
    exact ⟨_, hmem, key, hname, hfound, hfound ▸ hnull⟩

theorem refusesFor_stringProperty? (key : String) :
    RefusesFor xs (stringProperty? properties key) :=
  refusesFor_property hmem (Property.reads_read _ _ _ _)

theorem refusesFor_stringProperty (key : String) :
    RefusesFor xs (stringProperty properties key) :=
  (refusesFor_property hmem (Property.reads_read _ _ _ _)).bind fun _ _ => .pure _

theorem refusesFor_literal (children : List Tree) :
    RefusesFor xs (literal properties children) :=
  (refusesFor_stringProperty? hmem "value").bind fun _ _ => .pure _

theorem refusesFor_language : RefusesFor xs (language properties) := by
  refine (refusesFor_stringProperty? hmem "language").bind fun given _ => ?_
  cases given with
  | some language => exact .pure _
  | none => exact refusesFor_stringProperty? hmem "lang"

theorem refusesFor_taskStatus : RefusesFor xs (taskStatus properties) :=
  (refusesFor_property hmem (Property.reads_read _ _ _ _)).bind fun _ _ => .pure _

theorem refusesFor_image : RefusesFor xs (image properties) :=
  (refusesFor_stringProperty hmem "url").bind fun _ _ =>
    (refusesFor_stringProperty hmem "alt").bind fun _ _ =>
      (refusesFor_stringProperty? hmem "title").bind fun _ _ => .pure _

theorem refusesFor_cell (content : List Node) : RefusesFor xs (cell role properties content) :=
  (refusesFor_property hmem Property.reads_alignment?).bind fun _ _ => .pure _

end

/-- A start that is read as an integer is one. -/
theorem get_start_of_int {properties : Entries} {i : Int}
    (h : Property.number (some "start") (properties.get "start") = .ok (some (.int i))) :
    properties.get "start" = .int i := by
  unfold Property.number Property.read at h
  split at h
  · cases h
  · split at h
    · rename_i number hread
      simp only [Except.ok.injEq, Option.some.injEq] at h
      subst h
      cases hv : properties.get "start" with
      | int j => simp_all [Number.ofValue?]
      | float x => cases x <;> simp_all [Number.ofValue?]
      | _ => simp_all [Number.ofValue?]
    · cases h

/-- A list without a start begins with 1, which is in range. -/
theorem startNumber_one : startNumber (.int 1) = .ok 1 := by
  have h : (1 : Int).natAbs < Double.rangeEnd := by decide +kernel
  simp only [startNumber, if_pos h]
  rfl

/-- The start of a list is refused for its type, or as an integer out of range. -/
theorem refusesFor_start {properties : Entries} (hmem : (.list, properties) ∈ xs) :
    RefusesFor xs (start properties) := by
  refine (refusesFor_property hmem (Property.reads_read _ _ _ _)).bind fun given hgiven => ?_
  rintro - e he
  cases given with
  | none =>
    rw [Option.getD_none, Traced.result_lift, startNumber_one] at he
    cases he
  | some number =>
    rw [Option.getD_some, Traced.result_lift] at he
    unfold startNumber at he
    split at he
    · rename_i i
      by_cases hrange : i.natAbs < Double.rangeEnd
      · simp [hrange] at he
      · rw [if_neg hrange] at he
        obtain rfl := Except.error.inj he
        have hint := get_start_of_int (mapError_eq_ok.mp hgiven)
        exact ⟨_, hmem, rfl, i, hint, Nat.le_of_not_lt hrange⟩
    · split at he <;> cases he

/-! ## The passes -/

mutual

theorem inline_refusesFor : (t : Tree) → RefusesFor t.elements (inline t)
  | .text handle value => by
    rw [inline]
    exact .pure _
  | .element handle role properties children => by
    have htop : (role, properties) ∈ (Tree.element handle role properties children).elements := by
      simp [Tree.elements]
    have hinlines : ∀ container, RefusesFor (Tree.element handle role properties children).elements
        (inlines container children) :=
      fun container => (inlines_refusesFor container children).mono (by simp [Tree.elements])
    cases role with
    | strong | emphasis | strikethrough =>
      simp only [inline]
      exact (hinlines _).bind fun _ _ => .pure _
    | inlineCode =>
      simp only [inline]
      exact (refusesFor_literal htop children).bind fun _ _ => .pure _
    | link =>
      simp only [inline]
      exact (refusesFor_stringProperty htop "url").bind fun _ _ => (hinlines _).bind fun _ _ =>
        (refusesFor_stringProperty? htop "title").bind fun _ _ => .pure _
    | other given =>
      simp only [inline]
      exact .refuse htop (LoweringError.isFaultOf_ofRole given properties)
    | _ =>
      simp only [inline]
      exact .pure none

theorem inlines_refusesFor (container : String) : (ts : List Tree) →
    RefusesFor (Tree.elementsAll ts) (inlines container ts)
  | [] => by
    rw [inlines]
    exact .pure []
  | t :: ts => by
    have hfirst : RefusesFor (Tree.elementsAll (t :: ts)) (inline t) :=
      (inline_refusesFor t).mono (by simp [Tree.elementsAll])
    have hrest : RefusesFor (Tree.elementsAll (t :: ts)) (inlines container ts) :=
      (inlines_refusesFor container ts).mono (by simp [Tree.elementsAll])
    rw [inlines]
    refine hfirst.bind fun answer _ => ?_
    cases answer with
    | some node => exact hrest.bind fun _ _ => .pure _
    | none => exact (RefusesFor.report _).bind fun _ _ => hrest

end

/-- A role that cannot be looked up is outside the vocabulary. -/
theorem isFaultOf_of_isNoKey {role : Role} (h : role.isNoKey = true) (properties : Entries) :
    (LoweringError.roleNoKey role.toValue).IsFaultOf role properties := by
  cases role with
  | other given => exact ⟨rfl, by simpa [Role.isNoKey, Role.toValue] using h⟩
  | _ => cases h

theorem cells_refusesFor (ts : List Tree) : RefusesFor (Tree.elementsAll ts) (cells ts) := by
  induction ts with
  | nil =>
    rw [cells]
    exact .pure []
  | cons t ts ih =>
    have hrest : RefusesFor (Tree.elementsAll (t :: ts)) (cells ts) :=
      ih.mono (by simp [Tree.elementsAll])
    cases t with
    | text handle value =>
      rw [cells]
      exact (RefusesFor.report _).bind fun _ _ => hrest
    | element handle role properties children =>
      have htop : (role, properties) ∈
          Tree.elementsAll (.element handle role properties children :: ts) := by
        simp [Tree.elementsAll, Tree.elements]
      rw [cells]
      split
      · refine RefusesFor.bind ?_ fun content _ =>
          (refusesFor_cell htop content).bind fun _ _ => hrest.bind fun _ _ => .pure _
        refine (inlines_refusesFor "table cell" children).mono ?_
        intro x hx
        simp [Tree.elementsAll, Tree.elements, hx]
      · split
        · rename_i hkey
          exact .refuse htop (isFaultOf_of_isNoKey hkey properties)
        · exact (RefusesFor.report _).bind fun _ _ => hrest

theorem rows_refusesFor (ts : List Tree) : RefusesFor (Tree.elementsAll ts) (rows ts) := by
  induction ts with
  | nil =>
    rw [rows]
    exact .pure []
  | cons t ts ih =>
    have hrest : RefusesFor (Tree.elementsAll (t :: ts)) (rows ts) :=
      ih.mono (by simp [Tree.elementsAll])
    by_cases hrole : t.role? = some .tableRow
    · obtain ⟨handle, properties, children, rfl⟩ := Tree.eq_element_of_role? hrole
      rw [rows]
      refine RefusesFor.bind ?_ fun first _ => hrest.bind fun _ _ => .pure _
      refine (cells_refusesFor children).mono ?_
      intro x hx
      simp [Tree.elementsAll, Tree.elements, hx]
    · intro hroot e he
      rw [result_rows_of_ne ts hrole] at he
      exact hrest hroot e he

mutual

theorem items_refusesFor : (ts : List Tree) → RefusesFor (Tree.elementsAll ts) (items ts)
  | [] => by
    rw [items]
    exact .pure []
  | .text handle value :: ts => by
    intro hroot e he
    rw [result_items_of_ne ts (by simp [Tree.role?])] at he
    exact items_refusesFor ts hroot e he
  | .element handle role properties children :: ts => by
    have htop : (role, properties) ∈
        Tree.elementsAll (.element handle role properties children :: ts) := by
      simp [Tree.elementsAll, Tree.elements]
    have hrest : RefusesFor (Tree.elementsAll (.element handle role properties children :: ts))
        (items ts) := (items_refusesFor ts).mono (by simp [Tree.elementsAll])
    have hpieces : RefusesFor (Tree.elementsAll (.element handle role properties children :: ts))
        (pieces children) := by
      refine (pieces_refusesFor children).mono ?_
      intro x hx
      simp [Tree.elementsAll, Tree.elements, hx]
    by_cases hrole : role = .listItem
    · subst hrole
      rw [items]
      exact (refusesFor_taskStatus htop).bind fun _ _ => hpieces.bind fun _ _ =>
        hrest.bind fun _ _ => .pure _
    · intro hroot e he
      rw [result_items_of_ne ts (by simpa [Tree.role?] using hrole)] at he
      exact hrest hroot e he

/-- At a block position the faults of every role show. -/
theorem piece_refusesFor : (t : Tree) → RefusesFor t.elements (piece t)
  | .text handle value => by
    rw [piece]
    exact .pure _
  | .element handle role properties children => by
    have htop : (role, properties) ∈ (Tree.element handle role properties children).elements := by
      simp [Tree.elements]
    have hbelow : Tree.elementsAll children ⊆
        (Tree.element handle role properties children).elements := by
      simp [Tree.elements]
    have hinlines : ∀ container, RefusesFor (Tree.element handle role properties children).elements
        (inlines container children) :=
      fun container => (inlines_refusesFor container children).mono hbelow
    cases role with
    | strong | emphasis | strikethrough =>
      simp only [piece]
      exact (hinlines _).bind fun _ _ => .pure _
    | inlineCode =>
      simp only [piece]
      exact (refusesFor_literal htop children).bind fun _ _ => .pure _
    | link =>
      simp only [piece]
      exact (refusesFor_stringProperty htop "url").bind fun _ _ => (hinlines _).bind fun _ _ =>
        (refusesFor_stringProperty? htop "title").bind fun _ _ => .pure _
    | heading =>
      simp only [piece]
      exact (refusesFor_property htop (Property.reads_headingLevel _)).bind fun _ _ =>
        (hinlines _).bind fun _ _ => .pure _
    | paragraph =>
      simp only [piece]
      split
      · rename_i imageProperties himage
        have hmem : (.image, imageProperties) ∈ Tree.elementsAll children := by
          unfold soleImage? at himage
          split at himage
          · obtain rfl := Option.some.inj himage
            simp [Tree.elementsAll, Tree.elements]
          · cases himage
        exact (refusesFor_image (hbelow hmem)).bind fun _ _ => .pure _
      · exact (hinlines _).bind fun _ _ => .pure _
    | blockquote =>
      simp only [piece]
      exact ((pieces_refusesFor children).mono hbelow).bind fun _ _ => .pure _
    | code =>
      simp only [piece]
      exact (refusesFor_language htop).bind fun _ _ =>
        (refusesFor_literal htop children).bind fun _ _ => .pure _
    | list =>
      simp only [piece]
      exact (refusesFor_property htop (Property.reads_read _ _ _ _)).bind fun _ _ =>
        (refusesFor_start htop).bind fun _ _ =>
          ((items_refusesFor children).mono hbelow).bind fun _ _ => .pure _
    | listItem =>
      simp only [piece]
      exact (RefusesFor.report _).bind fun _ _ => (refusesFor_taskStatus htop).bind fun _ _ =>
        ((pieces_refusesFor children).mono hbelow).bind fun _ _ => .pure _
    | table =>
      simp only [piece]
      exact ((rows_refusesFor children).mono hbelow).bind fun _ _ => .pure _
    | tableRow =>
      simp only [piece]
      exact (RefusesFor.report _).bind fun _ _ =>
        ((cells_refusesFor children).mono hbelow).bind fun _ _ => .pure _
    | tableCell | tableHeader =>
      simp only [piece]
      exact (RefusesFor.report _).bind fun _ _ => (hinlines _).bind fun content _ =>
        (refusesFor_cell htop content).bind fun _ _ => .pure _
    | thematicBreak =>
      simp only [piece]
      exact .pure _
    | image =>
      simp only [piece]
      exact (refusesFor_image htop).bind fun _ _ => .pure _
    | root =>
      intro hroot
      exact absurd rfl (hroot _ htop)
    | other given =>
      simp only [piece]
      exact .refuse htop (LoweringError.isFaultOf_ofRole given properties)

theorem pieces_refusesFor : (ts : List Tree) → RefusesFor (Tree.elementsAll ts) (pieces ts)
  | [] => by
    rw [pieces]
    exact .pure []
  | t :: ts => by
    have hfirst : RefusesFor (Tree.elementsAll (t :: ts)) (piece t) :=
      (piece_refusesFor t).mono (by simp [Tree.elementsAll])
    have hrest : RefusesFor (Tree.elementsAll (t :: ts)) (pieces ts) :=
      (pieces_refusesFor ts).mono (by simp [Tree.elementsAll])
    rw [pieces]
    exact hfirst.bind fun _ _ => hrest.bind fun _ _ => .pure _

end

end Lowering

/-- What lowering gives is a document. -/
theorem Tree.lower_isDocument (t : Tree) {doc : Node} (h : t.lower.result = .ok doc) :
    ∃ blocks, doc = .document blocks := by
  simp only [lower, Traced.result_bind_eq_ok, Traced.result_pure_eq_ok] at h
  obtain ⟨blocks, -, rfl⟩ := h
  exact ⟨blocks, rfl⟩

/-- **A tree is refused for the fault of one of its elements**, which is no root element. -/
theorem Tree.exists_fault (t : Tree) {e : LoweringError} (h : t.lower.result = .error e) :
    ∃ x ∈ t.elements, x.1 ≠ .root ∧ e.IsFaultOf x.1 x.2 := by
  have hpieces := Lowering.pieces_refusesFor t.splice
  rw [elementsAll_splice] at hpieces
  have hlower : Lowering.RefusesFor (t.elements.filter fun x => x.1 ≠ .root) t.lower :=
    (hpieces.bind fun _ _ => .pure _).bind fun _ _ => .pure _
  obtain ⟨x, hx, hfault⟩ := hlower (by simp) e h
  obtain ⟨hmem, hroot⟩ := List.mem_filter.mp hx
  exact ⟨x, hmem, by simpa using hroot, hfault⟩

/-- A list whose start is an integer out of range is refused, and not for its type. -/
theorem Tree.lower_of_start_out_of_range (handle : Value) {properties : Entries}
    (children : List Tree) {ordered : Option Bool}
    (hordered : Property.flag (some "ordered") (properties.get "ordered") = .ok ordered) {i : Int}
    (hstart : properties.get "start" = .int i) (hrange : Double.rangeEnd ≤ i.natAbs) :
    (Tree.element handle .list properties children).lower.result = .error .startOutOfRange := by
  have hnumber : Lowering.startNumber (.int i) = .error .startOutOfRange := by
    rw [Lowering.startNumber, if_neg (Nat.not_lt.mpr hrange)]
  have hread : Property.number (some "start") (.int i) = .ok (some (.int i)) := rfl
  simp [Tree.lower, Tree.splice, Lowering.blocks, Lowering.pieces, Lowering.piece, hordered,
    Lowering.property, Lowering.start, hstart, hread, hnumber, Except.mapError]

/-! ## Trees of a store -/

namespace Store

variable {s : Store}

/-- The record, or one below it, is an element with the role and the properties. -/
def HasElement (s : Store) (n : NodeId) (role : Role) (properties : Entries) : Prop :=
  ∃ m ids, (m = n ∨ s.Ancestor n m) ∧ s.content? m = some (.element role properties ids)

/-- A property of the roles of all records holds of every element below a record. -/
theorem RolesAre.of_hasElement {P : Role → Prop} (H : s.RolesAre P) {n : NodeId} {role : Role}
    {properties : Entries} (h : s.HasElement n role properties) : P role := by
  obtain ⟨m, ids, -, hcontent⟩ := h
  exact H m _ hcontent

theorem exists_of_mem_mapM {α β : Type} {f : α → Option β} {xs : List α} {ys : List β}
    (h : xs.mapM f = some ys) {y : β} (hy : y ∈ ys) : ∃ x ∈ xs, f x = some y := by
  induction xs generalizing ys with
  | nil =>
    obtain rfl : [] = ys := by simpa using h
    cases hy
  | cons x xs ih =>
    simp only [List.mapM_cons, Option.bind_eq_bind, Option.bind_eq_some_iff, Option.pure_def,
      Option.some.injEq] at h
    obtain ⟨z, hz, zs, hzs, rfl⟩ := h
    rcases List.mem_cons.mp hy with rfl | hy
    · exact ⟨x, by simp, hz⟩
    · obtain ⟨x', hx', hxy⟩ := ih hzs hy
      exact ⟨x', by simp [hx'], hxy⟩

/-- **The elements of a subtree are records at its top or below it.** The induction is on the
depth. -/
theorem Forest.hasElement (H : s.Forest) (depth : Nat) {given : Value} {n : NodeId} {t : Tree}
    (ht : s.subtreeWithin depth given n = some t) {x : Role × Entries} (hx : x ∈ t.elements) :
    s.HasElement n x.1 x.2 := by
  induction depth using Nat.strong_induction_on generalizing given n t with
  | _ depth ih =>
  obtain ⟨content, hcontent⟩ := exists_content?_of_subtreeWithin ht
  cases content with
  | text value =>
    rw [subtreeWithin_of_text hcontent ht] at hx
    cases hx
  | element role properties ids =>
    obtain ⟨below, ts, hbelow, hts, rfl⟩ := subtreeWithin_of_element hcontent ht
    rw [Tree.elements] at hx
    rcases List.mem_cons.mp hx with rfl | hx
    · exact ⟨n, ids, .inl rfl, hcontent⟩
    · obtain ⟨u, hu, hxu⟩ := Tree.mem_elementsAll_iff.mp hx
      obtain ⟨c, hc, hcu⟩ := exists_of_mem_mapM hts hu
      rw [← childrenOf_of_content? hcontent] at hc
      have hparent : s.HangsOn c n := (H.mem_childrenOf n c).mp hc
      obtain ⟨m, ids', hm, hcontent'⟩ := ih below hbelow hcu hxu
      refine ⟨m, ids', .inr ?_, hcontent'⟩
      rcases hm with rfl | hm
      · exact .single hparent
      · exact .tail hm hparent

/-- A record that is a list with a start out of range is refused. -/
theorem Forest.lower_of_start_out_of_range (H : s.Forest) {h : Handle} {properties : Entries}
    {ids : List NodeId} (hlist : s.content? h.id = some (.element .list properties ids))
    {ordered : Option Bool}
    (hordered : Property.flag (some "ordered") (properties.get "ordered") = .ok ordered) {i : Int}
    (hstart : properties.get "start" = .int i) (hrange : Double.rangeEnd ≤ i.natAbs) :
    (s.lower h.given).result = .error .startOutOfRange := by
  obtain ⟨r, hr, -⟩ := Option.map_eq_some_iff.mp hlist
  obtain ⟨t, ht, -, hlower⟩ := H.exists_tree h (lt_size_of_get? hr)
  obtain ⟨below, ts, -, -, rfl⟩ := subtreeWithin_of_element hlist ht
  rw [hlower, Tree.lower_of_start_out_of_range h.given ts hordered hstart hrange]

end Store

/-! ## After a run -/

/-- A role is overwritten, if at all, by a string. -/
def Operation.OverwritesByNames : Operation → Prop
  | .setRole _ role => ∃ name : String, role = .str name
  | _ => True

/-- After a run that overwrites roles by strings only, every role is a string. -/
theorem Container.roles_are_names {operations : List Operation}
    (h : ∀ operation ∈ operations, operation.OverwritesByNames) :
    (run operations).store.RolesAre fun role => ∃ name : String, role.toValue = .str name := by
  refine rolesAre_run ?_ fun operation hmem => ?_
  · intro role hknown
    cases role with
    | other given => cases hknown
    | _ => exact ⟨_, rfl⟩
  · have hoperation := h operation hmem
    cases operation with
    | setRole node role =>
      obtain ⟨name, rfl⟩ := hoperation
      exact ⟨name, Role.toValue_ofValue _⟩
    | _ => trivial

/-- **What lowering can be refused for.** After any run whose overwritten roles are strings, a known
record has a document, or it is refused for an element at the record or below it: for a role outside
the vocabulary, for a property that is there and of the wrong type, or, without a word, for a list
that starts with an integer out of range. Such a list is itself always refused in the last way,
unless it is refused for another property that it reads before. -/
theorem lowering_is_refused_for_faults (operations : List Operation)
    (hroles : ∀ operation ∈ operations, operation.OverwritesByNames) (h : Handle)
    (hknown : h.id < (Container.run operations).store.size) :
    let s := (Container.run operations).store
    let answer := (s.lower h.given).result
    ((∃ blocks, answer = .ok (.document blocks)) ∨
      (∃ name properties, s.HasElement h.id (.other (.str name)) properties ∧
        answer = .error (.unknownRole (.str name))) ∨
      (∃ role properties e, s.HasElement h.id role properties ∧ e.IsAbout properties ∧
        answer = .error (.property e)) ∨
      ∃ (properties : Entries) (i : Int), s.HasElement h.id .list properties ∧
        properties.get "start" = .int i ∧ Double.rangeEnd ≤ i.natAbs ∧
        answer = .error .startOutOfRange) ∧
    ∀ (properties : Entries) (ids : List NodeId) (ordered : Option Bool) (i : Int),
      s.content? h.id = some (.element .list properties ids) →
      Property.flag (some "ordered") (properties.get "ordered") = .ok ordered →
      properties.get "start" = .int i → Double.rangeEnd ≤ i.natAbs →
      answer = .error .startOutOfRange := by
  intro s answer
  have H : s.Forest := (Container.consistent_run operations).forest
  obtain ⟨t, ht, -, hlower⟩ := H.exists_tree h hknown
  have hanswer : answer = t.lower.result := by rw [← hlower]
  refine ⟨?_, fun properties ids ordered i hlist hordered hstart hrange =>
    H.lower_of_start_out_of_range hlist hordered hstart hrange⟩
  cases hresult : t.lower.result with
  | ok doc =>
    obtain ⟨blocks, rfl⟩ := t.lower_isDocument hresult
    exact .inl ⟨blocks, hanswer.trans hresult⟩
  | error e =>
    have hrefused : answer = .error e := hanswer.trans hresult
    obtain ⟨⟨role, properties⟩, hmem, -, hfault⟩ := t.exists_fault hresult
    have helement : s.HasElement h.id role properties := H.hasElement s.size ht hmem
    obtain ⟨name, hname⟩ := (Container.roles_are_names hroles).of_hasElement helement
    cases e with
    | unknownRole given =>
      obtain ⟨rfl, -⟩ := hfault
      obtain rfl : given = .str name := hname
      exact .inr (.inl ⟨name, properties, helement, hrefused⟩)
    | roleNoKey given =>
      obtain ⟨rfl, hkey⟩ := hfault
      obtain rfl : given = .str name := hname
      cases hkey
    | property e => exact .inr (.inr (.inl ⟨role, properties, e, helement, hfault, hrefused⟩))
    | startOutOfRange =>
      obtain ⟨rfl, i, hstart, hrange⟩ := hfault
      exact .inr (.inr (.inr ⟨properties, i, helement, hstart, hrange, hrefused⟩))
    | store e => cases hfault

/-- A list that starts with an integer, in an element of a role outside the vocabulary. -/
def startingWith (start : Int) : List Operation :=
  [.createElement (.str "list") (.map [("start", .int start)]),
    .createElement (.str "blockquote") .null, .appendChild (.int 1) (.int 0),
    .setRole (.int 1) (.str "quote")]

theorem startingWith_overwritesByNames (start : Int) :
    ∀ operation ∈ startingWith start, operation.OverwritesByNames := by
  simp [startingWith, Operation.OverwritesByNames]

/-- The list has a known record and is refused for its start. -/
theorem huge_start_is_refused_for_faults :
    let s := (Container.run (startingWith (10 ^ 400))).store
    (∀ operation ∈ startingWith (10 ^ 400), operation.OverwritesByNames) ∧ 0 < s.size ∧
    (s.lower (.int 0)).result = .error .startOutOfRange := by
  intro s
  have hroles := startingWith_overwritesByNames (10 ^ 400)
  obtain ⟨-, hlist⟩ := lowering_is_refused_for_faults _ hroles (.ofId 0) (by decide)
  exact ⟨hroles, by decide, hlist _ [] none (10 ^ 400) rfl rfl rfl (by decide +kernel)⟩

/-- The refusals are not only those for roles and for properties of the wrong type. -/
theorem some_lowering_is_refused_otherwise :
    ¬ ∀ (operations : List Operation) (h : Handle),
      (∀ operation ∈ operations, operation.OverwritesByNames) →
      h.id < (Container.run operations).store.size →
      let answer := ((Container.run operations).store.lower h.given).result
      (∃ blocks, answer = .ok (.document blocks)) ∨
        (∃ given, answer = .error (.unknownRole given)) ∨ ∃ e, answer = .error (.property e) := by
  intro hclaim
  have hforest := (Container.consistent_run (startingWith (10 ^ 400))).forest
  have hanswer : ((Container.run (startingWith (10 ^ 400))).store.lower (.int 0)).result =
      .error .startOutOfRange :=
    @Store.Forest.lower_of_start_out_of_range _ hforest (.ofId 0) _ [] rfl none rfl _ rfl
      (by decide +kernel)
  obtain ⟨_, h⟩ | ⟨_, h⟩ | ⟨_, h⟩ :=
    hclaim _ (.ofId 0) (startingWith_overwritesByNames (10 ^ 400)) (by decide)
  all_goals cases hanswer.symm.trans h

end DocumentTree
