import DocumentTree.Proofs.Rendering.Described
import DocumentTree.Proofs.Store.Moves

/-!
# Rendering with debugging on

With debugging on, the tree is printed before it is lowered, the document before it is written, and
the text in the end. Printing the tree goes down from the root record by record, to whatever hangs
there: also to what the lowering drops, and to elements whose role it refuses. In a forest this
comes to an end at every record with one printed form, and an unknown root is refused by the
printing in the words of the lowering. So debugging changes neither the text nor the refusal.

## Main definitions

* `Store.Prints` — what printing a record gives, read off the records on the way down.
* `Options.Settled` — the options of a rendering are not refused.
-/

namespace DocumentTree

open Markdown (GivenOptions Options)

namespace Store

variable {s : Store} {indent : Int} {n : NodeId} {t : Text}

/-- An element up to its children. -/
def printedElement (indent : Int) (role : Role) (properties : Entries) : Text :=
  Text.spaces indent.toNat ++ role.name.toList ++ Tree.outlineProperties properties

mutual

/-- Printing the record with an indent comes to an end and gives the text. -/
inductive Prints (s : Store) : Int → NodeId → Text → Prop
  | text {indent : Int} {n : NodeId} {value : String} : s.content? n = some (.text value) →
      Prints s indent n
        (Text.spaces indent.toNat ++ "text value: ".toList ++ Json.quote value.toList)
  | leaf {indent : Int} {n : NodeId} {role : Role} {properties : Entries} :
      s.content? n = some (.element role properties []) →
      Prints s indent n (printedElement indent role properties)
  | element {indent : Int} {n c : NodeId} {role : Role} {properties : Entries} {ids : List NodeId}
      {printed : List Text} : s.content? n = some (.element role properties (c :: ids)) →
      PrintsAll s (indent + 2) (c :: ids) printed →
      Prints s indent n
        (Text.unlines ((printedElement indent role properties ++ [' ', '[']) :: printed
          ++ [Text.spaces indent.toNat ++ [']']]))

/-- Printing the records one after the other comes to an end and gives the texts. -/
inductive PrintsAll (s : Store) : Int → List NodeId → List Text → Prop
  | nil {indent : Int} : PrintsAll s indent [] []
  | cons {indent : Int} {n : NodeId} {ids : List NodeId} {t : Text} {printed : List Text} :
      Prints s indent n t → PrintsAll s indent ids printed →
      PrintsAll s indent (n :: ids) (t :: printed)

end

/-- Records with a tree each are printed as the outlines of the trees. -/
theorem printsAll_iff {f : NodeId → Option Tree} {ids : List NodeId} {trees : List Tree}
    (hprints : ∀ c tree, f c = some tree → ∀ t, s.Prints indent c t ↔ t = tree.outline indent)
    (h : ids.mapM f = some trees) (printed : List Text) :
    s.PrintsAll indent ids printed ↔ printed = Tree.outlineAll indent trees := by
  induction ids generalizing trees printed with
  | nil =>
    obtain rfl : [] = trees := by simpa using h
    constructor
    · rintro ⟨⟩
      rfl
    · rintro rfl
      exact .nil
  | cons c ids ih =>
    simp only [List.mapM_cons, Option.bind_eq_bind, Option.bind_eq_some_iff] at h
    obtain ⟨tree, htree, rest, hrest, heq⟩ := h
    obtain rfl : tree :: rest = trees := by simpa using heq
    constructor
    · rintro (_ | ⟨hfirst, hothers⟩)
      rw [Tree.outlineAll, (hprints c tree htree _).mp hfirst, (ih hrest _).mp hothers]
    · rintro rfl
      exact .cons ((hprints c tree htree _).mpr rfl) ((ih hrest _).mpr rfl)

/-- **Printing a record that has a tree gives the outline of the tree**, and nothing else. -/
theorem prints_iff_of_subtreeWithin {depth : Nat} {given : Value} {tree : Tree}
    (h : s.subtreeWithin depth given n = some tree) :
    s.Prints indent n t ↔ t = tree.outline indent := by
  induction depth generalizing given n tree indent t with
  | zero => cases h
  | succ depth ih =>
    rw [subtreeWithin_succ] at h
    cases hcontent : s.content? n with
    | none => simp [hcontent] at h
    | some content =>
      cases content with
      | text value =>
        obtain rfl : Tree.text given value = tree := by simpa [hcontent] using h
        constructor
        · rintro (hown | hown | ⟨hown, -⟩) <;> cases hcontent.symm.trans hown
          rfl
        · rintro rfl
          exact .text hcontent
      | element role properties ids =>
        simp only [hcontent, Option.map_eq_some_iff] at h
        obtain ⟨trees, htrees, rfl⟩ := h
        have hall : ∀ printed, s.PrintsAll (indent + 2) ids printed ↔
            printed = Tree.outlineAll (indent + 2) trees :=
          printsAll_iff (fun c tree htree t => ih htree) htrees
        cases ids with
        | nil =>
          obtain rfl : [] = trees := by simpa using htrees
          constructor
          · rintro (hown | hown | ⟨hown, -⟩) <;> cases hcontent.symm.trans hown
            rfl
          · rintro rfl
            exact .leaf hcontent
        | cons c ids =>
          have hne : trees.isEmpty = false := by
            cases trees with
            | nil => simp [Option.bind_eq_some_iff] at htrees
            | cons _ _ => rfl
          rw [Tree.outline]
          simp only [hne]
          constructor
          · rintro (hown | hown | ⟨hown, hprinted⟩) <;> cases hcontent.symm.trans hown
            rw [(hall _).mp hprinted]
            rfl
          · rintro rfl
            exact .element hcontent ((hall _).mpr rfl)

/-- **Printing comes to an end at every known record**, with one printed form. -/
theorem Forest.exists_prints (H : s.Forest) (h : Handle) (hn : h.id < s.size) :
    ∃ tree, s.tree? h.given = .ok (some tree) ∧
      ∀ indent t, s.Prints indent h.id t ↔ t = tree.outline indent := by
  obtain ⟨tree, hsubtree, htree, -⟩ := H.exists_tree h hn
  exact ⟨tree, htree, fun indent t => prints_iff_of_subtreeWithin hsubtree⟩

end Store

/-! ## What is reported -/

namespace Traced

variable {ν ε α β : Type} {x : Traced ν ε α} {f : α → Traced ν ε β} {notice : ν}

theorem mem_notices_bind_left (h : notice ∈ x.notices) : notice ∈ (x >>= f).notices := by
  show notice ∈ (Traced.bind x f).notices
  unfold Traced.bind
  cases x.result with
  | error e => exact h
  | ok a => exact List.mem_append_left _ h

theorem mem_notices_bind_right {a : α} (ha : x.result = .ok a) (h : notice ∈ (f a).notices) :
    notice ∈ (x >>= f).notices := by
  rw [notices_bind_of_ok ha]
  exact List.mem_append_right _ h

end Traced

/-- The options of a rendering are not refused. -/
def Markdown.Options.Settled (o : Options) (given : GivenOptions) (overrides : Entries) : Prop :=
  Call.tree.accept overrides = .ok () ∧ (given.resolve overrides).result = .ok o

section

variable {s : Store} {root : Value} {given : GivenOptions} {overrides : Entries} {o : Options}
  {tree : Option Tree} {document : Node}

/-- The tree is reported once the options are settled, whatever follows. -/
theorem tree_reported (ho : o.Settled given overrides) (htree : s.tree? root = .ok tree) :
    .tree (outlineOf 0 tree) ∈ (renderTraced s root given overrides).notices := by
  obtain ⟨haccept, hresolve⟩ := ho
  refine Traced.mem_notices_bind_right (a := ()) (by simp [haccept, Except.mapError]) ?_
  refine Traced.mem_notices_bind_right (a := o) (by simp [hresolve]) ?_
  refine Traced.mem_notices_bind_right (a := tree) (by simp [htree]) ?_
  exact Traced.mem_notices_bind_left (List.mem_singleton_self _)

/-- The document and the text are reported once the tree has been lowered. -/
theorem text_reported (ho : o.Settled given overrides)
    (hlower : (s.lower root).result = .ok document) :
    .document (document.outline 0) ∈ (renderTraced s root given overrides).notices ∧
      .text (Markdown.render o document) ∈ (renderTraced s root given overrides).notices := by
  obtain ⟨haccept, hresolve⟩ := ho
  obtain ⟨tree, htree, -⟩ := Traced.result_bind_eq_ok.mp hlower
  have htree : s.tree? root = .ok tree := by simpa using htree
  have hlater : ∀ notice : Event, notice ∈ (do
        .report .lowered
        .report (.document (document.outline 0))
        .reportAll ((Markdown.skippedTables document).map Event.skippedTable)
        .report .written
        .report (.text (Markdown.render o document))
        return Markdown.render o document : Traced Event RenderError Text).notices →
      notice ∈ (renderTraced s root given overrides).notices := by
    intro notice h
    refine Traced.mem_notices_bind_right (a := ()) (by simp [haccept, Except.mapError]) ?_
    refine Traced.mem_notices_bind_right (a := o) (by simp [hresolve]) ?_
    refine Traced.mem_notices_bind_right (a := tree) (by simp [htree]) ?_
    refine Traced.mem_notices_bind_right (a := ()) rfl ?_
    exact Traced.mem_notices_bind_right (a := document) (by simp [hlower]) h
  constructor
  · refine hlater _ (Traced.mem_notices_bind_right rfl ?_)
    exact Traced.mem_notices_bind_left (List.mem_singleton_self _)
  · refine hlater _ (Traced.mem_notices_bind_right rfl ?_)
    refine Traced.mem_notices_bind_right rfl (Traced.mem_notices_bind_right rfl ?_)
    refine Traced.mem_notices_bind_right rfl ?_
    exact Traced.mem_notices_bind_left (List.mem_singleton_self _)

/-- An unknown root is refused once the options are settled, in the words of the store. -/
theorem unknown_root_refused (ho : o.Settled given overrides) {e : StoreError}
    (hnull : root ≠ .null) (hfind : s.find root = .error e) :
    render s root given overrides = .error (.lowering (.store e)) := by
  obtain ⟨haccept, hresolve⟩ := ho
  have htree : s.tree? root = .error e := by
    unfold Store.tree?
    split
    · exact absurd rfl hnull
    · rw [hfind]
      rfl
  simp [render, haccept, hresolve, Store.lower, htree, Except.mapError]

end

/-- **Debugging changes neither the text nor the refusal.** After any run of operations, and for any
root, options and overrides, the rendering that prints gives the result of the rendering that does
not; both only read the store. Once the options are settled, there is something to print whatever
the lowering will say: nothing at all has a line of its own, and at a known root the printing of the
tree comes to an end with one text, which is reported. An unknown root is refused for the same
reason by both. If the tree is lowered, the document and the text are reported too. -/
theorem debugging_changes_no_outcome (operations : List Operation) (root : Value)
    (given : GivenOptions) (overrides : Entries) :
    let s := (Container.run operations).store
    let traced := renderTraced s root given overrides
    traced.result = render s root given overrides ∧
    ∀ o : Options, o.Settled given overrides →
      (root = .null → .tree "(empty)".toList ∈ traced.notices) ∧
      (∀ h : Handle, h.given = root → h.id < s.size →
        ∃ t, (∀ u, s.Prints 0 h.id u ↔ u = t) ∧ .tree t ∈ traced.notices) ∧
      (∀ e, root ≠ .null → s.find root = .error e →
        traced.result = .error (.lowering (.store e))) ∧
      ∀ text, traced.result = .ok text → .text text ∈ traced.notices ∧
        ∃ document, (s.lower root).result = .ok document ∧
          .document (document.outline 0) ∈ traced.notices := by
  intro s traced
  have H : s.Forest := (Container.consistent_run operations).forest
  have hresult : traced.result = render s root given overrides :=
    result_renderTraced s root given overrides
  refine ⟨hresult, fun o ho => ⟨?_, ?_, ?_, ?_⟩⟩
  · rintro rfl
    have hnone : s.tree? .null = .ok none := rfl
    exact tree_reported ho hnone
  · rintro h rfl hn
    obtain ⟨tree, htree, hprints⟩ := H.exists_prints h hn
    exact ⟨tree.outline 0, hprints 0, tree_reported ho htree⟩
  · intro e hnull hfind
    rw [hresult, unknown_root_refused ho hnull hfind]
  · intro text htext
    rw [hresult] at htext
    simp only [render, bind_eq_ok, mapError_eq_ok, pure_eq_ok] at htext
    obtain ⟨-, -, o', ho', document, hlower, rfl⟩ := htext
    obtain rfl : o = o' := Except.ok.inj (ho.2.symm.trans ho')
    obtain ⟨hdocument, hreported⟩ := text_reported ho hlower
    exact ⟨hreported, document, hlower, hdocument⟩

/-- A paragraph with a text, to which an unknown role is given. -/
def unknownRole : List Operation :=
  [.createElement (.str "paragraph") .null, .createText (.str "a"), .appendChild (.int 0) (.int 1),
    .setRole (.int 0) (.str "figure")]

/-- An element with an unknown role is printed before it is refused. -/
theorem unknown_role_is_printed :
    let s := (Container.run unknownRole).store
    let traced := renderTraced s (.int 0) (.data .null) []
    traced.result = .error (.lowering (.unknownRole (.str "figure"))) ∧
    s.Prints 0 0 "figure [\n  text value: \"a\"\n]".toList ∧
    .tree "figure [\n  text value: \"a\"\n]".toList ∈ traced.notices := by
  obtain ⟨-, hreports⟩ := debugging_changes_no_outcome unknownRole (.int 0) (.data .null) []
  obtain ⟨-, hknown, -, -⟩ := hreports {} ⟨rfl, rfl⟩
  obtain ⟨t, hprints, htree⟩ := hknown (.ofId 0) rfl (by decide +kernel)
  have hcontent : (Container.run unknownRole).store.content? 0 =
      some (.element (.other (.str "figure")) [] [1]) := rfl
  have hprinted : (Container.run unknownRole).store.Prints 0 0 _ :=
    .element hcontent (.cons (.text rfl) .nil)
  obtain rfl := (hprints _).mp hprinted
  have htext : Text.unlines
      [Store.printedElement 0 (.other (.str "figure")) [] ++ [' ', '['],
        Text.spaces 2 ++ "text value: ".toList ++ Json.quote "a".toList, [']']] =
      "figure [\n  text value: \"a\"\n]".toList := by decide +kernel
  rw [← htext]
  exact ⟨rfl, hprinted, htree⟩

end DocumentTree
