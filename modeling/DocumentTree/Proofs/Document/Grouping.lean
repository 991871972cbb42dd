import DocumentTree.Proofs.Document.LoweredGrammar
import Mathlib.Data.List.Forall2
import Mathlib.Data.List.SplitBy

/-!
# Runs of inline siblings

Siblings at a block position, once root elements are spliced away, are cut between two neighbours
unless both are inline. What is cut out is a maximal run of inline nodes or a single other node, and
each becomes one block. The pass collects an open run as it goes; that no run is lost or cut in two
is shown for every open run in front of the siblings to come.

## Main definitions

* `Tree.runs` — siblings cut into maximal runs of inline nodes and single others.
* `Lowering.Becomes` — the block that a run or a single node becomes.
* `Node.IsSynthesizedText` — a paragraph that no element stands for and that has no image.
-/

namespace DocumentTree

namespace Tree

/-- Siblings cut into maximal runs of inline nodes and single others. -/
def runs (ts : List Tree) : List (List Tree) :=
  ts.splitBy fun t u => t.isInline && u.isInline

/-- Inline siblings are one run. -/
theorem runs_of_isInline {ts : List Tree} (hne : ts ≠ []) (h : ∀ t ∈ ts, t.isInline = true) :
    runs ts = [ts] := by
  refine List.splitBy_of_isChain hne (List.Pairwise.isChain ?_)
  exact List.pairwise_of_forall_mem_list fun t ht u hu => by simp [h t ht, h u hu]

/-- A node that is not inline stands between the runs. -/
theorem runs_append_cons {t : Tree} (h : t.isInline = false) (ts us : List Tree) :
    runs (ts ++ t :: us) = runs ts ++ [t] :: runs us := by
  have hsingle : runs [t] = [[t]] := rfl
  have hafter : runs ([t] ++ us) = runs [t] ++ runs us :=
    List.splitBy_append fun x hx u _ => by
      obtain rfl : t = x := by simpa using hx
      simp [h]
  rw [hsingle] at hafter
  have hbefore : runs (ts ++ t :: us) = runs ts ++ runs (t :: us) :=
    List.splitBy_append_cons us fun x _ => by simp [h]
  rw [hbefore]
  exact congrArg (runs ts ++ ·) hafter

end Tree

/-- A paragraph that no element stands for and that has no image. -/
def Node.IsSynthesizedText : Node → Prop
  | paragraph content metadata => metadata = synthesized ∧ ∀ n ∈ content, n.isImage = false
  | _ => False

/-- A relation between the members of two lists takes neighbours to neighbours. -/
theorem isChain_of_forall₂ {α β : Type} {R : α → β → Prop} {P : α → α → Prop} {Q : β → β → Prop}
    (hstep : ∀ {x x' y y'}, R x y → R x' y' → P x x' → Q y y') {xs : List α} {ys : List β}
    (h : List.Forall₂ R xs ys) (hchain : xs.IsChain P) : ys.IsChain Q := by
  induction h with
  | nil => exact .nil
  | cons hxy hrest ih =>
    cases hrest with
    | nil => exact .singleton _
    | cons hxy' hrest' =>
      obtain ⟨hp, hchain⟩ := List.isChain_cons_cons.mp hchain
      exact .cons_cons (hstep hxy hxy' hp) (ih hchain)

namespace Lowering

/-- What a run or a single node becomes: a run of inline nodes a paragraph of what each of them
gives at an inline position, in order, and any other node its own block. -/
inductive Becomes : List Tree → Node → Prop
  | run {ts : List Tree} {ns : List Node} (hne : ts ≠ []) (hinline : ∀ t ∈ ts, t.isInline = true)
      (h : List.Forall₂ (fun t n => (inline t).result = .ok (some n)) ts ns) :
      Becomes ts (.paragraph ns synthesized)
  | single {t : Tree} {b : Node} (hinline : t.isInline = false)
      (h : (piece t).result = .ok (.block b)) : Becomes [t] b

/-! ## Single nodes -/

/-- A node that is not inline gives a block, and no synthesized paragraph without an image. -/
theorem exists_block_of_not_isInline {t : Tree} (hinline : t.isInline = false) {p : Piece}
    (h : (piece t).result = .ok p) : ∃ b, p = .block b ∧ ¬ b.IsSynthesizedText := by
  cases t with
  | text handle value => cases hinline
  | element handle role properties children =>
    cases role with
    | strong | emphasis | strikethrough | inlineCode | link => cases hinline
    | paragraph =>
      simp only [piece] at h
      split at h
      all_goals
        simp only [Traced.result_bind_eq_ok, Traced.result_pure_eq_ok] at h
        obtain ⟨content, -, rfl⟩ := h
        exact ⟨_, rfl, by simp [Node.IsSynthesizedText, synthesized]⟩
    | image =>
      simp only [piece, Traced.result_bind_eq_ok, Traced.result_pure_eq_ok] at h
      obtain ⟨n, hn, rfl⟩ := h
      obtain ⟨url, alt, title, rfl⟩ := image_isImage hn
      exact ⟨_, rfl, by simp [Node.IsSynthesizedText, Node.isImage]⟩
    | root | other => simp [piece] at h
    | thematicBreak =>
      simp only [piece, Traced.result_pure_eq_ok] at h
      exact ⟨_, h.symm, id⟩
    | blockquote | table =>
      simp only [piece, Traced.result_bind_eq_ok, Traced.result_pure_eq_ok] at h
      obtain ⟨-, -, rfl⟩ := h
      exact ⟨_, rfl, id⟩
    | heading | code | tableRow =>
      simp only [piece, Traced.result_bind_eq_ok, Traced.result_pure_eq_ok] at h
      obtain ⟨-, -, -, -, rfl⟩ := h
      exact ⟨_, rfl, id⟩
    | list | listItem | tableCell | tableHeader =>
      simp only [piece, Traced.result_bind_eq_ok, Traced.result_pure_eq_ok] at h
      obtain ⟨-, -, -, -, -, -, rfl⟩ := h
      exact ⟨_, rfl, id⟩

/-- Only a run of inline nodes becomes a synthesized paragraph without an image. -/
theorem Becomes.isInline_of_isSynthesizedText {ts : List Tree} {b : Node} (h : Becomes ts b)
    (hb : b.IsSynthesizedText) : ∀ t ∈ ts, t.isInline = true := by
  cases h with
  | run hne hinline hrun => exact hinline
  | single hinline hpiece =>
    obtain ⟨b', hb', hnot⟩ := exists_block_of_not_isInline hinline hpiece
    obtain rfl := Piece.block.inj hb'
    exact absurd hb hnot

/-! ## The open run -/

theorem becomes_runParagraph {ts : List Tree} {ns : List Node}
    (hinline : ∀ t ∈ ts, t.isInline = true)
    (h : List.Forall₂ (fun t n => (inline t).result = .ok (some n)) ts ns) :
    List.Forall₂ Becomes (Tree.runs ts) (runParagraph ns) := by
  by_cases hne : ts = []
  · subst hne
    obtain rfl := List.forall₂_nil_left_iff.mp h
    exact .nil
  · have hns : ns.isEmpty = false := by
      cases h with
      | nil => exact absurd rfl hne
      | cons hfirst hrest => rfl
    rw [Tree.runs_of_isInline hne hinline, runParagraph, hns]
    exact .cons (.run hne hinline h) .nil

/-- **With an open run in front, the siblings to come give one block for each run or single node.**
The induction is on the siblings to come, for every open run. -/
theorem becomes_groupFrom {ts : List Tree} {ps : List Piece} (h : (pieces ts).result = .ok ps)
    {us : List Tree} {ns : List Node} (hinline : ∀ u ∈ us, u.isInline = true)
    (hrun : List.Forall₂ (fun u n => (inline u).result = .ok (some n)) us ns) :
    List.Forall₂ Becomes (Tree.runs (us ++ ts)) (groupFrom ns ps) := by
  induction ts generalizing ps us ns with
  | nil =>
    simp only [pieces, Traced.result_pure_eq_ok] at h
    subst h
    rw [List.append_nil]
    exact becomes_runParagraph hinline hrun
  | cons t ts ih =>
    simp only [pieces, Traced.result_bind_eq_ok, Traced.result_pure_eq_ok] at h
    obtain ⟨first, hfirst, rest, hrest, rfl⟩ := h
    cases ht : t.isInline with
    | true =>
      -- An inline node joins the open run.
      obtain ⟨node, hnode, hpiece⟩ := result_piece_of_isInline ht
      simp only [hpiece, bind_eq_ok, pure_eq_ok] at hfirst
      obtain ⟨n, rfl, rfl⟩ := hfirst
      rw [List.append_cons, groupFrom]
      refine ih hrest ?_ (List.rel_append hrun (.cons hnode .nil))
      intro u hu
      rcases List.mem_append.mp hu with hu | hu
      · exact hinline u hu
      · obtain rfl := List.mem_singleton.mp hu
        exact ht
    | false =>
      -- Any other node closes the run, and the next run starts empty.
      obtain ⟨b, rfl, -⟩ := exists_block_of_not_isInline ht hfirst
      rw [Tree.runs_append_cons ht, groupFrom]
      refine List.rel_append (becomes_runParagraph hinline hrun) ?_
      exact .cons (.single ht hfirst) (ih hrest (by simp) .nil)

end Lowering

/-! ## Siblings at a block position -/

open Lowering (Becomes)

/-- **Grouping is maximal and exact.** Where siblings at a block position are lowered, each maximal
run of inline nodes and each single other node, root elements being taken out, becomes one block, in
order; so no two neighbours among the blocks are synthesized paragraphs without an image. These are
the blocks of a document, of a quote and of an item; an item without any has an empty paragraph. -/
theorem grouping_is_exact (ts : List Tree) {bs : List Node}
    (h : (Lowering.blocks (Tree.spliceAll ts)).result = .ok bs) :
    List.Forall₂ Becomes (Tree.runs (Tree.spliceAll ts)) bs ∧
    bs.IsChain (fun a b => ¬ (a.IsSynthesizedText ∧ b.IsSynthesizedText)) ∧
    (∀ t : Tree, t.splice = Tree.spliceAll ts → t.lower.result = .ok (.document bs)) ∧
    ∀ (handle : Value) (properties : Entries),
      (Lowering.piece (.element handle .blockquote properties (Tree.spliceAll ts))).result =
        .ok (.block (.blockQuote bs)) ∧
      ∀ status, (Lowering.taskStatus properties).result = .ok status →
        (Lowering.items [.element handle .listItem properties (Tree.spliceAll ts)]).result =
          .ok [.listItem (if bs.isEmpty then [.paragraph [] synthesized] else bs) status] := by
  have hblocks := h
  simp only [Lowering.blocks, Traced.result_bind_eq_ok, Traced.result_pure_eq_ok] at hblocks
  obtain ⟨ps, hps, rfl⟩ := hblocks
  have hbecomes : List.Forall₂ Becomes (Tree.runs (Tree.spliceAll ts)) (group ps) :=
    Lowering.becomes_groupFrom hps (by simp) .nil
  refine ⟨hbecomes, ?_, ?_, ?_⟩
  · refine isChain_of_forall₂ ?_ hbecomes (List.isChain_getLast_head_splitBy _ _)
    rintro run run' b b' hrun hrun' ⟨hne, hne', hcut⟩ ⟨hb, hb'⟩
    have hlast := hrun.isInline_of_isSynthesizedText hb _ (List.getLast_mem hne)
    have hhead := hrun'.isInline_of_isSynthesizedText hb' _ (List.head_mem hne')
    simp [hlast, hhead] at hcut
  · intro t ht
    simp [Tree.lower, ht, h]
  · intro handle properties
    refine ⟨by simp [Lowering.piece, hps], fun status hstatus => ?_⟩
    simp [Lowering.items, hstatus, hps, Lowering.item]

/-- Two runs around a thematic break, the first of them through a fragment. -/
theorem two_runs_are_grouped :
    let ts : List Tree := [.text (.int 1) "a",
      .element (.int 2) .root [] [.element (.int 3) .strong [] [.text (.int 4) "b"]],
      .element (.int 5) .thematicBreak [] [], .text (.int 6) "c"]
    ∃ bs, (Lowering.blocks (Tree.spliceAll ts)).result = .ok bs ∧
      List.Forall₂ Becomes
        [[.text (.int 1) "a", .element (.int 3) .strong [] [.text (.int 4) "b"]],
          [.element (.int 5) .thematicBreak [] []], [.text (.int 6) "c"]] bs ∧
      bs = [.paragraph [.text "a", .strong [.text "b"]] synthesized, .thematicBreak,
        .paragraph [.text "c"] synthesized] := by
  intro ts
  have hblocks : (Lowering.blocks (Tree.spliceAll ts)).result =
      .ok [.paragraph [.text "a", .strong [.text "b"]] synthesized, .thematicBreak,
        .paragraph [.text "c"] synthesized] := rfl
  obtain ⟨hbecomes, -⟩ := grouping_is_exact ts hblocks
  exact ⟨_, hblocks, hbecomes, rfl⟩

end DocumentTree
