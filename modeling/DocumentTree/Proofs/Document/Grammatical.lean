import DocumentTree.Document.Grammar
import Mathlib.Data.List.Basic

/-!
# Grammatical documents

The grammar said directly, as a property of a node and of everything below it. The list of problems
is empty exactly for the documents that have it.

## Main definitions

* `Node.RunningText` — inline nodes without images, as inline containers hold them.
* `Node.Grammatical` — the grammar.
* `Node.IsRunning` — what an inline container may hold.
-/

namespace DocumentTree.Node

/-- All nodes are inline, and none of them is an image. -/
def RunningText (ns : List Node) : Prop :=
  ∀ n ∈ ns, n.isInline = true ∧ n.isImage = false

/-- All nodes may stand among blocks. -/
def AreBlocks (ns : List Node) : Prop :=
  ∀ n ∈ ns, n.isBlock = true

/-- The content of a paragraph: an image stands alone in it. -/
def ParagraphContent (ns : List Node) : Prop :=
  (∀ n ∈ ns, n.isInline = true) ∧ (1 < ns.length → ∀ n ∈ ns, n.isImage = false)

mutual

/-- A node and everything below it obey the grammar. -/
def Grammatical : Node → Prop
  | document children _ | blockQuote children _ => AreBlocks children ∧ AllGrammatical children
  | heading _ content _ | emphasis content _ | strong content _ | strikethrough content _
  | link _ content _ _ => RunningText content ∧ AllGrammatical content
  | paragraph content _ => ParagraphContent content ∧ AllGrammatical content
  | list ordered items start _ =>
    (ordered = true → 0 ≤ start) ∧ (∀ n ∈ items, n.isItem = true) ∧ AllGrammatical items
  | listItem children status _ =>
    (∀ s, status = some s → isTaskStatus s = true) ∧ AreBlocks children ∧ AllGrammatical children
  | table rows _ => (∀ n ∈ rows, n.isRow = true) ∧ AllGrammatical rows
  | tableRow cells _ => (∀ n ∈ cells, n.isCell = true) ∧ AllGrammatical cells
  | tableCell content alignment _ _ =>
    (∀ s, alignment = some s → isAlignment s = true) ∧ RunningText content ∧
      AllGrammatical content
  | codeBlock .. | thematicBreak _ | text .. | code .. | image .. => True

/-- Nodes and everything below them obey the grammar. -/
def AllGrammatical : List Node → Prop
  | [] => True
  | n :: ns => Grammatical n ∧ AllGrammatical ns

end

theorem allGrammatical_iff (ns : List Node) :
    AllGrammatical ns ↔ ∀ n ∈ ns, n.Grammatical := by
  induction ns with
  | nil => simp [AllGrammatical]
  | cons n ns ih => simp [AllGrammatical, ih]

/-- A grammatical inline node that is no image. -/
def IsRunning (n : Node) : Prop :=
  n.isInline = true ∧ n.isImage = false ∧ n.Grammatical

/-- Nodes of a class that are grammatical. -/
theorem allGrammatical_and_iff {ns : List Node} {P : Node → Prop} :
    (∀ n ∈ ns, P n) ∧ AllGrammatical ns ↔ ∀ n ∈ ns, P n ∧ n.Grammatical := by
  rw [allGrammatical_iff]
  exact forall₂_and.symm

theorem runningText_iff {ns : List Node} :
    RunningText ns ∧ AllGrammatical ns ↔ ∀ n ∈ ns, n.IsRunning := by
  simp only [RunningText, allGrammatical_and_iff, IsRunning, and_assoc]

/-! ## The problems of children -/

/-- A property of all numbered items is a property of all items, whatever their numbers. -/
private theorem forall_mem_zipIdx {α : Type} (l : List α) (P : α → Prop) :
    (∀ e ∈ l.zipIdx, P e.1) ↔ ∀ a ∈ l, P a := by
  constructor
  · intro h a ha
    obtain ⟨i, hi, rfl⟩ := List.getElem_of_mem ha
    exact h (l[i], i) (by simp [List.mem_zipIdx_iff_getElem?, hi])
  · intro h e he
    exact h e.1 (List.fst_mem_of_mem_zipIdx he)

theorem classProblems_eq_nil_iff {belongs : Node → Bool} {problem : Nat → String → Problem}
    {ns : List Node} :
    classProblems belongs problem ns = [] ↔ ∀ n ∈ ns, belongs n = true := by
  rw [classProblems, List.filterMap_eq_nil_iff,
    ← forall_mem_zipIdx ns fun n => belongs n = true]
  refine forall₂_congr fun e _ => ?_
  cases hbelongs : belongs e.1 <;> simp [hbelongs]

theorem inlineProblems_eq_nil_iff {holder : String} {ns : List Node} :
    inlineProblems holder ns = [] ↔
      ∀ n ∈ ns, n.isInline = true ∧ (n.isImage = true → holder = "Paragraph") := by
  rw [inlineProblems, List.filterMap_eq_nil_iff, ← forall_mem_zipIdx ns fun n =>
    n.isInline = true ∧ (n.isImage = true → holder = "Paragraph")]
  refine forall₂_congr fun e _ => ?_
  cases hinline : e.1.isInline <;> cases himage : e.1.isImage <;>
    simp [inlineProblem, hinline, himage]

/-- Outside a paragraph, inline nodes without problems are running text. -/
theorem inlineProblems_eq_nil {holder : String} (h : holder ≠ "Paragraph") {ns : List Node} :
    inlineProblems holder ns = [] ↔ RunningText ns := by
  simp [inlineProblems_eq_nil_iff, RunningText, h]

/-- The problems of an inline container are those of its content. -/
private theorem containerProblems_eq_nil {holder : String} (h : holder ≠ "Paragraph")
    {ns : List Node} (hns : allProblems ns = [] ↔ AllGrammatical ns) :
    inlineProblems holder ns ++ allProblems ns = [] ↔ RunningText ns ∧ AllGrammatical ns := by
  rw [List.append_eq_nil_iff, inlineProblems_eq_nil h, hns]

theorem paragraphProblems_eq_nil {ns : List Node} :
    inlineProblems "Paragraph" ns ++ crowdedImage ns = [] ↔ ParagraphContent ns := by
  have hcrowd : crowdedImage ns = [] ↔ (1 < ns.length → ∀ n ∈ ns, n.isImage = false) := by
    simp only [crowdedImage, Bool.and_eq_true, decide_eq_true_eq, List.any_eq_true,
      ite_eq_right_iff, List.cons_ne_nil, imp_false]
    simp
  simp [inlineProblems_eq_nil_iff, ParagraphContent, hcrowd]

theorem startProblem_eq_nil {ordered : Bool} {start : Int} :
    startProblem ordered start = [] ↔ (ordered = true → 0 ≤ start) := by
  cases ordered <;> simp [startProblem]

theorem statusProblem_eq_nil {status : Option String} :
    statusProblem status = [] ↔ ∀ s, status = some s → isTaskStatus s = true := by
  cases status <;> simp [statusProblem, Option.filter]

theorem alignmentProblem_eq_nil {alignment : Option String} :
    alignmentProblem alignment = [] ↔ ∀ s, alignment = some s → isAlignment s = true := by
  cases alignment <;> simp [alignmentProblem, Option.filter]

/-! ## The grammar is what has no problems -/

mutual

/-- **A node has no problems exactly when it is grammatical.** -/
theorem problems_eq_nil_iff : (n : Node) → (n.problems = [] ↔ n.Grammatical)
  | document children _ => by
    simp only [problems, ownProblems, Grammatical, AreBlocks, List.append_eq_nil_iff,
      classProblems_eq_nil_iff, allProblems_eq_nil_iff children]
  | blockQuote children _ => by
    simp only [problems, ownProblems, Grammatical, AreBlocks, List.append_eq_nil_iff,
      classProblems_eq_nil_iff, allProblems_eq_nil_iff children]
  | heading _ content _ => by
    rw [problems, Grammatical]
    exact containerProblems_eq_nil (by decide) (allProblems_eq_nil_iff content)
  | emphasis content _ => by
    rw [problems, Grammatical]
    exact containerProblems_eq_nil (by decide) (allProblems_eq_nil_iff content)
  | strong content _ => by
    rw [problems, Grammatical]
    exact containerProblems_eq_nil (by decide) (allProblems_eq_nil_iff content)
  | strikethrough content _ => by
    rw [problems, Grammatical]
    exact containerProblems_eq_nil (by decide) (allProblems_eq_nil_iff content)
  | link _ content _ _ => by
    rw [problems, Grammatical]
    exact containerProblems_eq_nil (by decide) (allProblems_eq_nil_iff content)
  | paragraph content _ => by
    rw [problems, ownProblems, Grammatical, List.append_eq_nil_iff, paragraphProblems_eq_nil,
      allProblems_eq_nil_iff content]
  | list ordered items start _ => by
    simp only [problems, ownProblems, Grammatical, List.append_eq_nil_iff, startProblem_eq_nil,
      classProblems_eq_nil_iff, allProblems_eq_nil_iff items, and_assoc]
  | listItem children status _ => by
    simp only [problems, ownProblems, Grammatical, AreBlocks, List.append_eq_nil_iff,
      statusProblem_eq_nil, classProblems_eq_nil_iff, allProblems_eq_nil_iff children, and_assoc]
  | table rows _ => by
    simp only [problems, ownProblems, Grammatical, List.append_eq_nil_iff,
      classProblems_eq_nil_iff, allProblems_eq_nil_iff rows]
  | tableRow cells _ => by
    simp only [problems, ownProblems, Grammatical, List.append_eq_nil_iff,
      classProblems_eq_nil_iff, allProblems_eq_nil_iff cells]
  | tableCell content alignment _ _ => by
    rw [problems, ownProblems, Grammatical, List.append_assoc, List.append_eq_nil_iff,
      alignmentProblem_eq_nil,
      containerProblems_eq_nil (by decide) (allProblems_eq_nil_iff content)]
  | codeBlock .. | thematicBreak _ | text .. | code .. | image .. => by
    simp [problems, Grammatical]

theorem allProblems_eq_nil_iff : (ns : List Node) → (allProblems ns = [] ↔ AllGrammatical ns)
  | [] => by simp [allProblems, AllGrammatical]
  | n :: ns => by
    simp only [allProblems, AllGrammatical, List.append_eq_nil_iff, problems_eq_nil_iff n,
      allProblems_eq_nil_iff ns]

end

end DocumentTree.Node
