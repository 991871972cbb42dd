import DocumentTree.Proofs.Document.Grammatical

/-!
# The rules of the grammar, node by node

The grammar is a rule for each kind of node, about its own fields and the kinds of the nodes
directly below it. A node is grammatical if the rules hold of it and of everything below it, also
of nodes that already stand where they may not. The list of problems misses none of them and invents
none.

## Main definitions

* `Node.Contains` — a node stands somewhere in another.
* `Node.Obeys` — the rule for a node.
-/

namespace DocumentTree.Node

/-! ## Nodes in a node -/

/-- A node is another one, or stands somewhere below it. -/
inductive Contains : Node → Node → Prop
  | self (n : Node) : Contains n n
  | inside {n child m : Node} : child ∈ n.children → Contains child m → Contains n m

/-- Nodes below a node are smaller. -/
theorem sizeOf_lt_of_mem_children {n child : Node} (h : child ∈ n.children) :
    sizeOf child < sizeOf n := by
  have hlist : sizeOf child < sizeOf n.children := List.sizeOf_lt_of_mem h
  have hnode : sizeOf n.children ≤ sizeOf n := by
    cases n <;> simp [children] <;> omega
  omega

/-- What holds of a node as soon as it holds of the nodes directly below it holds of all nodes. -/
@[elab_as_elim]
theorem forall_of_children {P : Node → Prop}
    (step : ∀ n, (∀ child ∈ n.children, P child) → P n) (n : Node) : P n :=
  step n fun child h =>
    have := sizeOf_lt_of_mem_children h
    forall_of_children step child
termination_by sizeOf n

/-! ## The rules -/

/-- The kinds that documents, quotes and items hold. -/
def blockKinds : List String :=
  ["Heading", "Paragraph", "CodeBlock", "BlockQuote", "List", "Table", "ThematicBreak"]

/-- The kinds of running text. -/
def runningKinds : List String :=
  ["Text", "Emphasis", "Strong", "Strikethrough", "Code", "Link"]

/-- The nodes directly below are of some kinds only. -/
def Holds (n : Node) (kinds : List String) : Prop :=
  ∀ child ∈ n.children, child.kind ∈ kinds

/-- The rule for a node: what it holds, and what its own fields may be. -/
def Obeys (n : Node) : Prop :=
  match n with
  | document .. | blockQuote .. => n.Holds blockKinds
  | heading .. | emphasis .. | strong .. | strikethrough .. | link .. => n.Holds runningKinds
  | paragraph content _ =>
    (∃ image, content = [image] ∧ image.kind = "Image") ∨ n.Holds runningKinds
  | list ordered _ start _ => n.Holds ["ListItem"] ∧ (ordered = true → 0 ≤ start)
  | listItem _ status _ =>
    n.Holds blockKinds ∧ status ∈ [none, some "checked", some "unchecked"]
  | table .. => n.Holds ["TableRow"]
  | tableRow .. => n.Holds ["TableCell"]
  | tableCell _ alignment _ _ =>
    n.Holds runningKinds ∧ alignment ∈ [none, some "left", some "center", some "right"]
  | codeBlock .. | thematicBreak _ | text .. | code .. | image .. => True

/-! ## Classes by kinds -/

theorem isBlock_iff_kind (n : Node) : n.isBlock = true ↔ n.kind ∈ blockKinds := by
  cases n <;> simp [isBlock, kind, blockKinds]

theorem isRunning_iff_kind (n : Node) :
    n.isInline = true ∧ n.isImage = false ↔ n.kind ∈ runningKinds := by
  cases n <;> simp [isInline, isImage, kind, runningKinds]

theorem isImage_iff_kind (n : Node) : n.isImage = true ↔ n.kind = "Image" := by
  cases n <;> simp [isImage, kind]

theorem isItem_iff_kind (n : Node) : n.isItem = true ↔ n.kind ∈ ["ListItem"] := by
  cases n <;> simp [isItem, kind]

theorem isRow_iff_kind (n : Node) : n.isRow = true ↔ n.kind ∈ ["TableRow"] := by
  cases n <;> simp [isRow, kind]

theorem isCell_iff_kind (n : Node) : n.isCell = true ↔ n.kind ∈ ["TableCell"] := by
  cases n <;> simp [isCell, kind]

/-! ## One node -/

theorem runningText_iff_kinds (ns : List Node) :
    RunningText ns ↔ ∀ n ∈ ns, n.kind ∈ runningKinds :=
  forall₂_congr fun n _ => n.isRunning_iff_kind

theorem areBlocks_iff_kinds (ns : List Node) :
    AreBlocks ns ↔ ∀ n ∈ ns, n.kind ∈ blockKinds :=
  forall₂_congr fun n _ => n.isBlock_iff_kind

/-- An image that is not crowded is alone. -/
theorem paragraphContent_iff_kinds (ns : List Node) :
    ParagraphContent ns ↔
      (∃ image, ns = [image] ∧ image.kind = "Image") ∨ ∀ n ∈ ns, n.kind ∈ runningKinds := by
  constructor
  · rintro ⟨hinline, hcrowd⟩
    by_cases himage : ∃ n, ns = [n] ∧ n.kind = "Image"
    · exact .inl himage
    · refine .inr fun n hn => (isRunning_iff_kind n).mp ⟨hinline n hn, ?_⟩
      match ns, hn with
      | [m], hn =>
        obtain rfl := List.mem_singleton.mp hn
        by_contra hne
        exact himage ⟨n, rfl, n.isImage_iff_kind.mp (by simpa using hne)⟩
      | _ :: _ :: _, hn => exact hcrowd (by simp) n hn
  · rintro (⟨image, rfl, hkind⟩ | hrunning)
    · refine ⟨?_, by simp⟩
      intro n hn
      obtain rfl := List.mem_singleton.mp hn
      have himage := n.isImage_iff_kind.mpr hkind
      cases n <;> simp_all [isImage, isInline]
    · have hall := (runningText_iff_kinds ns).mpr hrunning
      exact ⟨fun n hn => (hall n hn).1, fun _ n hn => (hall n hn).2⟩

theorem taskStatus_iff_mem (status : Option String) :
    (∀ s, status = some s → isTaskStatus s = true) ↔
      status ∈ [none, some "checked", some "unchecked"] := by
  cases status <;> simp [isTaskStatus]

theorem alignment_iff_mem (alignment : Option String) :
    (∀ s, alignment = some s → isAlignment s = true) ↔
      alignment ∈ [none, some "left", some "center", some "right"] := by
  cases alignment <;> simp [isAlignment, or_assoc]

/-- A grammatical node obeys its rule, and so do the nodes below it. -/
theorem grammatical_iff_obeys (n : Node) :
    n.Grammatical ↔ n.Obeys ∧ ∀ child ∈ n.children, child.Grammatical := by
  cases n with
  | document | blockQuote =>
    simp only [Grammatical, Obeys, Holds, children, areBlocks_iff_kinds, allGrammatical_iff]
  | heading | emphasis | strong | strikethrough | link =>
    simp only [Grammatical, Obeys, Holds, children, runningText_iff_kinds, allGrammatical_iff]
  | paragraph content _ =>
    simp only [Grammatical, Obeys, Holds, children, paragraphContent_iff_kinds, allGrammatical_iff]
  | list ordered items start _ =>
    simp only [Grammatical, Obeys, Holds, children, isItem_iff_kind, allGrammatical_iff]
    tauto
  | listItem blocks status _ =>
    simp only [Grammatical, Obeys, Holds, children, areBlocks_iff_kinds, taskStatus_iff_mem,
      allGrammatical_iff]
    tauto
  | table => simp only [Grammatical, Obeys, Holds, children, isRow_iff_kind, allGrammatical_iff]
  | tableRow => simp only [Grammatical, Obeys, Holds, children, isCell_iff_kind, allGrammatical_iff]
  | tableCell content alignment _ _ =>
    simp only [Grammatical, Obeys, Holds, children, runningText_iff_kinds, alignment_iff_mem,
      allGrammatical_iff]
    tauto
  | codeBlock | thematicBreak | text | code | image => simp [Grammatical, Obeys, children]

theorem Grammatical.of_mem_children {n m : Node} (h : n.Grammatical) (hm : m ∈ n.children) :
    m.Grammatical :=
  ((grammatical_iff_obeys n).mp h).2 m hm

/-! ## All nodes in a node -/

/-- Whatever a grammatical node contains is grammatical. -/
theorem Contains.grammatical {n m : Node} (h : n.Contains m) (hn : n.Grammatical) :
    m.Grammatical := by
  induction h with
  | self n => exact hn
  | inside hchild _ ih => exact ih (hn.of_mem_children hchild)

/-- A node is grammatical exactly when all that it contains obey their rules. -/
theorem grammatical_iff_contains (n : Node) :
    n.Grammatical ↔ ∀ m, n.Contains m → m.Obeys := by
  constructor
  · intro hn m hm
    exact ((grammatical_iff_obeys m).mp (hm.grammatical hn)).1
  · induction n using forall_of_children with
    | step n ih =>
      intro h
      refine (grammatical_iff_obeys n).mpr ⟨h n (.self n), fun child hchild => ?_⟩
      exact ih child hchild fun m hm => h m (.inside hchild hm)

/-- **A node has no problems exactly when it and everything below it obey the rules.** -/
theorem no_problems_iff_rules_obeyed (n : Node) :
    n.problems = [] ↔ ∀ m, n.Contains m → m.Obeys := by
  rw [problems_eq_nil_iff, grammatical_iff_contains]

end DocumentTree.Node
