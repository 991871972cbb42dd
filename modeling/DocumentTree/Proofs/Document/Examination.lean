import DocumentTree.Document.Grammar
import DocumentTree.Proofs.Outcome

/-!
# Strict and collecting examination

One examination of a document serves both ways of looking at it. It goes through the rules of a node
and then through its children, and records each broken rule. A strict one is broken off where it has
recorded a problem; a collecting one goes on, also into children that stand where they may not.

What an examination leaves depends on the problems alone that are on its way: all of them are
recorded, or the first is, and breaks it off. So a strict examination and a collecting one never
disagree, and `Node.check` and `Node.problems` are their results.

The level of a heading is one of six by its type, so no rule is about it.

## Main definitions

* `Examination` — the problems recorded, and the one that broke the examination off.
* `Node.examine strict n` — the examination of a node.
* `outcome strict ps` — what an examination leaves with some problems on its way.
-/

namespace DocumentTree

/-! ## Examinations -/

/-- The problems that have been recorded, and the one that broke the examination off, if any. -/
abbrev Examination := Traced Problem Problem Unit

/-- A problem is recorded, and a strict examination is broken off at it. -/
def meet (strict : Bool) (p : Problem) : Examination := do
  Traced.report p
  if strict then Traced.refuse p

namespace Node

/-- The examination of children among inline nodes; `index` is the place of the first one. -/
def examineInline (strict : Bool) (holder : String) (index : Nat) : List Node → Examination
  | [] => pure ()
  | n :: ns => do
    if !n.isInline then meet strict (.notInline holder index n.kind)
    else if n.isImage && holder != "Paragraph" then
      meet strict (.imageOutsideParagraph holder index)
    examineInline strict holder (index + 1) ns

/-- The examination of children that must belong to a class; `index` is the place of the first
one. -/
def examineClass (strict : Bool) (belongs : Node → Bool) (problem : Nat → String → Problem)
    (index : Nat) : List Node → Examination
  | [] => pure ()
  | n :: ns => do
    if !belongs n then meet strict (problem index n.kind)
    examineClass strict belongs problem (index + 1) ns

mutual

/-- The examination of a node: its own rules, and then its children one after the other. -/
def examine (strict : Bool) : Node → Examination
  | document children _ => do
    examineClass strict isBlock (.notBlock "Document") 0 children
    examineAll strict children
  | heading _ content _ => do
    examineInline strict "Heading" 0 content
    examineAll strict content
  | paragraph content _ => do
    examineInline strict "Paragraph" 0 content
    if 1 < content.length && content.any isImage then meet strict .imageNotAlone
    examineAll strict content
  | blockQuote children _ => do
    examineClass strict isBlock (.notBlock "BlockQuote") 0 children
    examineAll strict children
  | list ordered items start _ => do
    if ordered && start < 0 then meet strict (.negativeStart start)
    examineClass strict isItem .notItem 0 items
    examineAll strict items
  | listItem children status _ => do
    if let some s := status then
      if !isTaskStatus s then meet strict (.unknownStatus s)
    examineClass strict isBlock (.notBlock "ListItem") 0 children
    examineAll strict children
  | table rows _ => do
    examineClass strict isRow .notRow 0 rows
    examineAll strict rows
  | tableRow cells _ => do
    examineClass strict isCell .notCell 0 cells
    examineAll strict cells
  | tableCell content alignment _ _ => do
    if let some s := alignment then
      if !isAlignment s then meet strict (.unknownAlignment s)
    examineInline strict "TableCell" 0 content
    examineAll strict content
  | emphasis content _ => do
    examineInline strict "Emphasis" 0 content
    examineAll strict content
  | strong content _ => do
    examineInline strict "Strong" 0 content
    examineAll strict content
  | strikethrough content _ => do
    examineInline strict "Strikethrough" 0 content
    examineAll strict content
  | link _ content _ _ => do
    examineInline strict "Link" 0 content
    examineAll strict content
  | codeBlock .. | thematicBreak .. | text .. | code .. | image .. => pure ()

/-- The examination of nodes one after the other. -/
def examineAll (strict : Bool) : List Node → Examination
  | [] => pure ()
  | n :: ns => do
    examine strict n
    examineAll strict ns

end

end Node

/-! ## What problems leave -/

/-- What an examination leaves when it has some problems on its way. -/
def outcome : (strict : Bool) → List Problem → Examination
  | true, [] => ⟨[], .ok ()⟩
  | true, p :: _ => ⟨[p], .error p⟩
  | false, ps => ⟨ps, .ok ()⟩

@[simp] theorem outcome_nil (strict : Bool) : outcome strict [] = pure () := by
  cases strict <;> rfl

@[simp] theorem outcome_singleton (strict : Bool) (p : Problem) :
    outcome strict [p] = meet strict p := by
  cases strict <;> rfl

/-- **Problems on a way in two parts**: the second part is reached unless the first one has broken
the examination off. -/
theorem outcome_append (strict : Bool) (ps qs : List Problem) :
    outcome strict (ps ++ qs) = (do outcome strict ps; outcome strict qs) := by
  cases strict with
  | false => rfl
  | true => cases ps <;> cases qs <;> rfl

theorem outcome_cons (strict : Bool) (p : Problem) (ps : List Problem) :
    outcome strict (p :: ps) = (do meet strict p; outcome strict ps) := by
  rw [← outcome_singleton, ← outcome_append]
  rfl

namespace Node

/-! ## The problems on the way -/

theorem examineInline_eq (strict : Bool) (holder : String) (index : Nat) (ns : List Node) :
    examineInline strict holder index ns =
      outcome strict ((ns.zipIdx index).filterMap fun e => inlineProblem holder e.2 e.1) := by
  induction ns generalizing index with
  | nil => simp [examineInline]
  | cons n ns ih =>
    rw [examineInline, ih, List.zipIdx_cons, List.filterMap_cons, inlineProblem]
    split
    · rw [outcome_cons]
    · split
      · rw [outcome_cons]
      · rfl

theorem examineClass_eq (strict : Bool) (belongs : Node → Bool) (problem : Nat → String → Problem)
    (index : Nat) (ns : List Node) :
    examineClass strict belongs problem index ns =
      outcome strict ((ns.zipIdx index).filterMap fun e =>
        if belongs e.1 then none else some (problem e.2 e.1.kind)) := by
  induction ns generalizing index with
  | nil => simp [examineClass]
  | cons n ns ih =>
    rw [examineClass, ih, List.zipIdx_cons, List.filterMap_cons]
    cases hbelongs : belongs n with
    | true => simp
    | false => simp [outcome_cons]

theorem examineInline_zero (strict : Bool) (holder : String) (ns : List Node) :
    examineInline strict holder 0 ns = outcome strict (inlineProblems holder ns) :=
  examineInline_eq strict holder 0 ns

theorem examineClass_zero (strict : Bool) (belongs : Node → Bool)
    (problem : Nat → String → Problem) (ns : List Node) :
    examineClass strict belongs problem 0 ns = outcome strict (classProblems belongs problem ns) :=
  examineClass_eq strict belongs problem 0 ns

mutual

/-- **An examination leaves what the problems of the node leave.** -/
theorem examine_eq (strict : Bool) : (n : Node) → examine strict n = outcome strict n.problems
  | document children _ | blockQuote children _ | table children _ | tableRow children _ => by
    simp only [examine, problems, ownProblems, examineClass_zero, examineAll_eq strict children,
      outcome_append]
  | heading _ content _ | emphasis content _ | strong content _ | strikethrough content _
  | link _ content _ _ => by
    simp only [examine, problems, ownProblems, examineInline_zero, examineAll_eq strict content,
      outcome_append]
  | paragraph content _ => by
    simp only [examine, problems, ownProblems, examineInline_zero, examineAll_eq strict content,
      List.append_assoc, outcome_append, crowdedImage]
    split <;> simp [Traced.pure_bind_eq]
  | list ordered items start _ => by
    simp only [examine, problems, ownProblems, examineClass_zero, examineAll_eq strict items,
      List.append_assoc, outcome_append, startProblem]
    split <;> simp [Traced.pure_bind_eq]
  | listItem children status _ => by
    simp only [examine, problems, ownProblems, examineClass_zero, examineAll_eq strict children,
      List.append_assoc, outcome_append]
    cases status with
    | none => simp [statusProblem, Traced.pure_bind_eq]
    | some s =>
      cases hs : isTaskStatus s <;>
        simp [statusProblem, Option.filter_some, hs, Traced.pure_bind_eq]
  | tableCell content alignment _ _ => by
    simp only [examine, problems, ownProblems, examineInline_zero, examineAll_eq strict content,
      List.append_assoc, outcome_append]
    cases alignment with
    | none => simp [alignmentProblem, Traced.pure_bind_eq]
    | some s =>
      cases hs : isAlignment s <;>
        simp [alignmentProblem, Option.filter_some, hs, Traced.pure_bind_eq]
  | codeBlock .. | thematicBreak _ | text .. | code .. | image .. => by
    simp [examine, problems]

theorem examineAll_eq (strict : Bool) :
    (ns : List Node) → examineAll strict ns = outcome strict (allProblems ns)
  | [] => by simp [examineAll, allProblems]
  | n :: ns => by
    rw [examineAll, allProblems, outcome_append, examine_eq strict n, examineAll_eq strict ns]

end

/-! ## The first problem -/

@[simp] theorem result_meet (p : Problem) : (meet true p).result = .error p := rfl

theorem checkInline_eq (holder : String) (index : Nat) (ns : List Node) :
    checkInline holder index ns = (examineInline true holder index ns).result := by
  induction ns generalizing index with
  | nil => rfl
  | cons n ns ih =>
    rw [checkInline, examineInline, ih]
    split
    · rfl
    · split <;> rfl

theorem checkClass_eq (belongs : Node → Bool) (problem : Nat → String → Problem) (index : Nat)
    (ns : List Node) :
    checkClass belongs problem index ns = (examineClass true belongs problem index ns).result := by
  induction ns generalizing index with
  | nil => rfl
  | cons n ns ih =>
    rw [checkClass, examineClass, ih]
    cases belongs n <;> rfl

mutual

/-- **The check of a node is its strict examination.** -/
theorem check_eq_result : (n : Node) → check n = (examine true n).result
  | document children _ | blockQuote children _ | table children _ | tableRow children _ => by
    simp only [check, examine, checkClass_eq, checkAll_eq_result children, Traced.result_bind_eq]
  | heading _ content _ | emphasis content _ | strong content _ | strikethrough content _
  | link _ content _ _ => by
    simp only [check, examine, checkInline_eq, checkAll_eq_result content, Traced.result_bind_eq]
  | paragraph content _ => by
    simp only [check, examine, checkInline_eq, checkAll_eq_result content, Traced.result_bind_eq]
    split <;> rfl
  | list ordered items start _ => by
    simp only [check, examine, checkClass_eq, checkAll_eq_result items]
    split <;> simp
  | listItem children status _ => by
    simp only [check, examine, checkClass_eq, checkAll_eq_result children]
    cases status with
    | none => simp
    | some s => cases hs : isTaskStatus s <;> simp [hs]
  | tableCell content alignment _ _ => by
    simp only [check, examine, checkInline_eq, checkAll_eq_result content]
    cases alignment with
    | none => simp
    | some s => cases hs : isAlignment s <;> simp [hs]
  | codeBlock .. | thematicBreak _ | text .. | code .. | image .. => by
    simp [check, examine]

theorem checkAll_eq_result : (ns : List Node) → checkAll ns = (examineAll true ns).result
  | [] => rfl
  | n :: ns => by
    rw [checkAll, examineAll, check_eq_result n, checkAll_eq_result ns, Traced.result_bind_eq]

end

theorem check_eq (n : Node) : n.check = (outcome true n.problems).result := by
  rw [check_eq_result, examine_eq]

end Node

open Node (examine)

/-- **Strict and collecting examination agree.** A collecting examination of any node goes through
and has recorded its problems; a strict one gives the result of the check. The strict one is broken
off exactly where the collecting one has recorded something, and then by the first of the recorded
problems, which is also the only one that it has recorded itself. -/
theorem strict_examination_stops_at_first_problem (n : Node) :
    examine false n = ⟨n.problems, .ok ()⟩ ∧
    (examine true n).result = n.check ∧
    ((∃ p, (examine true n).result = .error p) ↔ (examine false n).notices ≠ []) ∧
    ∀ p, (examine true n).result = .error p →
      (examine false n).notices.head? = some p ∧ (examine true n).notices = [p] := by
  rw [← Node.check_eq_result, Node.examine_eq, Node.examine_eq, Node.check_eq]
  cases n.problems with
  | nil => simp [outcome]
  | cons p ps => simp [outcome]

/-- A text among blocks, and a list in running text, which starts below 0 and holds an item of an
unknown status and a text. -/
def misplacedList : Node :=
  .document [.text "a",
    .paragraph [.list true [.listItem [.text "b"] (some "open"), .text "c"] (-1)]]

theorem examination_stops_at_misplaced_text :
    (examine true misplacedList).result = .error (.notBlock "Document" 0 "Text") ∧
    (examine true misplacedList).notices = [.notBlock "Document" 0 "Text"] ∧
    (examine false misplacedList).notices =
      [.notBlock "Document" 0 "Text", .notInline "Paragraph" 0 "List", .negativeStart (-1),
        .notItem 1 "Text", .unknownStatus "open", .notBlock "ListItem" 0 "Text"] := by
  have h : (examine true misplacedList).result = .error (.notBlock "Document" 0 "Text") := rfl
  exact ⟨h, ((strict_examination_stops_at_first_problem misplacedList).2.2.2 _ h).2, rfl⟩

end DocumentTree
