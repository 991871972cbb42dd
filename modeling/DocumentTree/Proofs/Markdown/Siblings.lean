import DocumentTree.Proofs.Markdown.Containment
import DocumentTree.Proofs.Markdown.Parts

/-!
# What sibling blocks know of each other

A block is written by itself but for one thing: the last block before it that is written as
something, if that is a list. So the blocks before any other block are forgotten behind it, later
blocks are of no account, and blocks without text leave no trace.

## Main definitions

* `nextPredecessor`, `predecessorAfter` — what blocks leave for the siblings behind them.
* `siblingTexts` — the texts of sibling blocks, each in its place.
-/

namespace DocumentTree.Markdown

open Node (Grammatical AllGrammatical)

variable {o : Options} {marker : Text} {previous p q : Option Predecessor} {n : Node}
  {xs ys : List Node}

/-- Whether a node is a list. -/
def isList : Node → Bool
  | .list .. => true
  | _ => false

/-- The predecessor that is left behind a block: the block, unless it has no text. -/
def nextPredecessor (o : Options) (marker : Text) (previous : Option Predecessor) (n : Node) :
    Option Predecessor :=
  let placement := placementAfter o marker previous n
  if (fragment o placement n).text.isEmpty then previous else some ⟨n, placement.alternate⟩

/-- The predecessor that is left behind blocks in sequence. -/
def predecessorAfter (o : Options) (marker : Text) (previous : Option Predecessor)
    (ns : List Node) : Option Predecessor :=
  ns.foldl (nextPredecessor o marker) previous

/-- The texts of sibling blocks that follow a predecessor, each in its place. -/
def textsAfter (o : Options) (marker : Text) (previous : Option Predecessor) :
    List Node → List Text
  | [] => []
  | n :: ns =>
    (fragment o (placementAfter o marker previous n) n).text
      :: textsAfter o marker (nextPredecessor o marker previous n) ns

/-- The texts of sibling blocks, each in its place. -/
def siblingTexts (o : Options) (marker : Text) (ns : List Node) : List Text :=
  textsAfter o marker none ns

/-! ## Blocks in sequence -/

@[simp] theorem length_textsAfter (o : Options) (marker : Text) (previous : Option Predecessor)
    (ns : List Node) : (textsAfter o marker previous ns).length = ns.length := by
  induction ns generalizing previous with
  | nil => rfl
  | cons n ns ih => rw [textsAfter, List.length_cons, ih, List.length_cons]

/-- Blocks behind others depend on these by the predecessor they leave. -/
theorem textsAfter_append (o : Options) (marker : Text) (previous : Option Predecessor)
    (xs ys : List Node) :
    textsAfter o marker previous (xs ++ ys) =
      textsAfter o marker previous xs
        ++ textsAfter o marker (predecessorAfter o marker previous xs) ys := by
  induction xs generalizing previous with
  | nil => rfl
  | cons n xs ih =>
    rw [List.cons_append, textsAfter, ih, textsAfter, List.cons_append]
    rfl

theorem blocksAfter_cons (o : Options) (marker : Text) (inItem : Bool)
    (previous : Option Predecessor) (n : Node) (ns : List Node) :
    blocksAfter o marker inItem previous (n :: ns) =
      (let text := (fragment o (placementAfter o marker previous n) n).text
       if text.isEmpty then [] else separator o inItem previous n ++ text)
        ++ blocksAfter o marker inItem (nextPredecessor o marker previous n) ns := by
  simp only [blocksAfter, nextPredecessor]
  split <;> rfl

/-- Blocks behind others are written behind the predecessor that these leave. -/
theorem blocksAfter_append (o : Options) (marker : Text) (inItem : Bool)
    (previous : Option Predecessor) (xs ys : List Node) :
    blocksAfter o marker inItem previous (xs ++ ys) =
      blocksAfter o marker inItem previous xs
        ++ blocksAfter o marker inItem (predecessorAfter o marker previous xs) ys := by
  induction xs generalizing previous with
  | nil => rfl
  | cons n xs ih =>
    rw [List.cons_append, blocksAfter_cons, ih, blocksAfter_cons, List.append_assoc]
    rfl

theorem exists_predecessorAfter_some (o : Options) (marker : Text) (p : Predecessor)
    (xs : List Node) : ∃ q, predecessorAfter o marker (some p) xs = some q := by
  induction xs generalizing p with
  | nil => exact ⟨p, rfl⟩
  | cons n xs ih =>
    obtain ⟨r, hr⟩ : ∃ r, nextPredecessor o marker (some p) n = some r := by
      rw [nextPredecessor]
      split <;> exact ⟨_, rfl⟩
    obtain ⟨q, hq⟩ := ih r
    exact ⟨q, by rw [← hq, ← hr]; rfl⟩

/-- Only blocks without text leave no predecessor. -/
theorem predecessorAfter_eq_none_iff (o : Options) (marker : Text) (inItem : Bool)
    (xs : List Node) :
    predecessorAfter o marker none xs = none ↔ blocksAfter o marker inItem none xs = [] := by
  induction xs with
  | nil => exact iff_of_true rfl rfl
  | cons n xs ih =>
    rw [blocksAfter_cons]
    by_cases h : (fragment o (placementAfter o marker none n) n).text.isEmpty = true
    · have hnext : nextPredecessor o marker none n = none := by rw [nextPredecessor, if_pos h]
      have hafter : predecessorAfter o marker none (n :: xs) =
          predecessorAfter o marker none xs := by
        rw [predecessorAfter, List.foldl_cons, hnext]
        rfl
      rw [hafter, ih, hnext]
      simp [h]
    · have hnext : nextPredecessor o marker none n =
          some ⟨n, (placementAfter o marker none n).alternate⟩ := by
        rw [nextPredecessor, if_neg h]
      obtain ⟨q, hq⟩ := exists_predecessorAfter_some o marker
        ⟨n, (placementAfter o marker none n).alternate⟩ xs
      have hafter : predecessorAfter o marker none (n :: xs) = some q := by
        rw [predecessorAfter, List.foldl_cons, hnext]
        exact hq
      refine iff_of_false (by simp [hafter]) ?_
      simp only [h, separator]
      simpa using fun hnil => absurd hnil (by simpa using h)

/-- The blank line between blocks. -/
def blankLine : Text :=
  ['\n', '\n']

/-- Behind a predecessor, a blank line stands before every block with text. -/
theorem blocksAfter_some (o : Options) (marker : Text) (p : Predecessor) (ns : List Node) :
    blocksAfter o marker false (some p) ns =
      ((textsAfter o marker (some p) ns).filter fun t => !t.isEmpty).flatMap (blankLine ++ ·) := by
  induction ns generalizing p with
  | nil => rfl
  | cons n ns ih =>
    rw [blocksAfter_cons, textsAfter, nextPredecessor]
    by_cases h : (fragment o (placementAfter o marker (some p) n) n).text.isEmpty = true
    · simp [h, ih]
    · simp [h, ih, separator, blankLine]

/-- **Blocks with text are joined by blank lines.** -/
theorem blocksAfter_none (o : Options) (marker : Text) (ns : List Node) :
    blocksAfter o marker false none ns =
      Text.join blankLine ((siblingTexts o marker ns).filter fun t => !t.isEmpty) := by
  rw [siblingTexts]
  induction ns with
  | nil => rfl
  | cons n ns ih =>
    rw [blocksAfter_cons, textsAfter, nextPredecessor]
    by_cases h : (fragment o (placementAfter o marker none n) n).text.isEmpty = true
    · simp [h, ih]
    · simp [h, separator, blocksAfter_some, Text.join_cons]

/-! ## Predecessors that are no list -/

/-- Behind what is no list, a block stands as if it were the first. -/
def IsForgotten (previous : Option Predecessor) : Prop :=
  ∀ p, previous = some p → isList p.node = false

theorem placementAfter_of_isForgotten (h : IsForgotten previous) (o : Options) (marker : Text)
    (n : Node) : placementAfter o marker previous n = { marker } := by
  match previous with
  | none => rfl
  | some ⟨m, alternate⟩ =>
    have hm : isList m = false := h _ rfl
    cases m <;> first | rfl | cases hm

/-- **Predecessors other than lists are forgotten.** -/
theorem textsAfter_of_isForgotten (hp : IsForgotten p) (hq : IsForgotten q) (o : Options)
    (marker : Text) (ns : List Node) : textsAfter o marker p ns = textsAfter o marker q ns := by
  induction ns generalizing p q with
  | nil => rfl
  | cons n ns ih =>
    rw [textsAfter, textsAfter, nextPredecessor, nextPredecessor,
      placementAfter_of_isForgotten hp, placementAfter_of_isForgotten hq]
    split
    · rw [ih hp hq]
    · rfl

/-- Where there are no lists, every block is written as if it were the first. -/
theorem siblingTexts_of_no_lists {ns : List Node} (h : ∀ n ∈ ns, isList n = false) (o : Options)
    (marker : Text) :
    siblingTexts o marker ns = ns.map fun n => (fragment o { marker } n).text := by
  have hafter : ∀ previous, IsForgotten previous →
      textsAfter o marker previous ns = ns.map fun n => (fragment o { marker } n).text := by
    induction ns with
    | nil => exact fun _ _ => rfl
    | cons n ns ih =>
      intro previous hprevious
      rw [List.forall_mem_cons] at h
      rw [textsAfter, placementAfter_of_isForgotten hprevious, nextPredecessor, List.map_cons,
        ih h.2]
      split
      · exact hprevious
      · rintro p hp
        rw [← Option.some.inj hp]
        exact h.1
  exact hafter none nofun

/-! ## Blocks with text -/

/-- A text with every line indented, empty ones left empty. -/
def indented (t : Text) : Text :=
  Text.unlines ((Text.lines t).map (Text.indentLine (Text.spaces 4)))

theorem lines_indented (t : Text) :
    Text.lines (indented t) = (Text.lines t).map (Text.indentLine (Text.spaces 4)) := by
  refine Text.lines_unlines_of_not_mem (by simp [Text.lines_ne_nil]) fun line hline => ?_
  obtain ⟨inner, hinner, rfl⟩ := List.mem_map.mp hline
  exact Text.not_mem_indentLine (Text.not_mem_spaces (by decide) 4)
    (Text.not_mem_of_mem_lines hinner)

theorem indentLine_injective (indent : Text) : Function.Injective (Text.indentLine indent) := by
  intro line other h
  cases line with
  | nil =>
    cases other with
    | nil => rfl
    | cons d other => simp [Text.indentLine] at h
  | cons c line =>
    cases other with
    | nil => simp [Text.indentLine] at h
    | cons d other => exact List.append_cancel_left h

/-- Indenting is undone line by line. -/
theorem indented_injective : Function.Injective indented := by
  intro t u h
  have hlines := congrArg Text.lines h
  rw [lines_indented, lines_indented] at hlines
  rw [← Text.unlines_lines t, ← Text.unlines_lines u,
    List.map_injective_iff.mpr (indentLine_injective _) hlines]

theorem indentedCode_eq (content : Text) :
    indentedCode content = indented (Text.dropRightWhile (· = '\n') content) :=
  rfl

theorem indentedCode_ne_nil {content : Text} (h : Text.trim content ≠ []) :
    indentedCode content ≠ [] := by
  intro hnil
  have hfeeds : Text.dropRightWhile (· = '\n') content = [] :=
    indented_injective (hnil.trans rfl)
  rw [Text.dropRightWhile_eq, List.rdropWhile_eq_nil_iff] at hfeeds
  refine h (trim_eq_nil_iff.mpr fun c hc => ?_)
  obtain rfl : c = '\n' := by simpa using hfeeds c hc
  decide

/-- Code is written as something, in either form. -/
theorem codeBlock_ne_nil (o : Options) (placement : Placement) (content : String)
    (language : Option String) (metadata : Metadata) :
    codeBlock o placement (.codeBlock content language metadata) content language ≠ [] := by
  rw [codeBlock]
  split
  · rename_i h
    simp only [isIndentedCode, Bool.and_eq_true, Bool.not_eq_true', Bool.or_eq_false_iff] at h
    exact indentedCode_ne_nil (by simpa using h.1.2)
  · simp [fencedCode]

/-- Each item of a list has its marker. -/
theorem ne_nil_of_mem_items (o : Options) (ordered alternate : Bool) {nodes : List Node}
    (hnodes : ∀ n ∈ nodes, n.isItem = true) (number : Int) {t : Text}
    (ht : t ∈ items o ordered alternate number nodes) : t ≠ [] := by
  obtain ⟨i, hi⟩ := List.mem_iff_getElem?.mp ht
  have hlines := itemLines_items o ordered alternate hnodes number i t hi
  have H := isMarker_listMarker o ordered alternate (number + i)
  obtain ⟨u, rfl⟩ := hlines.exists_append
  exact fun hnil => H.ne_nil (List.append_eq_nil_iff.mp hnil).1

theorem unlines_items_eq_nil_iff (o : Options) (ordered alternate : Bool) {nodes : List Node}
    (hnodes : ∀ n ∈ nodes, n.isItem = true) (number : Int) :
    Text.unlines (items o ordered alternate number nodes) = [] ↔ nodes = [] := by
  cases nodes with
  | nil => simp [items, Text.unlines, Text.join]
  | cons n nodes =>
    rw [items, Text.unlines, Text.join_cons]
    have hfirst := ne_nil_of_mem_items o ordered alternate hnodes number (List.mem_cons_self ..)
    simp [hfirst]

/-- **Whether a block is written as something** does not depend on its predecessor. -/
theorem isEmpty_text (hn : n.Grammatical) {p q : Placement} (h : p.marker = q.marker) :
    (fragment o p n).text.isEmpty = (fragment o q n).text.isEmpty := by
  cases n with
  | list ordered nodes start metadata =>
    rw [Bool.eq_iff_iff]
    simp only [fragment, List.isEmpty_iff, unlines_items_eq_nil_iff o _ _ hn.2.1]
  | codeBlock content language metadata =>
    rw [Bool.eq_iff_iff]
    simp only [fragment, List.isEmpty_iff, codeBlock_ne_nil]
  | _ => simp only [fragment, h]

theorem nextPredecessor_eq (hn : n.Grammatical) (o : Options) (marker : Text)
    (previous : Option Predecessor) :
    nextPredecessor o marker previous n =
      if isVisible o marker n then some ⟨n, (placementAfter o marker previous n).alternate⟩
      else previous := by
  rw [nextPredecessor, isVisible,
    isEmpty_text hn (q := { marker }) (marker_placementAfter o marker previous n)]
  cases (fragment o { marker } n).text.isEmpty <;> rfl

/-- The predecessor that blocks leave is the last of them that is written as something. -/
theorem node_predecessorAfter (hxs : AllGrammatical xs) (o : Options) (marker : Text) :
    (predecessorAfter o marker none xs).map Predecessor.node =
      (xs.filter (isVisible o marker)).getLast? := by
  rw [Node.allGrammatical_iff] at hxs
  induction xs using List.reverseRecOn with
  | nil => rfl
  | append_singleton xs n ih =>
    rw [predecessorAfter, List.foldl_concat, ← predecessorAfter,
      nextPredecessor_eq (hxs n (by simp)), List.filter_append]
    cases h : isVisible o marker n with
    | true => simp [h]
    | false => simpa [h] using ih fun m hm => hxs m (by simp [hm])

/-- Behind blocks of which the last with text is no list, blocks are written as if these were not
there. -/
theorem siblingTexts_append (hxs : AllGrammatical xs)
    (hlast : ∀ n, (xs.filter (isVisible o marker)).getLast? = some n → isList n = false) :
    siblingTexts o marker (xs ++ ys) = siblingTexts o marker xs ++ siblingTexts o marker ys := by
  have hforgotten : IsForgotten (predecessorAfter o marker none xs) := by
    intro p hp
    refine hlast p.node ?_
    rw [← node_predecessorAfter hxs, hp]
    rfl
  rw [siblingTexts, textsAfter_append, textsAfter_of_isForgotten hforgotten (q := none) nofun]
  rfl

/-- **Blocks are written locally.** The blocks with text are joined by blank lines. Behind blocks of
which the last with text is no list, blocks are written as by themselves, after a blank line. The
text of a block depends on no block behind it, on nothing before a block with text other than a
list, and on no block without text. -/
theorem blocks_are_written_locally (o : Options) (marker : Text) :
    (∀ ns, blocksAfter o marker false none ns =
      Text.join ['\n', '\n'] ((siblingTexts o marker ns).filter fun t => !t.isEmpty)) ∧
    (∀ xs ys, AllGrammatical xs → blocksAfter o marker false none xs ≠ [] →
      blocksAfter o marker false none ys ≠ [] →
      (∀ n, (xs.filter (isVisible o marker)).getLast? = some n → isList n = false) →
      blocksAfter o marker false none (xs ++ ys) =
        blocksAfter o marker false none xs ++ ['\n', '\n']
          ++ blocksAfter o marker false none ys) ∧
    (∀ xs ys, siblingTexts o marker xs <+: siblingTexts o marker (xs ++ ys)) ∧
    (∀ xs n ys, AllGrammatical (xs ++ [n]) → isVisible o marker n = true → isList n = false →
      siblingTexts o marker (xs ++ n :: ys) =
        siblingTexts o marker (xs ++ [n]) ++ siblingTexts o marker ys) ∧
    ∀ xs n ys, n.Grammatical → isVisible o marker n = false →
      (siblingTexts o marker (xs ++ n :: ys)).eraseIdx xs.length =
        siblingTexts o marker (xs ++ ys) := by
  refine ⟨blocksAfter_none o marker, ?_, ?_, ?_, ?_⟩
  · intro xs ys hxs hx hy hlast
    have hne : ∀ {ns : List Node}, blocksAfter o marker false none ns ≠ [] →
        (siblingTexts o marker ns).filter (fun t => !t.isEmpty) ≠ [] := by
      intro ns hns hnil
      rw [blocksAfter_none, hnil] at hns
      exact hns rfl
    rw [blocksAfter_none, siblingTexts_append hxs hlast, List.filter_append,
      Text.join_append blankLine (hne hx) (hne hy), ← blocksAfter_none, ← blocksAfter_none]
    rfl
  · intro xs ys
    rw [siblingTexts, siblingTexts, textsAfter_append]
    exact List.prefix_append _ _
  · intro xs n ys hxs hvisible hlist
    rw [List.append_cons, siblingTexts_append hxs]
    intro m hm
    rw [List.filter_append, List.filter_singleton, hvisible] at hm
    simp at hm
    rwa [← hm]
  · intro xs n ys hn hvisible
    rw [siblingTexts, siblingTexts, textsAfter_append, textsAfter_append, textsAfter,
      nextPredecessor_eq hn, hvisible, if_neg (by simp),
      List.eraseIdx_append_of_length_le (by simp)]
    simp

/-- A list, a paragraph behind it, and an empty one. -/
def interrupted : List Node :=
  [.list false [.listItem [.codeBlock "a" none] none] 1, .paragraph [.text "b"], .paragraph []]

/-- A list does not see the one before the paragraph, and sees no paragraph without text. -/
theorem paragraph_parts_lists :
    let o : Options := { useFences := false }
    let list : Node := .list false [.listItem [] none] 1
    AllGrammatical interrupted ∧ isVisible o ['-'] (.paragraph []) = false ∧
    blocksAfter o ['-'] false none (interrupted ++ [list]) =
      blocksAfter o ['-'] false none interrupted ++ ['\n', '\n']
        ++ blocksAfter o ['-'] false none [list] ∧
    siblingTexts o ['-'] (interrupted.take 1 ++ .paragraph [.text "b"] :: [list]) =
      siblingTexts o ['-'] (interrupted.take 1 ++ [.paragraph [.text "b"]])
        ++ siblingTexts o ['-'] [list] ∧
    (siblingTexts o ['-'] ([list] ++ .paragraph [] :: [list])).eraseIdx 1 =
      siblingTexts o ['-'] ([list] ++ [list]) := by
  intro o list
  have H := blocks_are_written_locally o ['-']
  have hgrammar : AllGrammatical interrupted := by
    rw [← Node.allProblems_eq_nil_iff]
    rfl
  have hstart : AllGrammatical (interrupted.take 1 ++ [.paragraph [.text "b"]]) := by
    rw [← Node.allProblems_eq_nil_iff]
    rfl
  have hempty : isVisible o ['-'] (.paragraph []) = false := by decide +kernel
  refine ⟨hgrammar, hempty, ?_, ?_, ?_⟩
  · refine H.2.1 interrupted [list] hgrammar (by decide +kernel) (by decide +kernel) ?_
    intro n hn
    have hlast : (interrupted.filter (isVisible o ['-'])).getLast?.any isList = false := by
      decide +kernel
    rwa [hn] at hlast
  · exact H.2.2.2.1 _ _ [list] hstart (by decide +kernel) rfl
  · exact H.2.2.2.2 [list] (.paragraph []) [list]
      ((Node.problems_eq_nil_iff _).mp rfl) hempty

end DocumentTree.Markdown
