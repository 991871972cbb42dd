import DocumentTree.Proofs.Markdown.Siblings

/-!
# Neighbouring lists have different marks

A list right behind another of the same kind takes the other bullet or the other delimiter, so that
a reader does not join the two. What counts is the last block before it that is written as
something: blocks without text, empty lists among them, are passed over, although a placement is
chosen for them too. So the marks take turns along a run of lists, and a list behind anything else
has the one that is configured.

## Main definitions

* `writtenAfter` — the blocks of a sequence that are written as something, each in its place.
* `HasMark ordered c t` — a text that starts like an item whose bullet or delimiter is `c`.
* `IsMarked o w c` — a list whose items all have the mark.
-/

namespace DocumentTree.Markdown

open Node (Grammatical AllGrammatical)
open Text (unlines)

variable {o : Options} {marker : Text} {previous : Option Predecessor} {n : Node} {ns : List Node}

/-! ## The blocks that are written -/

/-- A block that is written as something, in its place. -/
structure Written where
  /-- The block. -/
  node : Node
  /-- Its placement. -/
  placement : Placement

/-- What the block is written as. -/
def Written.text (o : Options) (w : Written) : Text :=
  (fragment o w.placement w.node).text

/-- The block, as its successor sees it. -/
def Written.predecessor (w : Written) : Predecessor :=
  ⟨w.node, w.placement.alternate⟩

/-- The blocks that follow a predecessor and are written as something, each in its place. -/
def writtenAfter (o : Options) (marker : Text) (previous : Option Predecessor) :
    List Node → List Written
  | [] => []
  | n :: ns =>
    let w : Written := ⟨n, placementAfter o marker previous n⟩
    if (w.text o).isEmpty then writtenAfter o marker previous ns
    else w :: writtenAfter o marker (some w.predecessor) ns

/-- The texts of written blocks, each behind what separates it from its predecessor. -/
def layOut (o : Options) (inItem : Bool) (previous : Option Predecessor) : List Written → Text
  | [] => []
  | w :: ws =>
    separator o inItem previous w.node ++ w.text o ++ layOut o inItem (some w.predecessor) ws

/-- Blocks are laid out in their places, and those without text leave no trace. -/
theorem blocksAfter_eq_layOut (o : Options) (marker : Text) (inItem : Bool)
    (previous : Option Predecessor) (ns : List Node) :
    blocksAfter o marker inItem previous ns =
      layOut o inItem previous (writtenAfter o marker previous ns) := by
  induction ns generalizing previous with
  | nil => rfl
  | cons n ns ih =>
    simp only [writtenAfter, blocksAfter, Written.text]
    by_cases h : (fragment o (placementAfter o marker previous n) n).text.isEmpty = true
    · simp only [h, if_true, ih]
    · simp only [h, ih]
      rfl

/-- Behind written blocks, the last of them is the predecessor. -/
theorem getLast?_cons_or (v : Written) (vs : List Written) (previous : Option Predecessor) :
    ((v :: vs).getLast?.map Written.predecessor).or previous =
      (vs.getLast?.map Written.predecessor).or (some v.predecessor) := by
  rw [List.getLast?_cons]
  cases vs.getLast? <;> rfl

/-- Written blocks are laid out behind the last one before them. -/
theorem layOut_append (o : Options) (inItem : Bool) (previous : Option Predecessor)
    (vs ws : List Written) :
    layOut o inItem previous (vs ++ ws) = layOut o inItem previous vs ++
      layOut o inItem ((vs.getLast?.map Written.predecessor).or previous) ws := by
  induction vs generalizing previous with
  | nil => rfl
  | cons v vs ih => simp only [List.cons_append, layOut, ih, getLast?_cons_or, List.append_assoc]

/-- The texts of the written blocks are those of all blocks without the empty ones. -/
theorem map_text_writtenAfter (o : Options) (marker : Text) (previous : Option Predecessor)
    (ns : List Node) :
    (writtenAfter o marker previous ns).map (Written.text o) =
      (textsAfter o marker previous ns).filter fun t => !t.isEmpty := by
  induction ns generalizing previous with
  | nil => rfl
  | cons n ns ih =>
    simp only [writtenAfter, textsAfter, nextPredecessor, Written.text]
    by_cases h : (fragment o (placementAfter o marker previous n) n).text.isEmpty = true
    · simp [h, ih]
    · simp only [h, Bool.false_eq_true, if_false, List.map_cons, ih, List.filter_cons,
        Bool.not_false, if_true]
      rfl

/-- The written blocks are those that have text, in order. -/
theorem map_node_writtenAfter (h : AllGrammatical ns) (o : Options) (marker : Text)
    (previous : Option Predecessor) :
    (writtenAfter o marker previous ns).map Written.node = ns.filter (isVisible o marker) := by
  induction ns generalizing previous with
  | nil => rfl
  | cons n ns ih =>
    have htext : (Written.text o ⟨n, placementAfter o marker previous n⟩).isEmpty =
        (fragment o { marker } n).text.isEmpty :=
      isEmpty_text h.1 (marker_placementAfter o marker previous n)
    simp only [writtenAfter, htext]
    rw [List.filter_cons, isVisible]
    cases (fragment o { marker } n).text.isEmpty with
    | true => simpa using ih h.2 previous
    | false => simpa using ih h.2 _

/-- **Every written block is placed behind the one before it**: the blocks without text between the
two are of no account. -/
theorem placement_of_writtenAfter {before after : List Written} {w : Written}
    (h : writtenAfter o marker previous ns = before ++ w :: after) :
    w.placement =
      placementAfter o marker ((before.getLast?.map Written.predecessor).or previous) w.node := by
  induction ns generalizing previous before with
  | nil => simp [writtenAfter] at h
  | cons n ns ih =>
    rw [writtenAfter] at h
    split at h
    · exact ih h
    · cases before with
      | nil =>
        obtain ⟨rfl, -⟩ := List.cons.inj h
        rfl
      | cons v before =>
        obtain ⟨rfl, hrest⟩ := List.cons.inj h
        rw [ih hrest, getLast?_cons_or]

theorem grammatical_of_writtenAfter (hg : AllGrammatical ns) {before after : List Written}
    {w : Written} (h : writtenAfter o marker previous ns = before ++ w :: after) :
    w.node.Grammatical := by
  have hmem : w.node ∈ (writtenAfter o marker previous ns).map Written.node := by
    rw [h]
    simp
  rw [map_node_writtenAfter hg] at hmem
  exact (Node.allGrammatical_iff ns).mp hg _ (List.mem_of_mem_filter hmem)

/-! ## Marks -/

/-- The bullet of a list, or the delimiter behind its numbers. -/
def listMark (o : Options) (ordered alternate : Bool) : Char :=
  if ordered then (if alternate then ')' else '.')
  else if alternate then (alternateBullet o).char else o.bulletMarker.char

/-- The two marks of a kind of list are different. -/
theorem listMark_ne (o : Options) (ordered alternate : Bool) :
    listMark o ordered alternate ≠ listMark o ordered (!alternate) := by
  have hbullet : (alternateBullet o).char ≠ o.bulletMarker.char := by
    rw [alternateBullet]
    cases o.bulletMarker <;> decide
  cases ordered <;> cases alternate
  · exact hbullet.symm
  · exact hbullet
  · exact (by decide : '.' ≠ ')')
  · exact (by decide : ')' ≠ '.')

theorem listMark_mem_bullets (o : Options) (alternate : Bool) :
    listMark o false alternate ∈ ['-', '*', '+'] := by
  have hbullet : ∀ b : Bullet, b.char ∈ ['-', '*', '+'] := by
    rintro (_ | _ | _) <;> decide
  cases alternate <;> exact hbullet _

/-- A text that starts like an item: a bullet, or a number with its delimiter. -/
def HasMark (ordered : Bool) (c : Char) (t : Text) : Prop :=
  ∃ digits rest, t = digits ++ c :: rest ∧ (∀ d ∈ digits, d.isDigit = true) ∧
    if ordered then digits ≠ [] ∧ c ∈ ['.', ')'] else digits = [] ∧ c ∈ ['-', '*', '+']

/-- A list has been written, and all of its items have the mark. -/
def IsMarked (o : Options) (w : Written) (c : Char) : Prop :=
  ∃ ordered nodes start m, w.node = .list ordered nodes start m ∧
    w.text o = unlines (items o ordered w.placement.alternate start nodes) ∧
    ∀ t ∈ items o ordered w.placement.alternate start nodes, HasMark ordered c t

/-- The marker in an ordered list is the number of the item and the delimiter. -/
theorem listMarker_of_nonneg (o : Options) (alternate : Bool) {number : Int}
    (hnumber : 0 ≤ number) : listMarker o true alternate number =
      decimalDigits number.natAbs ++ [listMark o true alternate] := by
  have hnonneg : ¬ number < 0 := by omega
  simp [listMarker, listMark, integerText, hnonneg]

/-- The marker in a bullet list is the bullet. -/
theorem listMarker_of_bullet (o : Options) (alternate : Bool) (number : Int) :
    listMarker o false alternate number = [listMark o false alternate] := by
  cases alternate <;> rfl

theorem hasMark_listMarker (o : Options) (ordered alternate : Bool) {number : Int}
    (hnumber : ordered = true → 0 ≤ number) (rest : Text) :
    HasMark ordered (listMark o ordered alternate)
      (listMarker o ordered alternate number ++ rest) := by
  cases ordered with
  | true =>
    refine ⟨decimalDigits number.natAbs, rest, ?_, fun d hd => isDigit_of_mem_decimalDigits hd,
      Nat.toDigits_ne_nil, ?_⟩
    · simp [listMarker_of_nonneg o alternate (hnumber rfl)]
    · cases alternate <;> simp [listMark]
  | false =>
    refine ⟨[], rest, ?_, by simp, rfl, listMark_mem_bullets o alternate⟩
    rw [listMarker_of_bullet]
    rfl

/-- Each item of a list has the mark of the list. -/
theorem hasMark_of_mem_items (o : Options) (ordered alternate : Bool) {nodes : List Node}
    (hnodes : ∀ n ∈ nodes, n.isItem = true) {number : Int} (hnumber : ordered = true → 0 ≤ number)
    {t : Text} (ht : t ∈ items o ordered alternate number nodes) :
    HasMark ordered (listMark o ordered alternate) t := by
  obtain ⟨i, hi⟩ := List.mem_iff_getElem?.mp ht
  obtain ⟨rest, rfl⟩ := (itemLines_items o ordered alternate hnodes number i t hi).exists_append
  exact hasMark_listMarker o ordered alternate (fun h => by have := hnumber h; omega) rest

/-! ## Lists behind lists -/

/-- Whether a list is ordered; other blocks are of no kind. -/
def listKind : Node → Option Bool
  | .list ordered .. => some ordered
  | _ => none

theorem isMarked_of_grammatical {w : Written} {ordered : Bool} (hw : w.node.Grammatical)
    (hkind : listKind w.node = some ordered) :
    IsMarked o w (listMark o ordered w.placement.alternate) := by
  obtain ⟨n, p⟩ := w
  cases n with
  | list k nodes start m =>
    obtain rfl := Option.some.inj hkind
    exact ⟨k, nodes, start, m, rfl, rfl, fun t ht => hasMark_of_mem_items o k _ hw.2.1 hw.1 ht⟩
  | _ => cases hkind

/-- A list takes the other mark just behind a list of its kind that has not. -/
theorem alternate_placementAfter {ordered : Bool} (hkind : listKind n = some ordered)
    (o : Options) (marker : Text) (previous : Option Predecessor) :
    (placementAfter o marker previous n).alternate =
      previous.any fun p => listKind p.node = some ordered && !p.alternate := by
  cases n with
  | list k nodes start m =>
    obtain rfl := Option.some.inj hkind
    match previous with
    | none => rfl
    | some ⟨before, alternate⟩ =>
      cases before with
      | list k' nodes' start' m' =>
        cases k <;> cases k' <;> rfl
      | _ => rfl
  | _ => cases hkind

/-- **Neighbouring lists of a kind have different marks.** The blocks of a sequence that have text,
in order, are what is laid out, at the top, in a quote and in an item. Where two lists of a kind
follow each other among them, all items of the one have another bullet or delimiter than all items
of the other. A list behind no list of its kind has the bullet of the options or a period. -/
theorem neighbouring_lists_have_different_marks (o : Options) (marker : Text) (inItem : Bool)
    (hg : AllGrammatical ns) :
    let ws := writtenAfter o marker none ns
    ws.map Written.node = ns.filter (isVisible o marker) ∧
    blocksAfter o marker inItem none ns = layOut o inItem none ws ∧
    (∀ before x y after ordered, ws = before ++ x :: y :: after →
      listKind x.node = some ordered → listKind y.node = some ordered →
      ∃ c d, c ≠ d ∧ IsMarked o x c ∧ IsMarked o y d) ∧
    ∀ before y after ordered, ws = before ++ y :: after → listKind y.node = some ordered →
      (∀ x, before.getLast? = some x → listKind x.node ≠ some ordered) →
      IsMarked o y (if ordered then '.' else o.bulletMarker.char) := by
  intro ws
  refine ⟨map_node_writtenAfter hg o marker none, blocksAfter_eq_layOut o marker inItem none ns,
    ?_, ?_⟩
  · intro before x y after ordered hws hx hy
    have hbehind : ws = (before ++ [x]) ++ y :: after := by simpa using hws
    have hplacement : y.placement = placementAfter o marker (some x.predecessor) y.node := by
      simpa using placement_of_writtenAfter hbehind
    have halternate : y.placement.alternate = !x.placement.alternate := by
      rw [hplacement, alternate_placementAfter hy]
      simp [Written.predecessor, hx]
    refine ⟨_, _, ?_, isMarked_of_grammatical (grammatical_of_writtenAfter hg hws) hx,
      isMarked_of_grammatical (grammatical_of_writtenAfter hg hbehind) hy⟩
    rw [halternate]
    exact listMark_ne o ordered x.placement.alternate
  · intro before y after ordered hws hy hlast
    have hfirst : y.placement.alternate = false := by
      rw [placement_of_writtenAfter hws, alternate_placementAfter hy, Option.or_none]
      cases hbefore : before.getLast? with
      | none => rfl
      | some x => simpa [Written.predecessor] using fun h => absurd h (hlast x hbefore)
    have hmarked := isMarked_of_grammatical (o := o) (grammatical_of_writtenAfter hg hws) hy
    rw [hfirst] at hmarked
    exact hmarked

/-- Lists of both kinds, with blocks without text and a paragraph between them. -/
def listsInRow : List Node :=
  let items := [Node.listItem [] none]
  [.list false items 1, .list false [] 1, .paragraph [], .list false items 1, .table [],
    .list false items 1, .list true items 9, .list true items 3, .paragraph [.text "a"],
    .list true items 1]

/-- The bullets and the delimiters take turns, in an item too, and start again behind a list of the
other kind and behind a paragraph. -/
theorem marks_take_turns_in_row :
    let o : Options := { bulletMarker := .plus }
    let ws := writtenAfter o ['+'] none listsInRow
    blocksAfter o ['+'] true none listsInRow = "+\n-\n+\n9.\n3)\na\n1.".toList ∧
    (∃ x y c d, ws[0]? = some x ∧ ws[1]? = some y ∧ c ≠ d ∧ IsMarked o x c ∧ IsMarked o y d) ∧
    ∃ w, ws[6]? = some w ∧ IsMarked o w '.' := by
  intro o ws
  have hg : AllGrammatical listsInRow := by
    rw [← Node.allProblems_eq_nil_iff]
    rfl
  obtain ⟨-, -, hneighbours, hfirst⟩ := neighbouring_lists_have_different_marks o ['+'] true hg
  refine ⟨by decide +kernel, ?_, ?_⟩
  · obtain ⟨x, y, rest, hws, hx, hy⟩ : ∃ x y rest, ws = [] ++ x :: y :: rest ∧
        listKind x.node = some false ∧ listKind y.node = some false := ⟨_, _, _, rfl, rfl, rfl⟩
    obtain ⟨c, d, hne, hc, hd⟩ := hneighbours [] x y rest false hws hx hy
    exact ⟨x, y, c, d, by rw [hws]; rfl, by rw [hws]; rfl, hne, hc, hd⟩
  · obtain ⟨w, hws, hw⟩ : ∃ w, ws = ws.take 6 ++ w :: ws.drop 7 ∧ listKind w.node = some true :=
      ⟨_, rfl, rfl⟩
    refine ⟨w, by rw [hws]; rfl, hfirst _ w _ true hws hw ?_⟩
    intro x hx
    obtain rfl : _ = x := Option.some.inj hx
    exact nofun

end DocumentTree.Markdown
