import DocumentTree.Proofs.Markdown.BlockEnds
import DocumentTree.Proofs.Markdown.ListMarks
import DocumentTree.Proofs.Markdown.ParagraphStarts

/-!
# Items that are thematic breaks

The bullet of an item stands on one line with the start of its first block. If that is made of the
same character, the bullet counts with it, and from three on the line is a thematic break and no
item. A rule of the character is enough by itself; so are nested items without text, code, and text
that is not escaped. Of escaped paragraphs only two hyphens count, which need no escape where they
are a paragraph by themselves.

## Main definitions

* `HoldsOnly c k t` — the first line of a text is made of a character and blanks.
* `Leads o c n k` — how a node comes to have such a first line.
-/

namespace DocumentTree.Markdown

open Node (Grammatical AllGrammatical AreBlocks)
open Text (lines unlines isBlank IsLineEnd)

variable {o : Options} {marker t u : Text} {n : Node} {ns content : List Node} {c d : Char}
  {k : Nat}

/-! ## First lines -/

/-- What is behind a line feed is not on the first line. -/
theorem firstLine_append_newline (t u : Text) : firstLine (t ++ '\n' :: u) = firstLine t := by
  obtain ⟨rest, ht, hrest⟩ := exists_firstLine_append t
  have hline : ∀ d ∈ firstLine t, ¬ IsLineEnd d := fun d hd => by
    simpa using List.mem_takeWhile_imp hd
  have hstop : ∀ v : Text, (∀ d, v.head? = some d → IsLineEnd d) → firstLine v = [] := by
    intro v hv
    cases v with
    | nil => rfl
    | cons d v => exact List.takeWhile_cons_of_neg (by simpa using hv d rfl)
  have hbehind : firstLine (rest ++ '\n' :: u) = [] := by
    refine hstop _ fun d hd => ?_
    cases rest with
    | nil =>
      obtain rfl := Option.some.inj hd
      exact .inl rfl
    | cons e rest => exact hrest d hd
  conv_lhs => rw [ht, List.append_assoc, firstLine_append hline, hbehind, List.append_nil]

theorem firstLine_unlines_cons (t : Text) (ts : List Text) :
    firstLine (unlines (t :: ts)) = firstLine t := by
  cases ts with
  | nil => rfl
  | cons u ts => rw [Text.unlines_cons (List.cons_ne_nil u ts), firstLine_append_newline]

/-- The first line is in the first of the lines between line feeds. -/
theorem firstLine_of_lines {first : Text} {rest : List Text} (h : lines t = first :: rest) :
    firstLine t = firstLine first := by
  rw [← Text.unlines_lines t, h, firstLine_unlines_cons]

/-- The first line is made of a character, which stands on it a number of times, and blanks. -/
def HoldsOnly (c : Char) (k : Nat) (t : Text) : Prop :=
  (∀ d ∈ firstLine t, d = c ∨ d = ' ' ∨ d = '\t') ∧ (firstLine t).count c = k

theorem holdsOnly_congr (h : firstLine t = firstLine u) : HoldsOnly c k t ↔ HoldsOnly c k u := by
  rw [HoldsOnly, HoldsOnly, h]

theorem eq_of_not_blank (h : d = c ∨ d = ' ' ∨ d = '\t') (hblank : isBlank d = false) : d = c := by
  rcases h with rfl | rfl | rfl
  · rfl
  · exact absurd hblank (by decide)
  · exact absurd hblank (by decide)

theorem HoldsOnly.not_mem (h : HoldsOnly c k t) (hc : d ≠ c) (hblank : isBlank d = false) :
    d ∉ firstLine t := fun hmem =>
  hc (eq_of_not_blank (h.1 d hmem) hblank)

/-- A text that starts with another character does not. -/
theorem not_holdsOnly_of_head? (hd : t.head? = some d) (hc : d ≠ c) (hblank : isBlank d = false) :
    ¬ HoldsOnly c k t := by
  intro h
  obtain ⟨rest, rfl⟩ : ∃ rest, t = d :: rest := List.head?_eq_some_iff.mp hd
  refine h.not_mem hc hblank ?_
  rw [firstLine, List.takeWhile_cons_of_pos (by simpa using Text.not_isLineEnd hblank)]
  exact List.mem_cons_self ..

/-- The marks that a thematic break can have. -/
def ruleMarks : List Char := ['-', '_', '*']

theorem ne_blank_of_mem_ruleMarks (hc : c ∈ ruleMarks) : c ≠ ' ' ∧ c ≠ '\t' ∧ ¬ IsLineEnd c := by
  have hall : ∀ d ∈ ruleMarks, d ≠ ' ' ∧ d ≠ '\t' ∧ ¬ IsLineEnd d := by
    simp [ruleMarks, IsLineEnd]
  exact hall c hc

/-- **A first line is like a thematic break** if the mark it starts with stands on it three times or
more, with nothing else than blanks. -/
theorem isBreakLike_firstLine_iff (hc : t.head? = some c) (hend : ¬ IsLineEnd c) :
    isBreakLike (firstLine t) = true ↔ c ∈ ruleMarks ∧ ∃ k, 3 ≤ k ∧ HoldsOnly c k t := by
  obtain ⟨rest, rfl⟩ : ∃ rest, t = c :: rest := List.head?_eq_some_iff.mp hc
  have hline : firstLine (c :: rest) = c :: firstLine rest :=
    List.takeWhile_cons_of_pos (by simpa using hend)
  have hfeed : '\n' ∉ firstLine (c :: rest) := fun hmem => by
    simpa [IsLineEnd] using List.mem_takeWhile_imp hmem
  have hmark : c ∈ ruleMarks ↔ c = '-' ∨ c = '_' ∨ c = '*' := by simp [ruleMarks]
  rw [isBreakLike, cutFinalLineFeed_of_not_mem hfeed]
  simp only [HoldsOnly, hline, List.count_cons_self, Bool.and_eq_true, Bool.or_eq_true,
    decide_eq_true_eq, List.all_eq_true, Text.isLineBlank, hmark, or_assoc, List.forall_mem_cons,
    true_or, true_and]
  constructor
  · rintro ⟨⟨hc, hall⟩, hcount⟩
    exact ⟨hc, _, by omega, hall, rfl⟩
  · rintro ⟨hc, k, hk, hall, hcount⟩
    exact ⟨⟨hc, hall⟩, by omega⟩

/-! ## What the first line of an item is made of -/

/-- The first of the blocks that has text. -/
def firstShown (o : Options) (ns : List Node) : Option Node :=
  ns.find? fun n => !(body o n).isEmpty

/-- How a node comes to have a first line that holds a character a number of times, and blanks. -/
inductive Leads (o : Options) (c : Char) : Node → Nat → Prop
  /-- A thematic break of the character. -/
  | rule {m : Metadata} : o.ruleStyle.char = c → Leads o c (.thematicBreak m) 3
  /-- A paragraph that is written so. -/
  | paragraph {content : List Node} {m : Metadata} {k : Nat} :
    HoldsOnly c k (body o (.paragraph content m)) → Leads o c (.paragraph content m) k
  /-- Indented code that has such a line. -/
  | code {content : String} {language : Option String} {m : Metadata} {k : Nat} :
    isIndentedCode o (.codeBlock content language m) = true → HoldsOnly c k content.toList →
    Leads o c (.codeBlock content language m) k
  /-- An item without text is its bullet. -/
  | emptyItem {children : List Node} {m : Metadata} :
    firstShown o children = none → Leads o c (.listItem children none m) 1
  /-- An item has its bullet before the first line of its first block. -/
  | item {children : List Node} {m : Metadata} {n : Node} {k : Nat} :
    firstShown o children = some n → Leads o c n k → Leads o c (.listItem children none m) (k + 1)
  /-- A list starts with its first item. -/
  | list {n : Node} {nodes : List Node} {start : Int} {m : Metadata} {k : Nat} :
    o.bulletMarker.char = c → Leads o c n k → Leads o c (.list false (n :: nodes) start m) k

/-- A grammatical block is written alike in every list. -/
theorem text_eq_body_of_isBlock (hg : n.Grammatical) (hblock : n.isBlock = true) (o : Options)
    (marker : Text) : (fragment o { marker } n).text = body o n :=
  text_eq_body (hasStrayItem_eq_false n hg (isItem_eq_false_of_isBlock hblock)) o marker

theorem separator_some (o : Options) (inItem : Bool) (p : Predecessor) (n : Node) :
    separator o inItem (some p) n = ['\n'] ∨ separator o inItem (some p) n = ['\n', '\n'] := by
  unfold separator
  simp only
  split
  · exact .inr rfl
  · split
    · split
      · exact .inr rfl
      · exact .inl rfl
    · exact .inl rfl

/-- Behind a predecessor, blocks are written on other lines. -/
theorem blocksAfter_some_cases (o : Options) (marker : Text) (inItem : Bool) (p : Predecessor)
    (ns : List Node) : blocksAfter o marker inItem (some p) ns = [] ∨
      ∃ u, blocksAfter o marker inItem (some p) ns = '\n' :: u := by
  induction ns with
  | nil => exact .inl rfl
  | cons n ns ih =>
    simp only [blocksAfter]
    split
    · exact ih
    · right
      rcases separator_some o inItem p n with hfeed | hfeed <;> rw [hfeed] <;> exact ⟨_, rfl⟩

/-- Blocks without text are written as nothing. -/
theorem blocksAfter_of_firstShown_eq_none (o : Options) (marker : Text) (inItem : Bool)
    (hg : AllGrammatical ns) (hblocks : AreBlocks ns) (h : firstShown o ns = none) :
    blocksAfter o marker inItem none ns = [] := by
  induction ns with
  | nil => rfl
  | cons n ns ih =>
    have htext : (fragment o (placementAfter o marker none n) n).text = body o n :=
      text_eq_body_of_isBlock hg.1 (hblocks n (List.mem_cons_self ..)) o marker
    rw [firstShown, List.find?_cons] at h
    split at h
    · cases h
    · rename_i hempty
      simp only [blocksAfter, htext]
      rw [if_pos (by simpa using hempty)]
      exact ih hg.2 (fun m hm => hblocks m (List.mem_cons_of_mem n hm)) h

/-- **Blocks start with the first of them that has text**, and what is behind it starts on another
line. -/
theorem exists_blocksAfter_eq_append (o : Options) (marker : Text) (inItem : Bool)
    (hg : AllGrammatical ns) (hblocks : AreBlocks ns) (h : firstShown o ns = some n) :
    body o n ≠ [] ∧ ∃ rest, blocksAfter o marker inItem none ns = body o n ++ rest ∧
      (rest = [] ∨ ∃ u, rest = '\n' :: u) := by
  induction ns with
  | nil => cases h
  | cons m ns ih =>
    have htext : (fragment o (placementAfter o marker none m) m).text = body o m :=
      text_eq_body_of_isBlock hg.1 (hblocks m (List.mem_cons_self ..)) o marker
    simp only [blocksAfter, htext]
    rw [firstShown, List.find?_cons] at h
    split at h
    · rename_i hne
      obtain rfl := Option.some.inj h
      rw [Bool.not_eq_true'] at hne
      rw [hne]
      exact ⟨by simpa using hne, _, rfl, blocksAfter_some_cases o marker inItem _ ns⟩
    · rename_i hempty
      rw [if_pos (by simpa using hempty)]
      exact ih hg.2 (fun k hk => hblocks k (List.mem_cons_of_mem m hk)) h

theorem firstLine_blocksAfter (o : Options) (marker : Text) (inItem : Bool) (hg : AllGrammatical ns)
    (hblocks : AreBlocks ns) (h : firstShown o ns = some n) :
    firstLine (blocksAfter o marker inItem none ns) = firstLine (body o n) := by
  obtain ⟨-, rest, htext, rfl | ⟨u, rfl⟩⟩ :=
    exists_blocksAfter_eq_append o marker inItem hg hblocks h
  · rw [htext, List.append_nil]
  · rw [htext, firstLine_append_newline]

/-- A start of marks and spaces counts with the rest of the line. -/
theorem holdsOnly_append (hc : c ∈ ruleMarks) {start : Text} (hstart : ∀ d ∈ start, d = c ∨ d = ' ')
    (t : Text) : HoldsOnly c k (start ++ t) ↔ ∃ l, k = start.count c + l ∧ HoldsOnly c l t := by
  obtain ⟨-, -, hend⟩ := ne_blank_of_mem_ruleMarks hc
  have hline : ∀ d ∈ start, ¬ IsLineEnd d := by
    intro d hd
    rcases hstart d hd with rfl | rfl
    · exact hend
    · decide
  have hall : ∀ d ∈ start, d = c ∨ d = ' ' ∨ d = '\t' := fun d hd =>
    (hstart d hd).imp_right .inl
  rw [HoldsOnly, firstLine_append hline, List.forall_mem_append, List.count_append]
  constructor
  · rintro ⟨⟨-, hrest⟩, hcount⟩
    exact ⟨_, hcount.symm, hrest, rfl⟩
  · rintro ⟨l, hl, hrest, hcount⟩
    exact ⟨⟨hall, hrest⟩, by rw [hl, hcount]⟩

theorem holdsOnly_nil : HoldsOnly c k [] ↔ k = 0 := by
  simp [HoldsOnly, firstLine, eq_comm]

/-- Spaces before a text do not count. -/
theorem holdsOnly_spaces_append (hc : c ∈ ruleMarks) (j : Nat) (t : Text) :
    HoldsOnly c k (Text.spaces j ++ t) ↔ HoldsOnly c k t := by
  have hspaces : ∀ d ∈ Text.spaces j, d = c ∨ d = ' ' := fun d hd =>
    .inr (List.eq_of_mem_replicate hd)
  have hcount : (Text.spaces j).count c = 0 :=
    List.count_eq_zero_of_not_mem (Text.not_mem_spaces (ne_blank_of_mem_ruleMarks hc).1 j)
  rw [holdsOnly_append hc hspaces, hcount]
  simp

/-- A bullet with its spacing counts once. -/
theorem holdsOnly_bullet_append (hc : c ∈ ruleMarks) (j : Nat) (t : Text) :
    HoldsOnly c k ([c] ++ Text.spaces j ++ t) ↔ ∃ l, k = l + 1 ∧ HoldsOnly c l t := by
  rw [List.append_assoc, holdsOnly_append hc (by simp)]
  simp only [holdsOnly_spaces_append hc, List.count_singleton_self, Nat.add_comm 1]

theorem isMarker_of_mem_ruleMarks (hc : c ∈ ruleMarks) : IsMarker [c] := by
  have hall : ∀ d ∈ ruleMarks, '\n' ≠ d ∧ isBlank d = false := by
    simp only [ruleMarks, List.forall_mem_cons]
    exact ⟨by decide, by decide, by decide, nofun⟩
  exact ⟨by simpa using (hall c hc).1, by simp, by simpa using (hall c hc).2⟩

/-- The box of a task stands behind the marker, whatever the item holds. -/
theorem exists_item_of_task (H : IsMarker marker) (o : Options) (status : String) (t : Text) :
    ∃ rest, item o marker (some status) t = markerText o marker ++ '[' :: rest := by
  obtain ⟨box, hbox⟩ : ∃ box, checkbox (some status) = '[' :: box := by
    rw [checkbox]
    split <;> exact ⟨_, rfl⟩
  by_cases ht : t = []
  · subst ht
    have hitem : item o marker (some status) [] =
        Text.trimRight (markerText o marker ++ ['['] ++ box) := by
      simp [item, hbox]
    rw [hitem, Text.trimRight_append _ (.inl (by simpa using (by decide : isBlank '[' = false)))]
    exact ⟨Text.trimRight box, by simp⟩
  · obtain ⟨first, rest, hlines⟩ := List.exists_cons_of_ne_nil (Text.lines_ne_nil t)
    obtain ⟨u, hu⟩ := Text.exists_append_of_lines (lines_item o H.line (some status) ht hlines)
    exact ⟨box ++ first ++ u, by rw [hu, hbox]; simp⟩

/-- An item without text is its marker. -/
theorem item_nil (H : IsMarker marker) (o : Options) : item o marker none [] = marker := by
  obtain ⟨j, hj⟩ := exists_markerText o marker
  have htrim : item o marker none [] = Text.trimRight (marker ++ Text.spaces j) := by
    simp [item, hj, checkbox]
  have hspaces : Text.trimRight (Text.spaces j) = [] :=
    Text.dropRightWhile_append [] fun d hd => by
      rw [List.eq_of_mem_replicate hd]
      decide
  rw [htrim, H.trimRight_append, hspaces, List.append_nil]

/-- An item starts like its body behind the marker and its spacing. -/
theorem firstLine_item (H : IsMarker marker) (o : Options) (ht : t ≠ []) :
    firstLine (item o marker none t) = firstLine (markerText o marker ++ t) := by
  obtain ⟨j, hj⟩ := exists_markerText o marker
  obtain ⟨first, rest, hlines⟩ := List.exists_cons_of_ne_nil (Text.lines_ne_nil t)
  have hitem := lines_item o H.line none ht hlines
  have hfeed : '\n' ∉ markerText o marker := by
    rw [hj]
    simp [H.line, Text.not_mem_spaces]
  have happend : lines (markerText o marker ++ t) = (markerText o marker ++ first) :: rest :=
    Text.lines_append_of_not_mem hfeed hlines
  rw [firstLine_of_lines hitem, firstLine_of_lines happend, checkbox, List.append_nil]

/-- **What the first line of an item holds**: the bullet, and what the first line of its body holds
if it is no task. -/
theorem holdsOnly_item (hc : c ∈ ruleMarks) (o : Options) (status : Option String) (t : Text) :
    HoldsOnly c k (item o [c] status t) ↔
      status = none ∧ ∃ l, k = l + 1 ∧ HoldsOnly c l t := by
  have H := isMarker_of_mem_ruleMarks hc
  obtain ⟨j, hj⟩ := exists_markerText o [c]
  cases status with
  | some status =>
    obtain ⟨rest, hrest⟩ := exists_item_of_task H o status t
    have hbox : '[' ≠ c := by
      rintro rfl
      exact absurd hc (by decide)
    have hnot : ∀ l, ¬ HoldsOnly c l ('[' :: rest) := fun l =>
      not_holdsOnly_of_head? rfl hbox (by decide)
    rw [hrest, hj, holdsOnly_bullet_append hc]
    simp [hnot]
  | none =>
    simp only [true_and]
    by_cases ht : t = []
    · have hitem : item o [c] none t = [c] ++ Text.spaces 0 ++ [] := by
        rw [ht, item_nil H]
        rfl
      rw [hitem, holdsOnly_bullet_append hc, ht]
    · rw [holdsOnly_congr (firstLine_item H o ht), hj, holdsOnly_bullet_append hc]

/-- Indented code starts like its content behind spaces. -/
theorem exists_firstLine_indentedCode (content : Text) :
    ∃ j, firstLine (indentedCode content) = firstLine (Text.spaces j ++ content) := by
  obtain ⟨feeds, hsplit, hfeeds⟩ := Text.exists_dropRightWhile_append (· = '\n') content
  have hcontent : ∀ start : Text, firstLine (start ++ content) =
      firstLine (start ++ Text.dropRightWhile (· = '\n') content) := by
    intro start
    conv_lhs => rw [← hsplit, ← List.append_assoc]
    cases feeds with
    | nil => rw [List.append_nil]
    | cons d feeds =>
      obtain rfl : d = '\n' := by simpa using hfeeds d (List.mem_cons_self ..)
      exact firstLine_append_newline _ feeds
  obtain ⟨first, rest, hlines⟩ := List.exists_cons_of_ne_nil
    (Text.lines_ne_nil (Text.dropRightWhile (· = '\n') content))
  have hindented : lines (indentedCode content) =
      Text.indentLine (Text.spaces 4) first :: rest.map (Text.indentLine (Text.spaces 4)) := by
    rw [indentedCode_eq, lines_indented, hlines, List.map_cons]
  have hspaces : ∀ j,
      firstLine (Text.spaces j ++ content) = firstLine (Text.spaces j ++ first) := by
    intro j
    have hfeed : '\n' ∉ Text.spaces j := Text.not_mem_spaces (by decide) j
    have happend := Text.lines_append_of_not_mem hfeed hlines
    rw [hcontent, firstLine_of_lines happend]
  rw [firstLine_of_lines hindented, Text.indentLine]
  split
  · rename_i hempty
    refine ⟨0, ?_⟩
    rw [hspaces, List.isEmpty_iff.mp hempty]
    rfl
  · exact ⟨4, (hspaces 4).symm⟩

theorem holdsOnly_indentedCode (hc : c ∈ ruleMarks) (content : Text) :
    HoldsOnly c k (indentedCode content) ↔ HoldsOnly c k content := by
  obtain ⟨j, hj⟩ := exists_firstLine_indentedCode content
  rw [holdsOnly_congr hj, holdsOnly_spaces_append hc]

/-! ## Items, from the outside in -/

theorem leads_listItem {children : List Node} {status : Option String} {m : Metadata} :
    Leads o c (.listItem children status m) k ↔ status = none ∧
      (firstShown o children = none ∧ k = 1 ∨
        ∃ n l, firstShown o children = some n ∧ k = l + 1 ∧ Leads o c n l) := by
  constructor
  · intro h
    cases h with
    | emptyItem hnone => exact ⟨rfl, .inl ⟨hnone, rfl⟩⟩
    | item hsome hleads => exact ⟨rfl, .inr ⟨_, _, hsome, rfl, hleads⟩⟩
  · rintro ⟨rfl, ⟨hnone, rfl⟩ | ⟨n, l, hsome, rfl, hleads⟩⟩
    · exact .emptyItem hnone
    · exact .item hsome hleads

/-- A text that starts with no mark of thematic breaks holds more than marks and blanks. -/
theorem not_holdsOnly_of_not_mark (hc : c ∈ ruleMarks) (hd : t.head? = some d)
    (hmark : d ∉ ruleMarks) (hblank : isBlank d = false) : ¬ HoldsOnly c k t :=
  not_holdsOnly_of_head? hd (fun heq => hmark (heq ▸ hc)) hblank

theorem holdsOnly_codeBlock (hc : c ∈ ruleMarks) (o : Options) (content : String)
    (language : Option String) (m : Metadata) :
    HoldsOnly c k (body o (.codeBlock content language m)) ↔
      Leads o c (.codeBlock content language m) k := by
  by_cases hcode : isIndentedCode o (.codeBlock content language m) = true
  · have hbody : body o (.codeBlock content language m) = indentedCode content.toList := by
      rw [body, fragment, codeBlock, if_pos (by simp [hcode])]
    rw [hbody, holdsOnly_indentedCode hc]
    refine ⟨.code hcode, fun h => ?_⟩
    cases h with
    | code _ h => exact h
  · have hhead : (body o (.codeBlock content language m)).head? =
        some (fenceChar o (language.getD "").toList) := by
      rw [body, fragment, codeBlock, if_neg (by simp [hcode]), head?_fenced]
    refine iff_of_false ?_ fun h => ?_
    · rcases fenceChar_cases o (language.getD "").toList with heq | ⟨heq, -⟩ <;> rw [heq] at hhead
      · exact not_holdsOnly_of_not_mark hc hhead (by decide) (by decide)
      · exact not_holdsOnly_of_not_mark hc hhead (by decide) (by decide)
    · cases h with
      | code hindented => exact hcode hindented

theorem holdsOnly_thematicBreak (hc : c ∈ ruleMarks) (o : Options) (m : Metadata) :
    HoldsOnly c k (body o (.thematicBreak m)) ↔ Leads o c (.thematicBreak m) k := by
  have hbody : body o (.thematicBreak m) = List.replicate 3 o.ruleStyle.char := rfl
  by_cases hrule : o.ruleStyle.char = c
  · have hmarks : ∀ d ∈ List.replicate 3 c, d = c ∨ d = ' ' := fun d hd =>
      .inl (List.eq_of_mem_replicate hd)
    have hcount : HoldsOnly c k (body o (.thematicBreak m)) ↔ k = 3 := by
      rw [hbody, hrule, ← List.append_nil (List.replicate 3 c), holdsOnly_append hc hmarks]
      simp [holdsOnly_nil]
    rw [hcount]
    refine ⟨fun hk => hk ▸ .rule hrule, fun h => ?_⟩
    cases h with
    | rule => rfl
  · have hblank : isBlank o.ruleStyle.char = false := by
      cases o.ruleStyle <;> decide
    refine iff_of_false (not_holdsOnly_of_head? rfl hrule hblank) fun h => ?_
    cases h with
    | rule h => exact hrule h

/-- The marker of an ordered list starts with a digit. -/
theorem exists_digit_of_ordered (o : Options) (alternate : Bool) {number : Int}
    (hnumber : 0 ≤ number) : ∃ d, (listMarker o true alternate number).head? = some d ∧
      d ∉ ruleMarks ∧ isBlank d = false := by
  obtain ⟨digits, rest, hmarker, hdigits, hne, -⟩ :=
    hasMark_listMarker o true alternate (fun _ => hnumber) []
  obtain ⟨d, ds, rfl⟩ := List.exists_cons_of_ne_nil hne
  have hdigit := hdigits d (List.mem_cons_self ..)
  refine ⟨d, ?_, fun hmem => ?_, isBlank_eq_false_of_isDigit hdigit⟩
  · rw [← List.append_nil (listMarker o true alternate number), hmarker]
    rfl
  · have hall : ∀ e ∈ ruleMarks, e.isDigit = false := by simp [ruleMarks]
    rw [hall d hmem] at hdigit
    cases hdigit

/-- A bullet list starts with its first item. -/
theorem holdsOnly_bulletList (o : Options) {node : Node} {nodes : List Node}
    (hitem : node.isItem = true) (start : Int) :
    HoldsOnly c k (unlines (items o false false start (node :: nodes))) ↔
      o.bulletMarker.char = c ∧ HoldsOnly c k (fragment o { marker := [c] } node).text := by
  by_cases hbullet : o.bulletMarker.char = c
  · have hmarker : listMarker o false false start = [c] := by
      rw [← hbullet]
      rfl
    rw [items, holdsOnly_congr (firstLine_unlines_cons _ _), hmarker]
    simp [hbullet]
  · refine iff_of_false ?_ fun h => hbullet h.1
    have hblank : isBlank o.bulletMarker.char = false := by
      cases o.bulletMarker <;> decide
    exact not_holdsOnly_of_head? (head?_list o false false hitem start) hbullet hblank

/-- An item holds what its first block with text does, behind its bullet. -/
theorem holdsOnly_listItem (hc : c ∈ ruleMarks) {children : List Node} {status : Option String}
    {m : Metadata} (hblocks : AreBlocks children) (hg : AllGrammatical children)
    (h : ∀ n ∈ children, body o n ≠ [] → ∀ k, HoldsOnly c k (body o n) ↔ Leads o c n k) :
    HoldsOnly c k (fragment o { marker := [c] } (.listItem children status m)).text ↔
      Leads o c (.listItem children status m) k := by
  rw [fragment, holdsOnly_item hc, leads_listItem]
  refine and_congr_right fun _ => ?_
  cases hshown : firstShown o children with
  | none => simp [blocksAfter_of_firstShown_eq_none o [c] true hg hblocks hshown, holdsOnly_nil]
  | some n =>
    have hn := h n (List.mem_of_find?_eq_some hshown) (by simpa using List.find?_some hshown)
    simp [holdsOnly_congr (firstLine_blocksAfter o [c] true hg hblocks hshown), hn]

/-- **What the first line of a block or an item holds** shows in what the node is. -/
theorem holdsOnly_iff_leads (hc : c ∈ ruleMarks) (o : Options) (n : Node) (hg : n.Grammatical) :
    (n.isBlock = true → body o n ≠ [] → ∀ k, HoldsOnly c k (body o n) ↔ Leads o c n k) ∧
    (n.isItem = true → ∀ k,
      HoldsOnly c k (fragment o { marker := [c] } n).text ↔ Leads o c n k) := by
  induction n using Node.forall_of_children with
  | step n ih =>
    -- Of another kind than the one in question, a node has nothing to show.
    have hother : ∀ {P : Prop}, false = true → P := fun h => absurd h Bool.false_ne_true
    cases n with
    | heading level content m =>
      have hhead : (body o (.heading level content m)).head? = some '#' := by
        rw [body, fragment, head?_heading]
      refine ⟨fun _ _ k => iff_of_false ?_ (fun h => by cases h), hother⟩
      exact not_holdsOnly_of_not_mark hc hhead (by decide) (by decide)
    | paragraph content m =>
      refine ⟨fun _ _ k => ⟨.paragraph, fun h => ?_⟩, hother⟩
      cases h with
      | paragraph h => exact h
    | codeBlock content language m =>
      exact ⟨fun _ _ k => holdsOnly_codeBlock hc o content language m, hother⟩
    | blockQuote children m =>
      have hhead : (body o (.blockQuote children m)).head? = some '>' := by
        rw [body, fragment, head?_quote]
      refine ⟨fun _ _ k => iff_of_false ?_ (fun h => by cases h), hother⟩
      exact not_holdsOnly_of_not_mark hc hhead (by decide) (by decide)
    | list ordered nodes start m =>
      refine ⟨fun _ hne k => ?_, hother⟩
      cases nodes with
      | nil => exact absurd rfl hne
      | cons node nodes =>
        have hitem := hg.2.1 node (List.mem_cons_self ..)
        have hbody : body o (.list ordered (node :: nodes) start m) =
            unlines (items o ordered false start (node :: nodes)) := rfl
        have hnode := (ih node (List.mem_cons_self ..)
          (hg.of_mem_children (List.mem_cons_self ..))).2 hitem
        cases ordered with
        | true =>
          obtain ⟨d, hd, hmark, hblank⟩ := exists_digit_of_ordered o false (hg.1 rfl)
          rw [← head?_list o true false hitem, ← hbody] at hd
          exact iff_of_false (not_holdsOnly_of_not_mark hc hd hmark hblank) fun h => by cases h
        | false =>
          rw [hbody, holdsOnly_bulletList o hitem, hnode]
          refine ⟨fun h => .list h.1 h.2, fun h => ?_⟩
          cases h with
          | list hbullet h => exact ⟨hbullet, h⟩
    | listItem children status m =>
      refine ⟨hother, fun _ k => holdsOnly_listItem hc hg.2.1 hg.2.2 fun n hn => ?_⟩
      exact (ih n hn (hg.of_mem_children hn)).1 (hg.2.1 n hn)
    | table nodes m =>
      refine ⟨fun _ hne k => iff_of_false ?_ (fun h => by cases h), hother⟩
      have hhead : (body o (.table nodes m)).head? = some '|' := by
        rw [body, fragment] at hne ⊢
        exact head?_table hne
      exact not_holdsOnly_of_not_mark hc hhead (by decide) (by decide)
    | thematicBreak m => exact ⟨fun _ _ k => holdsOnly_thematicBreak hc o m, hother⟩
    | _ => exact ⟨hother, hother⟩

/-! ## Escaped paragraphs -/

/-- Escaped content is more than stars and underscores, which are delimiters around it. -/
theorem exists_undelimited (hescape : o.escapeSpecial = true) (n : Node)
    (hns : ∀ child ∈ n.children, child.isInline = true ∧ child.Grammatical)
    (h : core o marker n.children ≠ []) :
    ∃ d ∈ core o marker n.children, isBlank d = false ∧ d ≠ '*' ∧ d ≠ '_' := by
  induction n using Node.forall_of_children with
  | step n ih =>
    cases hleader : leader o marker n.children with
    | none => exact absurd (core_of_leader_eq_none hleader) h
    | some l =>
      have hmem : l ∈ n.children := List.mem_of_find?_eq_some hleader
      obtain ⟨opening, rest, hcore, hopening⟩ :=
        exists_core_of_leader hescape (fun child hchild => (hns child hchild).1) hleader
      suffices hin : ∃ d ∈ opening, isBlank d = false ∧ d ≠ '*' ∧ d ≠ '_' by
        obtain ⟨d, hd, hdiff⟩ := hin
        exact ⟨d, by rw [hcore]; exact List.mem_append_left rest hd, hdiff⟩
      have hinner := ih l hmem fun child hchild =>
        inline_of_mem_children (hns l hmem).1 (hns l hmem).2 hchild
      cases hopening with
      | @text _ _ d hblank hmark =>
        refine ⟨d, by simp, hblank, ?_, ?_⟩ <;> rintro rfl <;> exact hmark (by decide)
      | emphasis _ hne | strong _ hne =>
        obtain ⟨d, hd, hdiff⟩ := hinner hne
        exact ⟨d, List.mem_append_right _ hd, hdiff⟩
      | strikethrough => exact ⟨'~', by simp, by decide⟩
      | code hcontent =>
        exact ⟨'`', List.mem_of_mem_head? (ends_of_codeSpan hcontent).1, by decide⟩
      | link => exact ⟨'[', by simp, by decide⟩
      | image => exact ⟨'!', by simp, by decide⟩

/-- A line of a mark and blanks that holds more than stars and underscores is made of hyphens. -/
theorem eq_hyphen_of_mem_ruleMarks (hc : c ∈ ruleMarks)
    (hall : ∀ d ∈ t, d = c ∨ d = ' ' ∨ d = '\t')
    (hother : ∃ d ∈ t, isBlank d = false ∧ d ≠ '*' ∧ d ≠ '_') : c = '-' := by
  obtain ⟨d, hd, hblank, hstar, hunderscore⟩ := hother
  obtain rfl := eq_of_not_blank (hall d hd) hblank
  simpa [ruleMarks, hstar, hunderscore] using hc

/-- A line of hyphens and blanks that needs no escape is two hyphens. -/
theorem Unescaped.eq_hyphens (U : Unescaped t) (hall : ∀ d ∈ t, d = '-' ∨ d = ' ' ∨ d = '\t')
    (hends : ∀ d ∈ t, ¬ IsLineEnd d) (hstart : isBare t.head? = true)
    (hend : isBare t.getLast? = true) : t = ['-', '-'] := by
  have hmark : ∀ d ∈ t, isBlank d = false → d = '-' := fun d hd hblank =>
    eq_of_not_blank (hall d hd) hblank
  have hhyphen : ∀ x : Option Char, isBare x = true → (∀ d, x = some d → d ∈ t) → x = some '-' := by
    intro x hx hmem
    cases x with
    | none => cases hx
    | some d => rw [hmark d (hmem d rfl) (by simpa [isBare] using hx)]
  have hfirst : t.head? = some '-' := hhyphen _ hstart fun d => List.mem_of_mem_head?
  have hlast : t.getLast? = some '-' := hhyphen _ hend fun d => List.mem_of_getLast?
  obtain ⟨rest, rfl⟩ : ∃ rest, t = '-' :: rest := List.head?_eq_some_iff.mp hfirst
  -- A bullet by itself would need an escape, and so would a third hyphen.
  have hbullet : ¬ EndsMarker rest := U.not_bullet (.inl rfl)
  have hcount := U.not_rule (fun hmem => hends _ hmem (.inl rfl)) (by simp) fun d hd =>
    hall d (List.mem_cons_of_mem _ hd)
  obtain ⟨rest, rfl⟩ : ∃ behind, rest = '-' :: behind := by
    cases rest with
    | nil => exact absurd (fun e he => by cases he) hbullet
    | cons d rest =>
      have hblank : isBlank d = false := by
        by_contra h
        refine hbullet fun e he => ?_
        rw [← Option.some.inj he]
        simpa using h
      exact ⟨rest, by rw [hmark d (by simp) hblank]⟩
  cases rest using List.reverseRecOn with
  | nil => rfl
  | append_singleton rest d =>
    rw [← List.cons_append, ← List.cons_append, List.getLast?_concat] at hlast
    obtain rfl := Option.some.inj hlast
    rw [List.count_cons_self, List.count_append, List.count_singleton_self] at hcount
    omega

/-- An escape stands on the first line of a paragraph, so this holds more than marks and blanks. -/
theorem not_holdsOnly_escape {digits rest : Text} {e : Char} (hc : c ∈ ruleMarks)
    (hdigits : ∀ d ∈ digits, Text.isDecimalDigit d = true) :
    ¬ HoldsOnly c k (digits ++ '\\' :: e :: rest) := by
  intro h
  have hline : ∀ d ∈ digits, ¬ IsLineEnd d := by
    intro d hd
    have hdecimal := hdigits d hd
    rintro (rfl | rfl) <;> exact absurd hdecimal (by decide)
  have hescape : '\\' ≠ c := by
    rintro rfl
    exact absurd hc (by decide)
  refine h.not_mem hescape (by decide) ?_
  rw [firstLine_append hline, firstLine, List.takeWhile_cons_of_pos (by decide)]
  exact List.mem_append_right _ (List.mem_cons_self ..)

/-- **An escaped paragraph of marks and blanks** is two hyphens. -/
theorem holdsOnly_paragraph (hescape : o.escapeSpecial = true) {m : Metadata}
    (hg : (Node.paragraph content m).Grammatical) (hne : body o (.paragraph content m) ≠ [])
    (hc : c ∈ ruleMarks) :
    HoldsOnly c k (body o (.paragraph content m)) ↔
      c = '-' ∧ k = 2 ∧ body o (.paragraph content m) = ['-', '-'] := by
  have hns : ∀ n ∈ content, n.isInline = true ∧ n.Grammatical := fun n hn =>
    ⟨hg.1.1 n hn, hg.of_mem_children hn⟩
  have hbody : body o (.paragraph content m) =
      escapeBlockStart (core o [o.bulletMarker.char] content) := by
    simp [body, fragment, paragraph, hescape, core]
  constructor
  · rw [hbody] at hne ⊢
    intro h
    rcases escapeBlockStart_cases (core o [o.bulletMarker.char] content) with
      ⟨heq, U⟩ | ⟨digits, e, rest, -, hdigits, -, heq⟩
    · rw [heq] at h hne ⊢
      have hbracket : '[' ≠ c := by
        rintro rfl
        exact absurd hc (by decide)
      obtain ⟨hline, hends⟩ :=
        (bracketed_core hns).firstLine_eq (h.not_mem hbracket (by decide))
      rw [HoldsOnly, hline] at h
      obtain rfl := eq_hyphen_of_mem_ruleMarks hc h.1
        (exists_undelimited hescape (.paragraph content m) hns hne)
      have htext := U.eq_hyphens h.1 hends (isBare_head?_trim hne) (isBare_getLast?_trim hne)
      have hcount := h.2
      rw [htext] at hcount
      exact ⟨rfl, hcount.symm, htext⟩
    · rw [heq] at h
      exact absurd h (not_holdsOnly_escape hc hdigits)
  · rintro ⟨rfl, rfl, htext⟩
    rw [htext]
    simp [HoldsOnly, firstLine, IsLineEnd]

/-- Each item is written with the marker of its number. -/
theorem getElem?_items (o : Options) (ordered alternate : Bool) (number : Int) (nodes : List Node)
    (i : Nat) : (items o ordered alternate number nodes)[i]? = nodes[i]?.map fun n =>
      (fragment o { marker := listMarker o ordered alternate (number + i) } n).text := by
  induction nodes generalizing number i with
  | nil => simp [items]
  | cons n nodes ih =>
    cases i with
    | zero => simp [items]
    | succ i =>
      have hnumber : number + 1 + i = number + ((i + 1 : Nat) : Int) := by omega
      rw [items, List.getElem?_cons_succ, List.getElem?_cons_succ, ih, hnumber]

/-- **When an item is a thematic break.** The first line of an item is like one exactly if the item
is one of a bullet list, whose bullet is no plus, and the bullet stands three times or more on the
line. That is so where the item leads with it so often: by a rule of that character, by nested lists
with the same bullet, by code, or by a paragraph. An escaped paragraph does only as two hyphens. -/
theorem item_is_rule_iff_marks_pile_up (o : Options) :
    (∀ (ordered alternate : Bool) (nodes : List Node) (start : Int) (m : Metadata),
      (Node.list ordered nodes start m).Grammatical →
      ∀ (i : Nat) (t : Text) (n : Node), (items o ordered alternate start nodes)[i]? = some t →
        nodes[i]? = some n →
        let c := listMark o false alternate
        (isBreakLike (firstLine t) = true ↔
          ordered = false ∧ c ≠ '+' ∧ ∃ k, 3 ≤ k ∧ Leads o c n k)) ∧
    (o.escapeSpecial = true → ∀ (c : Char) (content : List Node) (m : Metadata) (k : Nat),
      c ∈ ['-', '_', '*'] → (Node.paragraph content m).Grammatical →
      body o (.paragraph content m) ≠ [] →
      (Leads o c (.paragraph content m) k ↔
        c = '-' ∧ k = 2 ∧ body o (.paragraph content m) = ['-', '-'])) := by
  refine ⟨?_, ?_⟩
  · intro ordered alternate nodes start m hg i t n ht hn c
    have hmem := List.mem_of_getElem? hn
    have hitem := hg.2.1 n hmem
    have htext :
        (fragment o { marker := listMarker o ordered alternate (start + i) } n).text = t := by
      rw [getElem?_items, hn] at ht
      exact Option.some.inj ht
    have H := isMarker_listMarker o ordered alternate (start + i)
    have hhead : t.head? = (listMarker o ordered alternate (start + i)).head? := by
      rw [← htext, head?_text_of_isItem o hitem H]
    cases ordered with
    | true =>
      have hnumber : 0 ≤ start + i := by
        have := hg.1 rfl
        omega
      obtain ⟨d, hd, hmark, hblank⟩ := exists_digit_of_ordered o alternate hnumber
      refine iff_of_false ?_ fun h => by cases h.1
      rw [isBreakLike_firstLine_iff (hhead.trans hd) (Text.not_isLineEnd hblank)]
      exact fun h => hmark h.1
    | false =>
      have hall : ∀ d ∈ ['-', '*', '+'], (d ∈ ruleMarks ↔ d ≠ '+') ∧ ¬ IsLineEnd d := by
        simp [ruleMarks, IsLineEnd]
      obtain ⟨hmark, hend⟩ := hall c (listMark_mem_bullets o alternate)
      rw [isBreakLike_firstLine_iff (c := c) hhead hend, hmark]
      simp only [true_and]
      refine and_congr_right fun hplus => exists_congr fun k => and_congr_right fun _ => ?_
      rw [← htext]
      exact (holdsOnly_iff_leads (hmark.mpr hplus) o n (hg.of_mem_children hmem)).2 hitem k
  · intro hescape c content m k hc hg hne
    rw [← holdsOnly_paragraph hescape hg hne hc]
    refine ⟨fun h => ?_, .paragraph⟩
    cases h with
    | paragraph h => exact h

/-- An item that holds a list of one item with two hyphens. -/
def piled : Node :=
  .listItem [.list false [.listItem [.paragraph [.text "--"]] none] 1] none

/-- The bullets of nested items count together with two hyphens behind them, and a rule does not
count behind another bullet. -/
theorem bullets_count_with_hyphens :
    isBreakLike (firstLine "- - --".toList) = true ∧ (∃ k, 3 ≤ k ∧ Leads {} '-' piled k) ∧
    Leads {} '-' (.paragraph [.text "--"]) 2 ∧
    ¬ ∃ k, 3 ≤ k ∧ Leads { bulletMarker := .star } '*' (.listItem [.thematicBreak] none) k := by
  have H := item_is_rule_iff_marks_pile_up {}
  have hpiled : (Node.list false [piled] 1).Grammatical := (Node.problems_eq_nil_iff _).mp rfl
  have hrule : (Node.list false [.listItem [.thematicBreak] none] 1).Grammatical :=
    (Node.problems_eq_nil_iff _).mp rfl
  have hhyphens : (Node.paragraph [.text "--"]).Grammatical := (Node.problems_eq_nil_iff _).mp rfl
  have hline : isBreakLike (firstLine "- - --".toList) = true := by decide +kernel
  refine ⟨hline, ?_, ?_, ?_⟩
  · exact ((H.1 false false [piled] 1 [] hpiled 0 "- - --".toList piled (by decide +kernel)
      rfl).mp hline).2.2
  · exact (H.2 rfl '-' [.text "--"] [] 2 (by decide) hhyphens (by decide +kernel)).mpr
      (by decide +kernel)
  · intro h
    have hbreak := (item_is_rule_iff_marks_pile_up { bulletMarker := .star }).1 false false
      [.listItem [.thematicBreak] none] 1 [] hrule 0 "* ---".toList
      (.listItem [.thematicBreak] none) (by decide +kernel) rfl
    exact absurd (hbreak.mpr ⟨rfl, by decide, h⟩) (by decide +kernel)

/-- An item that holds a thematic break. It is lowered to a list of its own. -/
def ruleInItem : List Operation :=
  [.createElement (.str "root") .null, .createElement (.str "listItem") .null,
    .createElement (.str "thematicBreak") .null, .appendChild (.int 0) (.int 1),
    .appendChild (.int 1) (.int 2)]

/-- Items do not all stay items: this one is a thematic break. -/
theorem some_item_is_rule :
    ¬ ∀ (s : Store) (root : Value) (blocks nodes : List Node) (start : Int) (m : Metadata)
      (o : Options) (t : Text), (s.lower root).result = .ok (.document blocks) →
      .list false nodes start m ∈ blocks → t ∈ items o false false start nodes →
      isBreakLike (firstLine t) = false := by
  intro hclaim
  have hlowered : ((Container.run ruleInItem).store.lower (.int 0)).result =
      .ok (.document [.list false [.listItem [.thematicBreak] none] 1 synthesized]) := rfl
  have hitems : items {} false false 1 [.listItem [.thematicBreak] none] = ["- ---".toList] := by
    decide +kernel
  have hline := hclaim _ _ _ _ _ _ {} "- ---".toList hlowered (.head _) (by rw [hitems]; simp)
  exact absurd hline (by decide +kernel)

end DocumentTree.Markdown
