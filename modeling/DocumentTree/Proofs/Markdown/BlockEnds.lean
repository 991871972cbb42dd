import DocumentTree.Proofs.Document.Rules
import DocumentTree.Proofs.Markdown.Fences
import DocumentTree.Proofs.Markdown.HeadingLine
import DocumentTree.Proofs.Markdown.IndentedCode

/-!
# How blocks start and end

What is written of a block shows at its ends what the block is: hashes, a mark, a marker, a fence, a
pipe, or text without white space around it. Only indented code starts and ends with whatever the
code does. Quotes and lists start with a mark of their own, and end like the last block in them.

## Main definitions

* `Ending o n s` — a text that a node can end in: a character that is no white space, or the last
  line of indented code in the node.
-/

namespace DocumentTree.Markdown

open Node (Grammatical AllGrammatical AreBlocks)
open Text (lines unlines trimRight isBlank)

variable {o : Options} {n : Node} {t : Text}

/-! ## The ends of leaves -/

theorem isBare_getLast?_append {u : Text} (h : isBare u.getLast? = true) (t : Text) :
    isBare (t ++ u).getLast? = true := by
  rw [List.getLast?_append_of_ne_nil t (by rintro rfl; cases h), h]

theorem isBare_getLast?_trimRight (h : trimRight t ≠ []) :
    isBare (trimRight t).getLast? = true :=
  (trimRight_eq_self_iff h).mp <| Text.dropRightWhile_eq_self fun _ hc =>
    Text.getLast?_dropRightWhile hc

/-- Content that starts without white space does so behind the escape of its start. -/
theorem isBare_head?_escapeBlockStart (h : isBare t.head? = true) :
    isBare (escapeBlockStart t).head? = true := by
  rcases escapeBlockStart_cases t with ⟨heq, -⟩ | ⟨digits, c, rest, ht, -, -, heq⟩
  · rwa [heq]
  · rw [heq]
    cases digits with
    | nil => rfl
    | cons d digits => rwa [ht] at h

theorem isBare_ends_paragraph (h : paragraph o t ≠ []) :
    isBare (paragraph o t).head? = true ∧ isBare (paragraph o t).getLast? = true := by
  have htrim : Text.trim t ≠ [] := by
    intro hnil
    rw [paragraph, hnil] at h
    cases hescape : o.escapeSpecial <;> rw [hescape] at h <;> exact h rfl
  have hhead := isBare_head?_trim htrim
  have hlast := isBare_getLast?_trim htrim
  rw [paragraph]
  split
  · rw [getLast?_escapeBlockStart]
    exact ⟨isBare_head?_escapeBlockStart hhead, hlast⟩
  · exact ⟨hhead, hlast⟩

theorem head?_heading (level : HeadingLevel) (t : Text) :
    (heading level t).head? = some '#' := by
  obtain ⟨k, hk⟩ : ∃ k, level.val = k + 1 := ⟨level.val - 1, by have := level.one_le; omega⟩
  simp only [heading, hk, List.replicate_succ]
  split <;> rfl

theorem isBare_getLast?_heading (level : HeadingLevel) (t : Text) :
    isBare (heading level (escapeClosingHashes (Text.trim t))).getLast? = true := by
  have hne : heading level (escapeClosingHashes (Text.trim t)) ≠ [] := by
    intro hnil
    have hhead := head?_heading level (escapeClosingHashes (Text.trim t))
    rw [hnil] at hhead
    cases hhead
  rw [List.getLast?_eq_some_getLast hne, isBare, Bool.not_eq_true']
  refine getLast?_heading level (fun c hc => ?_) (List.getLast?_eq_some_getLast hne)
  rw [getLast?_escapeClosingHashes] at hc
  exact Text.getLast?_trim hc

theorem isBare_getLast?_row (texts : List Text) : isBare (row texts).getLast? = true := by
  rw [row, List.getLast?_append_of_ne_nil _ (by simp)]
  rfl

theorem exists_unlines_concat (ts : List Text) (t : Text) :
    ∃ before, unlines (ts ++ [t]) = before ++ t :=
  ⟨unlines (ts ++ [[]]), (Text.unlines_append ts [] [] t).symm⟩

theorem head?_table {grid : List (List Cell)} (h : table grid ≠ []) :
    (table grid).head? = some '|' := by
  unfold table at h ⊢
  split at h
  · exact absurd rfl h
  · exact absurd rfl h
  · rw [Text.unlines_cons (by simp), List.head?_append_of_ne_nil _ (by simp [tableRow, row])]
    rfl

theorem isBare_getLast?_table {grid : List (List Cell)} (h : table grid ≠ []) :
    isBare (table grid).getLast? = true := by
  unfold table at h ⊢
  split at h
  · exact absurd rfl h
  · exact absurd rfl h
  · rename_i header body _
    rcases List.eq_nil_or_concat
      (delimiterRow (columns (header :: body)) :: body.map (tableRow (columns (header :: body))))
      with hnil | ⟨init, last, hconcat⟩
    · cases hnil
    · rw [hconcat, List.concat_eq_append, ← List.cons_append]
      obtain ⟨before, hbefore⟩ := exists_unlines_concat (tableRow _ header :: init) last
      rw [hbefore]
      refine isBare_getLast?_append ?_ before
      have hmem : last ∈ delimiterRow (columns (header :: body)) ::
          body.map (tableRow (columns (header :: body))) := by simp [hconcat]
      rcases List.mem_cons.mp hmem with rfl | hmem
      · exact isBare_getLast?_row _
      · obtain ⟨r, -, rfl⟩ := List.mem_map.mp hmem
        exact isBare_getLast?_row _

/-! ## The ends of containers -/

/-- A text that a node can end in. -/
inductive Ending (o : Options) (n : Node) : Text → Prop
  /-- A character that is no white space. -/
  | bare {c : Char} : isBlank c = false → Ending o n [c]
  /-- The last line of indented code. -/
  | code {content : String} {language : Option String} {m : Metadata} {before : List Text}
    {last : Text} : n.Contains (.codeBlock content language m) →
    isIndentedCode o (.codeBlock content language m) = true →
    lines (indentedCode content.toList) = before ++ [last] → Ending o n last

theorem Ending.of_isBare {t : Text} (h : isBare t.getLast? = true) :
    ∃ s, Ending o n s ∧ s <:+ t := by
  rcases List.eq_nil_or_concat t with rfl | ⟨u, c, rfl⟩
  · cases h
  · rw [List.concat_eq_append, List.getLast?_concat] at h
    exact ⟨[c], .bare (by simpa [isBare] using h), ⟨u, by simp⟩⟩

theorem Ending.of_child {child : Node} {s : Text} (h : Ending o child s)
    (hchild : child ∈ n.children) : Ending o n s := by
  cases h with
  | bare hc => exact .bare hc
  | code hcontains hcode hlines => exact .code (.inside hchild hcontains) hcode hlines

/-- The last line of indented code has the last character of the code, line feeds aside. -/
theorem exists_last_line_of_code {content : String} {language : Option String} {m : Metadata}
    (h : isIndentedCode o (.codeBlock content language m) = true) {before : List Text} {last : Text}
    (hlines : lines (indentedCode content.toList) = before ++ [last]) :
    ∃ ls line c, lines (Text.dropRightWhile (· = '\n') content.toList) = ls ++ [line] ∧
      last = Text.spaces 4 ++ line ∧ line.getLast? = some c ∧
      (Text.dropRightWhile (· = '\n') content.toList).getLast? = some c ∧ c ≠ '\n' := by
  have hne := dropLineFeeds_ne_nil h
  rw [indentedCode_eq, lines_indented] at hlines
  generalize hcode : Text.dropRightWhile (· = '\n') content.toList = code at hne hlines ⊢
  obtain ⟨ls, line, hline⟩ := Text.exists_lines code
  have hlast := List.getLast?_eq_some_getLast hne
  have hfeed : code.getLast hne ≠ '\n' := by
    have hdropped := Text.getLast?_dropRightWhile (p := (· = '\n')) (by rw [hcode]; exact hlast)
    simpa using hdropped
  have hline_last := Text.getLast?_of_lines hline hlast hfeed
  refine ⟨ls, line, _, hline, ?_, hline_last, hlast, hfeed⟩
  rw [hline, List.map_append, List.map_singleton] at hlines
  obtain ⟨-, hsingle⟩ := List.append_inj' hlines rfl
  rw [← List.singleton_inj.mp hsingle, Text.indentLine, if_neg]
  rintro hempty
  rw [List.isEmpty_iff.mp hempty] at hline_last
  cases hline_last

theorem Ending.ne_nil {s : Text} (h : Ending o n s) : s ≠ [] := by
  cases h with
  | bare => simp
  | code _ hcode hlines =>
    obtain ⟨ls, line, c, -, rfl, -, -, -⟩ := exists_last_line_of_code hcode hlines
    simp [Text.spaces]

theorem Ending.newline_not_mem {s : Text} (h : Ending o n s) : '\n' ∉ s := by
  cases h with
  | bare hc =>
    rw [List.mem_singleton]
    rintro rfl
    exact absurd hc (by decide)
  | code _ _ hlines => exact Text.not_mem_of_mem_lines (by rw [hlines]; simp)

/-- What a text ends in without a line feed, its last line ends in. -/
theorem exists_lines_of_suffix {s t : Text} (hline : '\n' ∉ s) (h : s <:+ t) :
    ∃ before start, lines t = before ++ [start ++ s] := by
  obtain ⟨u, rfl⟩ := h
  obtain ⟨before, last, hlines⟩ := Text.exists_lines u
  exact ⟨before, last, Text.lines_append hlines (Text.lines_of_not_mem hline)⟩

theorem suffix_of_lines (before : List Text) (start : Text) {s : Text}
    (h : lines t = before ++ [start ++ s]) : s <:+ t := by
  obtain ⟨u, hu⟩ := exists_unlines_concat before (start ++ s)
  rw [← Text.unlines_lines t, h, hu, ← List.append_assoc]
  exact List.suffix_append _ s

/-- A quote ends in what the text in it ends in. -/
theorem suffix_quote {s : Text} (hne : s ≠ []) (hline : '\n' ∉ s) (h : s <:+ t) :
    s <:+ quote t := by
  obtain ⟨before, start, hlines⟩ := exists_lines_of_suffix hline h
  have hquote : quoteLine (start ++ s) = ['>', ' '] ++ start ++ s := by
    simp [quoteLine, hne]
  refine suffix_of_lines (before.map quoteLine) (['>', ' '] ++ start) ?_
  rw [lines_quote, hlines, List.map_append, List.map_singleton, hquote]

/-- An item ends in what its body ends in. -/
theorem suffix_item {s marker : Text} (hmarker : '\n' ∉ marker) (status : Option String)
    (hne : s ≠ []) (hline : '\n' ∉ s) (h : s <:+ t) : s <:+ item o marker status t := by
  have ht : t ≠ [] := by
    rintro rfl
    exact hne (List.suffix_nil.mp h)
  obtain ⟨before, start, hlines⟩ := exists_lines_of_suffix hline h
  cases before with
  | nil =>
    have hitem := lines_item o hmarker status ht hlines
    rw [List.map_nil, ← List.append_assoc] at hitem
    exact suffix_of_lines [] _ hitem
  | cons first before =>
    rw [List.cons_append] at hlines
    have hindent : Text.indentLine (Text.spaces (markerText o marker).length) (start ++ s) =
        Text.spaces (markerText o marker).length ++ start ++ s := by
      simp [Text.indentLine, hne]
    have hitem := lines_item o hmarker status ht hlines
    rw [List.map_append, List.map_singleton, hindent, ← List.cons_append] at hitem
    exact suffix_of_lines _ _ hitem

/-- An empty item ends in its marker or its box. -/
theorem isBare_getLast?_item {marker : Text} (H : IsMarker marker) (status : Option String) :
    isBare (item o marker status []).getLast? = true := by
  obtain ⟨k, hk⟩ := exists_markerText o marker
  have hitem : item o marker status [] = trimRight (markerText o marker ++ checkbox status) := rfl
  rw [hitem]
  refine isBare_getLast?_trimRight ?_
  rw [hk, List.append_assoc, H.trimRight_append]
  exact fun hnil => H.ne_nil (List.append_eq_nil_iff.mp hnil).1

theorem text_ne_nil_of_isItem (o : Options) (hn : n.isItem = true) {marker : Text}
    (H : IsMarker marker) : (fragment o { marker } n).text ≠ [] := by
  cases n with
  | listItem children status m =>
    obtain ⟨u, hu⟩ := (itemLines_item o H status _).exists_append
    rw [fragment, hu]
    exact fun hnil => H.ne_nil (List.append_eq_nil_iff.mp hnil).1
  | _ => cases hn

/-- Blocks in sequence end in the last of them that has text. -/
theorem exists_last_block (o : Options) (marker : Text) (inItem : Bool)
    (previous : Option Predecessor) {ns : List Node}
    (h : blocksAfter o marker inItem previous ns ≠ []) :
    ∃ n ∈ ns, ∃ p : Placement, p.marker = marker ∧ (fragment o p n).text ≠ [] ∧
      (fragment o p n).text <:+ blocksAfter o marker inItem previous ns := by
  induction ns generalizing previous with
  | nil => exact absurd rfl h
  | cons n ns ih =>
    rw [blocksAfter_cons] at h ⊢
    by_cases hrest : blocksAfter o marker inItem (nextPredecessor o marker previous n) ns = []
    · rw [hrest, List.append_nil] at h ⊢
      refine ⟨n, by simp, _, marker_placementAfter o marker previous n, ?_⟩
      simp only at h ⊢
      split at h
      · exact absurd rfl h
      · rename_i htext
        rw [if_neg htext]
        exact ⟨by simpa using htext, List.suffix_append _ _⟩
    · obtain ⟨m, hm, p, hp, hne, hsuffix⟩ := ih _ hrest
      exact ⟨m, List.mem_cons_of_mem n hm, p, hp, hne, hsuffix.trans (List.suffix_append _ _)⟩

/-- A list ends in its last item. -/
theorem exists_last_item (o : Options) (ordered alternate : Bool) {nodes : List Node}
    (hnodes : nodes ≠ []) (number : Int) :
    ∃ n ∈ nodes, ∃ number', (fragment o { marker := listMarker o ordered alternate number' } n).text
      <:+ unlines (items o ordered alternate number nodes) := by
  induction nodes generalizing number with
  | nil => exact absurd rfl hnodes
  | cons n nodes ih =>
    by_cases hrest : nodes = []
    · subst hrest
      exact ⟨n, by simp, number, List.suffix_refl _⟩
    · obtain ⟨m, hm, number', hsuffix⟩ := ih hrest (number + 1)
      have hitems : items o ordered alternate (number + 1) nodes ≠ [] := by
        rw [← List.length_pos_iff, length_items, List.length_pos_iff]
        exact hrest
      refine ⟨m, List.mem_cons_of_mem n hm, number', hsuffix.trans ?_⟩
      rw [items, Text.unlines_cons hitems, ← List.singleton_append, ← List.append_assoc]
      exact List.suffix_append _ _

/-! ## The ends of blocks -/

/-- **A block ends** in a character that is no white space, or in the last line of indented code in
it. -/
theorem exists_ending (o : Options) (n : Node) (hn : n.Grammatical) (p : Placement)
    (hkind : n.isBlock = true ∨ n.isItem = true ∧ IsMarker p.marker)
    (ht : (fragment o p n).text ≠ []) :
    ∃ s, Ending o n s ∧ s <:+ (fragment o p n).text := by
  induction n using Node.forall_of_children generalizing p with
  | step n ih =>
    have hblocks : ∀ {inItem : Bool}, AreBlocks n.children →
        blocksAfter o p.marker inItem none n.children ≠ [] →
        ∃ s, Ending o n s ∧ s <:+ blocksAfter o p.marker inItem none n.children := by
      intro inItem hareBlocks hne
      obtain ⟨child, hchild, q, -, htext, hsuffix⟩ := exists_last_block o p.marker inItem none hne
      obtain ⟨s, hs, hends⟩ := ih child hchild (hn.of_mem_children hchild) q
        (.inl (hareBlocks child hchild)) htext
      exact ⟨s, hs.of_child hchild, hends.trans hsuffix⟩
    cases n with
    | heading level content m =>
      rw [fragment]
      exact Ending.of_isBare (isBare_getLast?_heading level _)
    | paragraph content m =>
      rw [fragment] at ht ⊢
      exact Ending.of_isBare (isBare_ends_paragraph ht).2
    | codeBlock content language m =>
      rw [fragment, codeBlock]
      split
      · rename_i hcode
        rw [Bool.and_eq_true] at hcode
        obtain ⟨before, last, hlines⟩ := Text.exists_lines (indentedCode content.toList)
        refine ⟨last, .code (.self _) hcode.1 hlines, ?_⟩
        exact suffix_of_lines before [] hlines
      · exact Ending.of_isBare (isBare_getLast?_fenced o _ _)
    | blockQuote children m =>
      rw [fragment]
      by_cases hne : blocksAfter o p.marker false none children = []
      · rw [hne]
        exact Ending.of_isBare rfl
      · obtain ⟨s, hs, hsuffix⟩ := hblocks hn.1 hne
        exact ⟨s, hs, suffix_quote hs.ne_nil hs.newline_not_mem hsuffix⟩
    | list ordered nodes start m =>
      rw [fragment] at ht ⊢
      have hnodes : nodes ≠ [] := by
        rintro rfl
        exact ht rfl
      obtain ⟨node, hnode, number, hsuffix⟩ :=
        exists_last_item o ordered p.alternate hnodes start
      have hmarker := isMarker_listMarker o ordered p.alternate number
      have hitem := hn.2.1 node hnode
      obtain ⟨s, hs, hends⟩ := ih node hnode (hn.of_mem_children hnode)
        { marker := _ } (.inr ⟨hitem, hmarker⟩)
        (text_ne_nil_of_isItem o hitem hmarker)
      exact ⟨s, hs.of_child hnode, hends.trans hsuffix⟩
    | listItem children status m =>
      rw [fragment]
      have hmarker : IsMarker p.marker := hkind.elim (fun h => by cases h) And.right
      by_cases hne : blocksAfter o p.marker true none children = []
      · rw [hne]
        exact Ending.of_isBare (isBare_getLast?_item hmarker status)
      · obtain ⟨s, hs, hsuffix⟩ := hblocks hn.2.1 hne
        exact ⟨s, hs, suffix_item hmarker.line status hs.ne_nil hs.newline_not_mem hsuffix⟩
    | table nodes m =>
      rw [fragment] at ht ⊢
      exact Ending.of_isBare (isBare_getLast?_table ht)
    | thematicBreak m =>
      rw [fragment]
      refine Ending.of_isBare ?_
      cases o.ruleStyle <;> rfl
    | _ => rcases hkind with h | ⟨h, -⟩ <;> cases h

/-! ## The starts of blocks -/

theorem isBlank_eq_false_of_isDigit {c : Char} (h : c.isDigit = true) : isBlank c = false := by
  rw [Bool.eq_false_iff]
  intro hblank
  have hall : ∀ k ∈ Text.blankNumbers, ¬ (48 ≤ k ∧ k ≤ 57) := by decide
  refine hall c.toNat (Text.toNat_mem_blankNumbers hblank) ?_
  simpa [Char.isDigit, UInt32.le_iff_toNat_le] using h

/-- A marker has no white space in it. -/
theorem isBlank_of_mem_listMarker {ordered alternate : Bool} {number : Int} {c : Char}
    (h : c ∈ listMarker o ordered alternate number) : isBlank c = false := by
  have hbullet : ∀ b : Bullet, isBlank b.char = false := by
    rintro (_ | _ | _) <;> decide
  have hdigits : ∀ k, c ∈ decimalDigits k → isBlank c = false := fun k hc =>
    isBlank_eq_false_of_isDigit (isDigit_of_mem_decimalDigits hc)
  cases ordered with
  | false =>
    cases alternate <;> obtain rfl := List.mem_singleton.mp h <;> exact hbullet _
  | true =>
    rw [listMarker, if_pos rfl, List.mem_append] at h
    rcases h with h | h
    · rw [integerText] at h
      split at h
      · rcases List.mem_cons.mp h with rfl | h
        · decide
        · exact hdigits _ h
      · exact hdigits _ h
    · cases alternate <;> obtain rfl := List.mem_singleton.mp h <;> decide

/-- An item starts with the first character of its marker. -/
theorem head?_text_of_isItem (o : Options) (hn : n.isItem = true) {marker : Text}
    (H : IsMarker marker) : (fragment o { marker } n).text.head? = marker.head? := by
  cases n with
  | listItem children status m =>
    obtain ⟨u, hu⟩ := (itemLines_item o H status _).exists_append
    rw [fragment, hu, List.head?_append_of_ne_nil _ H.ne_nil]
  | _ => cases hn

theorem head?_fenced (o : Options) (info content : Text) :
    (fencedCode o info content).head? = some (fenceChar o info) := by
  obtain ⟨k, hk, -⟩ := exists_fence_eq (fenceChar o info) content
  simp only [fencedCode, hk]
  rfl

theorem head?_quote (t : Text) : (quote t).head? = some '>' := by
  obtain ⟨first, rest, hlines⟩ := List.exists_cons_of_ne_nil (Text.lines_ne_nil t)
  rw [quote, hlines, List.map_cons, unlines, Text.join_cons, quoteLine]
  split <;> rfl

/-- A list starts with the first character of its first marker. -/
theorem head?_list (o : Options) (ordered alternate : Bool) {node : Node} {nodes : List Node}
    (hitem : node.isItem = true) (number : Int) :
    (unlines (items o ordered alternate number (node :: nodes))).head? =
      (listMarker o ordered alternate number).head? := by
  have hmarker := isMarker_listMarker o ordered alternate number
  rw [items, unlines, Text.join_cons, List.head?_append_of_ne_nil _
    (text_ne_nil_of_isItem o hitem hmarker), head?_text_of_isItem o hitem hmarker]

/-- **A block starts** with a character that is no white space, unless it is indented code. -/
theorem isBare_head?_block (o : Options) (hn : n.Grammatical) (hblock : n.isBlock = true)
    (p : Placement) (ht : (fragment o p n).text ≠ []) :
    isBare (fragment o p n).text.head? = true ∨
      ∃ content language m, n = .codeBlock content language m ∧ isIndentedCode o n = true ∧
        p.fenced = false ∧ (fragment o p n).text = indentedCode content.toList := by
  cases n with
  | codeBlock content language m =>
    rw [fragment, codeBlock]
    split
    · rename_i hcode
      simp only [Bool.and_eq_true, Bool.not_eq_true'] at hcode
      exact .inr ⟨content, language, m, rfl, hcode.1, hcode.2, rfl⟩
    · left
      rw [head?_fenced]
      rcases fenceChar_cases o (language.getD "").toList with heq | ⟨heq, -⟩
      · rw [heq]
        rfl
      · rw [heq]
        rfl
  | heading level content m =>
    rw [fragment, head?_heading]
    exact .inl rfl
  | paragraph content m =>
    rw [fragment] at ht ⊢
    exact .inl (isBare_ends_paragraph ht).1
  | blockQuote children m =>
    rw [fragment, head?_quote]
    exact .inl rfl
  | list ordered nodes start m =>
    rw [fragment] at ht ⊢
    cases nodes with
    | nil => exact absurd rfl ht
    | cons node nodes =>
      have hmarker := isMarker_listMarker o ordered p.alternate start
      have hblank := isBlank_of_mem_listMarker (List.head_mem hmarker.ne_nil)
      left
      rw [head?_list o ordered p.alternate (hn.2.1 node (List.mem_cons_self ..)) start,
        List.head?_eq_some_head hmarker.ne_nil, isBare, hblank]
      rfl
  | table nodes m =>
    rw [fragment] at ht ⊢
    rw [head?_table ht]
    exact .inl rfl
  | thematicBreak m =>
    rw [fragment]
    left
    cases o.ruleStyle <;> rfl
  | _ => cases hblock

end DocumentTree.Markdown
