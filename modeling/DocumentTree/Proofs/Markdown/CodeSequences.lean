import DocumentTree.Proofs.Markdown.CarriageReturns
import DocumentTree.Proofs.Markdown.Runs
import DocumentTree.Proofs.Markdown.Siblings

/-!
# Which code blocks a text shows

A fence is longer than every run of its character in the code, so no line of the code is one: fenced
code blocks can be read back from the text, one by one. Indented code is put before the reader
without marks. A blank line between two blocks is then like a blank line in one, and all that the
text shows is the code of all blocks with blank lines between.

## Main definitions

* `codes` — code blocks without languages.
* `IsPlainCode` — code that starts and ends on lines of its own.
* `SelfDelimiting` — values of a function that show their argument and where they end.
-/

namespace DocumentTree.Markdown

open Text (lines unlines trimRight isBlank)

variable {c : Char} {t u content : Text}

/-! ## Values that show where they end -/

/-- At the start of a list, a value shows its argument and where it ends. -/
def SelfDelimiting {α β : Type} (f : α → List β) (p : α → Prop) : Prop :=
  ∀ x y, p x → p y → ∀ r s, f x ++ r = f y ++ s → x = y ∧ r = s

/-- Sequences of self-delimiting values show their arguments. -/
theorem SelfDelimiting.eq_of_flatMap_eq {α β : Type} {f : α → List β} {p : α → Prop}
    (h : SelfDelimiting f p) (hne : ∀ x, f x ≠ []) {xs ys : List α} (hxs : ∀ x ∈ xs, p x)
    (hys : ∀ y ∈ ys, p y) (heq : xs.flatMap f = ys.flatMap f) : xs = ys := by
  induction xs generalizing ys with
  | nil =>
    cases ys with
    | nil => rfl
    | cons y ys => simp [hne y] at heq
  | cons x xs ih =>
    cases ys with
    | nil => simp [hne x] at heq
    | cons y ys =>
      rw [List.forall_mem_cons] at hxs hys
      rw [List.flatMap_cons, List.flatMap_cons] at heq
      obtain ⟨rfl, hrest⟩ := h x y hxs.1 hys.1 _ _ heq
      rw [ih hxs.2 hys.2 hrest]

/-- Where something comes for the first time, a list is cut in one way. -/
theorem cut_unique {α : Type} {a : α} {xs ys r s : List α} (hx : a ∉ xs) (hy : a ∉ ys)
    (h : xs ++ a :: r = ys ++ a :: s) : xs = ys ∧ r = s := by
  induction xs generalizing ys with
  | nil =>
    cases ys with
    | nil => exact ⟨rfl, (List.cons.inj h).2⟩
    | cons y ys => exact absurd (List.cons.inj h).1 (List.ne_of_not_mem_cons hy)
  | cons x xs ih =>
    cases ys with
    | nil => exact absurd (List.cons.inj h).1.symm (List.ne_of_not_mem_cons hx)
    | cons y ys =>
      obtain ⟨rfl, hrest⟩ := List.cons.inj h
      obtain ⟨rfl, rfl⟩ :=
        ih (List.not_mem_of_not_mem_cons hx) (List.not_mem_of_not_mem_cons hy) hrest
      exact ⟨rfl, rfl⟩

/-- Texts with blank lines between them can be read back if their lines, with an empty one behind
them, show where they end. -/
theorem eq_of_join_blank_eq {f : Text → Text} {p : Text → Prop}
    (hf : SelfDelimiting (fun t => lines (f t) ++ [[]]) p) (hne : ∀ t, p t → f t ≠ [])
    {ts us : List Text} (hts : ∀ t ∈ ts, p t) (hus : ∀ u ∈ us, p u)
    (h : Text.join blankLine (ts.map f) = Text.join blankLine (us.map f)) : ts = us := by
  have hnil : ∀ {vs : List Text}, (∀ v ∈ vs, p v) → Text.join blankLine (vs.map f) = [] →
      vs = [] := by
    intro vs hvs hjoin
    cases vs with
    | nil => rfl
    | cons v vs =>
      rw [List.map_cons, Text.join_cons] at hjoin
      exact absurd (List.append_eq_nil_iff.mp hjoin).1 (hne v (hvs v (by simp)))
  by_cases ht : ts = []
  · subst ht
    exact (hnil hus h.symm).symm
  by_cases hu : us = []
  · subst hu
    exact hnil hts h
  refine hf.eq_of_flatMap_eq (fun t => by simp) hts hus ?_
  rw [← List.flatMap_map f fun t => lines t ++ [[]], ← List.flatMap_map f fun t => lines t ++ [[]],
    ← Text.lines_join_blank (by simpa using ht), ← Text.lines_join_blank (by simpa using hu)]
  exact congrArg (fun t => lines t ++ [[]]) h

/-! ## Fences -/

/-- **No line of code is its fence.** -/
theorem fence_not_mem_lines (c : Char) (content : Text) :
    fence [c] 3 content ∉ lines content := by
  intro hmem
  have hinfix := Text.infix_of_mem_lines hmem
  rw [fence_singleton] at hinfix
  exact not_replicate_infix_of_longestRun_lt (by omega) hinfix

/-- The lines of fenced code, if it does not end with a line feed. -/
theorem lines_fenced (o : Options) (hne : content ≠ []) (hlast : content.getLast? ≠ some '\n') :
    let f := fence [fenceChar o []] 3 content
    lines (fencedCode o [] content) = f :: (lines content ++ [f]) := by
  intro f
  have hfeed : '\n' ∉ f :=
    Text.not_mem_repeated (by simpa using ne_fenceChar (.inl rfl) o []) _
  have hclosed : closeLine content = content ++ ['\n'] := by simp [closeLine, hne, hlast]
  have hcode : fencedCode o [] content = f ++ '\n' :: (content ++ '\n' :: f) := by
    simp [fencedCode, hclosed, f]
  rw [hcode, Text.lines_append_cons, Text.lines_append_cons, Text.lines_of_not_mem hfeed]
  rfl

/-- **Fenced code shows where it ends.** -/
theorem selfDelimiting_fenced (o : Options) :
    SelfDelimiting (fun content => lines (fencedCode o [] content) ++ [[]])
      fun content => content ≠ [] ∧ content.getLast? ≠ some '\n' := by
  rintro x y ⟨hx, hxlast⟩ ⟨hy, hylast⟩ r s h
  simp only [lines_fenced o hx hxlast, lines_fenced o hy hylast, List.cons_append,
    List.append_assoc, List.cons.injEq] at h
  obtain ⟨hfence, hrest⟩ := h
  have hxnot := fence_not_mem_lines (fenceChar o []) x
  rw [hfence] at hxnot hrest
  obtain ⟨hlines, hbehind⟩ :=
    cut_unique hxnot (fence_not_mem_lines (fenceChar o []) y) hrest
  refine ⟨?_, (List.cons.inj hbehind).2⟩
  rw [← Text.unlines_lines x, hlines, Text.unlines_lines]

/-! ## Indented texts -/

/-- Another character comes behind spaces, if it starts a line, or by itself. -/
theorem exists_indented_concat (t : Text) (c : Char) :
    ∃ gap, (∀ d ∈ gap, isBlank d = true) ∧ indented (t ++ [c]) = indented t ++ gap ++ [c] := by
  obtain ⟨before, last, hlines⟩ := Text.exists_lines t
  by_cases hc : c = '\n'
  · subst hc
    refine ⟨[], nofun, ?_⟩
    have hfeed : lines (t ++ ['\n']) = lines t ++ [[]] := Text.lines_append_cons t []
    rw [indented, hfeed, List.map_append, unlines,
      Text.join_append _ (by simp [Text.lines_ne_nil]) (by simp)]
    simp [indented, unlines, Text.join, Text.indentLine]
  · have hone : lines [c] = [[c]] := Text.lines_of_not_mem (by simpa using Ne.symm hc)
    refine ⟨if last.isEmpty then Text.spaces 4 else [], ?_, ?_⟩
    · intro d hd
      split at hd
      · rw [List.eq_of_mem_replicate hd]
        decide
      · cases hd
    · have hsplit : Text.indentLine (Text.spaces 4) (last ++ [c]) =
          Text.indentLine (Text.spaces 4) last
            ++ ((if last.isEmpty then Text.spaces 4 else []) ++ [c]) := by
        cases last <;> simp [Text.indentLine]
      rw [indented, indented, Text.lines_append hlines hone, hlines, List.map_append,
        List.map_append, List.map_singleton, List.map_singleton, hsplit, List.append_assoc,
        ← Text.unlines_append]
      simp [unlines, Text.join]

/-- Trimming the end of a text comes before or after indenting it. -/
theorem trimRight_indented (t : Text) : trimRight (indented t) = indented (trimRight t) := by
  induction t using List.reverseRecOn with
  | nil => rfl
  | append_singleton t c ih =>
    obtain ⟨gap, hgap, hconcat⟩ := exists_indented_concat t c
    have htrim : trimRight (t ++ [c]) = if isBlank c then trimRight t else t ++ [c] :=
      Text.dropRightWhile_concat isBlank t c
    cases hc : isBlank c with
    | true =>
      rw [htrim, hc, if_pos rfl, ← ih, hconcat, List.append_assoc]
      exact Text.dropRightWhile_append _ (by simpa [or_imp, forall_and, hc] using hgap)
    | false =>
      rw [htrim, hc, if_neg (by simp), hconcat]
      exact (Text.dropRightWhile_concat isBlank _ c).trans (by rw [hc, if_neg (by simp)])

/-- Indented texts with blank lines between them are the indented text of them all. -/
theorem join_indented (ts : List Text) :
    Text.join blankLine (ts.map indented) = indented (Text.join blankLine ts) := by
  by_cases hts : ts = []
  · subst hts
    rfl
  have hlines : lines (Text.join blankLine (ts.map indented)) ++ [[]] =
      lines (indented (Text.join blankLine ts)) ++ [[]] := calc
    _ = (ts.map indented).flatMap fun t => lines t ++ [[]] := Text.lines_join_blank (by simpa)
    _ = (ts.flatMap fun t => lines t ++ [[]]).map (Text.indentLine (Text.spaces 4)) := by
      simp [List.flatMap_map, List.map_flatMap, lines_indented, Text.indentLine]
    _ = (lines (Text.join blankLine ts) ++ [[]]).map (Text.indentLine (Text.spaces 4)) := by
      rw [← Text.lines_join_blank hts]
      rfl
    _ = _ := by simp [lines_indented, Text.indentLine]
  rw [← Text.unlines_lines (Text.join blankLine (ts.map indented)), List.append_cancel_right hlines,
    Text.unlines_lines]

/-! ## Sequences of code blocks -/

/-- Code blocks without languages, by their contents and metadata. -/
def codes (blocks : List (String × Metadata)) : List Node :=
  blocks.map fun block => .codeBlock block.1 none block.2

/-- The contents of code blocks. -/
def contents (blocks : List (String × Metadata)) : List Text :=
  blocks.map fun block => block.1.toList

/-- Code that is not blank, without carriage returns and without a line feed at its end. -/
def IsPlainCode (content : Text) : Prop :=
  Text.trim content ≠ [] ∧ '\r' ∉ content ∧ content.getLast? ≠ some '\n'

instance (content : Text) : Decidable (IsPlainCode content) :=
  inferInstanceAs (Decidable (_ ∧ _ ∧ _))

theorem IsPlainCode.ne_nil (h : IsPlainCode content) : content ≠ [] := by
  rintro rfl
  exact h.1 rfl

/-- Plain code as the options have it. -/
def plainCode (o : Options) (content : Text) : Text :=
  if o.useFences then fencedCode o [] content else indented content

theorem text_codeBlock {s : String} (h : IsPlainCode s.toList) (o : Options) (marker : Text)
    (metadata : Metadata) :
    (fragment o { marker } (.codeBlock s none metadata)).text = plainCode o s.toList := by
  have hvisible : (Text.trim s.toList).isEmpty = false := by simpa using h.1
  have hclosed : Text.dropRightWhile (· = '\n') s.toList = s.toList := by
    refine Text.dropRightWhile_eq_self fun c hc => ?_
    rw [decide_eq_false_iff_not]
    rintro rfl
    exact h.2.2 hc
  rw [fragment, codeBlock, isIndentedCode, hvisible, plainCode, indentedCode_eq, hclosed]
  cases o.useFences <;> rfl

theorem verbatimAll_codes (blocks : List (String × Metadata)) :
    Node.verbatimAll (codes blocks) = blocks.map Prod.fst := by
  induction blocks with
  | nil => rfl
  | cons block blocks ih =>
    rw [codes, List.map_cons, Node.verbatimAll, ← codes, ih]
    rfl

theorem lacksReturns_codes {blocks : List (String × Metadata)}
    (h : ∀ t ∈ contents blocks, IsPlainCode t) (metadata : Metadata) :
    (Node.document (codes blocks) metadata).LacksReturns := by
  intro s hs
  rw [Node.verbatim, verbatimAll_codes] at hs
  obtain ⟨block, hblock, rfl⟩ := List.mem_map.mp hs
  exact (h _ (List.mem_map.mpr ⟨block, hblock, rfl⟩)).2.1

/-- **A document of code blocks** is their texts with blank lines between them, trimmed. -/
theorem render_codes {blocks : List (String × Metadata)}
    (h : ∀ t ∈ contents blocks, IsPlainCode t) (o : Options) (metadata : Metadata) :
    render o (.document (codes blocks) metadata) =
      trimRight (Text.join blankLine ((contents blocks).map (plainCode o))) ++ ['\n'] := by
  have hreturns := not_mem_body (lacksReturns_codes h metadata) o
  rw [render, finish, Text.normalizeLineEnds_eq_self hreturns]
  have hlists : ∀ n ∈ codes blocks, isList n = false := by
    intro n hn
    obtain ⟨block, -, rfl⟩ := List.mem_map.mp hn
    rfl
  have htexts : siblingTexts o [o.bulletMarker.char] (codes blocks) =
      (contents blocks).map (plainCode o) := by
    rw [siblingTexts_of_no_lists hlists, codes, contents, List.map_map, List.map_map]
    refine List.map_congr_left fun block hblock => ?_
    exact text_codeBlock (h _ (List.mem_map.mpr ⟨block, hblock, rfl⟩)) o _ block.2
  have hvisible : ∀ t ∈ siblingTexts o [o.bulletMarker.char] (codes blocks),
      (!t.isEmpty) = true := by
    rw [siblingTexts_of_no_lists hlists]
    intro t ht
    obtain ⟨n, hn, rfl⟩ := List.mem_map.mp ht
    obtain ⟨block, -, rfl⟩ := List.mem_map.mp hn
    simp [fragment, codeBlock_ne_nil]
  rw [body, fragment, blocksAfter_none, List.filter_eq_self.mpr hvisible, htexts]

theorem contents_inj {xs ys : List (String × Metadata)} :
    contents xs = contents ys ↔ xs.map Prod.fst = ys.map Prod.fst := by
  have hcontents : ∀ blocks : List (String × Metadata),
      contents blocks = (blocks.map Prod.fst).map String.toList := by simp [contents]
  rw [hcontents, hcontents]
  exact (List.map_injective_iff.mpr fun s t h => String.toList_inj.mp h).eq_iff

/-- Joined texts are trimmed already if each of them is. -/
theorem trimRight_join {ts : List Text} (h : ∀ t ∈ ts, isBare t.getLast? = true) (sep : Text) :
    trimRight (Text.join sep ts) = Text.join sep ts := by
  rcases List.eq_nil_or_concat ts with rfl | ⟨before, last, hconcat⟩
  · rfl
  rw [List.concat_eq_append] at hconcat
  subst hconcat
  have hlast := h last (by simp)
  refine Text.dropRightWhile_eq_self fun c hc => ?_
  rw [Text.getLast?_join sep before (by rintro rfl; cases hlast)] at hc
  simpa [hc, isBare] using hlast

/-- Fenced code ends with its fence. -/
theorem isBare_getLast?_fenced (o : Options) (info content : Text) :
    isBare (fencedCode o info content).getLast? = true := by
  have hchar : isBlank (fenceChar o info) = false := by
    rw [fenceChar]
    split
    · decide
    · cases o.codeFenceChar <;> decide
  have hfence : (fence [fenceChar o info] 3 content).getLast? = some (fenceChar o info) := by
    rw [fence, Text.repeated, List.flatten_replicate_singleton, List.getLast?_replicate,
      if_neg (by omega)]
  have hne : fence [fenceChar o info] 3 content ≠ [] := by
    intro hnil
    simp [hnil] at hfence
  have hlast : (fencedCode o info content).getLast? = some (fenceChar o info) := by
    simp only [fencedCode]
    rw [List.getLast?_append_of_ne_nil _ hne, hfence]
  rw [hlast, isBare, hchar]
  rfl

/-! ## What the text shows -/

section Shown

variable {o : Options} {ts us : List Text}

theorem eq_of_fenced (ho : o.useFences = true) (hts : ∀ t ∈ ts, IsPlainCode t)
    (hus : ∀ u ∈ us, IsPlainCode u)
    (h : trimRight (Text.join blankLine (ts.map (plainCode o))) =
      trimRight (Text.join blankLine (us.map (plainCode o)))) : ts = us := by
  have hplain : plainCode o = fencedCode o [] := by
    funext content
    rw [plainCode, if_pos ho]
  have hbare : ∀ {vs : List Text}, ∀ t ∈ vs.map (fencedCode o []), isBare t.getLast? = true := by
    intro vs t ht
    obtain ⟨v, -, rfl⟩ := List.mem_map.mp ht
    exact isBare_getLast?_fenced o [] v
  rw [hplain, trimRight_join hbare, trimRight_join hbare] at h
  exact eq_of_join_blank_eq (selfDelimiting_fenced o) (fun t _ => by simp [fencedCode])
    (fun t ht => ⟨(hts t ht).ne_nil, (hts t ht).2.2⟩)
    (fun u hu => ⟨(hus u hu).ne_nil, (hus u hu).2.2⟩) h

/-- Indenting keeps apart what is apart, and adds nothing. -/
theorem indented_eq_iff (ho : o.useFences = false) :
    trimRight (Text.join blankLine (ts.map (plainCode o))) =
        trimRight (Text.join blankLine (us.map (plainCode o))) ↔
      trimRight (Text.join blankLine ts) = trimRight (Text.join blankLine us) := by
  have hplain : plainCode o = indented := by
    funext content
    rw [plainCode, if_neg (by simp [ho])]
  rw [hplain, join_indented, join_indented, trimRight_indented, trimRight_indented]
  exact indented_injective.eq_iff

/-- Code without empty lines is cut where the blank lines are. -/
theorem eq_of_no_empty_line (hts : ∀ t ∈ ts, [] ∉ lines t ∧ isBare t.getLast? = true)
    (hus : ∀ u ∈ us, [] ∉ lines u ∧ isBare u.getLast? = true)
    (h : trimRight (Text.join blankLine ts) = trimRight (Text.join blankLine us)) : ts = us := by
  have hcut : SelfDelimiting (fun t : Text => lines t ++ [[]]) fun t => [] ∉ lines t := by
    intro t u ht hu r s heq
    obtain ⟨hlines, hrest⟩ := cut_unique ht hu (by simpa using heq)
    exact ⟨by rw [← Text.unlines_lines t, hlines, Text.unlines_lines], hrest⟩
  rw [trimRight_join fun t ht => (hts t ht).2, trimRight_join fun u hu => (hus u hu).2] at h
  refine eq_of_join_blank_eq (f := id) hcut ?_ (fun t ht => (hts t ht).1) (fun u hu => (hus u hu).1)
    (by simpa using h)
  rintro t ht rfl
  exact ht (by simp [Text.lines_of_not_mem])

end Shown

theorem grammatical_codes (blocks : List (String × Metadata)) (metadata : Metadata) :
    (Node.document (codes blocks) metadata).Grammatical := by
  have hcode : ∀ n ∈ codes blocks, n.isBlock = true ∧ n.Grammatical := by
    intro n hn
    obtain ⟨block, -, rfl⟩ := List.mem_map.mp hn
    exact ⟨rfl, trivial⟩
  exact ⟨fun n hn => (hcode n hn).1, (Node.allGrammatical_iff _).mpr fun n hn => (hcode n hn).2⟩

/-- **Which code blocks a text shows.** Documents of code blocks without languages are written. With
fences they are written alike only if their contents are the same. Indented, they are written alike
exactly if their contents, joined by blank lines and trimmed at the end, are; so their contents are
the same if none of these has an empty line or ends in white space. -/
theorem codes_are_told_apart (o : Options) {xs ys : List (String × Metadata)}
    (hxs : ∀ t ∈ contents xs, IsPlainCode t) (hys : ∀ t ∈ contents ys, IsPlainCode t)
    (m m' : Metadata) :
    let x := Node.document (codes xs) m
    let y := Node.document (codes ys) m'
    let joined := fun blocks => trimRight (Text.join ['\n', '\n'] (contents blocks))
    write? o x = some (render o x) ∧ write? o y = some (render o y) ∧
    (o.useFences = true → render o x = render o y → xs.map Prod.fst = ys.map Prod.fst) ∧
    (o.useFences = false → (render o x = render o y ↔ joined xs = joined ys)) ∧
    ((∀ t ∈ contents (xs ++ ys), [] ∉ lines t ∧ isBare t.getLast? = true) →
      render o x = render o y → xs.map Prod.fst = ys.map Prod.fst) := by
  intro x y joined
  have hwrite : ∀ {n : Node}, n.Grammatical → write? o n = some (render o n) := fun hn =>
    write?_of_problems_eq_nil o ((Node.problems_eq_nil_iff _).mpr hn)
  have hsame : render o x = render o y ↔
      trimRight (Text.join blankLine ((contents xs).map (plainCode o))) =
        trimRight (Text.join blankLine ((contents ys).map (plainCode o))) := by
    rw [render_codes hxs, render_codes hys, List.append_left_inj]
  have hfenced : o.useFences = true → render o x = render o y →
      xs.map Prod.fst = ys.map Prod.fst := fun ho h =>
    contents_inj.mp (eq_of_fenced ho hxs hys (hsame.mp h))
  refine ⟨hwrite (grammatical_codes xs m), hwrite (grammatical_codes ys m'), hfenced, ?_, ?_⟩
  · exact fun ho => hsame.trans (indented_eq_iff ho)
  · intro hgap h
    cases ho : o.useFences with
    | true => exact hfenced ho h
    | false =>
      have hboth : contents (xs ++ ys) = contents xs ++ contents ys := List.map_append
      rw [hboth] at hgap
      exact contents_inj.mp (eq_of_no_empty_line (fun t ht => hgap t (List.mem_append_left _ ht))
        (fun u hu => hgap u (List.mem_append_right _ hu)) ((indented_eq_iff ho).mp (hsame.mp h)))

/-- Two code blocks. -/
def twoCodes : List (String × Metadata) :=
  [("a", []), ("b", [])]

/-- A code block with a blank line between the same lines. -/
def oneCode : List (String × Metadata) :=
  [("a\n\nb", [])]

theorem fences_part_codes :
    (∀ t ∈ contents twoCodes, IsPlainCode t) ∧ (∀ t ∈ contents oneCode, IsPlainCode t) ∧
    render {} (.document (codes twoCodes)) ≠ render {} (.document (codes oneCode)) ∧
    render { useFences := false } (.document (codes twoCodes)) =
      render { useFences := false } (.document (codes oneCode)) := by
  have htwo : ∀ t ∈ contents twoCodes, IsPlainCode t := by decide +kernel
  have hone : ∀ t ∈ contents oneCode, IsPlainCode t := by decide +kernel
  refine ⟨htwo, hone, fun h => ?_, ?_⟩
  · have heq := (codes_are_told_apart {} htwo hone [] []).2.2.1 rfl h
    exact absurd heq (by decide)
  · exact ((codes_are_told_apart { useFences := false } htwo hone [] []).2.2.2.1 rfl).mpr
      (by decide +kernel)

/-- Two indented code blocks are written like one with a blank line in it, although none of these
codes starts or ends in white space. -/
theorem indented_codes_run_together :
    let o : Options := { useFences := false }
    (∀ t ∈ contents twoCodes ++ contents oneCode, IsPlainCode t ∧ Text.trim t = t) ∧
    write? o (.document (codes twoCodes)) = some "    a\n\n    b\n".toList ∧
    write? o (.document (codes oneCode)) = some "    a\n\n    b\n".toList ∧
    twoCodes.length ≠ oneCode.length := by
  refine ⟨?_, ?_, ?_, ?_⟩ <;> decide +kernel

end DocumentTree.Markdown
