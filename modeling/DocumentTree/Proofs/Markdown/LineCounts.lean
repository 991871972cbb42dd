import DocumentTree.Proofs.Document.LoweredGrammar
import DocumentTree.Proofs.Document.Rules
import DocumentTree.Proofs.Markdown.Characters

/-!
# How many lines blocks take

A heading, a paragraph and a row of a table are written on one line each, and fences add two lines
to those of the code between them. The strings that are written as they are could start further
lines: a title, an alternative text and a language by any line end, and an address by a carriage
return, since its line feeds are written as spaces. Without such line ends the counts are exact.

## Main definitions

* `Node.KeepsLines` — no string of a node starts a line where it is written.
* `codeLines` — the lines of code.
-/

namespace DocumentTree

open Text (IsLineEnd lines normalizeLineEnds)

/-- A string without line ends. -/
def OnOneLine (s : String) : Prop :=
  ∀ c, IsLineEnd c → c ∉ s.toList

namespace Node

mutual

/-- No string of a node, or of a node below it, starts a line where it is written. -/
def KeepsLines : Node → Prop
  | codeBlock _ language _ => ∀ s, language = some s → OnOneLine s
  | link url content title _ =>
    '\r' ∉ url.toList ∧ (∀ s, title = some s → OnOneLine s) ∧ AllKeepLines content
  | image url alternative title _ =>
    '\r' ∉ url.toList ∧ OnOneLine alternative ∧ ∀ s, title = some s → OnOneLine s
  | document children _ | blockQuote children _ | heading _ children _ | paragraph children _
  | list _ children _ _ | listItem children _ _ | table children _ | tableRow children _
  | tableCell children _ _ _ | emphasis children _ | strong children _
  | strikethrough children _ => AllKeepLines children
  | thematicBreak _ | text .. | code .. => True

/-- No string of the nodes, or of nodes below them, starts a line where it is written. -/
def AllKeepLines : List Node → Prop
  | [] => True
  | n :: ns => KeepsLines n ∧ AllKeepLines ns

end

end Node

namespace Markdown

open Node (Contains KeepsLines AllKeepLines Grammatical AllGrammatical RunningText)

variable {c : Char}

/-! ## Inline nodes -/

/-- Between angle brackets, a line feed is written as a space. -/
theorem newline_not_mem_angled (t : Text) : '\n' ∉ angled t := by
  have hinner : '\n' ∉ t.flatMap fun d =>
      if d = '<' || d = '>' then ['\\', d] else if d = '\n' then [' '] else [d] := by
    refine not_mem_flatMap fun d _ => ?_
    by_cases hd : d = '\n'
    · subst hd
      decide
    · split <;> simp [Ne.symm hd]
  simpa [angled] using hinner

/-- No address is written with a line feed. -/
theorem newline_not_mem_destination (t : Text) : '\n' ∉ destination t := by
  simp only [destination]
  split
  · exact newline_not_mem_angled _
  · rename_i hbare
    simp only [needsAngles, Bool.or_eq_true, not_or, List.any_eq_true, not_exists, not_and] at hbare
    intro hmem
    exact (hbare.1.2 '\n' hmem).1.1.1 (by decide)

/-- The target of a link is on one line if its title is and its address has no carriage return. -/
theorem not_mem_target_of_onOneLine (hc : IsLineEnd c) {url : String} {t : Option String}
    (hurl : '\r' ∉ url.toList) (ht : ∀ s, t = some s → OnOneLine s) : c ∉ target url t := by
  have hdestination : c ∉ destination url.toList := by
    rcases hc with rfl | rfl
    · exact newline_not_mem_destination _
    · exact not_mem_destination (.inr rfl) hurl
  exact not_mem_target_of_destination hc hdestination fun s hs => ht s hs c hc

mutual

/-- **An inline node is written without line ends**, whatever its neighbours are. -/
theorem inline_lacks (hc : IsLineEnd c) (o : Options) : (n : Node) → n.isInline = true →
    n.Grammatical → n.KeepsLines → (placement : Placement) → (fragment o placement n).Lacks c
  | .text content _, _, _, _, placement => ⟨not_mem_literal hc o _, nofun⟩
  | .emphasis content _, _, hg, hk, placement | .strong content _, _, hg, hk, placement =>
    lacks_stressed hc _ _ (not_mem_inlines hc o content hg.1 hg.2 hk placement.marker)
  | .strikethrough content _, _, hg, hk, placement => by
    have htilde : c ≠ '~' := hc.ne (by decide)
    have hcontent := not_mem_inlines hc o content hg.1 hg.2 hk placement.marker
    exact ⟨not_mem_wrap (by simp [htilde]) hcontent, nofun⟩
  | .code content _, _, _, _, placement => ⟨not_mem_codeSpan hc _, nofun⟩
  | .link url content t _, _, hg, hk, placement => by
    have hopen : c ≠ '[' := hc.ne (by decide)
    have hclose : c ≠ ']' := hc.ne (by decide)
    have hcontent := not_mem_inlines hc o content hg.1 hg.2 hk.2.2 placement.marker
    have htarget : c ∉ target url t := not_mem_target_of_onOneLine hc hk.1 hk.2.1
    exact ⟨by simp [fragment, hopen, hclose, hcontent, htarget], nofun⟩
  | .image url alternative t _, _, _, hk, placement => by
    have hbang : c ≠ '!' := hc.ne (by decide)
    have hopen : c ≠ '[' := hc.ne (by decide)
    have hclose : c ≠ ']' := hc.ne (by decide)
    have halternative := not_mem_escapeBrackets hc (hk.2.1 c hc)
    have htarget : c ∉ target url t := not_mem_target_of_onOneLine hc hk.1 hk.2.2
    exact ⟨by simp [fragment, hbang, hopen, hclose, halternative, htarget], nofun⟩
  | .document .., h, _, _, _ | .heading .., h, _, _, _ | .paragraph .., h, _, _, _
  | .codeBlock .., h, _, _, _ | .blockQuote .., h, _, _, _ | .list .., h, _, _, _
  | .listItem .., h, _, _, _ | .table .., h, _, _, _ | .tableRow .., h, _, _, _
  | .tableCell .., h, _, _, _ | .thematicBreak _, h, _, _, _ => by cases h

theorem inlines_lack (hc : IsLineEnd c) (o : Options) : (ns : List Node) →
    (∀ n ∈ ns, n.isInline = true) → AllGrammatical ns → AllKeepLines ns → (marker : Text) →
    ∀ f ∈ fragments o marker ns, f.Lacks c
  | [], _, _, _, _ => by simp [fragments]
  | n :: ns, h, hg, hk, marker => by
    rw [fragments, List.forall_mem_cons]
    exact ⟨inline_lacks hc o n (h n (by simp)) hg.1 hk.1 _,
      inlines_lack hc o ns (fun m hm => h m (by simp [hm])) hg.2 hk.2 marker⟩

theorem not_mem_inlines (hc : IsLineEnd c) (o : Options) : (ns : List Node) → RunningText ns →
    AllGrammatical ns → AllKeepLines ns → (marker : Text) →
    c ∉ joinFragments o (fragments o marker ns)
  | ns, h, hg, hk, marker =>
    not_mem_joinFragments hc (inlines_lack hc o ns (fun n hn => (h n hn).1) hg hk marker) o

end

/-! ## Rows and tables -/

/-- The cells of a row are written without line ends. -/
theorem cells_lack (hc : IsLineEnd c) (o : Options) (marker : Text) {nodes : List Node}
    (hnodes : ∀ n ∈ nodes, n.isCell = true) (hg : AllGrammatical nodes) (hk : AllKeepLines nodes) :
    ∀ cell ∈ cells o marker nodes, c ∉ cell.text := by
  induction nodes with
  | nil => simp [cells]
  | cons n nodes ih =>
    rw [List.forall_mem_cons] at hnodes
    rw [cells, List.forall_mem_cons]
    refine ⟨?_, ih hnodes.2 hg.2 hk.2⟩
    cases n with
    | tableCell content alignment span metadata =>
      exact not_mem_cellContent hc o (not_mem_inlines hc o content hg.1.2.1 hg.1.2.2 hk.1 marker)
    | _ => cases hnodes.1

/-- The rows of a table are as many as its nodes, and are written without line ends. -/
theorem rows_lack (hc : IsLineEnd c) (o : Options) (marker : Text) {nodes : List Node}
    (hnodes : ∀ n ∈ nodes, n.isRow = true) (hg : AllGrammatical nodes) (hk : AllKeepLines nodes) :
    (rows o marker nodes).length = nodes.length ∧
      ∀ row ∈ rows o marker nodes, ∀ cell ∈ row, c ∉ cell.text := by
  induction nodes with
  | nil => simp [rows]
  | cons n nodes ih =>
    rw [List.forall_mem_cons] at hnodes
    obtain ⟨hlength, hrows⟩ := ih hnodes.2 hg.2 hk.2
    cases n with
    | tableRow children metadata =>
      rw [rows, List.forall_mem_cons]
      exact ⟨by simp [hlength], cells_lack hc o marker hg.1.1 hg.1.2 hk.1, hrows⟩
    | _ => cases hnodes.1

/-- **A table takes a line for each row and one for its delimiters.** A table without cells is not
written. -/
theorem lines_table {grid : List (List Cell)} (h : ∀ row ∈ grid, ∀ cell ∈ row, '\n' ∉ cell.text)
    (hcolumns : columns grid ≠ []) :
    Text.lines (table grid) =
      (grid.map (tableRow (columns grid))).insertIdx 1 (delimiterRow (columns grid)) := by
  have hc : IsLineEnd '\n' := .inl rfl
  cases grid with
  | nil => exact absurd rfl hcolumns
  | cons header body =>
    obtain ⟨column, rest, heq⟩ := List.exists_cons_of_ne_nil hcolumns
    simp only [table, heq, List.map_cons, List.insertIdx_succ_cons, List.insertIdx_zero]
    refine Text.lines_unlines_of_not_mem (by simp) fun line hline => ?_
    rw [List.mem_cons, List.mem_cons, List.mem_map] at hline
    rcases hline with rfl | rfl | ⟨r, hr, rfl⟩
    · exact not_mem_tableRow hc _ (h header (by simp))
    · exact not_mem_delimiterRow hc _
    · exact not_mem_tableRow hc _ (h r (by simp [hr]))

theorem table_of_columns_eq_nil {grid : List (List Cell)} (h : columns grid = []) :
    table grid = [] := by
  cases grid <;> simp [table, h]

/-! ## Code -/

/-- The lines of code. The line feed that code ends with starts no further line. -/
def codeLines (content : Text) : List Text :=
  if content.isEmpty then [] else lines (Text.cutFinalLineFeed content).1

theorem closeLine_cons {d : Char} {t : Text} (h : t ≠ []) :
    closeLine (d :: t) = d :: closeLine t := by
  obtain ⟨e, u, rfl⟩ := List.exists_cons_of_ne_nil h
  simp only [closeLine, List.isEmpty_cons, Bool.false_or, List.getLast?_cons_cons]
  split <;> rfl

/-- Code is closed before or after its line ends are normalized. -/
theorem normalizeLineEnds_closeLine (t : Text) :
    normalizeLineEnds (closeLine t) = closeLine (normalizeLineEnds t) := by
  fun_induction normalizeLineEnds t with
  | case1 => rfl
  | case2 t ih =>
    by_cases ht : t = []
    · subst ht
      rfl
    · have hnormal : normalizeLineEnds t ≠ [] := Text.normalizeLineEnds_ne_nil ht
      rw [closeLine_cons (by simp), closeLine_cons ht, closeLine_cons hnormal, ← ih]
      rfl
  | case3 d t hpair ih =>
    by_cases ht : t = []
    · subst ht
      by_cases hreturn : d = '\r'
      · subst hreturn
        rfl
      · by_cases hfeed : d = '\n'
        · subst hfeed
          rfl
        · simp [closeLine, hfeed, hreturn, normalizeLineEnds]
    · have hnormal : normalizeLineEnds t ≠ [] := Text.normalizeLineEnds_ne_nil ht
      rw [closeLine_cons ht, closeLine_cons hnormal, ← ih]
      refine Text.normalizeLineEnds_cons fun hd hhead => ?_
      obtain ⟨e, u, rfl⟩ := List.exists_cons_of_ne_nil ht
      -- Closing a line does not change how it starts.
      have he : e = '\n' := by
        simp only [closeLine] at hhead
        split at hhead <;> exact Option.some.inj hhead
      exact hpair u hd (by rw [he])

theorem closeLine_eq {t : Text} (h : t ≠ []) :
    closeLine t = (Text.cutFinalLineFeed t).1 ++ ['\n'] := by
  fun_induction Text.cutFinalLineFeed t with
  | case1 => exact absurd rfl h
  | case2 => rfl
  | case3 d t hfeed body final heq ih =>
    by_cases ht : t = []
    · subst ht
      have hd : d ≠ '\n' := fun hd => hfeed hd rfl
      obtain ⟨rfl, -⟩ := Prod.mk.inj heq
      simp [closeLine, hd]
    · rw [closeLine_cons ht, ih ht, heq]
      rfl

theorem lines_closeLine_append (content rest : Text) :
    lines (closeLine content ++ rest) = codeLines content ++ lines rest := by
  by_cases h : content = []
  · subst h
    rfl
  · have hempty : content.isEmpty = false := by simpa using h
    rw [closeLine_eq h, List.append_assoc, List.singleton_append, Text.lines_append_cons, codeLines,
      hempty]
    rfl

/-- **Fences add two lines to those of the code between them**, once line ends are normalized: the
opening fence stands on a line with the language, and the closing one on a line of its own. -/
theorem lines_fencedCode (o : Options) {info content : Text} (hinfo : ∀ c, IsLineEnd c → c ∉ info) :
    let f := fence [fenceChar o info] 3 content
    lines (normalizeLineEnds (fencedCode o info content)) =
      (f ++ info) :: (codeLines (normalizeLineEnds content) ++ [f]) := by
  intro f
  have hf : ∀ c, IsLineEnd c → c ∉ f := fun c hc =>
    Text.not_mem_repeated (by simpa using ne_fenceChar hc o info) _
  have hopen : ∀ c, IsLineEnd c → c ∉ f ++ info := by
    intro c hc
    simp [hf c hc, hinfo c hc]
  have hnormal : normalizeLineEnds (fencedCode o info content) =
      f ++ info ++ '\n' :: (closeLine (normalizeLineEnds content) ++ f) := by
    have hopening : '\r' ∉ f ++ info ++ ['\n'] := by
      simpa using hopen '\r' (.inr rfl)
    have hhead : f.head? ≠ some '\n' := fun hhead =>
      hf '\n' (.inl rfl) (List.mem_of_mem_head? hhead)
    have hcode : fencedCode o info content =
        (f ++ info ++ ['\n']) ++ (closeLine content ++ f) := by
      simp [fencedCode, f]
    rw [hcode, Text.normalizeLineEnds_append (by simp),
      Text.normalizeLineEnds_append fun _ => hhead, normalizeLineEnds_closeLine,
      Text.normalizeLineEnds_eq_self hopening,
      Text.normalizeLineEnds_eq_self (hf '\r' (.inr rfl))]
    simp
  rw [hnormal, Text.lines_append_cons, Text.lines_of_not_mem (hopen '\n' (.inl rfl)),
    lines_closeLine_append, Text.lines_of_not_mem (hf '\n' (.inl rfl))]
  rfl

/-! ## Blocks of a document -/

/-- A node takes the lines that it should, wherever it is placed: a heading, a paragraph, a row and
a cell one line, a table a line for each row and one for the delimiters unless it has no cells, and
fenced code its own lines and two more. -/
def TakesItsLines (o : Options) (placement : Placement) (n : Node) : Prop :=
  let text := (fragment o placement n).text
  match n with
  | .heading .. | .paragraph .. | .tableRow .. | .tableCell .. => ∀ c, IsLineEnd c → c ∉ text
  | .table nodes _ =>
    let grid := rows o placement.marker nodes
    grid.length = nodes.length ∧ '\r' ∉ text ∧ (columns grid = [] → text = []) ∧
      (columns grid ≠ [] → lines text =
        (grid.map (tableRow (columns grid))).insertIdx 1 (delimiterRow (columns grid)))
  | .codeBlock content language _ =>
    (isIndentedCode o n && !placement.fenced) = false →
      let info := (language.getD "").toList
      let f := fence [fenceChar o info] 3 content.toList
      lines (normalizeLineEnds text) =
        (f ++ info) :: (codeLines (normalizeLineEnds content.toList) ++ [f])
  | _ => True

/-- A grammatical node whose strings start no lines takes the lines that it should. -/
theorem takesItsLines (o : Options) (placement : Placement) {n : Node} (hg : n.Grammatical)
    (hk : n.KeepsLines) : TakesItsLines o placement n := by
  have hinlines : ∀ c, IsLineEnd c → ∀ content, RunningText content → AllGrammatical content →
      AllKeepLines content → c ∉ joinFragments o (fragments o placement.marker content) :=
    fun _ hc content h hg hk => not_mem_inlines hc o content h hg hk placement.marker
  cases n with
  | heading level content metadata =>
    intro c hc
    have hcontent := hinlines c hc content hg.1 hg.2 hk
    exact not_mem_heading hc level (not_mem_escapeClosingHashes hc (Text.not_mem_trim hcontent))
  | paragraph content metadata =>
    intro c hc
    -- The content may be an image, so it is not running text.
    have hcontent := inlines_lack hc o content hg.1.1 hg.2 hk placement.marker
    exact not_mem_paragraph hc o (not_mem_joinFragments hc hcontent o)
  | tableCell content alignment span metadata =>
    intro c hc
    exact not_mem_cellContent hc o (hinlines c hc content hg.2.1 hg.2.2 hk)
  | tableRow nodes metadata =>
    intro c hc
    refine not_mem_row hc fun t ht => ?_
    obtain ⟨cell, hcell, rfl⟩ := List.mem_map.mp ht
    exact cells_lack hc o placement.marker hg.1 hg.2 hk cell hcell
  | table nodes metadata =>
    obtain ⟨hlength, hfeeds⟩ := rows_lack (.inl rfl) o placement.marker hg.1 hg.2 hk
    obtain ⟨-, hreturns⟩ := rows_lack (.inr rfl) o placement.marker hg.1 hg.2 hk
    exact ⟨hlength, not_mem_table hreturns, table_of_columns_eq_nil, lines_table hfeeds⟩
  | codeBlock content language metadata =>
    intro hfenced
    have hinfo : ∀ c, IsLineEnd c → c ∉ (language.getD "").toList := by
      intro c hc
      cases language with
      | none => simp
      | some s => exact hk s rfl c hc
    simpa [fragment, codeBlock, hfenced] using lines_fencedCode o hinfo
  | _ => trivial

end Markdown

open Markdown (TakesItsLines)

/-- **The blocks of a lowered document take the lines that they should** where no title, alternative
text or language has a line end and no address a carriage return: whatever the options, the
placement of a block and the other strings are, headings, paragraphs, rows and cells are on one
line, tables have a line for each row and one for the delimiters, and fences add two lines to
code. -/
theorem lowered_blocks_take_their_lines (s : Store) (root : Value) {doc n : Node}
    (h : (s.lower root).result = .ok doc) (hn : doc.Contains n) (hk : n.KeepsLines)
    (o : Markdown.Options) (placement : Markdown.Placement) : TakesItsLines o placement n :=
  Markdown.takesItsLines o placement (hn.grammatical (s.lower_grammatical root h)) hk

/-- An image in a paragraph, and code of two lines. -/
def figure (url alternative title language : String) : List Operation :=
  [.createElement (.str "root") .null, .createElement (.str "paragraph") .null,
    .createElement (.str "image") (.map [("url", .str url), ("alt", .str alternative),
      ("title", .str title)]),
    .createElement (.str "code") (.map [("language", .str language), ("value", .str "x\r\ny")]),
    .appendChild (.int 0) (.int 1), .appendChild (.int 1) (.int 2), .appendChild (.int 0) (.int 3)]

/-- The document of a figure. -/
def figureDocument (url alternative title language : String) : Node :=
  .document [.paragraph [.image url alternative (some title)],
    .codeBlock "x\r\ny" (some language)]

/-- An address may have line feeds, and so may code. -/
theorem figure_takes_its_lines :
    ((Container.run (figure "a\nb" "c" "d" "e")).store.lower (.int 0)).result =
      .ok (figureDocument "a\nb" "c" "d" "e") ∧
    (figureDocument "a\nb" "c" "d" "e").KeepsLines ∧
    TakesItsLines {} { marker := ['-'] } (.paragraph [.image "a\nb" "c" (some "d")]) ∧
    TakesItsLines {} { marker := ['-'] } (.codeBlock "x\r\ny" (some "e")) := by
  have h : ((Container.run (figure "a\nb" "c" "d" "e")).store.lower (.int 0)).result =
      .ok (figureDocument "a\nb" "c" "d" "e") := rfl
  have hline : ∀ {s : String}, s = "c" ∨ s = "d" ∨ s = "e" → OnOneLine s := by
    rintro s (rfl | rfl | rfl) c (rfl | rfl) <;> decide
  have himage : (Node.paragraph [.image "a\nb" "c" (some "d")]).KeepsLines :=
    ⟨⟨by decide, hline (by simp), fun s hs => hline (by simp_all)⟩, trivial⟩
  have hcode : (Node.codeBlock "x\r\ny" (some "e")).KeepsLines := fun s hs => hline (by simp_all)
  have hchild : ∀ n ∈ (figureDocument "a\nb" "c" "d" "e").children,
      (figureDocument "a\nb" "c" "d" "e").Contains n := fun n hn => .inside hn (.self n)
  exact ⟨h, ⟨himage, hcode, trivial⟩,
    lowered_blocks_take_their_lines _ _ h (hchild _ (.head _)) himage _ _,
    lowered_blocks_take_their_lines _ _ h (hchild _ (.tail _ (.head _))) hcode _ _⟩

/-- Line ends in an address, an alternative text, a title and a language start lines. The carriage
return in the address is written as it is and becomes a line feed with the whole text. -/
theorem line_ends_in_figure_start_lines :
    ((Container.run (figure "a\rb" "c\nd" "e\nf" "g\nh")).store.lower (.int 0)).result =
      .ok (figureDocument "a\rb" "c\nd" "e\nf" "g\nh") ∧
    Markdown.render {} (figureDocument "a\rb" "c\nd" "e\nf" "g\nh") =
      "![c\nd](<a\nb> \"e\nf\")\n\n```g\nh\nx\ny\n```\n".toList ∧
    ¬ TakesItsLines {} { marker := ['-'] } (.paragraph [.image "a\rb" "c\nd" (some "e\nf")]) ∧
    ¬ TakesItsLines {} { marker := ['-'] } (.codeBlock "x\r\ny" (some "g\nh")) := by
  refine ⟨rfl, by decide +kernel, fun h => ?_, fun h => ?_⟩
  · exact h '\n' (.inl rfl) (by decide +kernel)
  · exact absurd (h rfl) (by decide +kernel)

end DocumentTree
