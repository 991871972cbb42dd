import DocumentTree.Markdown.Render
import DocumentTree.Proofs.Markdown.BlockStarts
import DocumentTree.Proofs.Number.Digits
import DocumentTree.Proofs.Text.Lines

/-!
# Where line ends come from

Each function that writes a part of a document adds no line ends to what it is given, but for those
that put lines together, which add line feeds. Running text and code spans lose theirs.

## Main definitions

* `Text.IsLineEnd c` — a line feed or a carriage return.
* `Fragment.Lacks c f` — the character is nowhere in a fragment, whatever its neighbours are.
-/

namespace DocumentTree

namespace Text

/-- A line feed or a carriage return. -/
def IsLineEnd (c : Char) : Prop :=
  c = '\n' ∨ c = '\r'

instance (c : Char) : Decidable (IsLineEnd c) :=
  inferInstanceAs (Decidable (c = '\n' ∨ c = '\r'))

variable {c : Char} {t : Text}

theorem IsLineEnd.ne {d : Char} (hc : IsLineEnd c) (hd : ¬ IsLineEnd d) : c ≠ d := by
  rintro rfl
  exact hd hc

/-- What is no white space ends no line. -/
theorem not_isLineEnd (hc : isBlank c = false) : ¬ IsLineEnd c := by
  rintro (rfl | rfl) <;> exact absurd hc (by decide)

theorem not_mem_spaces (hc : c ≠ ' ') (n : Nat) : c ∉ spaces n := by
  simp [spaces, hc]

theorem not_mem_repeated (ht : c ∉ t) (n : Nat) : c ∉ repeated n t := by
  simp [repeated, ht]

theorem not_mem_join {sep : Text} {ts : List Text} (hsep : c ∉ sep) (h : ∀ t ∈ ts, c ∉ t) :
    c ∉ join sep ts := by
  induction ts with
  | nil => simp [join]
  | cons t ts ih =>
    have hrest : c ∉ join sep ts := ih fun u hu => h u (by simp [hu])
    cases ts with
    | nil => exact h t (by simp)
    | cons u ts => simp [join, hsep, h t (by simp), hrest]

theorem not_mem_unlines {ts : List Text} (hc : c ≠ '\n') (h : ∀ t ∈ ts, c ∉ t) :
    c ∉ unlines ts :=
  not_mem_join (by simpa using hc) h

theorem mem_join {sep : Text} {ts : List Text} (ht : t ∈ ts) (h : c ∈ t) : c ∈ join sep ts := by
  induction ts with
  | nil => cases ht
  | cons u ts ih =>
    cases ts with
    | nil =>
      obtain rfl : t = u := by simpa using ht
      exact h
    | cons v ts =>
      rcases List.mem_cons.mp ht with rfl | ht
      · simp [join, h]
      · simp [join, ih ht]

/-- The characters of a line are characters of the text. -/
theorem not_mem_line {line : Text} (hline : line ∈ lines t) (h : c ∉ t) : c ∉ line := by
  intro hmem
  rw [← unlines_lines t] at h
  exact h (mem_join hline hmem)

theorem not_mem_indentLine {indent line : Text} (hindent : c ∉ indent) (hline : c ∉ line) :
    c ∉ indentLine indent line := by
  rw [indentLine]
  split <;> simp [hindent, hline]

theorem not_mem_trimRight (h : c ∉ t) : c ∉ trimRight t :=
  fun hmem => h ((trimRight_sublist t).mem hmem)

theorem not_mem_trim (h : c ∉ t) : c ∉ trim t :=
  fun hmem => h ((trim_sublist t).mem hmem)

theorem not_mem_dropRightWhile (p : Char → Bool) (h : c ∉ t) : c ∉ dropRightWhile p t := by
  rw [dropRightWhile_eq]
  exact fun hmem => h ((List.rdropWhile_prefix p t).subset hmem)

theorem not_mem_normalizeLineEnds (t : Text) : '\r' ∉ normalizeLineEnds t := by
  fun_induction normalizeLineEnds t with
  | case1 => simp
  | case2 cs ih => simpa using ih
  | case3 c cs _ ih =>
    split
    · simpa using ih
    · rename_i hc
      simpa [Ne.symm hc] using ih

end Text

namespace Markdown

open Text (IsLineEnd)

variable {c : Char} {t : Text}

/-! ## Leaves -/

theorem not_mem_literal (hc : IsLineEnd c) (o : Options) (t : Text) : c ∉ literal o t := by
  have hcollapsed : c ∉ Text.collapseBlanks t := by
    intro hmem
    have hblank : Text.isRunningBlank c = true := by rcases hc with rfl | rfl <;> decide
    exact hc.ne (by decide) (Text.eq_space_of_mem_collapseBlanks hmem hblank)
  rw [literal]
  split
  · intro hmem
    rcases (escapes_escapeText _).mem hmem with heq | hmem
    · exact hc.ne (by decide) heq
    · exact hcollapsed hmem
  · exact hcollapsed

theorem not_mem_onOneLine (hc : IsLineEnd c) (t : Text) : c ∉ onOneLine t := by
  intro hmem
  obtain ⟨d, hd, heq⟩ := List.mem_map.mp hmem
  split at heq
  · exact hc.ne (by decide) heq.symm
  · rename_i hne
    subst heq
    rcases hc with rfl | rfl
    · exact hne rfl
    · exact Text.not_mem_normalizeLineEnds t hd

theorem not_mem_spanDelimiter {delimiter : Text} (hc : c ≠ ' ') (hdelimiter : c ∉ delimiter)
    (ht : c ∉ t) : c ∉ (spanDelimiter delimiter t).1 ∧ c ∉ (spanDelimiter delimiter t).2 := by
  simp only [spanDelimiter]
  split
  · exact ⟨ht, hdelimiter⟩
  · refine ⟨?_, Text.not_mem_repeated hdelimiter _⟩
    split <;> simp [hc, ht]

theorem not_mem_codeSpan (hc : IsLineEnd c) (t : Text) : c ∉ codeSpan t := by
  have hspace : c ≠ ' ' := hc.ne (by decide)
  have htick : c ∉ ['`'] := by simpa using hc.ne (by decide)
  obtain ⟨hbody, hdelimiter⟩ := not_mem_spanDelimiter hspace htick (not_mem_onOneLine hc t)
  simp only [codeSpan]
  split
  · simp
  · split <;> simp [hspace, hbody, hdelimiter]

theorem not_mem_flatMap {f : Char → Text} (h : ∀ d ∈ t, c ∉ f d) : c ∉ t.flatMap f := by
  intro hmem
  obtain ⟨d, hd, hcd⟩ := List.mem_flatMap.mp hmem
  exact h d hd hcd

theorem not_mem_escapeBrackets (hc : IsLineEnd c) (ht : c ∉ t) : c ∉ escapeBrackets t := by
  have hbackslash : c ≠ '\\' := hc.ne (by decide)
  refine not_mem_flatMap fun d hd => ?_
  have hcd : c ≠ d := fun heq => ht (heq ▸ hd)
  split <;> simp [hbackslash, hcd]

theorem not_mem_escapeAmpersands (hc : IsLineEnd c) (ht : c ∉ t) : c ∉ escapeAmpersands t := by
  have hbackslash : c ≠ '\\' := hc.ne (by decide)
  refine not_mem_flatMap fun d hd => ?_
  have hcd : c ≠ d := fun heq => ht (heq ▸ hd)
  split <;> simp [hbackslash, hcd]

theorem not_mem_angled (hc : IsLineEnd c) (ht : c ∉ t) : c ∉ angled t := by
  have hinner : c ∉ t.flatMap (fun d =>
      if d = '<' || d = '>' then ['\\', d] else if d = '\n' then [' '] else [d]) := by
    have hbackslash : c ≠ '\\' := hc.ne (by decide)
    have hspace : c ≠ ' ' := hc.ne (by decide)
    refine not_mem_flatMap fun d hd => ?_
    have hcd : c ≠ d := fun heq => ht (heq ▸ hd)
    split
    · simp [hbackslash, hcd]
    · split <;> simp [hspace, hcd]
  have hopen : c ≠ '<' := hc.ne (by decide)
  have hclose : c ≠ '>' := hc.ne (by decide)
  simp only [angled, List.mem_append, List.mem_singleton, not_or]
  exact ⟨⟨hopen, hinner⟩, hclose⟩

theorem not_mem_destination (hc : IsLineEnd c) (ht : c ∉ t) : c ∉ destination t := by
  have hescaped := not_mem_escapeAmpersands hc ht
  simp only [destination]
  split
  · exact not_mem_angled hc hescaped
  · exact hescaped

theorem not_mem_title (hc : IsLineEnd c) (ht : c ∉ t) : c ∉ title t := by
  have hinner : c ∉ t.flatMap (fun d => if d = '\\' || d = '"' then ['\\', d] else [d]) := by
    have hbackslash : c ≠ '\\' := hc.ne (by decide)
    refine not_mem_flatMap fun d hd => ?_
    have hcd : c ≠ d := fun heq => ht (heq ▸ hd)
    split <;> simp [hbackslash, hcd]
  have hquote : c ≠ '"' := hc.ne (by decide)
  simp only [title, List.mem_append, List.mem_singleton, not_or]
  exact ⟨⟨hquote, hinner⟩, hquote⟩

/-- The target of a link has no line ends but those of its address as written and of its title. -/
theorem not_mem_target_of_destination (hc : IsLineEnd c) {url : String} {t : Option String}
    (hurl : c ∉ destination url.toList) (ht : ∀ s, t = some s → c ∉ s.toList) :
    c ∉ target url t := by
  have htitle : c ∉ titlePart t := by
    cases t with
    | none => simp [titlePart]
    | some s =>
      have hspace : c ≠ ' ' := hc.ne (by decide)
      rw [titlePart]
      split <;> simp [hspace, not_mem_title hc (ht s rfl)]
  have hopen : c ≠ '(' := hc.ne (by decide)
  have hclose : c ≠ ')' := hc.ne (by decide)
  simp [target, hopen, hclose, hurl, htitle]

/-- The target of a link has no line ends but those of its strings. -/
theorem not_mem_target (hc : IsLineEnd c) {url : String} {t : Option String}
    (hurl : c ∉ url.toList) (ht : ∀ s, t = some s → c ∉ s.toList) : c ∉ target url t :=
  not_mem_target_of_destination hc (not_mem_destination hc hurl) ht

/-! ## Fragments -/

theorem not_mem_wrap {marker inner : Text} (hmarker : c ∉ marker) (hinner : c ∉ inner) :
    c ∉ wrap marker inner := by
  have hleading : c ∉ Text.leadingBlanks inner := fun hmem =>
    hinner ((List.takeWhile_sublist _).mem hmem)
  have htrailing : c ∉ Text.trailingBlanks inner := fun hmem =>
    hinner ((List.drop_sublist _ _).mem hmem)
  have hcore : c ∉ Text.trim inner := Text.not_mem_trim hinner
  simp only [wrap]
  split <;> simp [hinner, hleading, htrailing, hcore, hmarker]

/-- A character is nowhere in a fragment, whichever form its neighbours give it. -/
def Fragment.Lacks (c : Char) (f : Fragment) : Prop :=
  c ∉ f.text ∧ ∀ asterisks, f.kind = .stress asterisks → c ∉ asterisks

theorem lacks_stressed {inner : Text} (hc : IsLineEnd c) (mark : Stress) (width : Nat)
    (h : c ∉ inner) : (stressed mark width inner).Lacks c := by
  have hwrap : ∀ mark : Stress, c ∉ wrap (List.replicate width mark.char) inner := by
    intro mark
    have hmark : c ≠ mark.char := by cases mark <;> exact hc.ne (by decide)
    exact not_mem_wrap (by simp [hmark]) h
  refine ⟨hwrap mark, fun asterisks heq => ?_⟩
  obtain rfl : wrap (List.replicate width Stress.star.char) inner = asterisks := by
    simpa [stressed] using heq
  exact hwrap .star

theorem not_mem_settled (hc : IsLineEnd c) {f : Fragment} (h : f.Lacks c) (o : Options)
    (previous : Option Char) (following : Option Fragment) :
    c ∉ f.settled o previous following := by
  have hbackslash : c ≠ '\\' := hc.ne (by decide)
  have hbang : c ≠ '!' := hc.ne (by decide)
  have hinit : c ∉ f.text.dropLast := fun hmem => h.1 ((List.dropLast_sublist _).mem hmem)
  unfold Fragment.settled
  split
  · rename_i asterisks hkind
    split
    · exact h.2 asterisks hkind
    · exact h.1
  · split
    · simp [hinit, hbackslash, hbang]
    · exact h.1
  · exact h.1

theorem not_mem_settle (hc : IsLineEnd c) (o : Options) {fs : List Fragment}
    (h : ∀ f ∈ fs, f.Lacks c) (previous : Option Char) : ∀ t ∈ settle o previous fs, c ∉ t := by
  induction fs generalizing previous with
  | nil => simp [settle]
  | cons f fs ih =>
    intro t ht
    rw [settle] at ht
    rcases List.mem_cons.mp ht with rfl | ht
    · exact not_mem_settled hc (h f (by simp)) o previous _
    · exact ih (fun g hg => h g (by simp [hg])) _ t ht

/-- Neighbours add no line ends to fragments. -/
theorem not_mem_joinFragments (hc : IsLineEnd c) {fs : List Fragment} (h : ∀ f ∈ fs, f.Lacks c)
    (o : Options) : c ∉ joinFragments o fs := by
  intro hmem
  obtain ⟨t, ht, hct⟩ := List.mem_flatten.mp hmem
  exact not_mem_settle hc o (fun f hf => h f (List.mem_of_mem_filter hf)) none t ht hct

/-! ## Lines of blocks -/

theorem not_mem_escapeBlockStart (hc : IsLineEnd c) (h : c ∉ t) : c ∉ escapeBlockStart t := by
  have hbackslash : c ≠ '\\' := hc.ne (by decide)
  rcases escapeBlockStart_cases t with ⟨heq, -⟩ | ⟨digits, d, rest, hline, -, -, heq⟩
  · rwa [heq]
  · rw [hline] at h
    rw [heq]
    simpa [hbackslash] using h

theorem not_mem_escapeClosingHashes (hc : IsLineEnd c) (h : c ∉ t) :
    c ∉ escapeClosingHashes t := by
  have hbackslash : c ≠ '\\' := hc.ne (by decide)
  rcases escapeClosingHashes_cases t with heq | ⟨before, rest, rfl, -, heq⟩
  · rwa [heq]
  · rw [heq]
    simpa [hbackslash] using h

theorem not_mem_escapePipes (hc : IsLineEnd c) (h : c ∉ t) : c ∉ escapePipes t := by
  have hbackslash : c ≠ '\\' := hc.ne (by decide)
  have hafter : ∀ previous, c ∉ escapePipesAfter previous t := by
    induction t with
    | nil => simp [escapePipesAfter]
    | cons d t ih =>
      intro previous
      rw [List.mem_cons, not_or] at h
      rw [escapePipesAfter]
      split <;> simp [hbackslash, h.1, ih h.2]
  exact hafter none

theorem not_mem_heading (hc : IsLineEnd c) (level : HeadingLevel) (h : c ∉ t) :
    c ∉ heading level t := by
  have hhash : c ≠ '#' := hc.ne (by decide)
  have hspace : c ≠ ' ' := hc.ne (by decide)
  simp only [heading]
  split <;> simp [hhash, hspace, h]

theorem not_mem_paragraph (hc : IsLineEnd c) (o : Options) (h : c ∉ t) : c ∉ paragraph o t := by
  simp only [paragraph]
  split
  · exact not_mem_escapeBlockStart hc (Text.not_mem_trim h)
  · exact Text.not_mem_trim h

theorem not_mem_cellContent (hc : IsLineEnd c) (o : Options) (h : c ∉ t) :
    c ∉ cellContent o t := by
  simp only [cellContent]
  split
  · exact not_mem_escapePipes hc (Text.not_mem_trim h)
  · exact Text.not_mem_trim h

theorem not_mem_row (hc : IsLineEnd c) {texts : List Text} (h : ∀ t ∈ texts, c ∉ t) :
    c ∉ row texts := by
  have hpipe : c ≠ '|' := hc.ne (by decide)
  have hspace : c ≠ ' ' := hc.ne (by decide)
  have hjoin : c ∉ Text.join [' ', '|', ' '] texts :=
    Text.not_mem_join (by simp [hpipe, hspace]) h
  simp [row, hpipe, hspace, hjoin]

theorem not_mem_pad (hc : IsLineEnd c) (column : Column) (h : c ∉ t) : c ∉ pad column t := by
  have hspaces : ∀ n, c ∉ Text.spaces n := Text.not_mem_spaces (hc.ne (by decide))
  unfold pad
  split <;> simp [Text.padLeft, Text.padCenter, Text.padRight, hspaces, h]

theorem not_mem_delimiter (hc : IsLineEnd c) (alignment : Option String) (width : Nat) :
    c ∉ delimiter alignment width := by
  have hcolon : c ≠ ':' := hc.ne (by decide)
  have hdash : c ≠ '-' := hc.ne (by decide)
  have hside : ∀ p : Prop, [Decidable p] → c ∉ (if p then [':'] else []) := by
    intro p _
    split <;> simp [hcolon]
  simp only [delimiter, List.mem_append, List.mem_replicate, not_or, not_and]
  exact ⟨⟨hside _, fun _ => hdash⟩, hside _⟩

theorem not_mem_tableRow (hc : IsLineEnd c) (columns : List Column) {cells : List Cell}
    (h : ∀ cell ∈ cells, c ∉ cell.text) : c ∉ tableRow columns cells := by
  have hat : ∀ i, c ∉ textAt i cells := by
    intro i
    rw [textAt]
    split
    · rename_i cell hcell
      exact h cell (List.mem_of_getElem? hcell)
    · simp
  refine not_mem_row hc fun t ht => ?_
  obtain ⟨⟨column, i⟩, -, rfl⟩ := List.mem_map.mp ht
  exact not_mem_pad hc column (hat i)

theorem not_mem_delimiterRow (hc : IsLineEnd c) (columns : List Column) :
    c ∉ delimiterRow columns := by
  refine not_mem_row hc fun t ht => ?_
  obtain ⟨column, -, rfl⟩ := List.mem_map.mp ht
  exact not_mem_delimiter hc _ _

/-! ## Blocks -/

theorem ne_fenceChar (hc : IsLineEnd c) (o : Options) (info : Text) : c ≠ fenceChar o info := by
  rw [fenceChar]
  split
  · exact hc.ne (by decide)
  · cases o.codeFenceChar <;> exact hc.ne (by decide)

theorem not_mem_codeBlock {o : Options} {placement : Placement} {n : Node} {content : String}
    {language : Option String} (hcontent : '\r' ∉ content.toList)
    (hlanguage : ∀ s, language = some s → '\r' ∉ s.toList) :
    '\r' ∉ codeBlock o placement n content language := by
  have hinfo : '\r' ∉ (language.getD "").toList := by
    cases language with
    | none => simp
    | some s => exact hlanguage s rfl
  rw [codeBlock]
  split
  · refine Text.not_mem_unlines (by decide) fun t ht => ?_
    obtain ⟨line, hline, rfl⟩ := List.mem_map.mp ht
    exact Text.not_mem_indentLine (Text.not_mem_spaces (by decide) 4)
      (Text.not_mem_line hline (Text.not_mem_dropRightWhile _ hcontent))
  · have hchar := ne_fenceChar (.inr rfl) o (language.getD "").toList
    have hfence : '\r' ∉ fence [fenceChar o (language.getD "").toList] 3 content.toList :=
      Text.not_mem_repeated (by simpa using hchar) _
    have hclosed : '\r' ∉ closeLine content.toList := by
      rw [closeLine]
      split <;> simp [hcontent]
    simp [fencedCode, hfence, hinfo, hclosed]

/-- The number of spaces behind a marker. -/
def padding (o : Options) (marker : Text) : Nat :=
  match o.listIndent with
  | .oneSpace => 1
  | .tabWidth => tabStop - marker.length % tabStop

theorem padding_bounds (o : Options) (marker : Text) :
    1 ≤ padding o marker ∧ padding o marker ≤ tabStop := by
  rw [padding, tabStop]
  split <;> omega

theorem markerText_eq (o : Options) (marker : Text) :
    markerText o marker = marker ++ Text.spaces (padding o marker) := by
  rw [markerText, padding]
  cases o.listIndent with
  | oneSpace => rfl
  | tabWidth =>
    have hwidth : (marker.length + 1 + (tabStop - 1)) / tabStop * tabStop - marker.length =
        tabStop - marker.length % tabStop := by
      simp only [tabStop]
      omega
    simp only [Text.padRight, hwidth]

theorem exists_markerText (o : Options) (marker : Text) :
    ∃ n, markerText o marker = marker ++ Text.spaces n :=
  ⟨_, markerText_eq o marker⟩

theorem not_mem_checkbox (hc : IsLineEnd c) (status : Option String) : c ∉ checkbox status := by
  have hbox : c ∉ ['[', 'x', ']', ' '] ∧ c ∉ ['[', ' ', ']', ' '] := by
    rcases hc with rfl | rfl <;> decide
  unfold checkbox
  split
  · simp
  · split
    · exact hbox.1
    · exact hbox.2

/-- Neither the marker of an item nor its box has line ends. -/
theorem not_mem_itemHead (hc : IsLineEnd c) (o : Options) {marker : Text} (hmarker : c ∉ marker)
    (status : Option String) : c ∉ markerText o marker ++ checkbox status := by
  obtain ⟨n, hn⟩ := exists_markerText o marker
  simp [hn, hmarker, Text.not_mem_spaces (hc.ne (by decide)), not_mem_checkbox hc]

theorem not_mem_integerText (hc : IsLineEnd c) (i : Int) : c ∉ integerText i := by
  have hdigits : ∀ n, c ∉ decimalDigits n := by
    intro n hmem
    have hdigit := isDigit_of_mem_decimalDigits hmem
    rcases hc with rfl | rfl <;> exact absurd hdigit (by decide)
  have hminus : c ≠ '-' := hc.ne (by decide)
  rw [integerText]
  split <;> simp [hdigits, hminus]

theorem not_mem_listMarker (hc : IsLineEnd c) (o : Options) (ordered alternate : Bool)
    (number : Int) : c ∉ listMarker o ordered alternate number := by
  have hbullet : ∀ b : Bullet, c ≠ b.char := by
    rintro (_ | _ | _) <;> exact hc.ne (by decide)
  have hdot : c ≠ '.' := hc.ne (by decide)
  have hparenthesis : c ≠ ')' := hc.ne (by decide)
  cases ordered <;> cases alternate <;>
    simp [listMarker, not_mem_integerText hc, hbullet, hdot, hparenthesis]

theorem not_mem_quote (h : '\r' ∉ t) : '\r' ∉ quote t := by
  refine Text.not_mem_unlines (by decide) fun u hu => ?_
  obtain ⟨line, hline, rfl⟩ := List.mem_map.mp hu
  rw [quoteLine]
  split <;> simp [Text.not_mem_line hline h]

theorem not_mem_item {marker : Text} (hmarker : '\r' ∉ marker) (o : Options)
    (status : Option String) (h : '\r' ∉ t) : '\r' ∉ item o marker status t := by
  have hhead := not_mem_itemHead (.inr rfl) o hmarker status
  simp only [item]
  split
  · exact Text.not_mem_trimRight hhead
  obtain ⟨line, rest, hlines⟩ := List.exists_cons_of_ne_nil (Text.lines_ne_nil t)
  have hline : ∀ l ∈ line :: rest, '\r' ∉ l := fun l hl => Text.not_mem_line (hlines ▸ hl) h
  rw [hlines]
  refine Text.not_mem_unlines (by decide) fun u hu => ?_
  rcases List.mem_cons.mp hu with rfl | hu
  · rw [List.mem_append, not_or]
    exact ⟨hhead, hline line (by simp)⟩
  · obtain ⟨l, hl, rfl⟩ := List.mem_map.mp hu
    exact Text.not_mem_indentLine (Text.not_mem_spaces (by decide) _) (hline l (by simp [hl]))

theorem not_mem_table {rows : List (List Cell)} (h : ∀ row ∈ rows, ∀ cell ∈ row, '\r' ∉ cell.text) :
    '\r' ∉ table rows := by
  have hc : IsLineEnd '\r' := .inr rfl
  unfold table
  split
  · simp
  · simp
  · rename_i header body _
    refine Text.not_mem_unlines (by decide) fun t ht => ?_
    rcases List.mem_cons.mp ht with rfl | ht
    · exact not_mem_tableRow hc _ (h header (by simp))
    rcases List.mem_cons.mp ht with rfl | ht
    · exact not_mem_delimiterRow hc _
    · obtain ⟨cells, hcells, rfl⟩ := List.mem_map.mp ht
      exact not_mem_tableRow hc _ (h cells (by simp [hcells]))

end Markdown

end DocumentTree
