import DocumentTree.Proofs.Markdown.ItemRules

/-!
# What is in an item is read back

A reader finds the contents of an item behind its marker, at the column of the first character that
is no space, and takes so many columns off every line. If more than four spaces are there, they are
those of indented code, and the contents start one column behind the marker. The lines of an item
are indented by the marker and its spacing, so the reader finds them as they were, but for an item
that starts with indented code and has more than one space behind its marker: then it takes off too
little.

Fenced code opens at that column too. Only the box of a task can stand before it.

## Main definitions

* `cutMarker`, `readItem` — the marker of an item and the lines in it, as a reader finds them.
* `IsItemMarker marker` — a bullet, or a number of at most nine digits with its delimiter.
* `startsWithCode o ns` — the first of the blocks that has text is indented code.
* `linesAbove`, `boxBefore` — what an item has above one of its blocks, and on the same line.
-/

namespace DocumentTree.Markdown

open Node (Grammatical AllGrammatical AreBlocks)
open Text (lines unlines isBlank)

variable {o : Options} {marker t : Text} {n : Node} {ns : List Node}

/-! ## The reader -/

/-- The characters that end a marker: a bullet, or a delimiter behind digits. -/
def markEnds (digits : Text) : List Char :=
  if digits.isEmpty then ['-', '*', '+'] else ['.', ')']

/-- A bullet, or a number of at most nine digits with its delimiter. -/
def IsItemMarker (marker : Text) : Prop :=
  ∃ digits c, marker = digits ++ [c] ∧ (∀ d ∈ digits, d.isDigit = true) ∧ digits.length ≤ 9 ∧
    c ∈ markEnds digits

/-- The marker that a line starts with, and what is behind it. -/
def cutMarker (line : Text) : Option (Text × Text) :=
  let digits := line.takeWhile Char.isDigit
  match line.dropWhile Char.isDigit with
  | [] => none
  | c :: rest =>
    if digits.length ≤ 9 ∧ c ∈ markEnds digits then some (digits ++ [c], rest) else none

/-- The marker of an item, and the lines in it. The spaces behind the marker are taken off with it,
and the same width off every later line that is not empty. Of more than four spaces only one is. -/
def readItem (ls : List Text) : Option (Text × List Text) := do
  let first ← ls.head?
  let (marker, behind) ← cutMarker first
  let count := (behind.takeWhile (· = ' ')).length
  guard (0 < count)
  let inner ← stripItem (marker ++ Text.spaces (if count ≤ 4 then count else 1)) ls
  return (marker, inner)

theorem markEnds_subset (digits : Text) : markEnds digits ⊆ ['-', '*', '+', '.', ')'] := by
  rw [markEnds]
  split
  · exact List.subset_append_left ['-', '*', '+'] ['.', ')']
  · exact List.subset_append_right ['-', '*', '+'] ['.', ')']

/-- The character behind the digits of a marker is no digit. -/
theorem isDigit_of_mem_markEnds {c : Char} {digits : Text} (h : c ∈ markEnds digits) :
    c.isDigit = false := by
  have hall : ∀ d ∈ ['-', '*', '+', '.', ')'], d.isDigit = false := by simp
  exact hall c (markEnds_subset digits h)

/-- Digits and the character behind them are cut off together, if they are a marker. -/
theorem cutMarker_digits {digits : Text} {c : Char} (hdigits : ∀ d ∈ digits, d.isDigit = true)
    (hc : c.isDigit = false) (rest : Text) : cutMarker (digits ++ c :: rest) =
      if digits.length ≤ 9 ∧ c ∈ markEnds digits then some (digits ++ [c], rest) else none := by
  have htake : (digits ++ c :: rest).takeWhile Char.isDigit = digits := by
    rw [List.takeWhile_append_of_pos hdigits, List.takeWhile_cons_of_neg (by simp [hc]),
      List.append_nil]
  have hdrop : (digits ++ c :: rest).dropWhile Char.isDigit = c :: rest := by
    rw [List.dropWhile_append_of_pos hdigits, List.dropWhile_cons_of_neg (by simp [hc])]
  rw [cutMarker, htake, hdrop]

theorem cutMarker_append (h : IsItemMarker marker) (rest : Text) :
    cutMarker (marker ++ rest) = some (marker, rest) := by
  obtain ⟨digits, c, rfl, hdigits, hlength, hc⟩ := h
  rw [List.append_assoc, List.singleton_append,
    cutMarker_digits hdigits (isDigit_of_mem_markEnds hc), if_pos ⟨hlength, hc⟩]

theorem IsItemMarker.newline_not_mem (h : IsItemMarker marker) : '\n' ∉ marker := by
  obtain ⟨digits, c, rfl, hdigits, -, hc⟩ := h
  intro hmem
  rcases List.mem_append.mp hmem with hmem | hmem
  · exact absurd (hdigits _ hmem) (by decide)
  · obtain rfl := List.mem_singleton.mp hmem
    exact absurd (markEnds_subset digits hc) (by decide)

/-- Where lines are indented by more than is taken off, they keep the rest of it. -/
theorem stripItem_indented (start first : Text) (rest : List Text) (j k : Nat) :
    stripItem (start ++ Text.spaces j) ((start ++ Text.spaces (j + k) ++ first) ::
      rest.map (Text.indentLine (Text.spaces (start ++ Text.spaces (j + k)).length))) =
      some ((Text.spaces k ++ first) :: rest.map (Text.indentLine (Text.spaces k))) := by
  have hfirst : start ++ Text.spaces (j + k) ++ first =
      start ++ Text.spaces j ++ (Text.spaces k ++ first) := by
    simp only [Text.spaces, List.replicate_add, List.append_assoc]
  have hwidth : (start ++ Text.spaces (j + k)).length = (start ++ Text.spaces j).length + k := by
    simp only [Text.spaces, List.length_append, List.length_replicate]
    omega
  have hrest := mapM_map (unindentLine_indentLine_add (start ++ Text.spaces j).length k) rest
  rw [stripItem, hfirst, isPrefixOf?_append, hwidth, hrest]
  rfl

/-! ## How the body of an item starts -/

/-- Whether the first of the blocks that has text is indented code. -/
def startsWithCode (o : Options) (ns : List Node) : Bool :=
  (firstShown o ns).any (isIndentedCode o)

theorem body_of_isIndentedCode (h : isIndentedCode o n = true) :
    ∃ content language m, n = .codeBlock content language m ∧
      body o n = indentedCode content.toList := by
  cases n with
  | codeBlock content language m =>
    exact ⟨content, language, m, rfl, by rw [body, fragment, codeBlock, if_pos (by simp [h])]⟩
  | _ => cases h

theorem isBare_head?_body (hg : n.Grammatical) (hblock : n.isBlock = true) (hne : body o n ≠ [])
    (hcode : isIndentedCode o n = false) : isBare (body o n).head? = true := by
  rcases isBare_head?_block o hg hblock { marker := [o.bulletMarker.char] } hne with
    hbare | ⟨content, language, m, rfl, hindented, -⟩
  · exact hbare
  · rw [hcode] at hindented
    cases hindented

/-- The first line of the body of an item is that of its first block with text. -/
theorem lines_of_firstShown {marker first : Text} {rest : List Text} (hg : AllGrammatical ns)
    (hblocks : AreBlocks ns) (hlines : lines (blocksAfter o marker true none ns) = first :: rest)
    (h : firstShown o ns = some n) : ∃ more, lines (body o n) = first :: more := by
  obtain ⟨-, u, htext, hu⟩ := exists_blocksAfter_eq_append o marker true hg hblocks h
  obtain ⟨line, more, hbody⟩ := List.exists_cons_of_ne_nil (Text.lines_ne_nil (body o n))
  refine ⟨more, ?_⟩
  rcases hu with rfl | ⟨v, rfl⟩
  · rw [htext, List.append_nil, hbody] at hlines
    rw [hbody, (List.cons.inj hlines).1]
  · rw [htext, Text.lines_append_cons, hbody, List.cons_append] at hlines
    rw [hbody, (List.cons.inj hlines).1]

/-- **The spaces that the body of an item starts with** are those of indented code. -/
theorem head_of_lines_body {marker first : Text} {rest : List Text} (hg : AllGrammatical ns)
    (hblocks : AreBlocks ns) (hlines : lines (blocksAfter o marker true none ns) = first :: rest)
    (hfirst : first ≠ []) :
    if startsWithCode o ns then ∃ line, first = Text.spaces 4 ++ line
    else first.takeWhile (· = ' ') = [] := by
  cases hshown : firstShown o ns with
  | none =>
    rw [blocksAfter_of_firstShown_eq_none o marker true hg hblocks hshown] at hlines
    exact absurd (List.cons.inj hlines).1.symm hfirst
  | some n =>
    have hmem := List.mem_of_find?_eq_some hshown
    have hne : body o n ≠ [] := by simpa using List.find?_some hshown
    obtain ⟨more, hbody⟩ := lines_of_firstShown hg hblocks hlines hshown
    rw [startsWithCode, hshown, Option.any_some]
    cases hcode : isIndentedCode o n with
    | true =>
      obtain ⟨content, language, m, -, htext⟩ := body_of_isIndentedCode hcode
      rw [htext, indentedCode_eq, lines_indented] at hbody
      obtain ⟨line, hline, hindent⟩ := List.mem_map.mp (hbody ▸ List.mem_cons_self ..)
      refine ⟨line, ?_⟩
      rw [← hindent, Text.indentLine, if_neg]
      rintro hempty
      rw [Text.indentLine, if_pos hempty] at hindent
      exact hfirst hindent.symm
    | false =>
      have hbare := isBare_head?_body ((Node.allGrammatical_iff ns).mp hg n hmem)
        (hblocks n hmem) hne hcode
      obtain ⟨u, hu⟩ := Text.exists_append_of_lines hbody
      obtain ⟨c, line, rfl⟩ := List.exists_cons_of_ne_nil hfirst
      rw [hu] at hbare
      have hc : c ≠ ' ' := by
        rintro rfl
        cases hbare
      exact List.takeWhile_cons_of_neg (by simpa using hc)

/-! ## The body of an item -/

/-- What a reader finds in the lines of an item, if it takes off a part of the spacing behind the
marker: the lines of the body, with the rest of the spacing before them. -/
theorem readItem_lines (hmarker : IsItemMarker marker) {first : Text} (hfirst : first ≠ [])
    (rest : List Text) {j k : Nat} (hspace : 0 < j + k)
    (hcount : (if j + k + (first.takeWhile (· = ' ')).length ≤ 4
      then j + k + (first.takeWhile (· = ' ')).length else 1) = j) :
    readItem ((marker ++ Text.spaces (j + k) ++ first) ::
      rest.map (Text.indentLine (Text.spaces (marker ++ Text.spaces (j + k)).length))) =
      some (marker, (first :: rest).map (Text.indentLine (Text.spaces k))) := by
  have hbehind : ((Text.spaces (j + k) ++ first).takeWhile (· = ' ')).length =
      j + k + (first.takeWhile (· = ' ')).length := by
    rw [Text.spaces, Text.takeWhile_replicate_append, List.length_append, List.length_replicate]
  have hcut : cutMarker (marker ++ Text.spaces (j + k) ++ first) =
      some (marker, Text.spaces (j + k) ++ first) := by
    rw [List.append_assoc, cutMarker_append hmarker]
  have hindent : Text.indentLine (Text.spaces k) first = Text.spaces k ++ first := by
    rw [Text.indentLine, if_neg (by simpa using hfirst)]
  have hpositive : 0 < j + k + (first.takeWhile (· = ' ')).length := by omega
  simp only [readItem, List.head?_cons, Option.bind_eq_bind, Option.bind_some, hcut, hbehind,
    hcount, guard, hpositive, if_true, stripItem_indented, List.map_cons, hindent]
  rfl

/-- Spacing is of one space, but where markers are filled up to tab stops. -/
theorem padding_eq_one_iff (o : Options) (marker : Text) :
    padding o marker = 1 ↔ (o.listIndent = .tabWidth → marker.length % 4 = 3) := by
  rw [padding]
  cases o.listIndent with
  | oneSpace => simp
  | tabWidth =>
    simp only [tabStop, forall_const]
    omega

theorem map_indentLine_eq_self_iff {first : Text} (hfirst : first ≠ []) (rest : List Text)
    (k : Nat) : (first :: rest).map (Text.indentLine (Text.spaces k)) = first :: rest ↔ k = 0 := by
  constructor
  · intro h
    have hhead := congrArg List.length (List.cons.inj h).1
    rw [Text.indentLine, if_neg (by simpa using hfirst)] at hhead
    simpa [Text.spaces] using hhead
  · rintro rfl
    exact List.map_id'' indentLine_zero _

/-- An item that is no task is its body behind the marker and its spacing, on its first line, and
indented by their width on the others. -/
theorem lines_listItem (hmarker : '\n' ∉ marker) {children : List Node} {m : Metadata}
    {first : Text} {rest : List Text} (hfirst : first ≠ [])
    (hlines : lines (blocksAfter o marker true none children) = first :: rest) :
    lines (fragment o { marker } (.listItem children none m)).text =
      (marker ++ Text.spaces (padding o marker) ++ first) ::
        rest.map (Text.indentLine
          (Text.spaces (marker ++ Text.spaces (padding o marker)).length)) := by
  have hbody : blocksAfter o marker true none children ≠ [] := by
    intro hnil
    rw [hnil] at hlines
    exact hfirst (List.cons.inj hlines).1.symm
  rw [fragment, lines_item o hmarker none hbody hlines, checkbox, List.append_nil, markerText_eq]

/-- **What a reader finds in an item**: the lines of its body. Before those of an item that starts
with indented code is the spacing behind the marker, except for one space. -/
theorem readItem_listItem (hmarker : IsItemMarker marker) {children : List Node} {m : Metadata}
    (hg : (Node.listItem children none m).Grammatical) {first : Text} {rest : List Text}
    (hfirst : first ≠ [])
    (hlines : lines (blocksAfter o marker true none children) = first :: rest) :
    readItem (lines (fragment o { marker } (.listItem children none m)).text) =
      some (marker, (first :: rest).map (Text.indentLine (Text.spaces
        (if startsWithCode o children then padding o marker - 1 else 0)))) := by
  have hstart := head_of_lines_body hg.2.2 hg.2.1 hlines hfirst
  obtain ⟨hone, hfour⟩ := padding_bounds o marker
  rw [lines_listItem hmarker.newline_not_mem hfirst hlines]
  split at hstart
  · rename_i hcode
    -- The spaces of the code are more than a reader takes for spacing.
    obtain ⟨line, hline⟩ := hstart
    have hlong : 4 ≤ (first.takeWhile (· = ' ')).length := by
      rw [hline, Text.spaces, Text.takeWhile_replicate_append]
      simp
    obtain ⟨k, hk⟩ : ∃ k, padding o marker = 1 + k := ⟨padding o marker - 1, by omega⟩
    rw [if_pos hcode, hk, Nat.add_sub_cancel_left]
    exact readItem_lines hmarker hfirst rest (by omega) (if_neg (by omega))
  · rename_i hcode
    rw [if_neg hcode]
    refine readItem_lines (j := padding o marker) (k := 0) hmarker hfirst rest (by omega) ?_
    rw [hstart]
    exact if_pos hfour

/-- **The body of an item is read back.** Of an item that is no task and has text on the first line
of its body, a reader finds the marker and the lines of the body, each of them behind some spaces if
it is not empty. There are none, but for an item that starts with indented code: before its lines
are the spaces behind the marker, except for one. So the lines of the body are found unless an item
that starts with indented code has its marker filled up to a tab stop by more than one space. -/
theorem item_is_read_back_unless_code_is_padded (o : Options) (hmarker : IsItemMarker marker)
    {children : List Node} {m : Metadata} (hg : (Node.listItem children none m).Grammatical)
    (hfirst : (lines (blocksAfter o marker true none children)).head? ≠ some []) :
    let body := blocksAfter o marker true none children
    let read := readItem (lines (fragment o { marker } (.listItem children none m)).text)
    read = some (marker, (lines body).map (Text.indentLine (Text.spaces
      (if startsWithCode o children then padding o marker - 1 else 0)))) ∧
    (read = some (marker, lines body) ↔
      ¬ (startsWithCode o children = true ∧ o.listIndent = .tabWidth ∧ marker.length % 4 ≠ 3)) := by
  intro body read
  obtain ⟨first, rest, hlines⟩ := List.exists_cons_of_ne_nil (Text.lines_ne_nil body)
  rw [hlines, List.head?_cons, ne_eq, Option.some.injEq] at hfirst
  have hread := readItem_listItem (m := m) hmarker hg hfirst hlines
  rw [← hlines] at hread
  refine ⟨hread, ?_⟩
  have hkept : read = some (marker, lines body) ↔
      (if startsWithCode o children then padding o marker - 1 else 0) = 0 := by
    simp only [read, hread]
    rw [hlines, Option.some.injEq, Prod.mk.injEq, map_indentLine_eq_self_iff hfirst]
    exact and_iff_right rfl
  have hpadding := padding_eq_one_iff o marker
  rw [hkept]
  cases startsWithCode o children with
  | false => simp
  | true =>
    have hzero : padding o marker - 1 = 0 ↔ padding o marker = 1 := by
      have := (padding_bounds o marker).1
      omega
    rw [if_pos rfl, hzero, hpadding]
    simp

/-- Code with an empty line, and a paragraph behind it. -/
def codeFirst : Node :=
  .listItem [.codeBlock "a\n\n b" none, .paragraph [.text "c"]] none

/-- A marker of three characters has one space behind it where markers are filled up, so code behind
it is read back. -/
theorem code_is_read_back_behind_one_space :
    let o : Options := { useFences := false, listIndent := .tabWidth }
    (fragment o { marker := "12.".toList } codeFirst).text =
      "12.     a\n\n         b\n    c".toList ∧
    readItem (lines "12.     a\n\n         b\n    c".toList) =
      some ("12.".toList, lines "    a\n\n     b\nc".toList) := by
  intro o
  have hmarker : IsItemMarker "12.".toList :=
    ⟨['1', '2'], '.', rfl, by simp, by decide, by decide⟩
  have hg : codeFirst.Grammatical := (Node.problems_eq_nil_iff _).mp rfl
  have htext : (fragment o { marker := "12.".toList } codeFirst).text =
      "12.     a\n\n         b\n    c".toList := by
    decide +kernel
  have hbody : blocksAfter o "12.".toList true none codeFirst.children =
      "    a\n\n     b\nc".toList := by
    decide +kernel
  have hfirst : (lines (blocksAfter o "12.".toList true none codeFirst.children)).head? ≠
      some [] := by
    rw [hbody]
    decide +kernel
  obtain ⟨-, hread⟩ := item_is_read_back_unless_code_is_padded o hmarker (m := []) hg hfirst
  have hinner := hread.mpr fun h => h.2.2 rfl
  refine ⟨htext, ?_⟩
  rw [← htext, ← hbody]
  exact hinner

/-- Behind a bullet that is filled up to a tab stop, code is read with two more spaces before it. -/
theorem code_behind_padded_bullet_is_misread :
    let o : Options := { useFences := false, listIndent := .tabWidth }
    let code : Node := .codeBlock "a" none
    (Node.document [.list false [.listItem [code] none] 1]).problems = [] ∧
    write? o (.document [.list false [.listItem [code] none] 1]) = some "-       a\n".toList ∧
    IsItemMarker ['-'] ∧ blocksAfter o ['-'] true none [code] = "    a".toList ∧
    readItem (lines "-       a".toList) = some (['-'], ["      a".toList]) ∧
    readItem (lines "-       a".toList) ≠ some (['-'], lines "    a".toList) := by
  refine ⟨rfl, by decide +kernel, ⟨[], '-', rfl, nofun, by decide, by decide⟩, ?_, ?_, ?_⟩
  all_goals decide +kernel

/-! ## Fenced code among the blocks of an item -/

/-- What stands before a block of an item on its first line: the box of a task, if nothing with text
is before the block. -/
def boxBefore (status : Option String) (before : Text) : Text :=
  if before.isEmpty then checkbox status else []

/-- The lines of an item above one of its blocks: the box of a task and the blocks before it, up to
the gap between them and the block. -/
def linesAbove (status : Option String) (before gap : Text) : List Text :=
  if before.isEmpty then [] else lines (checkbox status ++ before ++ gap.dropLast)

theorem boxBefore_eq_nil {status : Option String} {before : Text}
    (h : status = none ∨ before ≠ []) : boxBefore status before = [] := by
  rw [boxBefore]
  split
  · rename_i hbefore
    rw [h.resolve_right (not_not.mpr (List.isEmpty_iff.mp hbefore)), checkbox]
  · rfl

theorem exists_boxBefore_eq {status : Option String} (h : status ≠ none) :
    ∃ u, boxBefore status [] = '[' :: u := by
  obtain ⟨status, rfl⟩ := Option.ne_none_iff_exists'.mp h
  rw [boxBefore, List.isEmpty_nil, if_pos rfl, checkbox]
  split
  · exact ⟨_, rfl⟩
  · exact ⟨_, rfl⟩

theorem newline_not_mem_boxBefore (status : Option String) (before : Text) :
    '\n' ∉ boxBefore status before := by
  rw [boxBefore]
  split
  · exact not_mem_checkbox (.inl rfl) status
  · exact List.not_mem_nil

/-- Blocks with text end on another line than the next one starts. -/
theorem separator_cases (o : Options) (marker : Text) (xs : List Node) (n : Node) :
    let before := blocksAfter o marker true none xs
    let gap := separator o true (predecessorAfter o marker none xs) n
    before = [] ∧ gap = [] ∨ before ≠ [] ∧ ∃ feeds, gap = feeds ++ ['\n'] := by
  intro before gap
  have hbefore : predecessorAfter o marker none xs = none ↔ before = [] :=
    predecessorAfter_eq_none_iff o marker true xs
  cases hprevious : predecessorAfter o marker none xs with
  | none => exact .inl ⟨hbefore.mp hprevious, by simp only [gap, hprevious, separator]⟩
  | some p =>
    refine .inr ⟨fun hnil => ?_, ?_⟩
    · rw [← hbefore, hprevious] at hnil
      cases hnil
    · simp only [gap, hprevious]
      rcases separator_some o true p n with h | h
      · exact ⟨[], h⟩
      · exact ⟨['\n'], h⟩

/-- A block with text stands between what is written before it and what starts on another line. -/
theorem exists_blocksAfter_around (o : Options) (marker : Text) (inItem : Bool) (xs ys : List Node)
    (hne :
      (fragment o (placementAfter o marker (predecessorAfter o marker none xs) n) n).text ≠ []) :
    let previous := predecessorAfter o marker none xs
    ∃ behind, blocksAfter o marker inItem none (xs ++ n :: ys) =
        blocksAfter o marker inItem none xs ++ separator o inItem previous n
          ++ (fragment o (placementAfter o marker previous n) n).text ++ behind ∧
      (behind = [] ∨ ∃ v, behind = '\n' :: v) := by
  intro previous
  have hnext : nextPredecessor o marker previous n =
      some ⟨n, (placementAfter o marker previous n).alternate⟩ := by
    rw [nextPredecessor, if_neg (by simpa using hne)]
  refine ⟨_, ?_, blocksAfter_some_cases o marker inItem
    ⟨n, (placementAfter o marker previous n).alternate⟩ ys⟩
  rw [blocksAfter_append, blocksAfter_cons, hnext]
  simp [hne, previous]

/-- A text is on lines of its own before others that start on another line. -/
theorem exists_lines_append (t : Text) {u : Text} (hu : u = [] ∨ ∃ v, u = '\n' :: v) :
    ∃ below, lines (t ++ u) = lines t ++ below := by
  rcases hu with rfl | ⟨v, rfl⟩
  · exact ⟨[], by simp⟩
  · exact ⟨lines v, Text.lines_append_cons t v⟩

/-- **A block of an item stands on lines of its own**, but for the box of a task before the first
block with text. -/
theorem exists_lines_of_item (o : Options) (hmarker : '\n' ∉ marker) (status : Option String)
    (xs ys : List Node) (m : Metadata)
    (hne :
      (fragment o (placementAfter o marker (predecessorAfter o marker none xs) n) n).text ≠ []) :
    let t := (fragment o (placementAfter o marker (predecessorAfter o marker none xs) n) n).text
    let before := blocksAfter o marker true none xs
    let gap := separator o true (predecessorAfter o marker none xs) n
    ∃ below, stripItem (markerText o marker)
        (lines (fragment o { marker } (.listItem (xs ++ n :: ys) status m)).text) =
      some (linesAbove status before gap ++ lines (boxBefore status before ++ t) ++ below) := by
  intro t before gap
  obtain ⟨behind, hbehind, hstart⟩ := exists_blocksAfter_around o marker true xs ys hne
  have hbody : blocksAfter o marker true none (xs ++ n :: ys) ≠ [] := by
    rw [hbehind]
    simp [hne]
  rw [fragment, stripItem_lines_item o hmarker status hbody, hbehind]
  rcases separator_cases o marker xs n with ⟨hbefore, hgap⟩ | ⟨hbefore, feeds, hgap⟩
  · obtain ⟨below, hbelow⟩ := exists_lines_append (checkbox status ++ t) hstart
    refine ⟨below, ?_⟩
    rw [hgap, hbefore, List.append_nil, List.nil_append, ← List.append_assoc, hbelow]
    simp [before, hbefore, boxBefore, linesAbove]
  · obtain ⟨below, hbelow⟩ := exists_lines_append t hstart
    refine ⟨below, ?_⟩
    have habove : linesAbove status before gap = lines (checkbox status ++ before ++ feeds) := by
      rw [linesAbove, if_neg (by simpa using hbefore), show gap = feeds ++ ['\n'] from hgap,
        List.dropLast_concat]
    have hparts : checkbox status ++ (before ++ (feeds ++ ['\n']) ++ t ++ behind) =
        (checkbox status ++ before ++ feeds) ++ '\n' :: (t ++ behind) := by
      simp
    rw [hgap, hparts, Text.lines_append_cons, hbelow, habove, boxBefore_eq_nil (.inr hbefore),
      List.nil_append, List.append_assoc (lines _)]

/-- The first line of the text of a fence and an info string starts with the fence. -/
theorem exists_lines_fencedCode (o : Options) (info content : Text) :
    let f := fence [fenceChar o info] 3 content
    ∃ opening inside, lines (fencedCode o info content) = opening :: inside ∧ f <+: opening ∧
      inside.getLast? = some f := by
  intro f
  obtain ⟨first, more, hinfo⟩ := List.exists_cons_of_ne_nil (Text.lines_ne_nil info)
  have hfeed : '\n' ∉ f := Text.not_mem_repeated (by simpa using ne_fenceChar (.inl rfl) o info) _
  have hopening : lines (f ++ info) = (f ++ first) :: more :=
    Text.lines_append_of_not_mem hfeed hinfo
  refine ⟨f ++ first, more ++ (codeLines content ++ [f]), ?_, List.prefix_append .., ?_⟩
  · rw [lines_fencedCode_eq_append, hopening, List.cons_append]
  · rw [← List.append_assoc, List.getLast?_concat]

/-- A box is no start of a fence. -/
theorem not_fence_prefix_box (o : Options) (info content u : Text) :
    ¬ fence [fenceChar o info] 3 content <+: '[' :: u := by
  obtain ⟨n, hn, -, -⟩ := exists_fence_eq (fenceChar o info) content
  rw [hn, List.replicate_succ]
  intro hprefix
  have hc := (List.cons_prefix_cons.mp hprefix).1
  rcases fenceChar_cases o info with htilde | ⟨htick, -⟩
  · rw [htilde] at hc
    cases hc
  · rw [htick] at hc
    cases hc

/-- **Fences open where the contents of an item start**, unless the box of a task stands before
them. Without the marker and the width of it, the lines of a fenced block stand in those of its item
behind what is before the block: the first one starts with the fence, and the last one is the fence.
If the item is a task and no block with text is before this one, its box stands on the line of the
opening fence, and no code starts there. Otherwise a reader finds the language and the code, up to
the closing fence, where the language is on one line and does not go on with the fence. -/
theorem fence_opens_at_content_unless_boxed (blank : Char → Bool) (o : Options)
    (hmarker : '\n' ∉ marker) (status : Option String) (xs ys : List Node) (content : String)
    (language : Option String) (m' m : Metadata)
    (hfenced : (isIndentedCode o (.codeBlock content language m') && !(placementAfter o marker
      (predecessorAfter o marker none xs) (.codeBlock content language m')).fenced) = false) :
    let code : Node := .codeBlock content language m'
    let info := (language.getD "").toList
    let f := fence [fenceChar o info] 3 content.toList
    let previous := predecessorAfter o marker none xs
    let before := blocksAfter o marker true none xs
    let above := linesAbove status before (separator o true previous code)
    let boxed := boxBefore status before
    ∃ opening inside below,
      lines (fragment o (placementAfter o marker previous code) code).text = opening :: inside ∧
      f <+: opening ∧ inside.getLast? = some f ∧
      stripItem (markerText o marker)
        (lines (fragment o { marker } (.listItem (xs ++ code :: ys) status m)).text) =
        some (above ++ (boxed ++ opening) :: (inside ++ below)) ∧
      (f <+: boxed ++ opening ↔ status = none ∨ before ≠ []) ∧
      (status ≠ none ∧ before = [] →
        readFenced blank ((boxed ++ opening) :: (inside ++ below)) = none) ∧
      (status = none ∨ before ≠ [] → '\n' ∉ info → info.head? ≠ some (fenceChar o info) →
        readFenced blank ((boxed ++ opening) :: (inside ++ below)) =
          some ⟨info, codeLines content.toList, below⟩) := by
  intro code info f previous before above boxed
  have htext := text_of_fenced hfenced
  obtain ⟨opening, inside, hlines, hopening, hclosing⟩ :=
    exists_lines_fencedCode o info content.toList
  have hne : (fragment o (placementAfter o marker previous code) code).text ≠ [] := by
    simp [code, fragment, codeBlock_ne_nil]
  obtain ⟨below, hstrip⟩ := exists_lines_of_item o hmarker status xs ys m hne
  have hboxed : lines (boxed ++ fencedCode o info content.toList) = (boxed ++ opening) :: inside :=
    Text.lines_append_of_not_mem (newline_not_mem_boxBefore status before) hlines
  refine ⟨opening, inside, below, htext ▸ hlines, hopening, hclosing, ?_, ?_⟩
  · rw [hstrip, htext, hboxed, List.append_assoc, List.cons_append]
  by_cases hplain : status = none ∨ before ≠ []
  · have hempty : boxed = [] := boxBefore_eq_nil hplain
    rw [hempty, List.nil_append]
    refine ⟨iff_of_true hopening hplain, fun h => absurd hplain (by simpa using h),
      fun _ hinfo hfits => ?_⟩
    rw [← List.cons_append, ← hlines]
    exact readFenced_fencedCode_append blank o hinfo hfits content.toList below
  · -- The first character of the line is that of the box.
    have hboth : status ≠ none ∧ before = [] := by simpa using hplain
    obtain ⟨u, hu⟩ := exists_boxBefore_eq hboth.1
    have hboxed : boxed = '[' :: u := by rw [← hu, ← hboth.2]
    have hunfenced : ¬ f <+: boxed ++ opening := by
      rw [hboxed]
      exact not_fence_prefix_box o info content.toList (u ++ opening)
    refine ⟨iff_of_false hunfenced hplain, fun _ => ?_, fun h => absurd h hplain⟩
    simp [hboxed, readFenced]

/-- In a task, code behind a paragraph opens where the contents of the item start. -/
theorem fence_opens_below_box :
    let o : Options := { listIndent := .tabWidth }
    let xs : List Node := [.paragraph [], .paragraph [.text "a"]]
    let code : Node := .codeBlock "b\n\n```" (some "lean")
    let text := "1.  [x] a\n    ````lean\n    b\n\n    ```\n    ````\n    c".toList
    let item : Node := .listItem (xs ++ code :: [.paragraph [.text "c"]]) (some "checked")
    (fragment o { marker := "1.".toList } item).text = text ∧
    ∃ opening rest behind,
      stripItem (markerText o "1.".toList) (lines text) =
        some (["[x] a".toList] ++ opening :: rest) ∧
      "````".toList <+: opening ∧
      readFenced Text.isLineBlank (opening :: rest) =
        some ⟨"lean".toList, [['b'], [], "```".toList], behind⟩ := by
  intro o xs code text item
  have htext : (fragment o { marker := "1.".toList } item).text = text := by
    decide +kernel
  have hbefore : blocksAfter o "1.".toList true none xs ≠ [] := by
    decide +kernel
  have hmarker : '\n' ∉ "1.".toList := by
    decide
  obtain ⟨opening, inside, below, -, -, -, hstrip, hprefix, -, hread⟩ :=
    fence_opens_at_content_unless_boxed Text.isLineBlank o hmarker (some "checked") xs
      [.paragraph [.text "c"]] "b\n\n```" (some "lean") [] [] rfl
  have hfence := hprefix.mpr (.inr hbefore)
  have hfenced := hread (.inr hbefore) (by decide +kernel) (by decide +kernel)
  have hcode : codeLines "b\n\n```".toList = [['b'], [], "```".toList] := by
    decide +kernel
  have hwidth : fence [fenceChar o "lean".toList] 3 "b\n\n```".toList = "````".toList := by
    decide +kernel
  have habove : linesAbove (some "checked") (blocksAfter o "1.".toList true none xs)
      (separator o true (predecessorAfter o "1.".toList none xs) code) = ["[x] a".toList] := by
    decide +kernel
  refine ⟨htext, _, inside ++ below, below, ?_, hwidth ▸ hfence, ?_⟩
  · rw [← habove, ← htext]
    exact hstrip
  · rw [← hcode]
    exact hfenced

/-- The box of a task that has only code in it stands before the opening fence. -/
theorem box_stands_before_fence :
    let code : Node := .codeBlock "a" none
    let text := "- [ ] ```\n  a\n  ```".toList
    (Node.document [.list false [.listItem [code] (some "unchecked")] 1]).problems = [] ∧
    write? {} (.document [.list false [.listItem [code] (some "unchecked")] 1]) =
      some (text ++ ['\n']) ∧
    (fragment {} { marker := ['-'] } code).text = "```\na\n```".toList ∧
    stripItem (markerText {} ['-']) (lines text) = some ["[ ] ```".toList, ['a'], "```".toList] ∧
    ¬ "```".toList <+: "[ ] ```".toList ∧
    readFenced Text.isLineBlank ["[ ] ```".toList, ['a'], "```".toList] = none ∧
    readFenced Text.isLineBlank ["```".toList] = none := by
  refine ⟨rfl, ?_⟩
  decide +kernel

end DocumentTree.Markdown
