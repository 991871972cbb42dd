import DocumentTree.Proofs.Markdown.CodeSequences
import DocumentTree.Proofs.Markdown.LineCounts

/-!
# Fenced code is read back

A reader opens fenced code at a line that starts with three backticks or tildes or more, and goes on
to the first line that is a fence of the same character, not shorter than the opening one. What is
behind the opening fence on its line is the info string, here the language of the code.

The fence is longer than every run of its character in the code, so no line of the code closes it.
The language stands directly behind the opening fence. If it starts with the character of the fence,
the reader takes these characters for more of the fence, and the closing fence is too short for it.
Backticks in a language lead to a fence of tildes, but nothing is done about tildes behind tildes.

## Main definitions

* `closesFence blank c n line` — a line closes a fence of a character and a length.
* `readFenced blank ls` — the fenced code that some lines start with.
-/

namespace DocumentTree.Markdown

open Text (lines)

variable {blank : Char → Bool} {c : Char} {n : Nat} {info content line : Text}
  {inside behind : List Text}

/-! ## The reader -/

/-- Whether a line closes a fence: behind at most three spaces it has at least as many of the same
character, and only blanks behind these. -/
def closesFence (blank : Char → Bool) (c : Char) (n : Nat) (line : Text) : Bool :=
  let indent := line.takeWhile (· = ' ')
  let rest := line.dropWhile (· = ' ')
  indent.length ≤ 3 && n ≤ (rest.takeWhile (· = c)).length && (rest.dropWhile (· = c)).all blank

/-- Fenced code as a reader finds it at the start of some lines. -/
structure FencedBlock where
  /-- What is behind the opening fence on its line. -/
  info : Text
  /-- The lines between the fences. -/
  inside : List Text
  /-- The lines behind the closing fence. -/
  behind : List Text
  deriving DecidableEq

/-- The fenced code that some lines start with. The first line starts with three backticks or tildes
or more; behind backticks there are no others on it. The code ends with the first line that closes
the fence. -/
def readFenced (blank : Char → Bool) : List Text → Option FencedBlock
  | (c :: line) :: rest =>
    let width := ((c :: line).takeWhile (· = c)).length
    let info := line.dropWhile (· = c)
    if 3 ≤ width ∧ (c = '~' ∨ c = '`' ∧ '`' ∉ info) then
      match rest.span fun l => !closesFence blank c width l with
      | (inside, _ :: behind) => some ⟨info, inside, behind⟩
      | (_, []) => none
    else none
  | _ => none

/-! ## Lines that close a fence -/

theorem takeWhile_ne_nil_iff {t : Text} : t.takeWhile (· = c) ≠ [] ↔ t.head? = some c := by
  cases t <;> simp

theorem runs_of_head? {t : Text} (h : t.head? ≠ some c) :
    t.takeWhile (· = c) = [] ∧ t.dropWhile (· = c) = t := by
  cases t <;> simp_all

/-- A fence closes fences that are not longer. -/
theorem closesFence_replicate (hc : c ≠ ' ') (m n : Nat) :
    closesFence blank c m (List.replicate n c) = decide (m ≤ n) := by
  have hindent : (List.replicate n c).takeWhile (· = ' ') = [] ∧
      (List.replicate n c).dropWhile (· = ' ') = List.replicate n c := by
    cases n <;> simp [List.replicate_succ, hc]
  simp [closesFence, hindent]

/-- **No part of a text closes a fence that is longer than its runs.** -/
theorem closesFence_eq_false (hn : longestRun c content < n) (hline : line <:+: content) :
    closesFence blank c n line = false := by
  let rest := line.dropWhile (· = ' ')
  let run := rest.takeWhile (· = c)
  have hrun : List.replicate run.length c = run :=
    (List.eq_replicate_of_mem fun d hd => by simpa using List.mem_takeWhile_imp hd).symm
  have hinfix : List.replicate run.length c <:+: content := by
    rw [hrun]
    exact ((List.takeWhile_prefix _).isInfix.trans (List.dropWhile_suffix _).isInfix).trans hline
  have hlength : run.length ≤ longestRun c content := le_longestRun_of_infix hinfix
  have hshort : run.length < n := hlength.trans_lt hn
  simp [closesFence, rest, run] at hshort ⊢
  omega

/-! ## Opening fences -/

/-- The characters of a fence at the start of an info string are more of the fence. -/
theorem readFenced_replicate (blank : Char → Bool) (c : Char) (n : Nat) (info : Text)
    (rest : List Text) :
    let width := n + 1 + (info.takeWhile (· = c)).length
    readFenced blank ((List.replicate (n + 1) c ++ info) :: rest) =
      if 3 ≤ width ∧ (c = '~' ∨ c = '`' ∧ '`' ∉ info.dropWhile (· = c)) then
        match rest.span fun l => !closesFence blank c width l with
        | (inside, _ :: behind) => some ⟨info.dropWhile (· = c), inside, behind⟩
        | (_, []) => none
      else none := by
  intro width
  have hwidth : ((c :: (List.replicate n c ++ info)).takeWhile (· = c)).length = width := by
    rw [← List.cons_append, ← List.replicate_succ, Text.takeWhile_replicate_append]
    simp [width]
  rw [List.replicate_succ, List.cons_append, readFenced, hwidth, Text.dropWhile_replicate_append]

/-- **Fenced code ends with the first line that closes its fence.** -/
theorem readFenced_eq_some (hwidth : 3 ≤ n + 1) (hc : c = '~' ∨ c = '`' ∧ '`' ∉ info)
    (hinfo : info.head? ≠ some c) (hinside : ∀ l ∈ inside, closesFence blank c (n + 1) l = false)
    (hline : closesFence blank c (n + 1) line = true) :
    readFenced blank ((List.replicate (n + 1) c ++ info) :: (inside ++ line :: behind)) =
      some ⟨info, inside, behind⟩ := by
  obtain ⟨htake, hdrop⟩ := runs_of_head? hinfo
  have hspan : (inside ++ line :: behind).span (fun l => !closesFence blank c (n + 1) l) =
      (inside, line :: behind) := by
    have hopen : ∀ l ∈ inside, (!closesFence blank c (n + 1) l) = true := by simpa using hinside
    rw [List.span_eq_takeWhile_dropWhile, List.takeWhile_append_of_pos hopen,
      List.dropWhile_append_of_pos hopen, List.takeWhile_cons_of_neg (by simp [hline]),
      List.dropWhile_cons_of_neg (by simp [hline]), List.append_nil]
  rw [readFenced_replicate]
  simp only [htake, hdrop, List.length_nil, Nat.add_zero, hspan]
  exact if_pos ⟨hwidth, hc⟩

/-- Where no line closes the fence, there is no end of the code. -/
theorem readFenced_eq_none {rest : List Text}
    (h : ∀ l ∈ rest, closesFence blank c (n + 1 + (info.takeWhile (· = c)).length) l = false) :
    readFenced blank ((List.replicate (n + 1) c ++ info) :: rest) = none := by
  have hspan : rest.span (fun l => !closesFence blank c (n + 1 + (info.takeWhile (· = c)).length) l)
      = (rest, []) := by
    have hopen : ∀ l ∈ rest,
        (!closesFence blank c (n + 1 + (info.takeWhile (· = c)).length) l) = true := by
      simpa using h
    rw [List.span_eq_takeWhile_dropWhile, List.takeWhile_eq_self_iff.mpr hopen,
      List.dropWhile_eq_nil_iff.mpr hopen]
  rw [readFenced_replicate]
  simp only [hspan, ite_self]

/-! ## Code between fences -/

/-- The fence around code is of backticks or tildes, and of backticks only where its language has
none. -/
theorem fenceChar_eq (o : Options) (info : Text) :
    fenceChar o info = if o.codeFenceChar = .backtick ∧ '`' ∉ info then '`' else '~' := by
  rw [fenceChar]
  cases o.codeFenceChar <;> by_cases htick : '`' ∈ info <;> simp [htick, Fence.char]

theorem fenceChar_cases (o : Options) (info : Text) :
    fenceChar o info = '~' ∨ fenceChar o info = '`' ∧ '`' ∉ info := by
  rw [fenceChar_eq]
  split
  · rename_i htick
    exact .inr ⟨rfl, htick.2⟩
  · exact .inl rfl

theorem fence_eq (c : Char) (content : Text) :
    fence [c] 3 content = List.replicate (max 3 (longestRun c content + 1)) c :=
  fence_singleton c 3 content

/-- **The lines of fenced code**: the opening fence with the language, those of the code, and the
closing fence. -/
theorem lines_fencedCode_eq_append (o : Options) (info content : Text) :
    let f := fence [fenceChar o info] 3 content
    lines (fencedCode o info content) = lines (f ++ info) ++ (codeLines content ++ [f]) := by
  intro f
  have hfeed : '\n' ∉ f := Text.not_mem_repeated (by simpa using ne_fenceChar (.inl rfl) o info) _
  have hcode : fencedCode o info content = f ++ info ++ '\n' :: (closeLine content ++ f) := by
    simp [fencedCode, f]
  rw [hcode, Text.lines_append_cons, lines_closeLine_append, Text.lines_of_not_mem hfeed]

theorem lines_fencedCode_of_not_mem (o : Options) (hinfo : '\n' ∉ info) (content : Text) :
    let f := fence [fenceChar o info] 3 content
    lines (fencedCode o info content) = (f ++ info) :: (codeLines content ++ [f]) := by
  intro f
  have hfeed : '\n' ∉ f := Text.not_mem_repeated (by simpa using ne_fenceChar (.inl rfl) o info) _
  rw [lines_fencedCode_eq_append, Text.lines_of_not_mem (by simp [f, hfeed, hinfo])]
  rfl

/-- The lines of code, each ended by a line feed, are the code, with a line feed at its end. -/
theorem flatMap_codeLines (content : Text) :
    (codeLines content).flatMap (· ++ ['\n']) = closeLine content := by
  have hended : ∀ ls : List Text, Text.unlines (ls ++ [[]]) = ls.flatMap (· ++ ['\n']) := by
    intro ls
    induction ls with
    | nil => rfl
    | cons l ls ih =>
      rw [List.cons_append, Text.unlines_cons (by simp), ih]
      simp
  have hlines : lines (closeLine content) = codeLines content ++ [[]] := by
    simpa [lines, Text.splitOn] using lines_closeLine_append content []
  rw [← hended, ← hlines, Text.unlines_lines]

theorem infix_of_mem_codeLines (hline : line ∈ codeLines content) : line <:+: content := by
  rw [codeLines] at hline
  split at hline
  · cases hline
  · have hstart : (Text.cutFinalLineFeed content).1 <+: content :=
      ⟨_, cutFinalLineFeed_append content⟩
    exact (Text.infix_of_mem_lines hline).trans hstart.isInfix

theorem fenceChar_ne_space (o : Options) (info : Text) : fenceChar o info ≠ ' ' := by
  rcases fenceChar_cases o info with h | ⟨h, -⟩ <;> rw [h] <;> decide

/-- No line of code closes the fence around it, or a longer one. -/
theorem closesFence_eq_false_of_mem_codeLines (hn : longestRun c content < n)
    (hline : line ∈ codeLines content) : closesFence blank c n line = false :=
  closesFence_eq_false hn (infix_of_mem_codeLines hline)

theorem exists_fence_eq (c : Char) (content : Text) :
    ∃ n, fence [c] 3 content = List.replicate (n + 1) c ∧ 3 ≤ n + 1 ∧
      longestRun c content < n + 1 := by
  obtain ⟨n, hn⟩ : ∃ n, max 3 (longestRun c content + 1) = n + 1 :=
    ⟨max 3 (longestRun c content + 1) - 1, by omega⟩
  exact ⟨n, by rw [fence_eq, hn], by omega, by omega⟩

/-- **Fenced code is found where its lines stand**, whatever is behind it, if the language does not
go on with the fence. -/
theorem readFenced_fencedCode_append (blank : Char → Bool) (o : Options) (hinfo : '\n' ∉ info)
    (hfits : info.head? ≠ some (fenceChar o info)) (content : Text) (behind : List Text) :
    readFenced blank (lines (fencedCode o info content) ++ behind) =
      some ⟨info, codeLines content, behind⟩ := by
  obtain ⟨n, hn, hwidth, hlong⟩ := exists_fence_eq (fenceChar o info) content
  simp only [lines_fencedCode_of_not_mem o hinfo, hn, List.cons_append, List.append_assoc]
  exact readFenced_eq_some hwidth (fenceChar_cases o info) hfits
    (fun l hl => closesFence_eq_false_of_mem_codeLines hlong hl)
    (by simp [closesFence_replicate (fenceChar_ne_space o info)])

/-- **What a reader finds in fenced code**: the language and the code, where the language does not
go on with the fence, and no end of the code otherwise. -/
theorem readFenced_fencedCode (blank : Char → Bool) (o : Options) (hinfo : '\n' ∉ info)
    (content : Text) :
    readFenced blank (lines (fencedCode o info content)) =
      if info.head? = some (fenceChar o info) then none
      else some ⟨info, codeLines content, []⟩ := by
  split
  · rename_i hextends
    obtain ⟨n, hn, -, hlong⟩ := exists_fence_eq (fenceChar o info) content
    -- The opening fence is longer than the closing one.
    have hlonger : 0 < (info.takeWhile (· = fenceChar o info)).length :=
      List.length_pos_of_ne_nil (takeWhile_ne_nil_iff.mpr hextends)
    simp only [lines_fencedCode_of_not_mem o hinfo, hn]
    refine readFenced_eq_none fun l hl => ?_
    rcases List.mem_append.mp hl with hl | hl
    · exact closesFence_eq_false_of_mem_codeLines (by omega) hl
    · obtain rfl := List.mem_singleton.mp hl
      rw [closesFence_replicate (fenceChar_ne_space o info), decide_eq_false_iff_not]
      omega
  · rename_i hfits
    simpa using readFenced_fencedCode_append blank o hinfo hfits content []

/-! ## Code blocks -/

/-- The text of a code block that is written between fences. -/
theorem text_of_fenced {o : Options} {placement : Placement} {content : String}
    {language : Option String} {m : Metadata}
    (hfenced : (isIndentedCode o (.codeBlock content language m) && !placement.fenced) = false) :
    (fragment o placement (.codeBlock content language m)).text =
      fencedCode o (language.getD "").toList content.toList := by
  rw [fragment, codeBlock, if_neg (by simp [hfenced])]

/-- **The body of fenced code is read back.** A code block without a language that is written
between fences, for whatever reason, is read up to its last line and no further, and the lines
between the fences, each ended by a line feed, are its content, with a line feed at the end. -/
theorem fenced_body_is_read_back (blank : Char → Bool) (o : Options) (placement : Placement)
    (content : String) {language : Option String} (m : Metadata)
    (hlanguage : language = none ∨ language = some "")
    (hfenced : (isIndentedCode o (.codeBlock content language m) && !placement.fenced) = false) :
    let text := (fragment o placement (.codeBlock content language m)).text
    ∃ n inside, 3 ≤ n ∧
      lines text = List.replicate n o.codeFenceChar.char ::
        (inside ++ [List.replicate n o.codeFenceChar.char]) ∧
      readFenced blank (lines text) = some ⟨[], inside, []⟩ ∧
      inside.flatMap (· ++ ['\n']) =
        if content.toList = [] ∨ content.toList.getLast? = some '\n' then content.toList
        else content.toList ++ ['\n'] := by
  intro text
  have htext : text = fencedCode o [] content.toList := by
    rcases hlanguage with rfl | rfl <;> exact text_of_fenced hfenced
  have hchar : fenceChar o [] = o.codeFenceChar.char := by simp [fenceChar]
  refine ⟨max 3 (longestRun o.codeFenceChar.char content.toList + 1), codeLines content.toList,
    by omega, ?_, ?_, ?_⟩
  · rw [htext, lines_fencedCode_of_not_mem o (by simp), fence_eq, hchar, List.append_nil]
  · rw [htext, readFenced_fencedCode blank o (by simp), if_neg (by simp)]
  · simp [flatMap_codeLines, closeLine]

/-- Code of lines that look like fences, behind a list and indented by its options. -/
theorem code_of_fences_is_read_back :
    let o : Options := { useFences := false }
    let text := "````\n```\n   ~~~~ \n\n````".toList
    (fragment o { marker := ['-'], fenced := true } (.codeBlock "```\n   ~~~~ \n\n" none)).text =
      text ∧
    readFenced Text.isLineBlank (lines text) =
      some ⟨[], ["```".toList, "   ~~~~ ".toList, []], []⟩ := by
  intro o text
  have htext : (fragment o { marker := ['-'], fenced := true }
      (.codeBlock "```\n   ~~~~ \n\n" none)).text = text := by
    decide +kernel
  obtain ⟨n, inside, -, hlines, hread, -⟩ := fenced_body_is_read_back Text.isLineBlank o
    { marker := ['-'], fenced := true } "```\n   ~~~~ \n\n" [] (.inl rfl) rfl
  rw [htext] at hlines hread
  have hinside : inside = (lines text).tail.dropLast := by
    rw [hlines, List.tail_cons, List.dropLast_concat]
  rw [htext, hread, hinside]
  decide +kernel

/-- **Languages and fences.** Code with a language on one line is written between fences of `n`
backticks or tildes, and of tildes where the language has a backtick. The language stands behind the
opening fence as it is. If the fence is not of tildes or the language does not start with one, the
opening fence is the closing one, and a reader finds the language and the code, up to the last line.
Otherwise the opening fence goes on in the language, and no line closes it. -/
theorem fence_is_closed_unless_tildes_follow (blank : Char → Bool) (o : Options)
    (placement : Placement) (content : String) (language : Option String) (m : Metadata)
    (hlanguage : '\n' ∉ (language.getD "").toList)
    (hfenced : (isIndentedCode o (.codeBlock content language m) && !placement.fenced) = false) :
    let text := (fragment o placement (.codeBlock content language m)).text
    let info := (language.getD "").toList
    ∃ c n inside, 3 ≤ n ∧ c = (if o.codeFenceChar = .backtick ∧ '`' ∉ info then '`' else '~') ∧
      (c = '`' → '`' ∉ info) ∧
      let opening := List.replicate n c ++ info
      let closing := List.replicate n c
      lines text = opening :: (inside ++ [closing]) ∧
      (¬ (c = '~' ∧ info.head? = some '~') →
        opening.takeWhile (· = c) = closing ∧ opening.dropWhile (· = c) = info ∧
        readFenced blank (lines text) = some ⟨info, inside, []⟩) ∧
      (c = '~' ∧ info.head? = some '~' →
        closing.length < (opening.takeWhile (· = c)).length ∧
        readFenced blank (lines text) = none) := by
  intro text info
  have hlines := lines_fencedCode_of_not_mem o hlanguage content.toList
  have hread := readFenced_fencedCode blank o hlanguage content.toList
  simp only [fence_eq, ← text_of_fenced hfenced] at hlines hread
  have hchar := fenceChar_cases o info
  refine ⟨fenceChar o info, max 3 (longestRun (fenceChar o info) content.toList + 1),
    codeLines content.toList, by omega, fenceChar_eq o info, fun htick => ?_, hlines,
    fun hfits => ?_, fun htilde => ?_⟩
  · rcases hchar with h | ⟨-, h⟩
    · exact absurd (htick.symm.trans h) (by decide)
    · exact h
  · have hhead : info.head? ≠ some (fenceChar o info) := by
      intro h
      rcases hchar with hc | ⟨hc, hinfo⟩
      · exact hfits ⟨hc, hc ▸ h⟩
      · exact hinfo (List.mem_of_mem_head? (hc ▸ h))
    obtain ⟨htake, hdrop⟩ := runs_of_head? hhead
    exact ⟨by rw [Text.takeWhile_replicate_append, htake, List.append_nil],
      by rw [Text.dropWhile_replicate_append, hdrop], hread.trans (if_neg hhead)⟩
  · have hhead : info.head? = some (fenceChar o info) := by rw [htilde.1, htilde.2]
    refine ⟨?_, hread.trans (if_pos hhead)⟩
    have hlonger := List.length_pos_of_ne_nil (takeWhile_ne_nil_iff.mpr hhead)
    rw [Text.takeWhile_replicate_append, List.length_append]
    omega

/-- A language with a backtick is behind a fence of tildes, by default too. -/
theorem language_with_tick_is_behind_tildes :
    let text := (fragment {} { marker := ['-'] } (.codeBlock "~~~\n````" (some "a`b~"))).text
    text = "~~~~a`b~\n~~~\n````\n~~~~".toList ∧
    readFenced Text.isLineBlank (lines text) =
      some ⟨"a`b~".toList, ["~~~".toList, "````".toList], []⟩ := by
  intro text
  have htext : text = "~~~~a`b~\n~~~\n````\n~~~~".toList := by
    decide +kernel
  obtain ⟨c, n, inside, -, -, -, hlines, hclosed, -⟩ :=
    fence_is_closed_unless_tildes_follow Text.isLineBlank {} { marker := ['-'] } "~~~\n````"
      (some "a`b~") [] (by decide) rfl
  have hread := (hclosed fun h => absurd h.2 (by decide)).2.2
  have hinside : inside = (lines text).tail.dropLast := by
    rw [hlines, List.tail_cons, List.dropLast_concat]
  refine ⟨htext, hread.trans ?_⟩
  rw [hinside, htext]
  decide +kernel

/-- Behind a fence of tildes, the tilde of a language makes the opening fence longer than the
closing one. -/
theorem tilde_of_language_extends_fence :
    let o : Options := { codeFenceChar := .tilde }
    let text := "~~~~x\na\n~~~".toList
    write? o (.document [.codeBlock "a" (some "~x")]) = some (text ++ ['\n']) ∧
    lines text = ["~~~~x".toList, ['a'], "~~~".toList] ∧
    ("~~~~x".toList.takeWhile (· = '~')).length ≠ "~~~".toList.length ∧
    closesFence Text.isLineBlank '~' 4 "~~~".toList = false ∧
    readFenced Text.isLineBlank (lines text) = none := by
  decide +kernel

end DocumentTree.Markdown
