import DocumentTree.Proofs.Markdown.CodeSequences
import Mathlib.Data.List.Infix
import Mathlib.Data.List.SplitBy
import Mathlib.Data.List.TakeDrop

/-!
# Code spans are read back

A reader cuts a text where backticks meet other characters. A code span starts with a run of
backticks and ends with the next run of the same length; shorter and longer runs are code. If the
code starts and ends with a space and is not all spaces, the reader takes one space off each end.

The delimiter of a span is longer than every run inside, so no run of the code ends it. What the
reader takes off is what has been put there: against a backtick at an end, or against the reader.

## Main definitions

* `tickRuns t` — a text cut into its maximal runs of backticks and the texts between them.
* `readSpan t` — the code of the span that a text starts with, and the text behind the span.
* `lineEndsAsSpaces t` — a text with a space in place of each line end.
-/

namespace DocumentTree.Markdown

variable {t u body rest : Text}

/-! ## Reading a span -/

/-- A text cut into its maximal runs of backticks and the texts between them. -/
def tickRuns (t : Text) : List Text :=
  t.splitBy fun c d => (c == '`') == (d == '`')

/-- A text starts and ends with a space and is not all spaces. -/
def IsSpaced (t : Text) : Prop :=
  t.head? = some ' ' ∧ t.getLast? = some ' ' ∧ ∃ c ∈ t, c ≠ ' '

instance (t : Text) : Decidable (IsSpaced t) :=
  inferInstanceAs (Decidable (_ ∧ _))

/-- A text as it is inside a span: one space is taken off each end of a spaced text. -/
def stripSpaces (t : Text) : Text :=
  if IsSpaced t then t.tail.dropLast else t

/-- The code of the span that a text starts with, and the text behind the span. The span ends with
the next run of backticks that is the same as the one it starts with. -/
def readSpan (t : Text) : Option (Text × Text) :=
  match tickRuns t with
  | [] => none
  | opening :: pieces =>
    if opening.head? = some '`' then
      match pieces.span (· ≠ opening) with
      | (inner, _ :: behind) => some (stripSpaces inner.flatten, behind.flatten)
      | (_, []) => none
    else none

/-- A text with a space in place of each line end: a carriage return, a line feed, or both. -/
def lineEndsAsSpaces : Text → Text
  | [] => []
  | '\r' :: '\n' :: cs => ' ' :: lineEndsAsSpaces cs
  | c :: cs => (if c = '\r' ∨ c = '\n' then ' ' else c) :: lineEndsAsSpaces cs

/-! ## Runs of backticks -/

/-- Where a backtick meets another character, runs are cut. -/
theorem tickRuns_append (h : ∀ c ∈ t.getLast?, ∀ d ∈ u.head?, (c = '`') ≠ (d = '`')) :
    tickRuns (t ++ u) = tickRuns t ++ tickRuns u := by
  refine List.splitBy_append fun c hc d hd => ?_
  have hne := h c hc d hd
  grind

theorem tickRuns_replicate (n : Nat) :
    tickRuns (List.replicate (n + 1) '`') = [List.replicate (n + 1) '`'] := by
  refine List.splitBy_of_isChain (by simp) (List.Pairwise.isChain ?_)
  exact List.pairwise_of_forall_mem_list fun c hc d hd => by
    rw [List.eq_of_mem_replicate hc, List.eq_of_mem_replicate hd]
    rfl

theorem infix_of_mem_tickRuns (h : u ∈ tickRuns t) : u <:+: t := by
  have hflat : (tickRuns t).flatten = t := List.flatten_splitBy _ t
  obtain ⟨before, after, hruns⟩ := List.append_of_mem h
  rw [hruns] at hflat
  exact ⟨before.flatten, after.flatten, by simpa using hflat⟩

/-- A run that is longer than all in a text is none of them. -/
theorem replicate_not_mem_tickRuns {n : Nat} (h : longestRun '`' t ≤ n) :
    List.replicate (n + 1) '`' ∉ tickRuns t := by
  intro hmem
  have hlength := le_longestRun_of_infix (infix_of_mem_tickRuns hmem)
  omega

/-- Runs of backticks on both sides of a text that does not touch them. -/
theorem tickRuns_delimited {n : Nat} (hhead : body.head? ≠ some '`')
    (hlast : body.getLast? ≠ some '`') (hbody : body ≠ []) (hrest : rest.head? ≠ some '`') :
    tickRuns (List.replicate (n + 1) '`' ++ (body ++ (List.replicate (n + 1) '`' ++ rest))) =
      List.replicate (n + 1) '`' ::
        (tickRuns body ++ List.replicate (n + 1) '`' :: tickRuns rest) := by
  have hticks : ∀ {u : Text}, u.head? ≠ some '`' →
      tickRuns (List.replicate (n + 1) '`' ++ u) = List.replicate (n + 1) '`' :: tickRuns u := by
    intro u hu
    rw [tickRuns_append, tickRuns_replicate, List.singleton_append]
    intro c hc d hd
    obtain rfl : c = '`' := List.eq_of_mem_replicate (List.mem_of_getLast? hc)
    simpa using fun heq : d = '`' => hu (heq ▸ hd)
  have hopening : (body ++ (List.replicate (n + 1) '`' ++ rest)).head? ≠ some '`' := by
    rwa [List.head?_append_of_ne_nil _ hbody]
  rw [hticks hopening, tickRuns_append, hticks hrest]
  intro c hc d hd
  obtain rfl : '`' = d := by simpa [List.replicate_succ] using hd
  simpa using fun heq : c = '`' => hlast (heq ▸ hc)

/-! ## The body of a span -/

/-- A body of which a reader makes the code when it stands between delimiters: it does not touch
them, and the spaces that are taken off it have been added to the code. -/
structure IsBodyOf (code body : Text) : Prop where
  head_ne : body.head? ≠ some '`'
  last_ne : body.getLast? ≠ some '`'
  ne_nil : body ≠ []
  longestRun_eq : longestRun '`' body = longestRun '`' code
  strip_eq : stripSpaces body = code

/-- **A span is read up to its closing delimiter**, if that is longer than every run in the code. -/
theorem IsBodyOf.readSpan_eq (h : IsBodyOf t body) (hrest : rest.head? ≠ some '`') :
    let delimiter := List.replicate (longestRun '`' t + 1) '`'
    readSpan (delimiter ++ (body ++ (delimiter ++ rest))) = some (t, rest) := by
  intro delimiter
  have hinner : ∀ piece ∈ tickRuns body, decide (piece ≠ delimiter) = true := by
    intro piece hpiece
    rw [decide_eq_true_eq]
    rintro rfl
    exact replicate_not_mem_tickRuns h.longestRun_eq.le hpiece
  have hspan : (tickRuns body ++ delimiter :: tickRuns rest).span (· ≠ delimiter) =
      (tickRuns body, delimiter :: tickRuns rest) := by
    rw [List.span_eq_takeWhile_dropWhile, List.takeWhile_append_of_pos hinner,
      List.dropWhile_append_of_pos hinner, List.takeWhile_cons_of_neg (by simp),
      List.dropWhile_cons_of_neg (by simp), List.append_nil]
  have hflat : ∀ u, (tickRuns u).flatten = u := fun u => List.flatten_splitBy _ u
  rw [readSpan, tickRuns_delimited h.head_ne h.last_ne h.ne_nil hrest]
  simp only [delimiter] at hspan
  simp only [hspan, hflat, h.strip_eq]
  exact if_pos (by simp [List.replicate_succ])

/-- Spaces around a text make no runs longer. -/
theorem longestRun_padded (t : Text) : longestRun '`' ([' '] ++ t ++ [' ']) = longestRun '`' t := by
  have hbehind : ∀ best current,
      longestRunFrom (· = '`') best current (t ++ [' ']) =
        longestRunFrom (· = '`') best current t := by
    induction t with
    | nil => exact fun _ _ => rfl
    | cons c t ih =>
      intro best current
      rw [List.cons_append, longestRunFrom, longestRunFrom, ih, ih]
  exact hbehind 0 0

/-- Between spaces, a text with a character other than spaces is a body for itself. -/
theorem isBodyOf_padded {c : Char} (h : c ∈ t) (hc : c ≠ ' ') :
    IsBodyOf t ([' '] ++ t ++ [' ']) where
  head_ne := by simp
  last_ne := by
    rw [List.getLast?_concat]
    decide
  ne_nil := by simp
  longestRun_eq := longestRun_padded t
  strip_eq := by
    rw [stripSpaces, if_pos ⟨rfl, List.getLast?_concat, c, by simp [h], hc⟩]
    simp

/-- A text starts or ends with a backtick. -/
def TouchesTicks (t : Text) : Prop :=
  t.head? = some '`' ∨ t.getLast? = some '`'

instance (t : Text) : Decidable (TouchesTicks t) :=
  inferInstanceAs (Decidable (_ ∨ _))

theorem TouchesTicks.mem (h : TouchesTicks t) : '`' ∈ t :=
  h.elim List.mem_of_head? List.mem_of_getLast?

/-- A text is set off by spaces where it would touch the delimiters or lose spaces. -/
theorem isBodyOf_ite (h : t ≠ []) :
    IsBodyOf t (if TouchesTicks t ∨ IsSpaced t then [' '] ++ t ++ [' '] else t) := by
  split
  · rename_i hset
    rcases hset with htouches | ⟨-, -, c, hc, hne⟩
    · exact isBodyOf_padded htouches.mem (by decide)
    · exact isBodyOf_padded hc hne
  · rename_i hkept
    rw [not_or, TouchesTicks, not_or] at hkept
    exact ⟨hkept.1.1, hkept.1.2, h, rfl, if_neg hkept.2⟩

/-- The body and the delimiter of a span of backticks. -/
theorem spanDelimiter_ticks (t : Text) :
    spanDelimiter ['`'] t =
      (if TouchesTicks t then [' '] ++ t ++ [' '] else t,
        List.replicate (longestRun '`' t + 1) '`') := by
  have hends : (['`'].isPrefixOf t || ['`'].isSuffixOf t) = decide (TouchesTicks t) := by
    rw [Bool.eq_iff_iff, Bool.or_eq_true, List.isPrefixOf_iff_prefix, List.isSuffixOf_iff_suffix,
      decide_eq_true_iff, TouchesTicks, List.head?_eq_some_iff, List.getLast?_eq_some_iff]
    exact or_congr (exists_congr fun _ => eq_comm) (exists_congr fun _ => eq_comm)
  simp only [spanDelimiter, longestRunOf, Text.repeated, List.flatten_replicate_singleton, hends,
    decide_eq_true_iff]
  split
  · rename_i hrun
    have hnone : ¬ TouchesTicks t := by
      intro htouches
      have hone := le_longestRun_of_infix (n := 1) ((List.singleton_infix_iff _ _).mpr htouches.mem)
      omega
    rw [if_neg hnone, hrun]
    rfl
  · rfl

/-- **A code span** is the code on one line, set off where it must be, between delimiters that are
longer than its runs of backticks. -/
theorem codeSpan_eq (h : onOneLine t ≠ []) :
    let line := onOneLine t
    let delimiter := List.replicate (longestRun '`' line + 1) '`'
    codeSpan t = delimiter ++
      (if TouchesTicks line ∨ IsSpaced line then [' '] ++ line ++ [' '] else line) ++
        delimiter := by
  intro line delimiter
  have hspaced : (line.head? = some ' ' && line.getLast? = some ' ' && line.any (· ≠ ' ')) =
      decide (IsSpaced line) := by
    rw [Bool.eq_iff_iff, decide_eq_true_iff]
    simp [IsSpaced, and_assoc]
  have hlonger : [' '] ++ line ++ [' '] ≠ line := fun heq => by
    have hlength := congrArg List.length heq
    simp only [List.length_append, List.length_singleton] at hlength
    omega
  simp only [codeSpan, spanDelimiter_ticks]
  rw [if_neg (by simpa using h)]
  by_cases htouches : TouchesTicks line
  · simp only [line] at htouches hlonger
    simp only [htouches, hlonger, true_or, if_true, decide_false, Bool.false_and,
      Bool.false_eq_true, if_false, line, delimiter]
  · simp only [line] at htouches hspaced
    simp only [htouches, hspaced, false_or, if_false, decide_true, Bool.true_and,
      decide_eq_true_iff, line, delimiter]

/-! ## Code in a document -/

/-- Every line end of the code becomes a space. -/
theorem onOneLine_eq (t : Text) : onOneLine t = lineEndsAsSpaces t := by
  rw [onOneLine]
  fun_induction lineEndsAsSpaces t with
  | case1 => rfl
  | case2 cs ih => simpa [Text.normalizeLineEnds] using ih
  | case3 c cs hc ih =>
    have hpair : c = '\r' → cs.head? ≠ some '\n' := by
      rintro hreturn hfeed
      obtain ⟨ds, hds⟩ := List.head?_eq_some_iff.mp hfeed
      exact hc ds hreturn hds
    rw [Text.normalizeLineEnds_cons hpair, List.map_cons, ih]
    congr 1
    by_cases hreturn : c = '\r' <;> simp [hreturn]

/-- **Code is read back.** Where the text behind it does not go on with a backtick, the span that
code is written as is read up to its last character, and gives the code with a space in place of
each line end. -/
theorem code_is_read_back (o : Options) (placement : Placement) (content : String)
    (metadata : Metadata) (rest : Text) (hcontent : lineEndsAsSpaces content.toList ≠ [])
    (hrest : rest.head? ≠ some '`') :
    readSpan ((fragment o placement (.code content metadata)).text ++ rest) =
      some (lineEndsAsSpaces content.toList, rest) := by
  have hline := onOneLine_eq content.toList
  have hspan := codeSpan_eq (by rwa [hline])
  rw [fragment, hspan, List.append_assoc, List.append_assoc, hline]
  exact (isBodyOf_ite hcontent).readSpan_eq hrest

/-- Code that starts with a space, ends with a backtick and has a line end, before a word. -/
theorem ticked_code_is_read_back :
    lineEndsAsSpaces " a``\r\nb`".toList = " a`` b`".toList ∧
    (fragment {} { marker := ['-'] } (.code " a``\r\nb`")).text = "```  a`` b` ```".toList ∧
    readSpan ("```  a`` b` ```".toList ++ "word".toList) =
      some (" a`` b`".toList, "word".toList) := by
  have hcode : lineEndsAsSpaces " a``\r\nb`".toList = " a`` b`".toList := by decide
  have htext : (fragment {} { marker := ['-'] } (.code " a``\r\nb`")).text =
      "```  a`` b` ```".toList := by decide +kernel
  have hread := code_is_read_back {} { marker := ['-'] } " a``\r\nb`" [] "word".toList
    (by decide) (by decide)
  rw [htext, hcode] at hread
  exact ⟨hcode, htext, hread⟩

end DocumentTree.Markdown
