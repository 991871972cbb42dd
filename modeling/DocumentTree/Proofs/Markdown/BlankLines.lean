import DocumentTree.Proofs.Markdown.BlockEnds
import DocumentTree.Proofs.Markdown.ListMarks

/-!
# One blank line between blocks

Blocks with text are joined by blank lines, and blocks without text leave no trace. What a reader
sees between two blocks is one blank line, as long as neither text has a blank line of its own at
that end. Only indented code has, if the code has: it may start with line feeds, and its last line
may be white space. Items are tight: in them blocks are joined by line feeds, with a blank line only
behind a paragraph that the next block would else continue or underline.

When line ends are normalized, a carriage return at the end of indented code joins the line feed
behind it. So it makes no further line between blocks, and it is trimmed at the end of a document.

## Main definitions

* `IsShown line` — a line that is not blank.
* `IsFramed t` — a text whose first and last lines are not blank.
* `IsGapless o n` — no indented code in a node has a blank line.
* `itemGap o x y` — what an item has between two blocks.
-/

namespace DocumentTree

namespace Text

variable {c : Char} {t u p q : Text}

/-! ## Texts before their line ends are normalized -/

/-- A part of a text with normalized line ends comes from a part of the text. -/
theorem exists_append_of_normalizeLineEnds (h : normalizeLineEnds t = p ++ q) :
    ∃ u v, t = u ++ v ∧ normalizeLineEnds u = p ∧ normalizeLineEnds v = q := by
  induction p generalizing t with
  | nil => exact ⟨[], t, rfl, rfl, h⟩
  | cons d p ih =>
    fun_cases normalizeLineEnds t with
    | case1 => cases h
    | case2 t =>
      rw [normalizeLineEnds] at h
      obtain ⟨rfl, hrest⟩ := List.cons.inj h
      obtain ⟨u, v, rfl, rfl, hv⟩ := ih hrest
      exact ⟨'\r' :: '\n' :: u, v, rfl, rfl, hv⟩
    | case3 e t hpair =>
      have hcons : normalizeLineEnds (e :: t) =
          (if e = '\r' then '\n' else e) :: normalizeLineEnds t := by
        rw [normalizeLineEnds]
        exact hpair
      rw [hcons] at h
      obtain ⟨rfl, hrest⟩ := List.cons.inj h
      obtain ⟨u, v, rfl, rfl, hv⟩ := ih hrest
      refine ⟨e :: u, v, rfl, normalizeLineEnds_cons fun he hhead => ?_, hv⟩
      cases u with
      | nil => cases hhead
      | cons f u => exact hpair _ he (by rw [Option.some.inj hhead]; rfl)

/-- A text on one line has no line ends that are normalized. -/
theorem eq_of_normalizeLineEnds (h : normalizeLineEnds t = u) (hu : '\n' ∉ u) : t = u := by
  subst h
  fun_induction normalizeLineEnds t with
  | case1 => rfl
  | case2 => simp at hu
  | case3 d t _ ih =>
    rw [List.mem_cons, not_or] at hu
    split at hu
    · exact absurd rfl hu.1
    · rename_i hd
      rw [if_neg hd, ← ih hu.2]

/-- There are three ways to write a final line feed. -/
theorem eq_of_normalizeLineEnds_feed (h : normalizeLineEnds t = ['\n']) :
    t = ['\n'] ∨ t = ['\r'] ∨ t = ['\r', '\n'] := by
  fun_cases normalizeLineEnds t with
  | case1 => cases h
  | case2 t =>
    rw [normalizeLineEnds] at h
    obtain rfl := eq_of_normalizeLineEnds (List.cons.inj h).2 (by simp)
    exact .inr (.inr rfl)
  | case3 d t hpair =>
    rw [normalizeLineEnds] at h
    · obtain ⟨hd, htail⟩ := List.cons.inj h
      obtain rfl := eq_of_normalizeLineEnds htail (by simp)
      split at hd
      · rename_i hreturn
        exact .inr (.inl (by rw [hreturn]))
      · exact .inl (by rw [hd])
    · exact hpair

/-- Without its line feeds, at most a carriage return is left of a final line end. -/
theorem exists_kept_of_final {rest final : Text} (h : normalizeLineEnds rest = final)
    (hfinal : final = [] ∨ final = ['\n']) :
    ∃ kept feeds, rest = kept ++ feeds ∧ (kept = [] ∨ kept = ['\r']) ∧
      ∀ d ∈ feeds, decide (d = '\n') = true := by
  rcases hfinal with rfl | rfl
  · obtain rfl := eq_of_normalizeLineEnds h (by simp)
    exact ⟨[], [], rfl, .inl rfl, by simp⟩
  · rcases eq_of_normalizeLineEnds_feed h with rfl | rfl | rfl
    · exact ⟨[], ['\n'], rfl, .inl rfl, by simp⟩
    · exact ⟨['\r'], [], rfl, .inr rfl, by simp⟩
    · exact ⟨['\r'], ['\n'], rfl, .inr rfl, by simp⟩

/-! ## Texts that show where they start and end -/

/-- There is more than white space before the first line end. -/
def StartsShown (t : Text) : Prop :=
  ∃ before c after, t = before ++ c :: after ∧ (∀ d ∈ before, ¬ IsLineEnd d) ∧ isBlank c = false

/-- There is more than white space behind the last line end, a final carriage return aside. -/
def EndsShown (t : Text) : Prop :=
  ∃ before c after final, t = before ++ c :: (after ++ final) ∧ (∀ d ∈ after, ¬ IsLineEnd d) ∧
    isBlank c = false ∧ (final = [] ∨ final = ['\r'])

/-- A line that is not blank. -/
def IsShown (line : Text) : Prop :=
  ∃ c ∈ line, isBlank c = false

instance (line : Text) : Decidable (IsShown line) :=
  decidable_of_iff (line.any (!isBlank ·) = true) (by simp [IsShown])

/-- The first and the last line of a text are not blank. -/
structure IsFramed (t : Text) : Prop where
  /-- There is more than white space on the first line. -/
  first : ∀ line, (lines t).head? = some line → IsShown line
  /-- There is more than white space on the last line. -/
  last : ∀ line, (lines t).getLast? = some line → IsShown line

theorem EndsShown.append_left (h : EndsShown t) (u : Text) : EndsShown (u ++ t) := by
  obtain ⟨before, c, after, final, rfl, hafter, hc, hfinal⟩ := h
  exact ⟨u ++ before, c, after, final, by simp, hafter, hc, hfinal⟩

/-- White space at the end does not show where a text starts. -/
theorem StartsShown.of_append_blanks (h : StartsShown (t ++ u)) (hu : ∀ d ∈ u, isBlank d = true) :
    StartsShown t := by
  obtain ⟨before, c, after, heq, hbefore, hc⟩ := h
  rcases List.append_eq_append_iff.mp heq with ⟨rest, rfl, hrest⟩ | ⟨rest, rfl, hrest⟩
  · -- The character is not in the white space.
    have hmem : c ∈ u := by rw [hrest]; simp
    rw [hu c hmem] at hc
    cases hc
  · cases rest with
    | nil =>
      have hmem : c ∈ u := by
        rw [List.nil_append] at hrest
        rw [← hrest]
        exact List.mem_cons_self ..
      rw [hu c hmem] at hc
      cases hc
    | cons d rest =>
      obtain ⟨rfl, -⟩ := List.cons.inj hrest
      exact ⟨before, c, rest, rfl, hbefore, hc⟩

theorem StartsShown.normalizeLineEnds (h : StartsShown t) : StartsShown (normalizeLineEnds t) := by
  obtain ⟨before, c, after, rfl, hbefore, hc⟩ := h
  have hreturn : c ≠ '\r' := by
    rintro rfl
    exact absurd hc (by decide)
  have hstart : Text.normalizeLineEnds (before ++ [c]) = before ++ [c] := by
    refine normalizeLineEnds_eq_self ?_
    rw [List.mem_append, List.mem_singleton, not_or]
    exact ⟨fun hmem => hbefore _ hmem (.inr rfl), Ne.symm hreturn⟩
  rw [List.append_cons, normalizeLineEnds_append (by simp [hreturn]), hstart, List.append_assoc]
  exact ⟨before, c, _, rfl, hbefore, hc⟩

/-- What a text shows where it starts is on its first line. -/
theorem StartsShown.exists_lines (h : StartsShown t) :
    ∃ before c after rest, lines t = (before ++ c :: after) :: rest ∧
      (∀ d ∈ before, ¬ IsLineEnd d) ∧ isBlank c = false := by
  obtain ⟨before, c, after, rfl, hbefore, hc⟩ := h
  obtain ⟨first, rest, hafter⟩ := List.exists_cons_of_ne_nil (lines_ne_nil after)
  have hnewline : '\n' ∉ before ++ [c] := by
    intro hmem
    rcases List.mem_append.mp hmem with hmem | hmem
    · exact hbefore _ hmem (.inl rfl)
    · obtain rfl := List.mem_singleton.mp hmem
      exact not_isLineEnd hc (.inl rfl)
  have hstart : lines (before ++ [c]) = [] ++ [before ++ [c]] := lines_of_not_mem hnewline
  have hlines := lines_append hstart hafter
  exact ⟨before, c, first, rest, by simpa using hlines, hbefore, hc⟩

/-- What a text shows where it ends is on its last line. -/
theorem EndsShown.exists_lines (h : EndsShown t) :
    ∃ before last, lines t = before ++ [last] ∧ EndsShown last := by
  obtain ⟨start, c, after, final, rfl, hafter, hc, hfinal⟩ := h
  obtain ⟨before, last, hstart⟩ := Text.exists_lines start
  have hnewline : '\n' ∉ c :: (after ++ final) := by
    rw [List.mem_cons, List.mem_append, not_or, not_or]
    refine ⟨fun heq => not_isLineEnd hc (.inl heq.symm), ?_, ?_⟩
    · exact fun hmem => hafter _ hmem (.inl rfl)
    · rcases hfinal with rfl | rfl <;> decide
  exact ⟨before, _, lines_append hstart (lines_of_not_mem hnewline),
    last, c, after, final, rfl, hafter, hc, hfinal⟩

/-- Texts that show where they start and end have no blank lines there. -/
theorem isFramed_of_shown (hstart : StartsShown t) (hend : EndsShown t) : IsFramed t := by
  constructor
  · intro line hline
    obtain ⟨before, c, after, rest, hlines, -, hc⟩ := hstart.exists_lines
    rw [hlines, List.head?_cons] at hline
    obtain rfl := Option.some.inj hline
    exact ⟨c, by simp, hc⟩
  · intro line hline
    obtain ⟨before, last, hlines, start, c, after, final, rfl, -, hc, -⟩ := hend.exists_lines
    rw [hlines, List.getLast?_concat] at hline
    obtain rfl := Option.some.inj hline
    exact ⟨c, by simp, hc⟩

/-! ## Joined texts with normalized line ends -/

/-- What a text shows where it ends is kept when its line ends are normalized. A final carriage
return behind it is white space, and joins a line feed. -/
theorem EndsShown.exists_normal (hend : EndsShown t) :
    ∃ before c after blanks, (∀ d ∈ after, ¬ IsLineEnd d) ∧ isBlank c = false ∧
      (∀ d ∈ blanks, isBlank d = true) ∧
      Text.normalizeLineEnds t = before ++ c :: after ++ blanks ∧
      ∀ v, Text.normalizeLineEnds (t ++ '\n' :: v) =
        before ++ c :: after ++ '\n' :: Text.normalizeLineEnds v := by
  obtain ⟨before, c, after, final, rfl, hafter, hc, hfinal⟩ := hend
  have hline : ∀ d ∈ c :: after, ¬ IsLineEnd d :=
    List.forall_mem_cons.mpr ⟨not_isLineEnd hc, hafter⟩
  have hlast : (c :: after).getLast? ≠ some '\r' := fun h =>
    hline _ (List.mem_of_getLast? h) (.inr rfl)
  have hself : Text.normalizeLineEnds (c :: after) = c :: after :=
    normalizeLineEnds_eq_self fun hmem => hline _ hmem (.inr rfl)
  -- Up to the final carriage return, no line end stands across a seam.
  have hparts : ∀ v, Text.normalizeLineEnds (before ++ (c :: after ++ v)) =
      Text.normalizeLineEnds before ++ c :: after ++ Text.normalizeLineEnds v := by
    intro v
    have hhead : (c :: after ++ v).head? ≠ some '\n' := fun h =>
      hline c (by simp) (.inl (Option.some.inj h))
    rw [normalizeLineEnds_append fun _ => hhead, normalizeLineEnds_append fun h => absurd h hlast,
      hself, List.append_assoc]
  refine ⟨Text.normalizeLineEnds before, c, after, Text.normalizeLineEnds final, hafter, hc, ?_,
    hparts final, fun v => ?_⟩
  · rcases hfinal with rfl | rfl
    · exact nofun
    · exact List.forall_mem_singleton.mpr (by decide)
  · have hfeed : Text.normalizeLineEnds (final ++ '\n' :: v) =
        '\n' :: Text.normalizeLineEnds v := by
      rcases hfinal with rfl | rfl <;> simp [Text.normalizeLineEnds]
    rw [← hfeed, ← hparts]
    simp

/-- What counts of a text when its line ends are normalized is shown at both ends, trimmed or
not. -/
theorem exists_normal_part (hstart : StartsShown t) (hend : EndsShown t) :
    ∃ u, IsFramed u ∧ IsFramed (trimRight u) ∧ trimRight u ≠ [] ∧
      trimRight u = trimRight (Text.normalizeLineEnds t) ∧
      ∀ v, Text.normalizeLineEnds (t ++ '\n' :: v) = u ++ '\n' :: Text.normalizeLineEnds v := by
  obtain ⟨before, c, after, blanks, hafter, hc, hblanks, hnormal, hfeed⟩ := hend.exists_normal
  let u := before ++ c :: after
  have hstartu : StartsShown u := (hnormal ▸ hstart.normalizeLineEnds).of_append_blanks hblanks
  have hendu : EndsShown u := ⟨before, c, after, [], by simp [u], hafter, hc, .inl rfl⟩
  have htrim : trimRight u = before ++ c :: trimRight after := by
    have hkept : trimRight ((before ++ [c]) ++ after) = (before ++ [c]) ++ trimRight after :=
      trimRight_append _ (.inl (by simpa using hc))
    simpa [u] using hkept
  obtain ⟨rest, hrest, hrestBlank⟩ := exists_dropRightWhile_append isBlank u
  have hstartTrim : StartsShown (trimRight u) := (hrest ▸ hstartu).of_append_blanks hrestBlank
  have hendTrim : EndsShown (trimRight u) :=
    ⟨before, c, trimRight after, [], by simp [htrim],
      fun d hd => hafter d ((trimRight_sublist after).mem hd), hc, .inl rfl⟩
  refine ⟨u, isFramed_of_shown hstartu hendu, isFramed_of_shown hstartTrim hendTrim, ?_, ?_, hfeed⟩
  · simp [htrim]
  · rw [hnormal]
    exact (dropRightWhile_append u hblanks).symm

theorem join_blank_cons {ts : List Text} (h : ts ≠ []) (t : Text) :
    join ['\n', '\n'] (t :: ts) = t ++ '\n' :: '\n' :: join ['\n', '\n'] ts := by
  have happend := join_append ['\n', '\n'] (List.cons_ne_nil t []) h
  rwa [List.cons_append, List.nil_append, join, List.append_assoc] at happend

/-- **Texts joined by blank lines stay so** when line ends are normalized and the end is trimmed:
each of them keeps what it is but for white space at its end, and starts and ends on lines that are
not blank. -/
theorem exists_framed_parts {ts : List Text} (hts : ts ≠ [])
    (h : ∀ t ∈ ts, StartsShown t ∧ EndsShown t) :
    ∃ us, trimRight (Text.normalizeLineEnds (join ['\n', '\n'] ts)) = join ['\n', '\n'] us ∧
      join ['\n', '\n'] us ≠ [] ∧ (∀ u ∈ us, IsFramed u) ∧
      List.Forall₂ (fun u t => trimRight u = trimRight (Text.normalizeLineEnds t)) us ts := by
  induction ts with
  | nil => exact absurd rfl hts
  | cons t ts ih =>
    rw [List.forall_mem_cons] at h
    obtain ⟨u, hframed, hframedTrim, hne, htrim, hfeed⟩ := exists_normal_part h.1.1 h.1.2
    by_cases hrest : ts = []
    · subst hrest
      refine ⟨[trimRight u], htrim.symm, hne, by simpa using hframedTrim, .cons ?_ .nil⟩
      rw [← htrim, trimRight, trimRight, dropRightWhile_eq, dropRightWhile_eq]
      exact List.rdropWhile_idempotent isBlank u
    · obtain ⟨us, hjoin, hnonempty, hall, hsame⟩ := ih hrest h.2
      have hus : us ≠ [] := by
        rintro rfl
        exact hnonempty rfl
      refine ⟨u :: us, ?_, ?_, List.forall_mem_cons.mpr ⟨hframed, hall⟩, .cons htrim hsame⟩
      · have hnewline : Text.normalizeLineEnds ('\n' :: join ['\n', '\n'] ts) =
            '\n' :: Text.normalizeLineEnds (join ['\n', '\n'] ts) :=
          normalizeLineEnds_cons fun h => absurd h (by decide)
        have hone : trimRight ('\n' :: Text.normalizeLineEnds (join ['\n', '\n'] ts)) =
            '\n' :: join ['\n', '\n'] us := by
          rw [trimRight_cons (.inr (by rwa [hjoin])), hjoin]
        have htwo : trimRight ('\n' :: '\n' :: Text.normalizeLineEnds (join ['\n', '\n'] ts)) =
            '\n' :: '\n' :: join ['\n', '\n'] us := by
          rw [trimRight_cons (.inr (by simp [hone])), hone]
        rw [join_blank_cons hrest, join_blank_cons hus, hfeed, hnewline,
          trimRight_append u (.inr (by simp [htwo])), htwo]
      · rw [join_blank_cons hus]
        simp

end Text

namespace Markdown

open Node (Grammatical AllGrammatical AreBlocks)
open Text (lines unlines join trimRight isBlank normalizeLineEnds IsLineEnd IsShown IsFramed
  StartsShown EndsShown)

variable {o : Options} {n : Node} {content : String} {language : Option String} {m : Metadata}

/-! ## Indented code without blank lines -/

/-- No indented code in a node has a blank line. -/
def IsGapless (o : Options) (n : Node) : Prop :=
  ∀ (content : String) (language : Option String) (m : Metadata),
    n.Contains (.codeBlock content language m) →
    isIndentedCode o (.codeBlock content language m) = true →
    ∀ line ∈ codeLines (normalizeLineEnds content.toList), IsShown line

/-- Whether a node is gapless is decided node by node. -/
theorem isGapless_iff : IsGapless o n ↔
    (∀ content language m, n = .codeBlock content language m → isIndentedCode o n = true →
      ∀ line ∈ codeLines (normalizeLineEnds content.toList), IsShown line) ∧
    ∀ child ∈ n.children, IsGapless o child := by
  constructor
  · intro h
    refine ⟨?_, fun child hchild content language m hcontains =>
      h content language m (.inside hchild hcontains)⟩
    rintro content language m rfl hcode
    exact h content language m (.self _) hcode
  · rintro ⟨hself, hchildren⟩ content language m hcontains hcode
    cases hcontains with
    | self => exact hself content language m rfl hcode
    | inside hchild hcontains => exact hchildren _ hchild content language m hcontains hcode

theorem cutFinalLineFeed_snd (t : Text) :
    (Text.cutFinalLineFeed t).2 = [] ∨ (Text.cutFinalLineFeed t).2 = ['\n'] := by
  fun_induction Text.cutFinalLineFeed t with
  | case1 => exact .inl rfl
  | case2 => exact .inr rfl
  | case3 c cs _ body final heq ih => simpa [heq] using ih

/-- The lines of code are those of the text before a final line feed. -/
theorem exists_lines_of_code {t : Text} (h : t ≠ []) :
    ∃ u final, t = u ++ final ∧ (final = [] ∨ final = ['\n']) ∧ codeLines t = lines u :=
  ⟨_, _, (cutFinalLineFeed_append t).symm, cutFinalLineFeed_snd t, if_neg (by simpa using h)⟩

/-- A line of normalized text, up to or from a character, comes from itself. -/
theorem eq_of_normalized_line {t line part : Text} (hline : '\n' ∉ line) (hpart : part ⊆ line)
    (h : normalizeLineEnds t = part) : t = part ∧ ∀ d ∈ part, ¬ IsLineEnd d := by
  obtain rfl := Text.eq_of_normalizeLineEnds h fun hmem => hline (hpart hmem)
  refine ⟨rfl, ?_⟩
  rintro d hd (rfl | rfl)
  · exact hline (hpart hd)
  · rw [← h] at hd
    exact Text.not_mem_normalizeLineEnds t hd

/-- Code without blank lines shows where it starts. -/
theorem startsShown_of_codeLines {t : Text} (h : t ≠ [])
    (hlines : ∀ line ∈ codeLines (normalizeLineEnds t), IsShown line) : StartsShown t := by
  obtain ⟨u, final, hu, -, hcode⟩ := exists_lines_of_code (Text.normalizeLineEnds_ne_nil h)
  obtain ⟨first, rest, hfirst⟩ := List.exists_cons_of_ne_nil (Text.lines_ne_nil u)
  rw [hcode, hfirst, List.forall_mem_cons] at hlines
  obtain ⟨c, hmem, hc⟩ := hlines.1
  obtain ⟨before, after, rfl⟩ := List.append_of_mem hmem
  obtain ⟨v, rfl⟩ := Text.exists_append_of_lines hfirst
  have hfeed : '\n' ∉ before ++ c :: after := Text.not_mem_of_mem_lines (by rw [hfirst]; simp)
  obtain ⟨start, behind, rfl, hstart, -⟩ := Text.exists_append_of_normalizeLineEnds
    (p := before ++ [c]) (q := after ++ v ++ final) (by rw [hu]; simp)
  obtain ⟨rfl, hends⟩ := eq_of_normalized_line hfeed (by simp) hstart
  exact ⟨before, c, behind, by simp, fun d hd => hends d (List.mem_append_left _ hd), hc⟩

/-- Line feeds aside, code without blank lines shows where it ends. -/
theorem endsShown_of_codeLines {t : Text} (h : t ≠ [])
    (hlines : ∀ line ∈ codeLines (normalizeLineEnds t), IsShown line) :
    EndsShown (Text.dropRightWhile (· = '\n') t) := by
  obtain ⟨u, final, hu, hfinal, hcode⟩ := exists_lines_of_code (Text.normalizeLineEnds_ne_nil h)
  obtain ⟨ls, last, hlast⟩ := Text.exists_lines u
  obtain ⟨c, hmem, hc⟩ := hlines last (by rw [hcode, hlast]; simp)
  obtain ⟨before, after, rfl⟩ := List.append_of_mem hmem
  obtain ⟨v, hv⟩ := exists_unlines_concat ls (before ++ c :: after)
  rw [← hlast, Text.unlines_lines] at hv
  have hfeed : '\n' ∉ before ++ c :: after := Text.not_mem_of_mem_lines (by rw [hlast]; simp)
  obtain ⟨start, behind, rfl, -, hbehind⟩ := Text.exists_append_of_normalizeLineEnds
    (p := v ++ before) (q := c :: after ++ final) (by rw [hu, hv]; simp)
  obtain ⟨shown, rest, rfl, hshown, hrest⟩ := Text.exists_append_of_normalizeLineEnds hbehind
  obtain ⟨rfl, hends⟩ := eq_of_normalized_line hfeed (by simp) hshown
  obtain ⟨kept, feeds, rfl, hkept, hfeeds⟩ := Text.exists_kept_of_final hrest hfinal
  refine ⟨start, c, after, kept, ?_, fun d hd => hends d (List.mem_cons_of_mem c hd), hc, hkept⟩
  rw [← List.append_assoc, ← List.append_assoc, Text.dropRightWhile_append _ hfeeds,
    Text.dropRightWhile_eq_self, List.append_assoc, List.cons_append]
  intro d hd
  have hmem : d ∈ c :: after ∨ d ∈ kept := by
    rw [List.append_assoc, List.getLast?_append_of_ne_nil _ (by simp)] at hd
    exact List.mem_append.mp (List.mem_of_getLast? hd)
  rw [decide_eq_false_iff_not]
  rintro rfl
  rcases hmem with hmem | hmem
  · exact hends _ hmem (.inl rfl)
  · rcases hkept with rfl | rfl <;> simp at hmem

/-! ## Blocks without blank lines at their ends -/

variable {before : List Text} {last : Text}

theorem startsShown_indentedCode
    (hcode : isIndentedCode o (.codeBlock content language m) = true)
    (hlines : ∀ line ∈ codeLines (normalizeLineEnds content.toList), IsShown line) :
    StartsShown (indentedCode content.toList) := by
  obtain ⟨feeds, hsplit, hblank⟩ := exists_dropLineFeeds_append content.toList
  have hstart := startsShown_of_codeLines (ne_nil_of_isIndentedCode hcode) hlines
  rw [← hsplit] at hstart
  obtain ⟨start, c, after, rest, hfirst, hends, hc⟩ :=
    (hstart.of_append_blanks hblank).exists_lines
  have hindented : lines (indentedCode content.toList) =
      (Text.spaces 4 ++ (start ++ c :: after)) :: rest.map (Text.indentLine (Text.spaces 4)) := by
    rw [indentedCode_eq, lines_indented, hfirst, List.map_cons, Text.indentLine, if_neg (by simp)]
  obtain ⟨u, hu⟩ := Text.exists_append_of_lines hindented
  refine ⟨Text.spaces 4 ++ start, c, after ++ u, by rw [hu]; simp, ?_, hc⟩
  intro d hd
  rcases List.mem_append.mp hd with hspace | hd
  · rw [List.eq_of_mem_replicate hspace]
    decide
  · exact hends d hd

theorem endsShown_indentedCode
    (hcode : isIndentedCode o (.codeBlock content language m) = true)
    (hlines : ∀ line ∈ codeLines (normalizeLineEnds content.toList), IsShown line)
    (hlast : lines (indentedCode content.toList) = before ++ [last]) : EndsShown last := by
  obtain ⟨ls, line, -, hline, rfl, -, -, -⟩ := exists_last_line_of_code hcode hlast
  obtain ⟨ls', line', hline', hend⟩ :=
    (endsShown_of_codeLines (ne_nil_of_isIndentedCode hcode) hlines).exists_lines
  rw [hline] at hline'
  obtain ⟨-, hsingle⟩ := List.append_inj' hline' rfl
  rw [List.singleton_inj.mp hsingle]
  exact hend.append_left _

/-- **A block with text shows where it starts and ends** if its indented code has no blank lines. -/
theorem shown_of_isGapless (hn : n.Grammatical) (hblock : n.isBlock = true)
    (hgapless : IsGapless o n) (p : Placement) (ht : (fragment o p n).text ≠ []) :
    StartsShown (fragment o p n).text ∧ EndsShown (fragment o p n).text := by
  constructor
  · rcases isBare_head?_block o hn hblock p ht with
      hbare | ⟨content, language, m, rfl, hcode, -, htext⟩
    · obtain ⟨c, rest, htext⟩ := List.exists_cons_of_ne_nil ht
      rw [htext] at hbare ⊢
      exact ⟨[], c, rest, rfl, by simp, by simpa [isBare] using hbare⟩
    · rw [htext]
      exact startsShown_indentedCode hcode (hgapless content language m (.self _) hcode)
  · obtain ⟨s, hs, u, hu⟩ := exists_ending o n hn p (.inl hblock) ht
    rw [← hu]
    refine EndsShown.append_left ?_ u
    cases hs with
    | bare hc => exact ⟨[], _, [], [], rfl, by simp, hc, .inl rfl⟩
    | code hcontains hcode hlast =>
      exact endsShown_indentedCode hcode (hgapless _ _ _ hcontains hcode) hlast

/-! ## Blocks in sequence -/

theorem exists_of_mem_textsAfter {marker : Text} {previous : Option Predecessor} {ns : List Node}
    {t : Text} (h : t ∈ textsAfter o marker previous ns) :
    ∃ n ∈ ns, ∃ p, t = (fragment o p n).text := by
  induction ns generalizing previous with
  | nil => cases h
  | cons n ns ih =>
    rw [textsAfter, List.mem_cons] at h
    rcases h with rfl | h
    · exact ⟨n, List.mem_cons_self .., _, rfl⟩
    · obtain ⟨k, hk, p, ht⟩ := ih h
      exact ⟨k, List.mem_cons_of_mem n hk, p, ht⟩

/-- The texts of blocks, without those of blocks that are written as nothing. -/
def shownTexts (o : Options) (marker : Text) (ns : List Node) : List Text :=
  (siblingTexts o marker ns).filter fun t => !t.isEmpty

theorem shown_of_mem_shownTexts {marker : Text} {ns : List Node} (hblocks : AreBlocks ns)
    (hg : AllGrammatical ns) (hgapless : ∀ n ∈ ns, IsGapless o n) {t : Text}
    (h : t ∈ shownTexts o marker ns) : StartsShown t ∧ EndsShown t := by
  obtain ⟨hmem, hne⟩ := List.mem_filter.mp h
  obtain ⟨n, hn, p, rfl⟩ := exists_of_mem_textsAfter hmem
  have hgrammatical := (Node.allGrammatical_iff ns).mp hg n hn
  exact shown_of_isGapless hgrammatical (hblocks n hn) (hgapless n hn) p (by simpa using hne)

/-! ## Line ends at the ends of blocks -/

/-- Indented code starts with the line feed that the code starts with, or with a space. -/
theorem head?_indentedCode (hcode : isIndentedCode o (.codeBlock content language m) = true) :
    (indentedCode content.toList).head? =
      some (if content.toList.head? = some '\n' then '\n' else ' ') := by
  obtain ⟨feeds, hsplit, -⟩ := Text.exists_dropRightWhile_append (· = '\n') content.toList
  obtain ⟨c, rest, hc⟩ := List.exists_cons_of_ne_nil (dropLineFeeds_ne_nil hcode)
  have hhead : content.toList.head? = some c := by
    rw [← hsplit, hc]
    rfl
  rw [indentedCode_eq, hc, hhead, indented]
  by_cases hfeed : c = '\n'
  · subst hfeed
    have hlines : lines ('\n' :: rest) = [] :: lines rest := Text.lines_append_cons [] rest
    rw [hlines, List.map_cons, Text.unlines_cons (by simp [Text.lines_ne_nil])]
    rfl
  · obtain ⟨line, others, -, hlines⟩ := Text.lines_cons_of_ne hfeed rest
    rw [hlines, List.map_cons, Text.indentLine, if_neg (by simp), unlines, Text.join_cons,
      if_neg (by simpa using hfeed)]
    rfl

/-- An ending has no line feed at its end, and a carriage return only where code has. -/
theorem Ending.getLast? {s : Text} (h : Ending o n s) : s.getLast? ≠ some '\n' ∧
    (s.getLast? = some '\r' → ∃ content language m, n.Contains (.codeBlock content language m) ∧
      isIndentedCode o (.codeBlock content language m) = true ∧
      (Text.dropRightWhile (· = '\n') content.toList).getLast? = some '\r') := by
  refine ⟨fun hlast => h.newline_not_mem (List.mem_of_getLast? hlast), fun hlast => ?_⟩
  cases h with
  | bare hc =>
    obtain rfl := Option.some.inj hlast
    exact absurd hc (by decide)
  | code hcontains hcode hlines =>
    obtain ⟨ls, line, c, -, rfl, hline, hc, -⟩ := exists_last_line_of_code hcode hlines
    rw [List.getLast?_append_of_ne_nil _ (by rintro rfl; cases hline), hline] at hlast
    exact ⟨_, _, _, hcontains, hcode, hc.trans hlast⟩

/-- A block starts with no carriage return, and with a line feed only as indented code that does. -/
theorem head?_block (hn : n.Grammatical) (hblock : n.isBlock = true) (p : Placement)
    (ht : (fragment o p n).text ≠ []) :
    (fragment o p n).text.head? ≠ some '\r' ∧
      ((fragment o p n).text.head? = some '\n' ↔ ∃ content language m,
        n = .codeBlock content language m ∧ isIndentedCode o n = true ∧ p.fenced = false ∧
        content.toList.head? = some '\n') := by
  rcases isBare_head?_block o hn hblock p ht with
    hbare | ⟨content, language, m, rfl, hcode, hp, htext⟩
  · have hne : ∀ c, isBlank c = true → (fragment o p n).text.head? ≠ some c := by
      intro c hc hhead
      rw [hhead] at hbare
      simp [isBare, hc] at hbare
    refine ⟨hne '\r' (by decide), fun hhead => absurd hhead (hne '\n' (by decide)), ?_⟩
    rintro ⟨content, language, m, rfl, hcode, hp, hfeed⟩
    rw [fragment, codeBlock, if_pos (by simp [hcode, hp]), head?_indentedCode hcode, if_pos hfeed]
  · rw [htext, head?_indentedCode hcode]
    by_cases hfeed : content.toList.head? = some '\n'
    · rw [if_pos hfeed]
      exact ⟨by decide, fun _ => ⟨content, language, m, rfl, hcode, hp, hfeed⟩, fun _ => rfl⟩
    · rw [if_neg hfeed]
      refine ⟨by decide, fun hhead => absurd hhead (by decide), ?_⟩
      rintro ⟨_, _, _, heq, -, -, hfeed'⟩
      cases heq
      exact absurd hfeed' hfeed

/-! ## Blocks of items -/

/-- What an item has between two blocks with text. -/
def itemGap (o : Options) : Node → Node → Text
  | .paragraph .., n => if needsBlankLine o n then ['\n', '\n'] else ['\n']
  | _, _ => ['\n']

theorem separator_inItem (o : Options) (p : Predecessor) (n : Node) :
    separator o true (some p) n = itemGap o p.node n := by
  obtain ⟨x, alternate⟩ := p
  cases x <;> rfl

/-- What is laid out behind a block of an item is on other lines. -/
theorem layOut_some_cases (o : Options) (p : Predecessor) (ws : List Written) :
    layOut o true (some p) ws = [] ∨ ∃ u, layOut o true (some p) ws = '\n' :: u := by
  have hgap : ∀ x n, ∃ feeds, itemGap o x n = '\n' :: feeds := by
    intro x n
    unfold itemGap
    split
    · split <;> exact ⟨_, rfl⟩
    · exact ⟨_, rfl⟩
  cases ws with
  | nil => exact .inl rfl
  | cons w ws =>
    obtain ⟨feeds, hfeeds⟩ := hgap p.node w.node
    rw [layOut, separator_inItem, hfeeds]
    exact .inr ⟨_, rfl⟩

/-- Neighbours in an item stand with their gap between them, and what is behind the second one is on
other lines. -/
theorem exists_around_gap_of_item {marker : Text} {ns : List Node} {before after : List Written}
    {x y : Written} (h : writtenAfter o marker none ns = before ++ x :: y :: after) :
    ∃ u v, blocksAfter o marker true none ns =
      u ++ x.text o ++ itemGap o x.node y.node ++ y.text o ++ v ∧
      (v = [] ∨ ∃ w, v = '\n' :: w) := by
  rw [blocksAfter_eq_layOut, h, layOut_append, layOut, layOut, separator_inItem]
  let previous := before.getLast?.map Written.predecessor
  exact ⟨layOut o true none before ++ separator o true previous x.node,
    layOut o true (some y.predecessor) after, by simp [previous, Written.predecessor],
    layOut_some_cases o y.predecessor after⟩

theorem exists_around_gap {marker : Text} {ns : List Node} {before after : List Written}
    {x y : Written} (h : writtenAfter o marker none ns = before ++ x :: y :: after) :
    ∃ u v, blocksAfter o marker true none ns =
      u ++ x.text o ++ itemGap o x.node y.node ++ y.text o ++ v := by
  obtain ⟨u, v, haround, -⟩ := exists_around_gap_of_item h
  exact ⟨u, v, haround⟩

/-- **Blank lines between blocks.** What a block with text is written as does not end in a line feed
and does not start with a carriage return. It starts with a line feed only if it is indented code
that does, and ends in a carriage return only if the code of indented code in it does, the line
feeds behind it aside.

So blocks of which no indented code has a blank line are written with just one between them in a
document and in a quote, whatever blocks without text are among them: their texts start and end on
lines that are not blank. This is also true of the text of a document without problems, which
differs in how line ends are written and in white space at the ends of these texts. In an item they
are written on lines next to each other, but with a blank line between a paragraph and a paragraph,
a thematic break or indented code. -/
theorem blank_lines_part_blocks (o : Options) :
    (∀ (n : Node) (p : Placement), n.Grammatical → n.isBlock = true →
      let t := (fragment o p n).text
      t ≠ [] → t.getLast? ≠ some '\n' ∧ t.head? ≠ some '\r' ∧
        (t.head? = some '\n' → ∃ content language m, n = .codeBlock content language m ∧
          isIndentedCode o n = true ∧ p.fenced = false ∧ content.toList.head? = some '\n') ∧
        (t.getLast? = some '\r' → ∃ content language m,
          n.Contains (.codeBlock content language m) ∧
          isIndentedCode o (.codeBlock content language m) = true ∧
          (Text.dropRightWhile (· = '\n') content.toList).getLast? = some '\r')) ∧
    (∀ (marker : Text) (ns : List Node), AreBlocks ns → AllGrammatical ns →
      (∀ n ∈ ns, IsGapless o n) →
      let ws := writtenAfter o marker none ns
      ws.map (Written.text o) = shownTexts o marker ns ∧
      (∀ t ∈ shownTexts o marker ns, IsFramed t) ∧
      blocksAfter o marker false none ns = join ['\n', '\n'] (shownTexts o marker ns) ∧
      ∀ before x y after, ws = before ++ x :: y :: after →
        ∃ u v, blocksAfter o marker true none ns =
          u ++ x.text o ++ itemGap o x.node y.node ++ y.text o ++ v) ∧
    ∀ (ns : List Node) (m : Metadata), (Node.document ns m).problems = [] →
      (∀ n ∈ ns, IsGapless o n) →
      ∃ us, write? o (.document ns m) = some (join ['\n', '\n'] us ++ ['\n']) ∧
        (∀ u ∈ us, IsFramed u) ∧
        List.Forall₂ (fun u t => trimRight u = trimRight (normalizeLineEnds t)) us
          (shownTexts o [o.bulletMarker.char] ns) := by
  refine ⟨?_, ?_, ?_⟩
  · intro n p hn hblock t ht
    obtain ⟨s, hs, before, hbefore⟩ := exists_ending o n hn p (.inl hblock) ht
    have hlast : t.getLast? = s.getLast? := by
      simp only [t]
      rw [← hbefore, List.getLast?_append_of_ne_nil _ hs.ne_nil]
    obtain ⟨hreturn, hfeed⟩ := head?_block hn hblock p ht
    rw [hlast]
    exact ⟨hs.getLast?.1, hreturn, hfeed.mp, hs.getLast?.2⟩
  · intro marker ns hblocks hg hgapless ws
    refine ⟨map_text_writtenAfter o marker none ns, fun t ht => ?_, blocksAfter_none o marker ns,
      fun before x y after hws => exists_around_gap hws⟩
    obtain ⟨hstart, hend⟩ := shown_of_mem_shownTexts hblocks hg hgapless ht
    exact Text.isFramed_of_shown hstart hend
  · intro ns m hproblems hgapless
    have hg := (Node.document ns m).problems_eq_nil_iff.mp hproblems
    rw [write?_of_problems_eq_nil o hproblems, render, body, fragment, blocksAfter_none, finish]
    by_cases hnone : shownTexts o [o.bulletMarker.char] ns = []
    · refine ⟨[], ?_, by simp, by rw [hnone]; exact .nil⟩
      rw [← shownTexts, hnone]
      rfl
    · obtain ⟨us, hjoin, -, hframed, hsame⟩ := Text.exists_framed_parts hnone fun t ht =>
        shown_of_mem_shownTexts hg.1 hg.2 hgapless ht
      exact ⟨us, congrArg (fun t => some (t ++ ['\n'])) hjoin, hframed, hsame⟩

/-- Blocks of several kinds with text, and blocks without. -/
def parted : List Node :=
  [.paragraph [.text "a"], .paragraph [],
    .list false [.listItem [.codeBlock "b\n  c" none] none] 1, .list true [] 1,
    .blockQuote [.codeBlock "d\r" none], .table []]

/-- A carriage return that ends a block ends no further line. -/
theorem parted_blocks_have_blank_lines :
    let o : Options := { useFences := false }
    write? o (.document parted) = some "a\n\n-     b\n        c\n\n>     d\n".toList ∧
    (∃ content language m,
      (Node.blockQuote [.codeBlock "d\r" none]).Contains (.codeBlock content language m) ∧
      isIndentedCode o (.codeBlock content language m) = true ∧
      (Text.dropRightWhile (· = '\n') content.toList).getLast? = some '\r') ∧
    (∀ t ∈ shownTexts o ['-'] parted, IsFramed t) ∧
    (∃ u v, blocksAfter o ['-'] true none parted =
      u ++ ['a'] ++ ['\n'] ++ "-     b\n        c".toList ++ v) ∧
    ∃ us, write? o (.document parted) = some (join ['\n', '\n'] us ++ ['\n']) ∧
      (∀ u ∈ us, IsFramed u) ∧ us.length = 3 := by
  intro o
  have H := blank_lines_part_blocks o
  have hproblems : (Node.document parted).problems = [] := rfl
  have hg := (Node.document parted).problems_eq_nil_iff.mp hproblems
  have hcode : ∀ c ∈ ["b\n  c", "d\r"], IsGapless o (.codeBlock c none) := by
    have hshown : ∀ c ∈ ["b\n  c", "d\r"],
        ∀ line ∈ codeLines (normalizeLineEnds c.toList), IsShown line := by
      decide +kernel
    refine fun c hc => isGapless_iff.mpr ⟨?_, nofun⟩
    rintro content language m heq -
    cases heq
    exact hshown c hc
  have hstep : ∀ n : Node, (∀ content language m, n ≠ .codeBlock content language m) →
      (∀ child ∈ n.children, IsGapless o child) → IsGapless o n := fun n hn hchildren =>
    isGapless_iff.mpr ⟨fun content language m heq => absurd heq (hn content language m), hchildren⟩
  have hgapless : ∀ n ∈ parted, IsGapless o n := by
    have hitem := hstep (.listItem [.codeBlock "b\n  c" none] none) nofun
      (List.forall_mem_singleton.mpr (hcode "b\n  c" (by simp)))
    simp only [parted, List.forall_mem_cons]
    refine ⟨?_, ?_, ?_, ?_, ?_, ?_, nofun⟩
    · exact hstep _ nofun (List.forall_mem_singleton.mpr (hstep _ nofun nofun))
    · exact hstep _ nofun nofun
    · exact hstep _ nofun (List.forall_mem_singleton.mpr hitem)
    · exact hstep _ nofun nofun
    · exact hstep _ nofun (List.forall_mem_singleton.mpr (hcode "d\r" (by simp)))
    · exact hstep _ nofun nofun
  have hsiblings := H.2.1 ['-'] parted hg.1 hg.2 hgapless
  refine ⟨by decide +kernel, ?_, hsiblings.2.1, ?_, ?_⟩
  · exact (H.1 (.blockQuote [.codeBlock "d\r" none]) { marker := ['-'] }
      ⟨by simp [AreBlocks, Node.isBlock], trivial, trivial⟩ rfl (by decide +kernel)).2.2.2
      (by decide +kernel)
  · obtain ⟨x, y, after, hws, hx, hy, hgap⟩ : ∃ x y after,
        writtenAfter o ['-'] none parted = [] ++ x :: y :: after ∧ x.text o = ['a'] ∧
        y.text o = "-     b\n        c".toList ∧ itemGap o x.node y.node = ['\n'] :=
      ⟨_, _, _, rfl, by decide +kernel, by decide +kernel, rfl⟩
    have haround := hsiblings.2.2.2 [] x y after hws
    rwa [hx, hy, hgap] at haround
  · obtain ⟨us, hwrite, hframed, hsame⟩ := H.2.2 parted [] hproblems hgapless
    exact ⟨us, hwrite, hframed, hsame.length_eq.trans (by decide +kernel)⟩

/-- A paragraph and an empty quote. -/
def tight : List Node :=
  [.paragraph [.text "a"], .blockQuote []]

/-- Indented code is written with the line feed that it starts with and with the carriage return
that it ends with; and in an item a paragraph and a quote have no blank line between them. -/
theorem code_keeps_outer_breaks_and_items_are_tight :
    (∃ o : Options, (Node.codeBlock "\na" none).Grammatical ∧
      (fragment o { marker := ['-'] } (.codeBlock "\na" none)).text = "\n    a".toList ∧
      (Node.codeBlock "d\r" none).Grammatical ∧
      (fragment o { marker := ['-'] } (.codeBlock "d\r" none)).text = "    d\r".toList) ∧
    (Node.document [.list false [.listItem tight none] 1]).problems = [] ∧
    (∀ n ∈ tight, ∀ content language m, ¬ n.Contains (.codeBlock content language m)) ∧
    shownTexts {} ['-'] tight = [['a'], ['>']] ∧
    blocksAfter {} ['-'] true none tight = "a\n>".toList ∧
    blocksAfter {} ['-'] true none tight ≠ join ['\n', '\n'] (shownTexts {} ['-'] tight) ∧
    write? {} (.document [.list false [.listItem tight none] 1]) = some "- a\n  >\n".toList := by
  refine ⟨⟨{ useFences := false }, trivial, by decide +kernel, trivial, by decide +kernel⟩, rfl,
    ?_, ?_, ?_, ?_, ?_⟩
  · simp only [tight, List.forall_mem_cons]
    refine ⟨fun content language m h => ?_, fun content language m h => ?_, nofun⟩
    · cases h with
      | inside hchild h =>
        obtain rfl := List.mem_singleton.mp hchild
        cases h with
        | inside hnone => cases hnone
    · cases h with
      | inside hnone => cases hnone
  all_goals decide +kernel

end Markdown

end DocumentTree
