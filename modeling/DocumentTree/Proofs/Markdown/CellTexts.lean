import DocumentTree.Proofs.Markdown.Destinations
import DocumentTree.Proofs.Markdown.ParagraphLine

/-!
# Reading the text of a cell back

A reader takes the backslashes before pipes off a cell before it takes off any other escape. The
text of a cell is escaped first and its pipes after that, where a pipe behind a backslash counts as
escaped. A backslash of the text itself is doubled by then, so one of the two is taken for the
escape of a pipe behind it, and the text loses it. All other texts are read back.

## Main definitions

* `unescapePipes` — a text with the backslashes right before pipes taken off.
* `readCell` — what a reader makes of a cell.
-/

namespace DocumentTree

variable {t : Text} {q : Option Char → Prop}

namespace Markdown

/-! ## Backslashes and blanks -/

/-- Where backslashes stand is the same behind the white space at the start. -/
theorem backslashesStand_trimLeft :
    BackslashesStand q (Text.trimLeft t) ↔ BackslashesStand q t := by
  induction t with
  | nil => rfl
  | cons c t ih =>
    cases hc : Text.isBlank c with
    | true =>
      have hne : c ≠ '\\' := by
        rintro rfl
        cases hc
      rw [Text.trimLeft, List.dropWhile_cons_of_pos hc, backslashesStand_cons_of_ne hne]
      exact ih
    | false => rw [Text.trimLeft, List.dropWhile_cons_of_neg (by simp [hc])]

/-- What keeps a backslash before it in a cell: anything but a pipe. -/
def IsNoPipe (next : Option Char) : Prop :=
  next ≠ some '|'

theorem backslashesStand_trimRight :
    BackslashesStand IsNoPipe (Text.trimRight t) ↔ BackslashesStand IsNoPipe t := by
  induction t with
  | nil => rfl
  | cons c t ih =>
    by_cases hkeep : Text.isBlank c = false ∨ Text.trimRight t ≠ []
    · rw [Text.trimRight_cons hkeep, backslashesStand_cons, backslashesStand_cons, ih, IsNoPipe,
        IsNoPipe, ne_eq, Text.head?_trimRight (by decide)]
    · rw [not_or, not_not, Bool.not_eq_false] at hkeep
      have hne : c ≠ '\\' := by
        rintro rfl
        cases hkeep.1
      rw [Text.trimRight_cons_eq_nil hkeep.1 hkeep.2, backslashesStand_cons_of_ne hne, ← ih,
        hkeep.2]

theorem backslashesStand_collapseBlanksFrom (after : Bool) :
    BackslashesStand IsNoPipe (Text.collapseBlanksFrom after t) ↔ BackslashesStand IsNoPipe t := by
  induction t generalizing after with
  | nil => rfl
  | cons c t ih =>
    rw [Text.collapseBlanksFrom]
    split
    · rename_i hc
      have hne : c ≠ '\\' := by
        rintro rfl
        cases hc
      rw [backslashesStand_cons_of_ne hne]
      split
      · exact ih true
      · rw [backslashesStand_cons_of_ne (by decide)]
        exact ih true
    · rw [backslashesStand_cons, backslashesStand_cons, ih, IsNoPipe, IsNoPipe, ne_eq,
        ← Text.collapseBlanks, Text.head?_collapseBlanks (by decide)]

/-- Backslashes and pipes are next to each other in a text just where they are in the text without
its surplus white space. -/
theorem backslashesStand_trim_collapseBlanks :
    BackslashesStand IsNoPipe (Text.trim (Text.collapseBlanks t)) ↔
      BackslashesStand IsNoPipe t := by
  rw [Text.trim, backslashesStand_trimRight, backslashesStand_trimLeft, Text.collapseBlanks,
    backslashesStand_collapseBlanksFrom]

/-! ## Reading a cell -/

/-- A text with the backslashes right before pipes taken off, from left to right. -/
def unescapePipes : Text → Text
  | [] => []
  | '\\' :: '|' :: cs => '|' :: unescapePipes cs
  | c :: cs => c :: unescapePipes cs

/-- What a reader makes of a cell: first it takes the escapes of pipes off, then all others. -/
def readCell (t : Text) : Text :=
  unescape (unescapePipes t)

theorem unescapePipes_cons {c : Char} (h : c = '\\' → t.head? ≠ some '|') :
    unescapePipes (c :: t) = c :: unescapePipes t := by
  rw [unescapePipes]
  rintro cs rfl rfl
  exact h rfl rfl

/-- Behind a backslash that is not taken off is no pipe. -/
theorem head?_ne_pipe {c : Char} (hpair : ∀ u, c = '\\' → t = '|' :: u → False) (hc : c = '\\') :
    t.head? ≠ some '|' := by
  intro hhead
  obtain ⟨u, rfl⟩ := List.head?_eq_some_iff.mp hhead
  exact hpair u hc rfl

/-- Taking these backslashes off changes nothing just where there are none. -/
theorem unescapePipes_eq_self_iff : unescapePipes t = t ↔ BackslashesStand IsNoPipe t := by
  fun_induction unescapePipes t with
  | case1 => exact iff_of_true rfl backslashesStand_nil
  | case2 cs ih =>
    rw [backslashesStand_cons]
    simp [IsNoPipe]
  | case3 c cs hpair ih =>
    rw [backslashesStand_cons, List.cons.injEq, ih]
    simp only [true_and, iff_and_self]
    exact fun _ => head?_ne_pipe hpair

/-! ## Escapes of a cell -/

theorem needsEscape_pipe (previous next : Option Char) : needsEscape previous '|' next = false := by
  simp [needsEscape, isAlwaysEscaped]

theorem escapeTextAfter_pipe (previous : Option Char) (t : Text) :
    escapeTextAfter previous ('|' :: t) = '|' :: escapeTextAfter (some '|') t := by
  rw [escapeTextAfter, needsEscape_pipe, if_neg (by simp)]

theorem escapeTextAfter_backslash (previous : Option Char) (t : Text) :
    escapeTextAfter previous ('\\' :: t) = '\\' :: '\\' :: escapeTextAfter (some '\\') t := by
  rw [escapeTextAfter, if_pos (by simp [needsEscape, isAlwaysEscaped])]

/-- Behind a backslash, the escaped form starts with a pipe only if the text does. -/
theorem head?_escapePipesAfter_escapeTextAfter {previous : Option Char}
    (h : (escapePipesAfter (some '\\') (escapeTextAfter previous t)).head? = some '|') :
    t.head? = some '|' := by
  have hhead : (escapeTextAfter previous t).head? = some '|' := by
    cases htext : escapeTextAfter previous t with
    | nil => simp [htext, escapePipesAfter] at h
    | cons d ds => simpa [htext, escapePipesAfter] using h
  exact (eq_or_head?_of_escapeTextAfter hhead).resolve_left (by decide)

/-- **After the backslashes before pipes, the other escapes of a cell are taken off**, and what is
left is the text without its own backslashes before pipes. -/
theorem escapes_unescapePipes (before : Option Char) {previous : Option Char}
    (h : t.head? = some '|' → previous ≠ some '\\') :
    Escapes (unescapePipes t)
      (unescapePipes (escapePipesAfter previous (escapeTextAfter before t))) := by
  fun_induction unescapePipes t generalizing before previous with
  | case1 => exact .nil
  | case2 cs ih =>
    -- Both backslashes of the escape stay, and the second one is lost with the pipe behind it.
    have hform : escapePipesAfter previous (escapeTextAfter before ('\\' :: '|' :: cs)) =
        '\\' :: '\\' :: '|' :: escapePipesAfter (some '|') (escapeTextAfter (some '|') cs) := by
      simp [escapeTextAfter_backslash, escapeTextAfter_pipe, escapePipesAfter]
    rw [hform, unescapePipes_cons (by simp), unescapePipes]
    exact .escaped (by decide) (ih (some '|') fun _ => by simp)
  | case3 c cs hpair ih =>
    by_cases hslash : c = '\\'
    · subst hslash
      have hfree : cs.head? ≠ some '|' := head?_ne_pipe hpair rfl
      rw [escapeTextAfter_backslash, escapePipesAfter, if_neg (by simp), escapePipesAfter,
        if_neg (by simp), unescapePipes_cons (by simp),
        unescapePipes_cons fun _ => mt head?_escapePipesAfter_escapeTextAfter hfree]
      exact .escaped (by decide) (ih _ fun hhead => absurd hhead hfree)
    by_cases hpipe : c = '|'
    · subst hpipe
      rw [escapeTextAfter_pipe, escapePipesAfter, if_pos (by simpa using h rfl), unescapePipes]
      exact .plain (by decide) (ih _ fun _ => by simp)
    · rw [escapeTextAfter]
      split
      · rename_i hc
        rw [escapePipesAfter, if_neg (by simp), escapePipesAfter, if_neg (by simp [hpipe]),
          unescapePipes_cons (by simp [hpipe]), unescapePipes_cons (by simp [hslash])]
        exact .escaped (isPunctuation_of_needsEscape hc) (ih _ fun _ => by simpa using hslash)
      · rw [escapePipesAfter, if_neg (by simp [hpipe]), unescapePipes_cons (by simp [hslash])]
        exact .plain hslash (ih _ fun _ => by simpa using hslash)

/-- The text of a cell of one literal text, with all escapes. -/
theorem text_cell_text (marker : Text) (s : String) (alignment : Option String) (isHeader : Bool)
    (metadata metadata' : Metadata) :
    (cell {} marker (.tableCell [.text s metadata] alignment isHeader metadata')).text =
      escapePipes (escapeText (Text.trim (Text.collapseBlanks s.toList))) := by
  rw [← trim_escapeText]
  simp only [cell, cellContent, fragments, fragment, joinFragments_text]
  rfl

/-- **A cell is read back unless a backslash is right before a pipe.** With the default options, a
literal text in a cell is read as the text, blanks run together and none at the ends, without its
backslashes right before pipes; so it is the text itself just where there are none. -/
theorem cell_is_read_back_iff (marker : Text) (s : String) (alignment : Option String)
    (isHeader : Bool) (metadata metadata' : Metadata) :
    let raw := Text.trim (Text.collapseBlanks s.toList)
    let written :=
      (cell {} marker (.tableCell [.text s metadata] alignment isHeader metadata')).text
    readCell written = unescapePipes raw ∧
      (readCell written = raw ↔ BackslashesStand IsNoPipe s.toList) := by
  intro raw written
  have hread : readCell written = unescapePipes raw := by
    rw [readCell, show written = _ from text_cell_text ..]
    have hstart : raw.head? = some '|' → none ≠ some '\\' := fun _ => nofun
    exact (escapes_unescapePipes none hstart).unescape_eq
  refine ⟨hread, ?_⟩
  rw [hread, unescapePipes_eq_self_iff, backslashesStand_trim_collapseBlanks]

/-- The backslash of a text that is right before a pipe is lost. -/
theorem backslash_before_pipe_is_not_read_back :
    ¬ ∀ s : String, readCell (cell {} ['-'] (.tableCell [.text s] none false)).text =
      Text.trim (Text.collapseBlanks s.toList) := by
  intro hclaim
  exact absurd (hclaim "a\\|b") (by decide)

end Markdown

end DocumentTree
