import DocumentTree.Proofs.Markdown.CodeSequences
import DocumentTree.Proofs.Markdown.Enclosures

/-!
# Indented code is read back

A reader takes four spaces off every line of indented code that is not empty. What is left are the
lines of the code, with the white space that they start and end with, and the empty ones.

The text of a document is trimmed at its end, whatever stands there. Line feeds at the end of
indented code are not written anyway, but the other white space at the end of the last line is code:
between blocks it is kept, and at the end of a document it is lost.

## Main definitions

* `readIndented t` — the code that a reader finds in an indented text.
-/

namespace DocumentTree.Markdown

open Text (lines unlines trimRight isBlank)

variable {o : Options} {content : String} {language : Option String} {m : Metadata}

/-- The code that a reader finds in an indented text: its lines without the four spaces that each of
them starts with, if it is not empty. -/
def readIndented (t : Text) : Option Text :=
  ((lines t).mapM (unindentLine 4)).map unlines

theorem readIndented_indented (t : Text) : readIndented (indented t) = some t := by
  rw [readIndented, lines_indented, mapM_map_of_inverse (unindentLine_indentLine 4),
    Option.map_some, Text.unlines_lines]

/-- The line feeds at the end of a text are white space. -/
theorem exists_dropLineFeeds_append (t : Text) :
    ∃ feeds, Text.dropRightWhile (· = '\n') t ++ feeds = t ∧ ∀ c ∈ feeds, isBlank c = true := by
  obtain ⟨feeds, hfeeds, hall⟩ := Text.exists_dropRightWhile_append (· = '\n') t
  refine ⟨feeds, hfeeds, fun c hc => ?_⟩
  obtain rfl : c = '\n' := by simpa using hall c hc
  decide

/-- White space at the end is all trimmed, with line feeds taken off before or not. -/
theorem trimRight_dropLineFeeds (t : Text) :
    trimRight (Text.dropRightWhile (· = '\n') t) = trimRight t := by
  obtain ⟨feeds, hfeeds, hblank⟩ := exists_dropLineFeeds_append t
  calc trimRight (Text.dropRightWhile (· = '\n') t)
      = trimRight (Text.dropRightWhile (· = '\n') t ++ feeds) :=
        (Text.dropRightWhile_append _ hblank).symm
    _ = trimRight t := by rw [hfeeds]

/-- Trimming keeps a text just where it ends in a character that is no white space. -/
theorem trimRight_eq_self_iff {t : Text} (h : t ≠ []) :
    trimRight t = t ↔ isBare t.getLast? = true := by
  have hlast := List.getLast?_eq_some_getLast h
  constructor
  · intro htrim
    have hbare : isBlank (t.getLast h) = false :=
      Text.getLast?_dropRightWhile (p := isBlank) (by rw [← hlast]; exact congrArg _ htrim)
    simp [hlast, isBare, hbare]
  · intro hbare
    refine Text.dropRightWhile_eq_self fun c hc => ?_
    simpa [hc, isBare] using hbare

/-- Code that is indented is not blank. -/
theorem trim_ne_nil_of_isIndentedCode
    (h : isIndentedCode o (.codeBlock content language m) = true) :
    Text.trim content.toList ≠ [] := by
  simp only [isIndentedCode, Bool.not_eq_true', Bool.or_eq_false_iff,
    List.isEmpty_eq_false_iff] at h
  exact h.2

theorem ne_nil_of_isIndentedCode (h : isIndentedCode o (.codeBlock content language m) = true) :
    content.toList ≠ [] := by
  intro hnil
  exact trim_ne_nil_of_isIndentedCode h (by rw [hnil]; rfl)

/-- There is more than line feeds in it. -/
theorem dropLineFeeds_ne_nil (h : isIndentedCode o (.codeBlock content language m) = true) :
    Text.dropRightWhile (· = '\n') content.toList ≠ [] := by
  intro hnil
  refine indentedCode_ne_nil (trim_ne_nil_of_isIndentedCode h) ?_
  rw [indentedCode_eq, hnil]
  rfl

/-- Indented code by itself is a document with its end trimmed. -/
theorem render_indentedCode (h : isIndentedCode o (.codeBlock content language m) = true)
    (hreturn : '\r' ∉ content.toList) (m' : Metadata) :
    render o (.document [.codeBlock content language m] m') =
      indented (trimRight content.toList) ++ ['\n'] := by
  have htext : body o (.codeBlock content language m) = indentedCode content.toList := by
    rw [body, fragment, codeBlock, if_pos (by simp [h])]
  have hlacks : '\r' ∉ indentedCode content.toList := by
    refine Text.not_mem_unlines (by decide) fun line hline => ?_
    obtain ⟨inner, hinner, rfl⟩ := List.mem_map.mp hline
    exact Text.not_mem_indentLine (Text.not_mem_spaces (by decide) 4)
      (Text.not_mem_line hinner (Text.not_mem_dropRightWhile _ hreturn))
  rw [render, body_document_singleton, htext, finish, Text.normalizeLineEnds_eq_self hlacks,
    indentedCode_eq, trimRight_indented, trimRight_dropLineFeeds]

/-- **Indented code is read back without the white space at its end.** Code without carriage returns
that the options have indented, alone in a document, is read back from the lines before the final
line feed as far as it goes on to a character that is no white space. So the code without its final
line feeds is read back, and no character of it is lost, exactly if it ends in no other white
space. -/
theorem indented_code_is_read_back
    (hcode : isIndentedCode o (.codeBlock content language m) = true)
    (hreturn : '\r' ∉ content.toList) (m' : Metadata) :
    let code := Text.dropRightWhile (· = '\n') content.toList
    ∃ t, write? o (.document [.codeBlock content language m] m') = some (t ++ ['\n']) ∧
      readIndented t = some (trimRight code) ∧
      (readIndented t = some code ↔ isBare code.getLast? = true) := by
  intro code
  have hread : readIndented (indented (trimRight content.toList)) = some (trimRight code) := by
    rw [readIndented_indented, trimRight_dropLineFeeds]
  refine ⟨indented (trimRight content.toList), ?_, hread, ?_⟩
  · rw [write?_of_problems_eq_nil o rfl, render_indentedCode hcode hreturn]
  · rw [hread, Option.some.injEq]
    exact trimRight_eq_self_iff (dropLineFeeds_ne_nil hcode)

/-- White space inside of code is read back: an empty line at the start, blanks at the start and the
end of a line, and a line of blanks. -/
theorem gaps_in_code_are_read_back :
    let o : Options := { useFences := false }
    let n := Node.codeBlock "\n a  \n   \n\tb\n\n" none
    let t := "\n     a  \n       \n    \tb".toList
    isIndentedCode o n = true ∧ write? o (.document [n]) = some (t ++ ['\n']) ∧
    readIndented t = some "\n a  \n   \n\tb".toList := by
  intro o n t
  have hcode : isIndentedCode o n = true := by decide +kernel
  have hwrite : write? o (.document [n]) = some (t ++ ['\n']) := by decide +kernel
  obtain ⟨u, hu, -, hread⟩ := indented_code_is_read_back hcode (by decide) []
  obtain rfl : u = t := List.append_cancel_right (Option.some.inj (hu.symm.trans hwrite))
  exact ⟨hcode, hwrite, hread.mpr (by decide +kernel)⟩

/-- The blanks that code ends in are lost at the end of a document, and kept before another
block. -/
theorem blanks_at_end_of_code_are_lost :
    let o : Options := { useFences := false }
    let n := Node.codeBlock "a  " none
    isIndentedCode o n = true ∧ '\r' ∉ "a  ".toList ∧
    write? o (.document [n]) = some "    a\n".toList ∧
    readIndented "    a".toList = some ['a'] ∧
    ['a'] ≠ Text.dropRightWhile (· = '\n') "a  ".toList ∧
    write? o (.document [n, .thematicBreak]) = some "    a  \n\n---\n".toList := by
  refine ⟨?_, ?_, ?_, ?_, ?_, ?_⟩ <;> decide +kernel

end DocumentTree.Markdown
