import DocumentTree.Proofs.Markdown.BlockStarts
import DocumentTree.Proofs.Markdown.Documents
import DocumentTree.Proofs.Rendering.Described
import DocumentTree.Store.Shorthand

/-!
# The line of a paragraph

A paragraph of one text is written on one line, whatever the text is. The line opens no other block,
and a reader who takes the escapes off gets the text back, but for the blanks that run together.
-/

namespace DocumentTree

namespace Markdown

/-- Text on its own has no neighbours to be adjusted to. -/
theorem joinFragments_text (o : Options) (t : Text) : joinFragments o [⟨t, .text⟩] = t :=
  (joinFragments_of_texts o (List.forall_mem_singleton.mpr rfl)).trans (List.append_nil t)

/-- The line of a paragraph of one text. -/
def paragraphLine (t : Text) : Text :=
  escapeBlockStart (escapeText (Text.trim (Text.collapseBlanks t)))

/-- **The line is read back.** -/
theorem unescape_paragraphLine (t : Text) :
    unescape (paragraphLine t) = Text.trim (Text.collapseBlanks t) :=
  (escapes_escapeText _).escapeBlockStart.unescape_eq

/-- There is no line end in it. -/
theorem not_mem_paragraphLine {c : Char} (hc : Text.isRunningBlank c = true) (hne : c ≠ ' ')
    (t : Text) : c ∉ paragraphLine t := by
  intro hmem
  rcases (escapes_escapeText _).escapeBlockStart.mem hmem with rfl | hmem
  · exact absurd hc (by decide)
  · exact hne (Text.eq_space_of_mem_collapseBlanks ((Text.trim_sublist _).mem hmem) hc)

/-- **The line opens no other block.** -/
theorem not_opensBlock_paragraphLine (t : Text) : ¬ OpensBlock (paragraphLine t) := by
  refine not_opensBlock_escapeBlockStart (fun hmem => ?_) fun c hc => Text.head?_trim hc
  have hspace := Text.eq_space_of_mem_collapseBlanks ((Text.trim_sublist _).mem hmem) (by decide)
  exact absurd hspace (by decide)

/-- The line is trimmed at its end, like the text. -/
theorem getLast?_paragraphLine {t : Text} {c : Char} (h : (paragraphLine t).getLast? = some c) :
    Text.isBlank c = false := by
  rw [paragraphLine, getLast?_escapeBlockStart, ← trim_escapeText] at h
  exact Text.getLast?_trim h

/-- A document of one paragraph of one text is written as its line. -/
theorem render_text (t : String) :
    render {} (.document [.paragraph [.text t]]) = paragraphLine t.toList ++ ['\n'] := by
  have hbody : body {} (.document [.paragraph [.text t]]) = paragraphLine t.toList := by
    rw [body_document_singleton]
    simp [body, fragment, fragments, joinFragments_text, literal, paragraph, paragraphLine,
      trim_escapeText]
  rw [render, hbody]
  exact finish_eq (not_mem_paragraphLine (by decide) (by decide) _) fun c hc =>
    getLast?_paragraphLine hc

end Markdown

open Markdown (unescape OpensBlock paragraphLine)

/-- **A paragraph of any text is written on one line.** Rendered with the default options, it is
a line and a line feed; the line is the text with its running blanks as spaces and trimmed, once the
escapes are taken off from left to right; and it opens no other block. -/
theorem paragraph_is_written_on_one_line (t : String) :
    ∃ shorthand e line, Shorthand.ofName? "paragraph" = some shorthand ∧
      shorthand.apply [.data (.str t)] [] = .ok e ∧
      (renderDescription (.item e) (.data .null) []).result = .ok (line ++ ['\n']) ∧
      '\n' ∉ line ∧ '\r' ∉ line ∧
      unescape line = Text.trim (Text.collapseBlanks t.toList) ∧ ¬ OpensBlock line := by
  have hdocument : (Element.element Role.root.toValue []
      [.element Role.paragraph.toValue [] [.text t]]).document =
      .ok (.document [.paragraph [.text t]]) := rfl
  refine ⟨.plain .paragraph, .element Role.paragraph.toValue [] [.text t], paragraphLine t.toList,
    rfl, rfl, ?_, Markdown.not_mem_paragraphLine (by decide) (by decide) _,
    Markdown.not_mem_paragraphLine (by decide) (by decide) _, Markdown.unescape_paragraphLine _,
    Markdown.not_opensBlock_paragraphLine _⟩
  rw [result_renderDescription (o := {}) rfl rfl, hdocument]
  simp [Except.mapError, Markdown.render_text]

end DocumentTree
