import DocumentTree.Proofs.Markdown.Characters
import DocumentTree.Proofs.Markdown.ParagraphLine

/-!
# Headings are read back

A heading is written on one line: its hashes, a space, and its content. A reader counts the hashes
that the line starts with, takes the blanks off the ends of the rest, and then a run of hashes off
its end, if a blank or nothing stands before the run. Content that would end in such a run is
written with an escape in it, so the reader keeps all of the content.

Readers differ in what is a blank to them. The escape is put behind any white space, so the reader
may go by any class between the space and all white space.

## Main definitions

* `withoutClosing blank t` — a text without the run of hashes that closes it.
* `readHeading blank line` — the level and the content of the heading that a line is.
* `headingContent t` — the content of a heading of one text, as it is written.
-/

namespace DocumentTree.Markdown

open Text (isBlank IsLineEnd)

variable {blank : Char → Bool} {raw t content : Text} {c : Char}

/-! ## The reader -/

/-- A text without the run of hashes that it ends with and the blanks before the run, if there is a
run and a blank, or nothing, stands before it. -/
def withoutClosing (blank : Char → Bool) (t : Text) : Text :=
  let body := t.rdropWhile (· = '#')
  if body ≠ t ∧ body.getLast?.all blank then body.rdropWhile blank else t

/-- The level and the content of the heading that a line is. It starts with one to six hashes, which
a blank or the end of the line follows. -/
def readHeading (blank : Char → Bool) (line : Text) : Option (Nat × Text) :=
  let hashes := line.takeWhile (· = '#')
  let rest := line.dropWhile (· = '#')
  if 1 ≤ hashes.length ∧ hashes.length ≤ 6 ∧ rest.head?.all blank then
    some (hashes.length, withoutClosing blank ((rest.dropWhile blank).rdropWhile blank))
  else none

/-- A heading starts with as many hashes as its level says. Content that no blanks are around and
no run of hashes closes is read whole. -/
theorem readHeading_heading (hspace : blank ' ' = true) (level : HeadingLevel)
    (hhead : ∀ c, content.head? = some c → blank c = false)
    (hlast : ∀ c, content.getLast? = some c → blank c = false)
    (hclosed : withoutClosing blank content = content) :
    readHeading blank (heading level content) = some (level.val, content) := by
  have hlevel : 1 ≤ level.val ∧ level.val ≤ 6 := ⟨level.one_le, level.le_six⟩
  by_cases hempty : content = []
  · subst hempty
    simp [readHeading, heading, hlevel, hclosed]
  have hline : heading level content = List.replicate level.val '#' ++ ' ' :: content := by
    simp [heading, hempty]
  have htake : (heading level content).takeWhile (· = '#') = List.replicate level.val '#' := by
    rw [hline, Text.takeWhile_replicate_append, List.takeWhile_cons_of_neg (by decide),
      List.append_nil]
  have hdrop : (heading level content).dropWhile (· = '#') = ' ' :: content := by
    rw [hline, Text.dropWhile_replicate_append, List.dropWhile_cons_of_neg (by decide)]
  have hleft : (' ' :: content).dropWhile blank = content := by
    rw [List.dropWhile_cons_of_pos hspace]
    cases content with
    | nil => rfl
    | cons c content => rw [List.dropWhile_cons_of_neg (by simp [hhead c rfl])]
  have hright : content.rdropWhile blank = content := by
    rw [← Text.dropRightWhile_eq, Text.dropRightWhile_eq_self hlast]
  simp only [readHeading, htake, hdrop, hleft, hright, hclosed, List.length_replicate]
  exact if_pos ⟨hlevel.1, hlevel.2, hspace⟩

/-! ## Content as it is written -/

/-- The content of a heading of one text, as it is written. -/
def headingContent (t : Text) : Text :=
  escapeClosingHashes (escapeText (Text.trim (Text.collapseBlanks t)))

/-- **The escape of a closing run is taken off again.** -/
theorem Escapes.escapeClosingHashes (h : Escapes raw t) : Escapes raw (escapeClosingHashes t) := by
  rcases escapeClosingHashes_cases t with heq | ⟨before, rest, rfl, hbefore, heq⟩
  · rwa [heq]
  · rw [heq]
    refine h.insert (fun hlast => ?_) (by decide) (by decide)
    exact absurd (hbefore _ hlast) (by decide)

theorem eq_or_head?_of_escapeClosingHashes (h : (escapeClosingHashes t).head? = some c) :
    c = '\\' ∨ t.head? = some c := by
  rcases escapeClosingHashes_cases t with heq | ⟨before, rest, rfl, -, heq⟩
  · exact .inr (heq ▸ h)
  · rw [heq] at h
    cases before with
    | nil => exact .inl (Option.some.inj h).symm
    | cons b before => exact .inr h

/-- The escape does not stand at the end. -/
theorem getLast?_escapeClosingHashes (t : Text) :
    (escapeClosingHashes t).getLast? = t.getLast? := by
  rcases escapeClosingHashes_cases t with heq | ⟨before, rest, rfl, -, heq⟩
  · rw [heq]
  · rw [heq]
    simp [List.getLast?_append]

/-- On one line, a final run of hashes gets its escape just where white space, or nothing, stands
before it. -/
theorem escapeClosingHashes_of_not_mem (h : '\n' ∉ t) :
    let body := t.rdropWhile (· = '#')
    escapeClosingHashes t =
      if body ≠ t ∧ body.getLast?.all isBlank then body ++ '\\' :: t.rtakeWhile (· = '#')
      else t := by
  intro body
  have hfinal : Text.cutFinalLineFeed t = (t, []) := by
    have hcut := cutFinalLineFeed_append t
    have hline := cutFinalLineFeed_of_not_mem h
    rw [hline] at hcut
    exact Prod.ext hline (by simpa using hcut)
  have happend : body ++ t.rtakeWhile (· = '#') = t := List.rdropWhile_append_rtakeWhile
  have hrun : body ≠ t ↔ t.rtakeWhile (· = '#') ≠ [] := by
    conv_lhs => rhs; rw [← happend]
    simp
  rw [escapeClosingHashes, hfinal]
  simp only [cutClosingHashes_eq, hrun]
  cases hlast : body.getLast? <;> simp [body]

/-- **No run of hashes closes the content** for a reader to whom blanks are white space. -/
theorem withoutClosing_escapeClosingHashes (hblank : ∀ c, blank c = true → isBlank c = true)
    (h : '\n' ∉ t) : withoutClosing blank (escapeClosingHashes t) = escapeClosingHashes t := by
  have hall : ∀ x : Option Char, x.all blank = true → x.all isBlank = true := by
    rintro (_ | c) hx
    · rfl
    · exact hblank c hx
  have hslash : blank '\\' = false := by
    rw [← Bool.not_eq_true]
    exact fun hx => absurd (hblank _ hx) (by decide)
  rw [escapeClosingHashes_of_not_mem h]
  split
  · let body := t.rdropWhile (· = '#')
    let hashes := t.rtakeWhile (· = '#')
    have hbody : (body ++ '\\' :: hashes).rdropWhile (· = '#') = body ++ ['\\'] := by
      have hmarks : ∀ d ∈ hashes, decide (d = '#') = true := by
        intro d hd
        exact List.mem_rtakeWhile_imp (p := fun d => decide (d = '#')) hd
      rw [← Text.dropRightWhile_eq, List.append_cons, Text.dropRightWhile_append _ hmarks,
        Text.dropRightWhile_concat]
      rfl
    rw [withoutClosing, hbody]
    simp [hslash, body]
  · rename_i hopen
    rw [withoutClosing]
    exact if_neg fun hclosed => hopen ⟨hclosed.1, hall _ hclosed.2⟩

/-- The content that is written is read back. -/
theorem unescape_headingContent (t : Text) :
    unescape (headingContent t) = Text.trim (Text.collapseBlanks t) :=
  (escapes_escapeText _).escapeClosingHashes.unescape_eq

theorem not_mem_escapeText_trim (hc : IsLineEnd c) (t : Text) :
    c ∉ escapeText (Text.trim (Text.collapseBlanks t)) := by
  rw [← trim_escapeText]
  exact Text.not_mem_trim (not_mem_literal hc {} t)

/-- There is no line end in it. -/
theorem not_mem_headingContent (hc : IsLineEnd c) (t : Text) : c ∉ headingContent t :=
  not_mem_escapeClosingHashes hc (not_mem_escapeText_trim hc t)

/-- No white space is around it. -/
theorem isBlank_of_headingContent
    (h : (headingContent t).head? = some c ∨ (headingContent t).getLast? = some c) :
    isBlank c = false := by
  rw [headingContent, getLast?_escapeClosingHashes] at h
  rw [← trim_escapeText] at h
  rcases h with h | h
  · rcases eq_or_head?_of_escapeClosingHashes h with rfl | h
    · decide
    · exact Text.head?_trim h
  · exact Text.getLast?_trim h

/-! ## Headings of one text -/

/-- A heading of one text is its content behind hashes, wherever it is placed. -/
theorem text_heading {o : Options} (ho : o.escapeSpecial = true) (placement : Placement)
    (level : HeadingLevel) (t : String) (m m' : Metadata) :
    (fragment o placement (.heading level [.text t m] m')).text =
      heading level (headingContent t.toList) := by
  simp [fragment, fragments, joinFragments_text, literal, ho, headingContent, trim_escapeText]

/-- The line of a heading does not end in white space. -/
theorem getLast?_heading (level : HeadingLevel)
    (hlast : ∀ c, content.getLast? = some c → isBlank c = false)
    (h : (heading level content).getLast? = some c) : isBlank c = false := by
  have hhashes : ∀ n, (List.replicate n '#').getLast? = some c → isBlank c = false := by
    intro n hn
    rw [List.eq_of_mem_replicate (List.mem_of_getLast? hn)]
    decide
  by_cases hempty : content = []
  · exact hhashes level.val (by simpa [heading, hempty] using h)
  · refine hlast c ?_
    rw [← h, heading, if_neg (by simpa using hempty), List.append_cons,
      List.getLast?_append_of_ne_nil _ hempty]

/-- **Headings are read back.** Where text is escaped, a heading of any text is written on one line:
a hash for each level, and behind a space the content, if there is any. A reader finds the level in
the line and all of the content, no hash of which opens or closes the heading, whatever white space
counts as blank to the reader. Once its escapes are taken off, the content is the text with its
running blanks as spaces and trimmed. -/
theorem heading_is_read_back {o : Options} (ho : o.escapeSpecial = true)
    (hspace : blank ' ' = true) (hblank : ∀ c, blank c = true → isBlank c = true)
    (level : HeadingLevel) (t : String) (m m' m'' : Metadata) :
    ∃ line content,
      (∀ placement, (fragment o placement (.heading level [.text t m] m')).text = line) ∧
      write? o (.document [.heading level [.text t m] m'] m'') = some (line ++ ['\n']) ∧
      '\n' ∉ line ∧ '\r' ∉ line ∧
      line = List.replicate level.val '#' ++ (if content = [] then [] else ' ' :: content) ∧
      readHeading blank line = some (level.val, content) ∧
      unescape content = Text.trim (Text.collapseBlanks t.toList) := by
  let content := headingContent t.toList
  have hends : ∀ c, content.head? = some c ∨ content.getLast? = some c → isBlank c = false :=
    fun c hc => isBlank_of_headingContent hc
  have hbare : ∀ c, content.head? = some c ∨ content.getLast? = some c → blank c = false := by
    intro c hc
    rw [← Bool.not_eq_true]
    exact mt (hblank c) (by simp [hends c hc])
  have hone : ∀ c, IsLineEnd c → c ∉ heading level content := fun c hc =>
    not_mem_heading hc level (not_mem_headingContent hc _)
  have hclosed : withoutClosing blank content = content :=
    withoutClosing_escapeClosingHashes hblank (not_mem_escapeText_trim (.inl rfl) _)
  refine ⟨heading level content, content, fun placement => text_heading ho placement level t m m',
    ?_, hone _ (.inl rfl), hone _ (.inr rfl), ?_, ?_, unescape_headingContent _⟩
  · have hbody : body o (.document [.heading level [.text t m] m'] m'') =
        heading level content := by
      rw [body_document_singleton]
      exact text_heading ho _ level t m m'
    rw [write?_of_problems_eq_nil o rfl, render, hbody, finish_eq (hone _ (.inr rfl))]
    exact fun c hc => getLast?_heading level (fun c hc => hends c (.inr hc)) hc
  · simp only [heading, List.isEmpty_iff]
    split <;> simp
  · exact readHeading_heading hspace level (fun c hc => hbare c (.inl hc))
      (fun c hc => hbare c (.inr hc)) hclosed

/-- Every blank inside a line is white space. -/
theorem isBlank_of_isLineBlank (c : Char) (h : Text.isLineBlank c = true) : isBlank c = true := by
  simp only [Text.isLineBlank, Bool.or_eq_true, decide_eq_true_eq] at h
  rcases h with rfl | rfl <;> decide

/-- A backslash before a no-break space, and two runs of hashes behind blanks. Without its escape,
the second run would be lost. -/
theorem final_hashes_are_read_back :
    write? {} (.document [.heading ⟨6, by decide, by decide⟩ [.text " a\\\u00a0#\t## "]]) =
      some "###### a\\\\\u00a0# \\##\n".toList ∧
    readHeading Text.isLineBlank "###### a\\\\\u00a0# \\##".toList =
      some (6, "a\\\\\u00a0# \\##".toList) ∧
    unescape "a\\\\\u00a0# \\##".toList = "a\\\u00a0# ##".toList ∧
    readHeading Text.isLineBlank "###### a\\\\\u00a0# ##".toList =
      some (6, "a\\\\\u00a0#".toList) := by
  have htext : write? {} (.document
      [.heading ⟨6, by decide, by decide⟩ [.text " a\\\u00a0#\t## "]]) =
      some ("###### a\\\\\u00a0# \\##".toList ++ ['\n']) := by
    decide +kernel
  obtain ⟨line, content, -, hwrite, -, -, hline, hread, hraw⟩ :=
    @heading_is_read_back Text.isLineBlank {} rfl rfl isBlank_of_isLineBlank
      ⟨6, by decide, by decide⟩ " a\\\u00a0#\t## " [] [] []
  obtain rfl : "###### a\\\\\u00a0# \\##".toList = line :=
    List.append_cancel_right (Option.some.inj (htext.symm.trans hwrite))
  obtain rfl : "a\\\\\u00a0# \\##".toList = content := by
    split at hline
    · exact absurd hline (by decide)
    · have hbehind : ' ' :: "a\\\\\u00a0# \\##".toList = ' ' :: content :=
        @List.append_cancel_left _ (List.replicate 6 '#') _ _ hline
      exact (List.cons.inj hbehind).2
  exact ⟨htext, hread, hraw, by decide⟩

end DocumentTree.Markdown
