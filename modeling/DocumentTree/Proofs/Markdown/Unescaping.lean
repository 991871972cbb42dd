import DocumentTree.Markdown.Escape
import DocumentTree.Proofs.Text.Trimming

/-!
# Escapes are taken off again

A reader of Markdown takes a backslash before ASCII punctuation for an escape of it. Escaped text is
read back as it was, wherever it is trimmed.

## Main definitions

* `unescape` — what a reader makes of escapes, from left to right.
* `Escapes raw t` — a text with escapes put in so that they are read back.
-/

namespace DocumentTree.Markdown

/-- ASCII punctuation, which a backslash escapes. -/
def isPunctuation (c : Char) : Bool :=
  Text.inRanges [(0x21, 0x2F), (0x3A, 0x40), (0x5B, 0x60), (0x7B, 0x7E)] c.toNat

/-- A text with a backslash before punctuation taken off, from left to right. -/
def unescape : Text → Text
  | [] => []
  | '\\' :: c :: cs =>
    if isPunctuation c then c :: unescape cs else '\\' :: unescape (c :: cs)
  | c :: cs => c :: unescape cs

/-- The second text is the first with escapes: before some punctuation, and before every
backslash. -/
inductive Escapes : Text → Text → Prop
  | nil : Escapes [] []
  /-- A character as it is; a backslash must be escaped. -/
  | plain {c : Char} {raw t : Text} : c ≠ '\\' → Escapes raw t → Escapes (c :: raw) (c :: t)
  /-- An escaped character. -/
  | escaped {c : Char} {raw t : Text} :
    isPunctuation c = true → Escapes raw t → Escapes (c :: raw) ('\\' :: c :: t)

namespace Escapes

variable {raw t : Text}

/-- **Such a text is read back.** -/
theorem unescape_eq (h : Escapes raw t) : unescape t = raw := by
  induction h with
  | nil => rfl
  | plain hc _ ih =>
    rw [unescape, ih]
    rintro d ds rfl
    exact absurd rfl hc
  | escaped hc _ ih => rw [unescape, if_pos hc, ih]

/-- No character but backslashes is put in. -/
theorem mem (h : Escapes raw t) {c : Char} (hc : c ∈ t) : c = '\\' ∨ c ∈ raw := by
  induction h with
  | nil => cases hc
  | plain _ _ ih =>
    rcases List.mem_cons.mp hc with rfl | hc
    · exact .inr (by simp)
    · exact (ih hc).imp_right (List.mem_cons_of_mem _)
  | escaped _ _ ih =>
    rcases List.mem_cons.mp hc with rfl | hc
    · exact .inl rfl
    rcases List.mem_cons.mp hc with rfl | hc
    · exact .inr (by simp)
    · exact (ih hc).imp_right (List.mem_cons_of_mem _)

/-- One more escape, before punctuation that has none. -/
theorem insert {before rest : Text} {c : Char} (h : Escapes raw (before ++ c :: rest))
    (hbefore : before.getLast? ≠ some '\\') (hne : c ≠ '\\') (hc : isPunctuation c = true) :
    Escapes raw (before ++ '\\' :: c :: rest) := by
  generalize ht : before ++ c :: rest = t at h
  induction h generalizing before with
  | nil => simp at ht
  | plain hd h ih =>
    cases before with
    | nil =>
      obtain ⟨rfl, rfl⟩ := List.cons.inj ht
      exact .escaped hc h
    | cons b before =>
      obtain ⟨rfl, rfl⟩ := List.cons.inj ht
      exact .plain hd (ih (fun hlast => hbefore (by simp [List.getLast?_cons, hlast])) rfl)
  | escaped hd h ih =>
    match before with
    | [] => exact absurd (List.cons.inj ht).1 hne
    | [b] => exact absurd (congrArg some (List.cons.inj ht).1) hbefore
    | b :: b' :: before =>
      simp only [List.cons_append, List.cons.injEq] at ht
      obtain ⟨rfl, rfl, rfl⟩ := ht
      exact .escaped hd (ih (fun hlast => hbefore (by simp [List.getLast?_cons, hlast])) rfl)

end Escapes

/-! ## Inline syntax -/

/-- Only punctuation is escaped. -/
theorem isPunctuation_of_needsEscape {previous next : Option Char} {c : Char}
    (h : needsEscape previous c next = true) : isPunctuation c = true := by
  by_cases halways : isAlwaysEscaped c = true
  · simp only [isAlwaysEscaped, Bool.or_eq_true, decide_eq_true_eq] at halways
    rcases halways with ((((rfl | rfl) | rfl) | rfl) | rfl) | rfl <;> decide
  · rw [needsEscape, if_neg halways] at h
    split at h
    · rename_i hc
      subst hc
      decide
    split at h
    · rename_i hc
      subst hc
      decide
    split at h
    · rename_i hc
      subst hc
      decide
    · cases h

theorem escapes_escapeTextAfter (previous : Option Char) (t : Text) :
    Escapes t (escapeTextAfter previous t) := by
  induction t generalizing previous with
  | nil => exact .nil
  | cons c cs ih =>
    rw [escapeTextAfter]
    split
    · rename_i hc
      exact .escaped (isPunctuation_of_needsEscape hc) (ih _)
    · rename_i hc
      refine .plain ?_ (ih _)
      rintro rfl
      exact hc (by simp [needsEscape, isAlwaysEscaped])

theorem escapeTextAfter_eq_nil_iff {previous : Option Char} {t : Text} :
    escapeTextAfter previous t = [] ↔ t = [] := by
  cases t with
  | nil => simp [escapeTextAfter]
  | cons c t =>
    rw [escapeTextAfter]
    split <;> simp

/-- **Escaped text is read back.** -/
theorem escapes_escapeText (t : Text) : Escapes t (escapeText t) :=
  escapes_escapeTextAfter none t

/-- Escaped text starts with an escape or as the text does. -/
theorem eq_or_head?_of_escapeTextAfter {previous : Option Char} {t : Text} {c : Char}
    (h : (escapeTextAfter previous t).head? = some c) : c = '\\' ∨ t.head? = some c := by
  cases t with
  | nil => cases h
  | cons d t =>
    rw [escapeTextAfter] at h
    split at h
    · exact .inl (Option.some.inj h).symm
    · exact .inr h

/-- The first character of escaped text is not one that is always escaped, unless it is a
backslash. -/
theorem not_isAlwaysEscaped_of_head? {previous : Option Char} {t : Text} {c : Char}
    (h : (escapeTextAfter previous t).head? = some c) (hc : c ≠ '\\') :
    isAlwaysEscaped c = false := by
  cases t with
  | nil => cases h
  | cons d t =>
    rw [escapeTextAfter] at h
    split at h
    · exact absurd (by simpa using h.symm) hc
    · rename_i hd
      obtain rfl : d = c := by simpa using h
      by_contra halways
      exact hd (by rw [needsEscape, if_pos (by simpa using halways)])

/-! ## Escaping and trimming -/

section Blanks

variable {b : Char}

theorem isPunctuation_eq_false_of_isBlank (hb : Text.isBlank b = true) :
    isPunctuation b = false := by
  have hall : ∀ n ∈ Text.blankNumbers,
      Text.inRanges [(0x21, 0x2F), (0x3A, 0x40), (0x5B, 0x60), (0x7B, 0x7E)] n = false := by
    decide
  exact hall b.toNat (Text.toNat_mem_blankNumbers hb)

theorem needsEscape_eq_false_of_isBlank (hb : Text.isBlank b = true) (previous next : Option Char) :
    needsEscape previous b next = false := by
  by_contra h
  have hpunctuation := isPunctuation_of_needsEscape (by simpa using h)
  rw [isPunctuation_eq_false_of_isBlank hb] at hpunctuation
  cases hpunctuation

/-- White space before a character makes no difference. -/
theorem needsEscape_after_blank (hb : Text.isBlank b = true) (c : Char) (next : Option Char) :
    needsEscape (some b) c next = needsEscape none c next := by
  simp [needsEscape, isWordBeside, Text.isAlphanumeric_eq_false_of_isBlank hb]

/-- White space behind a character makes no difference. -/
theorem needsEscape_before_blank (hb : Text.isBlank b = true) (previous : Option Char) (c : Char) :
    needsEscape previous c (some b) = needsEscape previous c none := by
  have hne : ∀ d, isPunctuation d = true → b ≠ d := by
    rintro d hd rfl
    rw [isPunctuation_eq_false_of_isBlank hb] at hd
    cases hd
  simp [needsEscape, isWordBeside, opensTag, opensReference,
    Text.isAlphanumeric_eq_false_of_isBlank hb, Text.isLetter_eq_false_of_isBlank hb,
    hne '/' (by decide), hne '!' (by decide), hne '?' (by decide), hne '#' (by decide)]

theorem escapeTextAfter_blank (hb : Text.isBlank b = true) (t : Text) :
    escapeTextAfter (some b) t = escapeTextAfter none t := by
  cases t with
  | nil => rfl
  | cons c t => rw [escapeTextAfter, escapeTextAfter, needsEscape_after_blank hb]

end Blanks

theorem trimLeft_escapeText (t : Text) :
    Text.trimLeft (escapeText t) = escapeText (Text.trimLeft t) := by
  induction t with
  | nil => rfl
  | cons c t ih =>
    cases hc : Text.isBlank c with
    | true =>
      have hesc : escapeText (c :: t) = c :: escapeText t := by
        rw [escapeText, escapeTextAfter, needsEscape_eq_false_of_isBlank hc, if_neg (by simp),
          escapeTextAfter_blank hc, escapeText]
      rw [hesc, Text.trimLeft, List.dropWhile_cons_of_pos hc, ← Text.trimLeft, ih, Text.trimLeft,
        Text.trimLeft, List.dropWhile_cons_of_pos hc]
    | false =>
      have hself : Text.trimLeft (c :: t) = c :: t := by
        rw [Text.trimLeft, List.dropWhile_cons_of_neg (by simp [hc])]
      rw [hself, escapeText, escapeTextAfter]
      split
      · rw [Text.trimLeft, List.dropWhile_cons_of_neg (by decide)]
      · rw [Text.trimLeft, List.dropWhile_cons_of_neg (by simp [hc])]

/-- The character that follows is white space or the same when the end has been trimmed. -/
theorem needsEscape_trimRight (previous : Option Char) (c : Char) (t : Text) :
    needsEscape previous c (Text.trimRight t).head? = needsEscape previous c t.head? := by
  cases t with
  | nil => rfl
  | cons d t =>
    by_cases ht : Text.trimRight (d :: t) = []
    · have hd : Text.isBlank d = true := by
        rw [Text.trimRight, Text.dropRightWhile_eq, List.rdropWhile_eq_nil_iff] at ht
        exact ht d (by simp)
      rw [ht, List.head?_cons, needsEscape_before_blank hd]
      rfl
    · obtain ⟨u, hu⟩ := Text.exists_trimRight_append (d :: t)
      cases hcs : Text.trimRight (d :: t) with
      | nil => exact absurd hcs ht
      | cons e es =>
        rw [hcs, List.cons_append, List.cons.injEq] at hu
        rw [hu.1]
        rfl

theorem trimRight_escapeTextAfter (previous : Option Char) (t : Text) :
    Text.trimRight (escapeTextAfter previous t) = escapeTextAfter previous (Text.trimRight t) := by
  induction t generalizing previous with
  | nil => rfl
  | cons c t ih =>
    by_cases hdrop : Text.isBlank c = true ∧ Text.trimRight t = []
    · obtain ⟨hc, ht⟩ := hdrop
      have hempty : Text.trimRight (escapeTextAfter (some c) t) = [] := by
        rw [ih, ht]
        rfl
      rw [escapeTextAfter, needsEscape_eq_false_of_isBlank hc, if_neg (by simp),
        Text.trimRight_cons_eq_nil hc hempty, Text.trimRight_cons_eq_nil hc ht]
      rfl
    · have hkeep : Text.isBlank c = false ∨ Text.trimRight t ≠ [] := by
        rwa [not_and_or, Bool.not_eq_true] at hdrop
      have hescaped : Text.trimRight (c :: escapeTextAfter (some c) t) =
          c :: escapeTextAfter (some c) (Text.trimRight t) := by
        rw [← ih]
        refine Text.trimRight_cons (hkeep.imp_right fun ht => ?_)
        rw [ih]
        exact mt escapeTextAfter_eq_nil_iff.mp ht
      rw [Text.trimRight_cons hkeep, escapeTextAfter, escapeTextAfter, needsEscape_trimRight]
      split
      · rw [Text.trimRight_cons (.inl (by decide)), hescaped]
      · exact hescaped

/-- **Trimming escaped text is escaping trimmed text.** -/
theorem trim_escapeText (t : Text) : Text.trim (escapeText t) = escapeText (Text.trim t) := by
  rw [Text.trim, trimLeft_escapeText, escapeText, trimRight_escapeTextAfter]
  rfl

end DocumentTree.Markdown
