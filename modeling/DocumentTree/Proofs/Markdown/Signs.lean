import DocumentTree.Proofs.Markdown.Unescaping

/-!
# Escaped text, sign by sign

A reader takes a backslash together with the character behind it. Read from left to right, a text is
a sequence of signs: characters that are escaped, and characters that stand as they are. Escaped
text has one sign for each character of the raw text, and those that stand as they are open nothing.

## Main definitions

* `Sign` — a character as it stands, or an escaped one.
* `signs t` — the signs of a text, from left to right.
* `Sign.IsInert previous next s` — a sign between its neighbours opens no inline syntax.
-/

namespace DocumentTree.Markdown

variable {c : Char} {t : Text}

/-! ## Reading signs -/

/-- A character as it stands in a text, or with the backslash before it. -/
inductive Sign where
  | plain (c : Char)
  | escaped (c : Char)
  deriving DecidableEq

namespace Sign

/-- The character that a sign stands for. -/
def char : Sign → Char
  | plain c | escaped c => c

/-- A sign as it is written. -/
def written : Sign → Text
  | plain c => [c]
  | escaped c => ['\\', c]

end Sign

/-- The signs of a text. A backslash at its end has no character to escape. -/
def signs : Text → List Sign
  | [] => []
  | '\\' :: c :: cs => .escaped c :: signs cs
  | c :: cs => .plain c :: signs cs

@[simp] theorem signs_nil : signs [] = [] := rfl

@[simp] theorem signs_escape (c : Char) (t : Text) :
    signs ('\\' :: c :: t) = .escaped c :: signs t := rfl

theorem signs_cons (hc : c ≠ '\\') (t : Text) : signs (c :: t) = .plain c :: signs t := by
  rw [signs]
  rintro d ds rfl
  exact absurd rfl hc

/-- Induction from one sign to the next. -/
@[elab_as_elim]
theorem induction_on_signs {motive : Text → Prop} (nil : motive []) (backslash : motive ['\\'])
    (escape : ∀ c t, motive t → motive ('\\' :: c :: t))
    (cons : ∀ c t, c ≠ '\\' → motive t → motive (c :: t)) (t : Text) : motive t := by
  fun_induction signs t with
  | case1 => exact nil
  | case2 c cs ih => exact escape c cs ih
  | case3 c cs hpair ih =>
    by_cases hc : c = '\\'
    · subst hc
      cases cs with
      | nil => exact backslash
      | cons d ds => exact absurd rfl (hpair d ds rfl)
    · exact cons c cs hc ih

/-- Nothing is lost when a text is read. -/
theorem flatMap_written_signs (t : Text) : (signs t).flatMap Sign.written = t := by
  fun_induction signs t with
  | case1 => rfl
  | case2 c cs ih => simpa [Sign.written] using ih
  | case3 c cs _ ih => simpa [Sign.written] using ih

/-! ## The signs of escaped text -/

/-- The sign that a character between two others is written as. -/
def escapeSign (previous : Option Char) (c : Char) (next : Option Char) : Sign :=
  if needsEscape previous c next then .escaped c else .plain c

@[simp] theorem char_escapeSign (previous : Option Char) (c : Char) (next : Option Char) :
    (escapeSign previous c next).char = c := by
  rw [escapeSign]
  split <;> rfl

/-- Each character of a text is written as one sign. -/
theorem signs_escapeTextAfter_cons (previous : Option Char) (c : Char) (t : Text) :
    signs (escapeTextAfter previous (c :: t)) =
      escapeSign previous c t.head? :: signs (escapeTextAfter (some c) t) := by
  rw [escapeTextAfter, escapeSign]
  split
  · rfl
  · rename_i hc
    refine signs_cons ?_ _
    rintro rfl
    exact hc (by simp [needsEscape, isAlwaysEscaped])

/-- **Without the backslashes of its escapes, escaped text is the raw text.** -/
theorem map_char_signs_escapeTextAfter (previous : Option Char) (t : Text) :
    (signs (escapeTextAfter previous t)).map Sign.char = t := by
  induction t generalizing previous with
  | nil => rfl
  | cons c t ih => rw [signs_escapeTextAfter_cons, List.map_cons, ih, char_escapeSign]

/-- A sign of escaped text is decided by the raw characters beside it. -/
theorem eq_escapeSign {previous : Option Char} {before after : List Sign} {s : Sign}
    (h : signs (escapeTextAfter previous t) = before ++ s :: after) :
    s = escapeSign ((before.getLast?.map Sign.char).or previous) s.char
      (after.head?.map Sign.char) := by
  induction t generalizing previous before with
  | nil => simp [escapeTextAfter] at h
  | cons c t ih =>
    rw [signs_escapeTextAfter_cons] at h
    cases before with
    | nil =>
      obtain ⟨rfl, rfl⟩ := List.cons.inj h
      rw [← List.head?_map, map_char_signs_escapeTextAfter, char_escapeSign]
      rfl
    | cons r before =>
      obtain ⟨rfl, hrest⟩ := List.cons.inj h
      have hs := ih hrest
      cases before with
      | nil => simpa using hs
      | cons r before =>
        -- The nearest sign before this one is the last of `before` in the whole text too.
        rw [List.getLast?_eq_some_getLast (List.cons_ne_nil r before)] at hs
        rwa [List.getLast?_cons_cons, List.getLast?_eq_some_getLast (List.cons_ne_nil r before)]

theorem exists_escapeSign_of_mem {s : Sign} (h : s ∈ signs (escapeText t)) :
    ∃ previous next : Option Sign,
      s = escapeSign (previous.map Sign.char) s.char (next.map Sign.char) := by
  obtain ⟨before, after, hsigns⟩ := List.append_of_mem h
  have hsign := eq_escapeSign hsigns
  rw [Option.or_none] at hsign
  exact ⟨before.getLast?, after.head?, hsign⟩

/-! ## Signs that open nothing -/

/-- A sign between its neighbours opens no inline syntax. It is escaped, or it is none of the
characters of that syntax; an underscore inside a word, a bracket that opens no tag and an ampersand
that opens no character reference are none either. -/
def Sign.IsInert (previous next : Option Sign) : Sign → Prop
  | escaped _ => True
  | plain c =>
    c ∉ ['\\', '`', '*', '[', ']', '~'] ∧
    (c = '_' → isWordBeside (previous.map char) = true ∧ isWordBeside (next.map char) = true) ∧
    (c = '<' → opensTag (next.map char) = false) ∧
    (c = '&' → opensReference (next.map char) = false)

/-- What needs no escape opens nothing. -/
theorem isInert_of_not_needsEscape {previous next : Option Sign}
    (h : needsEscape (previous.map Sign.char) c (next.map Sign.char) = false) :
    (Sign.plain c).IsInert previous next := by
  have halways : isAlwaysEscaped c = false := by
    by_contra halways
    rw [needsEscape, if_pos (by simpa using halways)] at h
    cases h
  rw [needsEscape, if_neg (by simp [halways])] at h
  refine ⟨by simpa [isAlwaysEscaped, and_assoc] using halways, ?_, ?_, ?_⟩
  · rintro rfl
    simpa using h
  · rintro rfl
    simpa using h
  · rintro rfl
    simpa using h

theorem isInert_escapeSign (previous next : Option Sign) (c : Char) :
    (escapeSign (previous.map Sign.char) c (next.map Sign.char)).IsInert previous next := by
  rw [escapeSign]
  split
  · trivial
  · rename_i h
    exact isInert_of_not_needsEscape (by simpa using h)

/-- **Escaped text holds no live inline syntax.** It is read as one sign for each character of the
raw text, in order, so that dropping the escapes gives the raw text back; and no sign opens inline
syntax between its neighbours. -/
theorem escaped_text_is_inert (t : Text) :
    (signs (escapeText t)).flatMap Sign.written = escapeText t ∧
    (signs (escapeText t)).map Sign.char = t ∧
    ∀ before s after, signs (escapeText t) = before ++ s :: after →
      s.IsInert before.getLast? after.head? := by
  refine ⟨flatMap_written_signs _, map_char_signs_escapeTextAfter none t, ?_⟩
  intro before s after h
  rw [eq_escapeSign h, Option.or_none]
  exact isInert_escapeSign before.getLast? after.head? s.char

/-- A text of backslashes before a star, with an underscore inside a word and one at its end: the
first underscore is the only one of these signs that is not escaped. -/
theorem inner_underscore_is_inert :
    signs (escapeText "\\\\*a_b_".toList) =
      [.escaped '\\', .escaped '\\', .escaped '*', .plain 'a'] ++ .plain '_' ::
        [.plain 'b', .escaped '_'] ∧
    (Sign.plain '_').IsInert (some (.plain 'a')) (some (.plain 'b')) := by
  have h : signs (escapeText "\\\\*a_b_".toList) =
      [.escaped '\\', .escaped '\\', .escaped '*', .plain 'a'] ++ .plain '_' ::
        [.plain 'b', .escaped '_'] := by
    decide +kernel
  exact ⟨h, (escaped_text_is_inert _).2.2 _ _ _ h⟩

end DocumentTree.Markdown
