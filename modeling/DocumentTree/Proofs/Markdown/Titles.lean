import DocumentTree.Markdown.Link
import DocumentTree.Proofs.Markdown.Seams
import DocumentTree.Proofs.Markdown.Signs
import Mathlib.Algebra.Ring.Parity

/-!
# Titles and alternative texts are read back

A title stands between double quotes and an alternative text between square brackets. A reader goes
on to the first closing character that no backslash escapes, taking each backslash together with
the character behind it. Where backslashes are escaped themselves, every character of the text is
read as one sign, so nothing in the text closes it.

## Main definitions

* `escapeClass p t` — a text with the characters of a class escaped.
* `readUntil stop t` — a text up to a character that is not escaped, and what is behind it.
* `readTitle`, `readAlternative` — the title or alternative text at the start of a text.
-/

namespace DocumentTree.Markdown

variable {c stop : Char} {p : Char → Bool} {t inner rest : Text}

/-! ## Readers -/

/-- What a reader has read, together with a text that it has read before. -/
def readOn (u : Text) (reading : Option (Text × Text)) : Option (Text × Text) :=
  reading.map (Prod.map (u ++ ·) id)

/-- What stands before the first character `stop` that is not escaped, and what is behind it. -/
def readUntil (stop : Char) : Text → Option (Text × Text)
  | [] => none
  | '\\' :: c :: cs => readOn ['\\', c] (readUntil stop cs)
  | c :: cs => if c = stop then some ([], cs) else readOn [c] (readUntil stop cs)

/-- The title that a text starts with, without its escapes, and what is behind it. -/
def readTitle : Text → Option (Text × Text)
  | '"' :: t => (readUntil '"' t).map (Prod.map unescape id)
  | _ => none

/-- The alternative text of the image that a text starts with, and what is behind it. -/
def readAlternative : Text → Option (Text × Text)
  | '!' :: '[' :: t => (readUntil ']' t).map (Prod.map unescape id)
  | _ => none

theorem readOn_eq_some_iff {u : Text} {reading : Option (Text × Text)} :
    readOn u reading = some (inner, rest) ↔
      ∃ inner', reading = some (inner', rest) ∧ u ++ inner' = inner := by
  rw [readOn, Option.map_eq_some_iff]
  constructor
  · rintro ⟨⟨inner', rest'⟩, hreading, heq⟩
    obtain ⟨rfl, rfl⟩ := Prod.mk.inj heq
    exact ⟨inner', hreading, rfl⟩
  · rintro ⟨inner', hreading, rfl⟩
    exact ⟨_, hreading, rfl⟩

theorem readOn_append_iff {u : Text} {reading : Option (Text × Text)} :
    readOn u reading = some (u ++ inner, rest) ↔ reading = some (inner, rest) := by
  rw [readOn_eq_some_iff]
  exact ⟨fun ⟨_, hreading, heq⟩ => List.append_cancel_left heq ▸ hreading,
    fun hreading => ⟨inner, hreading, rfl⟩⟩

theorem readUntil_cons (hc : c ≠ '\\') (t : Text) :
    readUntil stop (c :: t) =
      if c = stop then some ([], t) else readOn [c] (readUntil stop t) := by
  rw [readUntil]
  rintro d ds rfl
  exact absurd rfl hc

/-- **What is read up to a character** is what stands before it, if no sign of that is the character
and it does not end in a backslash that is no escape. -/
theorem readUntil_eq_some_iff (hstop : stop ≠ '\\') :
    readUntil stop t = some (inner, rest) ↔
      t = inner ++ stop :: rest ∧
        Sign.plain '\\' ∉ signs inner ∧ Sign.plain stop ∉ signs inner := by
  constructor
  · intro h
    induction t using induction_on_signs generalizing inner with
    | nil => cases h
    | backslash =>
      rw [readUntil, if_neg (Ne.symm hstop)] at h
      · cases h
      · exact nofun
    | escape c t ih =>
      obtain ⟨inner, hread, rfl⟩ := readOn_eq_some_iff.mp h
      obtain ⟨rfl, hslash, hplain⟩ := ih hread
      simp [hslash, hplain]
    | cons c t hc ih =>
      rw [readUntil_cons hc] at h
      split at h
      · rename_i hclosed
        obtain ⟨rfl, rfl⟩ := Prod.mk.inj (Option.some.inj h)
        simp [hclosed]
      · rename_i hopen
        obtain ⟨inner, hread, rfl⟩ := readOn_eq_some_iff.mp h
        obtain ⟨rfl, hslash, hplain⟩ := ih hread
        rw [List.singleton_append, signs_cons hc]
        simp [Ne.symm hc, Ne.symm hopen, hslash, hplain]
  · rintro ⟨rfl, hslash, hplain⟩
    induction inner using induction_on_signs with
    | nil => rw [List.nil_append, readUntil_cons hstop, if_pos rfl]
    | backslash => simp [signs] at hslash
    | escape c t ih =>
      rw [signs_escape, List.mem_cons, not_or] at hslash hplain
      exact readOn_append_iff.mpr (ih hslash.2 hplain.2)
    | cons c t hc ih =>
      simp only [signs_cons hc, List.mem_cons, not_or, Sign.plain.injEq] at hslash hplain
      rw [List.cons_append, readUntil_cons hc, if_neg (Ne.symm hplain.1)]
      exact readOn_append_iff.mpr (ih hslash.2 hplain.2)

/-! ## Classes of characters -/

/-- A text with the characters of a class escaped. -/
def escapeClass (p : Char → Bool) (t : Text) : Text :=
  t.flatMap fun c => if p c then ['\\', c] else [c]

theorem escapeClass_cons (p : Char → Bool) (c : Char) (t : Text) :
    escapeClass p (c :: t) =
      if p c then '\\' :: c :: escapeClass p t else c :: escapeClass p t := by
  rw [escapeClass, List.flatMap_cons]
  split <;> rfl

/-- A character is one sign, unless it is a backslash that is not escaped. -/
theorem signs_escapeClass_cons (h : c = '\\' → p c = true) (t : Text) :
    signs (escapeClass p (c :: t)) =
      (if p c then .escaped c else .plain c) :: signs (escapeClass p t) := by
  rw [escapeClass_cons]
  split
  · rfl
  · rename_i hc
    rw [signs_cons (mt h hc)]

section Backslash

variable (hp : p '\\' = true)
include hp

/-- Where backslashes are escaped, each character is one sign. -/
theorem signs_escapeClass (t : Text) :
    signs (escapeClass p t) = t.map fun c => if p c then .escaped c else .plain c := by
  induction t with
  | nil => rfl
  | cons c t ih => rw [signs_escapeClass_cons fun heq => heq ▸ hp, ih, List.map_cons]

/-- No sign is a character of the class that stands as it is. -/
theorem plain_not_mem_signs_escapeClass (hc : p c = true) (t : Text) :
    Sign.plain c ∉ signs (escapeClass p t) := by
  rw [signs_escapeClass hp, List.mem_map]
  rintro ⟨d, -, hd⟩
  split at hd
  · cases hd
  · rename_i hne
    cases hd
    exact hne hc

theorem escapes_escapeClass (hclass : ∀ c, p c = true → isPunctuation c = true) (t : Text) :
    Escapes t (escapeClass p t) := by
  induction t with
  | nil => exact .nil
  | cons c t ih =>
    rw [escapeClass_cons]
    split
    · rename_i hc
      exact .escaped (hclass c hc) ih
    · rename_i hc
      exact .plain (fun heq => hc (heq ▸ hp)) ih

/-- **Such a text is read back** up to a character of the class. -/
theorem readUntil_escapeClass (hstop : p stop = true) (hne : stop ≠ '\\') (t rest : Text) :
    readUntil stop (escapeClass p t ++ stop :: rest) = some (escapeClass p t, rest) :=
  (readUntil_eq_some_iff hne).mpr
    ⟨rfl, plain_not_mem_signs_escapeClass hp hp t, plain_not_mem_signs_escapeClass hp hstop t⟩

/-- Such a text ends in an even number of backslashes. -/
theorem even_trailingBackslashes_escapeClass (t : Text) :
    Even (trailingBackslashes (escapeClass p t)) := by
  induction t with
  | nil => exact ⟨0, rfl⟩
  | cons c t ih =>
    have hcons : ∀ u : Text, Even (trailingBackslashes u) →
        Even (trailingBackslashes (u ++ escapeClass p t)) :=
      fun u hu => (even_trailingBackslashes_append _ hu).mpr ih
    rw [escapeClass_cons]
    split
    · exact hcons ['\\', c] (even_trailingBackslashes_escape c)
    · rename_i hc
      exact hcons [c] (even_trailingBackslashes_singleton fun heq => hc (heq ▸ hp))

/-- A character of the class stands behind an odd number of backslashes. -/
theorem odd_trailingBackslashes_of_escapeClass {before after : Text} (hc : p c = true)
    (hne : c ≠ '\\') (h : escapeClass p t = before ++ c :: after) :
    Odd (trailingBackslashes before) := by
  rw [← Nat.not_even_iff_odd]
  induction t generalizing before with
  | nil => simp [escapeClass] at h
  | cons d t ih =>
    rw [escapeClass_cons] at h
    split at h
    · match before with
      | [] => exact absurd (List.cons.inj h).1.symm hne
      | [b] =>
        obtain ⟨rfl, -⟩ := List.cons.inj h
        decide
      | b :: b' :: before =>
        rw [List.cons_append, List.cons_append, List.cons.injEq, List.cons.injEq] at h
        obtain ⟨rfl, rfl, hrest⟩ := h
        exact mt (even_trailingBackslashes_append _ (even_trailingBackslashes_escape _)).mp
          (ih hrest)
    · rename_i hd
      cases before with
      | nil => exact absurd ((List.cons.inj h).1 ▸ hc) hd
      | cons b before =>
        obtain ⟨rfl, hrest⟩ := List.cons.inj h
        have hslash : d ≠ '\\' := fun heq => hd (heq ▸ hp)
        exact mt (even_trailingBackslashes_append _ (even_trailingBackslashes_singleton hslash)).mp
          (ih hrest)

end Backslash

/-! ## Titles and alternative texts -/

/-- The characters that are escaped in a title. -/
def isTitleEscaped (c : Char) : Bool :=
  c = '\\' || c = '"'

/-- The characters that are escaped in an alternative text. -/
def isBracketEscaped (c : Char) : Bool :=
  c = '\\' || c = '[' || c = ']'

theorem title_eq (t : Text) : title t = '"' :: (escapeClass isTitleEscaped t ++ ['"']) := rfl

theorem escapeBrackets_eq (t : Text) : escapeBrackets t = escapeClass isBracketEscaped t := rfl

theorem isPunctuation_of_isTitleEscaped (c : Char) (h : isTitleEscaped c = true) :
    isPunctuation c = true := by
  simp only [isTitleEscaped, Bool.or_eq_true, decide_eq_true_eq] at h
  rcases h with rfl | rfl <;> decide

theorem isPunctuation_of_isBracketEscaped (c : Char) (h : isBracketEscaped c = true) :
    isPunctuation c = true := by
  simp only [isBracketEscaped, Bool.or_eq_true, decide_eq_true_eq] at h
  rcases h with (rfl | rfl) | rfl <;> decide

theorem readTitle_title (t rest : Text) : readTitle (title t ++ rest) = some (t, rest) := by
  rw [title_eq, List.cons_append, List.append_assoc, readTitle, List.singleton_append,
    readUntil_escapeClass rfl rfl (by decide), Option.map_some, Prod.map_apply,
    (escapes_escapeClass rfl isPunctuation_of_isTitleEscaped t).unescape_eq, id]

theorem unescape_escapeBrackets (t : Text) : unescape (escapeBrackets t) = t :=
  (escapes_escapeClass rfl isPunctuation_of_isBracketEscaped t).unescape_eq

theorem readAlternative_escapeBrackets (t rest : Text) :
    readAlternative ('!' :: '[' :: (escapeBrackets t ++ ']' :: rest)) = some (t, rest) := by
  rw [readAlternative, escapeBrackets_eq, readUntil_escapeClass rfl rfl (by decide),
    Option.map_some, Prod.map_apply, ← escapeBrackets_eq, unescape_escapeBrackets, id]

/-- **Titles and alternative texts are read back.** A title is read up to its closing quote, which
is its first quote that is not escaped, and an alternative text up to its closing bracket, whatever
is behind. In an alternative text every bracket is escaped, and at its end no backslash is left
without a character. So neither ends early, and different texts are written differently. -/
theorem titles_and_alternatives_are_read_back :
    (∀ t rest, readTitle (title t ++ rest) = some (t, rest)) ∧
    (∀ t rest, readAlternative (['!', '['] ++ escapeBrackets t ++ [']'] ++ rest) = some (t, rest)) ∧
    (∀ t before c after, escapeBrackets t = before ++ c :: after → c = '[' ∨ c = ']' →
      Odd (trailingBackslashes before)) ∧
    (∀ t, Even (trailingBackslashes (escapeBrackets t)) ∧ unescape (escapeBrackets t) = t) ∧
    Function.Injective title ∧ Function.Injective escapeBrackets := by
  refine ⟨readTitle_title, ?_, ?_, ?_, ?_, ?_⟩
  · intro t rest
    simpa using readAlternative_escapeBrackets t rest
  · rintro t before c after h (rfl | rfl)
    · exact odd_trailingBackslashes_of_escapeClass rfl rfl (by decide) h
    · exact odd_trailingBackslashes_of_escapeClass rfl rfl (by decide) h
  · exact fun t => ⟨even_trailingBackslashes_escapeClass rfl t, unescape_escapeBrackets t⟩
  · intro t u h
    have hread := readTitle_title t []
    rw [h, readTitle_title] at hread
    exact (Prod.mk.inj (Option.some.inj hread)).1.symm
  · exact Function.LeftInverse.injective unescape_escapeBrackets

/-- A title of a backslash before a quote, and an alternative text of a backslash before a
bracket. -/
theorem escaped_quote_is_read_back :
    title "\\\"".toList = "\"\\\\\\\"\"".toList ∧
    readTitle (title "\\\"".toList ++ ")".toList) = some ("\\\"".toList, ")".toList) ∧
    escapeBrackets "\\]".toList = "\\\\\\".toList ++ ']' :: [] ∧
    Odd (trailingBackslashes "\\\\\\".toList) := by
  have hbracket : escapeBrackets "\\]".toList = "\\\\\\".toList ++ ']' :: [] := by decide
  obtain ⟨htitles, -, hodd, -⟩ := titles_and_alternatives_are_read_back
  exact ⟨by decide, htitles _ _, hbracket, hodd _ _ _ _ hbracket (.inr rfl)⟩

end DocumentTree.Markdown
