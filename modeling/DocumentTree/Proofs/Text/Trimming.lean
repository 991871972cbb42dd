import DocumentTree.Text.Basic
import Mathlib.Data.List.DropRight

/-!
# Trimming, and the blanks that run together

Trimming takes white space off the ends of a text and nothing else. Where running blanks have been
collapsed, no line end is left.

## Main definitions

* `blankNumbers` — the numbers of all characters that are white space.
-/

namespace DocumentTree.Text

/-! ## White space -/

/-- The numbers of all characters that are white space. -/
def blankNumbers : List Nat :=
  blankRanges.flatMap fun range => List.range' range.1 (range.2 + 1 - range.1)

theorem exists_range_of_inRanges {ranges : List (Nat × Nat)} {n : Nat}
    (h : inRanges ranges n = true) : ∃ range ∈ ranges, range.1 ≤ n ∧ n ≤ range.2 := by
  induction ranges with
  | nil => cases h
  | cons range ranges ih =>
    rw [inRanges] at h
    split at h
    · cases h
    split at h
    · exact ⟨range, by simp, by omega, by omega⟩
    · obtain ⟨other, hother, hn⟩ := ih h
      exact ⟨other, List.mem_cons_of_mem _ hother, hn⟩

/-- What holds of the few white-space characters is checked one by one. -/
theorem toNat_mem_blankNumbers {c : Char} (h : isBlank c = true) : c.toNat ∈ blankNumbers := by
  obtain ⟨range, hrange, hlow, hhigh⟩ := exists_range_of_inRanges h
  exact List.mem_flatMap.mpr ⟨range, hrange, List.mem_range'_1.mpr ⟨hlow, by omega⟩⟩

/-- White space is neither a letter nor a numeral. -/
theorem isAlphanumeric_eq_false_of_isBlank {c : Char} (h : isBlank c = true) :
    isAlphanumeric c = false := by
  have hall : ∀ n ∈ blankNumbers,
      (inRanges letterRanges n || inRanges numeralRanges n) = false := by
    decide +kernel
  exact hall c.toNat (toNat_mem_blankNumbers h)

theorem isLetter_eq_false_of_isBlank {c : Char} (h : isBlank c = true) : isLetter c = false :=
  (Bool.or_eq_false_iff.mp (isAlphanumeric_eq_false_of_isBlank h)).1

/-! ## Dropping at the right end -/

variable {p : Char → Bool} {t : Text} {c : Char}

theorem dropRightWhile_concat (p : Char → Bool) (t : Text) (c : Char) :
    dropRightWhile p (t ++ [c]) = if p c then dropRightWhile p t else t ++ [c] := by
  induction t with
  | nil => rfl
  | cons d t ih =>
    rw [List.cons_append, dropRightWhile, ih]
    cases p c with
    | true => rfl
    | false => cases t <;> rfl

/-- The library drops the same characters, from the reverse of the list. -/
theorem dropRightWhile_eq (p : Char → Bool) (t : Text) : dropRightWhile p t = t.rdropWhile p := by
  induction t using List.reverseRecOn with
  | nil => rfl
  | append_singleton t c ih => rw [dropRightWhile_concat, List.rdropWhile_concat, ih]

/-- What is left does not end in the class. -/
theorem getLast?_dropRightWhile (h : (dropRightWhile p t).getLast? = some c) : p c = false := by
  have hne : dropRightWhile p t ≠ [] := by
    rintro hnil
    simp [hnil] at h
  rw [List.getLast?_eq_some_getLast hne, Option.some.injEq] at h
  subst h
  simp only [dropRightWhile_eq] at hne ⊢
  simpa using List.rdropWhile_last_not p t hne

/-- A text that does not end in the class stays as it is. -/
theorem dropRightWhile_eq_self (h : ∀ c, t.getLast? = some c → p c = false) :
    dropRightWhile p t = t := by
  rw [dropRightWhile_eq, List.rdropWhile_eq_self_iff]
  intro hne
  simp [h _ (List.getLast?_eq_some_getLast hne)]

/-- What is dropped belongs to the class. -/
theorem exists_dropRightWhile_append (p : Char → Bool) (t : Text) :
    ∃ u, dropRightWhile p t ++ u = t ∧ ∀ c ∈ u, p c = true := by
  rw [dropRightWhile_eq]
  exact ⟨t.rtakeWhile p, List.rdropWhile_append_rtakeWhile, fun c hc => List.mem_rtakeWhile_imp hc⟩

/-- A text of the class is dropped as a whole. -/
theorem dropRightWhile_append (t : Text) {u : Text} (h : ∀ c ∈ u, p c = true) :
    dropRightWhile p (t ++ u) = dropRightWhile p t := by
  induction u using List.reverseRecOn with
  | nil => rw [List.append_nil]
  | append_singleton u c ih =>
    rw [← List.append_assoc, dropRightWhile_concat, if_pos (h c (by simp)),
      ih fun d hd => h d (by simp [hd])]

/-! ## Trimming -/

theorem exists_trimRight_append (t : Text) : ∃ u, trimRight t ++ u = t := by
  rw [trimRight, dropRightWhile_eq]
  exact List.rdropWhile_prefix isBlank t

theorem trimRight_cons_eq_nil (h : isBlank c = true) (ht : trimRight t = []) :
    trimRight (c :: t) = [] := by
  rw [trimRight] at ht
  simp [trimRight, dropRightWhile, ht, h]

theorem trimRight_cons (h : isBlank c = false ∨ trimRight t ≠ []) :
    trimRight (c :: t) = c :: trimRight t := by
  rw [trimRight, dropRightWhile, ← trimRight]
  cases ht : trimRight t with
  | nil => simp [h.resolve_right (not_not.mpr ht)]
  | cons d u => rfl

/-- Trimming reaches into the first text only where nothing is left of the second. -/
theorem trimRight_append (t : Text) {u : Text}
    (h : (∀ c, t.getLast? = some c → isBlank c = false) ∨ trimRight u ≠ []) :
    trimRight (t ++ u) = t ++ trimRight u := by
  induction t with
  | nil => rfl
  | cons c t ih =>
    cases t with
    | nil => exact trimRight_cons (h.imp_left fun hlast => hlast c rfl)
    | cons d t =>
      have htail : trimRight (d :: t ++ u) = d :: t ++ trimRight u :=
        ih (h.imp_left fun hlast e he => hlast e (by simpa using he))
      have hne : trimRight (d :: t ++ u) ≠ [] := by
        rw [htail]
        exact List.cons_ne_nil d _
      rw [List.cons_append, trimRight_cons (.inr hne), htail]
      rfl

/-- A character that is no white space starts the text just where it starts the trimmed one. -/
theorem head?_trimRight (hc : isBlank c = false) :
    (trimRight t).head? = some c ↔ t.head? = some c := by
  cases t with
  | nil => rfl
  | cons d t =>
    by_cases hkeep : isBlank d = false ∨ trimRight t ≠ []
    · rw [trimRight_cons hkeep]
      simp
    · rw [not_or, not_not, Bool.not_eq_false] at hkeep
      have hne : d ≠ c := by
        rintro rfl
        rw [hc] at hkeep
        cases hkeep.1
      rw [trimRight_cons_eq_nil hkeep.1 hkeep.2]
      simp [hne]

theorem trimRight_sublist (t : Text) : (trimRight t).Sublist t := by
  have hstart : trimRight t <+: t := exists_trimRight_append t
  exact hstart.sublist

theorem trim_sublist (t : Text) : (trim t).Sublist t :=
  (trimRight_sublist (trimLeft t)).trans (List.dropWhile_sublist isBlank)

/-- A trimmed text does not end in white space. -/
theorem getLast?_trim (h : (trim t).getLast? = some c) : isBlank c = false :=
  getLast?_dropRightWhile h

/-- A trimmed text does not start with white space. -/
theorem head?_trim (h : (trim t).head? = some c) : isBlank c = false := by
  have hleft : (trimLeft t).head? = some c := by
    obtain ⟨u, hu⟩ := exists_trimRight_append (trimLeft t)
    rw [← hu, List.head?_append, ← trim, h]
    rfl
  have hnot := List.head?_dropWhile_not isBlank t
  rw [← trimLeft, hleft] at hnot
  exact hnot

/-! ## Running blanks -/

theorem mem_collapseBlanksFrom {after : Bool} (h : c ∈ collapseBlanksFrom after t) :
    c = ' ' ∨ isRunningBlank c = false := by
  induction t generalizing after with
  | nil => cases h
  | cons d t ih =>
    rw [collapseBlanksFrom] at h
    split at h
    · split at h
      · exact ih h
      · rcases List.mem_cons.mp h with rfl | h
        · exact .inl rfl
        · exact ih h
    · rename_i hd
      rcases List.mem_cons.mp h with rfl | h
      · exact .inr (by simpa using hd)
      · exact ih h

/-- Where blanks run together, the only one left is the space. -/
theorem eq_space_of_mem_collapseBlanks (h : c ∈ collapseBlanks t) (hc : isRunningBlank c = true) :
    c = ' ' := by
  rcases mem_collapseBlanksFrom h with heq | hnot
  · exact heq
  · rw [hc] at hnot
    cases hnot

theorem collapseBlanks_eq_nil_iff : collapseBlanks t = [] ↔ t = [] := by
  cases t with
  | nil => simp [collapseBlanks, collapseBlanksFrom]
  | cons d t =>
    rw [collapseBlanks, collapseBlanksFrom]
    split <;> simp

/-- Collapsed text starts with a character that is no blank just where the text does. -/
theorem head?_collapseBlanks (hc : isRunningBlank c = false) :
    (collapseBlanks t).head? = some c ↔ t.head? = some c := by
  cases t with
  | nil => rfl
  | cons d t =>
    rw [collapseBlanks, collapseBlanksFrom]
    split
    · rename_i hd
      have hspace : ' ' ≠ c := by
        rintro rfl
        cases hc
      have hne : d ≠ c := by
        rintro rfl
        rw [hc] at hd
        cases hd
      simp [hspace, hne]
    · simp

/-- Collapsed text ends with a character that is no blank just where the text does. -/
theorem getLast?_collapseBlanksFrom (hc : isRunningBlank c = false) (after : Bool) (t : Text) :
    (collapseBlanksFrom after t).getLast? = some c ↔ t.getLast? = some c := by
  induction t generalizing after with
  | nil => rfl
  | cons d t ih =>
    have hskip : ∀ {e : Char} {u : Text}, e ≠ c →
        ((e :: u).getLast? = some c ↔ u.getLast? = some c) := by
      intro e u he
      cases u with
      | nil => simp [he]
      | cons f u => rw [List.getLast?_cons_cons]
    rw [collapseBlanksFrom]
    split
    · rename_i hd
      have hspace : ' ' ≠ c := by
        rintro rfl
        cases hc
      have hne : d ≠ c := by
        rintro rfl
        rw [hc] at hd
        cases hd
      split
      · rw [ih, hskip hne]
      · rw [hskip hspace, ih, hskip hne]
    · by_cases hne : d = c
      · subst hne
        have hkeep : ∀ u : Text, (d :: u).getLast? = some d ↔ u = [] ∨ u.getLast? = some d := by
          intro u
          cases u <;> simp
        rw [hkeep, hkeep, ih, ← collapseBlanks, collapseBlanks_eq_nil_iff]
      · rw [hskip hne, ih, hskip hne]

/-! ## Texts without blanks -/

theorem isRunningBlank_eq_false (h : isBlank c = false) : isRunningBlank c = false := by
  have hne : ∀ d, isBlank d = true → c ≠ d := by
    rintro d hd rfl
    rw [h] at hd
    cases hd
  simp [isRunningBlank, hne ' ' (by decide), hne '\t' (by decide), hne '\n' (by decide),
    hne '\x0c' (by decide), hne '\r' (by decide)]

theorem collapseBlanks_eq_self (h : ∀ c ∈ t, isBlank c = false) : collapseBlanks t = t := by
  rw [collapseBlanks]
  induction t with
  | nil => rfl
  | cons c t ih =>
    rw [List.forall_mem_cons] at h
    rw [collapseBlanksFrom, isRunningBlank_eq_false h.1, if_neg (by simp), ih h.2]

theorem trimLeft_eq_self (h : ∀ c ∈ t, isBlank c = false) : trimLeft t = t := by
  cases t with
  | nil => rfl
  | cons c t => rw [trimLeft, List.dropWhile_cons_of_neg (by simp [h c])]

theorem trimRight_eq_self (h : ∀ c ∈ t, isBlank c = false) : trimRight t = t :=
  dropRightWhile_eq_self fun c hc => h c (List.mem_of_getLast? hc)

theorem trim_eq_self (h : ∀ c ∈ t, isBlank c = false) : trim t = t := by
  rw [trim, trimLeft_eq_self h, trimRight_eq_self h]

/-! ## Runs of one character -/

/-- A run before a text goes on as long as the text has its character. -/
theorem takeWhile_replicate_append (c : Char) (n : Nat) (t : Text) :
    (List.replicate n c ++ t).takeWhile (· = c) = List.replicate n c ++ t.takeWhile (· = c) :=
  List.takeWhile_append_of_pos fun d hd => by simpa using List.eq_of_mem_replicate hd

theorem dropWhile_replicate_append (c : Char) (n : Nat) (t : Text) :
    (List.replicate n c ++ t).dropWhile (· = c) = t.dropWhile (· = c) :=
  List.dropWhile_append_of_pos fun d hd => by simpa using List.eq_of_mem_replicate hd

/-! ## Runs of a class -/

/-- The first characters of a class, where what is behind them does not start in it. -/
theorem takeWhile_append_of_head? {x : Text} (ht : ∀ c ∈ t, p c = true)
    (hx : ∀ c, x.head? = some c → p c = false) : (t ++ x).takeWhile p = t := by
  rw [List.takeWhile_append_of_pos ht]
  cases x with
  | nil => exact List.append_nil t
  | cons c x => rw [List.takeWhile_cons_of_neg (by simp [hx c rfl]), List.append_nil]

/-- Where a run of a class ends, is told by the class. -/
theorem append_inj_of_class {u x y : Text} (ht : ∀ c ∈ t, p c = true) (hu : ∀ c ∈ u, p c = true)
    (hx : ∀ c, x.head? = some c → p c = false) (hy : ∀ c, y.head? = some c → p c = false)
    (h : t ++ x = u ++ y) : t = u ∧ x = y := by
  have hrun : t = u := by
    rw [← takeWhile_append_of_head? ht hx, h, takeWhile_append_of_head? hu hy]
  subst hrun
  exact ⟨rfl, List.append_cancel_left h⟩

end DocumentTree.Text
