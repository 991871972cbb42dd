import DocumentTree.Proofs.Text.Trimming
import Mathlib.Data.List.Basic

/-!
# Lines

Cutting a text into lines and putting lines together are inverse to each other. What stands behind
a place in a text has no influence on the lines before it: where the end of a text is cut off, whole
lines are lost, and the end of one. Line ends that are written with carriage returns become line
feeds.

## Main definitions

* `ReturnsEndLines t` — carriage returns stand before line feeds only.
* `dropReturns t` — the text without them.
-/

namespace DocumentTree.Text

variable {t u : Text} {c : Char}

/-! ## The functions of the library -/

theorem splitOn_eq (sep : Char) (t : Text) : splitOn sep t = List.splitOn sep t := by
  induction t with
  | nil => rfl
  | cons c t ih =>
    rw [splitOn, List.splitOn_cons_eq_if_modifyHead, ← ih]
    by_cases hc : c = sep
    · simp [hc]
    · rw [if_neg hc, if_neg (by simpa using hc)]
      cases h : splitOn sep t with
      | nil => exact absurd (ih.symm.trans h) (List.splitOn_ne_nil sep t)
      | cons piece pieces => rfl

theorem lines_eq (t : Text) : lines t = List.splitOn '\n' t :=
  splitOn_eq '\n' t

theorem unlines_eq (ts : List Text) : unlines ts = ['\n'].intercalate ts := by
  rw [unlines]
  induction ts with
  | nil => rfl
  | cons t ts ih =>
    cases ts with
    | nil => simp [join]
    | cons u ts => rw [join, ih, List.intercalate_cons_cons]; simp

/-! ## Cutting and joining -/

theorem unlines_cons {ts : List Text} (h : ts ≠ []) (t : Text) :
    unlines (t :: ts) = t ++ '\n' :: unlines ts := by
  cases ts with
  | nil => exact absurd rfl h
  | cons u ts => simp [unlines, join]

theorem lines_ne_nil (t : Text) : lines t ≠ [] := by
  rw [lines_eq]
  exact List.splitOn_ne_nil '\n' t

theorem lines_of_not_mem (h : '\n' ∉ t) : lines t = [t] := by
  rw [lines_eq, List.splitOn_eq_singleton h]

theorem lines_append_cons (t u : Text) : lines (t ++ '\n' :: u) = lines t ++ lines u := by
  simp only [lines_eq, List.splitOn_append_cons_self]

theorem lines_cons_of_ne (h : c ≠ '\n') (t : Text) :
    ∃ line rest, lines t = line :: rest ∧ lines (c :: t) = (c :: line) :: rest := by
  obtain ⟨line, rest, hlines⟩ := List.exists_cons_of_ne_nil (lines_ne_nil t)
  refine ⟨line, rest, hlines, ?_⟩
  rw [lines_eq, List.splitOn_cons_eq_if_modifyHead, ← lines_eq, hlines,
    if_neg (by simpa using h), List.modifyHead_cons]

@[simp] theorem unlines_lines (t : Text) : unlines (lines t) = t := by
  rw [unlines_eq, lines_eq, List.intercalate_splitOn]

/-- A text starts with its first line. -/
theorem exists_append_of_lines {first : Text} {rest : List Text} (h : lines t = first :: rest) :
    ∃ u, t = first ++ u := by
  rw [← unlines_lines t, h]
  cases rest with
  | nil => exact ⟨[], by simp [unlines, join]⟩
  | cons line rest => exact ⟨_, unlines_cons (by simp) first⟩

/-- A line has no line feed in it. -/
theorem not_mem_of_mem_lines {line : Text} (h : line ∈ lines t) : '\n' ∉ line := by
  induction t generalizing line with
  | nil =>
    obtain rfl : line = [] := by simpa [lines, splitOn] using h
    simp
  | cons c t ih =>
    by_cases hc : c = '\n'
    · subst hc
      have hlines : lines ('\n' :: t) = [] :: lines t := lines_append_cons [] t
      rw [hlines, List.mem_cons] at h
      rcases h with rfl | h
      · simp
      · exact ih h
    · obtain ⟨first, rest, hlines, hcons⟩ := lines_cons_of_ne hc t
      rw [hcons, List.mem_cons] at h
      rcases h with rfl | h
      · have hfirst : '\n' ∉ first := ih (by simp [hlines])
        simpa [hfirst] using Ne.symm hc
      · exact ih (by simp [hlines, h])

/-- **The lines of joined texts** are those of the texts in order. -/
theorem lines_unlines {ts : List Text} (h : ts ≠ []) :
    lines (unlines ts) = (ts.map lines).flatten := by
  induction ts with
  | nil => exact absurd rfl h
  | cons t ts ih =>
    cases ts with
    | nil => simp [unlines, join]
    | cons u ts =>
      rw [unlines_cons (by simp), lines_append_cons, ih (by simp)]
      rfl

/-- Lines are joined and cut apart again. -/
theorem lines_unlines_of_not_mem {ts : List Text} (h : ts ≠ []) (hts : ∀ t ∈ ts, '\n' ∉ t) :
    lines (unlines ts) = ts := by
  rw [unlines_eq, lines_eq, List.splitOn_intercalate '\n' hts h]

/-- Joined texts go on with each further text behind a separator. -/
theorem join_cons (sep t : Text) (ts : List Text) :
    join sep (t :: ts) = t ++ ts.flatMap (sep ++ ·) := by
  induction ts generalizing t with
  | nil => simp [join]
  | cons u ts ih => simp [join, ih]

/-- Two sequences of texts are joined with one more separator between them. -/
theorem join_append (sep : Text) {ts us : List Text} (ht : ts ≠ []) (hu : us ≠ []) :
    join sep (ts ++ us) = join sep ts ++ sep ++ join sep us := by
  obtain ⟨t, ts, rfl⟩ := List.exists_cons_of_ne_nil ht
  obtain ⟨u, us, rfl⟩ := List.exists_cons_of_ne_nil hu
  simp only [List.cons_append, join_cons, List.flatMap_append, List.flatMap_cons,
    List.append_assoc]

/-- Each text is a piece of the joined ones. -/
theorem infix_join {sep : Text} {ts : List Text} (h : t ∈ ts) : t <:+: join sep ts := by
  induction ts with
  | nil => cases h
  | cons u ts ih =>
    cases ts with
    | nil =>
      obtain rfl := List.mem_singleton.mp h
      exact List.infix_refl t
    | cons v ts =>
      have hjoin : join sep (u :: v :: ts) = u ++ sep ++ join sep (v :: ts) := rfl
      rw [hjoin]
      rcases List.mem_cons.mp h with rfl | h
      · exact ⟨[], sep ++ join sep (v :: ts), by simp⟩
      · obtain ⟨before, after, hinner⟩ := ih h
        exact ⟨u ++ sep ++ before, after, by simp [← hinner]⟩

theorem infix_of_mem_lines {line : Text} (h : line ∈ lines t) : line <:+: t := by
  have hjoin : line <:+: unlines (lines t) := infix_join h
  rwa [unlines_lines] at hjoin

/-- **Texts with blank lines between them** have their lines in order, each with an empty one behind
it, if the last has one too. -/
theorem lines_join_blank {ts : List Text} (h : ts ≠ []) :
    lines (join ['\n', '\n'] ts) ++ [[]] = ts.flatMap fun t => lines t ++ [[]] := by
  induction ts with
  | nil => exact absurd rfl h
  | cons t ts ih =>
    cases ts with
    | nil => simp [join]
    | cons u ts =>
      have hjoin : join ['\n', '\n'] (t :: u :: ts) =
          t ++ '\n' :: ([] ++ '\n' :: join ['\n', '\n'] (u :: ts)) := by
        simp [join]
      rw [hjoin, lines_append_cons, lines_append_cons, lines_of_not_mem (t := []) (by simp),
        List.flatMap_cons, ← ih (by simp)]
      simp

/-! ## The end of a text -/

theorem exists_lines (t : Text) : ∃ before last, lines t = before ++ [last] := by
  rcases List.eq_nil_or_concat (lines t) with h | ⟨before, last, h⟩
  · exact absurd h (lines_ne_nil t)
  · exact ⟨before, last, by simpa using h⟩

theorem unlines_append (before rest : List Text) (last first : Text) :
    unlines (before ++ [last]) ++ unlines (first :: rest) =
      unlines (before ++ (last ++ first) :: rest) := by
  induction before with
  | nil =>
    cases rest with
    | nil => rfl
    | cons line rest => simp [unlines, join]
  | cons line before ih =>
    have hleft : unlines (line :: before ++ [last]) = line ++ '\n' :: unlines (before ++ [last]) :=
      unlines_cons (by simp) line
    have hright : unlines (line :: before ++ (last ++ first) :: rest) =
        line ++ '\n' :: unlines (before ++ (last ++ first) :: rest) :=
      unlines_cons (by simp) line
    rw [hleft, hright, List.append_assoc, List.cons_append, ih]

/-- **Where texts meet**, the last line of one goes on with the first line of the other. -/
theorem lines_append {before rest : List Text} {last first : Text}
    (ht : lines t = before ++ [last]) (hu : lines u = first :: rest) :
    lines (t ++ u) = before ++ (last ++ first) :: rest := by
  have hmemt : ∀ line ∈ before ++ [last], '\n' ∉ line := fun line hline =>
    not_mem_of_mem_lines (t := t) (ht ▸ hline)
  have hmemu : ∀ line ∈ first :: rest, '\n' ∉ line := fun line hline =>
    not_mem_of_mem_lines (t := u) (hu ▸ hline)
  rw [← unlines_lines t, ← unlines_lines u, ht, hu, unlines_append,
    lines_unlines_of_not_mem (by simp)]
  simp only [List.mem_append, List.mem_cons, List.not_mem_nil, or_false] at hmemt hmemu ⊢
  rintro line (hline | rfl | hline)
  · exact hmemt line (.inl hline)
  · rw [List.mem_append, not_or]
    exact ⟨hmemt last (.inr rfl), hmemu first (.inl rfl)⟩
  · exact hmemu line (.inr hline)

/-- A text on one line stands on the first line with what is behind it. -/
theorem lines_append_of_not_mem {rest : List Text} {first : Text} (ht : '\n' ∉ t)
    (hu : lines u = first :: rest) : lines (t ++ u) = (t ++ first) :: rest := by
  have hline : lines t = [] ++ [t] := lines_of_not_mem ht
  rw [lines_append hline hu, List.nil_append]

/-- A text that ends in a character other than the line feed has it at the end of its last line. -/
theorem getLast?_of_lines {before : List Text} {last : Text} (ht : lines t = before ++ [last])
    (h : t.getLast? = some c) (hc : c ≠ '\n') : last.getLast? = some c := by
  obtain ⟨s, rfl⟩ : ∃ s, t = s ++ [c] := List.getLast?_eq_some_iff.mp h
  obtain ⟨start, final, hs⟩ := exists_lines s
  rw [lines_append hs (lines_of_not_mem (by simpa using Ne.symm hc))] at ht
  obtain ⟨-, hlast⟩ := List.append_inj' ht rfl
  obtain rfl : final ++ [c] = last := by simpa using hlast
  simp

theorem getLast?_join (sep : Text) (ts : List Text) (ht : t ≠ []) :
    (join sep (ts ++ [t])).getLast? = t.getLast? := by
  by_cases hts : ts = []
  · subst hts
    rfl
  · rw [join_append sep hts (by simp), List.getLast?_append_of_ne_nil _ (by simpa [join])]
    rfl

/-- A text ends like its last line, if this is not empty. -/
theorem getLast?_eq_of_lines {before : List Text} {last : Text} (ht : lines t = before ++ [last])
    (h : last ≠ []) : t.getLast? = last.getLast? := by
  rw [← unlines_lines t, ht, unlines, getLast?_join _ _ h]

/-- The last line of a trimmed text does not end in white space. -/
theorem getLast?_last_line {before : List Text} {last : Text} (h : trimRight t ≠ [])
    (hlines : lines (trimRight t) = before ++ [last]) :
    ∃ c, last.getLast? = some c ∧ isBlank c = false := by
  have hc := List.getLast?_eq_some_getLast h
  have hblank := getLast?_dropRightWhile hc
  refine ⟨_, getLast?_of_lines hlines hc ?_, hblank⟩
  intro hfeed
  rw [hfeed] at hblank
  exact absurd hblank (by decide)

/-- The lines of a trimmed text are those of the text, up to the one in which it ends. -/
theorem exists_lines_trimRight (t : Text) : ∃ before last behind after,
    lines (trimRight t) = before ++ [last] ∧ lines t = before ++ (last ++ behind) :: after := by
  obtain ⟨u, hu⟩ := exists_trimRight_append t
  obtain ⟨before, last, hlines⟩ := exists_lines (trimRight t)
  obtain ⟨behind, after, hlinesu⟩ := List.exists_cons_of_ne_nil (lines_ne_nil u)
  exact ⟨before, last, behind, after, hlines, by rw [← lines_append hlines hlinesu, hu]⟩

/-! ## Line ends -/

/-- Every carriage return comes right before a line feed. -/
def ReturnsEndLines : Text → Prop
  | [] => True
  | c :: cs => (c = '\r' → cs.head? = some '\n') ∧ ReturnsEndLines cs

instance decidableReturnsEndLines : (t : Text) → Decidable (ReturnsEndLines t)
  | [] => inferInstanceAs (Decidable True)
  | c :: cs =>
    have := decidableReturnsEndLines cs
    inferInstanceAs (Decidable ((c = '\r' → cs.head? = some '\n') ∧ ReturnsEndLines cs))

theorem returnsEndLines_of_not_mem (h : '\r' ∉ t) : ReturnsEndLines t := by
  induction t with
  | nil => trivial
  | cons c t ih =>
    rw [List.mem_cons, not_or] at h
    exact ⟨fun hc => absurd hc.symm h.1, ih h.2⟩

/-- The text without carriage returns. -/
def dropReturns (t : Text) : Text :=
  t.filter (· ≠ '\r')

theorem dropReturns_eq_self (h : '\r' ∉ t) : dropReturns t = t := by
  refine List.filter_eq_self.mpr fun c hc => ?_
  have hne : c ≠ '\r' := by
    rintro rfl
    exact h hc
  simpa using hne

@[simp] theorem dropReturns_cons_newline (t : Text) :
    dropReturns ('\n' :: t) = '\n' :: dropReturns t :=
  List.filter_cons_of_pos (by decide)

/-- **Line ends of two characters lose the first**, and that is all there is to normalize when
carriage returns stand nowhere else. -/
theorem normalizeLineEnds_eq_dropReturns (h : ReturnsEndLines t) :
    normalizeLineEnds t = dropReturns t := by
  fun_induction normalizeLineEnds t with
  | case1 => rfl
  | case2 cs ih =>
    rw [ih h.2.2, ← dropReturns_cons_newline]
    rfl
  | case3 c cs hpair ih =>
    have hc : c ≠ '\r' := by
      rintro rfl
      cases cs with
      | nil => cases h.1 rfl
      | cons d ds =>
        obtain rfl : d = '\n' := Option.some.inj (h.1 rfl)
        exact hpair ds rfl rfl
    rw [ih h.2, if_neg hc, dropReturns, dropReturns, List.filter_cons_of_pos (by simpa using hc)]

theorem normalizeLineEnds_cons {d : Char} {t : Text} (h : d = '\r' → t.head? ≠ some '\n') :
    normalizeLineEnds (d :: t) = (if d = '\r' then '\n' else d) :: normalizeLineEnds t := by
  rw [normalizeLineEnds]
  rintro u hd rfl
  exact h hd rfl

theorem normalizeLineEnds_ne_nil {t : Text} (h : t ≠ []) : normalizeLineEnds t ≠ [] := by
  fun_cases normalizeLineEnds t with
  | case1 => exact absurd rfl h
  | case2 | case3 => simp

/-- The line ends of texts in sequence are normalized in each of them, unless a line end of two
characters stands across the seam. -/
theorem normalizeLineEnds_append {t u : Text}
    (h : t.getLast? = some '\r' → u.head? ≠ some '\n') :
    normalizeLineEnds (t ++ u) = normalizeLineEnds t ++ normalizeLineEnds u := by
  fun_induction normalizeLineEnds t with
  | case1 => rfl
  | case2 t ih =>
    have ht : t.getLast? = some '\r' → u.head? ≠ some '\n' := by
      intro hlast
      exact h (by simp [List.getLast?_cons, hlast])
    simp [normalizeLineEnds, ih ht]
  | case3 d t hpair ih =>
    have ht : t.getLast? = some '\r' → u.head? ≠ some '\n' := by
      intro hlast
      exact h (by simp [List.getLast?_cons, hlast])
    rw [List.cons_append, List.cons_append, ← ih ht]
    refine normalizeLineEnds_cons fun hd hhead => ?_
    cases t with
    | nil => exact h (by simp [hd]) hhead
    | cons e t => exact hpair t hd (by rw [Option.some.inj hhead])

theorem normalizeLineEnds_eq_self {t : Text} (h : '\r' ∉ t) : normalizeLineEnds t = t := by
  rw [Text.normalizeLineEnds_eq_dropReturns (Text.returnsEndLines_of_not_mem h),
    Text.dropReturns_eq_self h]

/-- The lines are the same without carriage returns. -/
theorem dropReturns_unlines (ts : List Text) :
    dropReturns (unlines ts) = unlines (ts.map dropReturns) := by
  induction ts with
  | nil => rfl
  | cons t ts ih =>
    cases ts with
    | nil => rfl
    | cons u ts =>
      have hne : (u :: ts).map dropReturns ≠ [] := List.cons_ne_nil _ _
      rw [unlines_cons (List.cons_ne_nil u ts), List.map_cons, unlines_cons hne, ← ih,
        ← dropReturns_cons_newline]
      exact List.filter_append t _

theorem lines_dropReturns (t : Text) : lines (dropReturns t) = (lines t).map dropReturns := by
  have hlines : ∀ line ∈ (lines t).map dropReturns, '\n' ∉ line := by
    intro line hline
    obtain ⟨inner, hinner, rfl⟩ := List.mem_map.mp hline
    exact fun hmem => not_mem_of_mem_lines hinner (List.mem_of_mem_filter hmem)
  rw [← lines_unlines_of_not_mem (by simp [lines_ne_nil]) hlines, ← dropReturns_unlines,
    unlines_lines]

end DocumentTree.Text
