import DocumentTree.Proofs.Markdown.Characters
import DocumentTree.Proofs.Markdown.Documents
import Mathlib.Algebra.Group.Nat.Even
import Mathlib.Data.List.Chain

/-!
# Where texts meet

A bracket before a letter opens a tag and an ampersand a character reference, so text is written
with an escape there. The escape is decided within each text, and no text looks at its neighbours:
where a text ends in such a character and the next one goes on with a letter, the two are written
side by side. There, and nowhere else, texts open raw syntax.

## Main definitions

* `opensRaw c next` — the two characters open raw syntax.
* `OpensRaw t` — a text opens raw syntax somewhere.
* `Meets t u` — raw syntax starts at the end of one text and goes on in the other.
-/

namespace DocumentTree.Markdown

open Text (collapseBlanks isRunningBlank)

variable {c d : Char} {t u : Text} {o : Options}

/-! ## Raw syntax -/

/-- Whether a character before another opens a tag, an autolink or a character reference. -/
def opensRaw (c next : Char) : Bool :=
  (c = '<' && opensTag (some next)) || (c = '&' && opensReference (some next))

/-- The number of backslashes at the end of a text. -/
def trailingBackslashes (t : Text) : Nat :=
  (t.rtakeWhile (· = '\\')).length

/-- A text opens raw syntax: the opener stands behind an even number of backslashes, so it is not
escaped. -/
def OpensRaw (t : Text) : Prop :=
  ∃ before c next rest, t = before ++ c :: next :: rest ∧ opensRaw c next = true ∧
    Even (trailingBackslashes before)

theorem not_opensRaw_nil : ¬ OpensRaw [] := by
  rintro ⟨before, c, next, rest, h, -⟩
  simp at h

/-- An even number of backslashes at the end stays even behind a text that ends in an even number
of them. -/
theorem even_trailingBackslashes_append (t : Text) (hu : Even (trailingBackslashes u)) :
    Even (trailingBackslashes (u ++ t)) ↔ Even (trailingBackslashes t) := by
  simp only [trailingBackslashes, List.rtakeWhile, List.length_reverse, List.reverse_append,
    List.takeWhile_append] at hu ⊢
  split
  · rename_i hall
    rw [List.length_append, Nat.even_add, hall]
    simp [hu]
  · rfl

theorem even_trailingBackslashes_singleton (hc : c ≠ '\\') : Even (trailingBackslashes [c]) := by
  simp [trailingBackslashes, List.rtakeWhile, hc]

theorem even_trailingBackslashes_escape (c : Char) : Even (trailingBackslashes ['\\', c]) := by
  by_cases hc : c = '\\'
  · subst hc
    decide
  · simp [trailingBackslashes, List.rtakeWhile, hc]

/-- A character that is no backslash opens raw syntax with the next one, or leaves it to the
rest. -/
theorem opensRaw_cons (hc : c ≠ '\\') :
    OpensRaw (c :: t) ↔ (∃ d, t.head? = some d ∧ opensRaw c d = true) ∨ OpensRaw t := by
  have heven : ∀ before, Even (trailingBackslashes (c :: before)) ↔
      Even (trailingBackslashes before) := fun before =>
    even_trailingBackslashes_append before (even_trailingBackslashes_singleton hc)
  constructor
  · rintro ⟨before, e, next, rest, heq, hopens, hbefore⟩
    cases before with
    | nil =>
      obtain ⟨rfl, rfl⟩ := List.cons.inj heq
      exact .inl ⟨next, rfl, hopens⟩
    | cons b before =>
      obtain ⟨rfl, rfl⟩ := List.cons.inj heq
      exact .inr ⟨before, e, next, rest, rfl, hopens, (heven before).mp hbefore⟩
  · rintro (⟨d, hd, hopens⟩ | ⟨before, e, next, rest, rfl, hopens, hbefore⟩)
    · obtain ⟨rest, rfl⟩ := List.head?_eq_some_iff.mp hd
      exact ⟨[], c, d, rest, rfl, hopens, by decide⟩
    · exact ⟨c :: before, e, next, rest, rfl, hopens, (heven before).mpr hbefore⟩

/-- An escape and its character open nothing. -/
theorem opensRaw_escape (c : Char) (t : Text) : OpensRaw ('\\' :: c :: t) ↔ OpensRaw t := by
  have heven : ∀ before, Even (trailingBackslashes ('\\' :: c :: before)) ↔
      Even (trailingBackslashes before) := fun before =>
    even_trailingBackslashes_append before (even_trailingBackslashes_escape c)
  constructor
  · rintro ⟨before, e, next, rest, heq, hopens, hbefore⟩
    match before with
    | [] =>
      obtain ⟨rfl, -⟩ := List.cons.inj heq
      cases hopens
    | [b] =>
      obtain ⟨rfl, -⟩ := List.cons.inj heq
      exact absurd hbefore (by decide)
    | b :: b' :: before =>
      rw [List.cons_append, List.cons_append, List.cons.injEq, List.cons.injEq] at heq
      obtain ⟨rfl, rfl, rfl⟩ := heq
      exact ⟨before, e, next, rest, rfl, hopens, (heven before).mp hbefore⟩
  · rintro ⟨before, e, next, rest, rfl, hopens, hbefore⟩
    exact ⟨'\\' :: c :: before, e, next, rest, rfl, hopens, (heven before).mpr hbefore⟩

theorem needsEscape_of_opensRaw (h : opensRaw c d = true) (previous : Option Char) :
    needsEscape previous c (some d) = true := by
  simp only [opensRaw, Bool.or_eq_true, Bool.and_eq_true, decide_eq_true_eq] at h
  rcases h with ⟨rfl, h⟩ | ⟨rfl, h⟩ <;> simp [needsEscape, isAlwaysEscaped, h]

theorem opener_of_opensRaw (h : opensRaw c d = true) : c = '<' ∨ c = '&' := by
  simp only [opensRaw, Bool.or_eq_true, Bool.and_eq_true, decide_eq_true_eq] at h
  exact h.imp And.left And.left

theorem opensRaw_eq_false_of_ne (h : c ≠ '<' ∧ c ≠ '&') (d : Char) : opensRaw c d = false := by
  simp [opensRaw, h]

/-- Raw syntax goes on with letters and some marks only. -/
theorem opensRaw_eq_false (h : opensTag (some d) = false ∧ opensReference (some d) = false)
    (c : Char) : opensRaw c d = false := by
  simp [opensRaw, h]

theorem opensRaw_eq_false_of_isBlank (h : Text.isBlank d = true) (c : Char) :
    opensRaw c d = false := by
  have hne : ∀ e, isPunctuation e = true → d ≠ e := by
    rintro e he rfl
    rw [isPunctuation_eq_false_of_isBlank h] at he
    cases he
  refine opensRaw_eq_false ?_ c
  simp [opensTag, opensReference, Text.isLetter_eq_false_of_isBlank h, hne '/' (by decide),
    hne '!' (by decide), hne '?' (by decide), hne '#' (by decide)]

/-- A character that is no opener and escapes nothing can be left out before a text. -/
theorem opensRaw_cons_iff (h : c ≠ '\\' ∧ c ≠ '<' ∧ c ≠ '&') : OpensRaw (c :: t) ↔ OpensRaw t := by
  simp [opensRaw_cons h.1, opensRaw_eq_false_of_ne h.2]

/-! ## Within a text and at its end -/

/-- Raw syntax starts at the end of one text and goes on in another. -/
def Meets (t u : Text) : Prop :=
  ∃ c d, t.getLast? = some c ∧ u.head? = some d ∧ opensRaw c d = true

instance (t u : Text) : Decidable (Meets t u) :=
  decidable_of_iff ((t.getLast?.bind fun c => u.head?.map (opensRaw c)) = some true) <| by
    simp only [Meets, Option.bind_eq_some_iff, Option.map_eq_some_iff]
    exact ⟨fun ⟨c, hc, d, hd, h⟩ => ⟨c, d, hc, hd, h⟩, fun ⟨c, d, hc, hd, h⟩ => ⟨c, hc, d, hd, h⟩⟩

/-- **An escaped text opens no raw syntax itself**, but may do so with what follows. -/
theorem opensRaw_escapeTextAfter (previous : Option Char) (t u : Text) :
    OpensRaw (escapeTextAfter previous t ++ u) ↔ Meets t u ∨ OpensRaw u := by
  induction t generalizing previous with
  | nil => simp [escapeTextAfter, Meets]
  | cons c t ih =>
    rw [escapeTextAfter]
    split
    · rename_i hc
      rw [List.cons_append, List.cons_append, opensRaw_escape, ih]
      refine or_congr_left ?_
      cases t with
      | nil =>
        -- An opener that nothing follows in its own text is not escaped.
        simp only [Meets, List.getLast?_nil, List.getLast?_singleton]
        constructor
        · rintro ⟨_, _, h, -⟩
          cases h
        · rintro ⟨e, d, he, -, hopens⟩
          obtain rfl := Option.some.inj he
          rcases opener_of_opensRaw hopens with rfl | rfl <;> cases hc
      | cons e t => simp only [Meets, List.getLast?_cons_cons]
    · rename_i hc
      have hne : c ≠ '\\' := by
        rintro rfl
        exact hc rfl
      rw [List.cons_append, opensRaw_cons hne, ih, ← or_assoc]
      refine or_congr_left ?_
      cases t with
      | nil => simp [Meets, escapeTextAfter]
      | cons e t =>
        simp only [Meets, List.getLast?_cons_cons]
        refine or_iff_right ?_
        rintro ⟨d, hd, hopens⟩
        rw [List.head?_append_of_ne_nil _ (mt escapeTextAfter_eq_nil_iff.mp (by simp))] at hd
        -- Behind the character stands an escape, or the character that is next in the text.
        rcases eq_or_head?_of_escapeTextAfter hd with rfl | hd
        · rw [opensRaw_eq_false (by decide)] at hopens
          cases hopens
        · rw [hd] at hc
          exact hc (needsEscape_of_opensRaw hopens previous)

/-! ## What is done to written text -/

/-- **One more escape** changes nothing before a character that neither opens raw syntax nor goes on
with it. -/
theorem opensRaw_insert {before rest : Text}
    (hbefore : ∀ e, before.getLast? = some e → e ≠ '\\' ∧ opensRaw e c = false)
    (hc : c ≠ '\\' ∧ c ≠ '<' ∧ c ≠ '&') :
    OpensRaw (before ++ '\\' :: c :: rest) ↔ OpensRaw (before ++ c :: rest) := by
  match before with
  | [] => rw [List.nil_append, List.nil_append, opensRaw_escape, opensRaw_cons_iff hc]
  | d :: before =>
    by_cases hd : d = '\\'
    · subst hd
      cases before with
      | nil => exact absurd rfl (hbefore '\\' rfl).1
      | cons d before =>
        have htail : ∀ e, before.getLast? = some e → e ≠ '\\' ∧ opensRaw e c = false :=
          fun e he => hbefore e (by simp [List.getLast?_cons, he])
        rw [List.cons_append, List.cons_append, List.cons_append, List.cons_append,
          opensRaw_escape, opensRaw_escape, opensRaw_insert htail hc]
    · have htail : ∀ e, before.getLast? = some e → e ≠ '\\' ∧ opensRaw e c = false :=
        fun e he => hbefore e (by simp [List.getLast?_cons, he])
      rw [List.cons_append, List.cons_append, opensRaw_cons hd, opensRaw_cons hd,
        opensRaw_insert htail hc]
      refine or_congr_left ?_
      cases before with
      | nil => simp [(hbefore d rfl).2, opensRaw_eq_false (d := '\\') (by decide)]
      | cons e before => rfl

theorem opensRaw_trimRight (t : Text) : OpensRaw (Text.trimRight t) ↔ OpensRaw t := by
  induction t using List.reverseRecOn with
  | nil => rfl
  | append_singleton t b ih =>
    rw [Text.trimRight, Text.dropRightWhile_concat]
    split
    · rename_i hb
      rw [← Text.trimRight, ih]
      constructor
      · rintro ⟨before, c, next, rest, rfl, h⟩
        exact ⟨before, c, next, rest ++ [b], by simp, h⟩
      · rintro ⟨before, c, next, rest, heq, hopens, heven⟩
        rcases List.eq_nil_or_concat rest with rfl | ⟨rest, e, rfl⟩
        · have hnext : b = next := by simpa using congrArg List.getLast? heq
          rw [← hnext, opensRaw_eq_false_of_isBlank hb] at hopens
          cases hopens
        · have hcut : t ++ [b] = (before ++ c :: next :: rest) ++ [e] := by simpa using heq
          exact ⟨before, c, next, rest, (List.append_inj' hcut rfl).1, hopens, heven⟩
    · rfl

theorem opensRaw_trim (t : Text) : OpensRaw (Text.trim t) ↔ OpensRaw t := by
  rw [Text.trim, opensRaw_trimRight]
  induction t with
  | nil => rfl
  | cons b t ih =>
    by_cases hb : Text.isBlank b = true
    · have hne : b ≠ '\\' ∧ b ≠ '<' ∧ b ≠ '&' := by
        refine ⟨?_, ?_, ?_⟩ <;> rintro rfl <;> exact absurd hb (by decide)
      rw [Text.trimLeft, List.dropWhile_cons_of_pos hb, ← Text.trimLeft, ih, opensRaw_cons_iff hne]
    · rw [Text.trimLeft, List.dropWhile_cons_of_neg hb]

theorem opensRaw_escapeBlockStart (t : Text) : OpensRaw (escapeBlockStart t) ↔ OpensRaw t := by
  rcases escapeBlockStart_cases t with ⟨heq, -⟩ | ⟨digits, c, rest, rfl, hdigits, hc, heq⟩
  · rw [heq]
  · rw [heq]
    have hmark : ∀ d, d ∉ startMarks → c ≠ d := by
      rintro d hd rfl
      exact hd hc
    refine opensRaw_insert (fun e he => ?_)
      ⟨hmark '\\' (by decide), hmark '<' (by decide), hmark '&' (by decide)⟩
    -- What stands before the mark is a digit.
    have hdigit := hdigits e (List.mem_of_getLast? he)
    refine ⟨?_, opensRaw_eq_false_of_ne ⟨?_, ?_⟩ c⟩ <;> rintro rfl <;>
      exact absurd hdigit (by decide)

theorem opensRaw_escapePipes (t : Text) : OpensRaw (escapePipes t) ↔ OpensRaw t := by
  -- What has been written already comes before the pipe.
  have hafter : ∀ before, OpensRaw (before ++ escapePipesAfter before.getLast? t) ↔
      OpensRaw (before ++ t) := by
    induction t with
    | nil => simp [escapePipesAfter]
    | cons c t ih =>
      intro before
      have hrest := ih (before ++ [c])
      rw [List.getLast?_concat, List.append_assoc, List.append_assoc, List.singleton_append,
        List.singleton_append] at hrest
      rw [escapePipesAfter]
      split
      · rename_i hpipe
        simp only [Bool.and_eq_true, decide_eq_true_eq, bne_iff_ne] at hpipe
        obtain ⟨rfl, hprevious⟩ := hpipe
        rw [opensRaw_insert _ (by decide), hrest]
        intro e he
        refine ⟨?_, opensRaw_eq_false (by decide) e⟩
        rintro rfl
        exact hprevious he
      · exact hrest
  exact hafter []

theorem opensRaw_escapeClosingHashes (t : Text) :
    OpensRaw (escapeClosingHashes t) ↔ OpensRaw t := by
  rcases escapeClosingHashes_cases t with heq | ⟨before, rest, rfl, hbefore, heq⟩
  · rw [heq]
  · rw [heq]
    refine opensRaw_insert (fun e he => ?_) (by decide)
    have hblank := hbefore e he
    refine ⟨?_, opensRaw_eq_false_of_ne ⟨?_, ?_⟩ _⟩ <;> rintro rfl <;>
      exact absurd hblank (by decide)

theorem opensRaw_heading (level : HeadingLevel) (t : Text) :
    OpensRaw (heading level t) ↔ OpensRaw t := by
  have hhashes : ∀ (n : Nat) (u : Text), OpensRaw (List.replicate n '#' ++ u) ↔ OpensRaw u := by
    intro n u
    induction n with
    | zero => rfl
    | succ n ih =>
      rw [List.replicate_succ, List.cons_append, opensRaw_cons_iff (by decide), ih]
  cases t with
  | nil => simpa [heading] using hhashes level.val []
  | cons c t =>
    simp only [heading, List.isEmpty_cons, Bool.false_eq_true, if_false]
    rw [hhashes, opensRaw_cons_iff (by decide)]

/-! ## Texts in sequence -/

/-- What raw syntax goes on with is never escaped and is no blank. -/
theorem opensRaw_next (h : opensRaw c d = true) :
    isRunningBlank d = false ∧ ∀ previous next, needsEscape previous d next = false := by
  have hne : ∀ e, opensTag (some e) = false ∧ opensReference (some e) = false → d ≠ e := by
    rintro e he rfl
    rw [opensRaw_eq_false he] at h
    cases h
  have hletter : isAlwaysEscaped d = false := by
    simp [isAlwaysEscaped, hne '\\' (by decide), hne '`' (by decide), hne '*' (by decide),
      hne '[' (by decide), hne ']' (by decide), hne '~' (by decide)]
  constructor
  · simp [isRunningBlank, hne ' ' (by decide), hne '\t' (by decide), hne '\n' (by decide),
      hne '\x0c' (by decide), hne '\r' (by decide)]
  · intro previous next
    simp [needsEscape, hletter, hne '_' (by decide), hne '<' (by decide), hne '&' (by decide)]

/-- Whether texts meet can be seen before they are written. -/
theorem meets_escaped {t u : Text} (rest : Text) (hu : u ≠ []) :
    Meets (collapseBlanks t) (escapeText (collapseBlanks u) ++ rest) ↔ Meets t u := by
  have hlast : ∀ c d, opensRaw c d = true →
      ((collapseBlanks t).getLast? = some c ↔ t.getLast? = some c) := by
    intro c d h
    have hc : isRunningBlank c = false := by
      rcases opener_of_opensRaw h with rfl | rfl <;> decide
    exact Text.getLast?_collapseBlanksFrom hc false t
  have hhead : ∀ c d, opensRaw c d = true →
      ((escapeText (collapseBlanks u) ++ rest).head? = some d ↔ u.head? = some d) := by
    intro c d h
    obtain ⟨hblank, hescape⟩ := opensRaw_next h
    rw [← Text.head?_collapseBlanks (t := u) hblank]
    obtain ⟨e, v, hv⟩ := List.exists_cons_of_ne_nil (mt Text.collapseBlanks_eq_nil_iff.mp hu)
    rw [hv, escapeText, escapeTextAfter]
    split
    · rename_i he
      have hed : e ≠ d := by
        rintro rfl
        rw [hescape] at he
        cases he
      have hbackslash : '\\' ≠ d := by
        rintro rfl
        rw [opensRaw_eq_false (by decide)] at h
        cases h
      simp [hed, hbackslash]
    · rfl
  constructor
  · rintro ⟨c, d, hc, hd, h⟩
    exact ⟨c, d, (hlast c d h).mp hc, (hhead c d h).mp hd, h⟩
  · rintro ⟨c, d, hc, hd, h⟩
    exact ⟨c, d, (hlast c d h).mpr hc, (hhead c d h).mpr hd, h⟩

/-- **Texts in sequence open raw syntax where two of them meet**, if none of them is empty. -/
theorem opensRaw_flatten (ho : o.escapeSpecial = true) {ts : List Text} (hts : ∀ t ∈ ts, t ≠ []) :
    OpensRaw (ts.map (literal o)).flatten ↔ ¬ ts.IsChain fun t u => ¬ Meets t u := by
  induction ts with
  | nil => simp [not_opensRaw_nil]
  | cons t ts ih =>
    rw [List.forall_mem_cons] at hts
    have hliteral : ∀ t, literal o t = escapeText (collapseBlanks t) := by
      intro t
      simp [literal, ho]
    rw [List.map_cons, List.flatten_cons, hliteral, escapeText, opensRaw_escapeTextAfter, ih hts.2]
    cases ts with
    | nil => simp [Meets]
    | cons u ts =>
      have hu : u ≠ [] := hts.2 u (by simp)
      rw [List.isChain_cons_cons, List.map_cons, List.flatten_cons, hliteral, meets_escaped _ hu]
      tauto

/-! ## Paragraphs, headings and cells of texts -/

/-- Text nodes. -/
def textNodes (ts : List (String × Metadata)) : List Node :=
  ts.map fun t => .text t.1 t.2

/-- Two of the texts that are not empty are neighbours and meet. -/
def HasSeam (ts : List (String × Metadata)) : Prop :=
  ∃ before t u after, (ts.map fun t => t.1.toList).filter (· ≠ []) = before ++ t :: u :: after ∧
    Meets t u

theorem not_isChain_iff_hasSeam (ts : List (String × Metadata)) :
    (¬ ((ts.map fun t => t.1.toList).filter (· ≠ [])).IsChain fun t u => ¬ Meets t u) ↔
      HasSeam ts := by
  rw [List.isChain_iff_forall_rel_of_append_cons_cons]
  constructor
  · intro h
    by_contra hnone
    exact h fun t u before after heq hmeets => hnone ⟨before, t, u, after, heq, hmeets⟩
  · rintro ⟨before, t, u, after, heq, hmeets⟩ h
    exact h heq hmeets

instance (ts : List (String × Metadata)) : Decidable (HasSeam ts) :=
  decidable_of_iff _ (not_isChain_iff_hasSeam ts)

theorem literal_nil (o : Options) : literal o [] = [] := by
  simp [literal, collapseBlanks, Text.collapseBlanksFrom, escapeText, escapeTextAfter]

/-- Text nodes open raw syntax just where two of them meet. -/
theorem opensRaw_textNodes (ho : o.escapeSpecial = true) (marker : Text)
    (ts : List (String × Metadata)) :
    OpensRaw (joinFragments o (fragments o marker (textNodes ts))) ↔ HasSeam ts := by
  have hfragments : fragments o marker (textNodes ts) =
      ts.map fun t => ⟨literal o t.1.toList, .text⟩ := by
    induction ts with
    | nil => rfl
    | cons t ts ih => simpa [textNodes, fragments, fragment] using ih
  have hjoin : joinFragments o (fragments o marker (textNodes ts)) =
      (((ts.map fun t => t.1.toList).filter (· ≠ [])).map (literal o)).flatten := by
    rw [hfragments, joinFragments_of_texts o fun f hf => by
      obtain ⟨t, -, rfl⟩ := List.mem_map.mp hf
      rfl]
    clear hfragments
    induction ts with
    | nil => rfl
    | cons t ts ih =>
      cases ht : t.1.toList with
      | nil => simpa [ht, literal_nil] using ih
      | cons c u => simpa [ht] using ih
  rw [hjoin, opensRaw_flatten ho (by simp), not_isChain_iff_hasSeam]

/-- **Texts side by side open raw syntax at their seams and nowhere else.** Whatever texts stand
in a paragraph, a heading or a cell, written with escapes: a tag, an autolink or a character
reference is opened just where a text ends in its opener and the next one that is not empty goes on
with it. A single text opens none. -/
theorem raw_syntax_is_opened_at_seams (ho : o.escapeSpecial = true) (placement : Placement)
    (ts : List (String × Metadata)) (m : Metadata) :
    (OpensRaw (fragment o placement (.paragraph (textNodes ts) m)).text ↔ HasSeam ts) ∧
    (∀ level, OpensRaw (fragment o placement (.heading level (textNodes ts) m)).text ↔
      HasSeam ts) ∧
    ∀ alignment isHeader,
      OpensRaw (fragment o placement (.tableCell (textNodes ts) alignment isHeader m)).text ↔
        HasSeam ts := by
  have hseam := opensRaw_textNodes ho placement.marker ts
  refine ⟨?_, fun level => ?_, fun alignment isHeader => ?_⟩
  · simp only [fragment, paragraph, ho, if_true]
    rw [opensRaw_escapeBlockStart, opensRaw_trim, hseam]
  · simp only [fragment]
    rw [opensRaw_heading, opensRaw_escapeClosingHashes, opensRaw_trim, hseam]
  · simp only [fragment, cellContent]
    split
    · rw [opensRaw_escapePipes, opensRaw_trim, hseam]
    · rw [opensRaw_trim, hseam]

/-- A text that ends in a backslash, an empty one between an ampersand and a letter, and a bracket
before a digit: only the second is a seam. -/
theorem reference_is_opened_at_seam :
    OpensRaw (fragment {} { marker := ['-'] }
      (.heading .first (textNodes [("\\", []), ("&", []), ("", []), ("x;", [])]))).text ∧
    ¬ OpensRaw (fragment {} { marker := ['-'] }
      (.paragraph (textNodes [("a<b\\", []), ("<", []), ("1", [])]))).text := by
  exact ⟨((raw_syntax_is_opened_at_seams rfl _ _ []).2.1 .first).mpr (by decide),
    mt (raw_syntax_is_opened_at_seams rfl _ _ []).1.mp (by decide)⟩

/-- The escape of a bracket does not look beyond its text, so two texts open a tag, and the same
characters in one text do not. -/
theorem split_tag_is_not_escaped :
    (fragment {} { marker := ['-'] } (.paragraph [.text "<", .text "b>"])).text = "<b>".toList ∧
    OpensRaw "<b>".toList ∧
    (fragment {} { marker := ['-'] } (.paragraph [.text "<b>"])).text = "\\<b>".toList ∧
    ¬ OpensRaw "\\<b>".toList := by
  refine ⟨by decide, ⟨[], '<', 'b', ['>'], rfl, by decide, by decide⟩, by decide, ?_⟩
  have hescaped : OpensRaw ('\\' :: '<' :: ['b', '>']) ↔ OpensRaw [] := by
    rw [opensRaw_escape, opensRaw_cons_iff (by decide), opensRaw_cons_iff (by decide)]
  exact mt hescaped.mp not_opensRaw_nil

end DocumentTree.Markdown
