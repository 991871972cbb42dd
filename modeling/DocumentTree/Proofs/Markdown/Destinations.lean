import DocumentTree.Proofs.Markdown.LineCounts
import DocumentTree.Proofs.Markdown.Titles

/-!
# Which destinations are read back

A reader takes a destination between angle brackets up to the first closing bracket that is not
escaped, and a bare one up to a space, a control character or a parenthesis that closes none inside.
Then it takes the escapes off. Ampersands and brackets of the address are escaped, but backslashes
are not: one before punctuation is read as an escape, and one at the end escapes what closes the
destination. Before an ampersand it meets the escape of that and is read back.

## Main definitions

* `readBare depth t`, `readDestination t` — the destination that a text starts with.
* `BackslashesStand q t` — what is behind each backslash of a text.
* `IsHarmless` — what a backslash of an address may stand before.
-/

namespace DocumentTree.Markdown

variable {c : Char} {p : Char → Bool} {q : Option Char → Prop} {t u inner rest : Text} {depth : Nat}

/-! ## Readers -/

/-- A bare destination with a number of open parentheses, and what is behind it. It ends before a
space, a control character or a parenthesis that closes none of the open ones, where it must have
closed all of them. -/
def readBare (depth : Nat) : Text → Option (Text × Text)
  | [] => if depth = 0 then some ([], []) else none
  | '\\' :: c :: cs =>
    if isPunctuation c then readOn ['\\', c] (readBare depth cs)
    else readOn ['\\'] (readBare depth (c :: cs))
  | c :: cs =>
    if c = ' ' || Text.isControl c then if depth = 0 then some ([], c :: cs) else none
    else if c = '(' then readOn [c] (readBare (depth + 1) cs)
    else if c = ')' then
      if depth = 0 then some ([], c :: cs) else readOn [c] (readBare (depth - 1) cs)
    else readOn [c] (readBare depth cs)

/-- The destination that a text starts with, without its escapes, and what is behind it. -/
def readDestination : Text → Option (Text × Text)
  | '<' :: t => do
    let (inner, rest) ← readUntil '>' t
    if .plain '<' ∈ signs inner then none else some (unescape inner, rest)
  | t => do
    let (inner, rest) ← readBare 0 t
    if inner = [] then none else some (unescape inner, rest)

/-! ## Backslashes and what they stand before -/

/-- Behind each backslash of a text there is something of a kind: a character, or the end. -/
def BackslashesStand (q : Option Char → Prop) (t : Text) : Prop :=
  ∀ before after, t = before ++ '\\' :: after → q after.head?

theorem backslashesStand_nil : BackslashesStand q [] := by
  intro before after h
  simp at h

theorem BackslashesStand.mono {q' : Option Char → Prop} (h : BackslashesStand q t)
    (hq : ∀ next, q next → q' next) : BackslashesStand q' t :=
  fun before after ht => hq _ (h before after ht)

theorem backslashesStand_cons :
    BackslashesStand q (c :: t) ↔ (c = '\\' → q t.head?) ∧ BackslashesStand q t := by
  constructor
  · refine fun h => ⟨?_, fun before after ht => h (c :: before) after (by rw [ht]; rfl)⟩
    rintro rfl
    exact h [] t rfl
  · rintro ⟨hc, ht⟩ before after h
    cases before with
    | nil =>
      obtain ⟨rfl, rfl⟩ := List.cons.inj h
      exact hc rfl
    | cons b before => exact ht before after (List.cons.inj h).2

theorem backslashesStand_cons_of_ne (hc : c ≠ '\\') :
    BackslashesStand q (c :: t) ↔ BackslashesStand q t := by
  rw [backslashesStand_cons]
  exact and_iff_right fun heq => absurd heq hc

/-- What a backslash in an address may stand before: an ampersand, or a character that is no
punctuation. -/
def IsHarmless (next : Option Char) : Prop :=
  ∃ c, next = some c ∧ (c = '&' ∨ isPunctuation c = false)

/-- What makes no escape of a backslash before it, where a class of characters is escaped: a
character of the class, one that is no punctuation, or nothing. -/
def StaysRaw (p : Char → Bool) (next : Option Char) : Prop :=
  ∀ c, next = some c → p c = true ∨ isPunctuation c = false

@[simp] theorem isHarmless_some : IsHarmless (some c) ↔ c = '&' ∨ isPunctuation c = false := by
  simp [IsHarmless]

@[simp] theorem not_isHarmless_none : ¬ IsHarmless none := by
  simp [IsHarmless]

@[simp] theorem staysRaw_some : StaysRaw p (some c) ↔ p c = true ∨ isPunctuation c = false := by
  simp [StaysRaw]

/-! ## Escapes that are taken off -/

theorem unescape_cons (hc : c ≠ '\\') (t : Text) : unescape (c :: t) = c :: unescape t := by
  rw [unescape]
  rintro d ds rfl
  exact absurd rfl hc

section Escapes

variable (hp : p '\\' = false) (hclass : ∀ c, p c = true → isPunctuation c = true)

include hclass in
theorem unescape_escapeClass_cons (hc : c ≠ '\\') (t : Text) :
    unescape (escapeClass p (c :: t)) = c :: unescape (escapeClass p t) := by
  rw [escapeClass_cons]
  split
  · rename_i hpc
    rw [unescape, if_pos (hclass c hpc)]
  · rw [unescape_cons hc]

include hp

theorem escapeClass_backslash (t : Text) :
    escapeClass p ('\\' :: t) = '\\' :: escapeClass p t := by
  rw [escapeClass_cons, if_neg (by simp [hp])]

/-- What stays raw behind a backslash is no backslash. -/
theorem ne_backslash_of_raw (h : p c = true ∨ isPunctuation c = false) : c ≠ '\\' := by
  rintro rfl
  rcases h with h | h
  · rw [hp] at h
    cases h
  · cases h

/-- A backslash before a character of the class, or before no punctuation, stands for itself. -/
theorem unescape_escapeClass_raw (h : p c = true ∨ isPunctuation c = false) (t : Text) :
    unescape (escapeClass p ('\\' :: c :: t)) = '\\' :: c :: unescape (escapeClass p t) := by
  have hc := ne_backslash_of_raw hp h
  rw [escapeClass_backslash hp, escapeClass_cons]
  split
  · rw [unescape, if_pos (by decide), unescape_cons hc]
  · rename_i hpc
    rw [unescape, if_neg (by simpa [hpc] using h), unescape_cons hc]

/-- A backslash before other punctuation is taken for an escape. -/
theorem unescape_escapeClass_escape (hpc : p c = false) (hc : isPunctuation c = true) (t : Text) :
    unescape (escapeClass p ('\\' :: c :: t)) = c :: unescape (escapeClass p t) := by
  rw [escapeClass_backslash hp, escapeClass_cons, if_neg (by simp [hpc]), unescape, if_pos hc]

theorem unescape_escapeClass_backslash : unescape (escapeClass p ['\\']) = ['\\'] := by
  rw [escapeClass_backslash hp]
  rfl

include hclass

theorem length_unescape_escapeClass_le (t : Text) :
    (unescape (escapeClass p t)).length ≤ t.length := by
  induction t using induction_on_signs with
  | nil => exact Nat.le_refl 0
  | backslash => rw [unescape_escapeClass_backslash hp]
  | escape c t ih =>
    by_cases h : p c = true ∨ isPunctuation c = false
    · rw [unescape_escapeClass_raw hp h]
      simpa using ih
    · rw [not_or, Bool.not_eq_true, Bool.not_eq_false] at h
      rw [unescape_escapeClass_escape hp h.1 h.2]
      exact Nat.le_succ_of_le (Nat.succ_le_succ ih)
  | cons c t hc ih =>
    rw [unescape_escapeClass_cons hclass hc]
    exact Nat.succ_le_succ ih

/-- **The address is got back** from its escaped form just where no backslash of its own makes an
escape. -/
theorem unescape_escapeClass_eq_iff (t : Text) :
    unescape (escapeClass p t) = t ↔ BackslashesStand (StaysRaw p) t := by
  induction t using induction_on_signs with
  | nil => exact iff_of_true rfl backslashesStand_nil
  | backslash =>
    refine iff_of_true (unescape_escapeClass_backslash hp) ?_
    exact backslashesStand_cons.mpr ⟨fun _ => nofun, backslashesStand_nil⟩
  | escape c t ih =>
    rw [backslashesStand_cons, backslashesStand_cons]
    by_cases h : p c = true ∨ isPunctuation c = false
    · have hc := ne_backslash_of_raw hp h
      rw [unescape_escapeClass_raw hp h]
      simp [StaysRaw, h, hc, ih]
    · have hstays : ¬ StaysRaw p (c :: t).head? := fun hraw => h (hraw c rfl)
      rw [not_or, Bool.not_eq_true, Bool.not_eq_false] at h
      rw [unescape_escapeClass_escape hp h.1 h.2]
      refine iff_of_false (fun heq => ?_) fun hstand => hstays (hstand.1 rfl)
      -- The escape took the place of two characters, and the rest cannot make up for one.
      obtain ⟨rfl, hrest⟩ := List.cons.inj heq
      have hlength := length_unescape_escapeClass_le hp hclass t
      rw [hrest, List.length_cons] at hlength
      omega
  | cons c t hc ih =>
    rw [unescape_escapeClass_cons hclass hc, backslashesStand_cons_of_ne hc, ← ih]
    exact List.cons_inj_right c

end Escapes

/-! ## Destinations between angle brackets -/

/-- The characters that are escaped between angle brackets. -/
def isAngleEscaped (c : Char) : Bool :=
  c = '&' || c = '<' || c = '>'

theorem isPunctuation_of_isAngleEscaped (c : Char) (h : isAngleEscaped c = true) :
    isPunctuation c = true := by
  simp only [isAngleEscaped, Bool.or_eq_true, decide_eq_true_eq] at h
  rcases h with (rfl | rfl) | rfl <;> decide

/-- Without line feeds, an address between angle brackets has its brackets and ampersands
escaped. -/
theorem angled_eq (h : '\n' ∉ t) :
    angled (escapeAmpersands t) = '<' :: (escapeClass isAngleEscaped t ++ ['>']) := by
  have hinner : (escapeAmpersands t).flatMap (fun c =>
      if c = '<' || c = '>' then ['\\', c] else if c = '\n' then [' '] else [c]) =
      escapeClass isAngleEscaped t := by
    rw [escapeAmpersands, List.flatMap_assoc, escapeClass]
    refine List.flatMap_congr fun c hc => ?_
    have hfeed : c ≠ '\n' := fun heq => h (heq ▸ hc)
    by_cases hamp : c = '&'
    · subst hamp
      decide
    · simp [hamp, hfeed, isAngleEscaped]
  rw [angled, hinner]
  rfl

/-- Where its backslashes do not change it, the inside of such a destination shows no bracket and no
open escape just where each of them stands before something harmless. -/
theorem signs_angled_iff (h : BackslashesStand (StaysRaw isAngleEscaped) t) :
    (.plain '\\' ∉ signs (escapeClass isAngleEscaped t) ∧
      .plain '>' ∉ signs (escapeClass isAngleEscaped t) ∧
      .plain '<' ∉ signs (escapeClass isAngleEscaped t)) ↔ BackslashesStand IsHarmless t := by
  induction t using induction_on_signs with
  | nil => exact iff_of_true (by simp [escapeClass]) backslashesStand_nil
  | backslash =>
    rw [escapeClass_backslash rfl, backslashesStand_cons]
    simp [escapeClass, signs]
  | escape c t ih =>
    rw [backslashesStand_cons, backslashesStand_cons] at h
    have hraw := staysRaw_some.mp (h.1 rfl)
    have hc := ne_backslash_of_raw rfl hraw
    rw [backslashesStand_cons, backslashesStand_cons, ← ih h.2.2, escapeClass_backslash rfl,
      escapeClass_cons]
    split
    · rename_i hpc
      have hpunctuation : isPunctuation c = true := isPunctuation_of_isAngleEscaped c hpc
      rw [signs_escape, signs_cons hc]
      simp only [isAngleEscaped, Bool.or_eq_true, decide_eq_true_eq] at hpc
      rcases hpc with (rfl | rfl) | rfl <;> simp [hpunctuation]
    · rename_i hpc
      have hpunctuation : isPunctuation c = false := hraw.resolve_left hpc
      simp [hpunctuation, hc]
  | cons c t hc ih =>
    rw [backslashesStand_cons_of_ne hc] at h ⊢
    rw [signs_escapeClass_cons (fun heq => absurd heq hc), ← ih h]
    split
    · simp
    · rename_i hpc
      have hne : '\\' ≠ c ∧ '>' ≠ c ∧ '<' ≠ c :=
        ⟨Ne.symm hc, by rintro rfl; exact hpc rfl, by rintro rfl; exact hpc rfl⟩
      simp [hne]

/-! ## Bare destinations -/

/-- What is read stands before what is left. -/
theorem eq_append_of_readBare (h : readBare depth t = some (inner, rest)) : t = inner ++ rest := by
  fun_induction readBare depth t generalizing inner with
  | case1 | case5 | case8 =>
    obtain ⟨rfl, rfl⟩ := Prod.mk.inj (Option.some.inj h)
    rfl
  | case2 | case6 => cases h
  | case3 _ _ _ _ ih | case4 _ _ _ _ ih | case7 _ _ _ _ ih | case9 _ _ _ _ _ _ ih
  | case10 _ _ _ _ _ _ _ ih =>
    obtain ⟨inner, hread, rfl⟩ := readOn_eq_some_iff.mp h
    simp [ih hread]

theorem readBare_escape (hc : isPunctuation c = true) (t : Text) :
    readBare depth ('\\' :: c :: t) = readOn ['\\', c] (readBare depth t) := by
  rw [readBare, if_pos hc]

theorem readBare_raw (hc : isPunctuation c = false) (t : Text) :
    readBare depth ('\\' :: c :: t) = readOn ['\\'] (readBare depth (c :: t)) := by
  rw [readBare, if_neg (by simp [hc])]

/-- A character that belongs to a bare destination and is no parenthesis. -/
def IsBareCharacter (c : Char) : Prop :=
  c ≠ ' ' ∧ Text.isControl c = false

theorem readBare_cons (hc : c ≠ '\\') (hbare : IsBareCharacter c) (hopen : c ≠ '(')
    (hclose : c ≠ ')') (t : Text) :
    readBare depth (c :: t) = readOn [c] (readBare depth t) := by
  rw [readBare]
  · rw [if_neg (by simp [hbare.1, hbare.2]), if_neg hopen, if_neg hclose]
  · rintro d ds rfl
    exact absurd rfl hc

theorem readBare_end (t : Text) : readBare 0 (')' :: t) = some ([], ')' :: t) := rfl

/-- A character of an address with matching parentheses is read, and the parentheses behind it match
those that are open then. -/
theorem exists_readBare_cons (hc : c ≠ '\\') (hbare : IsBareCharacter c)
    (h : parensBalancedFrom depth (c :: t) = true) :
    ∃ depth', parensBalancedFrom depth' t = true ∧
      ∀ u, readBare depth (c :: u) = readOn [c] (readBare depth' u) := by
  by_cases hopen : c = '('
  · subst hopen
    exact ⟨depth + 1, h, fun _ => rfl⟩
  by_cases hclose : c = ')'
  · subst hclose
    cases depth with
    | zero => cases h
    | succ depth => exact ⟨depth, h, fun _ => rfl⟩
  · exact ⟨depth, by simpa [parensBalancedFrom, hopen, hclose] using h,
      readBare_cons hc hbare hopen hclose⟩

/-- Where its backslashes do not change it, a bare destination with matching parentheses is read up
to the next closing one just where each backslash stands before something harmless. -/
theorem readBare_escapeClass_iff (h : BackslashesStand (StaysRaw (· = '&')) t)
    (hbare : ∀ c ∈ t, IsBareCharacter c) (hbalanced : parensBalancedFrom depth t = true) :
    readBare depth (escapeClass (· = '&') t ++ ')' :: rest) =
      some (escapeClass (· = '&') t, ')' :: rest) ↔ BackslashesStand IsHarmless t := by
  induction t using induction_on_signs generalizing depth with
  | nil =>
    obtain rfl : depth = 0 := by simpa [parensBalancedFrom] using hbalanced
    exact iff_of_true (readBare_end rest) backslashesStand_nil
  | backslash =>
    rw [escapeClass_backslash rfl, backslashesStand_cons]
    refine iff_of_false (fun hread => ?_) fun hstand => not_isHarmless_none (hstand.1 rfl)
    obtain ⟨inner, -, heq⟩ := readOn_eq_some_iff.mp hread
    cases heq
  | escape c t ih =>
    rw [backslashesStand_cons] at h
    have hraw : c = '&' ∨ isPunctuation c = false := by simpa using h.1 rfl
    obtain ⟨hc, hopen, hclose⟩ : c ≠ '\\' ∧ c ≠ '(' ∧ c ≠ ')' := by
      refine ⟨?_, ?_, ?_⟩ <;>
      · rintro rfl
        exact absurd hraw (by decide)
    simp only [List.forall_mem_cons] at hbare
    have hrest : parensBalancedFrom depth t = true := by
      simpa [parensBalancedFrom, hopen, hclose] using hbalanced
    have hharmless :
        BackslashesStand IsHarmless ('\\' :: c :: t) ↔ BackslashesStand IsHarmless t := by
      rw [backslashesStand_cons, backslashesStand_cons_of_ne hc]
      exact and_iff_right fun _ => isHarmless_some.mpr hraw
    rw [hharmless, ← ih ((backslashesStand_cons_of_ne hc).mp h.2) hbare.2.2 hrest,
      escapeClass_backslash rfl, escapeClass_cons]
    split
    · rw [List.cons_append, List.cons_append, readBare_escape (by decide), List.cons_append,
        readBare_cons hc hbare.2.1 hopen hclose]
      exact readOn_append_iff.trans readOn_append_iff
    · rename_i hamp
      have hpunctuation : isPunctuation c = false := hraw.resolve_left (by simpa using hamp)
      rw [List.cons_append, List.cons_append, readBare_raw hpunctuation,
        readBare_cons hc hbare.2.1 hopen hclose]
      exact readOn_append_iff.trans readOn_append_iff
  | cons c t hc ih =>
    rw [backslashesStand_cons_of_ne hc] at h ⊢
    rw [List.forall_mem_cons] at hbare
    rw [escapeClass_cons]
    split
    · rename_i hamp
      obtain rfl : c = '&' := of_decide_eq_true hamp
      rw [← ih h hbare.2 hbalanced]
      exact readOn_append_iff
    · obtain ⟨depth', hrest, hread⟩ := exists_readBare_cons hc hbare.1 hbalanced
      rw [← ih h hbare.2 hrest, List.cons_append, hread]
      exact readOn_append_iff

/-! ## Destinations as written -/

/-- Taking escapes off removes characters and nothing else. -/
theorem unescape_sublist (t : Text) : (unescape t).Sublist t := by
  fun_induction unescape t with
  | case1 => exact .slnil
  | case2 c cs hc ih => exact (ih.cons_cons c).cons '\\'
  | case3 c cs hc ih => exact ih.cons_cons '\\'
  | case4 c cs hpair ih => exact ih.cons_cons c

/-- What is harmless behind a backslash makes no escape of it, where ampersands are escaped. -/
theorem staysRaw_of_isHarmless (hp : p '&' = true) (next : Option Char) (h : IsHarmless next) :
    StaysRaw p next := by
  obtain ⟨c, rfl, hc⟩ := h
  refine staysRaw_some.mpr (hc.imp_left ?_)
  rintro rfl
  exact hp

/-- A destination between angle brackets is its inside without the escapes, if that has no bracket
that is not escaped. -/
theorem readDestination_angled_iff :
    readDestination ('<' :: (u ++ '>' :: rest)) = some (t, rest) ↔
      unescape u = t ∧ .plain '\\' ∉ signs u ∧ .plain '>' ∉ signs u ∧ .plain '<' ∉ signs u := by
  have hclose : '>' ≠ '\\' := by decide
  constructor
  · intro h
    obtain ⟨⟨inner, rest'⟩, hread, hvalue⟩ := Option.bind_eq_some_iff.mp h
    dsimp only at hvalue
    split at hvalue
    · cases hvalue
    · rename_i hopen
      obtain ⟨rfl, rfl⟩ := Prod.mk.inj (Option.some.inj hvalue)
      obtain ⟨heq, hslash, hbracket⟩ := (readUntil_eq_some_iff hclose).mp hread
      obtain rfl := List.append_cancel_right heq
      exact ⟨rfl, hslash, hbracket, hopen⟩
  · rintro ⟨rfl, hslash, hbracket, hopen⟩
    have hread : readUntil '>' (u ++ '>' :: rest) = some (u, rest) :=
      (readUntil_eq_some_iff hclose).mpr ⟨rfl, hslash, hbracket⟩
    exact Option.bind_eq_some_iff.mpr ⟨_, hread, if_neg hopen⟩

/-- A bare destination is what is read of it, without the escapes. -/
theorem readDestination_bare_iff (hne : u ≠ []) (hopen : u.head? ≠ some '<') :
    readDestination (u ++ rest) = some (t, rest) ↔
      unescape u = t ∧ readBare 0 (u ++ rest) = some (u, rest) := by
  have hform : readDestination (u ++ rest) = (readBare 0 (u ++ rest)).bind fun (inner, rest) =>
      if inner = [] then none else some (unescape inner, rest) := by
    rw [readDestination]
    · rfl
    · intro v hv
      have hhead : (u ++ rest).head? = u.head? := List.head?_append_of_ne_nil _ hne
      rw [hv] at hhead
      exact hopen hhead.symm
  rw [hform, Option.bind_eq_some_iff]
  constructor
  · rintro ⟨⟨inner, rest'⟩, hread, hvalue⟩
    dsimp only at hvalue
    split at hvalue
    · cases hvalue
    · obtain ⟨rfl, rfl⟩ := Prod.mk.inj (Option.some.inj hvalue)
      obtain rfl := List.append_cancel_right (eq_append_of_readBare hread)
      exact ⟨rfl, hread⟩
  · rintro ⟨rfl, hread⟩
    exact ⟨_, hread, if_neg hne⟩

/-- Between angle brackets, an address is read back just where it has no line feed and each of its
backslashes stands before something harmless. -/
theorem readDestination_angled_escapeAmpersands_iff :
    readDestination (angled (escapeAmpersands t) ++ ')' :: rest) = some (t, ')' :: rest) ↔
      '\n' ∉ t ∧ BackslashesStand IsHarmless t := by
  by_cases hfeed : '\n' ∈ t
  · refine iff_of_false (fun hread => ?_) fun h => h.1 hfeed
    -- A line feed of the address is written as a space, and no escape makes one of it again.
    obtain ⟨u, hu⟩ : ∃ u, angled (escapeAmpersands t) = '<' :: (u ++ ['>']) := ⟨_, rfl⟩
    have htext : angled (escapeAmpersands t) ++ ')' :: rest = '<' :: (u ++ '>' :: ')' :: rest) := by
      simp [hu]
    rw [htext, readDestination_angled_iff] at hread
    have hinner : '\n' ∈ u := (unescape_sublist u).subset (hread.1 ▸ hfeed)
    refine newline_not_mem_angled (escapeAmpersands t) ?_
    rw [hu]
    simp [hinner]
  · have htext : angled (escapeAmpersands t) ++ ')' :: rest =
        '<' :: (escapeClass isAngleEscaped t ++ '>' :: ')' :: rest) := by
      simp [angled_eq hfeed]
    rw [htext, readDestination_angled_iff,
      unescape_escapeClass_eq_iff rfl isPunctuation_of_isAngleEscaped]
    refine ⟨fun h => ⟨hfeed, (signs_angled_iff h.1).mp h.2⟩, fun h => ?_⟩
    have hraw : BackslashesStand (StaysRaw isAngleEscaped) t :=
      h.2.mono (staysRaw_of_isHarmless rfl)
    exact ⟨hraw, (signs_angled_iff hraw).mpr h.2⟩

/-- Escaped ampersands do not matter to parentheses. -/
theorem parensBalancedFrom_escapeAmpersands (depth : Nat) (t : Text) :
    parensBalancedFrom depth (escapeAmpersands t) = parensBalancedFrom depth t := by
  induction t generalizing depth with
  | nil => rfl
  | cons c t ih =>
    have happend : escapeAmpersands (c :: t) =
        (if c = '&' then ['\\', c] else [c]) ++ escapeAmpersands t := rfl
    rw [happend]
    split
    · rename_i hc
      subst hc
      exact ih depth
    · simp only [List.singleton_append, parensBalancedFrom]
      split
      · exact ih _
      · split
        · cases depth with
          | zero => rfl
          | succ depth => exact ih depth
        · exact ih depth

/-- A bare address is read back just where each of its backslashes stands before something
harmless. -/
theorem readDestination_bare_escapeAmpersands_iff (h : needsAngles (escapeAmpersands t) = false) :
    readDestination (escapeAmpersands t ++ ')' :: rest) = some (t, ')' :: rest) ↔
      '\n' ∉ t ∧ BackslashesStand IsHarmless t := by
  simp only [needsAngles, Bool.or_eq_false_iff, Bool.not_eq_false', List.any_eq_false,
    Bool.or_eq_true, not_or, List.isEmpty_eq_false_iff, decide_eq_true_eq] at h
  obtain ⟨⟨hne, hchars⟩, hbalanced⟩ := h
  have hmem : ∀ c ∈ t, c ∈ escapeAmpersands t := fun c hc =>
    List.mem_flatMap.mpr ⟨c, hc, by split <;> simp⟩
  have hbare : ∀ c ∈ t, IsBareCharacter c := by
    intro c hc
    have hcharacter := hchars c (hmem c hc)
    refine ⟨?_, by simpa using hcharacter.1.1.2⟩
    rintro rfl
    exact hcharacter.1.1.1 (by decide)
  have hfeed : '\n' ∉ t := fun hc => (hchars '\n' (hmem _ hc)).1.1.1 (by decide)
  have hopen : (escapeAmpersands t).head? ≠ some '<' := fun hhead =>
    (hchars '<' (List.mem_of_head? hhead)).1.2 rfl
  have hdepth : parensBalancedFrom 0 t = true := by
    rw [← parensBalancedFrom_escapeAmpersands]
    exact hbalanced
  have hclass : escapeAmpersands t = escapeClass (· = '&') t := by
    simp [escapeAmpersands, escapeClass]
  have hpunctuation (c : Char) (hc : decide (c = '&') = true) : isPunctuation c = true := by
    obtain rfl := of_decide_eq_true hc
    decide
  rw [readDestination_bare_iff hne hopen, hclass, unescape_escapeClass_eq_iff rfl hpunctuation]
  constructor
  · rintro ⟨hraw, hread⟩
    exact ⟨hfeed, (readBare_escapeClass_iff hraw hbare hdepth).mp hread⟩
  · rintro ⟨-, hharmless⟩
    have hraw := hharmless.mono (staysRaw_of_isHarmless (p := (· = '&')) rfl)
    exact ⟨hraw, (readBare_escapeClass_iff hraw hbare hdepth).mpr hharmless⟩

/-- **Which destinations are read back.** An address is read back from its destination, which the
parenthesis behind it ends, just where it has no line feed and each of its backslashes stands before
an ampersand or before a character that is no punctuation. -/
theorem destination_is_read_back_iff (url rest : Text) :
    readDestination (destination url ++ ')' :: rest) = some (url, ')' :: rest) ↔
      '\n' ∉ url ∧ BackslashesStand IsHarmless url := by
  simp only [destination]
  split
  · exact readDestination_angled_escapeAmpersands_iff
  · rename_i hbare
    exact readDestination_bare_escapeAmpersands_iff (by simpa using hbare)

/-- An address that ends in a backslash is written as it is, and the backslash escapes the
parenthesis behind it. -/
theorem final_backslash_is_not_read_back :
    ¬ ∀ url : Text, '\r' ∉ url → '\n' ∉ url →
      readDestination (destination url ++ [')']) = some (url, [')']) := by
  intro hclaim
  exact absurd (hclaim "a\\".toList (by decide) (by decide)) (by decide)

end DocumentTree.Markdown
