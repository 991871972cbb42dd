import DocumentTree.Proofs.Markdown.Unescaping

/-!
# A paragraph opens no other block

The start of a paragraph is escaped where it would open another block. The escape is put into text
that has been escaped before; it hits every opener, and no character that is escaped already.

## Main definitions

* `OpensBlock line` — a line that a reader does not take for the first one of a paragraph.
-/

namespace DocumentTree.Markdown

/-- What may follow a list marker: white space, or nothing. -/
def EndsMarker (rest : Text) : Prop :=
  ∀ c, rest.head? = some c → Text.isBlank c = true

/-- The line opens another block, or would make a heading of the paragraph above. -/
inductive OpensBlock : Text → Prop
  | heading (rest : Text) : OpensBlock ('#' :: rest)
  | quote (rest : Text) : OpensBlock ('>' :: rest)
  | bullet {c : Char} {rest : Text} : c ∈ ['-', '+', '*'] → EndsMarker rest → OpensBlock (c :: rest)
  | ordered {digits : Text} {c : Char} {rest : Text} : 1 ≤ digits.length → digits.length ≤ 9 →
    (∀ d ∈ digits, d.isDigit = true) → c ∈ ['.', ')'] → EndsMarker rest →
    OpensBlock (digits ++ c :: rest)
  | fence {c : Char} (rest : Text) : c ∈ ['`', '~'] → OpensBlock (c :: c :: c :: rest)
  | bracket (rest : Text) : OpensBlock ('[' :: rest)
  | tag {c : Char} (rest : Text) : Text.isLetter c = true ∨ c ∈ ['/', '!', '?'] →
    OpensBlock ('<' :: c :: rest)
  | rule {line : Text} {mark : Char} : mark ∈ ['-', '_', '*'] →
    (∀ c ∈ line, c = mark ∨ c = ' ' ∨ c = '\t') → 3 ≤ line.count mark → OpensBlock line
  | underline {n : Nat} {blanks : Text} : 0 < n → (∀ c ∈ blanks, c = ' ' ∨ c = '\t') →
    OpensBlock (List.replicate n '=' ++ blanks)

/-! ## What the escape does -/

theorem cutFinalLineFeed_append (t : Text) :
    (Text.cutFinalLineFeed t).1 ++ (Text.cutFinalLineFeed t).2 = t := by
  fun_induction Text.cutFinalLineFeed t with
  | case1 => rfl
  | case2 => rfl
  | case3 c cs _ body final heq ih => simpa [heq] using ih

theorem cutFinalLineFeed_of_not_mem {t : Text} (h : '\n' ∉ t) :
    (Text.cutFinalLineFeed t).1 = t := by
  fun_induction Text.cutFinalLineFeed t with
  | case1 => rfl
  | case2 => simp at h
  | case3 c cs _ body final heq ih =>
    rw [List.mem_cons, not_or] at h
    simpa [heq] using ih h.2

/-- The tests that leave a line as it is. -/
structure Unescaped (line : Text) : Prop where
  /-- The line is not like a thematic break. -/
  breakLike : isBreakLike line = false
  /-- The line is not like the underline of a heading. -/
  underlineLike : isUnderlineLike line = false
  /-- The line does not start like a heading or a quote. -/
  head : line.head? ≠ some '#' ∧ line.head? ≠ some '>'
  /-- The line does not start with a bullet. -/
  bullet : startsWithBullet line = false
  /-- The line does not start with the marker of an ordered list. -/
  ordered : orderedMarker? line = none

/-- The characters before which a line start is escaped. -/
def startMarks : List Char := ['-', '_', '*', '=', '#', '>', '+', '.', ')']

theorem exists_mark_of_isBreakLike {line : Text} (h : isBreakLike line = true) :
    ∃ c rest, line = c :: rest ∧ c ∈ startMarks := by
  have happend := cutFinalLineFeed_append line
  rw [isBreakLike] at h
  split at h
  · cases h
  · rename_i mark rest heq
    rw [heq] at happend
    refine ⟨mark, _, happend.symm, ?_⟩
    simp only [Bool.and_eq_true, Bool.or_eq_true, decide_eq_true_eq] at h
    rcases h.1.1 with (rfl | rfl) | rfl <;> decide

theorem exists_mark_of_isUnderlineLike {line : Text} (h : isUnderlineLike line = true) :
    ∃ c rest, line = c :: rest ∧ c ∈ startMarks := by
  have happend := cutFinalLineFeed_append line
  simp only [isUnderlineLike] at h
  split at h
  · rename_i rest heq
    rw [heq] at happend
    exact ⟨'=', _, happend.symm, by decide⟩
  · cases h

theorem exists_mark_of_startsWithBullet {line : Text} (h : startsWithBullet line = true) :
    ∃ c rest, line = c :: rest ∧ c ∈ startMarks := by
  cases line with
  | nil => cases h
  | cons c rest =>
    refine ⟨c, rest, rfl, ?_⟩
    simp only [startsWithBullet, Bool.and_eq_true, Bool.or_eq_true, decide_eq_true_eq] at h
    rcases h.1 with rfl | rfl <;> decide

theorem eq_of_orderedMarker? {line digits : Text} (h : orderedMarker? line = some digits) :
    ∃ c rest, line = digits ++ c :: rest ∧ (∀ d ∈ digits, Text.isDecimalDigit d = true) ∧
      c ∈ startMarks := by
  simp only [orderedMarker?] at h
  split at h
  · rename_i c rest heq
    split at h
    · rename_i hc
      obtain rfl : line.takeWhile Text.isDecimalDigit = digits := by simpa using h
      refine ⟨c, rest, ?_, fun d hd => ?_, ?_⟩
      · rw [← heq, List.takeWhile_append_dropWhile]
      · exact List.mem_takeWhile_imp hd
      · simp only [Bool.and_eq_true, Bool.or_eq_true, decide_eq_true_eq] at hc
        rcases hc.1.1.1 with rfl | rfl <;> decide
    · cases h
  · cases h

/-- **A line is left as it is, or gets one escape**: before a mark that has at most digits before
it. -/
theorem escapeBlockStart_cases (line : Text) :
    (escapeBlockStart line = line ∧ Unescaped line) ∨
    ∃ digits c rest, line = digits ++ c :: rest ∧
      (∀ d ∈ digits, Text.isDecimalDigit d = true) ∧ c ∈ startMarks ∧
      escapeBlockStart line = digits ++ '\\' :: c :: rest := by
  have hfirst : (∃ c rest, line = c :: rest ∧ c ∈ startMarks) →
      escapeBlockStart line = '\\' :: line →
      ∃ digits c rest, line = digits ++ c :: rest ∧
        (∀ d ∈ digits, Text.isDecimalDigit d = true) ∧ c ∈ startMarks ∧
        escapeBlockStart line = digits ++ '\\' :: c :: rest := by
    rintro ⟨c, rest, rfl, hc⟩ heq
    exact ⟨[], c, rest, rfl, nofun, hc, heq⟩
  by_cases hlike : (isBreakLike line || isUnderlineLike line) = true
  · have heq : escapeBlockStart line = '\\' :: line := by rw [escapeBlockStart, if_pos hlike]
    rcases Bool.or_eq_true_iff.mp hlike with h | h
    · exact .inr (hfirst (exists_mark_of_isBreakLike h) heq)
    · exact .inr (hfirst (exists_mark_of_isUnderlineLike h) heq)
  by_cases hhead : (line.head? = some '#' || line.head? = some '>') = true
  · have heq : escapeBlockStart line = '\\' :: line := by
      rw [escapeBlockStart, if_neg hlike, if_pos hhead]
    refine .inr (hfirst ?_ heq)
    cases line with
    | nil => cases hhead
    | cons c rest =>
      simp only [List.head?_cons, Option.some.injEq, Bool.or_eq_true, decide_eq_true_eq] at hhead
      refine ⟨c, rest, rfl, ?_⟩
      rcases hhead with rfl | rfl <;> decide
  by_cases hbullet : startsWithBullet line = true
  · have heq : escapeBlockStart line = '\\' :: line := by
      rw [escapeBlockStart, if_neg hlike, if_neg hhead, if_pos hbullet]
    exact .inr (hfirst (exists_mark_of_startsWithBullet hbullet) heq)
  cases hordered : orderedMarker? line with
  | some digits =>
    obtain ⟨c, rest, hline, hdigits, hc⟩ := eq_of_orderedMarker? hordered
    refine .inr ⟨digits, c, rest, hline, hdigits, hc, ?_⟩
    rw [escapeBlockStart, if_neg hlike, if_neg hhead, if_neg hbullet, hordered]
    simp [hline]
  | none =>
    simp only [Bool.or_eq_true, decide_eq_true_eq, not_or, Bool.not_eq_true] at hlike hhead hbullet
    refine .inl ⟨?_, hlike.1, hlike.2, hhead, hbullet, hordered⟩
    rw [escapeBlockStart, hordered]
    simp [hlike, hhead, hbullet]

/-- **The escape of a block start is taken off again.** -/
theorem Escapes.escapeBlockStart {raw line : Text} (h : Escapes raw line) :
    Escapes raw (escapeBlockStart line) := by
  rcases escapeBlockStart_cases line with ⟨heq, -⟩ | ⟨digits, c, rest, hline, hdigits, hc, heq⟩
  · rwa [heq]
  · rw [heq]
    refine (hline ▸ h).insert (fun hlast => ?_) ?_ ?_
    · exact absurd (hdigits _ (List.mem_of_getLast? hlast)) (by decide)
    · rintro rfl
      exact absurd hc (by decide)
    · have hall : startMarks.all isPunctuation = true := by decide
      exact List.all_eq_true.mp hall c hc

/-- The escape does not stand at the end. -/
theorem getLast?_escapeBlockStart (line : Text) :
    (escapeBlockStart line).getLast? = line.getLast? := by
  rcases escapeBlockStart_cases line with ⟨heq, -⟩ | ⟨digits, c, rest, hline, -, -, heq⟩
  · rw [heq]
  · rw [heq, hline]
    simp [List.getLast?_append]

/-! ## Closing sequences of headings -/

/-- The hashes that a text ends with are cut off. -/
theorem cutClosingHashes_eq (t : Text) :
    cutClosingHashes t = (t.rdropWhile (· = '#'), t.rtakeWhile (· = '#')) := by
  let isHash : Char → Bool := fun d => d = '#'
  have hline : t.rdropWhile isHash ++ t.rtakeWhile isHash = t := List.rdropWhile_append_rtakeWhile
  rw [cutClosingHashes, Text.dropRightWhile_eq, Prod.mk.injEq]
  refine ⟨rfl, ?_⟩
  calc t.drop (t.rdropWhile isHash).length
      = (t.rdropWhile isHash ++ t.rtakeWhile isHash).drop (t.rdropWhile isHash).length := by
        rw [hline]
    _ = t.rtakeWhile isHash := List.drop_left

theorem exists_cutClosingHashes (t : Text) : ∃ body hashes, cutClosingHashes t = (body, hashes) ∧
    body ++ hashes = t ∧ ∀ d ∈ hashes, d = '#' :=
  ⟨_, _, cutClosingHashes_eq t, List.rdropWhile_append_rtakeWhile, fun d hd => by
    simpa using List.mem_rtakeWhile_imp hd⟩

/-- A heading's content is left as it is, or gets one escape, before a hash that nothing or white
space precedes. -/
theorem escapeClosingHashes_cases (t : Text) :
    escapeClosingHashes t = t ∨ ∃ before rest, t = before ++ '#' :: rest ∧
      (∀ e, before.getLast? = some e → Text.isBlank e = true) ∧
      escapeClosingHashes t = before ++ '\\' :: '#' :: rest := by
  have happend := cutFinalLineFeed_append t
  unfold escapeClosingHashes
  generalize Text.cutFinalLineFeed t = cut at happend ⊢
  obtain ⟨line, final⟩ := cut
  obtain ⟨body, hashes, hcut, hline, hmarks⟩ := exists_cutClosingHashes line
  have hinsert : ∀ separated : Bool,
      (separated = true → ∀ e, body.getLast? = some e → Text.isBlank e = true) →
      let escaped := if !hashes.isEmpty && separated then body ++ '\\' :: hashes ++ final else t
      escaped = t ∨ ∃ before rest, t = before ++ '#' :: rest ∧
        (∀ e, before.getLast? = some e → Text.isBlank e = true) ∧
        escaped = before ++ '\\' :: '#' :: rest := by
    intro separated hblank
    cases hashes with
    | nil => exact .inl rfl
    | cons d hashes =>
      obtain rfl : d = '#' := hmarks d (by simp)
      cases separated with
      | false => exact .inl rfl
      | true =>
        refine .inr ⟨body, hashes ++ final, ?_, hblank rfl, by simp⟩
        rw [← happend, ← hline]
        simp
  simp only [hcut]
  cases hlast : body.getLast? with
  | none => exact hinsert true (by simp [hlast])
  | some e => exact hinsert (Text.isBlank e) (by simp [hlast])

/-! ## What the escape prevents -/

theorem isDecimalDigit_of_isDigit {c : Char} (h : c.isDigit = true) :
    Text.isDecimalDigit c = true := by
  have hrange : 48 ≤ c.toNat ∧ c.toNat ≤ 57 := by
    simpa [Char.isDigit, UInt32.le_iff_toNat_le] using h
  have hall : ∀ n ∈ List.range' 48 10, Text.inRanges Text.decimalDigitRanges n = true := by decide
  exact hall c.toNat (List.mem_range'_1.mpr ⟨hrange.1, by omega⟩)

/-- The characters that end the marker of an ordered list are no digits. -/
theorem isDecimalDigit_of_delimiter {c : Char} (h : c = '.' ∨ c = ')') :
    Text.isDecimalDigit c = false := by
  rcases h with rfl | rfl <;> decide

/-- The first character of a thematic break. -/
theorem head_of_rule {line : Text} {mark : Char}
    (hall : ∀ c ∈ line, c = mark ∨ c = ' ' ∨ c = '\t') (hcount : 3 ≤ line.count mark) :
    ∃ c rest, line = c :: rest ∧ (c = mark ∨ c = ' ' ∨ c = '\t') := by
  cases line with
  | nil => simp at hcount
  | cons c rest => exact ⟨c, rest, rfl, hall c (by simp)⟩

/-- A line in which an escape stands behind digits starts with a digit or the escape. -/
theorem head_of_escape {digits rest cs : Text} {c : Char}
    (hdigits : ∀ d ∈ digits, Text.isDecimalDigit d = true)
    (h : digits ++ '\\' :: rest = c :: cs) : Text.isDecimalDigit c = true ∨ c = '\\' := by
  cases digits with
  | nil => exact .inr (List.cons.inj h).1.symm
  | cons d ds => exact .inl ((List.cons.inj h).1 ▸ hdigits d (by simp))

/-- Behind digits stands the backslash, so no opener is left. -/
theorem not_opensBlock_of_escape {digits rest : Text}
    (hdigits : ∀ d ∈ digits, Text.isDecimalDigit d = true) :
    ¬ OpensBlock (digits ++ '\\' :: rest) := by
  have hfirst : ∀ c cs, digits ++ '\\' :: rest = c :: cs →
      Text.isDecimalDigit c = true ∨ c = '\\' := fun c cs => head_of_escape hdigits
  intro h
  generalize hline : digits ++ '\\' :: rest = line at h
  cases h with
  | heading rest => exact absurd (hfirst _ _ hline) (by decide)
  | quote rest => exact absurd (hfirst _ _ hline) (by decide)
  | bracket rest => exact absurd (hfirst _ _ hline) (by decide)
  | tag rest hc => exact absurd (hfirst _ _ hline) (by decide)
  | fence rest hc =>
    simp only [List.mem_cons, List.not_mem_nil, or_false] at hc
    rcases hc with rfl | rfl <;> exact absurd (hfirst _ _ hline) (by decide)
  | bullet hc hrest =>
    simp only [List.mem_cons, List.not_mem_nil, or_false] at hc
    rcases hc with rfl | rfl | rfl <;> exact absurd (hfirst _ _ hline) (by decide)
  | rule hmark hall hcount =>
    obtain ⟨c, cs, hcs, hc⟩ := head_of_rule hall hcount
    have hstart := hfirst c cs (hline.trans hcs)
    simp only [List.mem_cons, List.not_mem_nil, or_false] at hmark
    rcases hc with rfl | rfl | rfl
    · rcases hmark with rfl | rfl | rfl <;> exact absurd hstart (by decide)
    · exact absurd hstart (by decide)
    · exact absurd hstart (by decide)
  | @underline n blanks hn hblanks =>
    obtain ⟨m, rfl⟩ : ∃ m, n = m + 1 := ⟨n - 1, by omega⟩
    exact absurd (hfirst '=' _ hline) (by decide)
  | ordered hone hnine hdigit hc hends =>
    -- Behind the digits stands the backslash in one reading and a dot or parenthesis in the other.
    have hdrop := congrArg (List.dropWhile Text.isDecimalDigit) hline
    rw [List.dropWhile_append_of_pos hdigits,
      List.dropWhile_append_of_pos fun d hd => isDecimalDigit_of_isDigit (hdigit d hd),
      List.dropWhile_cons_of_neg (by decide)] at hdrop
    simp only [List.mem_cons, List.not_mem_nil, or_false] at hc
    rw [List.dropWhile_cons_of_neg (by simp [isDecimalDigit_of_delimiter hc]),
      List.cons.injEq] at hdrop
    rcases hc with rfl | rfl <;> exact absurd hdrop.1 (by decide)

theorem endsMarker_eq {rest : Text} (h : EndsMarker rest) : endsMarker rest = true := by
  cases rest with
  | nil => rfl
  | cons c rest => exact h c rfl

/-- Digits and a delimiter are the marker of an ordered list if there are one to nine digits. -/
theorem orderedMarker?_digits {digits rest : Text} {c : Char}
    (hdigits : ∀ d ∈ digits, d.isDigit = true) (hc : c ∈ ['.', ')']) (hrest : EndsMarker rest) :
    orderedMarker? (digits ++ c :: rest) =
      if 1 ≤ digits.length ∧ digits.length ≤ 9 then some digits else none := by
  have hdecimal : ∀ d ∈ digits, Text.isDecimalDigit d = true :=
    fun d hd => isDecimalDigit_of_isDigit (hdigits d hd)
  have hmark : c = '.' ∨ c = ')' := by simpa using hc
  have hnot := isDecimalDigit_of_delimiter hmark
  have hdrop : (digits ++ c :: rest).dropWhile Text.isDecimalDigit = c :: rest := by
    rw [List.dropWhile_append_of_pos hdecimal, List.dropWhile_cons_of_neg (by simp [hnot])]
  have htake : (digits ++ c :: rest).takeWhile Text.isDecimalDigit = digits := by
    rw [List.takeWhile_append_of_pos hdecimal, List.takeWhile_cons_of_neg (by simp [hnot]),
      List.append_nil]
  simp [orderedMarker?, hdrop, htake, endsMarker_eq hrest, hmark]

namespace Unescaped

variable {line rest : Text} {c mark : Char}

theorem not_bullet (U : Unescaped (c :: rest)) (hc : c = '-' ∨ c = '+') : ¬ EndsMarker rest := by
  intro hrest
  have hbullet := U.bullet
  rcases hc with rfl | rfl <;> simp [startsWithBullet, endsMarker_eq hrest] at hbullet

theorem not_ordered {digits : Text} (U : Unescaped (digits ++ c :: rest)) (hone : 1 ≤ digits.length)
    (hnine : digits.length ≤ 9) (hdigits : ∀ d ∈ digits, d.isDigit = true)
    (hc : c ∈ ['.', ')']) : ¬ EndsMarker rest := by
  intro hrest
  have hordered := U.ordered
  rw [orderedMarker?_digits hdigits hc hrest, if_pos ⟨hone, hnine⟩] at hordered
  cases hordered

theorem not_rule (U : Unescaped (mark :: rest)) (hline : '\n' ∉ mark :: rest)
    (hmark : mark ∈ ['-', '_', '*']) (hall : ∀ c ∈ rest, c = mark ∨ c = ' ' ∨ c = '\t') :
    rest.count mark < 2 := by
  have hbreak := U.breakLike
  have hrest : rest.all (fun c => c = mark || Text.isLineBlank c) = true := by
    simpa [Text.isLineBlank] using hall
  have hmark' : mark = '-' ∨ mark = '_' ∨ mark = '*' := by simpa using hmark
  rw [isBreakLike, cutFinalLineFeed_of_not_mem hline] at hbreak
  simpa [hrest, hmark', or_assoc] using hbreak

theorem not_underline {n : Nat} {blanks : Text}
    (U : Unescaped (List.replicate (n + 1) '=' ++ blanks))
    (hline : '\n' ∉ List.replicate (n + 1) '=' ++ blanks) :
    ¬ ∀ c ∈ blanks, c = ' ' ∨ c = '\t' := by
  intro hall
  have hunderline := U.underlineLike
  have hdrop : (List.replicate (n + 1) '=' ++ blanks).dropWhile (· = '=') = blanks := by
    rw [List.dropWhile_append_of_pos (by simp)]
    cases blanks with
    | nil => rfl
    | cons c blanks =>
      have hc : c ≠ '=' := by
        rintro rfl
        exact absurd (hall '=' (by simp)) (by decide)
      rw [List.dropWhile_cons_of_neg (by simpa using hc)]
  have hblanks : blanks.all Text.isLineBlank = true := by
    simpa [Text.isLineBlank] using hall
  simp only [isUnderlineLike, cutFinalLineFeed_of_not_mem hline] at hunderline
  rw [List.replicate_succ, List.cons_append] at hdrop hunderline
  simp [hdrop, hblanks] at hunderline

end Unescaped

/-- A tag that text would open is escaped. -/
theorem not_tag_of_escapeText {t rest : Text} {c : Char} (h : escapeText t = '<' :: c :: rest) :
    ¬ (Text.isLetter c = true ∨ c ∈ ['/', '!', '?']) := by
  intro hc
  cases t with
  | nil => cases h
  | cons d t =>
    rw [escapeText, escapeTextAfter] at h
    split at h
    · exact absurd (List.cons.inj h).1 (by decide)
    rename_i hesc
    obtain ⟨rfl, htail⟩ := List.cons.inj h
    -- Behind the bracket stands an escape, or the character that is next in the text.
    have hnext : c = '\\' ∨ t.head? = some c :=
      eq_or_head?_of_escapeTextAfter (by rw [htail]; rfl)
    rcases hnext with rfl | hnext
    · exact absurd hc (by decide)
    · rw [hnext] at hesc
      have hopens : opensTag (some c) = true := by
        simpa [opensTag, or_assoc] using hc
      exact hesc (by simp [needsEscape, isAlwaysEscaped, hopens])

/-- Escaped text starts with an escape or with a character that needs none, and where the text does
not start with white space, neither does the escaped one. -/
theorem head_of_escapeText {t cs : Text} {c : Char}
    (hhead : ∀ c, t.head? = some c → Text.isBlank c = false) (h : escapeText t = c :: cs) :
    (c = '\\' ∨ isAlwaysEscaped c = false) ∧ Text.isBlank c = false := by
  have hesc : (escapeTextAfter none t).head? = some c := by
    rw [← escapeText, h]
    rfl
  constructor
  · by_cases hc : c = '\\'
    · exact .inl hc
    · exact .inr (not_isAlwaysEscaped_of_head? hesc hc)
  · rcases eq_or_head?_of_escapeTextAfter hesc with rfl | hc
    · decide
    · exact hhead c hc

/-- **The start of escaped text opens no block** once it is escaped as a block start. -/
theorem not_opensBlock_escapeBlockStart {t : Text} (hline : '\n' ∉ t)
    (hhead : ∀ c, t.head? = some c → Text.isBlank c = false) :
    ¬ OpensBlock (escapeBlockStart (escapeText t)) := by
  rcases escapeBlockStart_cases (escapeText t) with ⟨heq, U⟩ | ⟨digits, c, rest, -, hdigits, -, heq⟩
  swap
  · rw [heq]
    exact not_opensBlock_of_escape hdigits
  rw [heq]
  have hline' : '\n' ∉ escapeText t := fun hmem =>
    ((escapes_escapeText t).mem hmem).elim (by decide) hline
  have hfirst : ∀ c cs, escapeText t = c :: cs →
      (c = '\\' ∨ isAlwaysEscaped c = false) ∧ Text.isBlank c = false := fun c cs =>
    head_of_escapeText hhead
  intro h
  generalize hesc : escapeText t = line at h U hline' hfirst
  cases h with
  | heading rest => exact U.head.1 rfl
  | quote rest => exact U.head.2 rfl
  | bracket rest => exact absurd (hfirst _ _ rfl).1 (by decide)
  | tag rest hc => exact not_tag_of_escapeText hesc hc
  | fence rest hc =>
    simp only [List.mem_cons, List.not_mem_nil, or_false] at hc
    rcases hc with rfl | rfl <;> exact absurd (hfirst _ _ rfl).1 (by decide)
  | bullet hc hrest =>
    have hstar : ¬ ('*' = '\\' ∨ isAlwaysEscaped '*' = false) := by decide
    simp only [List.mem_cons, List.not_mem_nil, or_false] at hc
    rcases hc with rfl | rfl | rfl
    · exact U.not_bullet (.inl rfl) hrest
    · exact U.not_bullet (.inr rfl) hrest
    · exact hstar (hfirst _ _ rfl).1
  | ordered hone hnine hdigits hc hends => exact U.not_ordered hone hnine hdigits hc hends
  | @rule _ mark hmark hall hcount =>
    obtain ⟨c, cs, rfl, hc⟩ := head_of_rule hall hcount
    have hblank := (hfirst c cs rfl).2
    obtain rfl : c = mark := by
      rcases hc with heq | rfl | rfl
      · exact heq
      · exact absurd hblank (by decide)
      · exact absurd hblank (by decide)
    have := U.not_rule hline' hmark fun d hd => hall d (by simp [hd])
    rw [List.count_cons_self] at hcount
    omega
  | @underline n blanks hn hblanks =>
    obtain ⟨m, rfl⟩ : ∃ m, n = m + 1 := ⟨n - 1, by omega⟩
    exact U.not_underline hline' hblanks

end DocumentTree.Markdown
