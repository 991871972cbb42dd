import DocumentTree.Proofs.Markdown.BlankLines
import DocumentTree.Proofs.Markdown.HeadingLine
import DocumentTree.Proofs.Markdown.OrderedMarkers

/-!
# Blocks right behind a paragraph of an item

In an item, a heading, a quote, fenced code and a list stand on the line behind a paragraph, without
a blank line between. A reader goes on with the paragraph up to a line that may interrupt it. All of
these blocks start with such a line but some lists: an item interrupts a paragraph only if it has
text on its first line and is not numbered otherwise than one. Other lists are read as more of the
paragraph, and a hyphen by itself makes a heading of it.

## Main definitions

* `interrupts line`, `isUnderline line` — what a line does to the paragraph before it.
* `startsBlank o n` — an item that has no text on its first line.
* `lingers o n`, `underlines o n` — the lists that do not interrupt a paragraph, and those among
  them that underline it.
-/

namespace DocumentTree.Markdown

open Node (Grammatical AllGrammatical AreBlocks)
open Text (lines unlines isBlank IsLineEnd)

variable {o : Options} {marker line t digits behind : Text} {n : Node} {ns : List Node} {c d : Char}
  {k : Nat}

/-! ## The reader -/

/-- Whether a line opens fenced code. -/
def opensFence : Text → Bool
  | [] => false
  | c :: rest =>
    3 ≤ ((c :: rest).takeWhile (· = c)).length
      && (c = '~' || c = '`' && !(rest.dropWhile (· = c)).contains '`')

/-- Whether a line opens an item that may stand right behind a paragraph: one with text on the line
and, if it has a number, with number one. -/
def opensItem (line : Text) : Bool :=
  match cutMarker line with
  | none => false
  | some (marker, behind) =>
    behind.head?.any Text.isLineBlank && !behind.all Text.isLineBlank
      && (marker.dropLast.isEmpty || ofDigits marker.dropLast = 1)

/-- Whether a line interrupts a paragraph as a heading, a quote, fenced code, or an item. -/
def interrupts (line : Text) : Bool :=
  (readHeading Text.isLineBlank line).isSome || line.head? = some '>' || opensFence line
    || opensItem line

/-- Whether a line makes a heading of the paragraph before it. -/
def isUnderline : Text → Bool
  | [] => false
  | c :: rest => (c = '-' || c = '=') && (rest.dropWhile (· = c)).all Text.isLineBlank

theorem isSome_readHeading {level : Nat} (hone : 1 ≤ level) (hsix : level ≤ 6) {rest : Text}
    (hrest : rest = [] ∨ rest.head? = some ' ') :
    (readHeading Text.isLineBlank (List.replicate level '#' ++ rest)).isSome = true := by
  have hhead : rest.head? ≠ some '#' := by
    rcases hrest with rfl | hrest
    · exact nofun
    · rw [hrest]
      decide
  have hblank : rest.head?.all Text.isLineBlank = true := by
    rcases hrest with rfl | hrest
    · rfl
    · rw [hrest]
      rfl
  obtain ⟨htake, hdrop⟩ := runs_of_head? hhead
  rw [readHeading, Text.takeWhile_replicate_append, Text.dropWhile_replicate_append, htake, hdrop]
  simp [hone, hsix, hblank]

theorem opensFence_replicate (hn : 3 ≤ k + 1) (hc : c = '~' ∨ c = '`' ∧ '`' ∉ t) :
    opensFence (List.replicate (k + 1) c ++ t) = true := by
  have hwidth : 3 ≤ ((c :: (List.replicate k c ++ t)).takeWhile (· = c)).length := by
    rw [← List.cons_append, ← List.replicate_succ, Text.takeWhile_replicate_append,
      List.length_append, List.length_replicate]
    omega
  rw [List.replicate_succ, List.cons_append, opensFence, Text.dropWhile_replicate_append]
  rcases hc with rfl | ⟨rfl, htick⟩
  · simpa using hwidth
  · have hnone : '`' ∉ t.dropWhile (· = '`') := fun hmem =>
      htick ((List.dropWhile_suffix _).subset hmem)
    simpa [hnone] using hwidth

/-- A marker with nothing or a space behind it opens an item as a reader wants it. -/
theorem opensItem_digits (hdigits : ∀ d ∈ digits, d.isDigit = true) (hc : c ∈ markEnds digits)
    (hbehind : behind = [] ∨ behind.head? = some ' ') :
    opensItem (digits ++ c :: behind) = true ↔
      digits.length ≤ 9 ∧ behind.all Text.isLineBlank = false ∧
        (digits = [] ∨ ofDigits digits = 1) := by
  rw [opensItem, cutMarker_digits hdigits (isDigit_of_mem_markEnds hc)]
  by_cases hnine : digits.length ≤ 9
  · rw [if_pos ⟨hnine, hc⟩]
    rcases hbehind with rfl | hbehind
    · simp
    · simp [hbehind, hnine, Text.isLineBlank]
  · rw [if_neg fun h => hnine h.1]
    simp [hnine]

/-! ## The first lines of items and lists -/

/-- Whether a block with text has none on its first line. -/
def startsLate (o : Options) : Node → Bool
  | .codeBlock content language m =>
    isIndentedCode o (.codeBlock content language m)
      && (firstLine content.toList).all Text.isLineBlank
  | _ => false

/-- Whether an item has no text on its first line. -/
def startsBlank (o : Options) : Node → Bool
  | .listItem children none _ => (firstShown o children).all (startsLate o)
  | _ => false

/-- Whether a block is a list that does not interrupt a paragraph. -/
def lingers (o : Options) : Node → Bool
  | .list ordered (n :: _) start _ => ordered && start ≠ 1 || startsBlank o n
  | _ => false

/-- Whether a block is a list that makes a heading of the paragraph before it. -/
def underlines (o : Options) : Node → Bool
  | .list false (n :: _) _ _ => o.bulletMarker = .dash && startsBlank o n
  | _ => false

theorem head?_firstLine (h : isBare t.head? = true) : (firstLine t).head? = t.head? := by
  cases t with
  | nil => rfl
  | cons c t =>
    have hc : isBlank c = false := by simpa [isBare] using h
    rw [firstLine, List.takeWhile_cons_of_pos (by simpa using Text.not_isLineEnd hc)]
    rfl

theorem isLineBlank_eq_false (hc : isBlank c = false) : Text.isLineBlank c = false := by
  by_contra h
  have hcases : c = ' ' ∨ c = '\t' := by
    rw [Bool.not_eq_false] at h
    simpa [Text.isLineBlank] using h
  rcases hcases with rfl | rfl
  · exact absurd hc (by decide)
  · exact absurd hc (by decide)

theorem all_isLineBlank_of_isBare (h : isBare line.head? = true) :
    line.all Text.isLineBlank = false := by
  cases line with
  | nil => cases h
  | cons c line =>
    rw [List.all_cons, isLineBlank_eq_false (by simpa [isBare] using h), Bool.false_and]

theorem all_isLineBlank_spaces_append (j : Nat) (t : Text) :
    (Text.spaces j ++ t).all Text.isLineBlank = t.all Text.isLineBlank := by
  have hspaces : (Text.spaces j).all Text.isLineBlank = true := by
    rw [List.all_eq_true]
    intro d hd
    rw [List.eq_of_mem_replicate hd]
    rfl
  rw [List.all_append, hspaces, Bool.true_and]

theorem firstLine_eq_self (h : ∀ c ∈ t, ¬ IsLineEnd c) : firstLine t = t :=
  List.takeWhile_eq_self_iff.mpr (by simpa using h)

theorem firstLine_spaces_append (j : Nat) (t : Text) :
    firstLine (Text.spaces j ++ t) = Text.spaces j ++ firstLine t := by
  refine firstLine_append (fun d hd => ?_) t
  rw [List.eq_of_mem_replicate hd]
  decide

/-- Only indented code can have a blank first line. -/
theorem all_isLineBlank_firstLine_body (hg : n.Grammatical) (hblock : n.isBlock = true)
    (hne : body o n ≠ []) : (firstLine (body o n)).all Text.isLineBlank = startsLate o n := by
  cases hcode : isIndentedCode o n with
  | true =>
    obtain ⟨content, language, m, rfl, htext⟩ := body_of_isIndentedCode hcode
    obtain ⟨j, hj⟩ := exists_firstLine_indentedCode content.toList
    rw [htext, hj, firstLine_spaces_append, all_isLineBlank_spaces_append, startsLate, hcode,
      Bool.true_and]
  | false =>
    have hbare := isBare_head?_body hg hblock hne hcode
    have hline : isBare (firstLine (body o n)).head? = true := by rwa [head?_firstLine hbare]
    rw [all_isLineBlank_of_isBare hline]
    cases n with
    | codeBlock content language m => rw [startsLate, hcode, Bool.false_and]
    | _ => rfl

/-- **The first line of an item** is its marker, with nothing or a space behind it, and has text
there but in some items. -/
theorem exists_firstLine_listItem (H : IsMarker marker) (hends : ∀ d ∈ marker, ¬ IsLineEnd d)
    (o : Options) (hg : n.Grammatical) (hitem : n.isItem = true) :
    ∃ behind, firstLine (fragment o { marker } n).text = marker ++ behind ∧
      (behind = [] ∨ behind.head? = some ' ') ∧
      behind.all Text.isLineBlank = startsBlank o n := by
  cases n with
  | listItem children status m =>
    obtain ⟨j, hj⟩ : ∃ j, markerText o marker = marker ++ Text.spaces (j + 1) := by
      have hone := (padding_bounds o marker).1
      exact ⟨padding o marker - 1, by rw [markerText_eq, Nat.sub_add_cancel hone]⟩
    have hspaced : ∀ t : Text, firstLine (marker ++ Text.spaces (j + 1) ++ t) =
        marker ++ (Text.spaces (j + 1) ++ firstLine t) := fun t => by
      rw [List.append_assoc, firstLine_append hends, firstLine_spaces_append]
    rw [fragment]
    cases status with
    | some status =>
      obtain ⟨rest, hrest⟩ :=
        exists_item_of_task H o status (blocksAfter o marker true none children)
      refine ⟨Text.spaces (j + 1) ++ firstLine ('[' :: rest), ?_, .inr rfl, ?_⟩
      · rw [hrest, hj, hspaced]
      · rw [all_isLineBlank_spaces_append]
        have hbox : isBare (firstLine ('[' :: rest)).head? = true := by
          rw [head?_firstLine rfl]
          rfl
        exact all_isLineBlank_of_isBare hbox
    | none =>
      cases hshown : firstShown o children with
      | none =>
        refine ⟨[], ?_, .inl rfl, by rw [startsBlank, hshown]; rfl⟩
        rw [blocksAfter_of_firstShown_eq_none o marker true hg.2.2 hg.2.1 hshown, item_nil H,
          firstLine_eq_self hends, List.append_nil]
      | some first =>
        have hmem := List.mem_of_find?_eq_some hshown
        have hne : body o first ≠ [] := by simpa using List.find?_some hshown
        have hbody : blocksAfter o marker true none children ≠ [] := by
          obtain ⟨-, rest, htext, -⟩ :=
            exists_blocksAfter_eq_append o marker true hg.2.2 hg.2.1 hshown
          simp [htext, hne]
        refine ⟨Text.spaces (j + 1) ++ firstLine (body o first), ?_, .inr rfl, ?_⟩
        · rw [firstLine_item H o hbody, hj, hspaced,
            firstLine_blocksAfter o marker true hg.2.2 hg.2.1 hshown]
        · rw [all_isLineBlank_spaces_append, startsBlank, hshown, Option.all_some]
          exact all_isLineBlank_firstLine_body (hg.of_mem_children hmem) (hg.2.1 first hmem) hne
  | _ => cases hitem

/-- **The first line of a list** is a marker, with nothing or a space behind it, and has text there
unless its first item has none. -/
theorem exists_firstLine_list (o : Options) {ordered : Bool} {node : Node} {start : Int}
    {m : Metadata} (hg : (Node.list ordered (node :: ns) start m).Grammatical) :
    let digits := if ordered then decimalDigits start.natAbs else []
    let mark := listMark o ordered false
    (∀ d ∈ digits, d.isDigit = true) ∧ mark ∈ markEnds digits ∧
    ∃ behind, firstLine (body o (.list ordered (node :: ns) start m)) = digits ++ mark :: behind ∧
      (behind = [] ∨ behind.head? = some ' ') ∧
      behind.all Text.isLineBlank = startsBlank o node := by
  intro digits mark
  have hmem : node ∈ node :: ns := List.mem_cons_self ..
  have hends : ∀ d ∈ listMarker o ordered false start, ¬ IsLineEnd d := fun d hd hend =>
    not_mem_listMarker hend o ordered false start hd
  obtain ⟨behind, hline, hbehind, hblank⟩ := exists_firstLine_listItem
    (isMarker_listMarker o ordered false start) hends o (hg.of_mem_children hmem) (hg.2.1 node hmem)
  have hfirst : firstLine (body o (.list ordered (node :: ns) start m)) =
      listMarker o ordered false start ++ behind := by
    rw [← hline]
    exact firstLine_unlines_cons _ _
  cases ordered with
  | true =>
    refine ⟨fun d hd => isDigit_of_mem_decimalDigits hd, ?_, behind, ?_, hbehind, hblank⟩
    · rw [markEnds, if_neg (by simpa [digits] using decimalDigits_ne_nil start.natAbs)]
      exact listMark_mem_delimiters o false
    · rw [hfirst, listMarker_of_nonneg o false (hg.1 rfl), List.append_assoc]
      rfl
  | false =>
    refine ⟨by simp [digits], ?_, behind, ?_, hbehind, hblank⟩
    · change mark ∈ markEnds []
      exact listMark_mem_bullets o false
    · rw [hfirst, listMarker_of_bullet]
      rfl

/-! ## What the lines do -/

/-- A line that starts with none of the other marks can only open an item. -/
theorem interrupts_eq_opensItem (hc : line.head? = some c) (hmark : c ∉ ['#', '>', '~', '`']) :
    interrupts line = opensItem line := by
  obtain ⟨rest, rfl⟩ : ∃ rest, line = c :: rest := List.head?_eq_some_iff.mp hc
  simp only [List.mem_cons, List.not_mem_nil, or_false, not_or] at hmark
  simp [interrupts, readHeading, opensFence, hmark]

theorem isUnderline_eq_false (hc : line.head? = some c) (hmark : c ∉ ['-', '=']) :
    isUnderline line = false := by
  obtain ⟨rest, rfl⟩ : ∃ rest, line = c :: rest := List.head?_eq_some_iff.mp hc
  simp only [List.mem_cons, List.not_mem_nil, or_false, not_or] at hmark
  simp [isUnderline, hmark]

/-- A line of one bullet is an underline if the bullet is a hyphen and nothing is behind it. -/
theorem isUnderline_bullet (hc : c ∈ ['-', '*', '+'])
    (hbehind : behind = [] ∨ behind.head? = some ' ') :
    isUnderline (c :: behind) = (c = '-' && behind.all Text.isLineBlank) := by
  have hequals : c ≠ '=' := by
    rintro rfl
    exact absurd hc (by decide)
  have hhead : behind.head? ≠ some c := by
    rcases hbehind with rfl | hbehind
    · exact nofun
    · rw [hbehind]
      rintro heq
      obtain rfl := Option.some.inj heq
      exact absurd hc (by decide)
  rw [isUnderline, (runs_of_head? hhead).2]
  simp [hequals]

/-- The bullet of a list behind anything but a list of its kind is that of the options. -/
theorem listMark_eq_hyphen_iff (o : Options) :
    listMark o false false = '-' ↔ o.bulletMarker = .dash := by
  rw [listMark]
  cases o.bulletMarker <;> simp [Bullet.char]

/-- The first line of a block starts with text, and does to the paragraph before it what the kind of
the block lets expect. -/
structure LineFits (o : Options) (n : Node) : Prop where
  /-- The line interrupts the paragraph, but for some lists. -/
  interrupts_eq : interrupts (firstLine (body o n)) = !lingers o n
  /-- The line underlines the paragraph for some lists. -/
  isUnderline_eq : isUnderline (firstLine (body o n)) = underlines o n
  /-- The line starts with text, but with no equals sign. -/
  head : ∃ d, (firstLine (body o n)).head? = some d ∧ isBlank d = false ∧ d ≠ '='

/-- An ordered list interrupts a paragraph if it starts with one and with text. -/
theorem lineFits_orderedList (o : Options) {node : Node} {start : Int} {m : Metadata}
    (hg : (Node.list true (node :: ns) start m).Grammatical) :
    LineFits o (.list true (node :: ns) start m) := by
  obtain ⟨hdigits, hmark, behind, hline, hbehind, hblank⟩ := exists_firstLine_list o hg
  have hstart : 0 ≤ start := hg.1 rfl
  obtain ⟨d, digits, hd⟩ := List.exists_cons_of_ne_nil (decimalDigits_ne_nil start.natAbs)
  have hdigit : d.isDigit = true := hdigits d (by simp [hd])
  have hhead : (firstLine (body o (.list true (node :: ns) start m))).head? = some d := by
    simp [hline, hd]
  have hnot : ∀ e : Char, e.isDigit = false → d ≠ e := by
    rintro e he rfl
    rw [he] at hdigit
    cases hdigit
  have hopens := opensItem_digits hdigits hmark hbehind
  rw [← hline, hblank] at hopens
  have hone : (decimalDigits start.natAbs).length ≤ 9 ∧ startsBlank o node = false ∧
      (decimalDigits start.natAbs = [] ∨ ofDigits (decimalDigits start.natAbs) = 1) ↔
        start = 1 ∧ startsBlank o node = false := by
    rw [length_decimalDigits_le_iff (by decide), ofDigits_decimalDigits]
    simp only [decimalDigits_ne_nil, false_or]
    constructor
    · rintro ⟨-, hshown, hvalue⟩
      exact ⟨by omega, hshown⟩
    · rintro ⟨rfl, hshown⟩
      exact ⟨by decide, hshown, rfl⟩
  refine ⟨?_, ?_, d, hhead, isBlank_eq_false_of_isDigit hdigit, hnot '=' (by decide)⟩
  · have hmarks : d ∉ ['#', '>', '~', '`'] := by simp [hnot]
    rw [interrupts_eq_opensItem hhead hmarks, Bool.eq_iff_iff]
    refine hopens.trans (hone.trans ?_)
    simp [lingers]
  · exact isUnderline_eq_false hhead (by simp [hnot])

/-- A bullet list interrupts a paragraph if it starts with text; otherwise a hyphen underlines
it. -/
theorem lineFits_bulletList (o : Options) {node : Node} {start : Int} {m : Metadata}
    (hg : (Node.list false (node :: ns) start m).Grammatical) :
    LineFits o (.list false (node :: ns) start m) := by
  obtain ⟨hdigits, hmark, behind, hline, hbehind, hblank⟩ := exists_firstLine_list o hg
  have hopens := opensItem_digits hdigits hmark hbehind
  rw [← hline, hblank] at hopens
  have hbullet := listMark_mem_bullets o false
  have hhead : (firstLine (body o (.list false (node :: ns) start m))).head? =
      some (listMark o false false) := by
    simp [hline]
  have hall : ∀ e ∈ ['-', '*', '+'], e ∉ ['#', '>', '~', '`'] ∧ isBlank e = false ∧ e ≠ '=' := by
    simp only [List.forall_mem_cons]
    exact ⟨by decide, by decide, by decide, nofun⟩
  obtain ⟨hmarks, hshown, hequals⟩ := hall _ hbullet
  refine ⟨?_, ?_, _, hhead, hshown, hequals⟩
  · rw [interrupts_eq_opensItem hhead hmarks, Bool.eq_iff_iff]
    refine hopens.trans ?_
    simp [lingers]
  · have hunderline := isUnderline_bullet hbullet hbehind
    rw [hblank] at hunderline
    rw [hline]
    refine hunderline.trans ?_
    simp [underlines, listMark_eq_hyphen_iff]

/-- A heading starts with its hashes, and a space if there is more of it. -/
theorem interrupts_heading (level : HeadingLevel) (t : Text) :
    interrupts (firstLine (heading level t)) = true := by
  have hhashes : ∀ d ∈ List.replicate level.val '#', ¬ IsLineEnd d := fun d hd => by
    rw [List.eq_of_mem_replicate hd]
    decide
  obtain ⟨rest, hline, hrest⟩ : ∃ rest, firstLine (heading level t) =
      List.replicate level.val '#' ++ rest ∧ (rest = [] ∨ rest.head? = some ' ') := by
    rw [heading]
    split
    · exact ⟨[], by rw [firstLine_eq_self hhashes, List.append_nil], .inl rfl⟩
    · exact ⟨firstLine (' ' :: t), firstLine_append hhashes _, .inr rfl⟩
  rw [interrupts, hline, isSome_readHeading level.one_le level.le_six hrest]
  rfl

/-- Fenced code starts with its fence, and the first line of its language. -/
theorem interrupts_fencedCode (o : Options) (info content : Text) :
    interrupts (firstLine (fencedCode o info content)) = true := by
  obtain ⟨k, hfence, hwidth, -⟩ := exists_fence_eq (fenceChar o info) content
  have hchar := fenceChar_cases o info
  have hends : ∀ d ∈ List.replicate (k + 1) (fenceChar o info), ¬ IsLineEnd d := by
    intro d hd
    rw [List.eq_of_mem_replicate hd]
    rcases hchar with h | ⟨h, -⟩ <;> rw [h] <;> decide
  have hinfo : ∀ d ∈ firstLine info, d ∈ info := fun d hd => (List.takeWhile_prefix _).subset hd
  have hline : firstLine (fencedCode o info content) =
      List.replicate (k + 1) (fenceChar o info) ++ firstLine info := by
    have htext : fencedCode o info content =
        List.replicate (k + 1) (fenceChar o info) ++ info ++
          '\n' :: (closeLine content ++ List.replicate (k + 1) (fenceChar o info)) := by
      simp [fencedCode, hfence]
    rw [htext, firstLine_append_newline, firstLine_append hends]
  have hopens : opensFence (firstLine (fencedCode o info content)) = true := by
    rw [hline]
    exact opensFence_replicate hwidth <|
      hchar.imp_right fun h => ⟨h.1, fun hmem => h.2 (hinfo _ hmem)⟩
  simp [interrupts, hopens]

/-- A block that starts with another mark and interrupts a paragraph is no list. -/
theorem lineFits_of_mark (hd : (body o n).head? = some d) (hmark : d ∈ ['#', '>', '~', '`'])
    (hlingers : lingers o n = false) (hunderlines : underlines o n = false)
    (hinterrupts : interrupts (firstLine (body o n)) = true) : LineFits o n := by
  have hall : ∀ e ∈ ['#', '>', '~', '`'], e ∉ ['-', '='] ∧ isBlank e = false ∧ e ≠ '=' := by
    simp only [List.forall_mem_cons]
    exact ⟨by decide, by decide, by decide, by decide, nofun⟩
  obtain ⟨hnot, hblank, hequals⟩ := hall d hmark
  have hhead : (firstLine (body o n)).head? = some d := by
    rw [head?_firstLine (by rw [hd]; simp [isBare, hblank]), hd]
  refine ⟨?_, ?_, d, hhead, hblank, hequals⟩
  · rw [hlingers, hinterrupts]
    rfl
  · rw [hunderlines, isUnderline_eq_false hhead hnot]

/-- **What the first line of a block does** to the paragraph before it, if no blank line is between
the two. -/
theorem lineFits_of_not_needsBlankLine (hg : n.Grammatical) (hblock : n.isBlock = true)
    (hne : body o n ≠ []) (hgap : needsBlankLine o n = false)
    (htable : ∀ nodes m, n ≠ .table nodes m) : LineFits o n := by
  cases n with
  | heading level content m =>
    obtain ⟨t, ht⟩ : ∃ t, body o (.heading level content m) = heading level t :=
      ⟨_, by rw [body, fragment]⟩
    refine lineFits_of_mark (by rw [ht, head?_heading]) (by decide) rfl rfl ?_
    rw [ht]
    exact interrupts_heading level t
  | blockQuote children m =>
    have hhead : (body o (.blockQuote children m)).head? = some '>' := by
      rw [body, fragment, head?_quote]
    have hline : (firstLine (body o (.blockQuote children m))).head? = some '>' := by
      rw [head?_firstLine (by rw [hhead]; rfl), hhead]
    exact lineFits_of_mark hhead (by decide) rfl rfl (by simp [interrupts, hline])
  | codeBlock content language m =>
    have hcode : isIndentedCode o (.codeBlock content language m) = false := hgap
    have htext : body o (.codeBlock content language m) =
        fencedCode o (language.getD "").toList content.toList :=
      text_of_fenced (by rw [hcode, Bool.false_and])
    have hmark : fenceChar o (language.getD "").toList ∈ ['#', '>', '~', '`'] := by
      rcases fenceChar_cases o (language.getD "").toList with h | ⟨h, -⟩ <;> rw [h] <;> decide
    refine lineFits_of_mark (by rw [htext, head?_fenced]) hmark rfl rfl ?_
    rw [htext]
    exact interrupts_fencedCode o _ _
  | list ordered nodes start m =>
    cases nodes with
    | nil => exact absurd rfl hne
    | cons node nodes =>
      cases ordered with
      | true => exact lineFits_orderedList o hg
      | false => exact lineFits_bulletList o hg
  | table nodes m => exact absurd rfl (htable nodes m)
  | paragraph => cases hgap
  | thematicBreak => cases hgap
  | _ => cases hblock

/-! ## Behind a paragraph -/

/-- A written block is one of the blocks, and has text. -/
theorem mem_of_writtenAfter (hg : AllGrammatical ns) {before after : List Written} {w : Written}
    (h : writtenAfter o marker none ns = before ++ w :: after) :
    w.node ∈ ns ∧ w.text o ≠ [] := by
  have hmem : w ∈ writtenAfter o marker none ns := by
    rw [h]
    simp
  have hnode : w.node ∈ (writtenAfter o marker none ns).map Written.node :=
    List.mem_map_of_mem hmem
  have htext : w.text o ∈ (writtenAfter o marker none ns).map (Written.text o) :=
    List.mem_map_of_mem hmem
  rw [map_node_writtenAfter hg] at hnode
  rw [map_text_writtenAfter] at htext
  exact ⟨List.mem_of_mem_filter hnode, by simpa using List.of_mem_filter htext⟩

/-- Behind a paragraph, a block is written as it is by itself. -/
theorem text_behind_paragraph (hg : AllGrammatical ns) (hblocks : AreBlocks ns)
    {before after : List Written} {x y : Written}
    (h : writtenAfter o marker none ns = before ++ x :: y :: after) {content : List Node}
    {m : Metadata} (hx : x.node = .paragraph content m) : y.text o = body o y.node := by
  have hbehind : writtenAfter o marker none ns = (before ++ [x]) ++ y :: after := by simpa using h
  have hforgotten : IsForgotten (some x.predecessor) := by
    intro p hp
    obtain rfl := Option.some.inj hp
    rw [Written.predecessor, hx]
    rfl
  have hplacement : y.placement = { marker } := by
    have hplaced := placement_of_writtenAfter hbehind
    rw [List.getLast?_concat, Option.map_some, Option.some_or] at hplaced
    rw [hplaced, placementAfter_of_isForgotten hforgotten]
  have hmem := (mem_of_writtenAfter hg hbehind).1
  rw [Written.text, hplacement]
  exact text_eq_body_of_isBlock (grammatical_of_writtenAfter hg hbehind) (hblocks _ hmem) o marker

/-- **Blocks right behind a paragraph.** Where a paragraph of an item and the next block with text
have a single line feed between them and the block is no table, it is a heading, a quote, fenced
code or a list. Its first line starts with a character that is not white space, so it is no indented
code. The line interrupts the paragraph unless the block is a list that is numbered otherwise than
from one, or whose first item has no text on its first line. It underlines the paragraph just if it
is a list with hyphens and such an item. It is made of one of the two characters of underlines and
of blanks just if that is a hyphen, and the block is a list that leads with hyphens. -/
theorem block_interrupts_paragraph_unless_list_lingers (o : Options) (marker : Text)
    {children : List Node} {status : Option String} {m : Metadata}
    (hg : (Node.listItem children status m).Grammatical) {before after : List Written}
    {x y : Written} (hwritten : writtenAfter o marker none children = before ++ x :: y :: after)
    {content : List Node} {m' : Metadata} (hx : x.node = .paragraph content m')
    (hgap : itemGap o x.node y.node = ['\n'])
    (htable : ∀ nodes m, y.node ≠ .table nodes m) :
    let line := firstLine (y.text o)
    (∃ u v, blocksAfter o marker true none children =
      u ++ x.text o ++ '\n' :: y.text o ++ v ∧ (v = [] ∨ ∃ w, v = '\n' :: w)) ∧
    isBare line.head? = true ∧
    interrupts line = !lingers o y.node ∧
    isUnderline line = underlines o y.node ∧
    ∀ mark ∈ ['-', '='], (∀ d ∈ line, d = mark ∨ d = ' ' ∨ d = '\t') ↔
      mark = '-' ∧ ∃ k, Leads o '-' y.node k := by
  intro line
  have hbehind : writtenAfter o marker none children = (before ++ [x]) ++ y :: after := by
    simpa using hwritten
  obtain ⟨hmem, hne⟩ := mem_of_writtenAfter hg.2.2 hbehind
  have hy := grammatical_of_writtenAfter hg.2.2 hbehind
  have hblock : y.node.isBlock = true := hg.2.1 _ hmem
  have htext := text_behind_paragraph hg.2.2 hg.2.1 hwritten hx
  rw [htext] at hne
  have hneeds : needsBlankLine o y.node = false := by
    rw [hx, itemGap] at hgap
    split at hgap
    · cases hgap
    · rename_i hneeds
      simpa using hneeds
  obtain ⟨hinterrupts, hunderline, d, hhead, hshown, hequals⟩ :=
    lineFits_of_not_needsBlankLine hy hblock hne hneeds htable
  rw [← htext] at hinterrupts hunderline hhead
  refine ⟨?_, by rw [hhead]; simp [isBare, hshown], hinterrupts, hunderline, ?_⟩
  · obtain ⟨u, v, haround, hv⟩ := exists_around_gap_of_item hwritten
    exact ⟨u, v, by simpa [hgap] using haround, hv⟩
  · have hleads := (holdsOnly_iff_leads (c := '-') (by decide) o y.node hy).1 hblock hne
    have hdmem : d ∈ line := List.mem_of_mem_head? hhead
    intro mark hmark
    rcases List.mem_pair.mp hmark with rfl | rfl
    · rw [← htext] at hleads
      refine ⟨fun hall => ⟨rfl, _, (hleads _).mp ⟨hall, rfl⟩⟩, ?_⟩
      rintro ⟨-, k, hk⟩
      exact ((hleads k).mpr hk).1
    · refine iff_of_false (fun hall => ?_) fun h => absurd h.1 (by decide)
      exact hequals (eq_of_not_blank (hall d hdmem) hshown)

/-- A paragraph, one without text, and a numbered item that holds an empty one. -/
def numberedBehind : Node :=
  .listItem [.paragraph [.text "a"], .paragraph [],
    .list true [.listItem [.list false [.listItem [] none] 1] none] 1] none

/-- An item with number one interrupts a paragraph if there is but a bullet in it. -/
theorem bullet_in_numbered_item_interrupts :
    let line := "1. -".toList
    (∃ u v, blocksAfter {} ['-'] true none numberedBehind.children =
      u ++ ['a'] ++ '\n' :: line ++ v) ∧
    interrupts line = true ∧ isUnderline line = false := by
  intro line
  have hg : numberedBehind.Grammatical := (Node.problems_eq_nil_iff _).mp rfl
  obtain ⟨x, y, hwritten, hx, hxtext, hytext, hgap, hkind⟩ : ∃ x y,
      writtenAfter {} ['-'] none numberedBehind.children = [] ++ x :: y :: [] ∧
      x.node = .paragraph [.text "a"] ∧ x.text {} = ['a'] ∧ y.text {} = line ∧
      itemGap {} x.node y.node = ['\n'] ∧
      y.node = .list true [.listItem [.list false [.listItem [] none] 1] none] 1 :=
    ⟨_, _, rfl, rfl, by decide +kernel, by decide +kernel, rfl, rfl⟩
  obtain ⟨⟨u, v, haround, -⟩, -, hinterrupts, hunderline, -⟩ :=
    block_interrupts_paragraph_unless_list_lingers {} ['-'] hg hwritten hx hgap
      (by rw [hkind]; exact nofun)
  have hline : firstLine line = line := by decide +kernel
  rw [hytext, hline, hkind] at hinterrupts hunderline
  rw [hxtext, hytext] at haround
  exact ⟨⟨u, v, haround⟩, hinterrupts.trans (by decide +kernel),
    hunderline.trans (by decide +kernel)⟩

/-- An item that holds a text and an empty item. They are lowered to a paragraph and a list. -/
def itemInItem : List Operation :=
  [.createElement (.str "root") .null, .createElement (.str "listItem") .null,
    .createElement (.str "listItem") .null, .createText (.str "a"), .appendChild (.int 0) (.int 1),
    .appendChild (.int 1) (.int 3), .appendChild (.int 1) (.int 2)]

/-- Not every list behind a paragraph is read as one: the hyphen of this one makes a heading. -/
theorem some_list_underlines_paragraph :
    ¬ ∀ (s : Store) (root : Value) (doc : Node) (children : List Node) (status : Option String)
      (m : Metadata) (o : Options) (before after : List Written) (x y : Written)
      (content : List Node) (m' : Metadata), (s.lower root).result = .ok doc →
      doc.Contains (.listItem children status m) →
      writtenAfter o ['-'] none children = before ++ x :: y :: after →
      x.node = .paragraph content m' → itemGap o x.node y.node = ['\n'] →
      (∀ nodes m, y.node ≠ .table nodes m) →
      interrupts (firstLine (y.text o)) = true ∧ isUnderline (firstLine (y.text o)) = false := by
  intro hclaim
  let empty : Node := .listItem [.paragraph [] synthesized] none
  let children : List Node :=
    [.paragraph [.text "a"] synthesized, .list false [empty] 1 synthesized]
  have hlowered : ((Container.run itemInItem).store.lower (.int 0)).result =
      .ok (.document [.list false [.listItem children none] 1 synthesized]) := rfl
  have hcontains : (Node.document [.list false [.listItem children none] 1 synthesized]).Contains
      (.listItem children none) :=
    .inside (List.mem_singleton_self _) (.inside (List.mem_singleton_self _) (.self _))
  obtain ⟨-, hunderline⟩ := hclaim _ _ _ _ _ _ {} [] [] ⟨_, { marker := ['-'] }⟩
    ⟨_, { marker := ['-'] }⟩ _ _ hlowered hcontains rfl rfl rfl nofun
  exact absurd hunderline (by decide +kernel)

end DocumentTree.Markdown
