import DocumentTree.Proofs.Document.Grammatical
import DocumentTree.Proofs.Markdown.Parts

/-!
# Delimiters of neighbours

Where a part ends with a delimiter and the next one starts with a delimiter of the same character,
nothing stands between them, and they are one run to a reader. The neighbours of text are escaped
or adjusted, but those of a delimiter are not looked at: the delimiters of two parts fuse just
where both parts consist of the same character and there is no white space between them.

## Main definitions

* `markBetween o previous p following` — the character of which the delimiters of a part consist.
* `Fuses p q` — a part ends with a delimiter that goes on in the next part.
-/

namespace DocumentTree.Markdown

variable {o : Options} {marker : Text} {ns : List Node} {before after : List (Node × Text)}
  {n m : Node} {t u : Text}

/-- The character of which the delimiters of a part between two characters consist. -/
def markBetween (o : Options) (previous : Option Char) (p : Node × Text)
    (following : Option Char) : Option Char :=
  delimiterMark o ((isBare p.2.head? && isWordBeside previous)
    || (isBare p.2.getLast? && isWordBeside following)) p.1

/-- A part ends with one of its delimiter characters, and the next part starts with it. -/
def Fuses (p q : Node × Text) : Prop :=
  ∃ c ∈ delimiterChars p.1, p.2.getLast? = some c ∧ q.2.head? = some c

/-! ## Both ends of a seam -/

/-- A part with delimiters shows its mark at its ends. Whether the next character belongs to a word
is the same before and after the next part is adjusted. -/
theorem ends_of_part {previous next : Option Char} {following : Option Node}
    (hn : delimiterMark o false n ≠ none) (ht : t = partText o marker previous n following)
    (hnext : isWordBeside next =
      isWordBeside ((following.map (fragment o { marker })).bind fun f => f.text.head?)) :
    ∃ mark, markBetween o previous (n, t) next = some mark ∧
      (isBare t.head? = true → t.head? = some mark) ∧
      (isBare t.getLast? = true → t.getLast? = some mark) := by
  rw [markBetween, hnext, ht]
  exact ends_of_delimiterMark hn

/-- The first character behind a part belongs to a word just where the next node is written with
one. -/
theorem isWordBeside_next {previous : Option Char}
    (h : after.map Prod.snd =
      settle o previous ((after.map Prod.fst).map (fragment o { marker }))) :
    isWordBeside (after.head?.bind fun p => p.2.head?) =
      isWordBeside ((((after.map Prod.fst).head?).map (fragment o { marker })).bind
        fun f => f.text.head?) := by
  cases after with
  | nil => rfl
  | cons p after =>
    simp only [List.map_cons, settle, List.cons.injEq, List.head?_map] at h
    have hp : p.2 = partText o marker previous p.1 (after.head?.map Prod.fst) := by
      rw [h.1, partText]
    simp only [List.head?_cons, Option.bind_some, List.map_cons, Option.map_some, hp]
    exact isWordBeside_head?_partText

/-- The mark of the first of two neighbouring parts stands at its end, and that of the second one
at its start. -/
theorem ends_of_neighbours (h : parts o marker ns = before ++ (n, t) :: (m, u) :: after) :
    (delimiterMark o false n ≠ none →
      ∃ mark, markBetween o (lastChar none (before.map Prod.snd)) (n, t) u.head? = some mark ∧
        (isBare t.getLast? = true → t.getLast? = some mark)) ∧
    (delimiterMark o false m ≠ none →
      ∃ mark, markBetween o t.getLast? (m, u) (after.head?.bind fun p => p.2.head?) = some mark ∧
        (isBare u.head? = true → u.head? = some mark)) := by
  obtain ⟨ht, hu, hafter⟩ := parts_eq_append h
  refine ⟨fun hn => ?_, fun hm => ?_⟩
  · have hnext : isWordBeside u.head? = isWordBeside (fragment o { marker } m).text.head? := by
      rw [hu]
      exact isWordBeside_head?_partText
    obtain ⟨mark, hmark, -, hlast⟩ := ends_of_part hn ht hnext
    exact ⟨mark, hmark, hlast⟩
  · obtain ⟨mark, hmark, hhead, -⟩ := ends_of_part hm hu (isWordBeside_next hafter)
    exact ⟨mark, hmark, hhead⟩

/-- **Delimiters fuse where the same mark meets itself, and nowhere else.** Inline content is joined
from its parts. Of two neighbouring parts, the first ends with a delimiter that goes on in the
second just where no white space is between them and the delimiters of both consist of the same
character: that of the options, or the asterisk where a word is beside the part. -/
theorem delimiters_fuse_where_marks_agree (hescape : o.escapeSpecial = true)
    (hinline : ∀ n ∈ ns, n.isInline = true)
    (h : parts o marker ns = before ++ (n, t) :: (m, u) :: after) :
    joinFragments o (fragments o marker ns) = ((parts o marker ns).map Prod.snd).flatten ∧
    (Fuses (n, t) (m, u) ↔
      isBare t.getLast? = true ∧ isBare u.head? = true ∧
      ∃ c, markBetween o (lastChar none (before.map Prod.snd)) (n, t) u.head? = some c ∧
        markBetween o t.getLast? (m, u) (after.head?.bind fun p => p.2.head?) = some c) := by
  obtain ⟨hfirst, hsecond⟩ := ends_of_neighbours h
  refine ⟨joinFragments_eq_parts o marker ns, ?_, ?_⟩
  · rintro ⟨c, hc, hlast, hhead⟩
    dsimp only at hc hlast hhead
    obtain ⟨hmem, hn⟩ : c ∈ delimiterMarks ∧ delimiterMark o false n ≠ none :=
      of_mem_delimiterChars hc
    have hbare := (of_mem_delimiterMarks hmem).1
    have hm : delimiterMark o false m ≠ none := by
      intro hnone
      rw [(parts_eq_append h).2.1] at hhead
      have hmem' : (m, u) ∈ parts o marker ns := by simp [h]
      exact head?_not_mem_of_delimiterMark hescape (hinline m (mem_of_mem_parts hmem')) hnone
        hhead hmem
    obtain ⟨mark, hmark, hend⟩ := hfirst hn
    obtain ⟨mark', hmark', hstart⟩ := hsecond hm
    rw [hlast] at hend
    rw [hhead] at hstart
    obtain rfl : c = mark := Option.some.inj (hend hbare)
    obtain rfl : c = mark' := Option.some.inj (hstart hbare)
    exact ⟨hlast ▸ hbare, hhead ▸ hbare, c, hmark, hmark'⟩
  · rintro ⟨hlast, hhead, c, hc, hc'⟩
    obtain ⟨hmem, hn⟩ := mem_delimiterChars hc
    obtain ⟨mark, hmark, hend⟩ := hfirst hn
    obtain ⟨mark', hmark', hstart⟩ := hsecond (mem_delimiterChars hc').2
    obtain rfl : c = mark := Option.some.inj (hc.symm.trans hmark)
    obtain rfl : c = mark' := Option.some.inj (hc'.symm.trans hmark')
    exact ⟨c, hmem, hend hlast, hstart hhead⟩

/-- Emphasis of underscores before strong emphasis of asterisks: the marks differ, but not where a
word stands before them. -/
theorem word_before_decides_fusing :
    ¬ Fuses (.emphasis [.text "a"], "_a_".toList) (.strong [.text "b"], "**b**".toList) ∧
    Fuses (.emphasis [.text "a"], "*a*".toList) (.strong [.text "b"], "**b**".toList) ∧
    inline { emphasisMarker := .underscore }
      [.text "x", .emphasis [.text "a"], .strong [.text "b"]] = "x*a***b**".toList := by
  have happart : parts { emphasisMarker := .underscore } ['-']
      [.emphasis [.text "a"], .strong [.text "b"]] =
      [] ++ (.emphasis [.text "a"], "_a_".toList) :: (.strong [.text "b"], "**b**".toList) :: [] :=
    rfl
  have htouched : parts { emphasisMarker := .underscore } ['-']
      [.text "x", .emphasis [.text "a"], .strong [.text "b"]] =
      [(.text "x", "x".toList)] ++ (.emphasis [.text "a"], "*a*".toList) ::
        (.strong [.text "b"], "**b**".toList) :: [] := rfl
  obtain ⟨-, happart⟩ := delimiters_fuse_where_marks_agree rfl (by decide) happart
  obtain ⟨hjoined, htouched⟩ := delimiters_fuse_where_marks_agree rfl (by decide) htouched
  refine ⟨mt happart.mp ?_, htouched.mpr ⟨by decide, by decide, '*', by decide, by decide⟩,
    hjoined.trans (by decide +kernel)⟩
  rintro ⟨-, -, c, hc, hc'⟩
  obtain rfl : '_' = c := Option.some.inj hc
  exact absurd hc' (by decide)

/-- Neighbours are not kept apart where their delimiters are of the same character. -/
theorem some_neighbours_fuse :
    ¬ ∀ (o : Options) (content : List Node) (m : Metadata) (before after : List (Node × Text))
      (p q : Node × Text), o.escapeSpecial = true → (Node.paragraph content m).Grammatical →
      parts o ['-'] content = before ++ p :: q :: after → ¬ Fuses p q := by
  intro hclaim
  have hgrammatical : (Node.paragraph [.emphasis [.text "a"], .emphasis [.text "b"]]).Grammatical :=
    Node.problems_eq_nil_iff _ |>.mp rfl
  exact hclaim {} _ [] [] [] (.emphasis [.text "a"], "*a*".toList)
    (.emphasis [.text "b"], "*b*".toList) rfl hgrammatical rfl ⟨'*', by decide, rfl, rfl⟩

/-! ## Underscores beside words -/

/-- Whether a node is emphasis, strong or not. -/
def isStressed : Node → Bool
  | .emphasis .. | .strong .. => true
  | _ => false

/-- Emphasis beside a word has no underscores for delimiters. -/
theorem delimiterMark_touched_ne (hn : isStressed n = true) :
    delimiterMark o true n ≠ some '_' := by
  cases n with
  | emphasis | strong => exact fun h => absurd (Option.some.inj h) (show '*' ≠ '_' by decide)
  | _ => cases hn

theorem delimiterMark_ne_none (hn : isStressed n = true) : delimiterMark o false n ≠ none := by
  cases n with
  | emphasis | strong => nofun
  | _ => cases hn

/-- The word characters beside a part are the same in the whole as where the part was settled. -/
theorem isWordBeside_around (h : parts o marker ns = before ++ (n, t) :: after) :
    lastChar none (before.map Prod.snd) = (before.map Prod.snd).flatten.getLast? ∧
    isWordBeside (after.map Prod.snd).flatten.head? =
      isWordBeside ((((after.map Prod.fst).head?).map (fragment o { marker })).bind
        fun f => f.text.head?) := by
  have hne : ∀ p ∈ parts o marker ns, p.2 ≠ [] := fun p => ne_nil_of_mem_parts
  rw [h] at hne
  constructor
  · have hbefore : ∀ u ∈ before.map Prod.snd, u ≠ [] := by
      intro u hu
      obtain ⟨p, hp, rfl⟩ := List.mem_map.mp hu
      exact hne p (by simp [hp])
    rw [lastChar_eq_getLast?_flatten hbefore, Option.or_none]
  · rw [← isWordBeside_next (part_eq_append h).2]
    cases after with
    | nil => rfl
    | cons p after =>
      have hp : p.2 ≠ [] := hne p (by simp)
      rw [List.map_cons, List.flatten_cons, List.head?_append_of_ne_nil _ hp]
      rfl

/-- Beside no word, a part is as its node was written. -/
theorem partText_eq_text {previous : Option Char} {following : Option Node}
    (hn : isStressed n = true) (hprevious : isWordBeside previous = false)
    (hnext : isWordBeside ((following.map (fragment o { marker })).bind
      fun f => f.text.head?) = false) :
    partText o marker previous n following = (fragment o { marker } n).text := by
  cases n with
  | emphasis | strong =>
    rw [partText, fragment, stressed, Fragment.settled, touchesWord, hprevious, hnext]
    simp
  | _ => cases hn

/-- **Underscores of emphasis touch no word.** Where the part of emphasis in inline content starts
with an underscore, no letter or numeral is right before it in the whole, and where it ends with
one, none is right behind it. Emphasis that has no word beside it is as it was written. -/
theorem underscores_touch_no_word (hn : isStressed n = true)
    (h : parts o marker ns = before ++ (n, t) :: after) :
    let left := (before.map Prod.snd).flatten
    let right := (after.map Prod.snd).flatten
    joinFragments o (fragments o marker ns) = left ++ t ++ right ∧
      (t.head? = some '_' → isWordBeside left.getLast? = false) ∧
      (t.getLast? = some '_' → isWordBeside right.head? = false) ∧
      (isWordBeside left.getLast? = false → isWordBeside right.head? = false →
        t = (fragment o { marker } n).text) := by
  intro left right
  obtain ⟨ht, -⟩ := part_eq_append h
  obtain ⟨hleft, hright⟩ := isWordBeside_around h
  rw [hleft] at ht
  have hjoined : joinFragments o (fragments o marker ns) = left ++ t ++ right := by
    simp [joinFragments_eq_parts, h, left, right]
  obtain ⟨mark, hmark, hhead, hlast⟩ := ends_of_part (delimiterMark_ne_none hn) ht hright
  -- Underscores at an end are the mark of the part, which they are beside no word only.
  have huntouched (hunderscore : mark = '_') :
      ((isBare t.head? && isWordBeside left.getLast?)
        || (isBare t.getLast? && isWordBeside right.head?)) = false := by
    rw [← Bool.not_eq_true]
    intro htouched
    rw [markBetween, htouched, hunderscore] at hmark
    exact delimiterMark_touched_ne hn hmark
  have hbare : isBare (some '_') = true := by decide +kernel
  refine ⟨hjoined, fun hstart => ?_, fun hend => ?_, fun hbefore hbehind => ?_⟩
  · rw [hstart] at hhead huntouched
    obtain rfl : '_' = mark := Option.some.inj (hhead hbare)
    have hnone := huntouched rfl
    rw [hbare, Bool.or_eq_false_iff, Bool.true_and] at hnone
    exact hnone.1
  · rw [hend] at hlast huntouched
    obtain rfl : '_' = mark := Option.some.inj (hlast hbare)
    have hnone := huntouched rfl
    rw [hbare, Bool.or_eq_false_iff, Bool.true_and] at hnone
    exact hnone.2
  · rw [ht]
    exact partText_eq_text hn hbefore (hright ▸ hbehind)

/-- A word behind strong emphasis makes asterisks of its underscores, and the emphasis before it
keeps its own. -/
theorem emphasis_before_adjusted_strong_keeps_underscores :
    inline { emphasisMarker := .underscore, strongMarker := .underscore }
      [.text "a ", .emphasis [.text "b"], .strong [.text "c"], .text "d"] =
      "a _b_**c**d".toList ∧
    isWordBeside "a ".toList.getLast? = false ∧ isWordBeside "**c**d".toList.head? = false := by
  have h : parts { emphasisMarker := .underscore, strongMarker := .underscore } ['-']
      [.text "a ", .emphasis [.text "b"], .strong [.text "c"], .text "d"] =
      [(.text "a ", "a ".toList)] ++ (.emphasis [.text "b"], "_b_".toList) ::
        [(.strong [.text "c"], "**c**".toList), (.text "d", "d".toList)] := rfl
  obtain ⟨hjoined, hstart, hend, -⟩ := underscores_touch_no_word rfl h
  exact ⟨hjoined.trans (by decide +kernel), hstart rfl, hend rfl⟩

end DocumentTree.Markdown
