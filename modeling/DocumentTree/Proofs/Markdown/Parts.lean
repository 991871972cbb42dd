import DocumentTree.Document.Grammar
import DocumentTree.Proofs.Markdown.Characters
import DocumentTree.Proofs.Markdown.Runs

/-!
# The parts of inline content

Inline content is joined from parts: the nodes that are written as something, each with the text
that its neighbours leave it. What a part looks like depends on the part before it and on the node
behind it, so a part is found again at its place in the sequence.

At its ends, a part shows what its node is: a delimiter, an escape, a bracket, or a plain character
of text. White space at the ends of styled content comes before the delimiters.

## Main definitions

* `isVisible` — whether a node is written as something.
* `parts` — the nodes of inline content with their texts.
* `isBare` — whether a text has a character at its end, and no white space.
* `delimiterMark` — the character of which the delimiters of a node consist.
* `delimiterChars n` — the characters of which they can consist.
-/

namespace DocumentTree.Markdown

open Text (isBlank)

variable {c : Char} {t u : Text}

/-! ## Sequences of parts -/

/-- Whether a node is written as something. -/
def isVisible (o : Options) (marker : Text) (n : Node) : Bool :=
  !(fragment o { marker } n).text.isEmpty

/-- The nodes that are written as something, with their texts in the sequence. -/
def parts (o : Options) (marker : Text) (ns : List Node) : List (Node × Text) :=
  let visible := ns.filter fun n => !(fragment o { marker } n).text.isEmpty
  visible.zip (settle o none (visible.map (fragment o { marker })))

theorem fragments_eq_map (o : Options) (marker : Text) (ns : List Node) :
    fragments o marker ns = ns.map (fragment o { marker }) := by
  induction ns with
  | nil => rfl
  | cons n ns ih => rw [fragments, ih, List.map_cons]

@[simp] theorem length_settle (o : Options) (previous : Option Char) (fs : List Fragment) :
    (settle o previous fs).length = fs.length := by
  induction fs generalizing previous with
  | nil => rfl
  | cons f fs ih => simp [settle, ih]

/-- **Inline content is its parts, one behind the other.** -/
theorem joinFragments_eq_parts (o : Options) (marker : Text) (ns : List Node) :
    joinFragments o (fragments o marker ns) = ((parts o marker ns).map Prod.snd).flatten := by
  rw [joinFragments, fragments_eq_map, List.filter_map, parts, List.map_snd_zip (by simp)]
  rfl

/-- The last character before what follows some texts. -/
def lastChar (previous : Option Char) : List Text → Option Char
  | [] => previous
  | t :: ts => lastChar t.getLast? ts

/-- The texts of fragments in sequence are texts of each between some neighbours. -/
theorem mem_settle {o : Options} {previous : Option Char} {fs : List Fragment}
    (h : t ∈ settle o previous fs) : ∃ f ∈ fs, ∃ p q, t = f.settled o p q := by
  induction fs generalizing previous with
  | nil => cases h
  | cons f fs ih =>
    rcases List.mem_cons.mp h with rfl | h
    · exact ⟨f, by simp, _, _, rfl⟩
    · obtain ⟨g, hg, p, q, rfl⟩ := ih h
      exact ⟨g, by simp [hg], p, q, rfl⟩

/-- What comes before a fragment matters to it by its last character only. -/
theorem exists_settle_append (o : Options) (previous : Option Char) (fs : List Fragment)
    (f : Fragment) (gs : List Fragment) :
    ∃ ts, ts.length = fs.length ∧ (∀ t ∈ ts, ∃ g ∈ fs, ∃ p q, t = g.settled o p q) ∧
      settle o previous (fs ++ f :: gs) = ts ++ settle o (lastChar previous ts) (f :: gs) := by
  induction fs generalizing previous with
  | nil => exact ⟨[], rfl, nofun, rfl⟩
  | cons g fs ih =>
    rw [List.cons_append, settle]
    obtain ⟨ts, hlength, hmem, hts⟩ := ih (g.settled o previous (fs ++ f :: gs).head?).getLast?
    refine ⟨g.settled o previous (fs ++ f :: gs).head? :: ts, by simp [hlength], ?_, by
      rw [hts, List.cons_append, lastChar]⟩
    intro t ht
    rcases List.mem_cons.mp ht with rfl | ht
    · exact ⟨g, by simp, _, _, rfl⟩
    · obtain ⟨g', hg', p, q, rfl⟩ := hmem t ht
      exact ⟨g', by simp [hg'], p, q, rfl⟩

/-- The text of a node between a character and perhaps another node. -/
def partText (o : Options) (marker : Text) (previous : Option Char) (n : Node)
    (following : Option Node) : Text :=
  (fragment o { marker } n).settled o previous (following.map (fragment o { marker }))

/-- **One part of the sequence**: its text is settled between the last character before it and the
node behind it, and the texts behind it between its own last character and one another. -/
theorem part_eq_append {o : Options} {marker : Text} {ns : List Node}
    {before after : List (Node × Text)} {n : Node}
    (h : parts o marker ns = before ++ (n, t) :: after) :
    t = partText o marker (lastChar none (before.map Prod.snd)) n (after.map Prod.fst).head? ∧
    after.map Prod.snd =
      settle o t.getLast? ((after.map Prod.fst).map (fragment o { marker })) := by
  obtain ⟨ws, _, ys, _, hlength, hnodes, htexts, rfl, hzip⟩ := List.zip_eq_append_iff.mp h
  obtain ⟨xs, zs, rfl, rfl, rfl⟩ := List.zip_eq_cons_iff.mp hzip.symm
  have htotal := congrArg List.length htexts
  rw [length_settle, List.length_map, hnodes] at htotal
  have hrest : xs.length = zs.length := by
    simp only [List.length_append, List.length_cons] at htotal
    omega
  rw [hnodes, List.map_append, List.map_cons] at htexts
  obtain ⟨ts, hts, -, hsettle⟩ := exists_settle_append o none (ws.map (fragment o { marker }))
    (fragment o { marker } n) (xs.map (fragment o { marker }))
  rw [hsettle, settle] at htexts
  obtain ⟨rfl, htail⟩ := List.append_inj htexts (by rw [hts, List.length_map, hlength])
  obtain ⟨rfl, rfl⟩ := List.cons.inj htail
  rw [List.map_snd_zip hlength.ge, List.map_fst_zip hrest.le, List.map_snd_zip hrest.ge]
  refine ⟨?_, rfl⟩
  rw [partText, List.head?_map]

/-- **Two neighbouring parts**: the text of each is settled between the last character before it
and the node behind it. -/
theorem parts_eq_append {o : Options} {marker : Text} {ns : List Node}
    {before after : List (Node × Text)} {n m : Node}
    (h : parts o marker ns = before ++ (n, t) :: (m, u) :: after) :
    t = partText o marker (lastChar none (before.map Prod.snd)) n (some m) ∧
    u = partText o marker t.getLast? m (after.map Prod.fst).head? ∧
    after.map Prod.snd =
      settle o u.getLast? ((after.map Prod.fst).map (fragment o { marker })) := by
  obtain ⟨ht, hrest⟩ := part_eq_append h
  simp only [List.map_cons, settle, List.cons.injEq] at hrest
  obtain ⟨hu, hafter⟩ := hrest
  rw [← hu] at hafter
  rw [List.head?_map] at hu
  exact ⟨ht, hu, hafter⟩

theorem mem_of_mem_parts {o : Options} {marker : Text} {ns : List Node} {p : Node × Text}
    (h : p ∈ parts o marker ns) : p.1 ∈ ns :=
  List.mem_of_mem_filter (List.of_mem_zip h).1

/-! ## White space around markers -/

/-- There is a character, and it is no white space. -/
def isBare : Option Char → Bool
  | some c => !isBlank c
  | none => false

theorem trim_eq_nil_iff : Text.trim t = [] ↔ ∀ c ∈ t, isBlank c = true := by
  rw [Text.trim, Text.trimRight, Text.dropRightWhile_eq, List.rdropWhile_eq_nil_iff]
  constructor
  · intro h c hc
    rw [← List.takeWhile_append_dropWhile (p := isBlank) (l := t)] at hc
    rcases List.mem_append.mp hc with hc | hc
    · exact List.mem_takeWhile_imp hc
    · exact h c hc
  · intro h c hc
    exact h c ((List.dropWhile_sublist _).mem hc)

/-- Content that is not white space has its core between white space, and markers go between the
white space and the core. -/
theorem exists_blanks_around (h : Text.trim t ≠ []) :
    ∃ lead trail, (∀ c ∈ lead, isBlank c = true) ∧ (∀ c ∈ trail, isBlank c = true) ∧
      t = lead ++ Text.trim t ++ trail ∧
      ∀ marker, wrap marker t = lead ++ marker ++ Text.trim t ++ marker ++ trail := by
  let trail := (Text.trimLeft t).rtakeWhile isBlank
  have hlead : Text.leadingBlanks t ++ Text.trimLeft t = t := List.takeWhile_append_dropWhile
  have htrail : Text.trim t ++ trail = Text.trimLeft t := by
    rw [Text.trim, Text.trimRight, Text.dropRightWhile_eq]
    exact List.rdropWhile_append_rtakeWhile
  have ht : Text.leadingBlanks t ++ Text.trim t ++ trail = t := by
    rw [List.append_assoc, htrail, hlead]
  have hright : Text.trimRight t = Text.leadingBlanks t ++ Text.trim t := by
    rw [← hlead, Text.trimRight_append _ (.inr h), hlead]
    rfl
  have hbehind : Text.trailingBlanks t = trail := calc
    Text.trailingBlanks t
        = (Text.leadingBlanks t ++ Text.trim t ++ trail).drop
            (Text.leadingBlanks t ++ Text.trim t).length := by
          rw [ht, ← hright, Text.trailingBlanks]
    _ = trail := List.drop_left
  refine ⟨Text.leadingBlanks t, trail, fun c hc => List.mem_takeWhile_imp hc,
    fun c hc => List.mem_rtakeWhile_imp hc, ht.symm, fun marker => ?_⟩
  simp only [wrap, hbehind]
  rw [if_neg (by simpa using h)]

theorem wrap_of_trim_eq_nil (h : Text.trim t = []) (marker : Text) : wrap marker t = t := by
  simp [wrap, h]

theorem wrap_eq_nil_iff {marker : Text} : wrap marker t = [] ↔ t = [] := by
  by_cases h : Text.trim t = []
  · rw [wrap_of_trim_eq_nil h]
  · obtain ⟨lead, trail, -, -, ht, hwrap⟩ := exists_blanks_around h
    refine iff_of_false ?_ ?_
    · simp [hwrap, h]
    · rw [ht]
      simp [h]

theorem isBare_head?_trim (h : Text.trim t ≠ []) : isBare (Text.trim t).head? = true := by
  cases hc : (Text.trim t).head? with
  | none => exact absurd (List.head?_eq_none_iff.mp hc) h
  | some c => simp [isBare, Text.head?_trim hc]

theorem isBare_getLast?_trim (h : Text.trim t ≠ []) : isBare (Text.trim t).getLast? = true := by
  cases hc : (Text.trim t).getLast? with
  | none => exact absurd (List.getLast?_eq_none_iff.mp hc) h
  | some c => simp [isBare, Text.getLast?_trim hc]

theorem isBare_eq_false {x : Option Char} (h : ∀ c, x = some c → isBlank c = true) :
    isBare x = false := by
  cases x with
  | none => rfl
  | some c => simp [isBare, h c rfl]

/-- Between markers, content starts with the marker, or with the white space it starts with. -/
theorem head?_wrap {marker : Text} (hmarker : marker ≠ []) (t : Text) :
    (wrap marker t).head? = if isBare t.head? then marker.head? else t.head? := by
  by_cases h : Text.trim t = []
  · have hblank := trim_eq_nil_iff.mp h
    rw [wrap_of_trim_eq_nil h, isBare_eq_false fun c hc => hblank c (List.mem_of_head? hc)]
    rfl
  · obtain ⟨lead, trail, hlead, -, ht, hwrap⟩ := exists_blanks_around h
    rw [hwrap]
    cases lead with
    | nil =>
      have hbare : isBare t.head? = true := by
        rw [ht, List.nil_append, List.head?_append_of_ne_nil _ h]
        exact isBare_head?_trim h
      rw [hbare, List.nil_append, List.append_assoc, List.append_assoc,
        List.head?_append_of_ne_nil _ hmarker]
      rfl
    | cons b lead =>
      have hb : t.head? = some b := by rw [ht]; rfl
      have hbare : isBare t.head? = false := by simp [hb, isBare, hlead b]
      rw [hbare, hb]
      rfl

/-- Between markers, content ends with the marker, or with the white space it ends with. -/
theorem getLast?_wrap {marker : Text} (hmarker : marker ≠ []) (t : Text) :
    (wrap marker t).getLast? = if isBare t.getLast? then marker.getLast? else t.getLast? := by
  by_cases h : Text.trim t = []
  · have hblank := trim_eq_nil_iff.mp h
    rw [wrap_of_trim_eq_nil h, isBare_eq_false fun c hc => hblank c (List.mem_of_getLast? hc)]
    rfl
  · obtain ⟨lead, trail, -, htrail, ht, hwrap⟩ := exists_blanks_around h
    rw [hwrap]
    cases trail using List.reverseRecOn with
    | nil =>
      have hbare : isBare t.getLast? = true := by
        rw [ht, List.append_nil, List.getLast?_append_of_ne_nil _ h]
        exact isBare_getLast?_trim h
      rw [hbare, List.append_nil, List.getLast?_append_of_ne_nil _ hmarker]
      rfl
    | append_singleton trail b =>
      have hb : t.getLast? = some b := by rw [ht]; simp
      have hbare : isBare t.getLast? = false := by simp [hb, isBare, htrail b]
      rw [hbare, hb]
      simp

/-! ## Code spans -/

/-- A text that starts with a backtick has a run of them. -/
theorem longestRun_cons_ne_zero (t : Text) : longestRun '`' ('`' :: t) ≠ 0 := by
  have hone := le_longestRun_of_infix (n := 1)
    ((List.singleton_infix_iff '`' ('`' :: t)).mpr List.mem_cons_self)
  omega

theorem onOneLine_eq_nil_iff : onOneLine t = [] ↔ t = [] := by
  rw [onOneLine, List.map_eq_nil_iff]
  fun_induction Text.normalizeLineEnds t <;> simp

theorem exists_body_of_spanDelimiter (h : t ≠ []) :
    ∃ n body, spanDelimiter ['`'] t = (body, List.replicate (n + 1) '`') ∧
      ∃ c ∈ body, c ≠ '`' := by
  have hmixed : (∃ c ∈ t, c ≠ '`') ∨ ∃ rest, t = '`' :: rest := by
    cases t with
    | nil => exact absurd rfl h
    | cons c rest =>
      by_cases hc : c = '`'
      · exact .inr ⟨rest, by rw [hc]⟩
      · exact .inl ⟨c, by simp, hc⟩
  simp only [spanDelimiter, longestRunOf, Text.repeated, List.flatten_replicate_singleton]
  by_cases hrun : longestRun '`' t = 0
  · rw [if_pos hrun]
    refine ⟨0, t, rfl, ?_⟩
    rcases hmixed with hmixed | ⟨rest, rfl⟩
    · exact hmixed
    · exact absurd hrun (longestRun_cons_ne_zero rest)
  · rw [if_neg hrun]
    refine ⟨_, _, rfl, ?_⟩
    split
    · exact ⟨' ', by simp, by decide⟩
    · rename_i htouches
      rcases hmixed with hmixed | ⟨rest, rfl⟩
      · exact hmixed
      · simp at htouches

/-- The body of a code span holds something else than its delimiter. -/
theorem exists_body_of_codeSpan (h : t ≠ []) :
    ∃ n body, codeSpan t = List.replicate (n + 1) '`' ++ body ++ List.replicate (n + 1) '`' ∧
      ∃ c ∈ body, c ≠ '`' := by
  have hline : onOneLine t ≠ [] := mt onOneLine_eq_nil_iff.mp h
  obtain ⟨n, body, hspan, c, hc, hne⟩ := exists_body_of_spanDelimiter hline
  simp only [codeSpan, hspan]
  rw [if_neg (by simpa using hline)]
  split
  · exact ⟨n, _, rfl, c, by simp [hc], hne⟩
  · exact ⟨n, body, rfl, c, hc, hne⟩

theorem codeSpan_nil : codeSpan [] = [] := by decide

theorem ends_of_codeSpan (h : t ≠ []) :
    (codeSpan t).head? = some '`' ∧ (codeSpan t).getLast? = some '`' := by
  obtain ⟨width, body, hspan, -⟩ := exists_body_of_codeSpan h
  rw [hspan]
  constructor
  · rw [List.replicate_succ]
    rfl
  · rw [List.replicate_succ', ← List.append_assoc, List.getLast?_concat]

/-! ## Delimiters -/

/-- The character of which the delimiters of a node consist, if it has delimiters. Where emphasis
touches a word it is the asterisk. -/
def delimiterMark (o : Options) (touched : Bool) : Node → Option Char
  | .emphasis .. => some (if touched then '*' else o.emphasisMarker.char)
  | .strong .. => some (if touched then '*' else o.strongMarker.char)
  | .strikethrough .. => some '~'
  | .code .. => some '`'
  | _ => none

/-- The number of characters before the content of a node: of its delimiter, or of the bracket of a
link. -/
def openingWidth : Node → Nat
  | .emphasis .. | .link .. => 1
  | .strong .. | .strikethrough .. => 2
  | _ => 0

/-- The characters that delimiters consist of. -/
def delimiterMarks : List Char := ['*', '_', '~', '`']

theorem stress_mem (touched : Bool) (m : Stress) :
    (if touched then '*' else m.char) ∈ ['*', '_'] := by
  cases touched <;> cases m <;> decide

theorem stress_subset_delimiterMarks : ['*', '_'] ⊆ delimiterMarks := by
  decide

theorem stress_mem_delimiterMarks (touched : Bool) (m : Stress) :
    (if touched then '*' else m.char) ∈ delimiterMarks :=
  stress_subset_delimiterMarks (stress_mem touched m)

/-- The characters of which the delimiters of a node can consist. -/
def delimiterChars : Node → List Char
  | .emphasis .. | .strong .. => ['*', '_']
  | .strikethrough .. => ['~']
  | .code .. => ['`']
  | _ => []

theorem mem_delimiterChars {o : Options} {touched : Bool} {n : Node}
    (h : delimiterMark o touched n = some c) :
    c ∈ delimiterChars n ∧ delimiterMark o false n ≠ none := by
  cases n with
  | emphasis | strong =>
    obtain rfl := Option.some.inj h
    exact ⟨stress_mem touched _, nofun⟩
  | strikethrough | code =>
    obtain rfl := Option.some.inj h
    exact ⟨List.mem_singleton_self _, nofun⟩
  | _ => cases h

theorem of_mem_delimiterChars {o : Options} {n : Node} (h : c ∈ delimiterChars n) :
    c ∈ delimiterMarks ∧ delimiterMark o false n ≠ none := by
  cases n with
  | emphasis | strong => exact ⟨stress_subset_delimiterMarks h, nofun⟩
  | strikethrough | code =>
    obtain rfl := List.mem_singleton.mp h
    exact ⟨by decide, nofun⟩
  | _ => cases h

theorem delimiterMark_mem {o : Options} {touched : Bool} {n : Node}
    (h : delimiterMark o touched n = some c) : c ∈ delimiterMarks :=
  (of_mem_delimiterChars (o := o) (mem_delimiterChars h).1).1

/-- A delimiter is neither white space nor a letter or numeral. -/
theorem of_mem_delimiterMarks (h : c ∈ delimiterMarks) :
    isBare (some c) = true ∧ isWordBeside (some c) = false := by
  simp only [delimiterMarks, List.mem_cons, List.not_mem_nil, or_false] at h
  rcases h with rfl | rfl | rfl | rfl <;> decide +kernel

/-- A text of marks around content has white space at its ends where the content has. -/
theorem ends_of_wrap {mark : Char} (hmark : isBare (some mark) = true) (width : Nat)
    (inner : Text) :
    let t := wrap (List.replicate (width + 1) mark) inner
    isBare t.head? = isBare inner.head? ∧ isBare t.getLast? = isBare inner.getLast? ∧
      (isBare t.head? = true → t.head? = some mark) ∧
      (isBare t.getLast? = true → t.getLast? = some mark) := by
  intro t
  have hne : List.replicate (width + 1) mark ≠ [] := by simp
  have hhead : t.head? = if isBare inner.head? then some mark else inner.head? :=
    head?_wrap hne inner
  have hlast : t.getLast? = if isBare inner.getLast? then some mark else inner.getLast? := by
    rw [getLast?_wrap hne inner, List.replicate_succ', List.getLast?_concat]
  refine ⟨?_, ?_, ?_, ?_⟩
  · rw [hhead]
    split <;> simp [*]
  · rw [hlast]
    split <;> simp [*]
  · rw [hhead]
    split <;> simp [*]
  · rw [hlast]
    split <;> simp [*]

/-- **Emphasis between its neighbours**: where its delimiter touches a word on either side, both
delimiters are of asterisks. -/
theorem settled_stressed_eq (o : Options) (m : Stress) (width : Nat) (inner : Text)
    (previous : Option Char) (following : Option Fragment) :
    (stressed m (width + 1) inner).settled o previous following =
      wrap (List.replicate (width + 1)
        (if (isBare inner.head? && isWordBeside previous)
            || (isBare inner.getLast? && isWordBeside (following.bind fun f => f.text.head?))
          then '*' else m.char)) inner := by
  cases m with
  | star =>
    simp only [stressed, Fragment.settled, Stress.char, ite_self]
    exact ite_self _
  | underscore =>
    have hbare : isBare (some '_') = true := by decide +kernel
    obtain ⟨hheads, hlasts, hmark, hmark'⟩ := ends_of_wrap hbare width inner
    have hhead : ((wrap (List.replicate (width + 1) '_') inner).head? = some '_') ↔
        isBare inner.head? = true :=
      ⟨fun h => by rw [← hheads, h, hbare], fun h => hmark (hheads.trans h)⟩
    have hlast : ((wrap (List.replicate (width + 1) '_') inner).getLast? = some '_') ↔
        isBare inner.getLast? = true :=
      ⟨fun h => by rw [← hlasts, h, hbare], fun h => hmark' (hlasts.trans h)⟩
    simp only [stressed, Fragment.settled, touchesWord, Stress.char, hhead, hlast,
      Bool.decide_eq_true]
    split <;> rfl

/-! ## The ends of parts -/

section Ends

variable {o : Options} {marker : Text} {n : Node} {previous : Option Char} {following : Option Node}

/-- A styled node is its content between delimiters. -/
theorem exists_wrap_of_styled {content : List Node} {m : Metadata}
    (h : n = .emphasis content m ∨ n = .strong content m ∨ n = .strikethrough content m) :
    let inner := joinFragments o (fragments o marker content)
    let next := (following.map (fragment o { marker })).bind fun f => f.text.head?
    ∃ width mark, openingWidth n = width + 1 ∧
      delimiterMark o ((isBare inner.head? && isWordBeside previous)
        || (isBare inner.getLast? && isWordBeside next)) n = some mark ∧
      partText o marker previous n following = wrap (List.replicate (width + 1) mark) inner := by
  intro inner next
  rcases h with rfl | rfl | rfl
  · refine ⟨0, _, rfl, rfl, ?_⟩
    rw [partText, fragment]
    exact settled_stressed_eq o o.emphasisMarker 0 inner previous _
  · refine ⟨1, _, rfl, rfl, ?_⟩
    rw [partText, fragment]
    exact settled_stressed_eq o o.strongMarker 1 inner previous _
  · refine ⟨1, _, rfl, rfl, ?_⟩
    rw [partText, fragment]
    rfl

/-- **A node with delimiters shows its mark at both ends**, but where white space comes before it.
A word beside the part decides which mark that is. -/
theorem ends_of_delimiterMark (h : delimiterMark o false n ≠ none) :
    let t := partText o marker previous n following
    let next := (following.map (fragment o { marker })).bind fun f => f.text.head?
    ∃ mark, delimiterMark o ((isBare t.head? && isWordBeside previous)
        || (isBare t.getLast? && isWordBeside next)) n = some mark ∧
      (isBare t.head? = true → t.head? = some mark) ∧
      (isBare t.getLast? = true → t.getLast? = some mark) := by
  intro t next
  have hstyled : ∀ content m,
      n = .emphasis content m ∨ n = .strong content m ∨ n = .strikethrough content m →
      ∃ mark, delimiterMark o ((isBare t.head? && isWordBeside previous)
          || (isBare t.getLast? && isWordBeside next)) n = some mark ∧
        (isBare t.head? = true → t.head? = some mark) ∧
        (isBare t.getLast? = true → t.getLast? = some mark) := by
    intro content m hn
    obtain ⟨width, mark, -, hmark, ht : t = _⟩ := exists_wrap_of_styled hn
    obtain ⟨hhead, hlast, hends⟩ := ends_of_wrap
      (of_mem_delimiterMarks (delimiterMark_mem hmark)).1 width
      (joinFragments o (fragments o marker content))
    rw [← ht] at hhead hlast hends
    refine ⟨mark, ?_, hends⟩
    rw [hhead, hlast]
    exact hmark
  cases n with
  | emphasis content m => exact hstyled content m (.inl rfl)
  | strong content m => exact hstyled content m (.inr (.inl rfl))
  | strikethrough content m => exact hstyled content m (.inr (.inr rfl))
  | code content m =>
    refine ⟨'`', rfl, ?_⟩
    change (isBare (codeSpan content.toList).head? = true → (codeSpan content.toList).head? = _) ∧
      (isBare (codeSpan content.toList).getLast? = true → (codeSpan content.toList).getLast? = _)
    by_cases hempty : content.toList = []
    · rw [hempty, codeSpan_nil]
      exact ⟨nofun, nofun⟩
    · exact (ends_of_codeSpan hempty).imp (fun hhead _ => hhead) fun hlast _ => hlast
  | _ => exact absurd rfl h

/-- Escaped text does not start with a delimiter. -/
theorem head?_escapeText_not_mem (h : (escapeText t).head? = some c) : c ∉ delimiterMarks := by
  cases t with
  | nil => cases h
  | cons d t =>
    rw [escapeText, escapeTextAfter] at h
    split at h
    · obtain rfl := Option.some.inj h
      decide
    · rename_i hd
      obtain rfl : d = c := Option.some.inj h
      intro hmark
      simp only [delimiterMarks, List.mem_cons, List.not_mem_nil, or_false] at hmark
      rcases hmark with rfl | rfl | rfl | rfl <;>
        exact hd (by simp [needsEscape, isAlwaysEscaped, isWordBeside])

/-- Before a link, the exclamation mark at the end of text is escaped. -/
theorem settled_text_cases (o : Options) (previous : Option Char) (t : Text)
    (following : Option Fragment) :
    (⟨t, .text⟩ : Fragment).settled o previous following = t ∨
      ∃ init, t = init ++ ['!'] ∧
        (⟨t, .text⟩ : Fragment).settled o previous following = init ++ ['\\', '!'] := by
  simp only [Fragment.settled]
  split
  · rename_i hbang
    simp only [Bool.and_eq_true, decide_eq_true_eq] at hbang
    exact .inr ⟨t.dropLast, (List.dropLast_append_getLast? '!' hbang.2).symm, rfl⟩
  · exact .inl rfl

/-- **A node without delimiters does not start with one**, where text is escaped. -/
theorem head?_not_mem_of_delimiterMark (hescape : o.escapeSpecial = true)
    (hinline : n.isInline = true) (h : delimiterMark o false n = none)
    (hc : (partText o marker previous n following).head? = some c) : c ∉ delimiterMarks := by
  cases n with
  | text content m =>
    rw [partText, fragment, literal, if_pos hescape] at hc
    rcases settled_text_cases o previous (escapeText (Text.collapseBlanks content.toList))
      (following.map (fragment o { marker })) with heq | ⟨init, ht, heq⟩
    · rw [heq] at hc
      exact head?_escapeText_not_mem hc
    · rw [heq] at hc
      cases init with
      | nil =>
        obtain rfl := Option.some.inj hc
        decide
      | cons d init =>
        obtain rfl := Option.some.inj hc
        exact head?_escapeText_not_mem (congrArg List.head? ht)
  | link | image =>
    rw [partText, fragment] at hc
    obtain rfl := Option.some.inj hc
    decide
  | emphasis | strong | strikethrough | code => cases h
  | _ => cases hinline

/-- The neighbours leave nothing of a node just where nothing was written of it. -/
theorem partText_eq_nil_iff :
    partText o marker previous n following = [] ↔ (fragment o { marker } n).text = [] := by
  cases n with
  | emphasis content m | strong content m =>
    rw [partText, fragment, settled_stressed_eq, stressed, wrap_eq_nil_iff, wrap_eq_nil_iff]
  | text content m =>
    rw [partText, fragment]
    rcases settled_text_cases o previous (literal o content.toList)
      (following.map (fragment o { marker })) with heq | ⟨init, ht, heq⟩
    · rw [heq]
    · rw [heq, ht]
      simp
  | _ => exact Iff.rfl

/-- What the neighbours change about a part does not matter to a word beside it. -/
theorem isWordBeside_head?_partText :
    isWordBeside (partText o marker previous n following).head? =
      isWordBeside (fragment o { marker } n).text.head? := by
  have hstress : ∀ (width : Nat) (m : Stress) (inner : Text),
      isWordBeside ((stressed m (width + 1) inner).settled o previous
        (following.map (fragment o { marker }))).head? =
      isWordBeside (stressed m (width + 1) inner).text.head? := by
    intro width m inner
    have hne : ∀ d : Char, List.replicate (width + 1) d ≠ [] := by simp
    rw [settled_stressed_eq, stressed, head?_wrap (hne _), head?_wrap (hne _)]
    split
    · exact (of_mem_delimiterMarks (stress_mem_delimiterMarks _ m)).2.trans
        (of_mem_delimiterMarks (stress_mem_delimiterMarks false m)).2.symm
    · rfl
  cases n with
  | emphasis content m =>
    rw [partText, fragment]
    exact hstress 0 _ _
  | strong content m =>
    rw [partText, fragment]
    exact hstress 1 _ _
  | text content m =>
    rw [partText, fragment]
    rcases settled_text_cases o previous (literal o content.toList)
      (following.map (fragment o { marker })) with heq | ⟨init, ht, heq⟩
    · rw [heq]
    · rw [heq, ht]
      cases init with
      | nil => decide +kernel
      | cons => rfl
  | _ =>
    rw [partText, fragment]
    rfl

/-- No part is empty. -/
theorem ne_nil_of_mem_parts {ns : List Node} {p : Node × Text} (h : p ∈ parts o marker ns) :
    p.2 ≠ [] := by
  obtain ⟨before, after, happend⟩ := List.append_of_mem h
  rw [(part_eq_append happend).1, ne_eq, partText_eq_nil_iff]
  simpa using (List.mem_filter.mp (List.of_mem_zip h).1).2

/-- Before a part stands the last character of all that is before it. -/
theorem lastChar_eq_getLast?_flatten {ts : List Text} (h : ∀ t ∈ ts, t ≠ []) :
    lastChar previous ts = ts.flatten.getLast?.or previous := by
  induction ts generalizing previous with
  | nil => rfl
  | cons t ts ih =>
    rw [List.forall_mem_cons] at h
    rw [lastChar, ih h.2, List.flatten_cons, List.getLast?_append, Option.or_assoc,
      List.getLast?_eq_some_getLast h.1, Option.some_or]

end Ends

end DocumentTree.Markdown
