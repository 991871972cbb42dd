import DocumentTree.Proofs.Document.Grammatical
import DocumentTree.Proofs.Markdown.Parts
import DocumentTree.Proofs.Markdown.Seams

/-!
# No link is turned into an image

To a reader, an exclamation mark before the bracket of a link makes an image of it, unless the mark
is escaped. Of the parts of inline content only text can end in an exclamation mark: what has
delimiters ends with them or with white space, and links and images with a parenthesis. Text right
before a link, with nothing but empty nodes between, has its last exclamation mark escaped.

The escape is put in behind the escapes of the text. It is one because each part ends in an even
number of backslashes, so that a backslash at the end of one part is never the first half of an
escape that goes on in the next.

## Main definitions

* `OpensImage before` — a bracket behind the text is that of an image.
* `StandsAt u k t` — a text stands in another one at an offset, and nothing makes an image of it.
* `nodeAt? ns i path` — the node that a path leads to from some siblings.
* `offset o marker ns i path` — where the text of that node starts in the whole.
-/

namespace DocumentTree.Markdown

open Text (isBlank)

variable {o : Options} {marker t u : Text} {c : Char} {n : Node} {ns : List Node} {i : Nat}
  {previous : Option Char} {following : Option Node}

/-! ## Exclamation marks before a bracket -/

/-- A text ends in an exclamation mark that is not escaped: it stands behind an even number of
backslashes. -/
def OpensImage (before : Text) : Prop :=
  ∃ init, before = init ++ ['!'] ∧ Even (trailingBackslashes init)

theorem not_opensImage_nil : ¬ OpensImage [] := by
  rintro ⟨init, h, -⟩
  simp at h

theorem opensImage_concat : OpensImage (t ++ [c]) ↔ c = '!' ∧ Even (trailingBackslashes t) := by
  simp only [OpensImage, List.append_singleton_inj]
  constructor
  · rintro ⟨init, ⟨rfl, rfl⟩, heven⟩
    exact ⟨rfl, heven⟩
  · rintro ⟨rfl, heven⟩
    exact ⟨t, ⟨rfl, rfl⟩, heven⟩

/-- Behind a text that ends in an even number of backslashes, the end of another one means the
same. -/
theorem opensImage_append (hu : Even (trailingBackslashes u)) (ht : t ≠ []) :
    OpensImage (u ++ t) ↔ OpensImage t := by
  cases t using List.reverseRecOn with
  | nil => exact absurd rfl ht
  | append_singleton t c =>
    rw [← List.append_assoc, opensImage_concat, opensImage_concat,
      even_trailingBackslashes_append t hu]

theorem even_trailingBackslashes_of_getLast? (ht : t.getLast? = some c) (hc : c ≠ '\\') :
    Even (trailingBackslashes t) := by
  obtain ⟨init, rfl⟩ := List.getLast?_eq_some_iff.mp ht
  simp [trailingBackslashes, hc]

/-- A character that is no part of an exclamation mark or its escape shuts off what is before it. -/
theorem not_opensImage_append (hu : u.getLast? = some c) (hc : c ≠ '\\' ∧ c ≠ '!')
    (ht : ¬ OpensImage t) : ¬ OpensImage (u ++ t) := by
  by_cases hempty : t = []
  · obtain ⟨init, rfl⟩ := List.getLast?_eq_some_iff.mp hu
    rw [hempty, List.append_nil, opensImage_concat]
    exact fun h => hc.2 h.1
  · rwa [opensImage_append (even_trailingBackslashes_of_getLast? hu hc.1) hempty]

theorem even_trailingBackslashes_of_blanks (ht : ∀ b ∈ t, isBlank b = true) :
    Even (trailingBackslashes t) := by
  cases hlast : t.getLast? with
  | none =>
    rw [List.getLast?_eq_none_iff.mp hlast]
    decide
  | some c =>
    refine even_trailingBackslashes_of_getLast? hlast ?_
    rintro rfl
    exact absurd (ht '\\' (List.mem_of_getLast? hlast)) (by decide)

theorem ne_of_mem_delimiterMarks (hc : c ∈ delimiterMarks) : c ≠ '\\' ∧ c ≠ '!' := by
  constructor <;> rintro rfl <;> exact absurd hc (by decide)

/-! ## Backslashes at the end of parts -/

theorem Escapes.even_trailingBackslashes {raw : Text} (h : Escapes raw t) :
    Even (trailingBackslashes t) := by
  induction h with
  | nil => decide
  | plain hc _ ih =>
    exact (even_trailingBackslashes_append _ (even_trailingBackslashes_singleton hc)).mpr ih
  | @escaped c _ t _ _ ih =>
    exact (even_trailingBackslashes_append t (even_trailingBackslashes_escape c)).mpr ih

/-- An exclamation mark at the end of escaped text is none that has been escaped already. -/
theorem even_trailingBackslashes_of_concat {init : Text}
    (h : escapeTextAfter previous t = init ++ ['!']) : Even (trailingBackslashes init) := by
  induction t generalizing previous init with
  | nil => simp [escapeTextAfter] at h
  | cons c t ih =>
    rw [escapeTextAfter] at h
    split at h
    · rename_i hneeds
      rcases init with _ | ⟨b, _ | ⟨b', init⟩⟩
      · exact absurd (List.cons.inj h).1 (by decide)
      · obtain rfl : c = '!' := (List.cons.inj (List.cons.inj h).2).1
        simp [needsEscape, isAlwaysEscaped] at hneeds
      · rw [List.cons_append, List.cons_append, List.cons.injEq, List.cons.injEq] at h
        obtain ⟨rfl, rfl, hrest⟩ := h
        exact (even_trailingBackslashes_append init (even_trailingBackslashes_escape c)).mpr
          (ih hrest)
    · rename_i hneeds
      have hc : c ≠ '\\' := by
        rintro rfl
        exact hneeds (by simp [needsEscape, isAlwaysEscaped])
      cases init with
      | nil => decide
      | cons b init =>
        obtain ⟨rfl, hrest⟩ := List.cons.inj h
        exact (even_trailingBackslashes_append init (even_trailingBackslashes_singleton hc)).mpr
          (ih hrest)

/-- An inline node that is no text ends in neither a backslash nor an exclamation mark. -/
theorem last_of_partText (hinline : n.isInline = true) (hn : ∀ content m, n ≠ .text content m)
    (hc : (partText o marker previous n following).getLast? = some c) : c ≠ '\\' ∧ c ≠ '!' := by
  have hdelimited : delimiterMark o false n ≠ none → c ≠ '\\' ∧ c ≠ '!' := by
    intro hmarked
    obtain ⟨mark, hmark, -, hlast⟩ :=
      @ends_of_delimiterMark o marker n previous following hmarked
    rw [hc] at hlast
    by_cases hbare : isBare (some c) = true
    · obtain rfl : c = mark := Option.some.inj (hlast hbare)
      exact ne_of_mem_delimiterMarks (delimiterMark_mem hmark)
    · constructor <;> rintro rfl <;> exact hbare (by decide)
  cases n with
  | emphasis | strong | strikethrough | code => exact hdelimited nofun
  | link | image =>
    rw [partText, fragment, Fragment.settled, target, ← List.append_assoc,
      List.getLast?_concat] at hc
    obtain rfl := Option.some.inj hc
    decide
  | text content m => exact absurd rfl (hn content m)
  | _ => cases hinline

/-- **Each part ends in an even number of backslashes**, where text is escaped. -/
theorem even_trailingBackslashes_partText (hescape : o.escapeSpecial = true)
    (hinline : n.isInline = true) :
    Even (trailingBackslashes (partText o marker previous n following)) := by
  by_cases htext : ∃ content m, n = .text content m
  · obtain ⟨content, m, rfl⟩ := htext
    rw [partText, fragment, literal, if_pos hescape]
    rcases settled_text_cases o previous (escapeText (Text.collapseBlanks content.toList))
      (following.map (fragment o { marker })) with heq | ⟨init, -, heq⟩
    · rw [heq]
      exact (escapes_escapeText _).even_trailingBackslashes
    · rw [heq]
      exact even_trailingBackslashes_of_getLast? (c := '!') (by simp) (by decide)
  · cases hlast : (partText o marker previous n following).getLast? with
    | none =>
      rw [List.getLast?_eq_none_iff.mp hlast]
      decide
    | some c =>
      have hc := last_of_partText hinline (fun content m h => htext ⟨content, m, h⟩) hlast
      exact even_trailingBackslashes_of_getLast? hlast hc.1

/-- Inline content up to the end of one of its parts ends in an even number of backslashes. -/
theorem even_trailingBackslashes_flatten (hescape : o.escapeSpecial = true)
    (hinline : ∀ n ∈ ns, n.isInline = true) {before after : List (Node × Text)}
    (h : parts o marker ns = before ++ after) :
    Even (trailingBackslashes (before.map Prod.snd).flatten) := by
  induction before using List.reverseRecOn generalizing after with
  | nil => decide
  | append_singleton before p ih =>
    obtain ⟨n, t⟩ := p
    rw [List.append_assoc, List.singleton_append] at h
    have hn : n.isInline = true := hinline n (mem_of_mem_parts (p := (n, t)) (by rw [h]; simp))
    rw [List.map_append, List.flatten_append, List.map_singleton, List.flatten_singleton,
      even_trailingBackslashes_append _ (ih h), (part_eq_append h).1]
    exact even_trailingBackslashes_partText hescape hn

/-! ## The part before a link -/

/-- Before a link, an exclamation mark at the end of text is escaped. -/
theorem settled_text_before_link (hescape : o.escapeSpecial = true) {f : Fragment}
    (hf : f.isLink = true) (t : Text) :
    (⟨t, .text⟩ : Fragment).settled o previous (some f) =
      if t.getLast? = some '!' then t.dropLast ++ ['\\', '!'] else t := by
  simp [Fragment.settled, hescape, hf]

section Link

variable {url : String} {content : List Node} {title : Option String} {metadata : Metadata}

/-- The part before a link does not make an image of it. -/
theorem not_opensImage_partText (hescape : o.escapeSpecial = true) (hinline : n.isInline = true) :
    ¬ OpensImage (partText o marker previous n (some (.link url content title metadata))) := by
  by_cases htext : ∃ content m, n = .text content m
  · obtain ⟨content, m, rfl⟩ := htext
    rw [partText, fragment, literal, if_pos hescape, Option.map_some,
      settled_text_before_link hescape (by rw [fragment]; rfl)]
    split
    · rename_i hlast
      obtain ⟨init, hinit⟩ := List.getLast?_eq_some_iff.mp hlast
      have heven := even_trailingBackslashes_of_concat hinit
      rw [hinit, List.dropLast_concat, List.append_cons, opensImage_concat,
        even_trailingBackslashes_append _ heven]
      decide
    · rename_i hlast
      rintro ⟨init, hinit, -⟩
      exact hlast (by rw [hinit, List.getLast?_concat])
  · rintro ⟨init, hinit, -⟩
    have hlast := last_of_partText (c := '!') hinline (fun content m h => htext ⟨content, m, h⟩)
      (by rw [hinit, List.getLast?_concat])
    exact hlast.2 rfl

/-- **What is before a link among its siblings does not make an image of it.** -/
theorem not_opensImage_before_link (hescape : o.escapeSpecial = true)
    (hinline : ∀ n ∈ ns, n.isInline = true) {before after : List (Node × Text)}
    (h : parts o marker ns = before ++ (.link url content title metadata, t) :: after) :
    ¬ OpensImage (before.map Prod.snd).flatten := by
  cases before using List.reverseRecOn with
  | nil => exact not_opensImage_nil
  | append_singleton before p =>
    obtain ⟨n, u⟩ := p
    rw [List.append_assoc, List.singleton_append] at h
    have hu := (parts_eq_append h).1
    have hmem : (n, u) ∈ parts o marker ns := by simp [h]
    rw [List.map_append, List.flatten_append, List.map_singleton, List.flatten_singleton,
      opensImage_append (even_trailingBackslashes_flatten hescape hinline h)
        (ne_nil_of_mem_parts hmem), hu]
    exact not_opensImage_partText hescape (hinline n (mem_of_mem_parts hmem))

end Link

/-! ## Places of nodes -/

/-- The node that a path leads to: the node at an index among some siblings, or at a path among the
nodes directly below it. -/
def nodeAt? (ns : List Node) (i : Nat) : List Nat → Option Node
  | [] => ns[i]?
  | j :: path => ns[i]?.bind fun n => nodeAt? n.children j path

/-- What is written of the siblings before an index. -/
def textBefore (o : Options) (marker : Text) (ns : List Node) (i : Nat) : Text :=
  (((parts o marker ns).take ((ns.take i).countP (isVisible o marker))).map Prod.snd).flatten

/-- Where the text of the node at a path starts: behind its siblings, and behind what opens the
nodes above it. -/
def offset (o : Options) (marker : Text) (ns : List Node) (i : Nat) : List Nat → Nat
  | [] => (textBefore o marker ns i).length
  | j :: path => (textBefore o marker ns i).length +
      ns[i]?.elim 0 fun n => openingWidth n + offset o marker n.children j path

/-- A node that is written as something has a part at its place among its siblings. -/
theorem exists_part (h : ns[i]? = some n) (hn : isVisible o marker n = true) :
    ∃ before t after, parts o marker ns = before ++ (n, t) :: after ∧
      textBefore o marker ns i = (before.map Prod.snd).flatten := by
  have hsplit : ns = ns.take i ++ n :: ns.drop (i + 1) := by
    obtain ⟨hi, rfl⟩ := List.getElem?_eq_some_iff.mp h
    rw [List.getElem_cons_drop, List.take_append_drop]
  have hnodes : (parts o marker ns).map Prod.fst = (ns.take i).filter (isVisible o marker) ++
      n :: (ns.drop (i + 1)).filter (isVisible o marker) := calc
    (parts o marker ns).map Prod.fst = ns.filter (isVisible o marker) := by
      rw [parts, List.map_fst_zip (by simp)]
      rfl
    _ = _ := by
      conv_lhs => rw [hsplit]
      rw [List.filter_append, List.filter_cons_of_pos hn]
  obtain ⟨before, rest, hparts, hbefore, hrest⟩ := List.map_eq_append_iff.mp hnodes
  obtain ⟨⟨_, t⟩, after, rfl, rfl, -⟩ := List.map_eq_cons_iff.mp hrest
  refine ⟨before, t, after, hparts, ?_⟩
  have hlength : before.length = (ns.take i).countP (isVisible o marker) := by
    rw [List.countP_eq_length_filter, ← hbefore, List.length_map]
  rw [textBefore, hparts, ← hlength, List.take_left]

/-! ## Content inside a node -/

/-- White space at the start of a text lies before what starts with no white space. -/
theorem exists_of_blanks_append {lead rest before : Text} (h : lead ++ rest = before ++ u)
    (hlead : ∀ b ∈ lead, isBlank b = true) (hu : isBare u.head? = true) :
    ∃ left, before = lead ++ left ∧ rest = left ++ u := by
  rcases List.append_eq_append_iff.mp h with ⟨left, rfl, hrest⟩ | ⟨extra, rfl, rfl⟩
  · exact ⟨left, rfl, hrest⟩
  · cases extra with
    | nil => exact ⟨[], by simp, by simp⟩
    | cons b extra => simp [isBare, hlead b] at hu

/-- White space at the end of a text lies behind what ends in no white space. -/
theorem exists_of_append_blanks {rest trail behind : Text} (h : rest ++ trail = u ++ behind)
    (htrail : ∀ b ∈ trail, isBlank b = true) (hu : isBare u.getLast? = true) :
    ∃ right, behind = right ++ trail ∧ rest = u ++ right := by
  rcases List.append_eq_append_iff.mp h with ⟨extra, rfl, rfl⟩ | ⟨right, hrest, rfl⟩
  · cases extra using List.reverseRecOn with
    | nil => exact ⟨[], by simp, by simp⟩
    | append_singleton extra b =>
      rw [← List.append_assoc, List.getLast?_concat] at hu
      simp [isBare, htrail b] at hu
  · exact ⟨right, rfl, hrest⟩

/-- Marks around content leave what stands in it in one piece, and go between the white space at its
ends and the rest. -/
theorem exists_wrap_eq {before behind : Text} (ht : t = before ++ u ++ behind)
    (hhead : isBare u.head? = true) (hlast : isBare u.getLast? = true) :
    ∃ lead left right trail, before = lead ++ left ∧ behind = right ++ trail ∧
      (∀ b ∈ lead, isBlank b = true) ∧
      ∀ marks, wrap marks t = lead ++ marks ++ left ++ u ++ (right ++ marks ++ trail) := by
  obtain ⟨c, rest, rfl⟩ : ∃ c rest, u = c :: rest := by
    cases u with
    | nil => cases hhead
    | cons c rest => exact ⟨c, rest, rfl⟩
  have hcore : Text.trim t ≠ [] := by
    intro hblank
    have hc := trim_eq_nil_iff.mp hblank c (by simp [ht])
    simp [isBare, hc] at hhead
  obtain ⟨lead, trail, hlead, htrail, hsplit, hwrap⟩ := exists_blanks_around hcore
  obtain ⟨left, rfl, hrest⟩ : ∃ left, before = lead ++ left ∧
      Text.trim t ++ trail = left ++ (c :: rest ++ behind) :=
    exists_of_blanks_append (by rw [← List.append_assoc, ← hsplit, ht, List.append_assoc]) hlead
      hhead
  obtain ⟨right, rfl, hmiddle⟩ : ∃ right, behind = right ++ trail ∧
      Text.trim t = left ++ c :: rest ++ right :=
    exists_of_append_blanks (by rw [hrest, List.append_assoc]) htrail
      (by rwa [List.getLast?_append_of_ne_nil _ (by simp)])
  refine ⟨lead, left, right, trail, rfl, rfl, hlead, fun marks => ?_⟩
  rw [hwrap, hmiddle]
  simp

/-- A text stands in another one behind some number of characters, and these do not make an image of
it. -/
def StandsAt (u : Text) (k : Nat) (t : Text) : Prop :=
  ∃ before behind, t = before ++ u ++ behind ∧ before.length = k ∧ ¬ OpensImage before

theorem StandsAt.append {k : Nat} (h : StandsAt u k t) (v : Text) : StandsAt u k (t ++ v) := by
  obtain ⟨before, behind, rfl, hlength, hbefore⟩ := h
  exact ⟨before, behind ++ v, by simp, hlength, hbefore⟩

theorem StandsAt.ne_nil {k : Nat} (h : StandsAt u k t) (hu : isBare u.head? = true) : t ≠ [] := by
  obtain ⟨before, behind, rfl, -⟩ := h
  have hne : u ≠ [] := by
    rintro rfl
    cases hu
  simp [hne]

/-- What stands in styled content, and neither starts nor ends with white space, stands between the
delimiters, wherever the node stands. -/
theorem standsAt_styled {content : List Node} {d : Metadata}
    (hn : n = .emphasis content d ∨ n = .strong content d ∨ n = .strikethrough content d)
    (hhead : isBare u.head? = true) (hlast : isBare u.getLast? = true) {k : Nat}
    (h : StandsAt u k (joinFragments o (fragments o marker content))) (v : Text) :
    StandsAt u (v.length + (openingWidth n + k)) (v ++ partText o marker previous n following) := by
  obtain ⟨before, behind, hcontent, rfl, hbefore⟩ := h
  obtain ⟨width, mark, hwidth, hmark, hpart⟩ :=
    @exists_wrap_of_styled o marker n previous following content d hn
  obtain ⟨lead, left, right, trail, rfl, rfl, hlead, hwrap⟩ := exists_wrap_eq hcontent hhead hlast
  have hleft : ¬ OpensImage left := by
    by_cases hempty : left = []
    · rw [hempty]
      exact not_opensImage_nil
    · rwa [opensImage_append (even_trailingBackslashes_of_blanks hlead) hempty] at hbefore
  let marks := List.replicate (width + 1) mark
  have hend : (v ++ lead ++ marks).getLast? = some mark := by
    rw [List.getLast?_append_of_ne_nil _ (by simp [marks]), List.getLast?_replicate]
    simp
  refine ⟨v ++ lead ++ marks ++ left, right ++ marks ++ trail, ?_, ?_,
    not_opensImage_append hend (ne_of_mem_delimiterMarks (delimiterMark_mem hmark)) hleft⟩
  · rw [hpart, hwrap]
    simp [marks]
  · simp only [List.length_append, List.length_replicate, hwidth, marks]
    omega

/-- **Content inside a node.** What stands in the content of an inline node, and neither starts nor
ends with white space, stands in the text of the node, moved by what opens the node. -/
theorem standsAt_partText (hn : n.isInline = true) (hhead : isBare u.head? = true)
    (hlast : isBare u.getLast? = true) {k : Nat}
    (h : StandsAt u k (joinFragments o (fragments o marker n.children))) (v : Text) :
    StandsAt u (v.length + (openingWidth n + k)) (v ++ partText o marker previous n following) := by
  have hchildren : n.children ≠ [] := by
    intro hnone
    rw [hnone] at h
    exact h.ne_nil hhead rfl
  cases n with
  | emphasis content d => exact standsAt_styled (.inl rfl) hhead hlast h v
  | strong content d => exact standsAt_styled (.inr (.inl rfl)) hhead hlast h v
  | strikethrough content d => exact standsAt_styled (.inr (.inr rfl)) hhead hlast h v
  | link url content title d =>
    obtain ⟨before, behind, hcontent, rfl, hbefore⟩ := h
    have hinner : joinFragments o (fragments o marker content) = before ++ u ++ behind := hcontent
    refine ⟨v ++ ['['] ++ before, behind ++ ']' :: target url title, ?_, ?_,
      not_opensImage_append List.getLast?_concat (by decide) hbefore⟩
    · rw [partText, fragment, Fragment.settled, hinner]
      simp
    · simp only [List.length_append, List.length_singleton, openingWidth]
      omega
  | text | code | image => exact absurd rfl hchildren
  | _ => cases hn

/-- What stands in the content of a node among its siblings stands in the joined text, behind the
siblings before the node. -/
theorem standsAt_sibling (h : ns[i]? = some n) (hn : n.isInline = true)
    (hhead : isBare u.head? = true) (hlast : isBare u.getLast? = true) {k : Nat}
    (hinner : StandsAt u k (joinFragments o (fragments o marker n.children))) :
    StandsAt u ((textBefore o marker ns i).length + (openingWidth n + k))
      (joinFragments o (fragments o marker ns)) := by
  have hvisible : isVisible o marker n = true := by
    have hpart : partText o marker none n none ≠ [] :=
      (standsAt_partText hn hhead hlast hinner []).ne_nil hhead
    simpa [isVisible] using mt partText_eq_nil_iff.mpr hpart
  obtain ⟨before, t, after, hparts, hbefore⟩ := exists_part h hvisible
  have hjoined : joinFragments o (fragments o marker ns) =
      (before.map Prod.snd).flatten ++ t ++ (after.map Prod.snd).flatten := by
    simp [joinFragments_eq_parts, hparts]
  rw [hjoined, hbefore, (part_eq_append hparts).1]
  exact (standsAt_partText hn hhead hlast hinner _).append _

/-! ## Links at any depth -/

/-- What is directly below an inline node is inline content too. -/
theorem inline_children (hinline : n.isInline = true) (h : n.Grammatical) :
    ∀ child ∈ n.children, child.isInline = true ∧ child.Grammatical := by
  cases n with
  | emphasis | strong | strikethrough | link =>
    intro child hchild
    obtain ⟨hrunning, -, hgrammatical⟩ := Node.runningText_iff.mp h child hchild
    exact ⟨hrunning, hgrammatical⟩
  | text | code | image => nofun
  | _ => cases hinline

section Link

variable {url : String} {content : List Node} {title : Option String} {d : Metadata}

theorem text_of_link (o : Options) (marker : Text) :
    (fragment o { marker } (.link url content title d)).text =
      ['['] ++ joinFragments o (fragments o marker content) ++ [']'] ++ target url title := by
  simp only [fragment]

/-- A link starts with a bracket and ends with a parenthesis. -/
theorem ends_of_link (o : Options) (marker : Text) :
    let t := (fragment o { marker } (.link url content title d)).text
    isBare t.head? = true ∧ isBare t.getLast? = true := by
  intro t
  simp only [t, text_of_link, target]
  rw [← List.append_assoc, List.getLast?_concat]
  exact ⟨show isBare (some '[') = true by decide, by decide⟩

/-- A link among its siblings stands in the joined text behind the siblings before it. -/
theorem standsAt_textBefore (hescape : o.escapeSpecial = true)
    (hinline : ∀ n ∈ ns, n.isInline = true) (h : ns[i]? = some (.link url content title d)) :
    StandsAt (fragment o { marker } (.link url content title d)).text
      (textBefore o marker ns i).length (joinFragments o (fragments o marker ns)) := by
  have hvisible : isVisible o marker (.link url content title d) = true := by
    simp [isVisible, text_of_link]
  obtain ⟨before, t, after, hparts, hbefore⟩ := exists_part h hvisible
  have ht : t = (fragment o { marker } (.link url content title d)).text := by
    rw [(part_eq_append hparts).1]
    simp only [partText, fragment, Fragment.settled]
  rw [joinFragments_eq_parts, hparts, hbefore, ← ht]
  exact ⟨(before.map Prod.snd).flatten, (after.map Prod.snd).flatten, by simp, rfl,
    not_opensImage_before_link hescape hinline hparts⟩

/-- **No link is turned into an image.** A link at any depth of inline content, at whatever path of
indices, is found in the joined text at the offset of the path: its bracket, its content and its
target. What is before the bracket does not end in an exclamation mark that is not escaped. -/
theorem link_opens_no_image (hescape : o.escapeSpecial = true)
    (hns : ∀ n ∈ ns, n.isInline = true ∧ n.Grammatical) {path : List Nat}
    (hlink : nodeAt? ns i path = some (.link url content title d)) :
    ∃ before behind,
      joinFragments o (fragments o marker ns) =
        before ++ (['['] ++ joinFragments o (fragments o marker content) ++ [']'] ++
          target url title) ++ behind ∧
      before.length = offset o marker ns i path ∧ ¬ OpensImage before := by
  rw [← text_of_link (d := d)]
  obtain ⟨hhead, hlast⟩ := @ends_of_link url content title d o marker
  induction path generalizing ns i with
  | nil => exact standsAt_textBefore hescape (fun n hn => (hns n hn).1) hlink
  | cons j path ih =>
    obtain ⟨n, hn, hbelow⟩ := Option.bind_eq_some_iff.mp hlink
    obtain ⟨hinline, hgrammatical⟩ := hns n (List.mem_of_getElem? hn)
    have hinner : StandsAt (fragment o { marker } (.link url content title d)).text
        (offset o marker n.children j path) (joinFragments o (fragments o marker n.children)) :=
      ih (inline_children hinline hgrammatical) hbelow
    have hplace := standsAt_sibling hn hinline hhead hlast hinner
    rwa [offset, hn]

end Link

/-- A link in strong content in a link, with exclamation marks before both links and nodes without
text between. -/
def nestedLinks : List Node :=
  [.text "!", .emphasis [],
    .link "u" [.strong [.text "a \\!", .text "", .link "v" [.text "b"] none]] none]

theorem nested_link_opens_no_image :
    inline {} nestedLinks = "\\![**a \\\\\\![b](v)**](u)".toList ∧
    offset {} ['-'] nestedLinks 2 [0, 2] = 11 ∧ ¬ OpensImage "\\![**a \\\\\\!".toList := by
  have htext : inline {} nestedLinks = "\\![**a \\\\\\![b](v)**](u)".toList := by decide +kernel
  have hoffset : offset {} ['-'] nestedLinks 2 [0, 2] = 11 := by decide +kernel
  have hns : ∀ n ∈ nestedLinks, n.isInline = true ∧ n.Grammatical := by
    simp [nestedLinks, Node.isInline, Node.Grammatical, Node.RunningText, Node.AllGrammatical,
      Node.isImage]
  have hlink : nodeAt? nestedLinks 2 [0, 2] = some (.link "v" [.text "b"] none) := rfl
  obtain ⟨before, behind, hjoined, hlength, hnot⟩ :=
    @link_opens_no_image {} ['-'] nestedLinks 2 _ _ _ _ rfl hns _ hlink
  have hbefore : before = (inline {} nestedLinks).take 11 := by
    rw [show inline {} nestedLinks = _ from hjoined, ← hoffset, ← hlength, List.append_assoc,
      List.take_left]
  rw [hbefore, htext] at hnot
  exact ⟨htext, hoffset, hnot⟩

end DocumentTree.Markdown
