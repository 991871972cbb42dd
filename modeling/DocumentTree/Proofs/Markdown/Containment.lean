import DocumentTree.Proofs.Markdown.CarriageReturns
import DocumentTree.Proofs.Markdown.Documents

/-!
# Lines stay in their container

A quote puts its mark, and an item its width in spaces, before every line of what it holds. Trimming
the end of the text takes nothing of this away.

## Main definitions

* `IsQuoted line` — a line of a quote.
* `ItemLines marker width lines` — the lines of an item.
-/

namespace DocumentTree.Markdown

open Text (lines unlines trimRight isBlank)

/-! ## Quotes -/

/-- The line starts with the mark of a quote. -/
def IsQuoted (line : Text) : Prop :=
  line.head? = some '>'

instance (line : Text) : Decidable (IsQuoted line) :=
  inferInstanceAs (Decidable (line.head? = some '>'))

theorem lines_quote (body : Text) : lines (quote body) = (lines body).map quoteLine := by
  refine Text.lines_unlines_of_not_mem (by simp [Text.lines_ne_nil]) ?_
  intro line hline
  obtain ⟨inner, hinner, rfl⟩ := List.mem_map.mp hline
  have hfeed : '\n' ∉ inner := Text.not_mem_of_mem_lines hinner
  rw [quoteLine]
  split <;> simp [hfeed]

/-- **Every line of a quote is quoted.** -/
theorem isQuoted_of_mem_quote {body line : Text} (h : line ∈ lines (quote body)) :
    IsQuoted line := by
  rw [lines_quote] at h
  obtain ⟨inner, -, rfl⟩ := List.mem_map.mp h
  rw [quoteLine]
  split <;> rfl

/-- Lines that are quoted stay so without carriage returns. -/
theorem IsQuoted.dropReturns {line : Text} (h : IsQuoted line) :
    IsQuoted (Text.dropReturns line) := by
  cases line with
  | nil => exact h
  | cons c line =>
    obtain rfl : c = '>' := Option.some.inj h
    rfl

/-- Lines that are quoted stay so when the end of the text is trimmed. -/
theorem isQuoted_of_mem_trimRight {t : Text} (h : ∀ line ∈ lines t, IsQuoted line) :
    ∀ line ∈ lines (trimRight t), IsQuoted line := by
  obtain ⟨before, last, behind, after, htrim, ht⟩ := Text.exists_lines_trimRight t
  have hne : trimRight t ≠ [] := by
    intro hnil
    cases t with
    | nil => exact absurd (h [] (by simp [Text.lines, Text.splitOn])) (by simp [IsQuoted])
    | cons c t =>
      have hc : isBlank c = true := by
        by_contra hc
        rw [Text.trimRight_cons (.inl (by simpa using hc))] at hnil
        cases hnil
      -- White space is no mark, so the first line is not quoted.
      by_cases hfeed : c = '\n'
      · subst hfeed
        have hlines : lines ('\n' :: t) = [] :: lines t := Text.lines_append_cons [] t
        exact absurd (h [] (by simp [hlines])) (by simp [IsQuoted])
      · obtain ⟨line, rest, -, hlines⟩ := Text.lines_cons_of_ne hfeed t
        have hmark : c = '>' := Option.some.inj (h (c :: line) (by simp [hlines]))
        rw [hmark] at hc
        exact absurd hc (by decide)
  obtain ⟨c, hlast, -⟩ := Text.getLast?_last_line hne htrim
  intro line hline
  rw [htrim, List.mem_append, List.mem_singleton] at hline
  rcases hline with hline | rfl
  · exact h line (by simp [ht, hline])
  · have hquoted : IsQuoted (line ++ behind) := h _ (by simp [ht])
    cases line with
    | nil => cases hlast
    | cons d line => exact hquoted

/-! ## Items -/

/-- The lines of an item: the first starts with the marker, and the later ones are empty or start
with spaces in the width of the marker. -/
def ItemLines (marker : Text) (width : Nat) : List Text → Prop
  | [] => False
  | first :: rest => marker <+: first ∧ ∀ line ∈ rest, line = [] ∨ Text.spaces width <+: line

section Items

variable {marker : Text} {width : Nat} {t : Text}

/-- A marker that a line can start with: no line feed is in it, and it does not end in white
space. -/
structure IsMarker (marker : Text) : Prop where
  /-- The marker is on one line. -/
  line : '\n' ∉ marker
  /-- The marker is not empty. -/
  ne_nil : marker ≠ []
  /-- The marker does not end in white space. -/
  last : ∀ c, marker.getLast? = some c → isBlank c = false

theorem isMarker_listMarker (o : Options) (ordered alternate : Bool) (number : Int) :
    IsMarker (listMarker o ordered alternate number) := by
  have hbullet : ∀ b : Bullet, isBlank b.char = false := by
    rintro (_ | _ | _) <;> decide
  refine ⟨not_mem_listMarker (.inl rfl) o ordered alternate number, ?_, ?_⟩
  · cases ordered <;> simp [listMarker]
  · intro c hc
    cases ordered <;> cases alternate <;> simp [listMarker] at hc <;> subst hc <;>
      first | exact hbullet _ | decide

/-- What is behind a marker is all that trimming can take away. -/
theorem IsMarker.trimRight_append (H : IsMarker marker) (t : Text) :
    trimRight (marker ++ t) = marker ++ trimRight t :=
  Text.trimRight_append marker (.inl H.last)

/-- **The lines of an item with text**: the marker and the box stand before the first, and the width
of the marker in spaces before every later one that is not empty. -/
theorem lines_item (o : Options) (hmarker : '\n' ∉ marker) (status : Option String) {body : Text}
    (hbody : body ≠ []) {first : Text} {rest : List Text} (hlines : lines body = first :: rest) :
    lines (item o marker status body) =
      (markerText o marker ++ checkbox status ++ first) ::
        rest.map (Text.indentLine (Text.spaces (markerText o marker).length)) := by
  have hline : ∀ line ∈ first :: rest, '\n' ∉ line := fun line hline =>
    Text.not_mem_of_mem_lines (t := body) (hlines ▸ hline)
  simp only [item]
  rw [if_neg (by simpa using hbody), hlines]
  simp only
  refine Text.lines_unlines_of_not_mem (by simp) fun line hmem => ?_
  rcases List.mem_cons.mp hmem with rfl | hmem
  · rw [List.mem_append, not_or]
    exact ⟨not_mem_itemHead (.inl rfl) o hmarker status, hline first (by simp)⟩
  · obtain ⟨inner, hinner, rfl⟩ := List.mem_map.mp hmem
    exact Text.not_mem_indentLine (Text.not_mem_spaces (by decide) _)
      (hline inner (by simp [hinner]))

/-- **The lines of an item stay in it.** -/
theorem itemLines_item (o : Options) (H : IsMarker marker) (status : Option String) (body : Text) :
    ItemLines marker (markerText o marker).length (lines (item o marker status body)) := by
  obtain ⟨n, hn⟩ := exists_markerText o marker
  by_cases hbody : body = []
  · -- An empty item is its marker and box, without the white space behind.
    have hhead := not_mem_itemHead (.inl rfl) o H.line status
    simp only [item]
    rw [if_pos (by simpa using hbody), Text.lines_of_not_mem (Text.not_mem_trimRight hhead), hn,
      List.append_assoc, H.trimRight_append]
    exact ⟨List.prefix_append marker _, by simp⟩
  · obtain ⟨first, rest, hlines⟩ := List.exists_cons_of_ne_nil (Text.lines_ne_nil body)
    rw [lines_item o H.line status hbody hlines]
    refine ⟨?_, fun line hline => ?_⟩
    · rw [hn, List.append_assoc, List.append_assoc]
      exact List.prefix_append marker _
    · obtain ⟨inner, -, rfl⟩ := List.mem_map.mp hline
      rw [Text.indentLine]
      split
      · exact .inl rfl
      · exact .inr (List.prefix_append _ inner)

/-- Lines of an item stay so without carriage returns. -/
theorem ItemLines.dropReturns (hmarker : '\r' ∉ marker) {ls : List Text}
    (h : ItemLines marker width ls) : ItemLines marker width (ls.map Text.dropReturns) := by
  have hkeep : ∀ {start line : Text}, '\r' ∉ start → start <+: line →
      start <+: Text.dropReturns line := by
    intro start line hstart hline
    rw [← Text.dropReturns_eq_self hstart]
    exact hline.filter _
  cases ls with
  | nil => exact h
  | cons first rest =>
    refine ⟨hkeep hmarker h.1, fun line hline => ?_⟩
    obtain ⟨inner, hinner, rfl⟩ := List.mem_map.mp hline
    rcases h.2 inner hinner with rfl | hspaces
    · exact .inl rfl
    · exact .inr (hkeep (Text.not_mem_spaces (by decide) width) hspaces)

/-- The text of an item starts with the marker. -/
theorem ItemLines.exists_append (h : ItemLines marker width (lines t)) : ∃ u, t = marker ++ u := by
  obtain ⟨first, rest, hlines⟩ := List.exists_cons_of_ne_nil (Text.lines_ne_nil t)
  rw [hlines] at h
  obtain ⟨behind, rfl⟩ := h.1
  obtain ⟨u, hu⟩ := Text.exists_append_of_lines hlines
  exact ⟨behind ++ u, by rw [hu, List.append_assoc]⟩

/-- Something is left of an item when its end is trimmed. -/
theorem ItemLines.trimRight_ne_nil (H : IsMarker marker) (h : ItemLines marker width (lines t)) :
    trimRight t ≠ [] := by
  obtain ⟨u, rfl⟩ := h.exists_append
  rw [H.trimRight_append]
  exact fun hnil => H.ne_nil (List.append_eq_nil_iff.mp hnil).1

/-- **Lines of an item stay so when the end of the text is trimmed.** -/
theorem ItemLines.trimmed (H : IsMarker marker) (h : ItemLines marker width (lines t)) :
    ItemLines marker width (lines (trimRight t)) := by
  obtain ⟨u, hu⟩ := h.exists_append
  obtain ⟨before, last, behind, after, htrim, ht⟩ := Text.exists_lines_trimRight t
  obtain ⟨c, hlast, hblank⟩ := Text.getLast?_last_line (h.trimRight_ne_nil H) htrim
  rw [ht] at h
  cases before with
  | nil =>
    have heq : trimRight t = last := by
      rw [← Text.unlines_lines (trimRight t), htrim]
      rfl
    rw [heq] at htrim ⊢
    rw [htrim, ← heq, hu, H.trimRight_append]
    exact ⟨List.prefix_append marker _, by simp⟩
  | cons first before =>
    rw [htrim]
    refine ⟨h.1, fun line hline => ?_⟩
    rcases List.mem_append.mp hline with hline | hline
    · exact h.2 line (List.mem_append_left _ hline)
    obtain rfl := List.mem_singleton.mp hline
    rcases h.2 (line ++ behind) (by simp) with hnil | hspaces
    · exact .inl (List.append_eq_nil_iff.mp hnil).1
    rcases List.prefix_or_prefix_of_prefix hspaces (List.prefix_append line behind) with hs | hs
    · exact .inr hs
    · -- A line of spaces only would have been trimmed.
      have hc : c ∈ Text.spaces width := hs.subset (List.mem_of_getLast? hlast)
      rw [List.eq_of_mem_replicate hc] at hblank
      exact absurd hblank (by decide)

end Items

/-! ## Lists -/

/-- **Each item of a list has its own lines**, with the marker of its number. -/
theorem itemLines_items (o : Options) (ordered alternate : Bool) {nodes : List Node}
    (hnodes : ∀ n ∈ nodes, n.isItem = true) (number : Int) :
    ∀ (i : Nat) (text : Text), (items o ordered alternate number nodes)[i]? = some text →
      let marker := listMarker o ordered alternate (number + i)
      ItemLines marker (markerText o marker).length (lines text) := by
  induction nodes generalizing number with
  | nil => exact fun i text h => by simp [items] at h
  | cons n nodes ih =>
    intro i text h
    rw [items] at h
    cases i with
    | zero =>
      obtain rfl := Option.some.inj h
      have hitem : n.isItem = true := hnodes n (by simp)
      cases n with
      | listItem children status metadata =>
        rw [fragment]
        simpa using itemLines_item o (isMarker_listMarker o ordered alternate number) status _
      | _ => cases hitem
    | succ i =>
      have hrest := ih (fun m hm => hnodes m (by simp [hm])) (number + 1) i text h
      have hnumber : number + ((i + 1 : Nat) : Int) = number + 1 + i := by omega
      rw [hnumber]
      exact hrest

theorem length_items (o : Options) (ordered alternate : Bool) (number : Int) (nodes : List Node) :
    (items o ordered alternate number nodes).length = nodes.length := by
  induction nodes generalizing number with
  | nil => rfl
  | cons n nodes ih => simp [items, ih]

/-- Trimming joined texts trims the last one, if something is left of it. -/
theorem trimRight_unlines (texts : List Text) {last : Text} (h : trimRight last ≠ []) :
    trimRight (unlines (texts ++ [last])) = unlines (texts ++ [trimRight last]) := by
  have hsplit : ∀ t : Text, unlines (texts ++ [t]) = unlines (texts ++ [[]]) ++ t := fun t =>
    (Text.unlines_append texts [] [] t).symm
  rw [hsplit, Text.trimRight_append _ (.inr h), ← hsplit]

/-- **Joined items keep their lines** when the end of the text is trimmed: the lines are those of
the items, in order, and empty ones behind them. -/
theorem exists_groups {texts : List Text} {marker : Nat → Text} {width : Nat → Nat}
    (hmarker : ∀ i, IsMarker (marker i))
    (h : ∀ (i : Nat) (text : Text), texts[i]? = some text →
      ItemLines (marker i) (width i) (lines text)) :
    ∃ (groups : List (List Text)) (after : List Text),
      lines (trimRight (unlines texts) ++ ['\n']) = groups.flatten ++ after ∧
      (∀ line ∈ after, line = []) ∧ groups.length = texts.length ∧
      ∀ (i : Nat) (group : List Text), groups[i]? = some group →
        ItemLines (marker i) (width i) group := by
  rcases List.eq_nil_or_concat texts with rfl | ⟨before, last, hconcat⟩
  · exact ⟨[], [[], []], rfl, by simp, rfl, by simp⟩
  rw [List.concat_eq_append] at hconcat
  subst hconcat
  have hlast := h before.length last (by simp)
  refine ⟨(before ++ [trimRight last]).map lines, [[]], ?_, by simp, by simp, ?_⟩
  · rw [trimRight_unlines before (hlast.trimRight_ne_nil (hmarker _)), Text.lines_append_cons,
      Text.lines_unlines (by simp)]
    rfl
  · intro i group hgroup
    rw [List.getElem?_map, Option.map_eq_some_iff] at hgroup
    obtain ⟨text, htext, rfl⟩ := hgroup
    rcases Nat.lt_or_ge i before.length with hi | hi
    · rw [List.getElem?_append_left hi] at htext
      exact h i text (by rw [List.getElem?_append_left hi, htext])
    · rw [List.getElem?_append_right hi, List.getElem?_singleton] at htext
      split at htext
      · obtain rfl : trimRight last = text := Option.some.inj htext
        obtain rfl : i = before.length := by omega
        exact hlast.trimmed (hmarker _)
      · cases htext

/-! ## Whole documents -/

/-- **Every line of a quote that is a document stays quoted** in the text of the document. -/
theorem isQuoted_of_mem_render {o : Options} {children : List Node} {m m' : Metadata}
    (h : Text.ReturnsEndLines (body o (.document [.blockQuote children m] m'))) :
    ∃ t, render o (.document [.blockQuote children m] m') = t ++ ['\n'] ∧
      ∀ line ∈ lines t, IsQuoted line := by
  rw [render, finish_of_returnsEndLines h, body_document_singleton]
  refine ⟨_, rfl, isQuoted_of_mem_trimRight fun line hline => ?_⟩
  rw [Text.lines_dropReturns] at hline
  obtain ⟨inner, hinner, rfl⟩ := List.mem_map.mp hline
  exact (isQuoted_of_mem_quote hinner).dropReturns

/-- **Every line of a list that is a document stays in its item** in the text of the document. -/
theorem itemLines_of_mem_render {o : Options} {ordered : Bool} {nodes : List Node} {start : Int}
    {m m' : Metadata} (hnodes : ∀ n ∈ nodes, n.isItem = true)
    (h : Text.ReturnsEndLines (body o (.document [.list ordered nodes start m] m'))) :
    ∃ (groups : List (List Text)) (after : List Text),
      lines (render o (.document [.list ordered nodes start m] m')) =
        groups.flatten ++ after ∧
      (∀ line ∈ after, line = []) ∧ groups.length = nodes.length ∧
      ∀ (i : Nat) (group : List Text), groups[i]? = some group →
        let marker := listMarker o ordered false (start + i)
        ItemLines marker (markerText o marker).length group := by
  rw [render, finish_of_returnsEndLines h, body_document_singleton]
  simp only [body, fragment, Text.dropReturns_unlines]
  have hitems : ∀ (i : Nat) (text : Text),
      ((items o ordered false start nodes).map Text.dropReturns)[i]? = some text →
      ItemLines (listMarker o ordered false (start + i))
        (markerText o (listMarker o ordered false (start + i))).length (lines text) := by
    intro i text htext
    rw [List.getElem?_map, Option.map_eq_some_iff] at htext
    obtain ⟨text, hitem, rfl⟩ := htext
    rw [Text.lines_dropReturns]
    exact (itemLines_items o ordered false hnodes start i text hitem).dropReturns
      (not_mem_listMarker (.inr rfl) o ordered false _)
  obtain ⟨groups, after, hlines, hafter, hlength, hgroups⟩ :=
    exists_groups (fun i => isMarker_listMarker o ordered false (start + i)) hitems
  rw [List.length_map, length_items] at hlength
  exact ⟨groups, after, hlines, hafter, hlength, hgroups⟩

/-- **No line leaves its container** where carriage returns stand only before line feeds in the
text before it is finished; so it is in every document whose verbatim strings have no carriage
returns. A document without problems that is a quote is written, and each of its lines starts with
the mark of a quote. A document without problems that is a list is written too, and its lines are,
in order, those of its items and empty ones: the first line of an item starts with its marker, and
every later one is empty or starts with spaces in the width of the marker. -/
theorem lines_stay_in_containers (o : Options) :
    (∀ n : Node, n.LacksReturns → Text.ReturnsEndLines (body o n)) ∧
    (∀ (children : List Node) (m m' : Metadata),
      let n := Node.document [.blockQuote children m] m'
      n.problems = [] → Text.ReturnsEndLines (body o n) →
      ∃ t, write? o n = some (t ++ ['\n']) ∧ ∀ line ∈ lines t, IsQuoted line) ∧
    ∀ (ordered : Bool) (nodes : List Node) (start : Int) (m m' : Metadata),
      let n := Node.document [.list ordered nodes start m] m'
      n.problems = [] → Text.ReturnsEndLines (body o n) →
      ∃ (t : Text) (groups : List (List Text)) (after : List Text),
        write? o n = some t ∧ lines t = groups.flatten ++ after ∧ (∀ line ∈ after, line = []) ∧
        groups.length = nodes.length ∧
        ∀ (i : Nat) (group : List Text), groups[i]? = some group →
          let marker := listMarker o ordered false (start + i)
          ItemLines marker (markerText o marker).length group := by
  refine ⟨fun n h => Text.returnsEndLines_of_not_mem (not_mem_body h o), ?_, ?_⟩
  · intro children m m' n hproblems hreturns
    obtain ⟨t, ht, hlines⟩ := isQuoted_of_mem_render hreturns
    exact ⟨t, by rw [write?_of_problems_eq_nil o hproblems, ht], hlines⟩
  · intro ordered nodes start m m' n hproblems hreturns
    have hlist : (Node.list ordered nodes start m).Grammatical :=
      (n.problems_eq_nil_iff.mp hproblems).2.1
    obtain ⟨groups, after, hlines, hafter, hlength, hgroups⟩ :=
      itemLines_of_mem_render hlist.2.1 hreturns
    exact ⟨_, groups, after, write?_of_problems_eq_nil o hproblems, hlines, hafter, hlength,
      hgroups⟩

/-- Blocks with line ends of both kinds in code, title and alternative text. -/
def nested : List Node :=
  [.codeBlock "a\r\n\n b" (some "c"),
    .list true [.listItem [.paragraph [.image "d" "e\nf" (some "g\r\n")]] (some "checked")] 9]

theorem nested_stays_in_containers :
    Text.ReturnsEndLines (body {} (.blockQuote [.paragraph [.link "a\n" [] (some "b")]])) ∧
    (∃ t, write? {} (.document [.blockQuote nested]) = some (t ++ ['\n']) ∧
      ∀ line ∈ lines t, IsQuoted line) ∧
    ∃ (t : Text) (groups : List (List Text)) (after : List Text),
      write? {} (.document [.list false [.listItem nested none] 1]) = some t ∧
      lines t = groups.flatten ++ after ∧ (∀ line ∈ after, line = []) ∧ groups.length = 1 ∧
      ∀ group, groups[0]? = some group → ItemLines ['-'] 2 group := by
  have H := lines_stay_in_containers {}
  have hitem : (Node.document [.list false [.listItem nested none] 1]).problems = [] := rfl
  obtain ⟨t, groups, after, hwrite, hlines, hafter, hlength, hgroups⟩ :=
    H.2.2 false [.listItem nested none] 1 [] [] hitem (by decide +kernel)
  exact ⟨H.1 (.blockQuote [.paragraph [.link "a\n" [] (some "b")]]) (by decide +kernel),
    H.2.1 nested [] [] rfl (by decide +kernel),
    t, groups, after, hwrite, hlines, hafter, hlength, hgroups 0⟩

/-- A quote of code with a carriage return. -/
def torn : Node :=
  .document [.blockQuote [.codeBlock "a\rb" none]]

/-- A carriage return in code starts a line that is not quoted: quotes are put before the lines
between line feeds, and carriage returns become line feeds afterwards. -/
theorem carriage_return_leaves_quote :
    torn.problems = [] ∧ write? {} torn = some "> ```\n> a\nb\n> ```\n".toList ∧
      ¬ ∀ line ∈ lines "> ```\n> a\nb\n> ```".toList, IsQuoted line := by
  refine ⟨rfl, ?_, ?_⟩
  · decide +kernel
  · decide +kernel

end DocumentTree.Markdown
