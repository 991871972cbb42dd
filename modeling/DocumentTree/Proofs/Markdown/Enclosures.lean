import DocumentTree.Proofs.Markdown.Siblings

/-!
# Containers that are taken off again

Quotes and items put something before the lines of what they hold and change nothing else. So a
block that stands in containers, one inside the other, is found again when they are taken off from
the outside in: every mark is where it must be, and what is left are the lines of the block.

## Main definitions

* `hasStrayItem` — whether the text of a node depends on the list that it stands in.
* `Enclosure`, `enclose` — a quote or a list of one item, and a block inside several of them.
* `Enclosure.strip`, `stripAll` — lines without what containers put before them, if it is there.
-/

namespace DocumentTree.Markdown

open Node (Grammatical AllGrammatical)
open Text (lines)

variable {o : Options} {s : Text} {n : Node} {ns : List Node}

/-! ## Markers matter to items only -/

mutual

/-- Whether the node is, or holds, an item that stands in no list of the node. -/
def hasStrayItem : Node → Bool
  | .listItem .. => true
  | .list .. | .codeBlock .. | .thematicBreak _ | .text .. | .code .. | .image .. => false
  | .document children _ | .blockQuote children _ | .heading _ children _ | .paragraph children _
  | .table children _ | .tableRow children _ | .tableCell children _ _ _ | .emphasis children _
  | .strong children _ | .strikethrough children _ | .link _ children _ _ =>
    haveStrayItem children

/-- Whether one of the nodes is, or holds, such an item. -/
def haveStrayItem : List Node → Bool
  | [] => false
  | n :: ns => hasStrayItem n || haveStrayItem ns

end

theorem haveStrayItem_cons (h : haveStrayItem (n :: ns) = false) :
    hasStrayItem n = false ∧ haveStrayItem ns = false := by
  simpa [haveStrayItem] using h

theorem isItem_eq_false_of_isInline (h : n.isInline = true) : n.isItem = false := by
  cases n <;> first | rfl | cases h

theorem isItem_eq_false_of_isBlock (h : n.isBlock = true) : n.isItem = false := by
  cases n <;> first | rfl | cases h

mutual

/-- In grammatical nodes every item stands in a list. -/
theorem hasStrayItem_eq_false : (n : Node) → n.Grammatical → n.isItem = false →
    hasStrayItem n = false
  | .document children _, h, _ | .blockQuote children _, h, _ => by
    rw [hasStrayItem]
    exact haveStrayItem_eq_false children h.2 fun n hn => isItem_eq_false_of_isBlock (h.1 n hn)
  | .heading _ content _, h, _ | .emphasis content _, h, _ | .strong content _, h, _
  | .strikethrough content _, h, _ | .link _ content _ _, h, _ => by
    rw [hasStrayItem]
    exact haveStrayItem_eq_false content h.2 fun n hn => isItem_eq_false_of_isInline (h.1 n hn).1
  | .paragraph content _, h, _ => by
    rw [hasStrayItem]
    exact haveStrayItem_eq_false content h.2 fun n hn => isItem_eq_false_of_isInline (h.1.1 n hn)
  | .tableCell content _ _ _, h, _ => by
    rw [hasStrayItem]
    exact haveStrayItem_eq_false content h.2.2 fun n hn =>
      isItem_eq_false_of_isInline (h.2.1 n hn).1
  | .table nodes _, h, _ => by
    rw [hasStrayItem]
    refine haveStrayItem_eq_false nodes h.2 fun n hn => ?_
    have hrow : n.isRow = true := h.1 n hn
    cases n <;> first | rfl | cases hrow
  | .tableRow nodes _, h, _ => by
    rw [hasStrayItem]
    refine haveStrayItem_eq_false nodes h.2 fun n hn => ?_
    have hcell : n.isCell = true := h.1 n hn
    cases n <;> first | rfl | cases hcell
  | .list .., _, _ | .codeBlock .., _, _ | .thematicBreak _, _, _ | .text .., _, _
  | .code .., _, _ | .image .., _, _ => rfl

theorem haveStrayItem_eq_false : (ns : List Node) → AllGrammatical ns →
    (∀ n ∈ ns, n.isItem = false) → haveStrayItem ns = false
  | [], _, _ => rfl
  | n :: ns, h, hitem => by
    rw [List.forall_mem_cons] at hitem
    rw [haveStrayItem, hasStrayItem_eq_false n h.1 hitem.1, haveStrayItem_eq_false ns h.2 hitem.2]
    rfl

end

theorem placementAfter_marker (o : Options) (a b : Text) (previous : Option Predecessor)
    (n : Node) :
    placementAfter o a previous n = { placementAfter o b previous n with marker := a } := by
  unfold placementAfter
  split
  · split <;> rfl
  · rfl

mutual

/-- **Nodes without stray items are written alike in every list**: the items in them have markers of
their own. -/
theorem fragment_marker (o : Options) (a : Text) :
    (n : Node) → hasStrayItem n = false → (p : Placement) →
      fragment o { p with marker := a } n = fragment o p n
  | .document children _, h, p | .blockQuote children _, h, p => by
    rw [fragment, fragment, blocksAfter_marker o a children h p.marker false none]
  | .heading _ content _, h, p | .paragraph content _, h, p | .tableCell content _ _ _, h, p
  | .emphasis content _, h, p | .strong content _, h, p | .strikethrough content _, h, p
  | .link _ content _ _, h, p => by
    rw [fragment, fragment, fragments_marker o a content h p.marker]
  | .table nodes _, h, p => by
    rw [fragment, fragment, rows_marker o a nodes h p.marker]
  | .tableRow nodes _, h, p => by
    rw [fragment, fragment, cells_marker o a nodes h p.marker]
  | .list .., _, _ | .codeBlock .., _, _ | .thematicBreak _, _, _ | .text .., _, _
  | .code .., _, _ | .image .., _, _ => by simp only [fragment, codeBlock]

theorem fragments_marker (o : Options) (a : Text) : (ns : List Node) → haveStrayItem ns = false →
    (b : Text) → fragments o a ns = fragments o b ns
  | [], _, _ => by simp only [fragments]
  | n :: ns, h, b => by
    obtain ⟨hn, hns⟩ := haveStrayItem_cons h
    rw [fragments, fragments, fragments_marker o a ns hns b]
    exact congrArg (· :: _) (fragment_marker o a n hn { marker := b })

theorem blocksAfter_marker (o : Options) (a : Text) : (ns : List Node) →
    haveStrayItem ns = false → (b : Text) → (inItem : Bool) → (previous : Option Predecessor) →
    blocksAfter o a inItem previous ns = blocksAfter o b inItem previous ns
  | [], _, _, _, _ => by simp only [blocksAfter]
  | n :: ns, h, b, inItem, previous => by
    obtain ⟨hn, hns⟩ := haveStrayItem_cons h
    have hplacement := placementAfter_marker o a b previous n
    have htext := fragment_marker o a n hn (placementAfter o b previous n)
    simp only [blocksAfter, hplacement, htext]
    rw [blocksAfter_marker o a ns hns b, blocksAfter_marker o a ns hns b]

theorem rows_marker (o : Options) (a : Text) : (ns : List Node) → haveStrayItem ns = false →
    (b : Text) → rows o a ns = rows o b ns
  | [], _, _ => by simp only [rows]
  | n :: ns, h, b => by
    obtain ⟨hn, hns⟩ := haveStrayItem_cons h
    have hrest := rows_marker o a ns hns b
    cases n with
    | tableRow nodes metadata => rw [rows, rows, cells_marker o a nodes hn b, hrest]
    | _ => simp only [rows, hrest]

theorem cell_marker (o : Options) (a : Text) : (n : Node) → hasStrayItem n = false → (b : Text) →
    cell o a n = cell o b n
  | .tableCell content _ _ _, h, b | .heading _ content _, h, b | .paragraph content _, h, b
  | .emphasis content _, h, b | .strong content _, h, b | .strikethrough content _, h, b
  | .link _ content _ _, h, b => by
    rw [cell, cell, fragments_marker o a content h b]
  | .document .., _, _ | .codeBlock .., _, _ | .blockQuote .., _, _ | .list .., _, _
  | .listItem .., _, _ | .table .., _, _ | .tableRow .., _, _ | .thematicBreak _, _, _
  | .text .., _, _ | .code .., _, _ | .image .., _, _ => by simp only [cell]

theorem cells_marker (o : Options) (a : Text) : (ns : List Node) → haveStrayItem ns = false →
    (b : Text) → cells o a ns = cells o b ns
  | [], _, _ => by simp only [cells]
  | n :: ns, h, b => by
    obtain ⟨hn, hns⟩ := haveStrayItem_cons h
    rw [cells, cells, cell_marker o a n hn b, cells_marker o a ns hns b]

end

/-- A node without stray items is written in containers as it is by itself. -/
theorem text_eq_body (h : hasStrayItem n = false) (o : Options) (marker : Text) :
    (fragment o { marker } n).text = body o n :=
  congrArg Fragment.text (fragment_marker o marker n h { marker := [o.bulletMarker.char] })

/-! ## Containers around a block -/

/-- A container with one block: a quote, or a list of one item that is no task. -/
inductive Enclosure where
  /-- A quote. -/
  | quote (metadata : Metadata)
  /-- A list of one item. -/
  | item (ordered : Bool) (start : Int) (listMetadata itemMetadata : Metadata)

/-- The container with a block in it. -/
def Enclosure.around : Enclosure → Node → Node
  | quote metadata, n => .blockQuote [n] metadata
  | item ordered start listMetadata itemMetadata, n =>
    .list ordered [.listItem [n] none itemMetadata] start listMetadata

/-- A block in containers, the outermost first. -/
def enclose (es : List Enclosure) (n : Node) : Node :=
  es.foldr Enclosure.around n

/-- The marker of the items in a container, given the one around it. -/
def Enclosure.marker (o : Options) (marker : Text) : Enclosure → Text
  | quote _ => marker
  | item ordered start _ _ => listMarker o ordered false start

/-- The marker of the items in containers, given the one around them all. -/
def innerMarker (o : Options) (marker : Text) (es : List Enclosure) : Text :=
  es.foldl (Enclosure.marker o) marker

/-- A text as it stands in a container. -/
def Enclosure.write (o : Options) : Enclosure → Text → Text
  | quote _, t => Markdown.quote t
  | item ordered start _ _, t => Markdown.item o (listMarker o ordered false start) none t

theorem text_around (o : Options) (marker : Text) (e : Enclosure) (n : Node) :
    (fragment o { marker } (e.around n)).text =
      e.write o (fragment o { marker := e.marker o marker } n).text := by
  cases e with
  | quote metadata => simp only [Enclosure.around, fragment, blocksAfter_singleton]; rfl
  | item ordered start listMetadata itemMetadata =>
    simp only [Enclosure.around, fragment, items, blocksAfter_singleton]
    rfl

/-! ## Taking containers off -/

/-- A line without the mark of a quote. -/
def unquoteLine : Text → Option Text
  | '>' :: ' ' :: line => some line
  | ['>'] => some []
  | _ => none

/-- A line without a number of spaces before it; an empty line has none. -/
def unindentLine (width : Nat) (line : Text) : Option Text :=
  if line.isEmpty then some [] else (Text.spaces width).isPrefixOf? line

/-- The lines of an item without its marker and the indentation behind it. -/
def stripItem (head : Text) : List Text → Option (List Text)
  | [] => none
  | first :: rest => do
    let first ← head.isPrefixOf? first
    let rest ← rest.mapM (unindentLine head.length)
    return first :: rest

/-- Lines without what a container puts before them, if it is there on every line. -/
def Enclosure.strip (o : Options) : Enclosure → List Text → Option (List Text)
  | quote _, ls => ls.mapM unquoteLine
  | item ordered start _ _, ls => stripItem (markerText o (listMarker o ordered false start)) ls

/-- Lines without what containers put before them, taken off from the outside in. -/
def stripAll (o : Options) (es : List Enclosure) (ls : List Text) : Option (List Text) :=
  es.foldlM (fun ls e => e.strip o ls) ls

theorem mapM_map {α β γ : Type} {f : α → β} {g : β → Option γ} {h : α → γ}
    (heq : ∀ x, g (f x) = some (h x)) (l : List α) : (l.map f).mapM g = some (l.map h) := by
  induction l with
  | nil => rfl
  | cons x l ih => simp [heq x, ih]

theorem mapM_map_of_inverse {α β : Type} {f : α → β} {g : β → Option α}
    (h : ∀ x, g (f x) = some x) (l : List α) : (l.map f).mapM g = some l := by
  rw [mapM_map h, List.map_id']

theorem unquoteLine_quoteLine (line : Text) : unquoteLine (quoteLine line) = some line := by
  cases line <;> rfl

theorem isPrefixOf?_append (start t : Text) : start.isPrefixOf? (start ++ t) = some t :=
  List.isPrefixOf?_eq_some_iff_append_eq.mpr rfl

/-- A line that is indented by more keeps the rest of it. -/
theorem unindentLine_indentLine_add (width k : Nat) (line : Text) :
    unindentLine width (Text.indentLine (Text.spaces (width + k)) line) =
      some (Text.indentLine (Text.spaces k) line) := by
  cases line with
  | nil => rfl
  | cons c line =>
    have hspaces : Text.spaces (width + k) ++ c :: line =
        Text.spaces width ++ (Text.spaces k ++ c :: line) := by
      rw [Text.spaces, List.replicate_add, List.append_assoc]
      rfl
    have hne : (Text.spaces width ++ (Text.spaces k ++ c :: line)).isEmpty = false := by simp
    simp [unindentLine, Text.indentLine, hspaces, hne, isPrefixOf?_append]

theorem indentLine_zero (line : Text) : Text.indentLine (Text.spaces 0) line = line := by
  cases line <;> rfl

theorem unindentLine_indentLine (width : Nat) (line : Text) :
    unindentLine width (Text.indentLine (Text.spaces width) line) = some line := by
  simpa [indentLine_zero] using unindentLine_indentLine_add width 0 line

/-- **An item is taken off again**: the marker and the indentation are found before the box and the
lines of its body. -/
theorem stripItem_lines_item (o : Options) {marker : Text} (hmarker : '\n' ∉ marker)
    (status : Option String) (hs : s ≠ []) :
    stripItem (markerText o marker) (lines (item o marker status s)) =
      some (lines (checkbox status ++ s)) := by
  obtain ⟨first, rest, hlines⟩ := List.exists_cons_of_ne_nil (Text.lines_ne_nil s)
  have hbox : lines (checkbox status) = [] ++ [checkbox status] :=
    Text.lines_of_not_mem (not_mem_checkbox (.inl rfl) status)
  have hrest := mapM_map_of_inverse (unindentLine_indentLine (markerText o marker).length) rest
  rw [lines_item o hmarker status hs hlines, Text.lines_append hbox hlines, stripItem,
    List.append_assoc, isPrefixOf?_append, hrest]
  rfl

/-- **A container is taken off again**: what it puts before the lines of a text is found on each of
them. -/
theorem strip_lines_write (o : Options) (e : Enclosure) (hs : s ≠ []) :
    e.strip o (lines (e.write o s)) = some (lines s) := by
  cases e with
  | quote metadata =>
    rw [Enclosure.write, lines_quote]
    exact mapM_map_of_inverse unquoteLine_quoteLine (lines s)
  | item ordered start listMetadata itemMetadata =>
    exact stripItem_lines_item o (isMarker_listMarker o ordered false start).line none hs

/-- A container is never empty. -/
theorem write_ne_nil (o : Options) (e : Enclosure) (t : Text) : e.write o t ≠ [] := by
  cases e with
  | quote metadata =>
    intro hnil
    have hquoted : ∀ line ∈ lines (quote t), IsQuoted line := fun line => isQuoted_of_mem_quote
    rw [show quote t = [] from hnil] at hquoted
    exact absurd (hquoted [] (by simp [Text.lines, Text.splitOn])) (by decide)
  | item ordered start listMetadata itemMetadata =>
    have H := isMarker_listMarker o ordered false start
    obtain ⟨u, hu⟩ := (itemLines_item o H none t).exists_append
    rw [Enclosure.write, hu]
    exact fun hnil => H.ne_nil (List.append_eq_nil_iff.mp hnil).1

/-- Containers are taken off in turn, the outermost first. -/
theorem stripAll_lines_enclose (o : Options) (marker : Text) (es : List Enclosure) (n : Node)
    (h : (fragment o { marker := innerMarker o marker es } n).text ≠ []) :
    (fragment o { marker } (enclose es n)).text ≠ [] ∧
    stripAll o es (lines (fragment o { marker } (enclose es n)).text) =
      some (lines (fragment o { marker := innerMarker o marker es } n).text) := by
  induction es generalizing marker with
  | nil => exact ⟨h, rfl⟩
  | cons e es ih =>
    obtain ⟨hne, hstrip⟩ := ih (e.marker o marker) h
    have htext : (fragment o { marker } (enclose (e :: es) n)).text =
        e.write o (fragment o { marker := e.marker o marker } (enclose es n)).text :=
      text_around o marker e (enclose es n)
    rw [htext]
    refine ⟨write_ne_nil o e _, ?_⟩
    rw [stripAll, List.foldlM_cons, strip_lines_write o e hne]
    exact hstrip

/-! ## Documents -/

theorem isWritable_enclose (es : List Enclosure) (h : isWritable n = true) :
    isWritable (enclose es n) = true := by
  induction es with
  | nil => exact h
  | cons e es ih =>
    cases e <;> simpa [enclose, Enclosure.around, isWritable, areWritable] using ih

theorem not_mem_write (o : Options) (e : Enclosure) (h : '\r' ∉ s) : '\r' ∉ e.write o s := by
  cases e with
  | quote metadata => exact not_mem_quote h
  | item ordered start listMetadata itemMetadata =>
    exact not_mem_item (not_mem_listMarker (.inr rfl) o ordered false start) o none h

/-- A line that is not empty stands behind something in a container. -/
theorem exists_lines_write (o : Options) (e : Enclosure) {before : List Text} {last : Text}
    (hlines : lines s = before ++ [last]) (hlast : last ≠ []) :
    ∃ ls start, lines (e.write o s) = ls ++ [start ++ last] := by
  have hfull : last.isEmpty = false := by simpa using hlast
  cases e with
  | quote metadata =>
    refine ⟨before.map quoteLine, ['>', ' '], ?_⟩
    rw [Enclosure.write, lines_quote, hlines, List.map_append, List.map_singleton, quoteLine,
      if_neg (by simp [hfull])]
  | item ordered start listMetadata itemMetadata =>
    have hs : s ≠ [] := by
      rintro rfl
      cases before with
      | nil => exact hlast (List.singleton_inj.mp hlines).symm
      | cons line before => simp [Text.lines, Text.splitOn] at hlines
    have hmarker := (isMarker_listMarker o ordered false start).line
    rw [Enclosure.write]
    cases before with
    | nil =>
      rw [lines_item o hmarker none hs hlines]
      exact ⟨[], _, rfl⟩
    | cons first before =>
      rw [List.cons_append] at hlines
      rw [lines_item o hmarker none hs hlines, List.map_append, List.map_singleton,
        Text.indentLine, if_neg (by simp [hfull])]
      exact ⟨_ :: _, _, rfl⟩

/-- A container ends like the text in it, if no white space is there. -/
theorem getLast?_write (o : Options) (e : Enclosure) {c : Char} (h : s.getLast? = some c)
    (hc : Text.isBlank c = false) : (e.write o s).getLast? = some c := by
  obtain ⟨before, last, hlines⟩ := Text.exists_lines s
  have hfeed : c ≠ '\n' := by
    rintro rfl
    exact absurd hc (by decide)
  have hlast : last.getLast? = some c := Text.getLast?_of_lines hlines h hfeed
  have hne : last ≠ [] := by
    rintro rfl
    cases hlast
  obtain ⟨ls, start, hwrite⟩ := exists_lines_write o e hlines hne
  rw [Text.getLast?_eq_of_lines hwrite (by simp [hne]), List.getLast?_append, hlast]
  rfl

theorem not_mem_enclose (o : Options) (marker : Text) (es : List Enclosure) (n : Node)
    (h : '\r' ∉ (fragment o { marker := innerMarker o marker es } n).text) :
    '\r' ∉ (fragment o { marker } (enclose es n)).text := by
  induction es generalizing marker with
  | nil => exact h
  | cons e es ih =>
    rw [enclose, List.foldr_cons, text_around]
    exact not_mem_write o e (ih _ h)

theorem getLast?_enclose (o : Options) (marker : Text) (es : List Enclosure) (n : Node) {c : Char}
    (h : (fragment o { marker := innerMarker o marker es } n).text.getLast? = some c)
    (hc : Text.isBlank c = false) :
    (fragment o { marker } (enclose es n)).text.getLast? = some c := by
  induction es generalizing marker with
  | nil => exact h
  | cons e es ih =>
    rw [enclose, List.foldr_cons, text_around]
    exact getLast?_write o e (ih _ h) hc

/-- **Containers are taken off again.** The lines of the text that a node has in containers are
found again when the containers are taken off, the outermost first: each of them is there on all
lines. A node without stray items, such as any grammatical block, has the text there that it has by
itself. A document of the containers ends with a line feed instead of the white space that the text
may end in. -/
theorem enclosed_lines_are_found_again (o : Options) (es : List Enclosure) (n : Node) :
    let inner := (fragment o { marker := innerMarker o [o.bulletMarker.char] es } n).text
    let outer := body o (enclose es n)
    (inner ≠ [] → stripAll o es (lines outer) = some (lines inner)) ∧
    (hasStrayItem n = false → inner = body o n) ∧
    (n.isBlock = true → n.Grammatical → hasStrayItem n = false) ∧
    ('\r' ∉ inner → isWritable n = true → ∀ metadata,
      write? o (.document [enclose es n] metadata) = some (Text.trimRight outer ++ ['\n'])) ∧
    (isBare inner.getLast? = true → Text.trimRight outer = outer) := by
  intro inner outer
  refine ⟨fun hne => (stripAll_lines_enclose o _ es n hne).2, fun hn => text_eq_body hn o _,
    fun hblock hn => hasStrayItem_eq_false n hn (isItem_eq_false_of_isBlock hblock), ?_, ?_⟩
  · intro hreturns hn metadata
    have hdocument : isWritable (.document [enclose es n] metadata) = true := by
      simp [isWritable, areWritable, isWritable_enclose es hn]
    have houter : '\r' ∉ outer := not_mem_enclose o _ es n hreturns
    rw [write?, if_pos hdocument, render, body_document_singleton, finish,
      Text.normalizeLineEnds_eq_self houter]
  · intro hbare
    cases hlast : inner.getLast? with
    | none =>
      rw [hlast] at hbare
      cases hbare
    | some c =>
      rw [hlast] at hbare
      have hc : Text.isBlank c = false := by simpa [isBare] using hbare
      have houter : outer.getLast? = some c := getLast?_enclose o _ es n hlast hc
      refine Text.dropRightWhile_eq_self fun d hd => ?_
      rwa [← Option.some.inj (houter.symm.trans hd)]

/-- Containers of all kinds. -/
def nestedEnclosures : List Enclosure :=
  [.quote [], .item true 9 [] [], .item false 1 [] [], .quote []]

/-- Code with an empty line and a line of spaces. -/
def gappedCode : Node :=
  .codeBlock "a\n\n  \nb" none

theorem gapped_code_is_found_again :
    let o : Options := { listIndent := .tabWidth }
    body o gappedCode ≠ [] ∧
    stripAll o nestedEnclosures (lines (body o (enclose nestedEnclosures gappedCode))) =
      some (lines (body o gappedCode)) ∧
    write? o (.document [enclose nestedEnclosures gappedCode]) =
      some ("> 9.  -   > ```\n>         > a\n>         >\n>         >   \n" ++
        ">         > b\n>         > ```\n").toList := by
  intro o
  have hne : body o gappedCode ≠ [] := by decide
  obtain ⟨hlines, halone, hstray, -, -⟩ :=
    enclosed_lines_are_found_again o nestedEnclosures gappedCode
  rw [halone (hstray rfl trivial)] at hlines
  exact ⟨hne, hlines hne, by decide +kernel⟩

end DocumentTree.Markdown
