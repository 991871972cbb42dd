import DocumentTree.Proofs.Markdown.Documents
import DocumentTree.Proofs.Markdown.LineCounts

/-!
# Reading a table back

The lines of a table are cut at the pipes that have no backslash right before them. A cell has no
such pipe, and spaces stand around every pipe between cells, so the fields of a line are the cells
of its row, in the width of the table. The delimiters show how the columns are aligned.

## Main definitions

* `cutAtPipes`, `fields` — the fields of a line.
* `columnAlignment` — the alignment of a column, by the nodes of the table.
* `readDelimiter` — the alignment that a delimiter shows.
-/

namespace DocumentTree.Markdown

open Node (AllGrammatical)
open Text (lines)

variable {o : Options} {previous : Option Char} {t : Text}

/-! ## Fields of a line -/

/-- The pieces of a text that follows a character, cut at the pipes without a backslash right
before. -/
def cutAtPipesAfter (previous : Option Char) : Text → List Text
  | [] => [[]]
  | c :: cs =>
    if c = '|' && previous != some '\\' then [] :: cutAtPipesAfter (some c) cs
    else (cutAtPipesAfter (some c) cs).modifyHead (c :: ·)

/-- The pieces of a line, cut at the pipes without a backslash right before. -/
def cutAtPipes (line : Text) : List Text :=
  cutAtPipesAfter none line

/-- A text without the spaces at its ends. -/
def trimSpaces (t : Text) : Text :=
  Text.dropRightWhile (· = ' ') (t.dropWhile (· = ' '))

/-- The fields of a line: its pieces without the spaces at their ends. -/
def fields (line : Text) : List Text :=
  (cutAtPipes line).map trimSpaces

/-- Fields with an empty one on each side. -/
def edged (texts : List Text) : List Text :=
  [] :: texts ++ [[]]

/-- Every pipe of a text that follows a character has a backslash right before. -/
def PipesEscaped (previous : Option Char) : Text → Prop
  | [] => True
  | c :: cs => (c = '|' → previous = some '\\') ∧ PipesEscaped (some c) cs

theorem pipesEscaped_escapePipesAfter (previous : Option Char) (t : Text) :
    PipesEscaped previous (escapePipesAfter previous t) := by
  induction t generalizing previous with
  | nil => trivial
  | cons c t ih =>
    rw [escapePipesAfter]
    split
    · exact ⟨by simp, fun _ => rfl, ih (some c)⟩
    · rename_i h
      exact ⟨fun hc => by simpa [hc] using h, ih (some c)⟩

theorem pipesEscaped_of_not_mem (h : '|' ∉ t) (previous : Option Char) :
    PipesEscaped previous t := by
  induction t generalizing previous with
  | nil => trivial
  | cons c t ih =>
    rw [List.mem_cons, not_or] at h
    exact ⟨fun hc => absurd hc.symm h.1, ih h.2 (some c)⟩

/-- What stands at the start of a text may stand anywhere. -/
theorem PipesEscaped.of_none (h : PipesEscaped none t) (previous : Option Char) :
    PipesEscaped previous t := by
  cases t with
  | nil => trivial
  | cons c t => exact ⟨fun hc => (Option.some_ne_none _ (h.1 hc).symm).elim, h.2⟩

theorem PipesEscaped.append (h : PipesEscaped previous t) {u : Text} (hu : PipesEscaped none u) :
    PipesEscaped previous (t ++ u) := by
  induction t generalizing previous with
  | nil => exact hu.of_none previous
  | cons c t ih => exact ⟨h.1, ih h.2⟩

/-- A text with escaped pipes is in one piece with the space behind it, before the next pipe. -/
theorem cutAtPipesAfter_append (h : PipesEscaped previous t) (next : Text) :
    cutAtPipesAfter previous (t ++ ' ' :: '|' :: next) =
      (t ++ [' ']) :: cutAtPipesAfter (some '|') next := by
  induction t generalizing previous with
  | nil => simp [cutAtPipesAfter]
  | cons c t ih =>
    have huncut : (c = '|' && previous != some '\\') = false := by
      by_cases hc : c = '|' <;> simp [hc, h.1]
    rw [List.cons_append, cutAtPipesAfter, huncut, ih h.2]
    rfl

/-- Texts with spaces around them, each before a pipe, are the pieces. -/
theorem cutAtPipesAfter_flatMap {texts : List Text} (h : ∀ t ∈ texts, PipesEscaped none t)
    (previous : Option Char) :
    cutAtPipesAfter previous (texts.flatMap fun t => ' ' :: t ++ [' ', '|']) =
      (texts.map fun t => ' ' :: t ++ [' ']) ++ [[]] := by
  induction texts generalizing previous with
  | nil => rfl
  | cons t texts ih =>
    rw [List.forall_mem_cons] at h
    have ht : PipesEscaped previous (' ' :: t) := ⟨by simp, h.1.of_none _⟩
    have hsplit : (t :: texts).flatMap (fun t => ' ' :: t ++ [' ', '|']) =
        (' ' :: t) ++ ' ' :: '|' :: texts.flatMap fun t => ' ' :: t ++ [' ', '|'] := by
      simp
    rw [hsplit, cutAtPipesAfter_append ht, ih h.2]
    rfl

theorem row_eq {texts : List Text} (h : texts ≠ []) :
    row texts = '|' :: texts.flatMap fun t => ' ' :: t ++ [' ', '|'] := by
  induction texts with
  | nil => exact absurd rfl h
  | cons t texts ih =>
    cases texts with
    | nil => simp [row, Text.join]
    | cons u texts =>
      have hrest := ih (by simp)
      simp only [row, Text.join, List.cons_append, List.nil_append, List.cons.injEq, true_and,
        List.append_assoc, List.flatMap_cons] at hrest ⊢
      rw [hrest]

theorem trimSpaces_padded (before after : Nat) (t : Text) :
    trimSpaces (Text.spaces before ++ t ++ Text.spaces after) = trimSpaces t := by
  have hspaces : ∀ n, ∀ c ∈ Text.spaces n, decide (c = ' ') = true := by
    intro n c hc
    simpa using List.eq_of_mem_replicate hc
  rw [trimSpaces, trimSpaces, List.append_assoc, List.dropWhile_append_of_pos (hspaces before),
    List.dropWhile_append]
  split
  · rename_i h
    rw [List.isEmpty_iff.mp h, List.dropWhile_eq_nil_iff.mpr (hspaces after)]
  · exact Text.dropRightWhile_append _ (hspaces after)

/-- **The fields of a row** are its texts, if the pipes in them are escaped. -/
theorem fields_row {texts : List Text} (hne : texts ≠ []) (h : ∀ t ∈ texts, PipesEscaped none t) :
    fields (row texts) = edged (texts.map trimSpaces) := by
  have htrim : ∀ t, trimSpaces (' ' :: t ++ [' ']) = trimSpaces t := trimSpaces_padded 1 1
  have hcut : cutAtPipes (row texts) = [] :: (texts.map fun t => ' ' :: t ++ [' ']) ++ [[]] := by
    rw [row_eq hne, cutAtPipes, cutAtPipesAfter, cutAtPipesAfter_flatMap h]
    rfl
  have hmap : (texts.map fun t => ' ' :: t ++ [' ']).map trimSpaces = texts.map trimSpaces := by
    rw [List.map_map]
    exact List.map_congr_left fun t _ => htrim t
  rw [fields, hcut, List.cons_append, List.map_cons, List.map_append, hmap]
  rfl

/-! ## Rows of a table -/

/-- A text as it stands in a table: its pipes are escaped, and no space is at its ends. -/
structure IsField (t : Text) : Prop where
  /-- The pipes are escaped. -/
  pipes : PipesEscaped none t
  /-- No space is at the start. -/
  head : t.head? ≠ some ' '
  /-- No space is at the end. -/
  last : t.getLast? ≠ some ' '

theorem isField_nil : IsField [] :=
  ⟨trivial, nofun, nofun⟩

theorem IsField.trimSpaces_eq (h : IsField t) : trimSpaces t = t := by
  have hhead : t.dropWhile (· = ' ') = t := by
    cases t with
    | nil => rfl
    | cons c t =>
      have hc : c ≠ ' ' := fun hc => h.head (by rw [hc]; rfl)
      simp [hc]
  rw [trimSpaces, hhead]
  refine Text.dropRightWhile_eq_self fun c hc => ?_
  have hne : c ≠ ' ' := fun hspace => h.last (hspace ▸ hc)
  simpa using hne

theorem head?_escapePipesAfter (previous : Option Char) (t : Text) :
    (escapePipesAfter previous t).head? = some ' ' → t.head? = some ' ' := by
  cases t with
  | nil => exact id
  | cons c t =>
    rw [escapePipesAfter]
    split
    · simp
    · simp

theorem getLast?_escapePipesAfter (previous : Option Char) (t : Text) :
    (escapePipesAfter previous t).getLast? = t.getLast? := by
  induction t generalizing previous with
  | nil => rfl
  | cons c t ih =>
    rw [escapePipesAfter]
    split <;> simp [List.getLast?_cons, ih]

/-- **The content of a cell is a field.** -/
theorem isField_cellContent (ho : o.tablePipeEscape = true) (t : Text) :
    IsField (cellContent o t) := by
  have hblank : ∀ {e : Option Char}, (∀ c, e = some c → Text.isBlank c = false) → e ≠ some ' ' :=
    fun h he => absurd (h ' ' he) (by decide)
  have htext : cellContent o t = escapePipesAfter none (Text.trim t) := by
    simp only [cellContent, ho, if_true]
    rfl
  rw [htext]
  refine ⟨pipesEscaped_escapePipesAfter none _, ?_, ?_⟩
  · exact fun h => hblank (fun c => Text.head?_trim) (head?_escapePipesAfter none _ h)
  · rw [getLast?_escapePipesAfter]
    exact hblank fun c => Text.getLast?_trim

theorem isField_cell (ho : o.tablePipeEscape = true) (marker : Text) (n : Node) :
    IsField (cell o marker n).text := by
  cases n <;> simp only [cell] <;> first | exact isField_cellContent ho _ | exact isField_nil

theorem exists_pad (column : Column) (t : Text) :
    ∃ before after, pad column t = Text.spaces before ++ t ++ Text.spaces after := by
  unfold pad
  split
  · exact ⟨column.width - t.length, 0, by simp [Text.padLeft, Text.spaces]⟩
  · exact ⟨_, _, rfl⟩
  · exact ⟨0, _, rfl⟩

theorem trimSpaces_pad (column : Column) (t : Text) : trimSpaces (pad column t) = trimSpaces t := by
  obtain ⟨before, after, hpad⟩ := exists_pad column t
  rw [hpad, trimSpaces_padded]

theorem pipesEscaped_pad (column : Column) (h : PipesEscaped none t) :
    PipesEscaped none (pad column t) := by
  have hspaces : ∀ n, PipesEscaped none (Text.spaces n) := fun n =>
    pipesEscaped_of_not_mem (Text.not_mem_spaces (by decide) n) none
  obtain ⟨before, after, hpad⟩ := exists_pad column t
  rw [hpad]
  exact ((hspaces before).append h).append (hspaces after)

/-- The texts of a row in the columns of a table: those of its cells, filled with empty ones. -/
theorem map_textAt {r : List Cell} {width : Nat} (h : r.length ≤ width) :
    (List.range width).map (fun i => textAt i r) = (r.map Cell.text).rightpad width [] := by
  refine List.ext_getElem? fun i => ?_
  rw [List.rightpad, List.getElem?_map]
  rcases Nat.lt_or_ge i width with hi | hi
  · rw [List.getElem?_range hi, Option.map_some, textAt]
    rcases Nat.lt_or_ge i r.length with hr | hr
    · rw [List.getElem?_append_left (by simpa using hr), List.getElem?_map,
        List.getElem?_eq_getElem hr]
      rfl
    · rw [List.getElem?_append_right (by simpa using hr), List.getElem?_eq_none hr,
        List.getElem?_replicate, if_pos (by simp; omega)]
  · rw [List.getElem?_eq_none (by simpa using hi),
      List.getElem?_eq_none (by simp; omega)]
    rfl

theorem isField_textAt {r : List Cell} (h : ∀ cell ∈ r, IsField cell.text) (i : Nat) :
    IsField (textAt i r) := by
  rw [textAt]
  split
  · rename_i cell hcell
    exact h cell (List.mem_of_getElem? hcell)
  · exact isField_nil

/-- **The fields of a row of a table** are the texts of its cells, filled with empty ones. -/
theorem fields_tableRow {columns : List Column} (hne : columns ≠ []) {r : List Cell}
    (hlength : r.length ≤ columns.length) (h : ∀ cell ∈ r, IsField cell.text) :
    fields (tableRow columns r) = edged ((r.map Cell.text).rightpad columns.length []) := by
  have hat : ∀ i, IsField (textAt i r) := isField_textAt h
  have hrow : tableRow columns r =
      row (columns.zipIdx.map fun pair => pad pair.1 (textAt pair.2 r)) := rfl
  have hpipes : ∀ t ∈ columns.zipIdx.map (fun pair => pad pair.1 (textAt pair.2 r)),
      PipesEscaped none t := by
    intro t ht
    obtain ⟨pair, -, rfl⟩ := List.mem_map.mp ht
    exact pipesEscaped_pad pair.1 (hat pair.2).pipes
  have htrim : ∀ pair : Column × Nat,
      trimSpaces (pad pair.1 (textAt pair.2 r)) = textAt pair.2 r := by
    intro pair
    rw [trimSpaces_pad, (hat pair.2).trimSpaces_eq]
  rw [hrow, fields_row (by simpa using hne) hpipes, ← map_textAt hlength, List.map_map,
    List.range_eq_range', ← List.zipIdx_map_snd 0 columns, List.map_map]
  exact congrArg edged (List.map_congr_left fun pair _ => htrim pair)

/-! ## Delimiters -/

/-- The alignment that a delimiter shows: dashes, with colons on the sides aligned to. -/
def readDelimiter (t : Text) : Option (Option String) :=
  let left := t.head? == some ':'
  let dashes := if left then t.tail else t
  let right := dashes.getLast? == some ':'
  let dashes := if right then dashes.dropLast else dashes
  if dashes.isEmpty || dashes.any (· != '-') then none
  else
    match left, right with
    | true, true => some (some "center")
    | true, false => some (some "left")
    | false, true => some (some "right")
    | false, false => some none

theorem mem_delimiter {alignment : Option String} {width : Nat} {c : Char}
    (h : c ∈ delimiter alignment width) : c = ':' ∨ c = '-' := by
  simp only [delimiter, List.mem_append, List.mem_replicate] at h
  rcases h with (h | ⟨-, h⟩) | h
  · split at h <;> simp_all
  · exact .inr h
  · split at h <;> simp_all

theorem isField_delimiter (alignment : Option String) (width : Nat) :
    IsField (delimiter alignment width) := by
  have hnot : ∀ {c : Char}, c ≠ ':' → c ≠ '-' → c ∉ delimiter alignment width := fun h h' hc =>
    (mem_delimiter hc).elim h h'
  refine ⟨pipesEscaped_of_not_mem (hnot (by decide) (by decide)) none, fun h => ?_, fun h => ?_⟩
  · exact hnot (by decide) (by decide) (List.mem_of_head? h)
  · exact hnot (by decide) (by decide) (List.mem_of_getLast? h)

/-- Dashes, with a colon on either side or not. -/
def dashes (left right : Bool) (n : Nat) : Text :=
  (if left then [':'] else []) ++ List.replicate (n + 1) '-' ++ (if right then [':'] else [])

theorem readDelimiter_dashes (left right : Bool) (n : Nat) :
    readDelimiter (dashes left right n) =
      match left, right with
      | true, true => some (some "center")
      | true, false => some (some "left")
      | false, true => some (some "right")
      | false, false => some none := by
  have hlast : ('-' :: List.replicate n '-').getLast? = some '-' := by
    rw [← List.replicate_succ, List.getLast?_replicate, if_neg (by omega)]
  have hcolon : ('-' :: (List.replicate n '-' ++ [':'])).getLast? = some ':' := by
    rw [← List.cons_append, List.getLast?_concat]
  have hcut : ('-' :: (List.replicate n '-' ++ [':'])).dropLast = '-' :: List.replicate n '-' := by
    rw [← List.cons_append, List.dropLast_concat]
  cases left <;> cases right <;>
    simp [readDelimiter, dashes, List.replicate_succ, hlast, hcolon, hcut]

theorem exists_delimiter_eq (alignment : Option String) (width : Nat) : ∃ n,
    delimiter alignment width =
      dashes (alignment = some "left" || alignment = some "center")
        (alignment = some "right" || alignment = some "center") n := by
  simp only [delimiter, dashes]
  exact ⟨_ - 1, by rw [Nat.sub_add_cancel (Nat.le_max_left 1 _)]⟩

/-- **A delimiter shows the alignment of its column**, if it is one of the three. -/
theorem readDelimiter_delimiter (alignment : Option String) (width : Nat) :
    readDelimiter (delimiter alignment width) = some (alignment.filter Node.isAlignment) := by
  obtain ⟨n, hn⟩ := exists_delimiter_eq alignment width
  rw [hn, readDelimiter_dashes]
  cases alignment with
  | none => rfl
  | some s =>
    by_cases hleft : s = "left"
    · subst hleft
      rfl
    by_cases hright : s = "right"
    · subst hright
      rfl
    by_cases hcenter : s = "center"
    · subst hcenter
      rfl
    simp [Option.filter, Node.isAlignment, hleft, hright, hcenter]

/-! ## Grids -/

theorem fields_delimiterRow {columns : List Column} (hne : columns ≠ []) :
    fields (delimiterRow columns) =
      edged (columns.map fun column => delimiter column.alignment column.width) := by
  have hpipes : ∀ t ∈ columns.map (fun column => delimiter column.alignment column.width),
      PipesEscaped none t := by
    intro t ht
    obtain ⟨column, -, rfl⟩ := List.mem_map.mp ht
    exact (isField_delimiter _ _).pipes
  rw [delimiterRow, fields_row (by simpa using hne) hpipes, List.map_map]
  exact congrArg edged (List.map_congr_left fun column _ => (isField_delimiter _ _).trimSpaces_eq)

theorem length_le_columnCount {grid : List (List Cell)} {r : List Cell} (h : r ∈ grid) :
    r.length ≤ columnCount grid := by
  induction grid with
  | nil => cases h
  | cons first grid ih =>
    have hcount : columnCount (first :: grid) = max first.length (columnCount grid) := rfl
    rw [hcount]
    rcases List.mem_cons.mp h with rfl | h
    · exact Nat.le_max_left _ _
    · exact (ih h).trans (Nat.le_max_right _ _)

theorem columns_ne_nil {grid : List (List Cell)} {r : List Cell} (h : r ∈ grid) (hr : r ≠ []) :
    columns grid ≠ [] := by
  have hle := length_le_columnCount h
  have hpos := List.length_pos_iff.mpr hr
  rw [columns, ne_eq, List.map_eq_nil_iff, List.range_eq_nil]
  omega

/-- The delimiters of a grid. -/
def delimiters (grid : List (List Cell)) : List Text :=
  (columns grid).map fun column => delimiter column.alignment column.width

theorem map_readDelimiter_delimiters (grid : List (List Cell)) :
    (delimiters grid).map readDelimiter = (List.range (columnCount grid)).map fun i =>
      some ((alignmentOf grid i).filter Node.isAlignment) := by
  rw [delimiters, columns, List.map_map, List.map_map]
  exact List.map_congr_left fun i _ => readDelimiter_delimiter _ _

section Grid

variable {grid : List (List Cell)} (hcolumns : columns grid ≠ [])
  (hfield : ∀ r ∈ grid, ∀ cell ∈ r, IsField cell.text)
  (hline : ∀ r ∈ grid, ∀ cell ∈ r, '\n' ∉ cell.text)

include hcolumns hfield hline

/-- **The fields of the lines of a grid** are its rows and its delimiters. -/
theorem map_fields_lines :
    (lines (table grid)).map fields =
      (grid.map fun r => edged ((r.map Cell.text).rightpad (columnCount grid) [])).insertIdx 1
        (edged (delimiters grid)) := by
  have hcount : (columns grid).length = columnCount grid := by simp [columns]
  have hrow : ∀ r ∈ grid, fields (tableRow (columns grid) r) =
      edged ((r.map Cell.text).rightpad (columnCount grid) []) := by
    intro r hr
    have hle : r.length ≤ (columns grid).length := hcount ▸ length_le_columnCount hr
    rw [fields_tableRow hcolumns hle (hfield r hr), hcount]
  rw [lines_table hline hcolumns, List.map_insertIdx, fields_delimiterRow hcolumns, List.map_map,
    ← delimiters]
  exact congrArg (fun ls => List.insertIdx ls 1 _) (List.map_congr_left hrow)

/-- Every line has one field for each column, between two empty ones. -/
theorem length_fields {line : Text} (h : line ∈ lines (table grid)) :
    (fields line).length = columnCount grid + 2 := by
  have hmem : fields line ∈ (lines (table grid)).map fields := List.mem_map_of_mem h
  rw [map_fields_lines hcolumns hfield hline] at hmem
  have hedged : ∀ ts : List Text, (edged ts).length = ts.length + 2 := by simp [edged]
  have hgrid : grid ≠ [] := by
    rintro rfl
    exact hcolumns rfl
  have hlength : 1 ≤ grid.length := List.length_pos_iff.mpr hgrid
  rw [List.mem_insertIdx (by simpa using hlength)] at hmem
  rcases hmem with heq | hmem
  · rw [heq, hedged]
    simp [delimiters, columns]
  · obtain ⟨r, hr, heq⟩ := List.mem_map.mp hmem
    have hle := length_le_columnCount hr
    rw [← heq, hedged, List.length_rightpad, List.length_map, Nat.max_eq_left hle]

end Grid

/-! ## Tables -/

theorem rows_eq (o : Options) (marker : Text) (nodes : List Node) :
    rows o marker nodes = nodes.map fun row => (rowCells row).map (cell o marker) := by
  have hcells : ∀ ns, cells o marker ns = ns.map (cell o marker) := by
    intro ns
    induction ns with
    | nil => rw [cells]; rfl
    | cons n ns ih => rw [cells, ih]; rfl
  induction nodes with
  | nil => rw [rows]; rfl
  | cons n nodes ih =>
    cases n with
    | tableRow children metadata => rw [rows, hcells, ih]; rfl
    | _ => simp [rows, ih, rowCells]

/-- What holds of the cells of a table, as they are written, holds of those of its grid. -/
theorem forall_mem_rows {nodes : List Node} {marker : Text} {P : Cell → Prop}
    (h : ∀ row ∈ nodes, ∀ n ∈ rowCells row, P (cell o marker n)) :
    ∀ r ∈ rows o marker nodes, ∀ c ∈ r, P c := by
  rw [rows_eq]
  intro r hr c hc
  obtain ⟨row, hrow, rfl⟩ := List.mem_map.mp hr
  obtain ⟨n, hn, rfl⟩ := List.mem_map.mp hc
  exact h row hrow n hn

theorem alignment_cell (o : Options) (marker : Text) (n : Node) :
    (cell o marker n).alignment = askedAlignment n := by
  cases n <;> simp only [cell, askedAlignment]

/-- The number of columns of a table: the number of cells of its longest row. -/
def tableWidth (nodes : List Node) : Nat :=
  (nodes.map fun row => (rowCells row).length).foldr max 0

/-- The alignment of a column of a table: the first that a cell of it asks for. -/
def columnAlignment (nodes : List Node) (column : Nat) : Option String :=
  (nodes.filterMap fun row => (rowCells row)[column]?.bind askedAlignment).head?

theorem columnCount_rows (o : Options) (marker : Text) (nodes : List Node) :
    columnCount (rows o marker nodes) = tableWidth nodes := by
  simp [columnCount, tableWidth, rows_eq, List.map_map, Function.comp_def]

theorem alignmentOf_rows (o : Options) (marker : Text) (nodes : List Node) (column : Nat) :
    alignmentOf (rows o marker nodes) column = columnAlignment nodes column := by
  rw [alignmentOf, columnAlignment, List.head?_filterMap, rows_eq, List.findSome?_map]
  refine congrArg (fun f => nodes.findSome? f) (funext fun row => ?_)
  simp only [Function.comp_apply, List.getElem?_map]
  cases (rowCells row)[column]? with
  | none => rfl
  | some n => exact alignment_cell o marker n

/-- The alignment of a column of a grammatical table is one of the three. -/
theorem isAlignment_columnAlignment {nodes : List Node} (h : AllGrammatical nodes) {column : Nat}
    {s : String} (hs : columnAlignment nodes column = some s) : Node.isAlignment s = true := by
  obtain ⟨row, hrow, hcell⟩ := List.mem_filterMap.mp (List.mem_of_head? hs)
  obtain ⟨n, hn, hasked⟩ := Option.bind_eq_some_iff.mp hcell
  have hgrammar : n.Grammatical := by
    have hg := (Node.allGrammatical_iff nodes).mp h row hrow
    cases row with
    | tableRow cells metadata =>
      exact (Node.allGrammatical_iff cells).mp hg.2 n (List.mem_of_getElem? hn)
    | _ => simp [rowCells] at hn
  cases n with
  | tableCell content alignment isHeader metadata => exact hgrammar.1 s hasked
  | _ => cases hasked

/-- **A table is read back from its lines.** Cut at the pipes without a backslash right before, and
without the spaces at the ends, the pieces of a line are the cells of its row, filled with empty
ones to the width of the table, between two empty ones. The second line shows for each column the
first alignment that a cell of it asks for. -/
theorem table_is_read_back (o : Options) (ho : o.tablePipeEscape = true) (placement : Placement)
    (nodes : List Node) (metadata : Metadata) (hcells : ∃ row ∈ nodes, rowCells row ≠ [])
    (hlines : ∀ row ∈ nodes, ∀ n ∈ rowCells row, '\n' ∉ (cell o placement.marker n).text) :
    let text := (fragment o placement (.table nodes metadata)).text
    let texts := fun row => (rowCells row).map fun n => (cell o placement.marker n).text
    ∃ delimiters : List Text,
      (lines text).map fields =
        (nodes.map fun row => edged ((texts row).rightpad (tableWidth nodes) [])).insertIdx 1
          (edged delimiters) ∧
      (delimiters.map readDelimiter = (List.range (tableWidth nodes)).map fun i =>
        some ((columnAlignment nodes i).filter Node.isAlignment)) ∧
      (∀ line ∈ lines text, (fields line).length = tableWidth nodes + 2) ∧
      (AllGrammatical nodes → ∀ i,
        (columnAlignment nodes i).filter Node.isAlignment = columnAlignment nodes i) := by
  intro text texts
  have hfield : ∀ r ∈ rows o placement.marker nodes, ∀ c ∈ r, IsField c.text :=
    forall_mem_rows fun _ _ n _ => isField_cell ho placement.marker n
  have hline : ∀ r ∈ rows o placement.marker nodes, ∀ c ∈ r, '\n' ∉ c.text :=
    forall_mem_rows hlines
  have hcount : columnCount (rows o placement.marker nodes) = tableWidth nodes :=
    columnCount_rows o placement.marker nodes
  have hcolumns : columns (rows o placement.marker nodes) ≠ [] := by
    obtain ⟨row, hrow, hne⟩ := hcells
    have hr : (rowCells row).map (cell o placement.marker) ∈ rows o placement.marker nodes := by
      rw [rows_eq]
      exact List.mem_map_of_mem hrow
    exact columns_ne_nil hr (by simpa using hne)
  have htext : text = table (rows o placement.marker nodes) := by simp only [text, fragment]
  rw [htext]
  refine ⟨delimiters (rows o placement.marker nodes), ?_, ?_, ?_, ?_⟩
  · rw [map_fields_lines hcolumns hfield hline, hcount, rows_eq, List.map_map]
    simp only [texts, Function.comp_def, List.map_map]
  · rw [map_readDelimiter_delimiters, hcount]
    simp only [alignmentOf_rows]
  · rw [← hcount]
    exact fun line => length_fields hcolumns hfield hline
  · intro hgrammar i
    cases h : columnAlignment nodes i with
    | none => rfl
    | some s => simp [Option.filter, isAlignment_columnAlignment hgrammar h]

/-- Rows of different lengths, one of them empty, with pipes, backslashes and alignments. -/
def raggedRows : List Node :=
  [.tableRow [.tableCell [.text "a|b"] (some "right") true, .tableCell [.code "c"] none true],
    .tableRow [],
    .tableRow [.tableCell [] none false, .tableCell [.text "d"] (some "center") false,
      .tableCell [.text "\\"] none false]]

theorem ragged_rows_are_read_back :
    let text := (fragment {} { marker := ['-'] } (.table raggedRows)).text
    text =
      ("| a\\|b | `c` |    |\n| ---: | :-: | -- |\n|      |     |    |\n" ++
        "|      |  d  | \\\\ |").toList ∧
    ∃ delimiters : List Text,
      (lines text).map fields =
        ([["a\\|b", "`c`", ""], ["", "", ""], ["", "d", "\\\\"]].map fun row =>
          edged (row.map String.toList)).insertIdx 1 (edged delimiters) ∧
      delimiters.map readDelimiter = [some (some "right"), some (some "center"), some none] := by
  intro text
  obtain ⟨delimiters, hfields, hread, -, -⟩ := table_is_read_back {} rfl { marker := ['-'] }
    raggedRows [] ⟨_, List.mem_cons_self, by simp [rowCells]⟩ (by decide)
  refine ⟨by decide +kernel, delimiters, hfields.trans ?_, hread.trans (by decide)⟩
  exact congrArg (fun ls => List.insertIdx ls 1 _) (by decide)

end DocumentTree.Markdown
