import DocumentTree.Proofs.Markdown.TableFields
import Mathlib.Algebra.GroupWithZero.Nat
import Mathlib.Data.List.MinMax
import Mathlib.Order.Nat

/-!
# The shape of a table

The columns of a table are as wide as their widest text and their shortest delimiter. Every text is
filled to the width of its column, and a delimiter is lengthened to it, so the lines are of one
length and their separators stand below each other. Where pipes are escaped, the separators are the
only pipes without a backslash.

## Main definitions

* `separatorAt widths k` — where the separator before a column stands.
* `pipes line` — where the pipes without a backslash right before them stand.
* `columnWidths`, `paddedTexts` — the widths of the columns, and the texts of a row in them.
-/

namespace DocumentTree.Markdown

open Text (lines)

variable {o : Options} {previous : Option Char} {t : Text} {texts : List Text} {widths : List Nat}

/-! ## Separators of a row -/

/-- Where the separator before a column stands, if the columns have these widths: behind those
before it, each with a separator and two spaces. Behind the last column there is one more. -/
def separatorAt (widths : List Nat) (k : Nat) : Nat :=
  ((widths.take k).map (· + 3)).sum

@[simp] theorem separatorAt_zero (widths : List Nat) : separatorAt widths 0 = 0 := by
  simp [separatorAt]

@[simp] theorem separatorAt_cons_succ (width : Nat) (widths : List Nat) (k : Nat) :
    separatorAt (width :: widths) (k + 1) = width + 3 + separatorAt widths k := by
  simp [separatorAt]

/-- Where the pipes without a backslash right before them stand in a text that follows a
character. -/
def pipesAfter (previous : Option Char) : Text → List Nat
  | [] => []
  | c :: cs =>
    let later := (pipesAfter (some c) cs).map (· + 1)
    if c = '|' && previous != some '\\' then 0 :: later else later

/-- Where the pipes without a backslash right before them stand in a line. -/
def pipes (line : Text) : List Nat :=
  pipesAfter none line

/-- A text with escaped pipes has none of those. -/
theorem pipesAfter_append (h : PipesEscaped previous t) (next : Text) :
    pipesAfter previous (t ++ ' ' :: next) =
      (pipesAfter (some ' ') next).map (· + (t.length + 1)) := by
  induction t generalizing previous with
  | nil => simp [pipesAfter]
  | cons c t ih =>
    have hescaped : (c = '|' && previous != some '\\') = false := by
      by_cases hc : c = '|' <;> simp [hc, h.1]
    rw [List.cons_append, pipesAfter, hescaped, ih h.2]
    simp [Nat.add_assoc]

/-- Texts, each behind a separator, and a separator at the end. -/
def separated : List Text → Text
  | [] => ['|']
  | t :: texts => '|' :: ' ' :: t ++ ' ' :: separated texts

theorem row_eq_separated (h : texts ≠ []) : row texts = separated texts := by
  have hshift : ∀ texts : List Text,
      '|' :: (texts.flatMap fun t => ' ' :: t ++ [' ', '|']) = separated texts := by
    intro texts
    induction texts with
    | nil => rfl
    | cons t texts ih => simp [separated, ← ih]
  rw [row_eq h, hshift]

theorem length_separated (texts : List Text) :
    (separated texts).length = separatorAt (texts.map List.length) texts.length + 1 := by
  induction texts with
  | nil => rfl
  | cons t texts ih =>
    simp only [separated, List.length_append, List.length_cons, ih, List.map_cons,
      separatorAt_cons_succ]
    omega

/-- A separator stands before each text and behind the last. -/
theorem getElem?_separated {k : Nat} (hk : k ≤ texts.length) :
    (separated texts)[separatorAt (texts.map List.length) k]? = some '|' := by
  induction texts generalizing k with
  | nil => simp [separated, separatorAt]
  | cons t texts ih =>
    cases k with
    | zero => simp [separated]
    | succ k =>
      have hsplit : separated (t :: texts) = ('|' :: ' ' :: t ++ [' ']) ++ separated texts := by
        simp [separated]
      have hlength : ('|' :: ' ' :: t ++ [' ']).length = t.length + 3 := by simp
      rw [hsplit, List.map_cons, separatorAt_cons_succ, List.getElem?_append_right (by omega),
        hlength, Nat.add_sub_cancel_left]
      exact ih (by simpa using hk)

/-- Where the pipes of the texts are escaped, no others are left. -/
theorem pipesAfter_separated (hprevious : previous ≠ some '\\')
    (h : ∀ t ∈ texts, PipesEscaped none t) :
    pipesAfter previous (separated texts) =
      (List.range (texts.length + 1)).map (separatorAt (texts.map List.length)) := by
  induction texts generalizing previous with
  | nil => simp [separated, pipesAfter, hprevious]
  | cons t texts ih =>
    rw [List.forall_mem_cons] at h
    have ht : PipesEscaped (some '|') (' ' :: t) := ⟨by simp, h.1.of_none _⟩
    have hsplit : separated (t :: texts) = '|' :: ((' ' :: t) ++ ' ' :: separated texts) := by
      simp [separated]
    have hshift (k : Nat) : separatorAt (texts.map List.length) k + (t.length + 1 + 1) + 1 =
        t.length + 3 + separatorAt (texts.map List.length) k := by
      omega
    have hrange : List.range ((t :: texts).length + 1) =
        0 :: (List.range (texts.length + 1)).map Nat.succ := List.range_succ_eq_map
    rw [hsplit, pipesAfter, pipesAfter_append ht, ih (by decide) h.2, hrange]
    simp [hprevious, Function.comp_def, hshift]

/-! ## Widths -/

theorem length_pad {column : Column} (h : t.length ≤ column.width) :
    (pad column t).length = column.width := by
  unfold pad
  split <;> simp [Text.padLeft, Text.padCenter, Text.padRight, Text.spaces] <;> omega

/-- A delimiter is as wide as asked for, if it can be so short. -/
theorem length_delimiter (alignment : Option String) (width : Nat) :
    (delimiter alignment width).length = max width (delimiter alignment 0).length := by
  simp only [delimiter, List.length_append, List.length_replicate]
  omega

theorem dash_mem_delimiter (alignment : Option String) (width : Nat) :
    '-' ∈ delimiter alignment width := by
  simp [delimiter, List.mem_replicate]

/-- A column is widened to the delimiter of its texts, and that is the delimiter of the widened
column. -/
theorem delimiter_columnAt (grid : List (List Cell)) (i : Nat) :
    delimiter (columnAt grid i).alignment (columnAt grid i).width =
      delimiter (alignmentOf grid i) (textWidth grid i) := by
  have hdashes (before after width : Nat) :
      max 1 (max width (before + max 1 (width - before - after) + after) - before - after) =
        max 1 (width - before - after) := by
    omega
  simp only [columnAt, delimiter, List.length_append, List.length_replicate, hdashes]

theorem length_delimiter_columnAt (grid : List (List Cell)) (i : Nat) :
    (delimiter (columnAt grid i).alignment (columnAt grid i).width).length =
      (columnAt grid i).width := by
  have hwidth : textWidth grid i ≤ (delimiter (alignmentOf grid i) (textWidth grid i)).length := by
    rw [length_delimiter]
    exact Nat.le_max_left _ _
  rw [delimiter_columnAt]
  exact (Nat.max_eq_right hwidth).symm

theorem length_textAt_le {grid : List (List Cell)} {r : List Cell} (h : r ∈ grid) (i : Nat) :
    (textAt i r).length ≤ (columnAt grid i).width := by
  have htext : (textAt i r).length ≤ textWidth grid i :=
    List.le_max_of_le (List.mem_map_of_mem (f := fun row => (textAt i row).length) h) le_rfl
  exact htext.trans (Nat.le_max_left _ _)

/-! ## Grids -/

/-- The texts of a row of a grid, filled to the widths of their columns. -/
def paddedTexts (grid : List (List Cell)) (r : List Cell) : List Text :=
  (List.range (columnCount grid)).map fun i => pad (columnAt grid i) (textAt i r)

/-- The widths of the columns of a grid. -/
def columnWidths (grid : List (List Cell)) : List Nat :=
  (List.range (columnCount grid)).map fun i => (columnAt grid i).width

theorem tableRow_columns (grid : List (List Cell)) (r : List Cell) :
    tableRow (columns grid) r = row (paddedTexts grid r) := by
  rw [tableRow, columns, paddedTexts]
  refine congrArg row (List.ext_getElem (by simp) fun i hi hi' => ?_)
  simp

theorem delimiterRow_columns (grid : List (List Cell)) :
    delimiterRow (columns grid) = row (delimiters grid) := rfl

theorem map_length_paddedTexts {grid : List (List Cell)} {r : List Cell} (h : r ∈ grid) :
    (paddedTexts grid r).map List.length = columnWidths grid := by
  rw [paddedTexts, columnWidths, List.map_map]
  exact List.map_congr_left fun i _ => length_pad (length_textAt_le h i)

theorem map_length_delimiters (grid : List (List Cell)) :
    (delimiters grid).map List.length = columnWidths grid := by
  rw [delimiters, columns, columnWidths, List.map_map, List.map_map]
  exact List.map_congr_left fun i _ => length_delimiter_columnAt grid i

theorem length_pos_of_columns_ne_nil {grid : List (List Cell)} (h : columns grid ≠ []) :
    1 ≤ grid.length := by
  cases grid with
  | nil => exact absurd rfl h
  | cons => simp

/-- **The lines of a grid** are rows of texts of the same widths. -/
theorem exists_row_of_mem_lines {grid : List (List Cell)} {line : Text}
    (hcolumns : columns grid ≠ []) (hlines : ∀ r ∈ grid, ∀ cell ∈ r, '\n' ∉ cell.text)
    (h : line ∈ lines (table grid)) :
    ∃ texts, line = row texts ∧ texts.map List.length = columnWidths grid ∧
      (texts = delimiters grid ∨ ∃ r ∈ grid, texts = paddedTexts grid r) := by
  have hgrid := length_pos_of_columns_ne_nil hcolumns
  rw [lines_table hlines hcolumns, List.mem_insertIdx (by simpa using hgrid)] at h
  rcases h with rfl | h
  · exact ⟨_, delimiterRow_columns grid, map_length_delimiters grid, .inl rfl⟩
  · obtain ⟨r, hr, rfl⟩ := List.mem_map.mp h
    exact ⟨_, tableRow_columns grid r, map_length_paddedTexts hr, .inr ⟨r, hr, rfl⟩⟩

theorem pipesEscaped_paddedTexts {grid : List (List Cell)} {r : List Cell}
    (h : ∀ cell ∈ r, IsField cell.text) : ∀ t ∈ paddedTexts grid r, PipesEscaped none t := by
  intro t ht
  obtain ⟨i, -, rfl⟩ := List.mem_map.mp ht
  exact pipesEscaped_pad _ (isField_textAt h i).pipes

theorem pipesEscaped_delimiters (grid : List (List Cell)) :
    ∀ t ∈ delimiters grid, PipesEscaped none t := by
  intro t ht
  obtain ⟨column, -, rfl⟩ := List.mem_map.mp ht
  exact (isField_delimiter _ _).pipes

/-! ## Tables -/

theorem columns_rows_ne_nil {marker : Text} {nodes : List Node}
    (h : ∃ row ∈ nodes, rowCells row ≠ []) : columns (rows o marker nodes) ≠ [] := by
  obtain ⟨row, hrow, hne⟩ := h
  have hr : (rowCells row).map (cell o marker) ∈ rows o marker nodes := by
    rw [rows_eq]
    exact List.mem_map_of_mem hrow
  exact columns_ne_nil hr (by simpa using hne)

/-- **Tables are rectangular.** The lines of a table are its rows and, below the first one, its
delimiters. The texts in a column are as wide as each other and as the delimiter, which has a dash,
so all lines are of one length and each separator stands at the same place in all of them. With
pipes escaped, a line has no other pipe without a backslash right before it. -/
theorem table_is_rectangular (o : Options) (placement : Placement) (nodes : List Node)
    (metadata : Metadata) (hcells : ∃ row ∈ nodes, rowCells row ≠ [])
    (hlines : ∀ row ∈ nodes, ∀ n ∈ rowCells row, '\n' ∉ (cell o placement.marker n).text) :
    let text := (fragment o placement (.table nodes metadata)).text
    let grid := rows o placement.marker nodes
    let widths := columnWidths grid
    (lines text).length = nodes.length + 1 ∧ widths.length = tableWidth nodes ∧
      lines text = ((grid.map (paddedTexts grid)).insertIdx 1 (delimiters grid)).map row ∧
      (∀ texts ∈ grid.map (paddedTexts grid), texts.map List.length = widths) ∧
      ((delimiters grid).map List.length = widths ∧ ∀ d ∈ delimiters grid, '-' ∈ d) ∧
      ∀ l ∈ lines text, l.length = separatorAt widths (tableWidth nodes) + 1 ∧
        (∀ k ≤ tableWidth nodes, l[separatorAt widths k]? = some '|') ∧
        (o.tablePipeEscape = true →
          pipes l = (List.range (tableWidth nodes + 1)).map (separatorAt widths)) := by
  intro text grid widths
  have hline : ∀ r ∈ grid, ∀ c ∈ r, '\n' ∉ c.text := forall_mem_rows hlines
  have hwidth : columnCount grid = tableWidth nodes := columnCount_rows o placement.marker nodes
  have hcount : widths.length = tableWidth nodes := by simp [widths, columnWidths, hwidth]
  have hcolumns : columns grid ≠ [] := columns_rows_ne_nil hcells
  have htext : text = table grid := by simp only [text, grid, fragment]
  have hrows : grid.length = nodes.length := by simp [grid, rows_eq]
  rw [htext]
  refine ⟨?_, hcount, ?_, ?_, ⟨map_length_delimiters grid, ?_⟩, ?_⟩
  · rw [lines_table hline hcolumns,
      List.length_insertIdx_of_le_length (by simpa using length_pos_of_columns_ne_nil hcolumns),
      List.length_map, hrows]
  · rw [lines_table hline hcolumns, List.map_insertIdx, List.map_map, delimiterRow_columns]
    exact congrArg (fun ls => List.insertIdx ls 1 _)
      (List.map_congr_left fun r _ => tableRow_columns grid r)
  · intro texts htexts
    obtain ⟨r, hr, rfl⟩ := List.mem_map.mp htexts
    exact map_length_paddedTexts hr
  · intro d hd
    obtain ⟨column, -, rfl⟩ := List.mem_map.mp hd
    exact dash_mem_delimiter _ _
  · intro line hmem
    obtain ⟨texts, rfl, htexts, hkind⟩ := exists_row_of_mem_lines hcolumns hline hmem
    have hlength : texts.length = tableWidth nodes := by
      rw [← hcount, ← congrArg List.length htexts, List.length_map]
    have hne : texts ≠ [] := by
      rintro rfl
      exact hcolumns (by simp [columns, hwidth, ← hlength])
    rw [row_eq_separated hne, ← hlength, show widths = texts.map List.length from htexts.symm]
    refine ⟨length_separated texts, fun k hk => getElem?_separated hk, fun ho => ?_⟩
    refine pipesAfter_separated (by simp) ?_
    rcases hkind with rfl | ⟨r, hr, rfl⟩
    · exact pipesEscaped_delimiters grid
    · exact pipesEscaped_paddedTexts
        (forall_mem_rows (fun _ _ n _ => isField_cell ho placement.marker n) r hr)

/-- Columns that are narrower than their delimiters, one of them with a pipe in it. -/
def narrowRows : List Node :=
  [.tableRow [.tableCell [] (some "center") true, .tableCell [.text "|"] (some "right") true],
    .tableRow [.tableCell [.text "x"] none false]]

theorem narrow_columns_are_aligned :
    let o : Options := { tablePipeEscape := false }
    let text := (fragment o { marker := ['-'] } (.table narrowRows)).text
    text = "|     |  | |\n| :-: | -: |\n|  x  |    |".toList ∧ (lines text).length = 3 ∧
      ∀ l ∈ lines text, l.length = 12 ∧ ∀ k ≤ 2, l[separatorAt [3, 2] k]? = some '|' := by
  intro o text
  obtain ⟨hcount, -, -, -, -, hshape⟩ := table_is_rectangular o { marker := ['-'] } narrowRows []
    ⟨_, List.mem_cons_self, by simp [rowCells]⟩ (by decide)
  have hwidths : columnWidths (rows o ['-'] narrowRows) = [3, 2] := by decide
  rw [hwidths] at hshape
  exact ⟨by decide, hcount, fun l h => ⟨(hshape l h).1, (hshape l h).2.1⟩⟩

end DocumentTree.Markdown
