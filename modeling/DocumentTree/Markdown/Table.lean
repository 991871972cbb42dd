import DocumentTree.Text.Basic

/-!
# Tables with pipes

A table is written from the texts and alignments of its cells. Short rows are filled with empty
cells, and each column is as wide as its widest cell and its delimiter.

## Main definitions

* `Cell` — the text of a cell and its alignment.
* `Column`, `columns` — alignment and width of the columns of a grid.
* `table` — the lines of a table; `row` — a single row without columns.
-/

namespace DocumentTree.Markdown

/-- A cell as written. -/
structure Cell where
  /-- The text, on one line. -/
  text : Text
  /-- The alignment that the cell asks for. -/
  alignment : Option String := none

/-- A column of a table. -/
structure Column where
  /-- The alignment of the column. -/
  alignment : Option String
  /-- The width in characters. -/
  width : Nat

/-- The number of columns of a grid: the length of its longest row. -/
def columnCount (rows : List (List Cell)) : Nat :=
  (rows.map List.length).foldr max 0

/-- The text of a row in a column; a short row is empty there. -/
def textAt (column : Nat) (row : List Cell) : Text :=
  match row[column]? with
  | some cell => cell.text
  | none => []

/-- The alignment of a column: the first one that a cell of it asks for. -/
def alignmentOf (rows : List (List Cell)) (column : Nat) : Option String :=
  rows.findSome? fun row => row[column]?.bind Cell.alignment

/-- The delimiter of a column: dashes, at least one, with colons on the sides that it is aligned
to. -/
def delimiter (alignment : Option String) (width : Nat) : Text :=
  let left := alignment = some "left" || alignment = some "center"
  let right := alignment = some "right" || alignment = some "center"
  let before := if left then [':'] else []
  let after := if right then [':'] else []
  before ++ List.replicate (max 1 (width - before.length - after.length)) '-' ++ after

/-- A text filled with spaces to the width of its column. -/
def pad (column : Column) (t : Text) : Text :=
  match column.alignment with
  | some "right" => Text.padLeft column.width t
  | some "center" => Text.padCenter column.width t
  | _ => Text.padRight column.width t

/-- The width of the texts in a column. -/
def textWidth (rows : List (List Cell)) (column : Nat) : Nat :=
  (rows.map fun row => (textAt column row).length).foldr max 0

/-- A column of a grid: wide enough for its texts and its delimiter. -/
def columnAt (rows : List (List Cell)) (column : Nat) : Column :=
  let alignment := alignmentOf rows column
  let width := textWidth rows column
  { alignment, width := max width (delimiter alignment width).length }

/-- The columns of a grid. -/
def columns (rows : List (List Cell)) : List Column :=
  (List.range (columnCount rows)).map (columnAt rows)

/-- Texts between pipes. -/
def row (texts : List Text) : Text :=
  ['|', ' '] ++ Text.join [' ', '|', ' '] texts ++ [' ', '|']

/-- The line of a row of a table. -/
def tableRow (columns : List Column) (r : List Cell) : Text :=
  row (columns.zipIdx.map fun (column, i) => pad column (textAt i r))

/-- The delimiter line of a table. -/
def delimiterRow (columns : List Column) : Text :=
  row (columns.map fun column => delimiter column.alignment column.width)

/-- A table, the first row being its header. A grid without cells is not written. -/
def table (rows : List (List Cell)) : Text :=
  match rows, columns rows with
  | [], _ => []
  | _, [] => []
  | header :: body, columns =>
    Text.unlines
      (tableRow columns header :: delimiterRow columns :: body.map (tableRow columns))

end DocumentTree.Markdown
