import DocumentTree.Document.Grammar
import DocumentTree.Markdown.Render

/-!
# Documents that can be written

A document can be written if its tables can be read as grids: every row is a row, every cell has
inline content, and the alignment of every column can be looked up. Documents that are lowered from
trees always are. Tables without rows or cells are left out and reported.

## Main definitions

* `isWritable` — whether every table in a document can be read as a grid.
* `write?` — the text of a document that can be written.
* `SkippedTable`, `skippedTables` — the reports on tables left out.
-/

namespace DocumentTree.Markdown

/-- Whether a node can be read as a cell: it has content, and inline content unless it has none. -/
def hasInlineContent : Node → Bool
  | .tableCell .. | .heading .. | .paragraph .. | .emphasis .. | .strong .. | .strikethrough ..
  | .link .. => true
  | .text content _ | .code content _ | .codeBlock content _ _ => content = ""
  | _ => false

/-- The cells of a row; another node has none. -/
def rowCells : Node → List Node
  | .tableRow cells _ => cells
  | _ => []

/-- The alignment that a cell asks for. -/
def askedAlignment : Node → Option String
  | .tableCell _ alignment _ _ => alignment
  | _ => none

/-- Whether the alignment of a column can be looked up: down to the first cell that asks for one,
its nodes are cells. -/
def isAlignable (column : List Node) : Bool :=
  (column.takeWhile fun n => (askedAlignment n).isNone).all Node.isCell

/-- Whether the alignments of all columns can be looked up. -/
def areAlignable (rows : List Node) : Bool :=
  let grid := rows.map rowCells
  (List.range ((grid.map List.length).foldr max 0)).all fun column =>
    isAlignable (grid.filterMap fun row => row[column]?)

mutual

/-- Whether every table in a document can be read as a grid. -/
def isWritable : Node → Bool
  | .document children _ | .blockQuote children _ | .listItem children _ _
  | .list _ children _ _ | .heading _ children _ | .paragraph children _
  | .tableCell children _ _ _ | .emphasis children _ | .strong children _
  | .strikethrough children _ | .link _ children _ _ => areWritable children
  | .table nodes _ => areRows nodes && areAlignable nodes
  | .tableRow nodes _ => areCells nodes
  | .codeBlock .. | .thematicBreak _ | .text .. | .code .. | .image .. => true

/-- Whether every table in the documents can be read as a grid. -/
def areWritable : List Node → Bool
  | [] => true
  | n :: ns => isWritable n && areWritable ns

/-- Whether nodes can be read as rows. -/
def areRows : List Node → Bool
  | [] => true
  | .tableRow nodes _ :: ns => areCells nodes && areRows ns
  | _ :: _ => false

/-- Whether nodes can be read as cells. -/
def areCells : List Node → Bool
  | [] => true
  | n :: ns => hasInlineContent n && isWritable n && areCells ns

end

/-- The text of a document, if it can be written. -/
def write? (o : Options) (n : Node) : Option Text :=
  if isWritable n then some (render o n) else none

/-! ## Tables left out -/

/-- Why a table is left out. -/
inductive SkippedTable where
  /-- It has no rows. -/
  | withoutRows
  /-- It has rows, but none with a cell. -/
  | withoutCells

/-- The wording of the report. -/
def SkippedTable.message : SkippedTable → String
  | withoutRows => "Skipping table without rows"
  | withoutCells => "Skipping table without cells"

/-- The report on the rows of a table, if it is left out. -/
def skippedTable? (rows : List Node) : Option SkippedTable :=
  if rows.isEmpty then some .withoutRows
  else if rows.all fun row => (rowCells row).isEmpty then some .withoutCells
  else none

mutual

/-- The reports on the tables in a document that are left out, in order. -/
def skippedTables : Node → List SkippedTable
  | .table nodes _ => allSkippedTables nodes ++ (skippedTable? nodes).toList
  | .document children _ | .blockQuote children _ | .listItem children _ _
  | .list _ children _ _ | .heading _ children _ | .paragraph children _ | .tableRow children _
  | .tableCell children _ _ _ | .emphasis children _ | .strong children _
  | .strikethrough children _ | .link _ children _ _ => allSkippedTables children
  | .codeBlock .. | .thematicBreak _ | .text .. | .code .. | .image .. => []

/-- The reports on the tables in several documents. -/
def allSkippedTables : List Node → List SkippedTable
  | [] => []
  | n :: ns => skippedTables n ++ allSkippedTables ns

end

end DocumentTree.Markdown
