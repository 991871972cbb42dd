import DocumentTree.HeadingLevel
import DocumentTree.Value.Basic

/-!
# Documents

The nodes of a Markdown document. Blocks build its structure, inline nodes its running text. The
type lets any node stand anywhere; which documents are well formed is said in
`DocumentTree.Document.Grammar`.

## Main definitions

* `Node` — the eighteen kinds of nodes, each with its metadata.
* `Node.kind` — the name of a node's kind.
* `Node.children` — the nodes directly below, in order.
-/

namespace DocumentTree

/-- Free-form data attached to a node. -/
abbrev Metadata := Entries

/-- A node of a document. -/
inductive Node where
  | document (children : List Node) (metadata : Metadata := [])
  | heading (level : HeadingLevel) (content : List Node) (metadata : Metadata := [])
  | paragraph (content : List Node) (metadata : Metadata := [])
  | codeBlock (content : String) (language : Option String) (metadata : Metadata := [])
  | blockQuote (children : List Node) (metadata : Metadata := [])
  | list (ordered : Bool) (items : List Node) (start : Int) (metadata : Metadata := [])
  | listItem (children : List Node) (taskStatus : Option String) (metadata : Metadata := [])
  | table (rows : List Node) (metadata : Metadata := [])
  | tableRow (cells : List Node) (metadata : Metadata := [])
  | tableCell (content : List Node) (alignment : Option String) (isHeader : Bool)
      (metadata : Metadata := [])
  | thematicBreak (metadata : Metadata := [])
  | text (content : String) (metadata : Metadata := [])
  | emphasis (content : List Node) (metadata : Metadata := [])
  | strong (content : List Node) (metadata : Metadata := [])
  | strikethrough (content : List Node) (metadata : Metadata := [])
  | code (content : String) (metadata : Metadata := [])
  | link (url : String) (content : List Node) (title : Option String) (metadata : Metadata := [])
  | image (url altText : String) (title : Option String) (metadata : Metadata := [])
  deriving Inhabited

namespace Node

/-- The name of the node's kind. -/
def kind : Node → String
  | document .. => "Document"
  | heading .. => "Heading"
  | paragraph .. => "Paragraph"
  | codeBlock .. => "CodeBlock"
  | blockQuote .. => "BlockQuote"
  | list .. => "List"
  | listItem .. => "ListItem"
  | table .. => "Table"
  | tableRow .. => "TableRow"
  | tableCell .. => "TableCell"
  | thematicBreak .. => "ThematicBreak"
  | text .. => "Text"
  | emphasis .. => "Emphasis"
  | strong .. => "Strong"
  | strikethrough .. => "Strikethrough"
  | code .. => "Code"
  | link .. => "Link"
  | image .. => "Image"

/-- The nodes directly below a node, in order. -/
def children : Node → List Node
  | document children _ => children
  | heading _ content _ => content
  | paragraph content _ => content
  | blockQuote children _ => children
  | list _ items _ _ => items
  | listItem children _ _ => children
  | table rows _ => rows
  | tableRow cells _ => cells
  | tableCell content _ _ _ => content
  | emphasis content _ => content
  | strong content _ => content
  | strikethrough content _ => content
  | link _ content _ _ => content
  | codeBlock .. | thematicBreak .. | text .. | code .. | image .. => []

/-- The metadata of a node. -/
def metadata : Node → Metadata
  | document _ metadata => metadata
  | heading _ _ metadata => metadata
  | paragraph _ metadata => metadata
  | codeBlock _ _ metadata => metadata
  | blockQuote _ metadata => metadata
  | list _ _ _ metadata => metadata
  | listItem _ _ metadata => metadata
  | table _ metadata => metadata
  | tableRow _ metadata => metadata
  | tableCell _ _ _ metadata => metadata
  | thematicBreak metadata => metadata
  | text _ metadata => metadata
  | emphasis _ metadata => metadata
  | strong _ metadata => metadata
  | strikethrough _ metadata => metadata
  | code _ metadata => metadata
  | link _ _ _ metadata => metadata
  | image _ _ _ metadata => metadata

mutual

/-- Whether two nodes are the same in every field. -/
def same : Node → Node → Bool
  | document xs m, document ys n => sameAll xs ys && Value.sameEntries m n
  | heading a xs m, heading b ys n => a == b && sameAll xs ys && Value.sameEntries m n
  | paragraph xs m, paragraph ys n => sameAll xs ys && Value.sameEntries m n
  | codeBlock a b m, codeBlock c d n => a == c && b == d && Value.sameEntries m n
  | blockQuote xs m, blockQuote ys n => sameAll xs ys && Value.sameEntries m n
  | list a xs b m, list c ys d n => a == c && sameAll xs ys && b == d && Value.sameEntries m n
  | listItem xs a m, listItem ys b n => sameAll xs ys && a == b && Value.sameEntries m n
  | table xs m, table ys n => sameAll xs ys && Value.sameEntries m n
  | tableRow xs m, tableRow ys n => sameAll xs ys && Value.sameEntries m n
  | tableCell xs a b m, tableCell ys c d n =>
    sameAll xs ys && a == c && b == d && Value.sameEntries m n
  | thematicBreak m, thematicBreak n => Value.sameEntries m n
  | text a m, text b n => a == b && Value.sameEntries m n
  | emphasis xs m, emphasis ys n => sameAll xs ys && Value.sameEntries m n
  | strong xs m, strong ys n => sameAll xs ys && Value.sameEntries m n
  | strikethrough xs m, strikethrough ys n => sameAll xs ys && Value.sameEntries m n
  | code a m, code b n => a == b && Value.sameEntries m n
  | link a xs b m, link c ys d n => a == c && sameAll xs ys && b == d && Value.sameEntries m n
  | image a b c m, image d e f n => a == d && b == e && c == f && Value.sameEntries m n
  | _, _ => false

/-- Whether two sequences of nodes are the same, node by node. -/
def sameAll : List Node → List Node → Bool
  | [], [] => true
  | x :: xs, y :: ys => same x y && sameAll xs ys
  | _, _ => false

end

end Node

end DocumentTree
