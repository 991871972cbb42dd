import DocumentTree.Document.Node
import DocumentTree.Json.Writer

/-!
# Outlines of documents

A document printed one node a line: its kind, its own fields but not its metadata, and its children
between brackets. Field values are written as JSON, so that no text can look like structure.

## Main definitions

* `Node.fields` — the fields of a node that are neither nodes nor metadata.
* `Node.outline` — the document printed.
-/

namespace DocumentTree.Node

/-- A field that may be missing. -/
def optionalField (name : String) : Option String → List (String × Value)
  | none => []
  | some s => [(name, .str s)]

/-- The fields of a node that are neither nodes nor metadata, without those that are missing. -/
def fields : Node → List (String × Value)
  | heading level _ _ => [("level", .int level.val)]
  | codeBlock content language _ => ("content", .str content) :: optionalField "language" language
  | list ordered _ start _ => [("ordered", .bool ordered), ("start", .int start)]
  | listItem _ status _ => optionalField "task_status" status
  | tableCell _ alignment header _ =>
    optionalField "alignment" alignment ++ [("is_header", .bool header)]
  | text content _ => [("content", .str content)]
  | code content _ => [("content", .str content)]
  | link url _ title _ => ("url", .str url) :: optionalField "title" title
  | image url alternative title _ =>
    ("url", .str url) :: ("alt_text", .str alternative) :: optionalField "title" title
  | document .. | paragraph .. | blockQuote .. | table .. | tableRow .. | thematicBreak ..
  | emphasis .. | strong .. | strikethrough .. => []

/-- A field and its value. -/
def outlineField (entry : String × Value) : Text :=
  entry.1.toList ++ [':', ' '] ++ Json.write .inline entry.2

/-- The first line of a node. A text shows its content only. -/
def outlineHead : Node → Text
  | text content _ => "text ".toList ++ Json.quote content.toList
  | n =>
    let shown := n.fields.map outlineField
    n.kind.toList ++ (if shown.isEmpty then [] else ' ' :: Text.join [',', ' '] shown)

/-- A first line with the lines of children between brackets, if there are any. An indent below zero
leaves no space. -/
def bracketed (indent : Int) (head : Text) (children : List Text) : Text :=
  let margin := Text.spaces indent.toNat
  if children.isEmpty then margin ++ head
  else Text.unlines ((margin ++ head ++ [' ', '[']) :: children ++ [margin ++ [']']])

mutual

/-- The outline of a document. -/
def outline (indent : Int) : Node → Text
  | n@(document children _) | n@(blockQuote children _) | n@(listItem children _ _)
  | n@(list _ children _ _) | n@(table children _) | n@(tableRow children _)
  | n@(heading _ children _) | n@(paragraph children _) | n@(tableCell children _ _ _)
  | n@(emphasis children _) | n@(strong children _) | n@(strikethrough children _)
  | n@(link _ children _ _) => bracketed indent (outlineHead n) (outlines (indent + 2) children)
  | n@(codeBlock ..) | n@(thematicBreak _) | n@(text ..) | n@(code ..) | n@(image ..) =>
    bracketed indent (outlineHead n) []

/-- The outlines of documents. -/
def outlines (indent : Int) : List Node → List Text
  | [] => []
  | n :: ns => outline indent n :: outlines indent ns

end

end DocumentTree.Node
