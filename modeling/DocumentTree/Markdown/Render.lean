import DocumentTree.Markdown.Block
import DocumentTree.Markdown.Fragment
import DocumentTree.Markdown.Link
import DocumentTree.Markdown.Table

/-!
# Documents as Markdown

The Markdown text of a document, by recursion on it. Inline nodes are written as fragments and
joined; blocks are written from their parts and laid out by their container. Every node is written
somehow, wherever it stands; `DocumentTree.Markdown.Writable` says of which documents that is the
text meant.

## Main definitions

* `fragment` — a node as a fragment; `inline` — inline content; `blocksAfter` — sibling blocks.
* `render` — the text of a document, which ends with one line feed.
-/

namespace DocumentTree.Markdown

/-! ## Leaves -/

/-- Literal text: blanks run together, and inline syntax is escaped. -/
def literal (o : Options) (content : Text) : Text :=
  let content := Text.collapseBlanks content
  if o.escapeSpecial then escapeText content else content

/-- A space and the title of a link, if it has one. -/
def titlePart : Option String → Text
  | none => []
  | some t => if t = "" then [] else ' ' :: title t.toList

/-- A link's destination and title between parentheses. -/
def target (url : String) (t : Option String) : Text :=
  ['('] ++ destination url.toList ++ titlePart t ++ [')']

/-- A code block in the form that the options and its placement give it. -/
def codeBlock (o : Options) (placement : Placement) (n : Node) (content : String)
    (language : Option String) : Text :=
  if isIndentedCode o n && !placement.fenced then indentedCode content.toList
  else fencedCode o (language.getD "").toList content.toList

/-- A paragraph of written content. -/
def paragraph (o : Options) (content : Text) : Text :=
  let content := Text.trim content
  if o.escapeSpecial then escapeBlockStart content else content

/-- The text of a cell of written content. -/
def cellContent (o : Options) (content : Text) : Text :=
  let content := Text.trim content
  if o.tablePipeEscape then escapePipes content else content

/-! ## The walk -/

mutual

/-- A node as written in its place. -/
def fragment (o : Options) (placement : Placement) : Node → Fragment
  | .document children _ => ⟨blocksAfter o placement.marker false none children, .other⟩
  | .heading level content _ =>
    ⟨heading level
      (escapeClosingHashes (Text.trim (joinFragments o (fragments o placement.marker content)))),
      .other⟩
  | .paragraph content _ =>
    ⟨paragraph o (joinFragments o (fragments o placement.marker content)), .other⟩
  | .codeBlock content language metadata =>
    ⟨codeBlock o placement (.codeBlock content language metadata) content language, .other⟩
  | .blockQuote children _ =>
    ⟨quote (blocksAfter o placement.marker false none children), .other⟩
  | .list ordered nodes start _ =>
    ⟨Text.unlines (items o ordered placement.alternate start nodes), .other⟩
  | .listItem children status _ =>
    ⟨item o placement.marker status (blocksAfter o placement.marker true none children), .other⟩
  | .table nodes _ => ⟨table (rows o placement.marker nodes), .other⟩
  | .tableRow nodes _ => ⟨row ((cells o placement.marker nodes).map Cell.text), .other⟩
  | .tableCell content _ _ _ =>
    ⟨cellContent o (joinFragments o (fragments o placement.marker content)), .other⟩
  | .thematicBreak _ => ⟨List.replicate 3 o.ruleStyle.char, .other⟩
  | .text content _ => ⟨literal o content.toList, .text⟩
  | .emphasis content _ =>
    stressed o.emphasisMarker 1 (joinFragments o (fragments o placement.marker content))
  | .strong content _ =>
    stressed o.strongMarker 2 (joinFragments o (fragments o placement.marker content))
  | .strikethrough content _ =>
    ⟨wrap ['~', '~'] (joinFragments o (fragments o placement.marker content)), .other⟩
  | .code content _ => ⟨codeSpan content.toList, .other⟩
  | .link url content t _ =>
    ⟨['['] ++ joinFragments o (fragments o placement.marker content) ++ [']'] ++ target url t,
      .link⟩
  | .image url alternative t _ =>
    ⟨['!', '['] ++ escapeBrackets alternative.toList ++ [']'] ++ target url t, .other⟩

/-- Inline siblings as fragments. -/
def fragments (o : Options) (marker : Text) : List Node → List Fragment
  | [] => []
  | n :: ns => fragment o { marker } n :: fragments o marker ns

/-- Sibling blocks that follow a predecessor. Blocks without text leave no trace. -/
def blocksAfter (o : Options) (marker : Text) (inItem : Bool) (previous : Option Predecessor) :
    List Node → Text
  | [] => []
  | n :: ns =>
    let placement := placementAfter o marker previous n
    let text := (fragment o placement n).text
    if text.isEmpty then blocksAfter o marker inItem previous ns
    else
      separator o inItem previous n ++ text
        ++ blocksAfter o marker inItem (some ⟨n, placement.alternate⟩) ns

/-- The items of a list, numbered from a number on. -/
def items (o : Options) (ordered alternate : Bool) (number : Int) : List Node → List Text
  | [] => []
  | n :: ns =>
    (fragment o { marker := listMarker o ordered alternate number } n).text
      :: items o ordered alternate (number + 1) ns

/-- The rows of a table. -/
def rows (o : Options) (marker : Text) : List Node → List (List Cell)
  | [] => []
  | .tableRow nodes _ :: ns => cells o marker nodes :: rows o marker ns
  | _ :: ns => [] :: rows o marker ns

/-- A cell of a row. Inline content makes a cell of any node that holds some. -/
def cell (o : Options) (marker : Text) : Node → Cell
  | .tableCell content alignment _ _ =>
    ⟨cellContent o (joinFragments o (fragments o marker content)), alignment⟩
  | .heading _ content _ | .paragraph content _ | .emphasis content _ | .strong content _
  | .strikethrough content _ | .link _ content _ _ =>
    ⟨cellContent o (joinFragments o (fragments o marker content)), none⟩
  | _ => ⟨[], none⟩

/-- The cells of a row. -/
def cells (o : Options) (marker : Text) : List Node → List Cell
  | [] => []
  | n :: ns => cell o marker n :: cells o marker ns

end

/-- Inline content as text. -/
def inline (o : Options) (content : List Node) : Text :=
  joinFragments o (fragments o [o.bulletMarker.char] content)

/-- Sibling blocks as text. -/
def blocks (o : Options) (children : List Node) : Text :=
  blocksAfter o [o.bulletMarker.char] false none children

/-- A node as text, outside every list. -/
def body (o : Options) (n : Node) : Text :=
  (fragment o { marker := [o.bulletMarker.char] } n).text

/-- A text with its line ends normalized and exactly one line feed at the end. -/
def finish (t : Text) : Text :=
  Text.trimRight (Text.normalizeLineEnds t) ++ ['\n']

/-- The Markdown text of a document. -/
def render (o : Options) (n : Node) : Text :=
  finish (body o n)

end DocumentTree.Markdown
