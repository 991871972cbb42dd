import DocumentTree.Document.Node
import DocumentTree.Markdown.Code
import DocumentTree.Markdown.Options

/-!
# Layout of blocks

How a block is laid out once its parts are written: the lines of code blocks, quotes and items, the
markers of lists, and what separates siblings. Containers put something before every line of what
they hold, so no block needs to know how deep it stands.

## Main definitions

* `Placement` — what a block's surroundings decide about its form.
* `placementAfter`, `separator` — the form of a block after another, and what stands between.
* `codeBlock` — fenced or indented code.
* `quote`, `item` — lines put inside a quote or an item.
* `listMarker`, `markerText` — markers, and their spacing.
-/

namespace DocumentTree.Markdown

/-! ## Placement -/

/-- What the surroundings of a block decide about its form. -/
structure Placement where
  /-- The marker of the innermost list around the block, which a lone item takes. -/
  marker : Text
  /-- Whether a list uses the other marker of its kind. -/
  alternate : Bool := false
  /-- Whether code is fenced whatever the options say. -/
  fenced : Bool := false

/-- A block that has been written, as its successor sees it. -/
structure Predecessor where
  /-- The block. -/
  node : Node
  /-- Whether it was a list with the other marker. -/
  alternate : Bool

/-- Whether a block is written as indented code: code that is not blank and has no language, unless
the options ask for fences. -/
def isIndentedCode (o : Options) : Node → Bool
  | .codeBlock content language _ =>
    !(o.useFences || language.any (· ≠ "") || (Text.trim content.toList).isEmpty)
  | _ => false

/-- The placement of a block after its predecessor. A list right after one of its kind changes the
marker, so that the two stay apart; indented code right after a list would join its last item, so it
is fenced. -/
def placementAfter (o : Options) (marker : Text) (previous : Option Predecessor) (n : Node) :
    Placement :=
  match previous with
  | some ⟨.list before _ _ _, alternate⟩ =>
    match n with
    | .list ordered .. => { marker, alternate := before == ordered && !alternate }
    | n => { marker, fenced := isIndentedCode o n }
  | _ => { marker }

/-- Whether a block inside an item needs a blank line after a paragraph: another paragraph, a rule,
which would make a heading of it, and indented code, which would continue it. -/
def needsBlankLine (o : Options) : Node → Bool
  | .paragraph .. | .thematicBreak _ => true
  | n => isIndentedCode o n

/-- What stands between a block and its predecessor. Inside an item a single line break does, except
after a paragraph before what would be misread. -/
def separator (o : Options) (inItem : Bool) (previous : Option Predecessor) (n : Node) : Text :=
  match previous with
  | none => []
  | some ⟨previous, _⟩ =>
    if !inItem then ['\n', '\n']
    else
      match previous with
      | .paragraph .. => if needsBlankLine o n then ['\n', '\n'] else ['\n']
      | _ => ['\n']

/-! ## Code -/

/-- Code with each line indented, without line feeds at the end. -/
def indentedCode (content : Text) : Text :=
  Text.unlines
    ((Text.lines (Text.dropRightWhile (· = '\n') content)).map
      (Text.indentLine (Text.spaces 4)))

/-- The character of the fence around code: no backtick can stand behind a fence of backticks. -/
def fenceChar (o : Options) (info : Text) : Char :=
  if o.codeFenceChar = .backtick && info.contains '`' then Fence.tilde.char
  else o.codeFenceChar.char

/-- Content closed by a line feed, unless it is empty. -/
def closeLine (content : Text) : Text :=
  if content.isEmpty || content.getLast? = some '\n' then content else content ++ ['\n']

/-- Code between fences. -/
def fencedCode (o : Options) (info content : Text) : Text :=
  let fence := fence [fenceChar o info] 3 content
  fence ++ info ++ ['\n'] ++ closeLine content ++ fence

/-! ## Quotes -/

/-- A line of a quote. -/
def quoteLine (line : Text) : Text :=
  if line.isEmpty then ['>'] else ['>', ' '] ++ line

/-- A text as a quote. -/
def quote (body : Text) : Text :=
  Text.unlines ((Text.lines body).map quoteLine)

/-! ## Lists -/

/-- The bullet of a list after a list of the same kind. -/
def alternateBullet (o : Options) : Bullet :=
  if o.bulletMarker = .dash then .star else .dash

/-- The marker of an item, by the number of the item in its list. -/
def listMarker (o : Options) (ordered alternate : Bool) (number : Int) : Text :=
  if ordered then integerText number ++ [if alternate then ')' else '.']
  else [if alternate then (alternateBullet o).char else o.bulletMarker.char]

/-- The distance between tab stops. -/
def tabStop : Nat := 4

/-- A marker with its spacing. -/
def markerText (o : Options) (marker : Text) : Text :=
  match o.listIndent with
  | .oneSpace => marker ++ [' ']
  | .tabWidth => Text.padRight ((marker.length + 1 + (tabStop - 1)) / tabStop * tabStop) marker

/-- The box of a task; an item that is no task has none. -/
def checkbox : Option String → Text
  | none => []
  | some status => if status = "checked" then ['[', 'x', ']', ' '] else ['[', ' ', ']', ' ']

/-- An item: its marker, its box, and its body. Later lines are indented by the width of the
marker and its spacing. -/
def item (o : Options) (marker : Text) (status : Option String) (body : Text) : Text :=
  let marker := markerText o marker
  let head := marker ++ checkbox status
  if body.isEmpty then Text.trimRight head
  else
    match Text.lines body with
    | [] => head
    | line :: lines =>
      Text.unlines ((head ++ line) :: lines.map (Text.indentLine (Text.spaces marker.length)))

/-! ## Headings -/

/-- A heading of a level; an empty one is its hashes only. -/
def heading (level : HeadingLevel) (content : Text) : Text :=
  let hashes := List.replicate level.val '#'
  if content.isEmpty then hashes else hashes ++ ' ' :: content

end DocumentTree.Markdown
