import DocumentTree.HeadingLevel
import DocumentTree.Markdown.Code
import DocumentTree.Markdown.EscapeItems
import DocumentTree.Markdown.Link
import DocumentTree.Value.Count
import DocumentTree.Value.Mapping

/-!
# Functions on texts, called by name

The functions that escape and delimit texts can be called by name, with any data for arguments.
Data that is no text is refused, but for three cases. A function that has nothing to do on what
counts as empty gives it back as it is. The functions that count a run count it in any sequence. And
running text may be given in parts, as a sequence of texts.

## Main definitions

* `TextFunction`, `TextFunction.ofName?` — the functions there are.
* `CallError` — why a call is refused.
-/

namespace DocumentTree.Markdown

/-- Why a call is refused. -/
inductive CallError where
  /-- There are too few or too many arguments. -/
  | argumentCount
  /-- An argument has a type that the function cannot work on. -/
  | wrongType
  /-- An argument lacks an operation that texts have. -/
  | noOperation
  /-- A map has no entry for the position of a neighbour. -/
  | missing (position : Nat)
  /-- An integer beyond every floating-point number was to be multiplied with one. -/
  | outOfRange
  /-- Something was to be repeated, and cannot be as often. -/
  | count (e : CountError)

/-- The wording of the error, where it has one. -/
def CallError.message? : CallError → Option String
  | missing position => some (toString position)
  | _ => none

/-- A function on texts, as it is called. -/
abbrev TextFunction := List Value → Except CallError Value

namespace TextFunction

/-- A text as a value. -/
def value (t : Text) : Value :=
  .str (String.ofList t)

/-- A function of a single text. -/
def strict (fault : CallError) (f : Text → Text) : TextFunction
  | [.str s] => .ok (value (f s.toList))
  | [_] => .error fault
  | _ => .error .argumentCount

/-- A function of a single text that gives back what counts as empty. -/
def lenient (fault : CallError) (f : Text → Text) : TextFunction
  | [.str s] => .ok (value (f s.toList))
  | [v] => if v.isTruthy then .error fault else .ok v
  | _ => .error .argumentCount

/-- The refusal of parts that cannot be escaped. -/
def faultOf : ItemFault → CallError
  | .notAString => .wrongType
  | .neighbour => .noOperation
  | .missing position => .missing position

/-- Escaped running text, which may be given in parts. -/
def escapedText : TextFunction
  | [.list (item :: items)] => ((escapeList (item :: items)).mapError faultOf).map value
  | [.map (entry :: entries)] => ((escapeKeys (entry :: entries)).mapError faultOf).map value
  | args => lenient .wrongType escapeText args

/-- Escaped pipes. A sequence without a pipe among its items is given back like an empty one. -/
def escapedPipes : TextFunction
  | [.str s] => .ok (value (escapePipes s.toList))
  | [v] =>
    match v.sequence? with
    | some items => if items.any fun x => x.equal (.str "|") then .error .wrongType else .ok v
    | none => if v.isTruthy then .error .wrongType else .ok v
  | _ => .error .argumentCount

/-! ## Runs -/

/-- The length of the longest run of an item in a sequence. -/
def runOf (v item : Value) : Except CallError Nat :=
  match v.sequence? with
  | some items => .ok (longestRunFrom (fun x => x.equal item) 0 0 items)
  | none => .error .wrongType

/-- Whether a value can be multiplied by a count. -/
def isRepeatable : Value → Bool
  | .null | .map _ | .object .. => false
  | _ => true

/-- The body and the delimiter of a code span. What counts as empty, and a sequence without the
delimiter, are given back with it. -/
def codeParts (code delimiter : Value) : Except CallError Value :=
  match code, delimiter with
  | .str t, .str d =>
    let (body, delimiter) := spanDelimiter d.toList t.toList
    .ok (.list [value body, value delimiter])
  | code, delimiter =>
    if !code.isTruthy then .ok (.list [code, delimiter])
    else do
      let run ← runOf code delimiter
      if run = 0 then return .list [code, delimiter]
      throw (if isRepeatable delimiter then .noOperation else .wrongType)

/-- Whether a number is less than a count. What is no number is not. -/
def isBelow (count : Nat) : Number → Bool
  | .int i => i < count
  | .float (.infinite negative) => negative
  | .float x => (x.trunc?.map fun (i : Int) => decide (i < count)).getD false

/-- The number that counts or is counted; a truth value counts as one. -/
def countOf? : Value → Option Number
  | .bool b => some (.int b.toInt)
  | .int i => some (.int i)
  | .float x => some (.float x)
  | _ => none

/-- The larger one of a minimum and a count. -/
def atLeast (minimum : Value) (count : Nat) : Except CallError Number :=
  match countOf? minimum with
  | some n => .ok (if isBelow count n then .int count else n)
  | none => .error .wrongType

/-- A number as a floating-point one. -/
def toDouble : Number → Except CallError Double
  | .int i =>
    match Double.ofInt? i with
    | some x => .ok x
    | none => .error .outOfRange
  | .float x => .ok x

/-- A product of numbers, which is an integer only if both are. -/
def product : Number → Number → Except CallError Number
  | .int i, .int j => .ok (.int (i * j))
  | m, n => do
    let x ← toDouble m
    let y ← toDouble n
    return .float (x.mul y)

/-- A value multiplied by a number: a text or a list is repeated, a number multiplied. -/
def multiple (n : Number) (v : Value) : Except CallError Value :=
  match v, n with
  | .str s, .int n => ((repetition n s.toList).map value).mapError .count
  | .list items, .int n => ((listRepetition n items).map .list).mapError .count
  | v, n =>
    match countOf? v with
    | some m => (product m n).map Number.toValue
    | none => .error .wrongType

/-- A fence for content. -/
def fenceFor (content delimiter minimum : Value) : Except CallError Value := do
  let run ← runOf content delimiter
  multiple (← atLeast minimum (run + 1)) delimiter

/-- The functions, by name. -/
def ofName? : String → Option TextFunction
  | "collapse_whitespace" => some (strict .wrongType Text.collapseBlanks)
  | "escape_markdown_text" => some escapedText
  | "escape_block_start" => some (lenient .wrongType escapeBlockStart)
  | "escape_heading_content" => some (strict .wrongType escapeClosingHashes)
  | "escape_table_cell" => some escapedPipes
  | "escape_link_text" => some (lenient .noOperation escapeBrackets)
  | "format_link_destination" => some (strict .noOperation destination)
  | "format_link_title" => some (strict .noOperation title)
  | "escape_inline_code" => some fun
    | [code] => codeParts code (.str "`")
    | [code, delimiter] => codeParts code delimiter
    | _ => .error .argumentCount
  | "longest_run" => some fun
    | [v, item] => (runOf v item).map fun n => .int n
    | _ => .error .argumentCount
  | "code_fence_for" => some fun
    | [content] => fenceFor content (.str "`") (.int 3)
    | [content, delimiter] => fenceFor content delimiter (.int 3)
    | [content, delimiter, minimum] => fenceFor content delimiter minimum
    | _ => .error .argumentCount
  | _ => none

end TextFunction

end DocumentTree.Markdown
