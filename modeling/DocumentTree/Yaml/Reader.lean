import DocumentTree.Yaml.Scalar

/-!
# Reading a restricted YAML

The part of YAML that configuration is written in: comments, block mappings and block sequences,
plain and quoted scalars, and sequences and mappings between brackets on one line. A plain scalar
may go on over several lines. This is no reader of all of YAML: tags, anchors and aliases, block
scalars and documents in a row have no form here, so the reader makes nothing of them, well formed
as they are.

A document is cut into lines first; the structure of a block is in the indents of its lines.

## Main definitions

* `Line`, `linesOf` — the lines of a document that are neither blank nor comments.
* `readFlow` — a value on one line.
* `readBlock` — a value over several lines.
* `Yaml.readRestricted?` — the value of a whole document, if it is written in this part.
-/

namespace DocumentTree.Yaml

/-! ## Values on one line -/

/-- The text behind spaces. -/
def skipSpaces (t : Text) : Text :=
  t.dropWhile (· = ' ')

mutual

/-- A value between brackets or inside them. -/
def readFlow : (fuel : Nat) → Text → Option (Value × Text)
  | 0, _ => none
  | fuel + 1, t =>
    match t with
    | '[' :: rest => do
      let (items, rest) ← readFlowItems fuel (skipSpaces rest)
      return (.list items, rest)
    | '\x7b' :: rest => do
      let (entries, rest) ← readFlowEntries fuel (skipSpaces rest)
      return (.map (Entries.ofList entries), rest)
    | '\'' :: _ | '"' :: _ => do
      let (s, rest) ← readQuoted t
      return (.str s, rest)
    | t => do
      let (body, rest) ← readPlain true t
      return (← resolve body, rest)

/-- The items of a sequence up to its closing bracket; a comma may stand before it. -/
def readFlowItems : (fuel : Nat) → Text → Option (List Value × Text)
  | 0, _ => none
  | fuel + 1, t =>
    match t with
    | ']' :: rest => some ([], rest)
    | t => do
      let (v, rest) ← readFlow fuel t
      match skipSpaces rest with
      | ',' :: rest => do
        let (items, rest) ← readFlowItems fuel (skipSpaces rest)
        return (v :: items, rest)
      | ']' :: rest => return ([v], rest)
      | _ => none

/-- The entries of a mapping up to its closing brace; a comma may stand before it. -/
def readFlowEntries : (fuel : Nat) → Text → Option (List (Key × Value) × Text)
  | 0, _ => none
  | fuel + 1, t =>
    match t with
    | '\x7d' :: rest => some ([], rest)
    | t => do
      let (key, rest) ← readKey true t
      let (v, rest) ← readFlowValue fuel (skipSpaces rest)
      match skipSpaces rest with
      | ',' :: rest => do
        let (entries, rest) ← readFlowEntries fuel (skipSpaces rest)
        return ((key, v) :: entries, rest)
      | '\x7d' :: rest => return ([(key, v)], rest)
      | _ => none

/-- What stands behind a key: a colon and a value, a colon only, or nothing. -/
def readFlowValue : (fuel : Nat) → Text → Option (Value × Text)
  | 0, _ => none
  | fuel + 1, t =>
    match t with
    | ':' :: rest =>
      match skipSpaces rest with
      | ',' :: _ | '\x7d' :: _ => some (.null, skipSpaces rest)
      | rest => readFlow fuel rest
    | t => some (.null, t)

end

/-! ## Lines -/

/-- A line of a document. -/
structure Line where
  /-- The number of blank lines before it. -/
  gap : Nat
  /-- Whether a comment line stands between it and its predecessor. -/
  afterComment : Bool
  /-- The number of spaces it starts with. -/
  indent : Nat
  /-- The text behind them. -/
  text : Text

/-- The lines that are neither blank nor comments, given what stands before them. -/
def linesFrom (gap : Nat) (afterComment : Bool) : List Text → List Line
  | [] => []
  | line :: rest =>
    let text := skipSpaces line
    match text with
    | [] => linesFrom (gap + 1) afterComment rest
    | '#' :: _ => linesFrom gap true rest
    | _ => ⟨gap, afterComment, line.length - text.length, text⟩ :: linesFrom 0 false rest

/-- The lines of a document that are neither blank nor comments. -/
def linesOf (t : Text) : List Line :=
  linesFrom 0 false (Text.lines t)

/-- Whether nothing but a comment is left of a line. -/
def isDone (t : Text) : Bool :=
  match skipSpaces t with
  | [] | '#' :: _ => true
  | _ => false

/-- The text of an item of a block sequence, and the distance to it from the line's start. -/
def itemText? : Text → Option (Nat × Text)
  | '-' :: rest =>
    if startsBlank rest then
      let text := skipSpaces rest
      some (1 + (rest.length - text.length), text)
    else none
  | _ => none

/-- The key of an entry of a block mapping, and the text behind its colon. -/
def entryText? (t : Text) : Option (Key × Text) := do
  let (key, rest) ← readKey false t
  match skipSpaces rest with
  | ':' :: rest => if startsBlank rest then some (key, skipSpaces rest) else none
  | _ => none

/-! ## Scalars over several lines -/

/-- The line breaks between two parts of a plain scalar: a single one is a space. -/
def fold (gap : Nat) : Text :=
  if gap = 0 then [' '] else List.replicate gap '\n'

/-- The further lines of a plain scalar, which are indented more than its parent, and the lines
behind them. -/
def readContinuation (isInside : Nat → Bool) (body : Text) :
    List Line → Option (Text × List Line)
  | [] => some (body, [])
  | line :: rest =>
    if line.afterComment || !isInside line.indent then some (body, line :: rest)
    else
      let (part, later) := spanPlain false true line.text
      let body := body ++ fold line.gap ++ Text.dropRightWhile (· = ' ') part
      match later with
      | [] => readContinuation isInside body rest
      | '#' :: _ => some (body, rest)
      | _ => none

/-- A value that starts on a line outside brackets; `isInside` says which indents are those of
further lines. -/
def readInline (isInside : Nat → Bool) (t : Text) (lines : List Line) :
    Option (Value × List Line) :=
  match t with
  | '[' :: _ | '\x7b' :: _ | '\'' :: _ | '"' :: _ => do
    let (v, rest) ← readFlow (t.length + 1) t
    if isDone rest then some (v, lines) else none
  | t => do
    let (body, rest) ← readPlain false t
    match rest with
    | [] => do
      let (body, lines) ← readContinuation isInside body lines
      return (← resolve body, lines)
    | '#' :: _ => return (← resolve body, lines)
    | _ => none

/-! ## Blocks -/

/-- Whether the first line is an item at an indent. -/
def isItemAt (indent : Nat) : List Line → Bool
  | line :: _ => line.indent = indent && (itemText? line.text).isSome
  | [] => false

/-- Whether the first line is indented more than a block. -/
def isDeeper (indent : Nat) : List Line → Bool
  | line :: _ => indent < line.indent
  | [] => false

mutual

/-- The value that starts with the first line; `isInside` says which indents are those of its
further lines, if it is a plain scalar. -/
def readBlock : (fuel : Nat) → (isInside : Nat → Bool) → List Line → Option (Value × List Line)
  | 0, _, _ => none
  | _, _, [] => some (.null, [])
  | fuel + 1, isInside, line :: rest =>
    if (itemText? line.text).isSome then do
      let (items, rest) ← readItems fuel line.indent (line :: rest)
      return (.list items, rest)
    else if (entryText? line.text).isSome then do
      let (entries, rest) ← readEntries fuel line.indent (line :: rest)
      return (.map (Entries.ofList entries), rest)
    else readInline isInside line.text rest

/-- The items of a block sequence at an indent. -/
def readItems : (fuel : Nat) → (indent : Nat) → List Line → Option (List Value × List Line)
  | 0, _, _ => none
  | _, _, [] => some ([], [])
  | fuel + 1, indent, line :: rest =>
    if line.indent < indent then some ([], line :: rest)
    else
      match itemText? line.text with
      | none => if line.indent = indent then some ([], line :: rest) else none
      | some (offset, text) =>
        if line.indent ≠ indent then none
        else do
          let (v, rest) ←
            if isDone text then
              if isDeeper indent rest then readBlock fuel (fun other => indent < other) rest
              else some (.null, rest)
            else if (itemText? text).isSome || (entryText? text).isSome then
              readBlock fuel (fun other => indent < other)
                ({ line with indent := indent + offset, text } :: rest)
            else readInline (fun other => indent < other) text rest
          let (items, rest) ← readItems fuel indent rest
          return (v :: items, rest)

/-- The entries of a block mapping at an indent. -/
def readEntries : (fuel : Nat) → (indent : Nat) → List Line →
    Option (List (Key × Value) × List Line)
  | 0, _, _ => none
  | _, _, [] => some ([], [])
  | fuel + 1, indent, line :: rest =>
    if line.indent < indent then some ([], line :: rest)
    else if line.indent ≠ indent || (itemText? line.text).isSome then none
    else do
      let (key, text) ← entryText? line.text
      let (v, rest) ←
        if isDone text then
          if isDeeper indent rest || isItemAt indent rest then
            readBlock fuel (fun other => indent < other) rest
          else some (.null, rest)
        else if (itemText? text).isSome then none
        else readInline (fun other => indent < other) text rest
      let (entries, rest) ← readEntries fuel indent rest
      return ((key, v) :: entries, rest)

end

/-! ## Documents -/

/-- Whether a character may stand in a document. -/
def isAllowed (c : Char) : Bool :=
  c = '\t' || c = '\n' || (' ' ≤ c && c ≤ '~') || c = '\u0085'
    || (0xA0 ≤ c.toNat && c ≠ '\ufffe' && c ≠ '\uffff')

/-- The text without the mark that may stand at its start. -/
def cutMark : Text → Text
  | '\ufeff' :: rest => rest
  | t => t

/-- The lines behind the line that may open a document. -/
def cutOpening : List Line → List Line
  | line :: rest => if line.indent = 0 && line.text = ['-', '-', '-'] then rest else line :: rest
  | [] => []

/-- The value of a document that is written in this part of YAML; an empty one is null. -/
def readRestricted? (t : Text) : Option Value := do
  let t := Text.normalizeLineEnds t
  if !t.all isAllowed then none
  let (v, rest) ← readBlock (2 * t.length + 2) (fun _ => true) (cutOpening (linesOf (cutMark t)))
  if rest.isEmpty then some v else none

end DocumentTree.Yaml
