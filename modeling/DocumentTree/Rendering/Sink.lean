import DocumentTree.Markdown.Writable

/-!
# Writing documents to sinks

The text of a document is returned, written to a file, or written to a stream. Files and binary
streams take UTF-8, other streams take text. A stream that does not say what it is counts as binary
if its mode says so.

## Main definitions

* `Sink`, `Written` — where a text goes, and what arrives there.
* `writeDocument` — the writing of a document.
* `WriteError` — why nothing is written.
-/

namespace DocumentTree

open Markdown (GivenOptions Options OptionsError)

/-- Where a text goes. -/
inductive Sink where
  /-- Back to the caller. -/
  | caller
  /-- To the file at a path. -/
  | file
  /-- To a stream of text. -/
  | textStream
  /-- To a stream of bytes. -/
  | byteStream
  /-- To a stream that may state a mode. -/
  | stream (mode : Option Value)
  /-- To a value that nothing can be written to. -/
  | value (v : Value)

/-- What arrives at a sink. -/
inductive Written where
  /-- The text as the caller's result. -/
  | returned (t : Text)
  /-- The contents of a file. -/
  | file (bytes : ByteArray)
  /-- A piece of text. -/
  | text (t : Text)
  /-- A piece of bytes. -/
  | bytes (bytes : ByteArray)

/-- Why a document is not written. -/
inductive WriteError where
  /-- The options are refused. -/
  | options (error : OptionsError)
  /-- A table of the document cannot be read as a grid. -/
  | malformedTable
  /-- The sink takes no text. -/
  | unsupported (sink : Value)

/-- The wording of the error, where it has one of its own. -/
def WriteError.message? : WriteError → Option String
  | options error => error.message?
  | malformedTable => none
  | unsupported sink => some ("Unsupported output type: " ++ sink.typeName)

/-- A text in UTF-8. -/
def utf8 (t : Text) : ByteArray :=
  (String.ofList t).toUTF8

/-- Whether the mode of a stream asks for bytes. -/
def isBinaryMode : Option Value → Bool
  | some (.str mode) => mode.toList.contains 'b'
  | _ => false

/-- What of a text arrives at a sink. -/
def Sink.receive (t : Text) : Sink → Except WriteError Written
  | caller => .ok (.returned t)
  | file => .ok (.file (utf8 t))
  | textStream => .ok (.text t)
  | byteStream => .ok (.bytes (utf8 t))
  | stream mode => .ok (if isBinaryMode mode then .bytes (utf8 t) else .text t)
  | value v => .error (.unsupported v)

/-- The text of a document under settled options. -/
def textOf (o : Options) (n : Node) : Except WriteError Text :=
  match Markdown.write? o n with
  | some t => .ok t
  | none => .error .malformedTable

/-- A document written to a sink. -/
def writeDocument (given : GivenOptions) (n : Node) (sink : Sink) : Except WriteError Written := do
  let o ← (given.resolve []).result.mapError .options
  sink.receive (← textOf o n)

/-- The text of a document for a writer that is given its options directly. -/
def directText (given : GivenOptions) (n : Node) : Except WriteError Text := do
  let o ← given.direct.mapError .options
  textOf o n

end DocumentTree
