import DocumentTree.Document.Lowering
import DocumentTree.Markdown.Writable
import DocumentTree.Store.Mutation

/-!
# Events of a rendering

What happens while a tree is rendered, as far as a log of it shows. An event has a source, which is
the name it is logged under, and a wording. How long a stage took is not known to the event itself,
so the wording takes it from outside.

## Main definitions

* `Event` — the events.
* `Event.source`, `Event.message` — the name of an event's source, and its wording.
-/

namespace DocumentTree

/-- What happens while a tree is rendered. -/
inductive Event where
  /-- A key of the options was ignored. -/
  | ignoredOption (key : Key)
  /-- The store reports. -/
  | store (notice : StoreNotice)
  /-- The tree to be rendered, in outline. -/
  | tree (outline : Text)
  /-- The lowering reports. -/
  | lowering (notice : LoweringNotice)
  /-- The lowering is complete. -/
  | lowered
  /-- The document, in outline. -/
  | document (outline : Text)
  /-- A table was left out. -/
  | skippedTable (reason : Markdown.SkippedTable)
  /-- The writing is complete. -/
  | written
  /-- The text, as it was written. -/
  | text (output : Text)

namespace Event

/-- The name under which an event is logged. -/
def source : Event → String
  | ignoredOption _ => "mdtree.options.base"
  | store _ => "mdtree.tree.store"
  | lowering _ => "mdtree.ast.lowering"
  | skippedTable _ => "mdtree.renderers.markdown"
  | tree _ | lowered | document _ | written | text _ => "mdtree.api"

/-- The wording of an event; `elapsed` says how many seconds a completed stage took. -/
def message (elapsed : String) : Event → String
  | ignoredOption key => Markdown.Options.ignoredKeyMessage key
  | store notice => notice.message
  | tree outline => "Generic tree:\n" ++ String.ofList outline
  | lowering notice => notice.message
  | lowered => "Lowering completed in " ++ elapsed ++ "s"
  | document outline => "Markdown AST:\n" ++ String.ofList outline
  | skippedTable reason => reason.message
  | written => "Rendering completed in " ++ elapsed ++ "s"
  | text output => "Rendered Markdown:\n" ++ String.ofList output

end Event

end DocumentTree
