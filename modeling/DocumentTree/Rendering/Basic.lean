import DocumentTree.Document.Outline
import DocumentTree.Rendering.Event
import DocumentTree.Store.Description

/-!
# Rendering

A tree is rendered by lowering it to a document and writing the document as Markdown. Nothing is
kept between renderings. A rendering can be traced; it then shows the tree, the document and the
text on the way, with the same result.

There are four calls that render, each for another kind of input. Single settings are passed to a
call by name, so a setting cannot have the name of one of the call's own parameters; that is seen
before anything else is looked at.

## Main definitions

* `Call`, `Call.accept` — the calls, and the names that settings passed to them can have.
* `render`, `renderContainer` — the Markdown text of the tree under a handle, and of a container.
* `renderTraced`, `renderContainerTraced` — the same with the events on the way.
* `renderDescription` — the Markdown text of a description, built in a container of its own.
* `renderDocument` — the Markdown text of a document.
* `RenderError` — why there is no text.
-/

namespace DocumentTree

open Markdown (GivenOptions OptionsError)

/-- The calls that render. -/
inductive Call where
  /-- A description is rendered. -/
  | description
  /-- The tree of a container is rendered. -/
  | container
  /-- The tree under a handle is rendered. -/
  | tree
  /-- A document is written. -/
  | document

namespace Call

/-- The names of a call's own parameters. -/
def parameters : Call → List String
  | description => ["description", "options"]
  | container => ["container", "options"]
  | tree => ["store", "root", "options"]
  | document => ["ast_doc", "output", "options"]

/-- Whether a setting with a key can be passed to a call by name. -/
def accepts (call : Call) : Key → Bool
  | .str name => !call.parameters.contains name
  | _ => false

/-- Refuses settings that cannot be passed to a call by name. -/
def accept (call : Call) (overrides : Entries) : Except OptionsError Unit :=
  match overrides.find? fun setting => !call.accepts setting.1 with
  | some setting => .error (.unknownField setting.1)
  | none => .ok ()

end Call

/-- Why nothing is rendered. -/
inductive RenderError where
  /-- The options are refused. -/
  | options (error : OptionsError)
  /-- The description cannot be formed. -/
  | description (error : DescriptionError)
  /-- The description cannot be built. -/
  | store (error : StoreError)
  /-- The tree cannot be lowered. -/
  | lowering (error : LoweringError)

/-- The Markdown text of the tree under a handle. The options are settled first. -/
def render (s : Store) (root : Value) (given : GivenOptions) (overrides : Entries) :
    Except RenderError Text := do
  (Call.tree.accept overrides).mapError .options
  let o ← (given.resolve overrides).result.mapError .options
  let document ← (s.lower root).result.mapError .lowering
  return Markdown.render o document

/-- The Markdown text of a container's tree. -/
def renderContainer (c : Container) (given : GivenOptions) (overrides : Entries) :
    Except RenderError Text := do
  (Call.container.accept overrides).mapError .options
  render c.store c.rootHandle given overrides

/-- The Markdown text of the tree under a handle, with the events on the way. -/
def renderTraced (s : Store) (root : Value) (given : GivenOptions) (overrides : Entries) :
    Traced Event RenderError Text := do
  .lift ((Call.tree.accept overrides).mapError .options)
  let o ← ((given.resolve overrides).mapNotices Event.ignoredOption).mapError .options
  let tree ← .lift ((s.tree? root).mapError fun e => .lowering (.store e))
  .report (.tree (outlineOf 0 tree))
  let document ← ((s.lower root).mapNotices Event.lowering).mapError .lowering
  .report .lowered
  .report (.document (document.outline 0))
  .reportAll ((Markdown.skippedTables document).map Event.skippedTable)
  .report .written
  let text := Markdown.render o document
  .report (.text text)
  return text

/-- The Markdown text of a container's tree, with the events on the way. -/
def renderContainerTraced (c : Container) (given : GivenOptions) (overrides : Entries) :
    Traced Event RenderError Text := do
  .lift ((Call.container.accept overrides).mapError .options)
  renderTraced c.store c.rootHandle given overrides

/-- The container that mounting descriptions gives, with the reports on the way. -/
def mounted (description : Child) : Traced Event RenderError Container := do
  let elements ← .lift (description.items.mapError .description)
  let reply := mount elements {}
  { notices := reply.notices.map Event.store
    result := (reply.result.map fun _ => reply.after).mapError .store }

/-- The Markdown text of descriptions, built in a container of their own, with the events on the
way. -/
def renderDescription (description : Child) (given : GivenOptions) (overrides : Entries) :
    Traced Event RenderError Text := do
  .lift ((Call.description.accept overrides).mapError .options)
  renderContainerTraced (← mounted description) given overrides

/-- The Markdown text of a document, with the events on the way. -/
def renderDocument (n : Node) (given : GivenOptions) (overrides : Entries) :
    Traced Event RenderError Text := do
  .lift ((Call.document.accept overrides).mapError .options)
  let o ← ((given.resolve overrides).mapNotices Event.ignoredOption).mapError .options
  .reportAll ((Markdown.skippedTables n).map Event.skippedTable)
  return Markdown.render o n

end DocumentTree
