import DocumentTree.Document.Decoding
import DocumentTree.Json.Reader
import DocumentTree.Json.Writer

/-!
# Documents as JSON

## Main definitions

* `Node.toJson` — the JSON text of a node.
* `RawNode.ofJson` — the raw node that a JSON text denotes, and `JsonError`, why there is none.
* `Node.ofJson` — the node of a document that a JSON text denotes.
-/

namespace DocumentTree

/-- Why a text denotes no node. -/
inductive JsonError where
  /-- The text is not JSON. -/
  | malformed
  /-- The JSON value is not the form of a node. -/
  | decode (error : DecodeError)

namespace Node

/-- The JSON text of a node, on one line or indented. -/
def toJson (layout : Json.Layout) (n : Node) : Text :=
  Json.write layout n.toVersioned

end Node

/-- The raw node that a JSON text denotes. -/
def RawNode.ofJson (t : Text) : Except JsonError RawNode :=
  match Json.read? t with
  | none => .error .malformed
  | some v => (ofVersioned v).mapError .decode

/-- The node of a document that a JSON text denotes. -/
def Node.ofJson (t : Text) : Except JsonError Node := do
  let n ← RawNode.ofJson t
  n.typed.mapError .decode

end DocumentTree
