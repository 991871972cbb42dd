import DocumentTree.Document.Node

/-!
# Documents as data

Every node has a form as free-form data: a map from field names to values that names the node's kind
first. Fields at their defaults are left out where nothing is lost by it, and an empty string is
kept apart from a missing one.

At the top, the map also carries the version of this form.

## Main definitions

* `Node.toValue` — a node as data.
* `Node.toVersioned` — the same with the version at the top.
-/

namespace DocumentTree

namespace Node

/-- A string that may be missing, as data. -/
def optionalValue : Option String → Value
  | none => .null
  | some s => .str s

/-- The entry of a field that may be missing. -/
def optionalEntry (name : String) : Option String → Entries
  | none => []
  | some s => [(name, .str s)]

/-- The entry of a field that counts as missing when it is empty. -/
def filledEntry (name : String) : Option String → Entries
  | none => []
  | some s => if s = "" then [] else [(name, .str s)]

/-- The entry of the metadata, unless there is none. -/
def metadataEntry (metadata : Metadata) : Entries :=
  if metadata.isEmpty then [] else [("metadata", .map metadata)]

/-- The entry of a flag, unless it is false. -/
def raisedEntry (name : String) (flag : Bool) : Entries :=
  if flag then [(name, .bool true)] else []

mutual

/-- The fields of a node as entries, its kind first. -/
def toEntries : Node → Entries
  | document children m =>
    ("node_type", .str "Document") :: ("children", .list (toValues children)) :: metadataEntry m
  | blockQuote children m =>
    ("node_type", .str "BlockQuote") :: ("children", .list (toValues children)) :: metadataEntry m
  | heading level content m =>
    ("node_type", .str "Heading") :: ("level", .int level.val)
      :: ("content", .list (toValues content)) :: metadataEntry m
  | paragraph content m =>
    ("node_type", .str "Paragraph") :: ("content", .list (toValues content)) :: metadataEntry m
  | codeBlock content language m =>
    ("node_type", .str "CodeBlock") :: ("content", .str content)
      :: (optionalEntry "language" language ++ metadataEntry m)
  | list ordered items start m =>
    ("node_type", .str "List") :: ("ordered", .bool ordered) :: ("start", .int start)
      :: ("items", .list (toValues items)) :: metadataEntry m
  | listItem children status m =>
    ("node_type", .str "ListItem") :: ("children", .list (toValues children))
      :: (metadataEntry m ++ filledEntry "task_status" status)
  | table rows m =>
    ("node_type", .str "Table") :: ("rows", .list (toValues rows)) :: metadataEntry m
  | tableRow cells m =>
    ("node_type", .str "TableRow") :: ("cells", .list (toValues cells)) :: metadataEntry m
  | tableCell content alignment header m =>
    ("node_type", .str "TableCell") :: ("content", .list (toValues content))
      :: (metadataEntry m ++ filledEntry "alignment" alignment ++ raisedEntry "is_header" header)
  | thematicBreak m => ("node_type", .str "ThematicBreak") :: metadataEntry m
  | text content m =>
    ("node_type", .str "Text") :: ("content", .str content) :: metadataEntry m
  | emphasis content m =>
    ("node_type", .str "Emphasis") :: ("content", .list (toValues content)) :: metadataEntry m
  | strong content m =>
    ("node_type", .str "Strong") :: ("content", .list (toValues content)) :: metadataEntry m
  | strikethrough content m =>
    ("node_type", .str "Strikethrough") :: ("content", .list (toValues content))
      :: metadataEntry m
  | code content m =>
    ("node_type", .str "Code") :: ("content", .str content) :: metadataEntry m
  | link url content title m =>
    ("node_type", .str "Link") :: ("url", .str url) :: ("content", .list (toValues content))
      :: (optionalEntry "title" title ++ metadataEntry m)
  | image url alternative title m =>
    ("node_type", .str "Image") :: ("url", .str url) :: ("alt_text", .str alternative)
      :: (optionalEntry "title" title ++ metadataEntry m)

/-- Nodes as data, in order. -/
def toValues : List Node → List Value
  | [] => []
  | n :: ns => .map (toEntries n) :: toValues ns

end

/-- A node as data. -/
def toValue (n : Node) : Value :=
  .map (toEntries n)

/-- The version of this form. -/
def version : Int := 1

/-- The form of a node with the version in front. -/
def toVersioned (n : Node) : Value :=
  .map (("schema_version", .int version) :: n.toEntries)

end Node

/-- Why a value that is no node has no form. -/
def notANodeMessage (v : Value) : String :=
  "Unknown node type for serialization: " ++ v.typeName

end DocumentTree
