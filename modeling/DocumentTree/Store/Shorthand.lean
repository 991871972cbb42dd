import DocumentTree.Store.Description

/-!
# Shorthands for elements

Each kind of element has a shorthand that takes its properties as parameters: a heading takes its
depth first and then its children, a link its destination and children and, by name only, a title.
Arguments are bound to parameters in order and by name; a missing one takes its default. The
arguments in order are what may stand among children, and the first ones serve as values.

## Main definitions

* `Parameter`, `Shorthand` — the parameters of a shorthand and the element it stands for.
* `Shorthand.bind` — the values of the parameters, and the children that remain.
* `Shorthand.ofName?` — the shorthands there are.
* `Shorthand.apply` — the element that a call describes.
-/

namespace DocumentTree

/-- A parameter, with the value it takes when it is missing; one without must be given. -/
structure Parameter where
  /-- The name of the parameter. -/
  name : String
  /-- The value when it is missing. -/
  default? : Option Value

/-- A parameter that must be given. -/
def Parameter.required (name : String) : Parameter := ⟨name, none⟩

/-- A parameter that may be missing. -/
def Parameter.optional (name : String) (default : Value) : Parameter := ⟨name, some default⟩

/-- A shorthand: its parameters, whether children may follow, and the element it stands for. -/
structure Shorthand where
  /-- The parameters bound by position or name. -/
  positional : List Parameter := []
  /-- Whether further arguments are children. -/
  takesChildren : Bool := true
  /-- The parameters bound by name only. -/
  named : List Parameter := []
  /-- The role of the element, from the values of the parameters. -/
  role : Entries → Role
  /-- The properties of the element, from the values of the parameters. -/
  properties : Entries → Entries := fun _ => []

namespace Shorthand

/-- Arguments bound to parameters by position; gives the bound values and the arguments left. -/
def bindPositional : List Parameter → List Child → Entries × List Child
  | [], args => ([], args)
  | _ :: _, [] => ([], [])
  | p :: ps, a :: as =>
    let (bound, rest) := bindPositional ps as
    ((p.name, a.toValue) :: bound, rest)

/-- Named arguments added to bound values: each must name a parameter that is still free. -/
def bindNamed (parameters : List Parameter) : Entries → Entries → Except DescriptionError Entries
  | bound, [] => .ok bound
  | bound, (name, v) :: rest => do
    if !parameters.any (fun p => name = p.name) then throw .wrongArguments
    if (bound.get? name).isSome then throw .wrongArguments
    bindNamed parameters (bound ++ [(name, v)]) rest

/-- The value of every parameter, defaults included. -/
def complete (bound : Entries) : List Parameter → Except DescriptionError Entries
  | [] => .ok []
  | p :: ps => do
    let v ← match bound.get? p.name with
      | some v => pure v
      | none =>
        match p.default? with
        | some v => pure v
        | none => throw .wrongArguments
    let rest ← complete bound ps
    return (p.name, v) :: rest

/-- The values of the parameters, and the children that remain. -/
def bind (s : Shorthand) (args : List Child) (names : Entries) :
    Except DescriptionError (Entries × List Child) := do
  let (bound, rest) := bindPositional s.positional args
  if !s.takesChildren && !rest.isEmpty then throw .wrongArguments
  let parameters := s.positional ++ s.named
  let bound ← bindNamed parameters bound names
  let values ← complete bound parameters
  return (values, rest)

/-- The element that a call of a shorthand describes. -/
def apply (s : Shorthand) (args : List Child) (names : Entries) :
    Except DescriptionError Element := do
  let (values, children) ← s.bind args names
  Element.describe (s.role values).toValue (.map (s.properties values)) children

/-- The entry of a parameter that is left out when it is null. -/
def unlessNull (name : String) (values : Entries) : Entries :=
  match values.get name with
  | .null => []
  | v => [(name, v)]

/-- A shorthand without parameters. -/
def plain (role : Role) : Shorthand where
  role := fun _ => role

/-- The shorthands, by name. -/
def ofName? : String → Option Shorthand
  | "heading" => some
    { positional := [.required "depth"]
      role := fun _ => .heading
      properties := fun values => [("depth", values.get "depth")] }
  | "paragraph" => some (plain .paragraph)
  | "strong" => some (plain .strong)
  | "emphasis" => some (plain .emphasis)
  | "strikethrough" => some (plain .strikethrough)
  | "inline_code" => some
    { positional := [.required "value"]
      takesChildren := false
      role := fun _ => .inlineCode
      properties := fun values => [("value", values.get "value")] }
  | "code_block" => some
    { positional := [.required "value", .optional "language" .null]
      takesChildren := false
      role := fun _ => .code
      properties := fun values =>
        ("value", values.get "value") :: unlessNull "language" values }
  | "blockquote" => some (plain .blockquote)
  | "link" => some
    { positional := [.required "url"]
      named := [.optional "title" .null]
      role := fun _ => .link
      properties := fun values => ("url", values.get "url") :: unlessNull "title" values }
  | "image" => some
    { positional := [.required "url", .optional "alt" (.str ""), .optional "title" .null]
      takesChildren := false
      role := fun _ => .image
      properties := fun values =>
        ("url", values.get "url") :: ("alt", values.get "alt") :: unlessNull "title" values }
  | "list_" => some
    { named := [.optional "ordered" (.bool false), .optional "start" .null]
      role := fun _ => .list
      properties := fun values =>
        ("ordered", values.get "ordered") :: unlessNull "start" values }
  | "list_item" => some
    { named := [.optional "checked" .null]
      role := fun _ => .listItem
      properties := unlessNull "checked" }
  | "table" => some (plain .table)
  | "table_row" => some (plain .tableRow)
  | "table_cell" => some
    { named := [.optional "align" .null, .optional "header" (.bool false)]
      role := fun values => if (values.get "header").isTruthy then .tableHeader else .tableCell
      properties := unlessNull "align" }
  | "thematic_break" => some { plain .thematicBreak with takesChildren := false }
  | _ => none

end Shorthand

end DocumentTree
