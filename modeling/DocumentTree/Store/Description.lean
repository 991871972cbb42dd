import DocumentTree.Store.Container
import DocumentTree.Value.Mapping

/-!
# Descriptions of subtrees

A description says what a subtree shall look like without touching a store. The children of an
element may be texts, further elements, or sequences of them in any nesting; null and truth values
among them are left out, so that a part can be written conditionally. Building a description creates
and attaches the records from the inside out.

What may stand among children may also be given for a value, where it counts as data. An element is
none, and stands there as an object.

## Main definitions

* `Element` — a text, or an element with its children in order.
* `Child` — what may stand among children before flattening.
* `Child.flatten` — the texts and elements among children, in order.
* `Child.toValue` — what a child is as a value.
* `Element.build`, `mount` — creation of the records, and attachment at the top level.
-/

namespace DocumentTree

/-- A described subtree. The role is checked only when it is built. -/
inductive Element where
  | text (value : String)
  | element (role : Value) (properties : Entries) (children : List Element)

/-- What may stand among the children of an element. -/
inductive Child where
  /-- A described element. -/
  | item (element : Element)
  /-- Free-form data: strings are texts, null and truth values are left out. -/
  | data (v : Value)
  /-- A sequence, which is flattened in place. -/
  | sequence (children : List Child)
  deriving Inhabited

/-- Why a description cannot be formed. -/
inductive DescriptionError where
  /-- A number, or another object without items, stands among children. -/
  | notAChild
  /-- The properties are not a map. -/
  | properties (error : MappingError)
  /-- A helper was called with arguments it does not take. -/
  | wrongArguments

namespace Child

/-! ## Flattening -/

/-- The texts that a key stands for among children. -/
def textsOfKey : Key → Except DescriptionError (List Element)
  | .null | .bool _ => .ok []
  | .int _ | .float _ | .object .. => .error .notAChild
  | .str s => .ok [.text s]

/-- The texts that keys stand for among children, in order. -/
def textsOfKeys : List (Key × Value) → Except DescriptionError (List Element)
  | [] => .ok []
  | (key, _) :: rest => do
    let first ← textsOfKey key
    let others ← textsOfKeys rest
    return first ++ others

mutual

/-- The texts that data stands for among children. A map stands for the sequence of its keys. -/
def textsOf : Value → Except DescriptionError (List Element)
  | .null | .bool _ => .ok []
  | .int _ | .float _ | .object .. => .error .notAChild
  | .str s => .ok [.text s]
  | .list vs => textsOfAll vs
  | .map entries => textsOfKeys entries

/-- The texts that the items of a list stand for, in order. -/
def textsOfAll : List Value → Except DescriptionError (List Element)
  | [] => .ok []
  | v :: vs => do
    let first ← textsOf v
    let others ← textsOfAll vs
    return first ++ others

end

mutual

/-- The texts and elements that one child stands for. -/
def items : Child → Except DescriptionError (List Element)
  | item element => .ok [element]
  | data v => textsOf v
  | sequence children => flatten children

/-- The texts and elements among children, in order. -/
def flatten : List Child → Except DescriptionError (List Element)
  | [] => .ok []
  | child :: rest => do
    let first ← items child
    let others ← flatten rest
    return first ++ others

end

end Child

/-! ## Elements as values -/

namespace Element

mutual

/-- The form that shows a described subtree; a text shows like a string. -/
def shown : Element → Text
  | text value => Text.quoted value.toList
  | element role properties children =>
    "Element(role=".toList ++ role.quoted ++ ", properties=".toList ++ (Value.map properties).quoted
      ++ ", children=[".toList ++ shownAll children ++ "])".toList

/-- The forms of described subtrees, with commas between them. -/
def shownAll : List Element → Text
  | [] => []
  | [e] => shown e
  | e :: es => shown e ++ [',', ' '] ++ shownAll es

end

/-- A described subtree as a value: a text is a string, an element an object. -/
def toValue : Element → Value
  | text value => .str value
  | e@(element ..) => .object "Element" (String.ofList e.shown)

end Element

namespace Child

mutual

/-- What a child is as a value. -/
def toValue : Child → Value
  | item element => element.toValue
  | data v => v
  | sequence children => .list (toValues children)

/-- What children are as values, in order. -/
def toValues : List Child → List Value
  | [] => []
  | child :: rest => toValue child :: toValues rest

end

end Child

/-! ## Formation -/

/-- An element with flattened children. Properties that count as false are none. -/
def Element.describe (role properties : Value) (children : List Child) :
    Except DescriptionError Element := do
  let properties ←
    if properties.isTruthy then properties.toMapping.mapError .properties else pure []
  return .element role properties (← Child.flatten children)

/-! ## Building -/

namespace Element

mutual

/-- The records of a described subtree; gives the handle of its top. -/
def build : Element → Act NodeId
  | text value => Act.onStore fun s => s.createText (.str value)
  | element role properties children => do
    let n ← Act.onStore fun s => s.createElement role (.map properties)
    buildChildren n children
    return n

/-- The records of children, each attached to its parent as soon as it is complete. -/
def buildChildren (parent : NodeId) : List Element → Act Unit
  | [] => pure ()
  | child :: rest => do
    let c ← build child
    Act.onStore_ fun s => s.appendChild (.int parent) (.int c)
    buildChildren parent rest

end

end Element

/-- The records of a single text or element; nothing else can be built. -/
def Child.build : Child → Act NodeId
  | .item element => element.build
  | .data (.str text) => (Element.text text).build
  | _ => Act.refuse .notADescription

/-- Each described subtree built and attached at the top level, in order. -/
def mount : List Element → Act Unit
  | [] => pure ()
  | element :: rest => do
    let n ← element.build
    Container.append (.int n)
    mount rest

end DocumentTree
