import DocumentTree.HeadingLevel
import DocumentTree.Value.Display

/-!
# Reading properties

The properties of an element are free-form. Reading one checks its type and never converts: a
missing property is no error and gives a default, a value of another type is one.

## Main definitions

* `PropertyError` — why a property cannot be read, and its `message`.
* `Property.string?`, `Property.flag?`, `Property.number?` — properties that may be missing.
* `Property.string`, `Property.flag`, `Property.number` — the same with another word for the
  expected type; the caller supplies the default.
* `Property.headingLevel`, `Property.alignment?` — the two that restrict the value.
* `Invariant.check` — a condition that must hold.
-/

namespace DocumentTree

/-- Why a property cannot be read. -/
inductive PropertyError where
  /-- The value has another type than expected. -/
  | wrongType (expected : String) (found : Value) (name : Option String)
  /-- The string names no alignment. -/
  | unknownAlignment (found : String) (name : Option String)

namespace Property

/-- The strings that an alignment property may hold; the last one stands for no alignment. -/
def alignmentNames : List String := ["left", "center", "right", "none"]

/-- The alignment names in one line. -/
def alignmentList : String := ", ".intercalate alignmentNames

end Property

namespace PropertyError

/-- What was expected. -/
def expected : PropertyError → String
  | wrongType expected _ _ => expected
  | unknownAlignment _ _ => "one of " ++ Property.alignmentList

/-- The name of the property, where the reader was told one. -/
def name : PropertyError → Option String
  | wrongType _ _ name => name
  | unknownAlignment _ name => name

/-- The wording of the error. An empty name is not mentioned. -/
def message : PropertyError → String
  | wrongType expected found name =>
    let place :=
      match name with
      | none => ""
      | some "" => ""
      | some name => " for property '" ++ name ++ "'"
    "Expected " ++ expected ++ place ++ ", got " ++ found.typeName
  | unknownAlignment found _ =>
    "Invalid alignment " ++ (Value.str found).quotedString ++ "; expected one of "
      ++ Property.alignmentList

end PropertyError

namespace Property

/-- Reading of a value that may be missing, by a partial reader and a word for what it expects. -/
def read {α : Type} (expected : String) (reader : Value → Option α) (name : Option String) :
    Value → Except PropertyError (Option α)
  | .null => .ok none
  | v =>
    match reader v with
    | some a => .ok (some a)
    | none => .error (.wrongType expected v name)

/-- The string that a value is. -/
def asString : Value → Option String
  | .str s => some s
  | _ => none

/-- The truth value that a value is. -/
def asFlag : Value → Option Bool
  | .bool b => some b
  | _ => none

/-- A string that may be missing. -/
def string? (name : Option String) (v : Value) : Except PropertyError (Option String) :=
  read "string or None" asString name v

/-- A string; a missing one is left to the caller's default. -/
def string (name : Option String) (v : Value) : Except PropertyError (Option String) :=
  read "string" asString name v

/-- A truth value that may be missing. -/
def flag? (name : Option String) (v : Value) : Except PropertyError (Option Bool) :=
  read "boolean or None" asFlag name v

/-- A truth value; a missing one is left to the caller's default. -/
def flag (name : Option String) (v : Value) : Except PropertyError (Option Bool) :=
  read "boolean" asFlag name v

/-- A number that may be missing. -/
def number? (name : Option String) (v : Value) : Except PropertyError (Option Number) :=
  read "number or None" Number.ofValue? name v

/-- A number; a missing one is left to the caller's default. -/
def number (name : Option String) (v : Value) : Except PropertyError (Option Number) :=
  read "number" Number.ofValue? name v

/-- The level of a heading from its depth. The default is clamped as well. -/
def headingLevel (default : Number) (name : Option String) (v : Value) :
    Except PropertyError HeadingLevel := do
  let depth ← number name v
  return HeadingLevel.clamp (depth.getD default)

/-- The alignment of a cell. The name for no alignment counts as a missing one. -/
def alignment? (name : Option String) (v : Value) : Except PropertyError (Option String) := do
  match ← string? name v with
  | none => return none
  | some align =>
    if align ∈ alignmentNames then return if align = "none" then none else some align
    else throw (.unknownAlignment align name)

end Property

/-- A condition that should have held. -/
structure BrokenInvariant where
  /-- What went wrong. -/
  description : String

namespace BrokenInvariant

/-- The wording of the error. -/
def message (e : BrokenInvariant) : String :=
  "Invariant failed: " ++ e.description

end BrokenInvariant

/-- A condition that must hold, with the description of its failure. -/
def Invariant.check (condition description : Value) : Except BrokenInvariant Unit :=
  if condition.isTruthy then .ok () else .error ⟨description.plain⟩

end DocumentTree
