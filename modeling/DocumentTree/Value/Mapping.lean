import DocumentTree.Value.Basic

/-!
# Values read as maps

Where a map is wanted, a sequence of pairs serves as well: each item is a key and a value. Of equal
keys the last value counts.

## Main definitions

* `Value.toMapping` — the map that a value stands for.
* `MappingError` — why it stands for none.
-/

namespace DocumentTree

/-- Why a value stands for no map. -/
inductive MappingError where
  /-- The value, or an item of it, has no items. -/
  | notASequence
  /-- An item has for its key what cannot be one. -/
  | noKey
  /-- An item has another number of items than two. -/
  | notAPair (index length : Nat)

/-- The wording of the error, where it has one. -/
def MappingError.message? : MappingError → Option String
  | notASequence | noKey => none
  | notAPair index length => some
    s!"dictionary update sequence element #{index} has length {length}; 2 is required"

namespace Value

/-- The items of a sequence: those of a list, the characters of a string, the keys of a map. -/
def sequence? : Value → Option (List Value)
  | list items => some items
  | str s => some (s.toList.map fun c => .str c.toString)
  | map entries => some (entries.map fun entry => entry.1.toValue)
  | _ => none

/-- The key and the value that an item stands for. -/
def toPair (index : Nat) (item : Value) : Except MappingError (Key × Value) :=
  match item.sequence? with
  | none => .error .notASequence
  | some [k, v] =>
    match k.key? with
    | some key => .ok (key, v)
    | none => .error .noKey
  | some items => .error (.notAPair index items.length)

/-- The pairs that items stand for, the first of which has an index. -/
def toPairs (index : Nat) : List Value → Except MappingError (List (Key × Value))
  | [] => .ok []
  | item :: items => do
    let pair ← toPair index item
    let pairs ← toPairs (index + 1) items
    return pair :: pairs

/-- The map that a value stands for. -/
def toMapping (v : Value) : Except MappingError Entries :=
  match v with
  | .map entries => .ok entries
  | v =>
    match v.sequence? with
    | none => .error .notASequence
    | some items => (toPairs 0 items).map Entries.ofList

end Value

end DocumentTree
