import DocumentTree.Value.Basic

/-!
# Tables under construction

A TOML document builds its tables statement by statement. A header declares a table, a doubled
header adds one more to a list of tables, and an entry sets a value, for which a dotted key goes
through further tables. Nothing may be said twice: each table remembers how it came about, since
that decides what later statements may do with it.

## Main definitions

* `Origin`, `Item`, `Items` — tables under construction.
* `Items.declareTable`, `Items.addTable`, `Items.setValue` — the three kinds of statements.
* `Items.toEntries` — the finished map.
-/

namespace DocumentTree.Toml

/-- How a table came about. -/
inductive Origin where
  /-- As a parent of a table that a header declares; a later header may still declare it. -/
  | implied
  /-- By a header of its own. -/
  | declared
  /-- By a dotted key in a section, which alone may extend it. -/
  | dotted (sectionNumber : Nat)
  deriving DecidableEq

/-- What stands under a key. -/
inductive Item where
  | value (v : Value)
  | table (origin : Origin) (entries : List (String × Item))
  | tables (earlier : List (List (String × Item))) (last : List (String × Item))

/-- A table's entries, in the order of insertion. -/
abbrev Items := List (String × Item)

namespace Items

/-- What stands under a key. -/
def get? (key : String) : Items → Option Item
  | [] => none
  | (k, item) :: rest => if k = key then some item else get? key rest

/-- A key set to an item: in its place if the key is there, at the end otherwise. -/
def put (key : String) (item : Item) : Items → Items
  | [] => [(key, item)]
  | (k, old) :: rest => if k = key then (k, item) :: rest else (k, old) :: put key item rest

/-- A change of what stands under a key, which may be refused. -/
def alter (key : String) (f : Option Item → Option Item) (items : Items) : Option Items :=
  (f (items.get? key)).map fun item => items.put key item

end Items

/-- A change of the table that an item is, or of the last one of a list of tables. -/
def Item.within (f : Items → Option Items) : Item → Option Item
  | value _ => none
  | table origin entries => (f entries).map (table origin)
  | tables earlier last => (f last).map (tables earlier)

namespace Items

/-- A table declared under a path, with the parents that are still missing. -/
def declareTable : List String → Items → Option Items
  | [], _ => none
  | [key], items => items.alter key fun
    | none => some (.table .declared [])
    | some (.table .implied entries) => some (.table .declared entries)
    | some _ => none
  | key :: path, items => items.alter key fun
    | none => (declareTable path []).map (.table .implied)
    | some item => item.within (declareTable path)

/-- One more table in the list of tables under a path. -/
def addTable : List String → Items → Option Items
  | [], _ => none
  | [key], items => items.alter key fun
    | none => some (.tables [] [])
    | some (.tables earlier last) => some (.tables (earlier ++ [last]) [])
    | some _ => none
  | key :: path, items => items.alter key fun
    | none => (addTable path []).map (.table .implied)
    | some item => item.within (addTable path)

/-- A value set under a key, dotted or not, of a table. -/
def setKey (sectionNumber : Nat) (v : Value) : List String → Items → Option Items
  | [], _ => none
  | [key], items => items.alter key fun
    | none => some (.value v)
    | some _ => none
  | key :: path, items => items.alter key fun
    | none => (setKey sectionNumber v path []).map (.table (.dotted sectionNumber))
    | some (.table origin entries) =>
      if origin = .implied ∨ origin = .dotted sectionNumber then
        (setKey sectionNumber v path entries).map (.table (.dotted sectionNumber))
      else none
    | some _ => none

/-- A change of the table under the path of a header. -/
def inside (f : Items → Option Items) : List String → Items → Option Items
  | [], items => f items
  | key :: path, items => items.alter key fun
    | none => none
    | some item => item.within (inside f path)

/-- A value set under a key of the table that a section fills. -/
def setValue (header : List String) (sectionNumber : Nat) (key : List String) (v : Value)
    (items : Items) : Option Items :=
  inside (setKey sectionNumber v key) header items

end Items

mutual

/-- The value of an item. -/
def Item.toValue : Item → Value
  | .value v => v
  | .table _ entries => .map (toEntries entries)
  | .tables earlier last => .list (toMaps earlier ++ [.map (toEntries last)])

/-- The finished map of a table. -/
def toEntries : List (String × Item) → Entries
  | [] => []
  | (key, item) :: rest => (key, item.toValue) :: toEntries rest

/-- The finished maps of tables. -/
def toMaps : List (List (String × Item)) → List Value
  | [] => []
  | entries :: rest => .map (toEntries entries) :: toMaps rest

end

end DocumentTree.Toml
