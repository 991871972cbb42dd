import DocumentTree.Value.Key

/-!
# Values

Properties of elements, option settings and metadata are free-form data: null, truth values,
integers of any size, floating-point numbers, strings, lists, and maps in the order of insertion. A
map holds each key once; `Entries.set` keeps it so. Where an object is given that is no data, the
name of its type and the form that shows it take its place.

## Main definitions

* `Value` — free-form data.
* `Value.typeName` — the name of a value's type, as messages give it.
* `Value.isTruthy` — whether a value counts as true where only truth matters.
* `Value.key?`, `Key.toValue` — the key that a value is, and back.
* `Entries.get`, `Entries.set` — look-up, and insertion that keeps a key's place.
-/

namespace DocumentTree

/-- Free-form data. -/
inductive Value where
  | null
  | bool (b : Bool)
  | int (i : Int)
  | float (x : Double)
  | str (s : String)
  | list (items : List Value)
  | map (entries : List (Key × Value))
  /-- An object that is no data: the name of its type, and the form that shows it. -/
  | object (type shown : String)
  deriving Inhabited, Repr

/-- The entries of a map, in the order of insertion. -/
abbrev Entries := List (Key × Value)

namespace Entries

/-- The value under a key, if there is one. -/
def get? (key : Key) : Entries → Option Value
  | [] => none
  | (k, v) :: rest => if k.same key then some v else get? key rest

/-- The value under a key; a missing key counts as null. -/
def get (key : Key) (entries : Entries) : Value :=
  (entries.get? key).getD .null

/-- A key set to a value: in its place if the key is there, at the end otherwise. A key that is
there keeps its form. -/
def set (key : Key) (value : Value) : Entries → Entries
  | [] => [(key, value)]
  | (k, v) :: rest => if k.same key then (k, value) :: rest else (k, v) :: set key value rest

/-- The map that setting the entries one after the other builds. -/
def ofList (pairs : List (Key × Value)) : Entries :=
  pairs.foldl (fun entries pair => entries.set pair.1 pair.2) []

/-- The entries without a key. -/
def erase (key : Key) : Entries → Entries
  | [] => []
  | (k, v) :: rest => if k.same key then rest else (k, v) :: erase key rest

/-- Setting a key makes it hold the value. -/
theorem get?_set_self {key : Key} (h : key.same key) (value : Value) (entries : Entries) :
    (entries.set key value).get? key = some value := by
  fun_induction set key value entries <;> simp_all [get?]

/-- Setting a key leaves the others as they were. -/
theorem get?_set_of_not_same {key other : Key} (h : ¬ key.same other) (value : Value)
    (entries : Entries) : (entries.set key value).get? other = entries.get? other := by
  induction entries with
  | nil => simp [set, get?, h]
  | cons e rest ih =>
    obtain ⟨k, v⟩ := e
    by_cases hk : k.same key
    · have hko : ¬ k.same other := fun hko =>
        h (Key.same_trans (by rwa [Key.same_comm]) hko)
      simp [set, get?, hk, hko]
    · by_cases hko : k.same other <;> simp_all [set, get?]

end Entries

/-- The key as a value. -/
def Key.toValue : Key → Value
  | null => .null
  | bool b => .bool b
  | int i => .int i
  | float x => .float x
  | str s => .str s
  | object type shown => .object type shown

namespace Value

/-- The name of the value's type. -/
def typeName : Value → String
  | null => "NoneType"
  | bool _ => "bool"
  | int _ => "int"
  | float _ => "float"
  | str _ => "str"
  | list _ => "list"
  | map _ => "dict"
  | object type _ => type

/-- Whether the value counts as true: null, false, zero and what is empty do not. -/
def isTruthy : Value → Bool
  | null => false
  | bool b => b
  | int i => i ≠ 0
  | float x => !x.isZero
  | str s => s ≠ ""
  | list items => !items.isEmpty
  | map entries => !entries.isEmpty
  | object .. => true

/-- The key that the value is. Lists, maps and objects are none. -/
def key? : Value → Option Key
  | null => some .null
  | bool b => some (.bool b)
  | int i => some (.int i)
  | float x => some (.float x)
  | str s => some (.str s)
  | list _ | map _ | object .. => none

/-- Whether the value can be a key. -/
def isKey (v : Value) : Bool :=
  v.key?.isSome

/-- The natural number that a value equals: truth values count as 0 and 1, and a floating-point
number equals the integer it is. -/
def index? : Value → Option Nat
  | bool b => some b.toNat
  | int i => if 0 ≤ i then some i.toNat else none
  | float x =>
    match x.toInt? with
    | some i => if 0 ≤ i then some i.toNat else none
    | none => none
  | _ => none

mutual

/-- Whether two values are the same data. -/
def same : Value → Value → Bool
  | null, null => true
  | bool a, bool b => a == b
  | int i, int j => i == j
  | float x, float y => x == y
  | str s, str t => s == t
  | list xs, list ys => sameList xs ys
  | map es, map fs => sameEntries es fs
  | object t s, object u r => t == u && s == r
  | _, _ => false

/-- Whether two lists are the same data, item by item. -/
def sameList : List Value → List Value → Bool
  | [], [] => true
  | x :: xs, y :: ys => same x y && sameList xs ys
  | _, _ => false

/-- Whether two maps are the same data, entry by entry. -/
def sameEntries : List (Key × Value) → List (Key × Value) → Bool
  | [], [] => true
  | (k, v) :: es, (l, w) :: fs => k == l && same v w && sameEntries es fs
  | _, _ => false

end

mutual

/-- Values are the same data exactly when they are equal. -/
theorem same_iff (v w : Value) : same v w = true ↔ v = w := by
  cases v <;> cases w <;> simp [same, sameList_iff, sameEntries_iff]

theorem sameList_iff (xs ys : List Value) : sameList xs ys = true ↔ xs = ys := by
  match xs, ys with
  | [], [] | [], _ :: _ | _ :: _, [] => simp [sameList]
  | x :: xs, y :: ys => simp [sameList, same_iff x y, sameList_iff xs ys]

theorem sameEntries_iff (es fs : List (Key × Value)) : sameEntries es fs = true ↔ es = fs := by
  match es, fs with
  | [], [] | [], _ :: _ | _ :: _, [] => simp [sameEntries]
  | (k, v) :: es, (l, w) :: fs =>
    simp [sameEntries, same_iff v w, sameEntries_iff es fs, and_assoc]

end

instance : DecidableEq Value := fun v w => decidable_of_iff _ (same_iff v w)

end Value

end DocumentTree
