import DocumentTree.Number.Double

/-!
# Keys of maps

Most maps have strings for keys, but a number, a truth value and null may be a key as well, and so
may an object that is no data, such as a tuple; the name of its type and the form that shows it take
its place. A key is shown as it was given first; to look it up, every form that equals it will do:
the integer 1, the floating-point number 1.0 and the truth value `true` are one and the same key.

## Main definitions

* `Key` — a key as it was given.
* `Key.same` — whether two keys are one.
-/

namespace DocumentTree

/-- A key of a map, as it was given. -/
inductive Key where
  | null
  | bool (b : Bool)
  | int (i : Int)
  | float (x : Double)
  | str (s : String)
  /-- An object that is no data: the name of its type, and the form that shows it. -/
  | object (type shown : String)
  deriving DecidableEq, Inhabited, Repr

instance : Coe String Key := ⟨Key.str⟩

namespace Key

/-- The key with integers for the truth values and for the floating-point numbers that are
integers. -/
def normal : Key → Key
  | bool b => int b.toInt
  | float x =>
    match x.toInt? with
    | some i => int i
    | none => float x
  | key => key

/-- Whether two keys are one. The floating-point value that is no number equals nothing, itself
included. -/
def same (k l : Key) : Bool :=
  k ≠ float .nan && k.normal = l.normal

@[simp] theorem same_str (s t : String) : (str s).same (str t) = decide (s = t) := by
  simp [same, normal]

theorem same_comm (k l : Key) : k.same l = l.same k := by
  have normal_nan : ∀ k : Key, k.normal = float .nan ↔ k = float .nan := by
    intro k
    cases k with
    | float x => cases h : x.toInt? <;> simp [normal, h]; rintro rfl; simp [Double.toInt?] at h
    | _ => simp [normal]
  have hk := normal_nan k
  have hl := normal_nan l
  unfold same
  by_cases h : k.normal = l.normal
  · rw [h] at hk
    simp [h, ← hk, ← hl]
  · simp [h, Ne.symm h]

theorem same_trans {k l m : Key} (h : k.same l) (h' : l.same m) : k.same m := by
  simp only [same, Bool.and_eq_true, decide_eq_true_eq] at *
  exact ⟨h.1, h.2.trans h'.2⟩

end Key

end DocumentTree
