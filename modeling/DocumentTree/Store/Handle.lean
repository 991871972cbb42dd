import DocumentTree.Value.Basic

/-!
# Handles

Records are numbered 0, 1, 2, ... in the order of creation. Whoever names a record does so by a
handle, which is any value that equals its number: the integer, a floating-point number or a truth
value. The store counts by numbers alone; a handle keeps besides how it was given, since links and
reports show it that way.

## Main definitions

* `NodeId` — the number of a record.
* `Handle` — a value that equals a number.
* `Handle.ofValue?`, `Handle.ofId` — the handle that a value is, and the plain one of a number.
-/

namespace DocumentTree

/-- The number of a record. -/
abbrev NodeId := Nat

/-- A value by which a record is named. -/
structure Handle where
  /-- The handle as it was given. -/
  given : Value
  /-- The number that it equals. -/
  id : NodeId
  /-- The value equals the number. -/
  index?_given : given.index? = some id

namespace Handle

/-- The handle that a value is, if it equals a number. -/
def ofValue? (v : Value) : Option Handle :=
  match h : v.index? with
  | some n => some ⟨v, n, h⟩
  | none => none

/-- The plain handle of a record: its number. -/
def ofId (n : NodeId) : Handle :=
  ⟨.int n, n, by simp [Value.index?]⟩

@[simp] theorem given_ofId (n : NodeId) : (ofId n).given = .int n := rfl

@[simp] theorem id_ofId (n : NodeId) : (ofId n).id = n := rfl

/-- A handle is read back from its value. -/
@[simp] theorem ofValue?_given (h : Handle) : ofValue? h.given = some h := by
  obtain ⟨v, n, hn⟩ := h
  unfold ofValue?
  split
  · rename_i m hm
    have : m = n := by simpa [hm] using hn
    subst this
    rfl
  · rename_i hm
    simp [hm] at hn

end Handle

end DocumentTree
