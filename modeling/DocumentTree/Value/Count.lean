import DocumentTree.Text.Basic
import DocumentTree.Value.Basic

/-!
# Values as counts

How often something is repeated may be said by any data. An integer says it, below zero like zero,
and a truth value counts as one. A count has to fit 64 bits with a sign, and so has the length of
the text it makes. Well below that there is no room for what it makes.

## Main definitions

* `repetition n t`, `listRepetition n l` — a text and a list repeated, when there is room for it.
* `Value.toCount`, `Value.toIndent` — the count and the indent that a value is.
-/

namespace DocumentTree

/-- Why nothing can be repeated so often. -/
inductive CountError where
  /-- The value is no count. -/
  | notACount
  /-- The count, or the length of the text, does not fit 64 bits. -/
  | outOfRange
  /-- There is no room for so much. -/
  | noRoom

/-- The first size that does not fit 64 bits with a sign. -/
def sizeBound : Nat :=
  Nat.pow 2 63

/-- The size of the largest text or list there is room for. -/
def room : Nat :=
  Nat.pow 2 40

/-- How many times something stands that is repeated so often; below zero like zero. -/
def repeatCount (n : Int) : Except CountError Nat :=
  if -sizeBound ≤ n ∧ n < sizeBound then .ok n.toNat else .error .outOfRange

/-- A text repeated. Nothing takes no room, however often it stands. -/
def repetition (n : Int) (t : Text) : Except CountError Text := do
  let n ← repeatCount n
  if t.isEmpty then return []
  if sizeBound ≤ n * t.length then throw .outOfRange
  if room < n * t.length then throw .noRoom
  return Text.repeated n t

/-- What there is room for is made. -/
theorem repetition_eq_ok {n : Nat} {t : Text} (count : n < sizeBound) (size : n * t.length ≤ room) :
    repetition n t = .ok (Text.repeated n t) := by
  have small : room < sizeBound := by decide
  have inRange : repeatCount n = .ok n := by
    unfold repeatCount
    rw [if_pos ⟨by omega, by omega⟩, Int.toNat_natCast]
  unfold repetition
  rw [inRange]
  show (if t.isEmpty then _ else _) = _
  cases t with
  | nil => simp [Text.repeated, pure, Except.pure]
  | cons c t =>
    rw [if_neg (by simp), if_neg (by omega), if_neg (by omega)]
    rfl

/-- A list repeated, as a text is. -/
def listRepetition {α : Type} (n : Int) (l : List α) : Except CountError (List α) := do
  let n ← repeatCount n
  if l.isEmpty then return []
  if room < n * l.length then throw .noRoom
  return (List.replicate n l).flatten

namespace Value

/-- The count that a value is. -/
def toCount : Value → Except CountError Int
  | .int i => .ok i
  | .bool b => .ok b.toInt
  | _ => .error .notACount

/-- The indent that a value is: a count of spaces there is room for. What counts as empty is no
indent. -/
def toIndent (v : Value) : Except CountError Int :=
  if !v.isTruthy then .ok 0
  else do
    let n ← v.toCount
    let _ ← repetition n [' ']
    return n

end Value

end DocumentTree
