import DocumentTree.Number.Decimal
import DocumentTree.Value.Basic

/-!
# Numbers as properties, and heading levels

A numeric property is an integer of any size or a floating-point number, infinities included. The
depth of a heading is such a number, and the level it gives is clamped to the six levels there are.

## Main definitions

* `Number` — an integer or a floating-point number that is a number.
* `Value.within?` — whether a value lies in a range of integers.
* `HeadingLevel` — a level from 1 to 6.
* `HeadingLevel.clamp` — the level that a depth gives.
-/

namespace DocumentTree

/-- An integer, or a floating-point number. -/
inductive Number where
  | int (i : Int)
  | float (x : Double)
  deriving DecidableEq, Repr

namespace Number

/-- The number that a value is. Truth values are no numbers, nor is the floating-point value that
says so. -/
def ofValue? : Value → Option Number
  | .int i => some (int i)
  | .float .nan => none
  | .float x => some (float x)
  | _ => none

/-- The number as a value. -/
def toValue : Number → Value
  | int i => .int i
  | float x => .float x

/-- The integer part, with the infinities at the ends of a range, and at its high end what is no
number. -/
def truncWithin (low high : Int) : Number → Int
  | int i => max low (min high i)
  | float (.infinite negative) => if negative then low else high
  | float x => max low (min high (x.trunc?.getD high))

theorem low_le_truncWithin {low high : Int} (h : low ≤ high) (n : Number) :
    low ≤ n.truncWithin low high := by
  unfold truncWithin
  split
  · omega
  · split <;> omega
  · omega

theorem truncWithin_le_high {low high : Int} (h : low ≤ high) (n : Number) :
    n.truncWithin low high ≤ high := by
  unfold truncWithin
  split
  · omega
  · split <;> omega
  · omega

end Number

/-- Whether a value lies in a range, its ends included. Truth values count as 0 and 1; of anything
else that is no number nothing can be told. -/
def Value.within? (low high : Int) : Value → Option Bool
  | bool b => some (low ≤ b.toInt ∧ b.toInt ≤ high)
  | int i => some (low ≤ i ∧ i ≤ high)
  | float x =>
    some (x.compareInt? low ∈ [some .eq, some .gt] ∧ x.compareInt? high ∈ [some .lt, some .eq])
  | _ => none

/-- A heading level, from 1 for the most important to 6. -/
structure HeadingLevel where
  /-- The number of the level. -/
  val : Nat
  /-- There is no level above 1. -/
  one_le : 1 ≤ val
  /-- There is no level below 6. -/
  le_six : val ≤ 6
  deriving DecidableEq, Repr

namespace HeadingLevel

/-- The level with a number, if there is one. -/
def ofInt? (i : Int) : Option HeadingLevel :=
  if h : 1 ≤ i ∧ i ≤ 6 then some ⟨i.toNat, by omega, by omega⟩ else none

/-- The level that a depth gives: its integer part, clamped to the six levels. -/
def clamp (depth : Number) : HeadingLevel :=
  have low := @Number.low_le_truncWithin 1 6 (by omega) depth
  have high := @Number.truncWithin_le_high 1 6 (by omega) depth
  ⟨(depth.truncWithin 1 6).toNat, by omega, by omega⟩

/-- The first level. -/
def first : HeadingLevel := ⟨1, by omega, by omega⟩

end HeadingLevel

end DocumentTree
