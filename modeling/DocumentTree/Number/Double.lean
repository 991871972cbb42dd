/-!
# Numbers of the binary64 format

A finite number is a significand times a power of two, kept in the format's own normal form: the
significand has 53 bits, or fewer at the smallest exponent. Equal numbers of equal sign are then
equal as data. Everything is exact arithmetic on natural numbers.

## Main definitions

* `Double` — the numbers, the two infinities, and the one value that is no number.
* `Double.ofRatio` — the number nearest to a ratio, a tie going to the even significand.
* `Double.ofInt?`, `Double.mul` — the number nearest to an integer, and to a product.
* `Double.trunc?` — the integer part, toward zero.
* `Double.eqInt`, `Double.isZero`, `Double.compareInt?` — comparison with integers.
* `Double.rangeEnd` — the least magnitude that no finite number represents.
-/

namespace DocumentTree

/-- A value of the binary64 format. A finite one is `± significand * 2 ^ exponent`. -/
inductive Double where
  | nan
  | infinite (negative : Bool)
  | finite (negative : Bool) (significand : Nat) (exponent : Int)
  deriving DecidableEq, Repr

/-- The quotient rounded to the nearest integer, a tie going to the even one. -/
def roundDiv (num den : Nat) : Nat :=
  let quotient := num / den
  let rest := num % den
  if 2 * rest < den ∨ (2 * rest = den ∧ quotient % 2 = 0) then quotient else quotient + 1

namespace Double

/-- The exponent of the smallest positive number. -/
def minExponent : Int := -1074

/-- The exponent of the largest finite numbers. -/
def maxExponent : Int := 971

/-- Significands of the normal form stay below this bound. -/
def significandEnd : Nat := Nat.pow 2 53

/-- Numerator and denominator of `num / den / 2 ^ exponent`. -/
def scaleDown (num den : Nat) (exponent : Int) : Nat × Nat :=
  if exponent ≥ 0 then (num, den * Nat.pow 2 exponent.toNat)
  else (num * Nat.pow 2 (-exponent).toNat, den)

/-- The exponent at which the ratio's integer part has 53 bits, or the smallest exponent. -/
def exponentOf (num den : Nat) : Int :=
  let guess := max ((Nat.log2 num : Int) - Nat.log2 den - 53) minExponent
  let (n, d) := scaleDown num den guess
  if n / d ≥ significandEnd then guess + 1 else guess

/-- The number nearest to `num / den`, a tie going to the even significand; beyond the range,
infinity. -/
def ofRatio (negative : Bool) (num den : Nat) : Double :=
  if num = 0 then finite negative 0 minExponent
  else
    let exponent := exponentOf num den
    let (n, d) := scaleDown num den exponent
    let significand := roundDiv n d
    let (significand, exponent) :=
      if significand = significandEnd then (significandEnd / 2, exponent + 1)
      else (significand, exponent)
    if exponent > maxExponent then infinite negative else finite negative significand exponent

/-- The least magnitude that rounds to infinity: half a unit above the largest finite number. -/
def rangeEnd : Nat := Nat.pow 2 1024 - Nat.pow 2 970

/-- Whether the value is zero, of either sign. -/
def isZero : Double → Bool
  | finite _ significand _ => significand == 0
  | _ => false

/-- A magnitude without its fraction. -/
def truncMagnitude (significand : Nat) (exponent : Int) : Nat :=
  if exponent ≥ 0 then significand * Nat.pow 2 exponent.toNat
  else significand / Nat.pow 2 (-exponent).toNat

/-- The integer part, toward zero. Infinities and the non-number have none. -/
def trunc? : Double → Option Int
  | finite negative significand exponent =>
    let magnitude : Int := truncMagnitude significand exponent
    some (if negative then -magnitude else magnitude)
  | _ => none

/-- Whether a finite magnitude has a fraction. -/
def hasFraction (significand : Nat) (exponent : Int) : Bool :=
  exponent < 0 && significand % Nat.pow 2 (-exponent).toNat != 0

/-- The integer that the value is, if it is one. -/
def toInt? : Double → Option Int
  | finite negative significand exponent =>
    if hasFraction significand exponent then none else trunc? (finite negative significand exponent)
  | _ => none

/-- The number nearest to an integer; there is none beyond the range. -/
def ofInt? (i : Int) : Option Double :=
  match ofRatio (i < 0) i.natAbs 1 with
  | finite negative significand exponent => some (finite negative significand exponent)
  | _ => none

/-- The number nearest to a product. Zero times infinity is no number. -/
def mul : Double → Double → Double
  | nan, _ | _, nan => nan
  | infinite a, infinite b => infinite (a != b)
  | infinite a, finite b significand _ | finite b significand _, infinite a =>
    if significand = 0 then nan else infinite (a != b)
  | finite a m e, finite b n f =>
    if e + f ≥ 0 then ofRatio (a != b) (m * n * Nat.pow 2 (e + f).toNat) 1
    else ofRatio (a != b) (m * n) (Nat.pow 2 (-(e + f)).toNat)

/-- Whether the value is a given integer. -/
def eqInt (x : Double) (i : Int) : Bool :=
  x.toInt? == some i

/-- How the value compares with an integer. What is no number does not. -/
def compareInt? (x : Double) (i : Int) : Option Ordering :=
  match x with
  | nan => none
  | infinite negative => some (if negative then .lt else .gt)
  | finite negative significand exponent =>
    let signed : Int := if negative then -significand else significand
    some (if exponent ≥ 0 then compare (signed * Nat.pow 2 exponent.toNat) i
      else compare signed (i * Nat.pow 2 (-exponent).toNat))

end Double

end DocumentTree
