import DocumentTree.Number.Double

/-!
# Decimal text of binary numbers

Writing chooses the fewest decimal digits that read back to the same number, and of those the
nearest to it. Reading rounds the decimal exactly, so what is written reads back.

## Main definitions

* `Double.ofDecimal` — the number nearest to `digits * 10 ^ exponent`.
* `Double.shortest` — the fewest digits that read back, and their exponent.
* `Double.layout` — the written form: positional from `10 ^ -4` up to `10 ^ 16`, scientific beyond.
* `Double.parse?` — reading of every written form, and of the usual free forms.
-/

namespace DocumentTree

/-- The decimal digits of a natural number. -/
def decimalDigits (n : Nat) : List Char :=
  Nat.toDigits 10 n

/-- The value of an ASCII digit. -/
def digitValue (c : Char) : Nat :=
  c.toNat - '0'.toNat

/-- The number that a run of ASCII digits denotes. -/
def ofDigits (digits : List Char) : Nat :=
  digits.foldl (fun n c => 10 * n + digitValue c) 0

/-- The text of an integer. -/
def integerText (i : Int) : List Char :=
  if i < 0 then '-' :: decimalDigits i.natAbs else decimalDigits i.natAbs

namespace Double

/-! ## Reading -/

/-- The number nearest to `digits * 10 ^ exponent`. Decimals far outside the range are settled
before any power is formed. -/
def ofDecimal (negative : Bool) (digits : Nat) (exponent : Int) : Double :=
  let size : Int := (decimalDigits digits).length + exponent
  if digits = 0 ∨ size < -400 then finite negative 0 minExponent
  else if size > 400 then infinite negative
  else if exponent ≥ 0 then ofRatio negative (digits * Nat.pow 10 exponent.toNat) 1
  else ofRatio negative digits (Nat.pow 10 (-exponent).toNat)

/-! ## The shortest digits -/

/-- Three ratios over one denominator: a magnitude, and the two ends of the interval of reals that
round to it. The ends belong to the interval exactly when the significand is even. -/
structure Interval where
  /-- Lower end. -/
  low : Nat
  /-- The magnitude itself. -/
  mid : Nat
  /-- Upper end. -/
  high : Nat
  /-- Common denominator. -/
  den : Nat
  /-- Whether the ends round to the magnitude as well. -/
  closed : Bool

/-- The interval of a positive finite number. Below a power of two the spacing is halved. -/
def interval (significand : Nat) (exponent : Int) : Interval :=
  let narrow := significand = significandEnd / 2 ∧ exponent > minExponent
  let shift := (exponent - 2)
  let up := Nat.pow 2 shift.toNat
  { low := (4 * significand - (if narrow then 1 else 2)) * up
    mid := 4 * significand * up
    high := (4 * significand + 2) * up
    den := Nat.pow 2 (-shift).toNat
    closed := significand % 2 = 0 }

/-- Whether `candidate * 10 ^ exponent` lies in an interval. -/
def Interval.holds (i : Interval) (candidate : Nat) (exponent : Int) : Bool :=
  let num := candidate * Nat.pow 10 exponent.toNat * i.den
  let scale := Nat.pow 10 (-exponent).toNat
  if i.closed then i.low * scale ≤ num && num ≤ i.high * scale
  else i.low * scale < num && num < i.high * scale

/-- The decimal on the grid of multiples of `10 ^ exponent` that reads back, if there is one; of
two, the one nearer to the magnitude, or the even one. -/
def Interval.onGrid? (i : Interval) (exponent : Int) : Option Nat :=
  let num := i.mid * Nat.pow 10 (-exponent).toNat
  let den := i.den * Nat.pow 10 exponent.toNat
  let below := num / den
  let nearest := roundDiv num den
  let other := if nearest = below then below + 1 else below
  if i.holds nearest exponent then some nearest
  else if i.holds other exponent then some other
  else none

/-- The first grid, from coarse to fine, on which a decimal reads back. -/
def Interval.search (i : Interval) : (steps : Nat) → (exponent : Int) → Nat × Int
  | 0, exponent => (i.mid / i.den, exponent)
  | steps + 1, exponent =>
    match i.onGrid? exponent with
    | some digits => (digits, exponent)
    | none => i.search steps (exponent - 1)

/-- An exponent whose power of ten is at least the magnitude. -/
def decimalCeiling (significand : Nat) (exponent : Int) : Int :=
  (((Nat.log2 significand : Int) + 1 + exponent) * 30103) / 100000 + 1

/-- The fewest digits that read back to a positive magnitude, as a number without a factor ten, and
the exponent of ten that goes with them. -/
def shortest (significand : Nat) (exponent : Int) : Nat × Int :=
  let (digits, tens) :=
    (interval significand exponent).search 20 (decimalCeiling significand exponent)
  strip 20 digits tens
where
  /-- Removal of trailing zeros. -/
  strip : Nat → Nat → Int → Nat × Int
    | 0, digits, tens => (digits, tens)
    | fuel + 1, digits, tens =>
      if digits ≠ 0 ∧ digits % 10 = 0 then strip fuel (digits / 10) (tens + 1) else (digits, tens)

/-! ## Writing -/

/-- The names a format gives to the values that have no digits. -/
structure Names where
  /-- The non-number. -/
  nan : List Char
  /-- Positive infinity. -/
  infinity : List Char

/-- Digits `d` with a point behind the first `point` of them, written in full from `10 ^ -4` up to
`10 ^ 16` and with an exponent of at least two digits beyond. A whole number ends in `.0`. -/
def layout (digits : List Char) (point : Int) : List Char :=
  if -4 < point ∧ point ≤ 16 then
    if point ≤ 0 then ['0', '.'] ++ List.replicate (-point).toNat '0' ++ digits
    else
      let whole := digits.take point.toNat
      let fraction := digits.drop point.toNat
      if fraction.isEmpty then
        whole ++ List.replicate (point.toNat - whole.length) '0' ++ ['.', '0']
      else whole ++ ['.'] ++ fraction
  else
    let exponent := point - 1
    let size := decimalDigits exponent.natAbs
    let fraction := digits.drop 1
    digits.take 1 ++ (if fraction.isEmpty then [] else '.' :: fraction) ++ ['e']
      ++ [if exponent < 0 then '-' else '+']
      ++ (if size.length < 2 then '0' :: size else size)

/-- The text of a number, with a format's names for the values that have no digits. -/
def text (names : Names) : Double → List Char
  | nan => names.nan
  | infinite negative => if negative then '-' :: names.infinity else names.infinity
  | finite negative significand exponent =>
    let body :=
      if significand = 0 then ['0', '.', '0']
      else
        let (digits, tens) := shortest significand exponent
        let written := decimalDigits digits
        layout written (written.length + tens)
    if negative then '-' :: body else body

/-! ## Reading of free forms -/

/-- A run of ASCII digits in which single underscores may separate digits, without them. -/
def ungroup : List Char → Option (List Char)
  | [] => none
  | [c] => if c.isDigit then some [c] else none
  | c :: '_' :: cs => if c.isDigit then (ungroup cs).map (c :: ·) else none
  | c :: cs => if c.isDigit then (ungroup cs).map (c :: ·) else none

/-- A run of digits that may be missing. -/
def ungroup? (cs : List Char) : Option (List Char) :=
  if cs.isEmpty then some [] else ungroup cs

/-- An exponent with an optional sign. -/
def exponent? : List Char → Option Int
  | '-' :: cs => (ungroup cs).map fun ds => -(ofDigits ds : Int)
  | '+' :: cs => (ungroup cs).map fun ds => (ofDigits ds : Int)
  | cs => (ungroup cs).map fun ds => (ofDigits ds : Int)

/-- An unsigned decimal: digits with at most one point, at least one digit, and an optional
exponent. -/
def unsigned? (negative : Bool) (cs : List Char) : Option Double := do
  let isMark := fun c : Char => c = 'e' || c = 'E'
  let mantissa := cs.takeWhile fun c => !isMark c
  let exponent ←
    match cs.dropWhile fun c => !isMark c with
    | [] => some 0
    | _ :: rest => exponent? rest
  let whole := mantissa.takeWhile (· ≠ '.')
  let fraction := (mantissa.dropWhile (· ≠ '.')).drop 1
  let whole ← ungroup? whole
  let fraction ← ungroup? fraction
  if whole.isEmpty && fraction.isEmpty then none
  else some (ofDecimal negative (ofDigits (whole ++ fraction)) (exponent - fraction.length))

/-- Reading of a signed decimal, of an infinity, or of the non-number, in any case of letters. -/
def parse? (cs : List Char) : Option Double :=
  let (negative, body) : Bool × List Char :=
    match cs with
    | '-' :: rest => (true, rest)
    | '+' :: rest => (false, rest)
    | _ => (false, cs)
  let name := body.map Char.toLower
  if name = ['n', 'a', 'n'] then some nan
  else if name = ['i', 'n', 'f'] ∨ name = ['i', 'n', 'f', 'i', 'n', 'i', 't', 'y'] then
    some (infinite negative)
  else unsigned? negative body

end Double

end DocumentTree
