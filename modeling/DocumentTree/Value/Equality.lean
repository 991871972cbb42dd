import DocumentTree.Value.Basic

/-!
# Equality of values

Values can be compared in two ways. `Value.same` tells every two forms apart. Under `Value.equal`
numbers are equal when their sizes are, so the integer 1, the floating-point number 1.0 and the
truth value `true` are equal, and the order of a map's entries does not count.

## Main definitions

* `Value.equal` — equality by size of numbers.
-/

namespace DocumentTree.Value

mutual

/-- Whether two values are equal, numbers by their size. The floating-point value that is no number
equals nothing. -/
def equal : Value → Value → Bool
  | list xs, w =>
    match w with
    | list ys => equalItems xs ys
    | _ => false
  | map es, w =>
    match w with
    | map fs => es.length == fs.length && equalIn fs es
    | _ => false
  | object t s, w =>
    match w with
    | object u r => t == u && s == r
    | _ => false
  | v, w =>
    match v.key?, w.key? with
    | some k, some l => k.same l
    | _, _ => false

/-- Whether two lists are equal item by item. -/
def equalItems : List Value → List Value → Bool
  | [], [] => true
  | x :: xs, y :: ys => equal x y && equalItems xs ys
  | _, _ => false

/-- Whether a map has every one of some entries, with an equal value. -/
def equalIn (others : Entries) : List (Key × Value) → Bool
  | [] => true
  | (key, v) :: rest =>
    (match others.get? key with
      | some w => equal v w
      | none => false) && equalIn others rest

end

end DocumentTree.Value
