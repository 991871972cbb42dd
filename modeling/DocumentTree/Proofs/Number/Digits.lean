import DocumentTree.Number.Decimal
import Mathlib.Algebra.Ring.Nat
import Mathlib.Data.List.Basic

/-!
# Decimal digits

The digits of a natural number denote it, and there are as many as its size asks for. An integer is
known by its text.
-/

namespace DocumentTree

variable {i j : Int} {d : Char}

/-! ## Natural numbers -/

theorem isDigit_of_mem_decimalDigits {number : Nat} (hd : d ∈ decimalDigits number) :
    d.isDigit = true :=
  Nat.isDigit_of_mem_toDigits (by decide) (by decide) hd

/-- Digits denote the number they were written for. -/
theorem ofDigits_decimalDigits (number : Nat) : ofDigits (decimalDigits number) = number :=
  Nat.ofDigitChars_toDigits (by decide) (by decide)

theorem length_decimalDigits_le_iff {width number : Nat} (hwidth : 0 < width) :
    (decimalDigits number).length ≤ width ↔ number < 10 ^ width :=
  Nat.length_toDigits_le_iff (by decide) hwidth

theorem decimalDigits_ne_nil (number : Nat) : decimalDigits number ≠ [] :=
  Nat.toDigits_ne_nil

theorem decimalDigits_inj {m n : Nat} (h : decimalDigits m = decimalDigits n) : m = n := by
  rw [← ofDigits_decimalDigits m, h, ofDigits_decimalDigits]

/-! ## Integers -/

theorem isDigit_of_mem_integerText (hd : d ∈ integerText i) : d.isDigit = true ∨ d = '-' := by
  rw [integerText] at hd
  split at hd
  · rcases List.mem_cons.mp hd with rfl | hd
    · exact .inr rfl
    · exact .inl (isDigit_of_mem_decimalDigits hd)
  · exact .inl (isDigit_of_mem_decimalDigits hd)

theorem integerText_ne_nil (i : Int) : integerText i ≠ [] := by
  rw [integerText]
  split
  · exact List.cons_ne_nil _ _
  · exact decimalDigits_ne_nil _

theorem integerText_inj (h : integerText i = integerText j) : i = j := by
  -- A sign is no digit.
  have hsign : ∀ {m n : Nat}, '-' :: decimalDigits m ≠ decimalDigits n := by
    intro m n heq
    have hmem : '-' ∈ decimalDigits n := heq ▸ List.mem_cons_self
    exact absurd (isDigit_of_mem_decimalDigits hmem) (by decide)
  rw [integerText, integerText] at h
  split at h <;> split at h
  · have := decimalDigits_inj (List.cons.inj h).2
    omega
  · exact absurd h hsign
  · exact absurd h.symm hsign
  · have := decimalDigits_inj h
    omega

end DocumentTree
