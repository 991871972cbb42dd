import DocumentTree.Markdown.Code
import Mathlib.Data.List.Infix
import Mathlib.Order.MinMax

/-!
# Runs of a character

The longest run of a character is found in one pass with two counters: the longest run so far, and
the run that is still open. At each place of the pass there is a run of a length just where the
longest one so far is not shorter, or where the open run and the rest of the text have one when they
are put together. So the result is exact: it is the greatest number of copies of the character that
stand in a row. A delimiter of code has at least one copy more, and occurs nowhere in the code.

## Main statements

* `le_longestRunFrom_iff` — what the two counters stand for at each place.
* `le_longestRun_iff` — a text has the runs that are not longer than the longest.
* `longest_run_is_exact` — the longest run, and the delimiters that are longer.
-/

namespace DocumentTree.Markdown

variable {c d : Char} {t u v : Text} {n best current : Nat}

/-! ## Texts around a character -/

theorem eq_nil_of_prefix_cons (hd : d ∉ u) (h : u <+: d :: v) : u = [] := by
  cases u with
  | nil => rfl
  | cons e u =>
    obtain rfl : e = d := (List.cons_prefix_cons.mp h).1
    exact absurd List.mem_cons_self hd

/-- What occurs around a character that it does not have, occurs on one side of it. -/
theorem infix_append_cons_iff (hd : d ∉ u) : u <:+: t ++ d :: v ↔ u <:+: t ∨ u <:+: v := by
  constructor
  · intro h
    rcases List.infix_append_iff.mp h with hleft | hright | ⟨u, w, rfl, hu, hw⟩
    · exact .inl hleft
    · rcases List.infix_cons_iff.mp hright with hstart | hlater
      · rw [eq_nil_of_prefix_cons hd hstart]
        exact .inl List.nil_infix
      · exact .inr hlater
    · have hnil : w = [] := eq_nil_of_prefix_cons (fun hmem => hd (by simp [hmem])) hw
      rw [hnil, List.append_nil]
      exact .inl hu.isInfix
  · rintro (hleft | hright)
    · exact List.infix_append_of_infix_left hleft
    · exact List.infix_append_of_infix_right (List.infix_cons hright)

/-! ## The pass -/

theorem replicate_infix_replicate_iff :
    List.replicate n c <:+: List.replicate current c ↔ n ≤ current := by
  rw [List.infix_replicate_iff, List.length_replicate]
  exact and_iff_left rfl

/-- **What the counters stand for.** A length is within the result just where it is within the
longest run so far, or is the length of a run in the open one with the rest behind it. -/
theorem le_longestRunFrom_iff (h : current ≤ best) (t : Text) :
    n ≤ longestRunFrom (· = c) best current t ↔
      n ≤ best ∨ List.replicate n c <:+: List.replicate current c ++ t := by
  induction t generalizing best current with
  | nil =>
    rw [longestRunFrom, List.append_nil, replicate_infix_replicate_iff]
    exact (or_iff_left_of_imp fun hn => hn.trans h).symm
  | cons d t ih =>
    rw [longestRunFrom]
    split
    · rename_i hd
      obtain rfl : d = c := of_decide_eq_true hd
      -- The open run takes the character over from the rest.
      have hopen : List.replicate current d ++ d :: t = List.replicate (current + 1) d ++ t := by
        rw [List.replicate_succ', List.append_assoc, List.singleton_append]
      rw [ih (Nat.le_max_right _ _), hopen, le_max_iff, or_assoc]
      refine or_congr_right (or_iff_right_of_imp fun hn => ?_)
      exact List.infix_append_of_infix_left (replicate_infix_replicate_iff.mpr hn)
    · rename_i hd
      have hother : d ∉ List.replicate n c := fun hmem =>
        hd (decide_eq_true (List.eq_of_mem_replicate hmem))
      rw [ih (Nat.zero_le _), infix_append_cons_iff hother, replicate_infix_replicate_iff,
        ← or_assoc, or_iff_left_of_imp (b := n ≤ current) fun hn => hn.trans h]
      rfl

/-- **A text has the runs that are not longer than its longest one.** -/
theorem le_longestRun_iff : n ≤ longestRun c t ↔ List.replicate n c <:+: t := by
  rw [longestRun, le_longestRunFrom_iff (Nat.le_refl 0), List.replicate_zero, List.nil_append]
  refine or_iff_right_of_imp fun hn => ?_
  rw [Nat.le_zero.mp hn]
  exact List.nil_infix

theorem le_longestRun_of_infix (h : List.replicate n c <:+: t) : n ≤ longestRun c t :=
  le_longestRun_iff.mpr h

/-! ## Delimiters -/

/-- Copies of a character that are more than the longest run of it occur nowhere. -/
theorem not_replicate_infix_of_longestRun_lt (h : longestRun c t < n) :
    ¬ List.replicate n c <:+: t := by
  rw [← le_longestRun_iff]
  exact Nat.not_le_of_lt h

/-- A fence of a character is copies of it. -/
theorem fence_singleton (c : Char) (minimum : Int) (t : Text) :
    fence [c] minimum t = List.replicate (max minimum.toNat (longestRun c t + 1)) c := by
  rw [fence, Text.repeated, List.flatten_replicate_singleton]
  rfl

/-- The delimiter of a code span, where a character is preferred, is copies of it: one more than in
the longest run. -/
theorem spanDelimiter_singleton (c : Char) (t : Text) :
    (spanDelimiter [c] t).2 = List.replicate (longestRun c t + 1) c := by
  have hrun : longestRunOf [c] t = longestRun c t := rfl
  rw [spanDelimiter, hrun]
  split
  · rename_i hzero
    rw [hzero]
    rfl
  · rw [Text.repeated, List.flatten_replicate_singleton]

/-- **The longest run is exact**: so many copies of the character stand in a row, and not one more.
So the delimiters of code, which are made of copies of one character, do not occur in the code. -/
theorem longest_run_is_exact (c : Char) (t : Text) :
    (∀ n, longestRun c t = n ↔
      List.replicate n c <:+: t ∧ ¬ List.replicate (n + 1) c <:+: t) ∧
    (∀ minimum : Int, ∃ n, fence [c] minimum t = List.replicate n c ∧
      ¬ fence [c] minimum t <:+: t) ∧
    ∃ n, (spanDelimiter [c] t).2 = List.replicate n c ∧ ¬ (spanDelimiter [c] t).2 <:+: t := by
  refine ⟨fun n => ?_, fun minimum => ⟨_, fence_singleton c minimum t, ?_⟩,
    ⟨_, spanDelimiter_singleton c t, ?_⟩⟩
  · rw [← le_longestRun_iff, ← le_longestRun_iff]
    omega
  · rw [fence_singleton]
    exact not_replicate_infix_of_longestRun_lt (Nat.lt_of_succ_le (Nat.le_max_right _ _))
  · rw [spanDelimiter_singleton]
    exact not_replicate_infix_of_longestRun_lt (Nat.lt_succ_self _)

end DocumentTree.Markdown
