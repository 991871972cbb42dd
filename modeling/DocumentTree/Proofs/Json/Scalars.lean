import DocumentTree.Json.Reader
import DocumentTree.Json.Writer
import DocumentTree.Proofs.Number.Digits
import DocumentTree.Proofs.Text.Trimming

/-!
# Scalars on one line

A string in JSON ends at its closing quote, whatever its characters are: the reader finds the code
points that were written, and what stands behind the string. Numbers and truth values are words, and
end where no word goes on. So a scalar can be told from everything that follows it.

## Main definitions

* `Json.StopsWord t` — no word goes on with the text.
* `Json.IsWord v`, `Json.IsScalar v` — a truth value or an integer, and a string besides.
-/

namespace DocumentTree.Json

variable {s t x y : Text} {v w : Value}

/-! ## Quoted strings -/

/-- A control character is written by four digits that denote it. -/
theorem hexadecimal_of_lt {n : Nat} (hn : n < 0x20) :
    (Text.hexadecimal 4 n).length = 4 ∧ ofHexDigits? (Text.hexadecimal 4 n) = some n := by
  have hall : ∀ m < 0x20, (Text.hexadecimal 4 m).length = 4 ∧
      ofHexDigits? (Text.hexadecimal 4 m) = some m := by
    decide +kernel
  exact hall n hn

/-- A letter behind a backslash is read as the character it stands for. -/
theorem readPoints_escaped {c d : Char} (h : escaped? c = some d) (t : Text) :
    readPoints ('\\' :: c :: t) = (readPoints t).map fun r => (d.toNat :: r.1, r.2) := by
  have hu : c ≠ 'u' := by
    rintro rfl
    cases h
  rw [readPoints, h]
  · cases readPoints t <;> rfl
  · rintro _ _ _ _ _ rfl
    exact absurd rfl hu

/-- One character is read as its code point. -/
theorem readPoints_quoteChar (c : Char) (t : Text) :
    readPoints (quoteChar c ++ t) = (readPoints t).map fun r => (c.toNat :: r.1, r.2) := by
  fun_cases quoteChar c with
  -- Control characters without a letter of their own, then those that stand for themselves.
  | case8 c hquote hbackslash hn hr ht hf hb hcontrol =>
    obtain ⟨hlength, hdigits⟩ := hexadecimal_of_lt hcontrol
    match hhex : Text.hexadecimal 4 c.toNat, hlength with
    | [i, j, k, l], _ =>
      rw [hhex] at hdigits
      simp only [List.cons_append, List.nil_append, readPoints, hdigits]
      cases readPoints t <;> rfl
  | case9 c hquote hbackslash hn hr ht hf hb hcontrol =>
    rw [List.cons_append, List.nil_append, readPoints, if_neg hcontrol]
    · cases readPoints t <;> rfl
    · exact hquote
    · intro _ _ _ _ _ h
      exact absurd h hbackslash
    · intro _ _ h
      exact absurd h hbackslash
  | _ => exact readPoints_escaped rfl t

/-- **A quoted string is read back**, with whatever is behind it. -/
theorem readPoints_quoted (t rest : Text) :
    readPoints (t.flatMap quoteChar ++ '"' :: rest) = some (t.map Char.toNat, rest) := by
  induction t with
  | nil => rfl
  | cons c t ih => rw [List.flatMap_cons, List.append_assoc, readPoints_quoteChar, ih]; rfl

/-- Strings with the same text from their opening quote on are the same, and so is what is behind
them. -/
theorem quote_append_inj (h : quote s ++ x = quote t ++ y) : s = t ∧ x = y := by
  have hcut : ∀ t z : Text, quote t ++ z = '"' :: (t.flatMap quoteChar ++ '"' :: z) := by
    intro t z
    simp [quote]
  rw [hcut, hcut, List.cons.injEq] at h
  have hread := congrArg readPoints h.2
  rw [readPoints_quoted, readPoints_quoted, Option.some.injEq, Prod.mk.injEq] at hread
  exact ⟨List.map_injective_iff.mpr (fun c d hcd => Char.toNat_inj.mp hcd) hread.1, hread.2⟩

/-! ## Words -/

/-- The characters of numbers and names. -/
def isWordChar (c : Char) : Bool :=
  c.isAlphanum || c = '-'

/-- No word goes on with a text. -/
def StopsWord (t : Text) : Prop :=
  ∀ c, t.head? = some c → isWordChar c = false

/-- A truth value or an integer. -/
inductive IsWord : Value → Prop
  | bool (b : Bool) : IsWord (.bool b)
  | int (i : Int) : IsWord (.int i)

/-- A truth value, an integer or a string. -/
def IsScalar (v : Value) : Prop :=
  IsWord v ∨ ∃ s, v = .str s

theorem isWordChar_of_mem_write (hv : IsWord v) {c : Char} (hc : c ∈ write .inline v) :
    isWordChar c = true := by
  cases hv with
  | bool b =>
    have hall : ∀ b, (write .inline (.bool b)).all isWordChar = true := by
      decide
    exact List.all_eq_true.mp (hall b) c hc
  | int i =>
    rcases isDigit_of_mem_integerText hc with hdigit | rfl
    · simp [isWordChar, Char.isAlphanum, hdigit]
    · decide

theorem write_ne_nil (hv : IsWord v) : write .inline v ≠ [] := by
  cases hv with
  | bool b => cases b <;> decide
  | int i => exact integerText_ne_nil i

/-- No integer is written like a truth value. -/
theorem integerText_ne_bool (i : Int) (b : Bool) : integerText i ≠ write .inline (.bool b) := by
  have hletters : ∀ b, (write .inline (.bool b)).all (fun c => !c.isDigit && c != '-') = true := by
    decide
  obtain ⟨c, rest, htext⟩ := List.exists_cons_of_ne_nil (integerText_ne_nil i)
  intro h
  have hmem : c ∈ integerText i := htext ▸ List.mem_cons_self
  have hletter : c.isDigit = false ∧ c ≠ '-' := by
    simpa using List.all_eq_true.mp (hletters b) c (h ▸ hmem)
  rcases isDigit_of_mem_integerText hmem with hc | hc
  · rw [hletter.1] at hc
    cases hc
  · exact hletter.2 hc

theorem IsWord.write_inj (hv : IsWord v) (hw : IsWord w)
    (h : write .inline v = write .inline w) : v = w := by
  cases hv with
  | bool b =>
    cases hw with
    | bool d =>
      have hall : ∀ b d, write .inline (.bool b) = write .inline (.bool d) → b = d := by
        decide
      rw [hall b d h]
    | int j => exact absurd h.symm (integerText_ne_bool j b)
  | int i =>
    cases hw with
    | bool d => exact absurd h (integerText_ne_bool i d)
    | int j => rw [integerText_inj h]

/-! ## Scalars -/

/-- No word starts with a quote. -/
theorem quote_append_ne (s x y : Text) (hv : IsWord v) : quote s ++ x ≠ write .inline v ++ y := by
  obtain ⟨c, rest, htext⟩ := List.exists_cons_of_ne_nil (write_ne_nil hv)
  intro h
  rw [htext] at h
  obtain rfl : '"' = c := (List.cons.inj h).1
  have hquote := isWordChar_of_mem_write hv (htext ▸ List.mem_cons_self)
  exact absurd hquote (by decide)

/-- **A scalar is told from what is behind it** where no word goes on. -/
theorem IsScalar.write_append_inj (hv : IsScalar v) (hw : IsScalar w) (hx : StopsWord x)
    (hy : StopsWord y) (h : write .inline v ++ x = write .inline w ++ y) : v = w ∧ x = y := by
  rcases hv with hv | ⟨s, rfl⟩ <;> rcases hw with hw | ⟨t, rfl⟩
  · obtain ⟨hwrite, hrest⟩ := Text.append_inj_of_class (fun c hc => isWordChar_of_mem_write hv hc)
      (fun c hc => isWordChar_of_mem_write hw hc) hx hy h
    exact ⟨hv.write_inj hw hwrite, hrest⟩
  · exact absurd h.symm (quote_append_ne _ _ _ hv)
  · exact absurd h (quote_append_ne _ _ _ hw)
  · obtain ⟨htext, hrest⟩ := quote_append_inj h
    exact ⟨by rw [String.toList_inj.mp htext], hrest⟩

end DocumentTree.Json
