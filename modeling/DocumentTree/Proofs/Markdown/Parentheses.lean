import DocumentTree.Proofs.Markdown.Destinations

/-!
# Parentheses that match

Whether the parentheses of a text match is decided by counting those that are open. The count
accepts just the words of a grammar: nothing, or a word between parentheses with another word behind
it. Whatever else stands in the text does not matter.

For destinations this is what makes them safe without brackets. Inside a bare destination each
closing parenthesis closes one that the destination has opened before, so a reader that counts goes
on to the one behind it.

## Main definitions

* `IsMatched` — the words of matching parentheses.
* `IsMatchedBehind depth` — what closes a number of open parentheses and matches otherwise.

## Main statements

* `parensBalancedFrom_iff` — what the count accepts when some parentheses are open.
* `matched_parentheses_are_recognized` — the count accepts the grammar, and bare destinations end
  where they should.
-/

namespace DocumentTree.Markdown

variable {c : Char} {t u v before after url : Text} {depth : Nat}

/-! ## The grammar -/

/-- A character is an opening or a closing parenthesis. -/
def isParenthesis (c : Char) : Bool :=
  c = '(' || c = ')'

/-- The words of matching parentheses: nothing, or a word between parentheses and a word behind
them. -/
inductive IsMatched : Text → Prop where
  | empty : IsMatched []
  | enclosed {u v : Text} : IsMatched u → IsMatched v → IsMatched ('(' :: (u ++ ')' :: v))

/-- Words that close a number of open parentheses one after the other, and match otherwise. -/
def IsMatchedBehind : Nat → Text → Prop
  | 0, t => IsMatched t
  | depth + 1, t => ∃ u v, IsMatched u ∧ IsMatchedBehind depth v ∧ t = u ++ ')' :: v

theorem isMatched_cons_iff :
    IsMatched (c :: t) ↔ c = '(' ∧ IsMatchedBehind 1 t := by
  constructor
  · intro h
    cases h with
    | enclosed hu hv => exact ⟨rfl, _, _, hu, hv, rfl⟩
  · rintro ⟨rfl, u, v, hu, hv, rfl⟩
    exact .enclosed hu hv

theorem not_isMatchedBehind_nil : ¬ IsMatchedBehind (depth + 1) [] := by
  rintro ⟨u, v, -, -, h⟩
  cases u <;> cases h

/-- An opening parenthesis is one more for the rest to close. -/
theorem isMatchedBehind_open_iff :
    IsMatchedBehind depth ('(' :: t) ↔ IsMatchedBehind (depth + 1) t := by
  cases depth with
  | zero => exact isMatched_cons_iff.trans (and_iff_right rfl)
  | succ depth =>
    constructor
    · rintro ⟨u, v, hu, hv, h⟩
      cases hu with
      | empty => cases h
      | enclosed hu hw =>
        refine ⟨_, _, hu, ⟨_, _, hw, hv, rfl⟩, ?_⟩
        simpa using h
    · rintro ⟨u, -, hu, ⟨w, v, hw, hv, rfl⟩, rfl⟩
      exact ⟨_, v, .enclosed hu hw, hv, by simp⟩

/-- A closing parenthesis closes the last one that is open. -/
theorem isMatchedBehind_close_iff :
    IsMatchedBehind (depth + 1) (')' :: t) ↔ IsMatchedBehind depth t := by
  constructor
  · rintro ⟨u, v, hu, hv, h⟩
    cases hu with
    | empty => exact (List.cons.inj h).2 ▸ hv
    | enclosed hu hw => exact absurd (List.cons.inj h).1 (by decide)
  · exact fun h => ⟨[], t, .empty, h, rfl⟩

/-! ## The count -/

/-- **What the count accepts**: with some parentheses open, the texts whose parentheses close them
and match otherwise. -/
theorem parensBalancedFrom_iff :
    parensBalancedFrom depth t = true ↔ IsMatchedBehind depth (t.filter isParenthesis) := by
  fun_induction parensBalancedFrom depth t with
  | case1 depth =>
    cases depth with
    | zero => exact iff_of_true rfl .empty
    | succ depth => exact iff_of_false nofun not_isMatchedBehind_nil
  | case2 depth t ih => rw [List.filter_cons_of_pos rfl, isMatchedBehind_open_iff, ih]
  | case3 t hopen =>
    rw [List.filter_cons_of_pos rfl]
    exact iff_of_false nofun fun h => hopen (isMatched_cons_iff.mp h).1
  | case4 t hopen depth ih => rw [List.filter_cons_of_pos rfl, isMatchedBehind_close_iff, ih]
  | case5 depth c t hopen hclose ih =>
    rw [List.filter_cons_of_neg (by simp [isParenthesis, hopen, hclose]), ih]

theorem parensBalanced_iff :
    parensBalanced t = true ↔ IsMatched (t.filter isParenthesis) :=
  parensBalancedFrom_iff

/-- Behind a text that closes all parentheses, the count starts again. -/
theorem parensBalancedFrom_append (h : parensBalancedFrom depth t = true) (u : Text) :
    parensBalancedFrom depth (t ++ u) = parensBalancedFrom 0 u := by
  fun_induction parensBalancedFrom depth t with
  | case1 depth =>
    obtain rfl : depth = 0 := of_decide_eq_true h
    rfl
  | case2 depth t ih => exact ih h
  | case3 => cases h
  | case4 t hopen depth ih => exact ih h
  | case5 depth c t hopen hclose ih =>
    rw [← ih h, List.cons_append]
    simp [parensBalancedFrom, hopen, hclose]

/-- A closing parenthesis behind parentheses that match is one too many. -/
theorem not_isMatched_of_parensBalanced (h : parensBalanced (before ++ ')' :: after) = true) :
    ¬ IsMatched (before.filter isParenthesis) := by
  intro hbefore
  rw [parensBalanced, parensBalancedFrom_append (parensBalanced_iff.mpr hbefore)] at h
  cases h

/-! ## Bare destinations -/

/-- A destination that does not start with a bracket is bare. -/
theorem needsAngles_eq_false_of_head? (h : (destination url).head? ≠ some '<') :
    needsAngles (escapeAmpersands url) = false := by
  rw [destination] at h
  split at h
  · exact absurd rfl h
  · rename_i hbare
    exact Bool.eq_false_of_not_eq_true hbare

/-- A bare destination is the address with its ampersands escaped. -/
theorem destination_eq_of_head? (h : (destination url).head? ≠ some '<') :
    destination url = escapeAmpersands url := by
  simp [destination, needsAngles_eq_false_of_head? h]

theorem parensBalanced_destination (h : (destination url).head? ≠ some '<') :
    parensBalanced (destination url) = true := by
  have hangles := needsAngles_eq_false_of_head? h
  rw [destination_eq_of_head? h]
  simp only [needsAngles, Bool.or_eq_false_iff, Bool.not_eq_false'] at hangles
  exact hangles.2

/-- **A bare destination is read up to the parenthesis behind it**, if the address has no
backslashes. -/
theorem readBare_destination (hurl : '\\' ∉ url) (hbare : (destination url).head? ≠ some '<')
    (rest : Text) :
    readBare 0 (destination url ++ ')' :: rest) = some (destination url, ')' :: rest) := by
  have hangles := needsAngles_eq_false_of_head? hbare
  have htext := destination_eq_of_head? hbare
  have hstand : BackslashesStand IsHarmless url := fun before after heq =>
    absurd (by simp [heq]) hurl
  have hfeed : '\n' ∉ url := fun hmem =>
    newline_not_mem_destination url (htext ▸ List.mem_flatMap.mpr ⟨'\n', hmem, by simp⟩)
  rw [htext] at hbare ⊢
  have hne : escapeAmpersands url ≠ [] := by
    intro hnil
    rw [hnil] at hangles
    cases hangles
  have hread : readDestination (escapeAmpersands url ++ ')' :: rest) = some (url, ')' :: rest) :=
    (readDestination_bare_escapeAmpersands_iff hangles).mpr ⟨hfeed, hstand⟩
  exact ((readDestination_bare_iff hne hbare).mp hread).2

/-- **The count of parentheses accepts just the texts whose parentheses are a word of the grammar.**
So where an address without backslashes has a bare destination, a reader takes it up to the closing
parenthesis that follows, and each one inside it closes another that is open there. -/
theorem matched_parentheses_are_recognized :
    (∀ t, parensBalanced t = true ↔ IsMatched (t.filter isParenthesis)) ∧
    ∀ url rest : Text, '\\' ∉ url → (destination url).head? ≠ some '<' →
      readBare 0 (destination url ++ ')' :: rest) = some (destination url, ')' :: rest) ∧
      IsMatched ((destination url).filter isParenthesis) ∧
      ∀ before after, destination url = before ++ ')' :: after →
        ¬ IsMatched (before.filter isParenthesis) := by
  refine ⟨fun t => parensBalanced_iff, fun url rest hurl hbare => ?_⟩
  have hbalanced : parensBalanced (destination url) = true := parensBalanced_destination hbare
  refine ⟨readBare_destination hurl hbare rest, parensBalanced_iff.mp hbalanced, ?_⟩
  intro before after htext
  rw [htext] at hbalanced
  exact not_isMatched_of_parensBalanced hbalanced

/-- An address with an ampersand and with parentheses inside others, before further parentheses. -/
theorem nested_parentheses_are_read :
    let url := "a(b&(c))d()".toList
    '\\' ∉ url ∧ destination url = "a(b\\&(c))d()".toList ∧
    readBare 0 ("a(b\\&(c))d()".toList ++ ')' :: ")(".toList) =
      some ("a(b\\&(c))d()".toList, ')' :: ")(".toList) ∧
    ¬ IsMatched ("a(b\\&(c".toList.filter isParenthesis) := by
  intro url
  have hurl : '\\' ∉ url := by decide
  have htext : destination url = "a(b\\&(c))d()".toList := by decide
  obtain ⟨hread, -, hinside⟩ :=
    matched_parentheses_are_recognized.2 url ")(".toList hurl (by decide)
  rw [htext] at hread hinside
  exact ⟨hurl, htext, hread, hinside "a(b\\&(c".toList ")d()".toList (by decide)⟩

end DocumentTree.Markdown
