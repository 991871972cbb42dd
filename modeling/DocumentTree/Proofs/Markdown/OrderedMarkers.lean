import DocumentTree.Proofs.Markdown.ItemContents
import Mathlib.Algebra.Ring.Int.Defs
import Mathlib.Algebra.Ring.Nat

/-!
# The numbers of ordered items

The items of an ordered list are numbered from its start, one after the other. The start is no
negative number, so each marker is a run of digits and a delimiter. A reader takes such a run for a
marker only up to nine digits. Nothing bounds the start, or the number of items behind it, so a list
that goes on to a billion has items that are none to a reader, and to the escape of paragraphs,
which goes by the same number of digits.
-/

namespace DocumentTree.Markdown

open Node (Grammatical)
open Text (lines unlines)

variable {o : Options} {marker t : Text} {n : Node} {nodes : List Node}

/-! ## Markers -/

theorem listMark_mem_delimiters (o : Options) (alternate : Bool) :
    listMark o true alternate ∈ ['.', ')'] := by
  cases alternate <;> simp [listMark]

/-- Behind the marker of an item is a space, or nothing. -/
theorem exists_item_eq_append (H : IsMarker marker) (o : Options) (status : Option String)
    (t : Text) : ∃ behind, item o marker status t = marker ++ behind ∧ EndsMarker behind := by
  have hspace : ∀ u : Text, EndsMarker (Text.spaces (padding o marker) ++ u) := by
    obtain ⟨j, hj⟩ : ∃ j, padding o marker = j + 1 :=
      ⟨padding o marker - 1, by have := (padding_bounds o marker).1; omega⟩
    intro u c hc
    rw [hj] at hc
    obtain rfl : ' ' = c := Option.some.inj hc
    decide
  cases status with
  | some status =>
    obtain ⟨rest, hrest⟩ := exists_item_of_task H o status t
    exact ⟨_, by rw [hrest, markerText_eq, List.append_assoc], hspace _⟩
  | none =>
    by_cases ht : t = []
    · exact ⟨[], by rw [ht, item_nil H, List.append_nil], nofun⟩
    · obtain ⟨first, rest, hlines⟩ := List.exists_cons_of_ne_nil (Text.lines_ne_nil t)
      obtain ⟨u, hu⟩ := Text.exists_append_of_lines (lines_item o H.line none ht hlines)
      refine ⟨Text.spaces (padding o marker) ++ (first ++ u), ?_, hspace _⟩
      rw [hu, markerText_eq, checkbox]
      simp

/-- Each item of an ordered list is its number, the delimiter, and what may follow a marker. -/
theorem exists_ordered_item_eq (o : Options) (alternate : Bool)
    (hnodes : ∀ n ∈ nodes, n.isItem = true) {start : Int} (hstart : 0 ≤ start) {i : Nat}
    (ht : (items o true alternate start nodes)[i]? = some t) :
    ∃ behind, t = decimalDigits (start + i).natAbs ++ listMark o true alternate :: behind ∧
      EndsMarker behind := by
  rw [getElem?_items, Option.map_eq_some_iff] at ht
  obtain ⟨n, hn, rfl⟩ := ht
  have hitem := hnodes n (List.mem_of_getElem? hn)
  cases n with
  | listItem children status m =>
    rw [fragment]
    obtain ⟨behind, htext, hends⟩ := exists_item_eq_append
      (isMarker_listMarker o true alternate (start + i)) o status
      (blocksAfter o (listMarker o true alternate (start + i)) true none children)
    refine ⟨behind, ?_, hends⟩
    rw [htext, listMarker_of_nonneg o alternate (by omega), List.append_assoc]
    rfl
  | _ => cases hitem

/-- A number with its delimiter is a marker if it is below a billion. -/
theorem ordered_marker_is_valid_iff (o : Options) (alternate : Bool) {number : Int}
    (hnumber : 0 ≤ number) {behind : Text} (hends : EndsMarker behind) :
    let digits := decimalDigits number.natAbs
    let mark := listMark o true alternate
    (digits.length ≤ 9 ↔ number < 10 ^ 9) ∧
    cutMarker (digits ++ mark :: behind) =
      (if number < 10 ^ 9 then some (digits ++ [mark], behind) else none) ∧
    orderedMarker? (digits ++ mark :: behind) = if number < 10 ^ 9 then some digits else none := by
  intro digits mark
  have hdigits : ∀ d ∈ digits, d.isDigit = true := fun d hd => isDigit_of_mem_decimalDigits hd
  have hne : digits ≠ [] := decimalDigits_ne_nil number.natAbs
  have hone : 1 ≤ digits.length := List.length_pos_of_ne_nil hne
  have hmark : mark ∈ ['.', ')'] := listMark_mem_delimiters o alternate
  have hend : mark ∈ markEnds digits := by rwa [markEnds, if_neg (by simpa using hne)]
  have hnine : digits.length ≤ 9 ↔ number < 10 ^ 9 := by
    rw [length_decimalDigits_le_iff (by decide)]
    omega
  refine ⟨hnine, ?_, ?_⟩
  · rw [cutMarker_digits hdigits (isDigit_of_mem_markEnds hend)]
    simp only [hnine, hend, and_true]
  · rw [orderedMarker?_digits hdigits hmark hends]
    simp only [hone, hnine, true_and]

/-- **All items of an ordered list are found** if their numbers are below a billion. -/
theorem forall_isSome_cutMarker_iff (o : Options) (alternate : Bool)
    (hnodes : ∀ n ∈ nodes, n.isItem = true) {start : Int} (hstart : 0 ≤ start) :
    (∀ t ∈ items o true alternate start nodes, (cutMarker t).isSome = true) ↔
      nodes = [] ∨ start + nodes.length ≤ 10 ^ 9 := by
  have hlength := length_items o true alternate start nodes
  have hvalid : ∀ (i : Nat) (t : Text), (items o true alternate start nodes)[i]? = some t →
      ((cutMarker t).isSome = true ↔ start + i < 10 ^ 9) := by
    intro i t ht
    obtain ⟨behind, rfl, hends⟩ := exists_ordered_item_eq o alternate hnodes hstart ht
    rw [(ordered_marker_is_valid_iff o alternate (by omega) hends).2.1]
    split
    · rename_i hsmall
      exact iff_of_true rfl hsmall
    · rename_i hlarge
      exact iff_of_false nofun hlarge
  constructor
  · intro hall
    -- The last item has the greatest number.
    cases nodes using List.reverseRecOn with
    | nil => exact .inl rfl
    | append_singleton front last =>
      have hpos : front.length < (items o true alternate start (front ++ [last])).length := by
        rw [hlength, List.length_append, List.length_singleton]
        exact Nat.lt_succ_self _
      have hsmall := (hvalid _ _ (List.getElem?_eq_getElem hpos)).mp
        (hall _ (List.getElem_mem hpos))
      right
      rw [List.length_append, List.length_singleton]
      push_cast
      omega
  · intro hbound t ht
    obtain ⟨i, hi, rfl⟩ := List.mem_iff_getElem.mp ht
    rw [hvalid i _ (List.getElem?_eq_getElem hi)]
    rcases hbound with rfl | hbound
    · exact absurd hi (by simp [hlength])
    · omega

/-- **The numbers of ordered items** go up by one from the start of the list. The text of each item
is a run of digits that denotes its number, the delimiter, and a space or nothing. Below a billion
there are at most nine digits, so a reader finds the marker, and so does the test by which
paragraphs are escaped; from a billion on neither does. So all items of a list are read as items
just if their numbers are below a billion. -/
theorem ordered_markers_are_valid_below_billion (o : Options) (p : Placement) {start : Int}
    {m : Metadata} (hg : (Node.list true nodes start m).Grammatical) :
    let ts := items o true p.alternate start nodes
    let mark := listMark o true p.alternate
    (fragment o p (.list true nodes start m)).text = unlines ts ∧ ts.length = nodes.length ∧
    mark ∈ ['.', ')'] ∧
    (∀ (i : Nat) (t : Text), ts[i]? = some t → ∃ digits behind,
      t = digits ++ mark :: behind ∧ EndsMarker behind ∧
      digits ≠ [] ∧ (∀ d ∈ digits, d.isDigit = true) ∧ (ofDigits digits : Int) = start + i ∧
      (digits.length ≤ 9 ↔ start + i < 10 ^ 9) ∧
      cutMarker t = (if start + i < 10 ^ 9 then some (digits ++ [mark], behind) else none) ∧
      orderedMarker? t = if start + i < 10 ^ 9 then some digits else none) ∧
    ((∀ t ∈ ts, (cutMarker t).isSome = true) ↔ nodes = [] ∨ start + nodes.length ≤ 10 ^ 9) := by
  intro ts mark
  have hstart : 0 ≤ start := hg.1 rfl
  refine ⟨rfl, length_items o true p.alternate start nodes,
    listMark_mem_delimiters o p.alternate, fun i t ht => ?_,
    forall_isSome_cutMarker_iff o p.alternate hg.2.1 hstart⟩
  obtain ⟨behind, rfl, hends⟩ := exists_ordered_item_eq o p.alternate hg.2.1 hstart ht
  refine ⟨_, behind, rfl, hends, decimalDigits_ne_nil _,
    fun d hd => isDigit_of_mem_decimalDigits hd, ?_,
    ordered_marker_is_valid_iff o p.alternate (by omega) hends⟩
  rw [ofDigits_decimalDigits]
  omega

/-- Behind a list with periods, a list goes up to the last number of nine digits. -/
theorem markers_of_nine_digits_are_valid :
    let nodes := [Node.listItem [.paragraph [.text "a"]] none, Node.listItem [] none]
    let ts := ["999999998) a".toList, "999999999)".toList]
    items {} true true 999999998 nodes = ts ∧ (∀ t ∈ ts, (cutMarker t).isSome = true) ∧
    ∃ digits, (ofDigits digits : Int) = 999999999 ∧
      orderedMarker? "999999999)".toList = some digits := by
  intro nodes ts
  have hg : (Node.list true nodes 999999998).Grammatical := (Node.problems_eq_nil_iff _).mp rfl
  have hts : items {} true true 999999998 nodes = ts := by
    decide +kernel
  obtain ⟨-, -, -, hitem, hall⟩ :=
    ordered_markers_are_valid_below_billion {} { marker := ['-'], alternate := true } hg
  refine ⟨hts, hts ▸ hall.mpr (.inr (by decide)), ?_⟩
  obtain ⟨digits, behind, -, -, -, -, hnumber, -, -, hordered⟩ :=
    hitem 1 "999999999)".toList (by rw [hts]; rfl)
  exact ⟨digits, hnumber, hordered⟩

/-- A list of one item without text. Its start is a billion, as a number of the binary64 format. -/
def billionth : List Operation :=
  let start : Value := .float (.finite false (1000000000 * 2 ^ 23) (-23))
  [.createElement (.str "root") .null,
    .createElement (.str "list") (.map [(.str "ordered", .bool true), (.str "start", start)]),
    .createElement (.str "listItem") .null, .appendChild (.int 0) (.int 1),
    .appendChild (.int 1) (.int 2)]

/-- Not every number is of nine digits at most. -/
theorem some_number_has_ten_digits :
    ¬ ∀ (s : Store) (root : Value) (blocks nodes : List Node) (start : Int) (m : Metadata)
      (o : Options) (t : Text), (s.lower root).result = .ok (.document blocks) →
      .list true nodes start m ∈ blocks → t ∈ items o true false start nodes →
      ∃ digits c behind, t = digits ++ c :: behind ∧ (∀ d ∈ digits, d.isDigit = true) ∧
        1 ≤ digits.length ∧ digits.length ≤ 9 ∧ c ∈ ['.', ')'] := by
  intro hclaim
  have hlowered : ((Container.run billionth).store.lower (.int 0)).result =
      .ok (.document [.list true [.listItem [.paragraph [] synthesized] none] 1000000000]) := rfl
  have hitems : items {} true false 1000000000 [.listItem [.paragraph [] synthesized] none] =
      ["1000000000.".toList] := by
    decide +kernel
  obtain ⟨digits, c, behind, htext, hdigits, -, hnine, hc⟩ :=
    hclaim _ _ _ _ _ _ {} "1000000000.".toList hlowered (.head _) (by rw [hitems]; simp)
  have hend : c.isDigit = false := by
    have hall : ∀ e ∈ ['.', ')'], e.isDigit = false := by simp
    exact hall c hc
  have htake := congrArg (List.takeWhile Char.isDigit) htext
  rw [List.takeWhile_append_of_pos hdigits, List.takeWhile_cons_of_neg (by simp [hend]),
    List.append_nil] at htake
  rw [← htake] at hnine
  exact absurd hnine (by decide +kernel)

end DocumentTree.Markdown
