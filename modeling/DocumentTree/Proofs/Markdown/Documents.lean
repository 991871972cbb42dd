import DocumentTree.Markdown.Writable
import DocumentTree.Proofs.Document.Grammatical
import DocumentTree.Proofs.Text.Lines
import DocumentTree.Proofs.Text.Trimming

/-!
# Documents and their texts

The tables of a grammatical document are grids of cells, so the document is written. A document of
one block is written as the block, with its end trimmed and one line feed behind it. Fragments that
look the same beside all neighbours, as texts do, are written one behind the other.
-/

namespace DocumentTree.Markdown

open Node (Grammatical AllGrammatical)

theorem rowCells_areCells {row : Node} (h : row.Grammatical) :
    ∀ n ∈ rowCells row, n.isCell = true := by
  cases row with
  | tableRow cells metadata => exact h.1
  | _ => exact nofun

/-- In a grid of cells every alignment can be looked up. -/
theorem areAlignable_of_grammatical {rows : List Node} (h : AllGrammatical rows) :
    areAlignable rows = true := by
  rw [Node.allGrammatical_iff] at h
  simp only [areAlignable, List.all_eq_true]
  intro column _
  rw [isAlignable, List.all_eq_true]
  intro n hn
  have hmem := (List.takeWhile_sublist _).mem hn
  rw [List.mem_filterMap] at hmem
  obtain ⟨cells, hcells, hcell⟩ := hmem
  obtain ⟨row, hrow, rfl⟩ := List.mem_map.mp hcells
  exact rowCells_areCells (h row hrow) n (List.mem_of_getElem? hcell)

mutual

/-- **A grammatical node can be written.** -/
theorem isWritable_of_grammatical : (n : Node) → n.Grammatical → isWritable n = true
  | .document children _, h | .blockQuote children _, h | .heading _ children _, h
  | .paragraph children _, h | .emphasis children _, h | .strong children _, h
  | .strikethrough children _, h | .link _ children _ _, h => by
    rw [isWritable]
    exact areWritable_of_grammatical children h.2
  | .listItem children _ _, h | .list _ children _ _, h | .tableCell children _ _ _, h => by
    rw [isWritable]
    exact areWritable_of_grammatical children h.2.2
  | .table rows _, h => by
    rw [isWritable, areRows_of_grammatical rows h.1 h.2, areAlignable_of_grammatical h.2]
    rfl
  | .tableRow cells _, h => by
    rw [isWritable]
    exact areCells_of_grammatical cells h.1 h.2
  | .codeBlock .., _ | .thematicBreak _, _ | .text .., _ | .code .., _ | .image .., _ => rfl

theorem areWritable_of_grammatical : (ns : List Node) → AllGrammatical ns → areWritable ns = true
  | [], _ => rfl
  | n :: ns, h => by
    rw [areWritable, isWritable_of_grammatical n h.1, areWritable_of_grammatical ns h.2]
    rfl

theorem areRows_of_grammatical : (rows : List Node) → (∀ n ∈ rows, n.isRow = true) →
    AllGrammatical rows → areRows rows = true
  | [], _, _ => rfl
  | n :: rows, hrows, h => by
    have hrow : n.isRow = true := hrows n (by simp)
    cases n with
    | tableRow cells metadata =>
      rw [areRows, areCells_of_grammatical cells h.1.1 h.1.2,
        areRows_of_grammatical rows (fun n hn => hrows n (List.mem_cons_of_mem _ hn)) h.2]
      rfl
    | _ => cases hrow

theorem areCells_of_grammatical : (cells : List Node) → (∀ n ∈ cells, n.isCell = true) →
    AllGrammatical cells → areCells cells = true
  | [], _, _ => rfl
  | n :: cells, hcells, h => by
    have hinline : hasInlineContent n = true := by
      have hcell : n.isCell = true := hcells n (by simp)
      cases n <;> first | rfl | cases hcell
    rw [areCells, hinline, isWritable_of_grammatical n h.1,
      areCells_of_grammatical cells (fun m hm => hcells m (List.mem_cons_of_mem _ hm)) h.2]
    rfl

end

/-- **A document without problems is written**, and its text is the rendered one. -/
theorem write?_of_problems_eq_nil (o : Options) {n : Node} (h : n.problems = []) :
    write? o n = some (render o n) := by
  rw [write?, if_pos (isWritable_of_grammatical n (n.problems_eq_nil_iff.mp h))]

/-! ## Fragments in sequence -/

/-- A fragment that its neighbours leave as it is, and that leaves them: it is no link, and its form
between asterisks is the one it has. -/
structure Fragment.IsSettled (f : Fragment) : Prop where
  isLink_eq : f.isLink = false
  asterisks_eq : ∀ asterisks, f.kind = .stress asterisks → asterisks = f.text

theorem settle_of_isSettled (o : Options) {fs : List Fragment} (h : ∀ f ∈ fs, f.IsSettled)
    (previous : Option Char) : settle o previous fs = fs.map Fragment.text := by
  induction fs generalizing previous with
  | nil => rfl
  | cons f fs ih =>
    rw [List.forall_mem_cons] at h
    have hnolink : (fs.head?.map Fragment.isLink).getD false = false := by
      cases fs with
      | nil => rfl
      | cons g fs => exact (h.2 g (by simp)).isLink_eq
    have hself : f.settled o previous fs.head? = f.text := by
      rw [Fragment.settled, hnolink]
      cases hkind : f.kind with
      | stress asterisks =>
        rw [h.1.asterisks_eq asterisks hkind]
        exact ite_self _
      | _ => simp
    rw [settle, ih h.2, hself, List.map_cons]

/-- Such fragments are written side by side. -/
theorem joinFragments_of_isSettled (o : Options) {fs : List Fragment}
    (h : ∀ f ∈ fs, f.IsSettled) : joinFragments o fs = (fs.map Fragment.text).flatten := by
  rw [joinFragments, settle_of_isSettled o fun f hf => h f (List.mem_of_mem_filter hf)]
  clear h
  induction fs with
  | nil => rfl
  | cons f fs ih =>
    cases hf : f.text with
    | nil => simpa [hf] using ih
    | cons c t => simpa [hf] using ih

/-- Texts are written side by side. -/
theorem joinFragments_of_texts (o : Options) {fs : List Fragment} (h : ∀ f ∈ fs, f.kind = .text) :
    joinFragments o fs = (fs.map Fragment.text).flatten :=
  joinFragments_of_isSettled o fun f hf => ⟨by simp [Fragment.isLink, h f hf], by simp [h f hf]⟩

/-! ## Documents of one block -/

/-- A block without siblings is written as itself. -/
theorem blocksAfter_singleton (o : Options) (marker : Text) (inItem : Bool) (n : Node) :
    blocksAfter o marker inItem none [n] = (fragment o { marker } n).text := by
  have hplacement : placementAfter o marker none n = { marker } := rfl
  simp only [blocksAfter, hplacement, separator]
  cases (fragment o { marker } n).text <;> simp

/-- A document of one block is written as the block. -/
theorem body_document_singleton (o : Options) (n : Node) (metadata : Metadata) :
    body o (.document [n] metadata) = body o n := by
  simp only [body, fragment, blocksAfter_singleton]

/-- Carriage returns that only end lines are dropped, and the end is trimmed. -/
theorem finish_of_returnsEndLines {t : Text} (h : Text.ReturnsEndLines t) :
    finish t = Text.trimRight (Text.dropReturns t) ++ ['\n'] := by
  rw [finish, Text.normalizeLineEnds_eq_dropReturns h]

/-- A text on one line that is trimmed at its end only gets the final line feed. -/
theorem finish_eq {t : Text} (h : '\r' ∉ t)
    (hlast : ∀ c, t.getLast? = some c → Text.isBlank c = false) : finish t = t ++ ['\n'] := by
  rw [finish_of_returnsEndLines (Text.returnsEndLines_of_not_mem h), Text.dropReturns_eq_self h,
    Text.trimRight, Text.dropRightWhile_eq_self hlast]

end DocumentTree.Markdown
