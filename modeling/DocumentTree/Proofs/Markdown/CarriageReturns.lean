import DocumentTree.Proofs.Markdown.Characters

/-!
# Where carriage returns come from

Code blocks, addresses, titles and alternative texts are written with every character they have. A
carriage return in the text of a document is one of theirs.

## Main definitions

* `Node.verbatim` — the strings of a document that keep every character.
* `Node.LacksReturns` — none of them has a carriage return.
-/

namespace DocumentTree

namespace Node

mutual

/-- The strings of a document that keep every character when they are written: code, languages,
addresses, titles and alternative texts. -/
def verbatim : Node → List String
  | codeBlock content language _ => content :: language.toList
  | link url content title _ => url :: title.toList ++ verbatimAll content
  | image url alternative title _ => url :: alternative :: title.toList
  | document children _ | blockQuote children _ | heading _ children _ | paragraph children _
  | list _ children _ _ | listItem children _ _ | table children _ | tableRow children _
  | tableCell children _ _ _ | emphasis children _ | strong children _
  | strikethrough children _ => verbatimAll children
  | thematicBreak _ | text .. | code .. => []

/-- The strings of documents that keep every character. -/
def verbatimAll : List Node → List String
  | [] => []
  | n :: ns => verbatim n ++ verbatimAll ns

end

/-- No string that keeps every character has a carriage return. -/
def LacksReturns (n : Node) : Prop :=
  ∀ s ∈ n.verbatim, '\r' ∉ s.toList

instance (n : Node) : Decidable n.LacksReturns :=
  inferInstanceAs (Decidable (∀ s ∈ n.verbatim, '\r' ∉ s.toList))

/-- No string of the documents that keeps every character has a carriage return. -/
def AllLackReturns (ns : List Node) : Prop :=
  ∀ s ∈ verbatimAll ns, '\r' ∉ s.toList

end Node

namespace Markdown

open Node (LacksReturns AllLackReturns)

private theorem lineEnd : Text.IsLineEnd '\r' := .inr rfl

theorem not_mem_separator (o : Options) (inItem : Bool) (previous : Option Predecessor) (n : Node) :
    '\r' ∉ separator o inItem previous n := by
  unfold separator
  split
  · simp
  · split
    · simp
    · split
      · split <;> simp
      · simp

/-- Blocks in sequence stand in the same list. -/
theorem marker_placementAfter (o : Options) (marker : Text) (previous : Option Predecessor)
    (n : Node) : (placementAfter o marker previous n).marker = marker := by
  unfold placementAfter
  split
  · split <;> rfl
  · rfl

theorem allLackReturns_cons {n : Node} {ns : List Node} (h : AllLackReturns (n :: ns)) :
    n.LacksReturns ∧ AllLackReturns ns :=
  ⟨fun s hs => h s (List.mem_append_left _ hs), fun s hs => h s (List.mem_append_right _ hs)⟩

section Returns

variable (o : Options)

mutual

/-- **A carriage return in a written node is one of a string that keeps its characters.** -/
theorem lacks_fragment : (n : Node) → n.LacksReturns → (placement : Placement) →
    '\r' ∉ placement.marker → (fragment o placement n).Lacks '\r'
  | .document children _, h, placement, hm =>
    ⟨not_mem_blocksAfter children h placement.marker hm false none, nofun⟩
  | .heading level content _, h, placement, hm => by
    have hcontent := not_mem_joinFragments lineEnd (lacks_fragments content h placement.marker hm) o
    exact ⟨not_mem_heading lineEnd level
      (not_mem_escapeClosingHashes lineEnd (Text.not_mem_trim hcontent)), nofun⟩
  | .paragraph content _, h, placement, hm => by
    have hcontent := not_mem_joinFragments lineEnd (lacks_fragments content h placement.marker hm) o
    exact ⟨not_mem_paragraph lineEnd o hcontent, nofun⟩
  | .codeBlock content language _, h, placement, _ =>
    ⟨not_mem_codeBlock (h content (by simp [Node.verbatim]))
      fun s hs => h s (by simp [Node.verbatim, hs]), nofun⟩
  | .blockQuote children _, h, placement, hm =>
    ⟨not_mem_quote (not_mem_blocksAfter children h placement.marker hm false none), nofun⟩
  | .list ordered nodes start _, h, placement, _ =>
    ⟨Text.not_mem_unlines (by decide)
      (not_mem_items nodes h ordered placement.alternate start), nofun⟩
  | .listItem children status _, h, placement, hm =>
    ⟨not_mem_item hm o status (not_mem_blocksAfter children h placement.marker hm true none), nofun⟩
  | .table nodes _, h, placement, hm =>
    ⟨not_mem_table (not_mem_rows nodes h placement.marker hm), nofun⟩
  | .tableRow nodes _, h, placement, hm => by
    refine ⟨not_mem_row lineEnd fun t ht => ?_, nofun⟩
    obtain ⟨cell, hcell, rfl⟩ := List.mem_map.mp ht
    exact not_mem_cells nodes h placement.marker hm cell hcell
  | .tableCell content _ _ _, h, placement, hm => by
    have hcontent := not_mem_joinFragments lineEnd (lacks_fragments content h placement.marker hm) o
    exact ⟨not_mem_cellContent lineEnd o hcontent, nofun⟩
  | .thematicBreak _, _, placement, _ => by
    have hrule : '\r' ≠ o.ruleStyle.char := by cases o.ruleStyle <;> decide
    exact ⟨fun hmem => hrule (List.eq_of_mem_replicate hmem), nofun⟩
  | .text content _, _, placement, _ => ⟨not_mem_literal lineEnd o _, nofun⟩
  | .emphasis content _, h, placement, hm =>
    lacks_stressed lineEnd _ _
      (not_mem_joinFragments lineEnd (lacks_fragments content h placement.marker hm) o)
  | .strong content _, h, placement, hm =>
    lacks_stressed lineEnd _ _
      (not_mem_joinFragments lineEnd (lacks_fragments content h placement.marker hm) o)
  | .strikethrough content _, h, placement, hm =>
    ⟨not_mem_wrap (by decide)
      (not_mem_joinFragments lineEnd (lacks_fragments content h placement.marker hm) o), nofun⟩
  | .code content _, _, placement, _ => ⟨not_mem_codeSpan lineEnd _, nofun⟩
  | .link url content t _, h, placement, hm => by
    have hcontent := not_mem_joinFragments lineEnd (lacks_fragments content
      (fun s hs => h s (by simp [Node.verbatim, hs])) placement.marker hm) o
    have htarget : '\r' ∉ target url t :=
      not_mem_target lineEnd (h url (by simp [Node.verbatim])) fun s hs =>
        h s (by simp [Node.verbatim, hs])
    exact ⟨by simp [fragment, hcontent, htarget], nofun⟩
  | .image url alternative t _, h, placement, _ => by
    have halternative := not_mem_escapeBrackets lineEnd (h alternative (by simp [Node.verbatim]))
    have htarget : '\r' ∉ target url t :=
      not_mem_target lineEnd (h url (by simp [Node.verbatim])) fun s hs =>
        h s (by simp [Node.verbatim, hs])
    exact ⟨by simp [fragment, halternative, htarget], nofun⟩

theorem lacks_fragments : (ns : List Node) → AllLackReturns ns → (marker : Text) →
    '\r' ∉ marker → ∀ f ∈ fragments o marker ns, f.Lacks '\r'
  | [], _, _, _ => by simp [fragments]
  | n :: ns, h, marker, hm => by
    obtain ⟨hn, hns⟩ := allLackReturns_cons h
    rw [fragments, List.forall_mem_cons]
    exact ⟨lacks_fragment n hn _ hm, lacks_fragments ns hns marker hm⟩

theorem not_mem_blocksAfter : (ns : List Node) → AllLackReturns ns → (marker : Text) →
    '\r' ∉ marker → (inItem : Bool) → (previous : Option Predecessor) →
    '\r' ∉ blocksAfter o marker inItem previous ns
  | [], _, _, _, _, _ => by simp [blocksAfter]
  | n :: ns, h, marker, hm, inItem, previous => by
    obtain ⟨hn, hns⟩ := allLackReturns_cons h
    have htext := (lacks_fragment n hn (placementAfter o marker previous n)
      (by rwa [marker_placementAfter])).1
    simp only [blocksAfter]
    split
    · exact not_mem_blocksAfter ns hns marker hm inItem previous
    · simp only [List.mem_append, not_or]
      exact ⟨⟨not_mem_separator o inItem previous n, htext⟩,
        not_mem_blocksAfter ns hns marker hm inItem _⟩

theorem not_mem_items : (ns : List Node) → AllLackReturns ns → (ordered alternate : Bool) →
    (number : Int) → ∀ t ∈ items o ordered alternate number ns, '\r' ∉ t
  | [], _, _, _, _ => by simp [items]
  | n :: ns, h, ordered, alternate, number => by
    obtain ⟨hn, hns⟩ := allLackReturns_cons h
    rw [items, List.forall_mem_cons]
    exact ⟨(lacks_fragment n hn _ (not_mem_listMarker lineEnd o ordered alternate number)).1,
      not_mem_items ns hns ordered alternate (number + 1)⟩

theorem not_mem_rows : (ns : List Node) → AllLackReturns ns → (marker : Text) → '\r' ∉ marker →
    ∀ row ∈ rows o marker ns, ∀ cell ∈ row, '\r' ∉ cell.text
  | [], _, _, _ => by simp [rows]
  | n :: ns, h, marker, hm => by
    obtain ⟨hn, hns⟩ := allLackReturns_cons h
    have hrest := not_mem_rows ns hns marker hm
    cases n with
    | tableRow nodes metadata =>
      rw [rows, List.forall_mem_cons]
      exact ⟨not_mem_cells nodes hn marker hm, hrest⟩
    | _ =>
      rw [rows, List.forall_mem_cons]
      · exact ⟨nofun, hrest⟩
      · exact nofun

theorem not_mem_cell : (n : Node) → n.LacksReturns → (marker : Text) → '\r' ∉ marker →
    '\r' ∉ (cell o marker n).text
  | .tableCell content _ _ _, h, marker, hm | .heading _ content _, h, marker, hm
  | .paragraph content _, h, marker, hm | .emphasis content _, h, marker, hm
  | .strong content _, h, marker, hm | .strikethrough content _, h, marker, hm =>
    not_mem_cellContent lineEnd o
      (not_mem_joinFragments lineEnd (lacks_fragments content h marker hm) o)
  | .link url content t _, h, marker, hm =>
    not_mem_cellContent lineEnd o (not_mem_joinFragments lineEnd (lacks_fragments content
      (fun s hs => h s (by simp [Node.verbatim, hs])) marker hm) o)
  | .document .., _, _, _ | .codeBlock .., _, _, _ | .blockQuote .., _, _, _ | .list .., _, _, _
  | .listItem .., _, _, _ | .table .., _, _, _ | .tableRow .., _, _, _ | .thematicBreak _, _, _, _
  | .text .., _, _, _ | .code .., _, _, _ | .image .., _, _, _ => by simp [cell]

theorem not_mem_cells : (ns : List Node) → AllLackReturns ns → (marker : Text) → '\r' ∉ marker →
    ∀ cell ∈ cells o marker ns, '\r' ∉ cell.text
  | [], _, _, _ => by simp [cells]
  | n :: ns, h, marker, hm => by
    obtain ⟨hn, hns⟩ := allLackReturns_cons h
    rw [cells, List.forall_mem_cons]
    exact ⟨not_mem_cell n hn marker hm, not_mem_cells ns hns marker hm⟩

end

end Returns

/-- **A document whose verbatim strings have no carriage return is written without one.** -/
theorem not_mem_body {n : Node} (h : n.LacksReturns) (o : Options) : '\r' ∉ body o n := by
  have hbullet : '\r' ≠ o.bulletMarker.char := by cases o.bulletMarker <;> decide
  exact (lacks_fragment o n h { marker := [o.bulletMarker.char] } (by simpa using hbullet)).1

end Markdown

end DocumentTree
