import DocumentTree.Proofs.Document.Texts
import DocumentTree.Proofs.Markdown.Documents
import DocumentTree.Proofs.Markdown.Parts
import DocumentTree.Proofs.Markdown.Signs

/-!
# Formatting keeps every text

Emphasis, strong emphasis and strikethrough put marks around content and move the white space at its
ends in front of them and behind them. Marks are characters that stand as they are, and those of the
texts are escaped. So when the marks are taken out again, what is left is the texts, each escaped,
one behind the other.

White space is cut off at every level. An escape is never torn there, because the escaped character
is no white space.

## Main definitions

* `withoutMarks t` — a text without the stars and tildes that are not escaped.
* `IsFirm t` — no escape in a text reaches over its end, and none is of white space.
* `Node.IsFormattedText` — text, and formatting of any depth around it.
-/

namespace DocumentTree

/-! ## Formatted text -/

namespace Node

mutual

/-- Text, or emphasis, strong emphasis or strikethrough around such nodes. -/
def IsFormattedText : Node → Prop
  | text .. => True
  | emphasis content _ | strong content _ | strikethrough content _ => AreFormattedText content
  | _ => False

/-- All nodes are text or formatting around text. -/
def AreFormattedText : List Node → Prop
  | [] => True
  | n :: ns => IsFormattedText n ∧ AreFormattedText ns

end

end Node

namespace Markdown

open Text (isBlank collapseBlanks)

variable {t u : Text} {o : Options}

/-! ## Taking marks out -/

/-- Whether a sign is a mark: a star or a tilde that is not escaped. -/
def Sign.isMark : Sign → Bool
  | plain c => c = '*' || c = '~'
  | escaped _ => false

/-- A text without its marks. Each backslash stays with the character behind it. -/
def withoutMarks (t : Text) : Text :=
  ((signs t).filter fun s => !s.isMark).flatMap Sign.written

/-- A sign at which a text can be cut: no backslash without a character, and no escaped white
space. -/
def Sign.IsFirm : Sign → Prop
  | plain c => c ≠ '\\'
  | escaped c => isBlank c = false

/-- A text that can be cut at its ends and at white space without tearing an escape. -/
def IsFirm (t : Text) : Prop :=
  ∀ s ∈ signs t, s.IsFirm

/-- **Firm text is read apart from what follows it.** -/
theorem signs_append (h : IsFirm t) (u : Text) : signs (t ++ u) = signs t ++ signs u := by
  rw [IsFirm] at h
  fun_induction signs t with
  | case1 => rfl
  | case2 c cs ih =>
    rw [List.forall_mem_cons] at h
    simpa using ih h.2
  | case3 c cs _ ih =>
    rw [List.forall_mem_cons] at h
    rw [List.cons_append, signs_cons h.1, ih h.2, List.cons_append]

theorem IsFirm.append (ht : IsFirm t) (hu : IsFirm u) : IsFirm (t ++ u) := by
  intro s hs
  rw [signs_append ht, List.mem_append] at hs
  exact hs.elim (ht s) (hu s)

theorem withoutMarks_append (h : IsFirm t) (u : Text) :
    withoutMarks (t ++ u) = withoutMarks t ++ withoutMarks u := by
  simp [withoutMarks, signs_append h]

/-- Without backslashes, every character is a sign. -/
theorem signs_of_plain (h : '\\' ∉ t) : signs t = t.map .plain := by
  induction t with
  | nil => rfl
  | cons c t ih =>
    rw [List.mem_cons, not_or] at h
    rw [signs_cons (Ne.symm h.1), ih h.2, List.map_cons]

theorem isFirm_of_plain (h : '\\' ∉ t) : IsFirm t := by
  intro s hs
  rw [signs_of_plain h] at hs
  obtain ⟨c, hc, rfl⟩ := List.mem_map.mp hs
  rintro rfl
  exact h hc

/-! ## Escaped text and white space -/

theorem not_mem_of_blanks {c : Char} (hc : isBlank c = false) (h : ∀ b ∈ t, isBlank b = true) :
    c ∉ t := by
  intro hmem
  rw [h c hmem] at hc
  cases hc

theorem isFirm_of_blanks (h : ∀ b ∈ t, isBlank b = true) : IsFirm t :=
  isFirm_of_plain (not_mem_of_blanks (by decide) h)

theorem isFirm_escapeText (t : Text) : IsFirm (escapeText t) := by
  intro s hs
  obtain ⟨previous, next, hsign⟩ := exists_escapeSign_of_mem hs
  rw [hsign, escapeSign]
  split
  · rename_i hneeds
    by_contra hblank
    rw [needsEscape_eq_false_of_isBlank (by simpa [Sign.IsFirm] using hblank)] at hneeds
    cases hneeds
  · rename_i hneeds
    rintro hbackslash
    exact hneeds (by simp [hbackslash, needsEscape, isAlwaysEscaped])

/-- Escaped text has no marks. -/
theorem withoutMarks_escapeText (t : Text) : withoutMarks (escapeText t) = escapeText t := by
  have hmarks : ∀ s ∈ signs (escapeText t), (!s.isMark) = true := by
    intro s hs
    obtain ⟨previous, next, hsign⟩ := exists_escapeSign_of_mem hs
    have hinert : s.IsInert previous next := by
      rw [hsign]
      exact isInert_escapeSign previous next s.char
    cases s with
    | escaped c => rfl
    | plain c =>
      have hc := hinert.1
      simp only [List.mem_cons, not_or] at hc
      simp [Sign.isMark, hc]
  rw [withoutMarks, List.filter_eq_self.mpr hmarks, flatMap_written_signs]

/-- What is left of firm text when white space is cut off its end is firm. -/
theorem isFirm_of_append_blanks (h : IsFirm (t ++ u)) (hu : ∀ b ∈ u, isBlank b = true) :
    IsFirm t := by
  rw [IsFirm] at h ⊢
  fun_induction signs t with
  | case1 => exact List.forall_mem_nil _
  | case2 c cs ih =>
    rw [List.cons_append, List.cons_append, signs_escape, List.forall_mem_cons] at h
    exact List.forall_mem_cons.mpr ⟨h.1, ih h.2⟩
  | case3 c cs hpair ih =>
    have hc : c ≠ '\\' := by
      rintro rfl
      -- The backslash is the last character of `t`, so it escapes white space or nothing.
      cases cs with
      | cons d ds => exact hpair d ds rfl rfl
      | nil =>
        cases u with
        | nil => exact h (.plain '\\') (by simp [signs]) rfl
        | cons b u =>
          have hfirm : isBlank b = false := h (.escaped b) (by simp)
          rw [hu b (by simp)] at hfirm
          cases hfirm
    rw [List.cons_append, signs_cons hc, List.forall_mem_cons] at h
    exact List.forall_mem_cons.mpr ⟨h.1, ih h.2⟩

/-! ## Marks around content -/

/-- A text of marks. -/
def AreMarks (marks : Text) : Prop :=
  ∀ c ∈ marks, c = '*' ∨ c = '~'

theorem AreMarks.isFirm (h : AreMarks t) : IsFirm t :=
  isFirm_of_plain fun hmem => by simpa using h _ hmem

theorem withoutMarks_of_areMarks (h : AreMarks t) : withoutMarks t = [] := by
  have hplain : '\\' ∉ t := fun hmem => by simpa using h _ hmem
  have hmarks : ∀ s ∈ signs t, ¬ (!s.isMark) = true := by
    intro s hs
    rw [signs_of_plain hplain] at hs
    obtain ⟨c, hc, rfl⟩ := List.mem_map.mp hs
    rcases h c hc with rfl | rfl <;> decide
  rw [withoutMarks, List.filter_eq_nil_iff.mpr hmarks]
  rfl

theorem areMarks_replicate (width : Nat) : AreMarks (List.replicate width '*') :=
  fun _ hc => .inl (List.eq_of_mem_replicate hc)

/-- **Marks around firm content can be taken out again**, wherever white space ends up. -/
theorem withoutMarks_wrap {marker : Text} (hmarker : AreMarks marker) (h : IsFirm t) :
    IsFirm (wrap marker t) ∧ withoutMarks (wrap marker t) = withoutMarks t := by
  by_cases hcore : Text.trim t = []
  · rw [wrap_of_trim_eq_nil hcore]
    exact ⟨h, rfl⟩
  obtain ⟨lead, trail, hlead, htrail, ht, hwrap⟩ := exists_blanks_around hcore
  have hfirmlead : IsFirm lead := isFirm_of_blanks hlead
  have hfirmcore : IsFirm (Text.trim t) := by
    refine isFirm_of_append_blanks (fun s hs => h s ?_) htrail
    rw [ht, List.append_assoc, signs_append hfirmlead]
    exact List.mem_append_right _ hs
  have hmarks : withoutMarks marker = [] := withoutMarks_of_areMarks hmarker
  have hopened : IsFirm (lead ++ marker) := hfirmlead.append hmarker.isFirm
  have hmiddle : IsFirm (lead ++ marker ++ Text.trim t) := hopened.append hfirmcore
  have hclosed : IsFirm (lead ++ marker ++ Text.trim t ++ marker) :=
    hmiddle.append hmarker.isFirm
  refine ⟨?_, ?_⟩
  · rw [hwrap]
    exact hclosed.append (isFirm_of_blanks htrail)
  · calc withoutMarks (wrap marker t)
        = withoutMarks lead ++ withoutMarks (Text.trim t) ++ withoutMarks trail := by
          rw [hwrap, withoutMarks_append hclosed, withoutMarks_append hmiddle,
            withoutMarks_append hopened, withoutMarks_append hfirmlead, hmarks]
          simp
      _ = withoutMarks t := by
          conv_rhs => rw [ht]
          rw [withoutMarks_append (hfirmlead.append hfirmcore), withoutMarks_append hfirmlead]

/-! ## Fragments of formatted text -/

/-- The texts as they are written, one behind the other. -/
def literals (texts : List String) : Text :=
  texts.flatMap fun s => escapeText (collapseBlanks s.toList)

/-- The options under which all marks are stars and tildes, and those of texts are escaped. -/
structure Options.IsStarred (o : Options) : Prop where
  emphasisMarker_eq : o.emphasisMarker = .star
  strongMarker_eq : o.strongMarker = .star
  escapeSpecial_eq : o.escapeSpecial = true

/-- A fragment whose neighbours leave it alone, and which is some text when its marks are taken
out. -/
structure Fragment.Carries (f : Fragment) (t : Text) : Prop extends f.IsSettled where
  isFirm : IsFirm f.text
  withoutMarks_eq : withoutMarks f.text = t

/-- Fragments in sequence carry their texts in sequence. -/
theorem carries_joinFragments (o : Options) {fs : List Fragment} {ts : List Text}
    (h : List.Forall₂ Fragment.Carries fs ts) :
    IsFirm (joinFragments o fs) ∧ withoutMarks (joinFragments o fs) = ts.flatten := by
  have hsettled : ∀ f ∈ fs, f.IsSettled := by
    induction h with
    | nil => nofun
    | cons hf _ ih => exact List.forall_mem_cons.mpr ⟨hf.toIsSettled, ih⟩
  rw [joinFragments_of_isSettled o hsettled]
  clear hsettled
  induction h with
  | nil => exact ⟨nofun, rfl⟩
  | cons hf _ ih =>
    rw [List.map_cons, List.flatten_cons, List.flatten_cons, withoutMarks_append hf.isFirm,
      hf.withoutMarks_eq, ih.2]
    exact ⟨hf.isFirm.append ih.1, rfl⟩

theorem carries_stressed (width : Nat) (h : IsFirm t) :
    (stressed .star width t).Carries (withoutMarks t) where
  isLink_eq := rfl
  asterisks_eq _ hkind := (FragmentKind.stress.inj hkind).symm
  isFirm := (withoutMarks_wrap (areMarks_replicate width) h).1
  withoutMarks_eq := (withoutMarks_wrap (areMarks_replicate width) h).2

/-- Inline content of fragments that carry the texts of its nodes carries them all. -/
theorem carries_inline {marker : Text} {ns : List Node}
    (h : List.Forall₂ Fragment.Carries (fragments o marker ns)
      (ns.map fun n => literals n.texts)) :
    IsFirm (joinFragments o (fragments o marker ns)) ∧
      withoutMarks (joinFragments o (fragments o marker ns)) = literals (Node.textsAll ns) := by
  obtain ⟨hfirm, htexts⟩ := carries_joinFragments o h
  refine ⟨hfirm, htexts.trans ?_⟩
  rw [Node.textsAll_eq_flatMap, ← List.flatMap_def, literals, List.flatMap_assoc]
  rfl

mutual

/-- Without its marks, formatted text is its texts. -/
theorem carries_fragment (ho : o.IsStarred) : (n : Node) → n.IsFormattedText →
    (placement : Placement) → (fragment o placement n).Carries (literals n.texts)
  | .text content _, _, placement => by
    rw [Node.texts, literals, List.flatMap_singleton]
    simp only [fragment, literal, ho.escapeSpecial_eq, if_true]
    exact ⟨⟨rfl, nofun⟩, isFirm_escapeText _, withoutMarks_escapeText _⟩
  | .emphasis content _, h, placement => by
    obtain ⟨hfirm, htexts⟩ := carries_inline (carries_fragments ho content h placement.marker)
    rw [fragment, ho.emphasisMarker_eq, Node.texts, ← htexts]
    exact carries_stressed 1 hfirm
  | .strong content _, h, placement => by
    obtain ⟨hfirm, htexts⟩ := carries_inline (carries_fragments ho content h placement.marker)
    rw [fragment, ho.strongMarker_eq, Node.texts, ← htexts]
    exact carries_stressed 2 hfirm
  | .strikethrough content _, h, placement => by
    obtain ⟨hfirm, htexts⟩ := carries_inline (carries_fragments ho content h placement.marker)
    have htildes : AreMarks ['~', '~'] := by simp [AreMarks]
    obtain ⟨hwrapped, hmarks⟩ := withoutMarks_wrap htildes hfirm
    rw [fragment, Node.texts, ← htexts]
    exact ⟨⟨rfl, nofun⟩, hwrapped, hmarks⟩

theorem carries_fragments (ho : o.IsStarred) : (ns : List Node) → Node.AreFormattedText ns →
    (marker : Text) → List.Forall₂ Fragment.Carries (fragments o marker ns)
      (ns.map fun n => literals n.texts)
  | [], _, _ => .nil
  | n :: ns, h, marker =>
    .cons (carries_fragment ho n h.1 { marker }) (carries_fragments ho ns h.2 marker)

end

/-- **Formatting keeps every text.** Inline content of texts in emphasis, strong emphasis and
strikethrough, nested to any depth, is written as their escaped forms with marks between them: when
the marks are taken out, the texts are left, in order, none of them changed. -/
theorem formatting_keeps_every_text (ho : o.IsStarred) {ns : List Node}
    (h : Node.AreFormattedText ns) :
    withoutMarks (inline o ns) =
      (Node.textsAll ns).flatMap fun s => escapeText (collapseBlanks s.toList) :=
  (carries_inline (carries_fragments ho ns h _)).2

/-- White space at both ends of a text in nested formatting, formatting without text, and marks and
backslashes in texts. -/
def nestedFormatting : List Node :=
  [.text "a*", .emphasis [.strikethrough [.text " \\ ", .strong []], .text "~b "],
    .strong [.text "\t"], .text "c"]

theorem nested_formatting_keeps_texts :
    Node.AreFormattedText nestedFormatting ∧
    inline {} nestedFormatting = "a\\* *~~\\\\~~ \\~b*  c".toList ∧
    withoutMarks (inline {} nestedFormatting) = "a\\* \\\\ \\~b  c".toList := by
  have h : Node.AreFormattedText nestedFormatting := by
    simp [nestedFormatting, Node.AreFormattedText, Node.IsFormattedText]
  refine ⟨h, by decide +kernel, ?_⟩
  rw [formatting_keeps_every_text ⟨rfl, rfl, rfl⟩ h]
  decide +kernel

end Markdown

end DocumentTree
