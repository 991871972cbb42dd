import DocumentTree.Proofs.Markdown.Characters
import DocumentTree.Proofs.Markdown.Documents

/-!
# Words and the styles around them

The simplest inline content: words of ASCII letters, and emphasis, strong emphasis and strikethrough
around them. Nothing in it is escaped, trimmed or moved, so it is written as the letters with the
delimiters of the styles between them, and all that neighbours decide is which mark a delimiter
has.

## Main definitions

* `Word`, `Style`, `Spans` — words, styles, and sequences of words and styled content.
* `Spans.nodes` — the inline nodes of a sequence.
* `Spans.Proper` — styles have content, and no two words are neighbours.
* `Spans.written` — the text of a sequence.
-/

namespace DocumentTree

namespace Text

variable {c d : Char}

/-! ## ASCII letters -/

/-- The numbers of the ASCII letters. -/
def letterNumbers : List Nat :=
  List.range' 65 26 ++ List.range' 97 26

/-- What holds of the ASCII letters is checked one by one. -/
theorem toNat_mem_letterNumbers (h : c.isAlpha = true) : c.toNat ∈ letterNumbers := by
  have hrange : (65 ≤ c.toNat ∧ c.toNat ≤ 90) ∨ (97 ≤ c.toNat ∧ c.toNat ≤ 122) := by
    rcases Bool.or_eq_true_iff.mp h with hupper | hlower
    · have hbounds : 'A'.val ≤ c.val ∧ c.val ≤ 'Z'.val := of_decide_eq_true hupper
      exact .inl (hbounds.imp UInt32.le_iff_toNat_le.mp UInt32.le_iff_toNat_le.mp)
    · obtain ⟨hlow, hhigh⟩ := Bool.and_eq_true_iff.mp hlower
      exact .inr ⟨UInt32.le_iff_toNat_le.mp (of_decide_eq_true hlow),
        UInt32.le_iff_toNat_le.mp (of_decide_eq_true hhigh)⟩
  simp only [letterNumbers, List.mem_append, List.mem_range'_1]
  omega

theorem isBlank_eq_false_of_isAlpha (h : c.isAlpha = true) : isBlank c = false := by
  have hall : ∀ n ∈ letterNumbers, inRanges blankRanges n = false := by decide
  exact hall c.toNat (toNat_mem_letterNumbers h)

theorem isAlphanumeric_of_isAlpha (h : c.isAlpha = true) : isAlphanumeric c = true := by
  have hall : ∀ n ∈ letterNumbers, inRanges letterRanges n = true := by decide
  rw [isAlphanumeric, isLetter, hall c.toNat (toNat_mem_letterNumbers h), Bool.true_or]

theorem ne_of_isAlpha (h : c.isAlpha = true) (hd : d.isAlpha = false) : c ≠ d := by
  rintro rfl
  rw [h] at hd
  cases hd

end Text

namespace Markdown

open Text (isBlank)

variable {c : Char} {t : Text}

/-! ## Sequences -/

/-- A word of ASCII letters. -/
@[ext] structure Word where
  /-- The letters. -/
  text : Text
  /-- There is a letter. -/
  ne_nil : text ≠ []
  /-- There is nothing else. -/
  letters : ∀ c ∈ text, c.isAlpha = true
  deriving DecidableEq

/-- The styles of inline content that are written between delimiters. -/
inductive Style where
  /-- Emphasis. -/
  | emphasis
  /-- Strong emphasis. -/
  | strong
  /-- Strikethrough. -/
  | strikethrough
  deriving DecidableEq

/-- A node of a style. -/
def Style.node (content : List Node) : Style → Node
  | .emphasis => .emphasis content
  | .strong => .strong content
  | .strikethrough => .strikethrough content

/-- Sequences of words and of styled sequences. -/
inductive Spans where
  /-- Nothing. -/
  | nil
  /-- A word before a sequence. -/
  | word (w : Word) (rest : Spans)
  /-- Content of a style before a sequence. -/
  | styled (style : Style) (content rest : Spans)
  deriving DecidableEq

namespace Spans

/-- The inline nodes of a sequence. -/
def nodes : Spans → List Node
  | nil => []
  | word w rest => .text (String.ofList w.text) :: rest.nodes
  | styled style content rest => style.node content.nodes :: rest.nodes

/-- Whether a sequence starts with a word. -/
def startsWithWord : Spans → Bool
  | word .. => true
  | _ => false

/-- Styles have content, and no two words are neighbours. -/
def Proper : Spans → Prop
  | nil => True
  | word _ rest => rest.startsWithWord = false ∧ rest.Proper
  | styled _ content rest => content ≠ nil ∧ content.Proper ∧ rest.Proper

instance decidableProper : (xs : Spans) → Decidable xs.Proper
  | nil => inferInstanceAs (Decidable True)
  | word _ rest =>
    have := decidableProper rest
    inferInstanceAs (Decidable (rest.startsWithWord = false ∧ rest.Proper))
  | styled _ content rest =>
    have := decidableProper content
    have := decidableProper rest
    inferInstanceAs (Decidable (content ≠ nil ∧ content.Proper ∧ rest.Proper))

end Spans

/-! ## Their text -/

/-- The number of marks in the delimiter of a style. -/
def Style.width : Style → Nat
  | .emphasis => 1
  | .strong | .strikethrough => 2

/-- The mark in the delimiter of a style: where a word touches emphasis, the asterisk. -/
def Style.mark (o : Options) (touched : Bool) : Style → Char
  | .emphasis => if touched then '*' else o.emphasisMarker.char
  | .strong => if touched then '*' else o.strongMarker.char
  | .strikethrough => '~'

/-- The delimiter of a style. -/
def Style.delimiter (o : Options) (touched : Bool) (style : Style) : Text :=
  List.replicate style.width (style.mark o touched)

/-- The text of a sequence, which may come right after a word. -/
def Spans.written (o : Options) (afterWord : Bool) : Spans → Text
  | nil => []
  | word w rest => w.text ++ rest.written o true
  | styled style content rest =>
    let delimiter := style.delimiter o (afterWord || rest.startsWithWord)
    delimiter ++ content.written o false ++ delimiter ++ rest.written o false

/-- The marks that delimiters consist of. -/
def marks : List Char := ['*', '_', '~']

theorem Style.mark_mem (o : Options) (touched : Bool) (style : Style) :
    style.mark o touched ∈ marks := by
  have hstress : ∀ m : Stress, m.char ∈ marks := by
    rintro (_ | _) <;> decide
  cases style with
  | emphasis => cases touched <;> first | exact hstress _ | exact hstress .star
  | strong => cases touched <;> first | exact hstress _ | exact hstress .star
  | strikethrough => simp [mark, marks]

/-- A mark is neither white space nor a letter or numeral. -/
theorem of_mem_marks (h : c ∈ marks) :
    isBlank c = false ∧ c.isAlpha = false ∧ isWordBeside (some c) = false := by
  simp only [marks, List.mem_cons, List.not_mem_nil, or_false] at h
  rcases h with rfl | rfl | rfl <;> decide +kernel

namespace Spans

/-- The text consists of letters and marks. -/
theorem mem_written {o : Options} {afterWord : Bool} {xs : Spans}
    (h : c ∈ xs.written o afterWord) : c.isAlpha = true ∨ c ∈ marks := by
  induction xs generalizing afterWord with
  | nil => cases h
  | word w rest ih =>
    rcases List.mem_append.mp h with h | h
    · exact .inl (w.letters c h)
    · exact ih h
  | styled style content rest ihcontent ihrest =>
    have hdelimiter : ∀ touched, c ∈ style.delimiter o touched →
        c.isAlpha = true ∨ c ∈ marks := by
      intro touched hmem
      rw [List.eq_of_mem_replicate hmem]
      exact .inr (style.mark_mem o touched)
    simp only [written, List.mem_append] at h
    rcases h with ((h | h) | h) | h
    · exact hdelimiter _ h
    · exact ihcontent h
    · exact hdelimiter _ h
    · exact ihrest h

/-- There is no white space in the text. -/
theorem isBlank_of_mem_written {o : Options} {afterWord : Bool} {xs : Spans}
    (h : c ∈ xs.written o afterWord) : isBlank c = false := by
  rcases mem_written h with h | h
  · exact Text.isBlank_eq_false_of_isAlpha h
  · exact (of_mem_marks h).1

/-- There is a letter in the text. -/
theorem exists_letter {xs : Spans} (hne : xs ≠ nil) (hx : xs.Proper) (o : Options)
    (afterWord : Bool) : ∃ c ∈ xs.written o afterWord, c.isAlpha = true := by
  induction xs generalizing afterWord with
  | nil => exact absurd rfl hne
  | word w rest =>
    obtain ⟨c, t, hw⟩ := List.exists_cons_of_ne_nil w.ne_nil
    have hc : c ∈ w.text := by simp [hw]
    exact ⟨c, by simp [written, hc], w.letters c hc⟩
  | styled style content rest ihcontent =>
    obtain ⟨c, hc, halpha⟩ := ihcontent hx.1 hx.2.1 false
    exact ⟨c, by simp [written, hc], halpha⟩

theorem written_ne_nil {xs : Spans} (hne : xs ≠ nil) (hx : xs.Proper) (o : Options)
    (afterWord : Bool) : xs.written o afterWord ≠ [] := by
  obtain ⟨c, hc, -⟩ := exists_letter hne hx o afterWord
  exact List.ne_nil_of_mem hc

end Spans

/-! ## The nodes are written like that -/

section Written

variable (o : Options)

theorem needsEscape_eq_false_of_isAlpha (h : c.isAlpha = true) (previous next : Option Char) :
    needsEscape previous c next = false := by
  have hne : ∀ d, d.isAlpha = false → c ≠ d := fun d hd => Text.ne_of_isAlpha h hd
  simp [needsEscape, isAlwaysEscaped, hne '\\' (by decide), hne '`' (by decide),
    hne '*' (by decide), hne '[' (by decide), hne ']' (by decide), hne '~' (by decide),
    hne '_' (by decide), hne '<' (by decide), hne '&' (by decide)]

theorem escapeTextAfter_eq_self (h : ∀ c ∈ t, c.isAlpha = true) (previous : Option Char) :
    escapeTextAfter previous t = t := by
  induction t generalizing previous with
  | nil => rfl
  | cons c t ih =>
    rw [List.forall_mem_cons] at h
    rw [escapeTextAfter, needsEscape_eq_false_of_isAlpha h.1, if_neg (by simp), ih h.2]

/-- A word is written as it is. -/
theorem literal_word (w : Word) : literal o w.text = w.text := by
  have hblank : ∀ c ∈ w.text, isBlank c = false := fun c hc =>
    Text.isBlank_eq_false_of_isAlpha (w.letters c hc)
  rw [literal, Text.collapseBlanks_eq_self hblank]
  split
  · exact escapeTextAfter_eq_self w.letters none
  · rfl

/-- Content without white space stands right between its markers. -/
theorem wrap_eq {inner : Text} (marker : Text) (hne : inner ≠ [])
    (h : ∀ c ∈ inner, isBlank c = false) : wrap marker inner = marker ++ inner ++ marker := by
  obtain ⟨c, t, rfl⟩ := List.exists_cons_of_ne_nil hne
  have hleading : Text.leadingBlanks (c :: t) = [] := by
    rw [Text.leadingBlanks, List.takeWhile_cons_of_neg (by simp [h c])]
  have htrailing : Text.trailingBlanks (c :: t) = [] := by
    rw [Text.trailingBlanks, Text.trimRight_eq_self h, List.drop_length]
  simp only [wrap, Text.trim_eq_self h, hleading, htrailing]
  simp

variable {inner : Text} (hne : inner ≠ []) (hblank : ∀ c ∈ inner, isBlank c = false)

include hne hblank

/-- Emphasis is written with the mark of the options, or with asterisks where a word touches it. -/
theorem settled_stressed (m : Stress) {width : Nat} (hwidth : 0 < width) (previous : Option Char)
    (following : Option Fragment) :
    let touched := isWordBeside previous || isWordBeside (following.bind fun f => f.text.head?)
    let delimiter := List.replicate width (if touched then '*' else m.char)
    (stressed m width inner).settled o previous following = delimiter ++ inner ++ delimiter := by
  obtain ⟨n, rfl⟩ : ∃ n, width = n + 1 := ⟨width - 1, by omega⟩
  have hhead : ∀ mark : Char, (List.replicate (n + 1) mark ++ inner ++
      List.replicate (n + 1) mark).head? = some mark := by
    simp [List.replicate_succ]
  have hlast : ∀ mark : Char, (List.replicate (n + 1) mark ++ inner ++
      List.replicate (n + 1) mark).getLast? = some mark := by
    simp [List.replicate_succ', ← List.append_assoc]
  simp only [stressed, Fragment.settled, wrap_eq _ hne hblank, touchesWord, hhead, hlast]
  cases m with
  | star => simp [Stress.char]
  | underscore =>
    cases isWordBeside previous <;>
      cases isWordBeside (following.bind fun f => f.text.head?) <;> simp [Stress.char]

/-- A style is written between its delimiters, with asterisks where a word touches it. -/
theorem settled_style (style : Style) {content : List Node} (placement : Placement)
    (hcontent : joinFragments o (fragments o placement.marker content) = inner)
    (previous : Option Char) (following : Option Fragment) :
    let touched := isWordBeside previous || isWordBeside (following.bind fun f => f.text.head?)
    (fragment o placement (style.node content)).settled o previous following =
      style.delimiter o touched ++ inner ++ style.delimiter o touched := by
  cases style with
  | emphasis =>
    simp only [Style.node, fragment, hcontent]
    exact settled_stressed o hne hblank o.emphasisMarker (by decide) previous following
  | strong =>
    simp only [Style.node, fragment, hcontent]
    exact settled_stressed o hne hblank o.strongMarker (by decide) previous following
  | strikethrough =>
    simp only [Style.node, fragment, hcontent]
    exact wrap_eq _ hne hblank

theorem text_style (style : Style) {content : List Node} (placement : Placement)
    (hcontent : joinFragments o (fragments o placement.marker content) = inner) :
    (fragment o placement (style.node content)).text =
      style.delimiter o false ++ inner ++ style.delimiter o false := by
  cases style <;> simp only [Style.node, fragment, hcontent, stressed] <;>
    exact wrap_eq _ hne hblank

end Written

namespace Spans

/-- The fragments of a sequence come to its text. -/
structure Settles (o : Options) (marker : Text) (xs : Spans) : Prop where
  /-- No fragment is empty. -/
  filled : ∀ f ∈ fragments o marker xs.nodes, f.text ≠ []
  /-- They start with a letter or numeral just where the sequence starts with a word. -/
  first : isWordBeside ((fragments o marker xs.nodes).head?.bind fun f => f.text.head?) =
    xs.startsWithWord
  /-- Side by side they are the text. -/
  flatten : ∀ previous, (settle o previous (fragments o marker xs.nodes)).flatten =
    xs.written o (isWordBeside previous)

/-- **The nodes of a sequence are written as its text**, once their fragments come to it. -/
theorem Settles.joinFragments_eq {o : Options} {marker : Text} {xs : Spans}
    (h : xs.Settles o marker) :
    joinFragments o (fragments o marker xs.nodes) = xs.written o false := by
  have hfilter : (fragments o marker xs.nodes).filter (fun f => !f.text.isEmpty) =
      fragments o marker xs.nodes :=
    List.filter_eq_self.mpr fun f hf => by simpa using h.filled f hf
  rw [joinFragments, hfilter]
  exact h.flatten none

theorem Settles.nil (o : Options) (marker : Text) : nil.Settles o marker where
  filled := nofun
  first := rfl
  flatten _ := rfl

theorem Settles.word {o : Options} {marker : Text} {rest : Spans} (h : rest.Settles o marker)
    (w : Word) : (Spans.word w rest).Settles o marker := by
  have hfragment : fragments o marker (Spans.word w rest).nodes =
      ⟨w.text, .text⟩ :: fragments o marker rest.nodes := by
    simp [nodes, fragments, fragment, literal_word]
  have hfirst : isWordBeside w.text.head? = true := by
    obtain ⟨c, t, hw⟩ := List.exists_cons_of_ne_nil w.ne_nil
    rw [hw]
    exact Text.isAlphanumeric_of_isAlpha (w.letters c (by simp [hw]))
  have hletter := w.letters _ (List.getLast_mem w.ne_nil)
  have hlast : isWordBeside w.text.getLast? = true := by
    rw [List.getLast?_eq_some_getLast w.ne_nil]
    exact Text.isAlphanumeric_of_isAlpha hletter
  refine ⟨?_, ?_, fun previous => ?_⟩
  · rw [hfragment, List.forall_mem_cons]
    exact ⟨w.ne_nil, h.filled⟩
  · simpa [hfragment, startsWithWord] using hfirst
  · have hsettled : Fragment.settled o previous ⟨w.text, .text⟩
        (fragments o marker rest.nodes).head? = w.text := by
      have hbang : w.text.getLast w.ne_nil ≠ '!' := Text.ne_of_isAlpha hletter (by decide)
      simp [Fragment.settled, List.getLast?_eq_some_getLast w.ne_nil, hbang]
    rw [hfragment, settle, hsettled, List.flatten_cons, h.flatten, hlast, written]

theorem Settles.styled {o : Options} {marker : Text} {content rest : Spans} (style : Style)
    (hne : content ≠ Spans.nil) (hproper : content.Proper) (hcontent : content.Settles o marker)
    (hrest : rest.Settles o marker) : (Spans.styled style content rest).Settles o marker := by
  have hjoin := hcontent.joinFragments_eq
  have hinner := written_ne_nil hne hproper o false
  have hblank : ∀ c ∈ content.written o false, isBlank c = false := fun _ => isBlank_of_mem_written
  have htext := text_style o hinner hblank style { marker } hjoin
  have hmark : ∀ touched, isWordBeside (some (style.mark o touched)) = false := fun touched =>
    (of_mem_marks (style.mark_mem o touched)).2.2
  have hhead : ∀ touched, (style.delimiter o touched).head? = some (style.mark o touched) := by
    cases style <;> exact fun _ => rfl
  have hlast : ∀ touched, (style.delimiter o touched).getLast? = some (style.mark o touched) := by
    cases style <;> exact fun _ => rfl
  have hfragment : fragments o marker (Spans.styled style content rest).nodes =
      fragment o { marker } (style.node content.nodes) :: fragments o marker rest.nodes := by
    rw [nodes, fragments]
  refine ⟨?_, ?_, fun previous => ?_⟩
  · rw [hfragment, List.forall_mem_cons, htext]
    exact ⟨by simp [hinner], hrest.filled⟩
  · simp [hfragment, htext, hhead, hmark, startsWithWord]
  · have hsettled := settled_style o hinner hblank style { marker } hjoin previous
      (fragments o marker rest.nodes).head?
    rw [hrest.first] at hsettled
    rw [hfragment, settle, hsettled, List.flatten_cons, hrest.flatten, List.getLast?_append, hlast,
      Option.some_or, hmark, written]

theorem settles (o : Options) (marker : Text) {xs : Spans} (hx : xs.Proper) :
    xs.Settles o marker := by
  induction xs with
  | nil => exact .nil o marker
  | word w rest ih => exact (ih hx.2).word w
  | styled style content rest ihcontent ihrest =>
    exact .styled style hx.1 hx.2.1 (ihcontent hx.2.1) (ihrest hx.2.2)

/-! ## The paragraph of a sequence -/

/-- Of the characters that start a block, only asterisks and underscores are in the text, and with
a letter in it they are no thematic break. -/
theorem escapeBlockStart_written {xs : Spans} (hx : xs.Proper) (o : Options) :
    escapeBlockStart (xs.written o false) = xs.written o false := by
  by_cases hne : xs = nil
  · subst hne
    rfl
  obtain ⟨letter, hletter, halpha⟩ := exists_letter hne hx o false
  have hnot : ∀ d : Char, d.isAlpha = false → d ∉ marks → d ∉ xs.written o false :=
    fun d hd hmark hmem => (mem_written hmem).elim (by simp [hd]) hmark
  generalize xs.written o false = line at hletter hnot
  have hcut := cutFinalLineFeed_of_not_mem (hnot '\n' (by decide) (by decide))
  have hbreak : isBreakLike line = false := by
    by_contra h
    rw [isBreakLike, hcut] at h
    cases line with
    | nil => exact h rfl
    | cons mark rest =>
      simp only [Bool.not_eq_false, Bool.and_eq_true, Bool.or_eq_true, decide_eq_true_eq,
        List.all_eq_true, Text.isLineBlank] at h
      have hmark : letter ≠ mark := by
        rcases h.1.1 with (rfl | rfl) | rfl <;> exact Text.ne_of_isAlpha halpha (by decide)
      have hrest : letter ∈ rest := (List.mem_cons.mp hletter).resolve_left hmark
      rcases h.1.2 letter hrest with heq | rfl | rfl
      · exact hmark heq
      · cases halpha
      · cases halpha
  have hunderline : isUnderlineLike line = false := by
    by_contra h
    rw [isUnderlineLike, hcut] at h
    cases line with
    | nil => exact h rfl
    | cons c rest =>
      have hequals : c ≠ '=' := by
        rintro rfl
        exact hnot '=' (by decide) (by decide) (List.mem_cons_self)
      simp [hequals] at h
  have hhead : ∀ d : Char, d.isAlpha = false → d ∉ marks → line.head? ≠ some d :=
    fun d hd hmark h => hnot d hd hmark (List.mem_of_head? h)
  have hbullet : startsWithBullet line = false := by
    cases line with
    | nil => rfl
    | cons c rest =>
      have hdash : c ≠ '-' := fun h => hhead '-' (by decide) (by decide) (by simp [h])
      have hplus : c ≠ '+' := fun h => hhead '+' (by decide) (by decide) (by simp [h])
      simp [startsWithBullet, hdash, hplus]
  have hordered : orderedMarker? line = none := by
    simp only [orderedMarker?]
    split
    · rename_i c rest heq
      have hdrop : c ∈ line.dropWhile Text.isDecimalDigit := by simp [heq]
      have hc : c ∈ line := (List.dropWhile_sublist _).mem hdrop
      have hdot : c ≠ '.' := fun h => hnot '.' (by decide) (by decide) (h ▸ hc)
      have hparenthesis : c ≠ ')' := fun h => hnot ')' (by decide) (by decide) (h ▸ hc)
      simp [hdot, hparenthesis]
    · rfl
  simp [escapeBlockStart, hbreak, hunderline, hbullet, hordered,
    hhead '#' (by decide) (by decide), hhead '>' (by decide) (by decide)]

/-- **A sequence in a paragraph is written as its text on a line.** -/
theorem render_nodes {xs : Spans} (hx : xs.Proper) (o : Options) :
    render o (.document [.paragraph xs.nodes]) = xs.written o false ++ ['\n'] := by
  have hblank : ∀ c ∈ xs.written o false, isBlank c = false := fun _ => isBlank_of_mem_written
  have hbody : body o (.document [.paragraph xs.nodes]) = xs.written o false := by
    rw [body_document_singleton]
    simp only [body, fragment, (settles o _ hx).joinFragments_eq, paragraph,
      Text.trim_eq_self hblank, escapeBlockStart_written hx, ite_self]
  have hreturn : '\r' ∉ xs.written o false := fun hmem => absurd (hblank _ hmem) (by decide)
  rw [render, hbody]
  exact finish_eq hreturn fun c hc => hblank c (List.mem_of_getLast? hc)

end Spans

end Markdown

end DocumentTree
