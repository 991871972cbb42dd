import DocumentTree.Proofs.Document.LoweredGrammar
import DocumentTree.Proofs.Document.Rules
import DocumentTree.Proofs.Markdown.Leaders

/-!
# How paragraphs start

A paragraph of any inline content is written so that its first line opens no other block, but for
one kind of fence: struck-through content at the start of struck-through content puts four tildes
side by side, and the escape of block starts does not know fences.

A line end in inline content comes from an address, a title or an alternative text, so it stands
behind a bracket, and a first line that is not the whole content has a bracket in it.

## Main definitions

* `firstLine t` — a text up to its first line end.
* `StartsBlock line` — a line that starts another block than a paragraph.
* `Bracketed t` — a text without line ends before its first bracket.
-/

namespace DocumentTree.Markdown

open Text (isBlank IsLineEnd)

variable {o : Options} {marker t u : Text} {n : Node} {ns content : List Node} {c : Char}

/-! ## First lines -/

/-- A text up to its first line end. -/
def firstLine (t : Text) : Text :=
  t.takeWhile fun c => ¬ IsLineEnd c

/-- The line starts a heading, a quote, a list item, a thematic break or a fenced code block, or
makes a heading of the paragraph above. -/
inductive StartsBlock : Text → Prop
  | heading (rest : Text) : StartsBlock ('#' :: rest)
  | quote (rest : Text) : StartsBlock ('>' :: rest)
  | bullet {c : Char} {rest : Text} : c ∈ ['-', '+', '*'] → EndsMarker rest →
    StartsBlock (c :: rest)
  | ordered {digits : Text} {c : Char} {rest : Text} : 1 ≤ digits.length → digits.length ≤ 9 →
    (∀ d ∈ digits, d.isDigit = true) → c ∈ ['.', ')'] → EndsMarker rest →
    StartsBlock (digits ++ c :: rest)
  | rule {line : Text} {mark : Char} : mark ∈ ['-', '_', '*'] →
    (∀ c ∈ line, c = mark ∨ c = ' ' ∨ c = '\t') → 3 ≤ line.count mark → StartsBlock line
  | underline {n : Nat} {blanks : Text} : 0 < n → (∀ c ∈ blanks, c = ' ' ∨ c = '\t') →
    StartsBlock (List.replicate n '=' ++ blanks)
  | backtickFence {n : Nat} {rest : Text} : 3 ≤ n → '`' ∉ rest →
    StartsBlock (List.replicate n '`' ++ rest)
  | tildeFence (rest : Text) : StartsBlock ('~' :: '~' :: '~' :: rest)

theorem StartsBlock.opensBlock (h : StartsBlock t) : OpensBlock t := by
  cases h with
  | heading rest => exact .heading rest
  | quote rest => exact .quote rest
  | bullet hc hrest => exact .bullet hc hrest
  | ordered hone hnine hdigits hc hends => exact .ordered hone hnine hdigits hc hends
  | rule hmark hall hcount => exact .rule hmark hall hcount
  | underline hn hblanks => exact .underline hn hblanks
  | @backtickFence n rest hn _ =>
    obtain ⟨k, rfl⟩ : ∃ k, n = k + 3 := ⟨n - 3, by omega⟩
    exact .fence (List.replicate k '`' ++ rest) (by decide)
  | tildeFence rest => exact .fence rest (by decide)

theorem firstLine_append (h : ∀ c ∈ t, ¬ IsLineEnd c) (u : Text) :
    firstLine (t ++ u) = t ++ firstLine u :=
  List.takeWhile_append_of_pos (by simpa using h)

theorem exists_firstLine_append (t : Text) : ∃ rest, t = firstLine t ++ rest ∧
    ∀ c, rest.head? = some c → IsLineEnd c := by
  refine ⟨_, List.takeWhile_append_dropWhile.symm, fun c hc => ?_⟩
  have hnot := List.head?_dropWhile_not (fun c => decide (¬ IsLineEnd c)) t
  rw [hc] at hnot
  simpa using hnot

/-! ## Brackets before line ends -/

/-- Before the first bracket there is no line end. -/
def Bracketed (t : Text) : Prop :=
  ∀ c ∈ t.takeWhile (· ≠ '['), ¬ IsLineEnd c

theorem mem_takeWhile_append : c ∈ (t ++ u).takeWhile (· ≠ '[') ↔
    c ∈ t.takeWhile (· ≠ '[') ∨ '[' ∉ t ∧ c ∈ u.takeWhile (· ≠ '[') := by
  by_cases h : '[' ∈ t
  · have hshort : (t.takeWhile (· ≠ '[')).length ≠ t.length := by
      intro hlength
      have hself := (List.takeWhile_prefix (· ≠ '[')).eq_of_length hlength
      rw [List.takeWhile_eq_self_iff] at hself
      simpa using hself '[' h
    rw [List.takeWhile_append, if_neg hshort]
    simp [h]
  · have hall : ∀ d ∈ t, decide (d ≠ '[') = true := by
      intro d hd
      simpa using ne_of_mem_of_not_mem hd h
    rw [List.takeWhile_append_of_pos hall, List.takeWhile_eq_self_iff.mpr hall, List.mem_append]
    simp [h]

namespace Bracketed

theorem of_not_mem (h : ∀ c, IsLineEnd c → c ∉ t) : Bracketed t :=
  fun c hmem hc => h c hc ((List.takeWhile_sublist _).mem hmem)

theorem append (ht : Bracketed t) (hu : Bracketed u) : Bracketed (t ++ u) := by
  intro c hc
  rcases mem_takeWhile_append.mp hc with hc | ⟨-, hc⟩
  · exact ht c hc
  · exact hu c hc

theorem left (h : Bracketed (t ++ u)) : Bracketed t :=
  fun c hc => h c (mem_takeWhile_append.mpr (.inl hc))

theorem right (h : Bracketed (t ++ u)) (ht : '[' ∉ t) : Bracketed u :=
  fun c hc => h c (mem_takeWhile_append.mpr (.inr ⟨ht, hc⟩))

/-- A text without line ends is put in. -/
theorem insert {v : Text} (h : Bracketed (t ++ v)) (hu : ∀ c ∈ u, ¬ IsLineEnd c) :
    Bracketed (t ++ u ++ v) := by
  intro c hc
  rcases mem_takeWhile_append.mp hc with hc | ⟨hnot, hc⟩
  · rcases mem_takeWhile_append.mp hc with hc | ⟨-, hc⟩
    · exact h.left c hc
    · exact hu c ((List.takeWhile_sublist _).mem hc)
  · rw [List.mem_append, not_or] at hnot
    exact h.right hnot.1 c hc

theorem flatten {ts : List Text} (h : ∀ t ∈ ts, Bracketed t) : Bracketed ts.flatten := by
  induction ts with
  | nil => exact of_not_mem (by simp)
  | cons t ts ih =>
    rw [List.forall_mem_cons] at h
    exact h.1.append (ih h.2)

theorem trim (h : Bracketed t) : Bracketed (Text.trim t) := by
  by_cases ht : Text.trim t = []
  · rw [ht]
    exact of_not_mem (by simp)
  · obtain ⟨lead, trail, hlead, -, heq, -⟩ := exists_blanks_around ht
    rw [heq] at h
    exact h.left.right fun hmem => absurd (hlead _ hmem) (by decide)

theorem wrap {mark : Char} (h : Bracketed t) (hmark : ¬ IsLineEnd mark) (width : Nat) :
    Bracketed (wrap (List.replicate width mark) t) := by
  have hmarks : ∀ c ∈ List.replicate width mark, ¬ IsLineEnd c := by
    intro c hc
    rwa [List.eq_of_mem_replicate hc]
  by_cases ht : Text.trim t = []
  · rwa [wrap_of_trim_eq_nil ht]
  · obtain ⟨lead, trail, -, -, heq, hwrap⟩ := exists_blanks_around ht
    have hcontent : Bracketed (lead ++ (Text.trim t ++ trail)) := by
      rwa [heq, List.append_assoc] at h
    have hopened : Bracketed (lead ++ List.replicate width mark ++ Text.trim t ++ trail) := by
      rw [List.append_assoc _ _ trail]
      exact hcontent.insert hmarks
    rw [hwrap]
    exact hopened.insert hmarks

/-- A first line without a bracket is the whole text. -/
theorem firstLine_eq (h : Bracketed t) (hline : '[' ∉ firstLine t) :
    firstLine t = t ∧ ∀ c ∈ t, ¬ IsLineEnd c := by
  obtain ⟨rest, ht, hrest⟩ := exists_firstLine_append t
  cases rest with
  | nil =>
    rw [List.append_nil] at ht
    refine ⟨ht.symm, fun c hc => ?_⟩
    rw [ht] at hc
    simpa using List.mem_takeWhile_imp hc
  | cons c rest =>
    rw [ht] at h
    have hc := hrest c rfl
    exact absurd hc (h.right hline c (by simp [hc.ne (show ¬ IsLineEnd '[' by decide)]))

end Bracketed

/-- Inline nodes hold inline nodes only. -/
theorem inline_of_mem_children (hinline : n.isInline = true) (hg : n.Grammatical) {child : Node}
    (h : child ∈ n.children) : child.isInline = true ∧ child.Grammatical := by
  refine ⟨?_, hg.of_mem_children h⟩
  cases n with
  | emphasis | strong | strikethrough | link => exact (hg.1 child h).1
  | text | code | image => cases h
  | _ => cases hinline

theorem bracketed_joinFragments
    (h : ∀ n ∈ ns, ∀ p q, Bracketed ((fragment o { marker } n).settled o p q)) :
    Bracketed (joinFragments o (fragments o marker ns)) := by
  refine .flatten fun t ht => ?_
  rw [fragments_eq_map] at ht
  obtain ⟨f, hf, p, q, rfl⟩ := mem_settle ht
  obtain ⟨n, hn, rfl⟩ := List.mem_map.mp (List.mem_of_mem_filter hf)
  exact h n hn p q

/-- **Line ends in inline content stand behind a bracket.** -/
theorem bracketed_settled (o : Options) (marker : Text) (n : Node) (hinline : n.isInline = true)
    (hg : n.Grammatical) (p : Option Char) (q : Option Fragment) :
    Bracketed ((fragment o { marker } n).settled o p q) := by
  induction n using Node.forall_of_children generalizing p q with
  | step n ih =>
    have hinner : Bracketed (joinFragments o (fragments o marker n.children)) :=
      bracketed_joinFragments fun child hchild =>
        have ⟨hi, hc⟩ := inline_of_mem_children hinline hg hchild
        ih child hchild hi hc
    have hlacks : ∀ {f : Fragment}, (∀ c, IsLineEnd c → f.Lacks c) → Bracketed (f.settled o p q) :=
      fun h => .of_not_mem fun c hc => not_mem_settled hc (h c hc) o p q
    have hstress : ∀ (touched : Bool) (m : Stress),
        ¬ IsLineEnd (if touched then '*' else m.char) := by
      rintro (_ | _) (_ | _) <;> decide
    -- Text and code are written without line ends, and links and images start with their bracket.
    cases n with
    | text content m =>
      rw [fragment]
      exact hlacks fun c hc => ⟨not_mem_literal hc o _, nofun⟩
    | code content m =>
      rw [fragment]
      exact hlacks fun c hc => ⟨not_mem_codeSpan hc _, nofun⟩
    | emphasis content m =>
      rw [fragment, settled_stressed_eq]
      exact hinner.wrap (hstress _ _) 1
    | strong content m =>
      rw [fragment, settled_stressed_eq]
      exact hinner.wrap (hstress _ _) 2
    | strikethrough content m =>
      rw [fragment]
      exact @Bracketed.wrap _ '~' hinner (by decide) 2
    | link =>
      rw [fragment]
      exact fun c hc => by simp [Fragment.settled] at hc
    | image =>
      rw [fragment]
      intro c hc
      obtain rfl : c = '!' := by simpa [Fragment.settled] using hc
      decide
    | _ => cases hinline

theorem bracketed_core (hns : ∀ n ∈ ns, n.isInline = true ∧ n.Grammatical) :
    Bracketed (core o marker ns) :=
  (bracketed_joinFragments fun n hn =>
    bracketed_settled o marker n (hns n hn).1 (hns n hn).2).trim

/-! ## What the escape of block starts leaves -/

theorem EndsMarker.append_line_end {rest after : Text} (h : EndsMarker rest)
    (hafter : ∀ c, after.head? = some c → IsLineEnd c) : EndsMarker (rest ++ after) := by
  intro c hc
  cases rest with
  | nil =>
    rcases hafter c hc with rfl | rfl <;> decide
  | cons d rest => exact h c hc

/-- **A line that needs no escape of its start can only be a bullet of a star or a fence.** -/
theorem Unescaped.startsBlock_cases (U : Unescaped t) (hb : Bracketed t)
    (hhead : ∀ c, t.head? = some c → isBlank c = false) (h : StartsBlock (firstLine t)) :
    (∃ rest, t = '*' :: rest ∧ EndsMarker rest) ∨
    (∃ n rest, 3 ≤ n ∧ '`' ∉ rest ∧ firstLine t = List.replicate n '`' ++ rest) ∨
    ∃ rest, t = '~' :: '~' :: '~' :: rest := by
  obtain ⟨after, ht, hafter⟩ := exists_firstLine_append t
  have hwhole : (∀ c ∈ firstLine t, c ≠ '[') → firstLine t = t ∧ '\n' ∉ t := by
    intro hline
    obtain ⟨heq, hnot⟩ := hb.firstLine_eq fun hmem => hline '[' hmem rfl
    exact ⟨heq, fun hmem => hnot '\n' hmem (.inl rfl)⟩
  generalize hline : firstLine t = line at h ht hwhole
  cases h with
  | heading rest => exact absurd (by rw [ht]; rfl) U.head.1
  | quote rest => exact absurd (by rw [ht]; rfl) U.head.2
  | @bullet c rest hc hrest =>
    have hends := hrest.append_line_end hafter
    rw [List.cons_append] at ht
    simp only [List.mem_cons, List.not_mem_nil, or_false, ← or_assoc] at hc
    rcases hc with hc | rfl
    · exact absurd hends ((ht ▸ U).not_bullet hc)
    · exact .inl ⟨_, ht, hends⟩
  | @ordered digits c rest hone hnine hdigits hc hrest =>
    rw [List.append_assoc, List.cons_append] at ht
    exact absurd (hrest.append_line_end hafter) ((ht ▸ U).not_ordered hone hnine hdigits hc)
  | @rule _ mark hmark hall hcount =>
    obtain ⟨rfl, hnewline⟩ := hwhole fun c hc => by
      have hne : mark ≠ '[' := by
        rintro rfl
        exact absurd hmark (by decide)
      rcases hall c hc with rfl | rfl | rfl
      · exact hne
      · decide
      · decide
    obtain ⟨c, rest, rfl, hc⟩ := head_of_rule hall hcount
    have hblank := hhead c rfl
    obtain rfl : c = mark := by
      rcases hc with heq | rfl | rfl
      · exact heq
      · exact absurd hblank (by decide)
      · exact absurd hblank (by decide)
    have := U.not_rule hnewline hmark fun d hd => hall d (by simp [hd])
    rw [List.count_cons_self] at hcount
    omega
  | @underline n blanks hn hblanks =>
    obtain ⟨rfl, hnewline⟩ := hwhole fun c hc => by
      rcases List.mem_append.mp hc with hc | hc
      · rw [List.eq_of_mem_replicate hc]
        decide
      · rcases hblanks c hc with rfl | rfl <;> decide
    obtain ⟨k, rfl⟩ : ∃ k, n = k + 1 := ⟨n - 1, by omega⟩
    exact absurd hblanks (U.not_underline hnewline)
  | backtickFence hn hrest => exact .inr (.inl ⟨_, _, hn, hrest, rfl⟩)
  | tildeFence rest => exact .inr (.inr ⟨_, ht⟩)

/-! ## First characters -/

theorem exists_opening_of_head? (hescape : o.escapeSpecial = true)
    (hinline : ∀ n ∈ ns, n.isInline = true) (hhead : (core o marker ns).head? = some c) :
    ∃ n opening rest, leader o marker ns = some n ∧ core o marker ns = opening ++ rest ∧
      Opening o marker n opening ∧ (c ∈ delimiterMarks → c ∈ delimiterChars n) := by
  cases hleader : leader o marker ns with
  | none =>
    rw [core_of_leader_eq_none hleader] at hhead
    cases hhead
  | some n =>
    obtain ⟨opening, rest, hcore, hopening⟩ := exists_core_of_leader hescape hinline hleader
    refine ⟨n, opening, rest, rfl, hcore, hopening, hopening.mem_delimiterChars ?_⟩
    cases opening with
    | nil => exact absurd hopening.isBare_ends.1 (by decide)
    | cons d opening =>
      rw [hcore] at hhead
      exact hhead

/-- **Content starts with a tilde just where its leader is struck through.** -/
theorem head?_core_eq_tilde_iff (hescape : o.escapeSpecial = true)
    (hinline : ∀ n ∈ ns, n.isInline = true) :
    (core o marker ns).head? = some '~' ↔
      ∃ content m, leader o marker ns = some (.strikethrough content m) := by
  constructor
  · intro hhead
    obtain ⟨n, opening, rest, hleader, -, -, hchars⟩ :=
      exists_opening_of_head? hescape hinline hhead
    have hmem := hchars (by decide)
    cases n with
    | strikethrough content m => exact ⟨content, m, hleader⟩
    | _ => simp [delimiterChars] at hmem
  · rintro ⟨content, m, hleader⟩
    obtain ⟨opening, rest, hcore, hopening⟩ := exists_core_of_leader hescape hinline hleader
    cases hopening
    rw [hcore]
    rfl

/-- Three tildes stand side by side where struck-through content starts struck-through content. -/
theorem core_eq_tildes_iff (hescape : o.escapeSpecial = true)
    (hns : ∀ n ∈ ns, n.isInline = true ∧ n.Grammatical) :
    (∃ rest, core o marker ns = '~' :: '~' :: '~' :: rest) ↔
      ∃ outer m inner m', leader o marker ns = some (.strikethrough outer m) ∧
        leader o marker outer = some (.strikethrough inner m') := by
  have hinline : ∀ n ∈ ns, n.isInline = true := fun n hn => (hns n hn).1
  have houter : ∀ {outer m}, leader o marker ns = some (.strikethrough outer m) →
      ((core o marker outer).head? = some '~' ↔
        ∃ inner m', leader o marker outer = some (.strikethrough inner m')) := by
    intro outer m hleader
    obtain ⟨hi, hg⟩ := hns _ (List.mem_of_find?_eq_some hleader)
    exact head?_core_eq_tilde_iff hescape fun child hchild =>
      (inline_of_mem_children hi hg hchild).1
  have hstart : ∀ {outer m}, leader o marker ns = some (.strikethrough outer m) →
      ∃ rest, core o marker ns = '~' :: '~' :: (core o marker outer ++ rest) ∧
        core o marker outer ≠ [] := by
    intro outer m hleader
    obtain ⟨opening, rest, hcore, hopening⟩ := exists_core_of_leader hescape hinline hleader
    cases hopening with
    | strikethrough hne => exact ⟨rest, hcore, hne⟩
  constructor
  · rintro ⟨rest, hcore⟩
    obtain ⟨outer, m, hleader⟩ :=
      (head?_core_eq_tilde_iff hescape hinline).mp (by rw [hcore]; rfl)
    obtain ⟨rest', hcore', hne⟩ := hstart hleader
    obtain ⟨c, u, hu⟩ := List.exists_cons_of_ne_nil hne
    rw [hcore', hu] at hcore
    simp only [List.cons_append, List.cons.injEq, true_and] at hcore
    obtain ⟨inner, m', hinner⟩ := (houter hleader).mp (by rw [hu, hcore.1]; rfl)
    exact ⟨outer, m, inner, m', hleader, hinner⟩
  · rintro ⟨outer, m, inner, m', hleader, hinner⟩
    obtain ⟨rest, hcore, hne⟩ := hstart hleader
    have hhead := (houter hleader).mpr ⟨inner, m', hinner⟩
    obtain ⟨c, u, hu⟩ := List.exists_cons_of_ne_nil hne
    rw [hu] at hhead hcore
    obtain rfl : c = '~' := Option.some.inj hhead
    exact ⟨u ++ rest, hcore⟩

/-- A run at the start of a text ends at the first other character. -/
theorem mem_of_replicate_append_eq {d : Char} {n : Nat} {rest before after : Text}
    (h : List.replicate n d ++ rest = before ++ c :: after) (hne : c ≠ d) (hmem : d ∈ after) :
    d ∈ rest := by
  induction n generalizing before with
  | zero =>
    rw [List.replicate_zero, List.nil_append] at h
    simp [h, hmem]
  | succ n ih =>
    rw [List.replicate_succ, List.cons_append] at h
    cases before with
    | nil => exact absurd (List.cons.inj h).1.symm hne
    | cons e before => exact ih (List.cons.inj h).2

/-- The backticks that content starts with are those of a code span, which is closed on the same
line. -/
theorem firstLine_core_ne_backticks (hescape : o.escapeSpecial = true)
    (hinline : ∀ n ∈ ns, n.isInline = true) {k : Nat} (hk : 3 ≤ k) {rest : Text}
    (hrest : '`' ∉ rest) : firstLine (core o marker ns) ≠ List.replicate k '`' ++ rest := by
  intro hline
  obtain ⟨after, hafter, -⟩ := exists_firstLine_append (core o marker ns)
  have hhead : (core o marker ns).head? = some '`' := by
    obtain ⟨l, rfl⟩ : ∃ l, k = l + 1 := ⟨k - 1, by omega⟩
    rw [hafter, hline]
    rfl
  obtain ⟨n, opening, behind, -, hcore, hopening, hchars⟩ :=
    exists_opening_of_head? hescape hinline hhead
  have hmem := hchars (by decide)
  cases hopening with
  | @code text _ htext =>
    have hclosed : ∀ c ∈ codeSpan text.toList, ¬ IsLineEnd c :=
      fun c hc hend => not_mem_codeSpan hend _ hc
    obtain ⟨width, body, hspan, c, hc, hne⟩ := exists_body_of_codeSpan htext
    obtain ⟨first, last, rfl⟩ := List.append_of_mem hc
    rw [hcore, firstLine_append hclosed, hspan] at hline
    have hsplit : List.replicate k '`' ++ rest = List.replicate (width + 1) '`' ++ first ++
        c :: (last ++ List.replicate (width + 1) '`' ++ firstLine behind) := by
      rw [← hline]
      simp
    exact hrest (mem_of_replicate_append_eq hsplit hne (by simp))
  | _ => simp [delimiterChars] at hmem

/-- A star that content starts with is a delimiter, and no white space follows it. -/
theorem core_not_starred (hescape : o.escapeSpecial = true)
    (hinline : ∀ n ∈ ns, n.isInline = true) {rest : Text} (h : core o marker ns = '*' :: rest) :
    ¬ EndsMarker rest := by
  obtain ⟨n, opening, behind, -, hcore, hopening, hchars⟩ :=
    exists_opening_of_head? hescape hinline (c := '*') (by rw [h]; rfl)
  have hmem := hchars (by decide)
  have hbare : ∀ {content : List Node} {behind : Text}, core o marker content ≠ [] →
      ¬ EndsMarker (core o marker content ++ behind) := by
    intro content behind hne hends
    obtain ⟨c, u, hu⟩ := List.exists_cons_of_ne_nil hne
    have hblank := hends c (by rw [hu]; rfl)
    rw [Text.head?_trim (congrArg List.head? hu)] at hblank
    cases hblank
  rw [hcore] at h
  cases hopening with
  | emphasis _ hne =>
    obtain rfl := (List.cons.inj h).2
    exact hbare hne
  | strong hstress =>
    obtain ⟨rfl, rfl⟩ := List.cons.inj h
    exact fun hends => absurd (hends '*' rfl) (by decide)
  | _ => simp [delimiterChars] at hmem

/-! ## Paragraphs -/

/-- **A paragraph starts another block just where struck-through content starts struck-through
content.** Whatever inline content a paragraph holds, with text escaped, its first line is no
heading, quote, list item, thematic break or underline, and no fence of backticks; it is a fence of
tildes if the first node that is not blank is struck through, and the first such node in that one is
too. -/
theorem paragraph_starts_block_iff_twice_struck_through (hescape : o.escapeSpecial = true)
    (placement : Placement) {m : Metadata} (hg : (Node.paragraph content m).Grammatical) :
    StartsBlock (firstLine (fragment o placement (.paragraph content m)).text) ↔
      ∃ outer m₁ inner m₂,
        leader o placement.marker content = some (.strikethrough outer m₁) ∧
        leader o placement.marker outer = some (.strikethrough inner m₂) := by
  have hns : ∀ n ∈ content, n.isInline = true ∧ n.Grammatical := fun n hn =>
    ⟨hg.1.1 n hn, hg.of_mem_children hn⟩
  have hinline : ∀ n ∈ content, n.isInline = true := fun n hn => (hns n hn).1
  have htext : (fragment o placement (.paragraph content m)).text =
      escapeBlockStart (core o placement.marker content) := by
    simp [fragment, paragraph, hescape, core]
  rw [htext, ← core_eq_tildes_iff hescape hns]
  rcases escapeBlockStart_cases (core o placement.marker content) with
    ⟨heq, U⟩ | ⟨digits, c, rest, hcore, hdigits, hc, heq⟩
  · rw [heq]
    constructor
    · intro h
      rcases U.startsBlock_cases (bracketed_core hns) (fun c hc => Text.head?_trim hc) h with
        ⟨rest, hstar, hends⟩ | ⟨k, rest, hk, hrest, hline⟩ | htildes
      · exact absurd hends (core_not_starred hescape hinline hstar)
      · exact absurd hline (firstLine_core_ne_backticks hescape hinline hk hrest)
      · exact htildes
    · rintro ⟨rest, hcore⟩
      have htilde : ∀ c ∈ List.replicate 3 '~', ¬ IsLineEnd c := by
        intro c hc
        rw [List.eq_of_mem_replicate hc]
        decide
      have hline : firstLine ('~' :: '~' :: '~' :: rest) = '~' :: '~' :: '~' :: firstLine rest :=
        firstLine_append htilde rest
      rw [hcore]
      exact hline ▸ .tildeFence (firstLine rest)
  · -- The escape stands behind digits at most, so there is neither an opener nor a tilde.
    have hdigit : ∀ d ∈ digits ++ ['\\'], ¬ IsLineEnd d := by
      intro d hd
      rcases List.mem_append.mp hd with hd | hd
      · have := hdigits d hd
        rintro (rfl | rfl) <;> exact absurd this (by decide)
      · obtain rfl := List.mem_singleton.mp hd
        decide
    have hline : firstLine (digits ++ '\\' :: c :: rest) =
        digits ++ '\\' :: firstLine (c :: rest) := by
      simpa using firstLine_append hdigit (c :: rest)
    rw [heq, hcore, hline]
    refine iff_of_false (fun h => not_opensBlock_of_escape hdigits h.opensBlock) ?_
    rintro ⟨tail, htail⟩
    cases digits with
    | nil =>
      obtain rfl := (List.cons.inj htail).1
      exact absurd hc (by decide)
    | cons d digits =>
      obtain rfl := (List.cons.inj htail).1
      exact absurd (hdigits '~' (by simp)) (by decide)

/-- White space at the starts does not keep the tildes apart, and a word between them does. -/
theorem blanks_do_not_part_tildes :
    StartsBlock (firstLine (fragment {} { marker := ['-'] } (.paragraph
      [.text " ", .strikethrough [.text " ", .strikethrough [.text "a"]]])).text) ∧
    ¬ StartsBlock (firstLine (fragment {} { marker := ['-'] } (.paragraph
      [.strikethrough [.text "a", .strikethrough [.text "b"]]])).text) := by
  have hblank : (Node.paragraph
      [.text " ", .strikethrough [.text " ", .strikethrough [.text "a"]]]).Grammatical :=
    (Node.problems_eq_nil_iff _).mp rfl
  have hword : (Node.paragraph
      [.strikethrough [.text "a", .strikethrough [.text "b"]]]).Grammatical :=
    (Node.problems_eq_nil_iff _).mp rfl
  constructor
  · exact (paragraph_starts_block_iff_twice_struck_through rfl _ hblank).mpr
      ⟨_, _, _, _, rfl, rfl⟩
  · refine mt (paragraph_starts_block_iff_twice_struck_through rfl _ hword).mp ?_
    rintro ⟨outer, m₁, inner, m₂, houter, hinner⟩
    obtain ⟨rfl, rfl⟩ := Node.strikethrough.inj (Option.some.inj houter)
    cases Option.some.inj hinner

/-- A paragraph of text that is struck through twice. -/
def struckTwice : List Operation :=
  [.createElement (.str "root") .null, .createElement (.str "paragraph") .null,
    .createElement (.str "strikethrough") .null, .createElement (.str "strikethrough") .null,
    .createText (.str "a"), .appendChild (.int 0) (.int 1), .appendChild (.int 1) (.int 2),
    .appendChild (.int 2) (.int 3), .appendChild (.int 3) (.int 4)]

/-- Paragraphs do not all stay paragraphs: the first line of this one is a fence of tildes. -/
theorem some_paragraph_starts_fence :
    ¬ ∀ (s : Store) (root : Value) (blocks content : List Node) (m : Metadata) (o : Options)
      (placement : Placement), (s.lower root).result = .ok (.document blocks) →
      .paragraph content m ∈ blocks → o.escapeSpecial = true →
      ¬ StartsBlock (firstLine (fragment o placement (.paragraph content m)).text) := by
  intro hclaim
  have hlowered : ((Container.run struckTwice).store.lower (.int 0)).result =
      .ok (.document [.paragraph [.strikethrough [.strikethrough [.text "a"]]]]) := rfl
  have hline : firstLine (fragment {} { marker := ['-'] }
      (.paragraph [.strikethrough [.strikethrough [.text "a"]]])).text = "~~~~a~~~~".toList := by
    decide +kernel
  refine hclaim _ _ _ _ _ {} { marker := ['-'] } hlowered (.head _) rfl ?_
  exact hline ▸ .tildeFence "~a~~~~".toList

end DocumentTree.Markdown
