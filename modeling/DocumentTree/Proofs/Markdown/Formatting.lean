import DocumentTree.Proofs.Markdown.Spans

/-!
# Formatting that can be told apart

Emphasis and strong emphasis share their marks and differ in their number only, so some sequences
are written like others: emphasis in emphasis like strong emphasis, and strong emphasis in emphasis
like emphasis in strong emphasis. Where styles are not nested in themselves, emphasis does not stand
beside emphasis, and strong emphasis is not all emphasis, the text determines the sequence: from
left to right, what a run of marks closes and opens is decided by its length and by the styles that
are open.

## Main definitions

* `Style.Fits` — a style may stand inside others.
* `Spans.Legible` — styles stand only where they can be told apart.
* `Stops around t` — a text that no sequence goes on with.
* `Spans.Determined` — the text of a sequence determines it, and where it ends.
-/

namespace DocumentTree.Markdown

variable {o : Options} {around : List Style} {style : Style} {c : Char} {t r : Text}

/-! ## Styles inside styles -/

/-- The styles around a place, innermost first, as far as the nearest strikethrough. -/
def near (around : List Style) : List Style :=
  around.takeWhile (· ≠ .strikethrough)

/-- A style may stand inside others: a strikethrough is not the content of one, and emphasis of a
kind is not inside emphasis of that kind unless a strikethrough stands between them. -/
def Style.Fits (around : List Style) : Style → Prop
  | .strikethrough => around.head? ≠ some .strikethrough
  | style => style ∉ near around

instance (around : List Style) (style : Style) : Decidable (style.Fits around) :=
  match style with
  | .strikethrough => inferInstanceAs (Decidable (around.head? ≠ some .strikethrough))
  | .emphasis => inferInstanceAs (Decidable (Style.emphasis ∉ near around))
  | .strong => inferInstanceAs (Decidable (Style.strong ∉ near around))

theorem Style.fits_iff (h : style ≠ .strikethrough) : style.Fits around ↔ style ∉ near around := by
  cases style <;> first | rfl | exact absurd rfl h

theorem near_cons (h : style ≠ .strikethrough) : near (style :: around) = style :: near around := by
  simp [near, h]

/-- Where both kinds of emphasis fit, none is near. -/
theorem near_eq_nil (he : Style.emphasis.Fits around) (hs : Style.strong.Fits around) :
    near around = [] := by
  refine List.eq_nil_iff_forall_not_mem.mpr fun style hmem => ?_
  cases style with
  | emphasis => exact he hmem
  | strong => exact hs hmem
  | strikethrough => simpa using List.mem_takeWhile_imp hmem

/-- Emphasis fits inside a style if it is not of that style and fits around it. -/
theorem Style.fits_cons {other : Style} (h : style ≠ .strikethrough)
    (hother : other ≠ .strikethrough) :
    other.Fits (style :: around) ↔ other ≠ style ∧ other.Fits around := by
  rw [fits_iff hother, fits_iff hother, near_cons h, List.mem_cons, not_or]

/-- No kind of emphasis fits. -/
def IsFull (around : List Style) : Prop :=
  ∀ style : Style, style ≠ .strikethrough → ¬ style.Fits around

/-- Inside both kinds of emphasis no more fits. -/
theorem isFull_cons (hne : style ≠ .strikethrough) (hfits : style.Fits around)
    (hnear : near around ≠ []) : IsFull (style :: around) := by
  intro other hother hinside
  obtain ⟨hdiffer, hfitsother⟩ := (Style.fits_cons hne hother).mp hinside
  refine hnear ?_
  cases style <;> cases other <;>
    first | exact absurd rfl hdiffer | exact absurd rfl hne | exact absurd rfl hother | skip
  · exact near_eq_nil hfits hfitsother
  · exact near_eq_nil hfitsother hfits

namespace Spans

/-- Whether a sequence starts with a style. -/
def startsWith (style : Style) : Spans → Bool
  | styled first _ _ => first = style
  | _ => false

/-- Whether a sequence is emphasis and nothing else. -/
def isEmphasis : Spans → Bool
  | styled .emphasis _ nil => true
  | _ => false

/-- Styles stand only where they can be told apart: where they fit, no emphasis beside emphasis,
and, if both kinds of emphasis have one mark, no strong emphasis that is all emphasis. -/
def Legible (o : Options) (around : List Style) : Spans → Prop
  | nil => True
  | word _ rest => rest.Legible o around
  | styled style content rest =>
    style.Fits around ∧
      (style = .emphasis → rest.startsWith .emphasis = false) ∧
      (style = .strong → o.emphasisMarker = o.strongMarker → content.isEmphasis = false) ∧
      content.Legible o (style :: around) ∧ rest.Legible o around

instance decidableLegible (o : Options) (around : List Style) :
    (xs : Spans) → Decidable (xs.Legible o around)
  | nil => inferInstanceAs (Decidable True)
  | word _ rest => decidableLegible o around rest
  | styled style content rest =>
    have := decidableLegible o (style :: around) content
    have := decidableLegible o around rest
    inferInstanceAs (Decidable (style.Fits around ∧
      (style = .emphasis → rest.startsWith .emphasis = false) ∧
      (style = .strong → o.emphasisMarker = o.strongMarker → content.isEmphasis = false) ∧
      content.Legible o (style :: around) ∧ rest.Legible o around))

/-- A proper sequence that is legible where it stands. -/
structure StandsIn (o : Options) (around : List Style) (xs : Spans) : Prop where
  /-- Styles have content, and words are not neighbours. -/
  proper : xs.Proper
  /-- Styles stand where they can be told apart. -/
  legible : xs.Legible o around

namespace StandsIn

variable {w : Word} {content rest : Spans}

theorem after_word (h : (word w rest).StandsIn o around) : rest.StandsIn o around :=
  ⟨h.proper.2, h.legible⟩

theorem fits (h : (styled style content rest).StandsIn o around) : style.Fits around :=
  h.legible.1

theorem not_beside (h : (styled style content rest).StandsIn o around) (he : style = .emphasis) :
    rest.startsWith .emphasis = false :=
  h.legible.2.1 he

theorem ne_nil (h : (styled style content rest).StandsIn o around) : content ≠ nil :=
  h.proper.1

theorem inside (h : (styled style content rest).StandsIn o around) :
    content.StandsIn o (style :: around) :=
  ⟨h.proper.2.1, h.legible.2.2.2.1⟩

theorem after_style (h : (styled style content rest).StandsIn o around) : rest.StandsIn o around :=
  ⟨h.proper.2.2, h.legible.2.2.2.2⟩

end StandsIn

end Spans

/-! ## Runs of marks -/

/-- The number of times that a character stands at the start of a text. -/
def run (c : Char) (t : Text) : Nat :=
  (t.takeWhile (· = c)).length

theorem run_cons_self (c : Char) (t : Text) : run c (c :: t) = run c t + 1 := by
  simp [run]

theorem run_eq_zero (h : t.head? ≠ some c) : run c t = 0 := by
  cases t with
  | nil => rfl
  | cons d t =>
    have hd : d ≠ c := by simpa using h
    simp [run, hd]

theorem run_replicate (n : Nat) (c : Char) (t : Text) :
    run c (List.replicate n c ++ t) = n + run c t := by
  induction n with
  | zero => simp
  | succ n ih =>
    rw [List.replicate_succ, List.cons_append, run_cons_self, ih]
    omega

/-- The mark of emphasis is an asterisk or an underscore. -/
theorem Style.exists_stress (style : Style) (h : style ≠ .strikethrough) (o : Options)
    (touched : Bool) :
    ∃ m : Stress, style.mark o touched = m.char := by
  cases style with
  | emphasis => cases touched <;> first | exact ⟨_, rfl⟩ | exact ⟨.star, rfl⟩
  | strong => cases touched <;> first | exact ⟨_, rfl⟩ | exact ⟨.star, rfl⟩
  | strikethrough => exact absurd rfl h

theorem stress_ne (m : Stress) : m.char ≠ '~' ∧ m.char.isAlpha = false := by
  cases m <;> decide

namespace Spans

variable {w : Word} {content rest xs : Spans} {afterWord : Bool}

/-- A word starts with a letter. -/
theorem exists_head_word (w : Word) (rest : Spans) (o : Options) (afterWord : Bool) (t : Text) :
    ∃ c, ((word w rest).written o afterWord ++ t).head? = some c ∧ c.isAlpha = true := by
  obtain ⟨c, u, hw⟩ := List.exists_cons_of_ne_nil w.ne_nil
  exact ⟨c, by simp [written, hw], w.letters c (by simp [hw])⟩

theorem head?_word_ne (hc : c.isAlpha = false) :
    ((word w rest).written o afterWord ++ t).head? ≠ some c := by
  obtain ⟨d, hd, halpha⟩ := exists_head_word w rest o afterWord t
  rw [hd]
  exact fun heq => Text.ne_of_isAlpha halpha hc (Option.some.inj heq)

theorem written_styled (style : Style) (content rest : Spans) (o : Options) (afterWord : Bool)
    (t : Text) : (styled style content rest).written o afterWord ++ t =
      style.delimiter o (afterWord || rest.startsWithWord) ++ (content.written o false ++
        (style.delimiter o (afterWord || rest.startsWithWord) ++ (rest.written o false ++ t))) := by
  simp [written]

theorem head?_styled : ((styled style content rest).written o afterWord ++ t).head? =
    some (style.mark o (afterWord || rest.startsWithWord)) := by
  rw [written_styled]
  cases style <;> rfl

/-- Content that emphasis does not fit in does not start with its mark. -/
theorem run_of_isFull (hfull : IsFull around) (hx : xs.StandsIn o around) (hne : xs ≠ nil)
    (m : Stress) (t : Text) : run m.char (xs.written o afterWord ++ t) = 0 := by
  cases xs with
  | nil => exact absurd rfl hne
  | word w rest => exact run_eq_zero (head?_word_ne (stress_ne m).2)
  | styled style content rest =>
    by_cases hstyle : style = .strikethrough
    · subst hstyle
      refine run_eq_zero ?_
      rw [head?_styled]
      exact fun heq => (stress_ne m).1 (Option.some.inj heq).symm
    · exact absurd hx.fits (hfull style hstyle)

end Spans

/-! ## Where sequences end -/

/-- No sequence inside the given styles goes on with the text: it starts with no letter, with a
tilde only to end a strikethrough, and with a run of marks only to end emphasis, a run that is not
as long as the delimiter of emphasis that could start here. -/
structure Stops (around : List Style) (t : Text) : Prop where
  /-- No word goes on. -/
  letter : ∀ c, t.head? = some c → c.isAlpha = false
  /-- No strikethrough starts. -/
  tilde : t.head? = some '~' → around.head? = some .strikethrough
  /-- No emphasis starts inside other emphasis. -/
  run_ne : ∀ style : Style, style ≠ .strikethrough → style.Fits around →
    ∀ m : Stress, run m.char t ≠ style.width
  /-- No emphasis starts outside of emphasis. -/
  run_eq_zero : near around = [] → ∀ m : Stress, run m.char t = 0

theorem stops_nil : Stops [] [] where
  letter := nofun
  tilde := nofun
  run_ne style _ _ m := by cases style <;> exact nofun
  run_eq_zero _ _ := rfl

namespace Spans

variable {w : Word} {content rest xs : Spans} {afterWord : Bool}

/-- **A sequence goes on where it has something to go on with.** -/
theorem not_stops (hx : xs.StandsIn o around) (hne : xs ≠ nil) :
    ¬ Stops around (xs.written o afterWord ++ t) := by
  intro hstops
  cases xs with
  | nil => exact hne rfl
  | word w rest =>
    obtain ⟨c, hc, halpha⟩ := exists_head_word w rest o afterWord t
    rw [hstops.letter c hc] at halpha
    cases halpha
  | styled style content rest =>
    by_cases hstyle : style = .strikethrough
    · subst hstyle
      exact hx.fits (hstops.tilde head?_styled)
    obtain ⟨m, hm⟩ := style.exists_stress hstyle o (afterWord || rest.startsWithWord)
    rw [written_styled, Style.delimiter, hm] at hstops
    by_cases hnear : near around = []
    · have hzero := hstops.run_eq_zero hnear m
      rw [run_replicate] at hzero
      cases style <;> simp [Style.width] at hzero
    · -- Nothing inside starts with the mark, so the run is just the delimiter.
      have hinside : ∀ u, run m.char (content.written o false ++ u) = 0 :=
        run_of_isFull (isFull_cons hstyle hx.fits hnear) hx.inside hx.ne_nil m
      exact hstops.run_ne style hstyle hx.fits m (by rw [run_replicate, hinside, Nat.add_zero])

/-- Outside of emphasis, what starts with no emphasis of its own starts with no single mark. -/
theorem run_ne_one (hnear : near around = []) (hx : xs.StandsIn o around)
    (hbeside : xs.startsWith .emphasis = false) (hstops : Stops around t) (m : Stress) :
    run m.char (xs.written o afterWord ++ t) ≠ 1 := by
  cases xs with
  | nil => exact fun h => by simp [written, hstops.run_eq_zero hnear m] at h
  | word w rest =>
    rw [Markdown.run_eq_zero (head?_word_ne (stress_ne m).2)]
    decide
  | styled style content rest =>
    rw [written_styled]
    cases style with
    | emphasis => cases hbeside
    | strikethrough =>
      rw [Markdown.run_eq_zero]
      · decide
      · exact fun heq => (stress_ne m).1 (Option.some.inj heq).symm
    | strong =>
      obtain ⟨m', hm'⟩ := Style.exists_stress .strong (by decide) o
        (afterWord || rest.startsWithWord)
      rw [Style.delimiter, hm']
      by_cases heq : m'.char = m.char
      · rw [heq, run_replicate]
        simp [Style.width]
        omega
      · rw [Markdown.run_eq_zero]
        · decide
        · simpa [Style.width, List.replicate_succ] using heq

/-- **The end of a style stops its content.** -/
theorem stops_delimiter {touched : Bool} (hx : (styled style content rest).StandsIn o around)
    (hstops : Stops around t) :
    Stops (style :: around) (style.delimiter o touched ++ (rest.written o false ++ t)) := by
  by_cases hstyle : style = .strikethrough
  · subst hstyle
    have hhead : ∀ m : Stress, run m.char
        (Style.strikethrough.delimiter o touched ++ (rest.written o false ++ t)) = 0 := fun m =>
      Markdown.run_eq_zero fun heq => (stress_ne m).1 (Option.some.inj heq).symm
    refine ⟨fun c hc => ?_, fun _ => rfl, fun style _ _ m => ?_, fun _ => hhead⟩
    · rw [← Option.some.inj hc]
      rfl
    · rw [hhead]
      cases style <;> decide
  obtain ⟨m, hm⟩ := style.exists_stress hstyle o touched
  have hhead : (style.delimiter o touched ++ (rest.written o false ++ t)).head? = some m.char := by
    rw [← hm]
    cases style <;> rfl
  refine ⟨fun c hc => ?_, fun htilde => ?_, fun other hother hfits m' => ?_, fun hnear => ?_⟩
  · rw [hhead] at hc
    rw [← Option.some.inj hc]
    exact (stress_ne m).2
  · rw [hhead] at htilde
    exact absurd (Option.some.inj htilde) (stress_ne m).1
  · obtain ⟨hdiffer, hfitsother⟩ := (Style.fits_cons hstyle hother).mp hfits
    by_cases heq : m.char = m'.char
    · rw [Style.delimiter, hm, heq, run_replicate]
      cases style with
      | strikethrough => exact absurd rfl hstyle
      | strong =>
        have hemphasis : other.width ≤ 1 := by cases other <;> simp_all [Style.width]
        simp only [Style.width] at hemphasis ⊢
        omega
      | emphasis =>
        cases other with
        | emphasis => exact absurd rfl hdiffer
        | strikethrough => exact absurd rfl hother
        | strong =>
          -- A strong delimiter would need a single mark more.
          have hone : run m'.char (rest.written o false ++ t) ≠ 1 :=
            run_ne_one (near_eq_nil hx.fits hfitsother) hx.after_style (hx.not_beside rfl) hstops m'
          simp only [Style.width]
          omega
    · rw [Markdown.run_eq_zero]
      · cases other <;> decide
      · rw [hhead]
        exact fun h => heq (Option.some.inj h)
  · rw [near_cons hstyle] at hnear
    cases hnear

/-- What starts with no word starts with no letter. -/
theorem isAlpha_of_head? (hword : xs.startsWithWord = false) (hstops : Stops around t)
    (h : (xs.written o afterWord ++ t).head? = some c) : c.isAlpha = false := by
  cases xs with
  | nil => exact hstops.letter c h
  | word w rest => cases hword
  | styled style content rest =>
    rw [head?_styled] at h
    exact (of_mem_marks (Option.some.inj h ▸ style.mark_mem o _)).2.1

end Spans

/-- Letters before something else can be cut off. -/
theorem eq_of_append_letters {a a' b b' : Text} (ha : ∀ c ∈ a, c.isAlpha = true)
    (ha' : ∀ c ∈ a', c.isAlpha = true) (hb : ∀ c, b.head? = some c → c.isAlpha = false)
    (hb' : ∀ c, b'.head? = some c → c.isAlpha = false) (h : a ++ b = a' ++ b') :
    a = a' ∧ b = b' := by
  have htake : ∀ {u v : Text}, (∀ c ∈ u, c.isAlpha = true) →
      (∀ c, v.head? = some c → c.isAlpha = false) → (u ++ v).takeWhile Char.isAlpha = u := by
    intro u v hu hv
    rw [List.takeWhile_append_of_pos hu]
    cases v with
    | nil => simp
    | cons c v => simp [hv c rfl]
  obtain rfl : a = a' := by rw [← htake ha hb, h, htake ha' hb']
  exact ⟨rfl, List.append_cancel_left h⟩

/-! ## The text determines the sequence -/

namespace Spans

variable {w : Word} {content rest xs : Spans} {afterWord : Bool}

/-- A sequence that is written like this one before a text that stops it is this one, and the texts
are the same. -/
def Determined (o : Options) (xs : Spans) : Prop :=
  ∀ (ys : Spans) (around : List Style) (afterWord : Bool) (r r' : Text),
    xs.StandsIn o around → ys.StandsIn o around → Stops around r → Stops around r' →
    xs.written o afterWord ++ r = ys.written o afterWord ++ r' → xs = ys ∧ r = r'

theorem determined_nil (o : Options) : nil.Determined o := by
  intro ys around afterWord r r' _ hy hr _ h
  by_cases hne : ys = nil
  · subst hne
    exact ⟨rfl, h⟩
  · have hr : Stops around (ys.written o afterWord ++ r') := h ▸ hr
    exact absurd hr (not_stops hy hne)

theorem determined_word (hrest : rest.Determined o) (w : Word) : (word w rest).Determined o := by
  intro ys around afterWord r r' hx hy hr hr' h
  cases ys with
  | nil =>
    have hr' : Stops around ((word w rest).written o afterWord ++ r) := h ▸ hr'
    exact absurd hr' (not_stops hx (by simp))
  | word w' rest' =>
    rw [written, written, List.append_assoc, List.append_assoc] at h
    obtain ⟨hw, htail⟩ := eq_of_append_letters w.letters w'.letters
      (fun c => isAlpha_of_head? hx.proper.1 hr) (fun c => isAlpha_of_head? hy.proper.1 hr') h
    obtain ⟨rfl, rfl⟩ := hrest rest' around true r r' hx.after_word hy.after_word hr hr' htail
    obtain rfl := Word.ext hw
    exact ⟨rfl, rfl⟩
  | styled style content rest' =>
    obtain ⟨c, hc, halpha⟩ := exists_head_word w rest o afterWord r
    rw [h] at hc
    rw [isAlpha_of_head? rfl hr' hc] at halpha
    cases halpha

/-! ### Emphasis against strong emphasis -/

theorem fits_cons_congr {around' : List Style} (h : ∀ s : Style, s.Fits around ↔ s.Fits around')
    (style other : Style) : other.Fits (style :: around) ↔ other.Fits (style :: around') := by
  by_cases hother : other = .strikethrough
  · subst hother
    rfl
  by_cases hstyle : style = .strikethrough
  · subst hstyle
    rw [Style.fits_iff hother, Style.fits_iff hother]
    rfl
  · rw [Style.fits_cons hstyle hother, Style.fits_cons hstyle hother, h]

/-- Only what fits matters of the styles around a sequence. -/
theorem StandsIn.congr {around' : List Style} (h : ∀ s : Style, s.Fits around ↔ s.Fits around')
    (hx : xs.StandsIn o around) : xs.StandsIn o around' := by
  have hlegible : ∀ (xs : Spans) (a b : List Style), (∀ s : Style, s.Fits a ↔ s.Fits b) →
      xs.Legible o a → xs.Legible o b := by
    intro xs
    induction xs with
    | nil => exact fun _ _ _ _ => trivial
    | word w rest ih => exact fun a b hab hrest => ih a b hab hrest
    | styled style content rest ihcontent ihrest =>
      rintro a b hab ⟨hfits, hbeside, hsole, hcontent, hrest⟩
      exact ⟨(hab style).mp hfits, hbeside, hsole,
        ihcontent _ _ (fits_cons_congr hab style) hcontent, ihrest a b hab hrest⟩
  exact ⟨hx.proper, hlegible xs _ _ h hx.legible⟩

/-- Inside both kinds of emphasis, a mark stops every sequence. -/
theorem stops_of_isFull (hfull : IsFull around) (hnear : near around ≠ []) (m : Stress) (t : Text) :
    Stops around (m.char :: t) where
  letter _ hc := Option.some.inj hc ▸ (stress_ne m).2
  tilde h := absurd (Option.some.inj h) (stress_ne m).1
  run_ne style hstyle hfits := absurd hfits (hfull style hstyle)
  run_eq_zero h := absurd h hnear

/-- What starts with the mark of emphasis starts with emphasis. -/
theorem exists_styled (hne : xs ≠ nil) {m : Stress}
    (h : (xs.written o false ++ t).head? = some m.char) :
    ∃ style content rest, xs = styled style content rest ∧ style ≠ .strikethrough ∧
      style.mark o rest.startsWithWord = m.char := by
  cases xs with
  | nil => exact absurd rfl hne
  | word w rest => exact absurd h (head?_word_ne (stress_ne m).2)
  | styled style content rest =>
    have hmark : style.mark o rest.startsWithWord = m.char := by
      rw [head?_styled, Bool.false_or] at h
      exact Option.some.inj h
    refine ⟨style, content, rest, rfl, ?_, hmark⟩
    rintro rfl
    exact (stress_ne m).1 hmark.symm

/-- Content of emphasis that starts with its mark starts with the other kind of emphasis. -/
theorem exists_styled_inside (hx : (styled style content rest).StandsIn o around)
    (hstyle : style ≠ .strikethrough) {m : Stress}
    (h : (content.written o false ++ t).head? = some m.char) :
    ∃ other inner after, content = styled other inner after ∧ other ≠ .strikethrough ∧
      other ≠ style ∧ other.mark o after.startsWithWord = m.char := by
  obtain ⟨other, inner, after, rfl, hother, hmark⟩ := exists_styled hx.ne_nil h
  exact ⟨other, inner, after, rfl, hother, ((Style.fits_cons hstyle hother).mp hx.inside.fits).1,
    hmark⟩

/-- **Emphasis is not written like strong emphasis.** Three marks would have to be both delimiters,
in either order, around the same content; behind it the strong emphasis can only end with the
emphasis inside, so that it is all emphasis. -/
theorem emphasis_ne_strong {content content' rest rest' : Spans} {r r' : Text}
    (hx : (styled .emphasis content rest).StandsIn o around)
    (hy : (styled .strong content' rest').StandsIn o around)
    (hdetermined : (∀ s inner after, content = styled s inner after → inner.Determined o) ∨
      ∀ s inner after, content' = styled s inner after → inner.Determined o) :
    (styled .emphasis content rest).written o afterWord ++ r ≠
      (styled .strong content' rest').written o afterWord ++ r' := by
  intro h
  obtain ⟨m, hm⟩ := Style.exists_stress .emphasis (by decide) o
    (afterWord || rest.startsWithWord)
  have hnear := near_eq_nil hx.fits hy.fits
  rw [written_styled, written_styled, Style.delimiter, Style.delimiter, hm] at h
  simp only [Style.width, List.replicate, List.cons_append, List.nil_append, List.cons.injEq] at h
  obtain ⟨hmark, h⟩ := h
  rw [← hmark] at h
  -- The second mark opens strong emphasis inside the emphasis.
  obtain ⟨s, inner, after, rfl, hs, hother, hsmark⟩ :=
    exists_styled_inside hx (by decide) (by rw [h]; rfl)
  obtain rfl : s = .strong := by cases s <;> first | rfl | contradiction
  rw [written_styled, Bool.false_or, Style.delimiter, hsmark] at h
  simp only [Style.width, List.replicate, List.cons_append, List.nil_append, List.cons.injEq,
    true_and] at h
  -- The third mark opens emphasis inside the strong emphasis.
  obtain ⟨s', inner', after', rfl, hs', hother', hsmark'⟩ :=
    exists_styled_inside hy (by decide) (by rw [← h]; rfl)
  obtain rfl : s' = .emphasis := by cases s' <;> first | rfl | contradiction
  rw [written_styled, Bool.false_or, Style.delimiter, hsmark'] at h
  simp only [Style.width, List.replicate, List.cons_append, List.nil_append, List.cons.injEq,
    true_and] at h
  -- Inside both, the contents are the same.
  have hfits : ∀ s : Style, s.Fits (.emphasis :: .strong :: around) ↔
      s.Fits (.strong :: .emphasis :: around) := by
    intro s
    cases s <;> simp [Style.Fits, near]
  have hinside : near (.emphasis :: around) ≠ [] := by simp [near]
  have hfull : IsFull (.strong :: .emphasis :: around) :=
    isFull_cons (by decide) hx.inside.fits hinside
  have hstops : ∀ t, Stops (.strong :: .emphasis :: around) (m.char :: t) :=
    stops_of_isFull hfull (by simp [near]) m
  have hinner := hx.inside.inside
  have hinner' := hy.inside.inside.congr hfits
  have htail :
      m.char :: m.char :: (after.written o false ++ m.char :: (rest.written o false ++ r)) =
        m.char ::
          (after'.written o false ++ m.char :: m.char :: (rest'.written o false ++ r')) := by
    rcases hdetermined with hdetermined | hdetermined
    · exact (hdetermined _ _ _ rfl _ _ _ _ _ hinner hinner' (hstops _) (hstops _) h).2
    · exact (hdetermined _ _ _ rfl _ _ _ _ _ hinner' hinner (hstops _) (hstops _) h.symm).2.symm
  simp only [List.cons.injEq, true_and] at htail
  -- Behind the emphasis nothing can start with the mark.
  have hafter : after' = nil := by
    by_contra hne
    obtain ⟨s, _, _, rfl, hs, -⟩ := exists_styled hne (by rw [← htail]; rfl)
    have hdiffer := ((Style.fits_cons (by decide) hs).mp hy.inside.after_style.fits).1
    have hbeside := hy.inside.not_beside rfl
    cases s <;> contradiction
  subst hafter
  simp only [written, List.nil_append, List.cons.injEq, true_and] at htail
  have hword : after.startsWithWord = false := by
    cases after with
    | word w rest => exact absurd (congrArg List.head? htail) (head?_word_ne (stress_ne m).2)
    | _ => rfl
  -- So neither emphasis is beside a word, and both have the mark of the options.
  rw [hword] at hsmark
  have hmarkers : o.emphasisMarker = o.strongMarker := by
    have hchars : o.emphasisMarker.char = o.strongMarker.char := hsmark'.trans hsmark.symm
    revert hchars
    cases o.emphasisMarker <;> cases o.strongMarker <;> decide
  cases hy.legible.2.2.1 rfl hmarkers

/-- Delimiters of one style with one mark are the same. -/
theorem delimiter_eq {touched touched' : Bool} (h : style.mark o touched = style.mark o touched') :
    style.delimiter o touched = style.delimiter o touched' := by
  rw [Style.delimiter, Style.delimiter, h]

theorem determined_styled (hcontent : content.Determined o)
    (hinner : ∀ s inner after, content = styled s inner after → inner.Determined o)
    (hrest : rest.Determined o) (style : Style) : (styled style content rest).Determined o := by
  intro ys around afterWord r r' hx hy hr hr' h
  cases ys with
  | nil =>
    have hr' : Stops around ((styled style content rest).written o afterWord ++ r) := h ▸ hr'
    exact absurd hr' (not_stops hx (by simp))
  | word w rest' =>
    obtain ⟨c, hc, halpha⟩ := exists_head_word w rest' o afterWord r'
    rw [← h] at hc
    rw [isAlpha_of_head? rfl hr hc] at halpha
    cases halpha
  | styled style' content' rest' =>
    have hmark : style.mark o (afterWord || rest.startsWithWord) =
        style'.mark o (afterWord || rest'.startsWithWord) :=
      Option.some.inj (by rw [← head?_styled, h, head?_styled])
    have htilde : ∀ s : Style, s ≠ .strikethrough → ∀ touched, s.mark o touched ≠ '~' := by
      intro s hs touched heq
      obtain ⟨m, hm⟩ := s.exists_stress hs o touched
      exact (stress_ne m).1 (hm.symm.trans heq)
    by_cases hstyle : style = style'
    · subst hstyle
      rw [written_styled, written_styled, delimiter_eq hmark] at h
      obtain ⟨rfl, htail⟩ := hcontent content' (style :: around) false _ _ hx.inside hy.inside
        (stops_delimiter hx hr) (stops_delimiter hy hr') (List.append_cancel_left h)
      obtain ⟨rfl, rfl⟩ := hrest rest' around false r r' hx.after_style hy.after_style hr hr'
        (List.append_cancel_left htail)
      exact ⟨rfl, rfl⟩
    · cases style with
      | strikethrough => exact absurd hmark.symm (htilde style' (Ne.symm hstyle) _)
      | emphasis =>
        cases style' with
        | emphasis => exact absurd rfl hstyle
        | strong => exact absurd h (emphasis_ne_strong hx hy (.inl hinner))
        | strikethrough => exact absurd hmark (htilde .emphasis hstyle _)
      | strong =>
        cases style' with
        | strong => exact absurd rfl hstyle
        | emphasis => exact absurd h.symm (emphasis_ne_strong hy hx (.inr hinner))
        | strikethrough => exact absurd hmark (htilde .strong hstyle _)

/-- **The text determines the sequence.** -/
theorem determined (o : Options) (xs : Spans) : xs.Determined o := by
  have H : xs.Determined o ∧ ∀ s inner after, xs = styled s inner after → inner.Determined o := by
    induction xs with
    | nil => exact ⟨determined_nil o, nofun⟩
    | word w rest ih => exact ⟨determined_word ih.1 w, nofun⟩
    | styled style content rest ihcontent ihrest =>
      refine ⟨determined_styled ihcontent.1 ihcontent.2 ihrest.1 style, ?_⟩
      rintro s inner after ⟨⟩
      exact ihcontent.1
  exact H.1

end Spans

/-- **Formatting can be told apart.** Take two sequences of words and styles in which styles have
content and words are not neighbours. Let no emphasis be inside emphasis, and no strong emphasis
inside strong emphasis, unless a strikethrough stands between the two; no strikethrough be right
inside a strikethrough; no emphasis stand beside emphasis; and, if both kinds of emphasis have one
mark, no strong emphasis be all emphasis. Then the paragraphs that hold them are written alike only
if they are the same. -/
theorem spans_are_distinguishable (o : Options) {xs ys : Spans} (hx : xs.Proper) (hy : ys.Proper)
    (hx' : xs.Legible o []) (hy' : ys.Legible o []) :
    render o (.document [.paragraph xs.nodes]) = render o (.document [.paragraph ys.nodes]) ↔
      xs = ys := by
  constructor
  · intro h
    rw [Spans.render_nodes hx, Spans.render_nodes hy] at h
    have hwritten : xs.written o false ++ [] = ys.written o false ++ [] := by
      simpa using List.append_cancel_right h
    exact (xs.determined o ys [] false [] [] ⟨hx, hx'⟩ ⟨hy, hy'⟩ stops_nil stops_nil hwritten).1
  · rintro rfl
    rfl

/-- A word of one letter. -/
def letter (c : Char) (hc : c.isAlpha = true) : Word :=
  ⟨[c], by simp, by simpa using hc⟩

open Spans in
/-- Emphasis around a word, struck-through emphasis and strong emphasis, and the three beside each
other. -/
theorem nested_is_not_written_like_flat :
    let a := letter 'a' rfl
    let struck := styled .strikethrough (styled .emphasis (word a nil) nil)
    let strong := styled .strong (word a nil)
    render {} (.document [.paragraph
        (styled .emphasis (word a (struck (strong nil))) nil).nodes]) ≠
      render {} (.document [.paragraph
        (styled .emphasis (word a nil) (struck (strong nil))).nodes]) := by
  intro a struck strong h
  have hsame := (spans_are_distinguishable {} (by decide) (by decide) (by decide) (by decide)).mp h
  exact absurd hsame (by decide)

/-! ## What cannot be told apart -/

/-- Two proper sequences are written alike, and are not the same. -/
def Collide (o : Options) (xs ys : Spans) : Prop :=
  xs.Proper ∧ ys.Proper ∧ xs ≠ ys ∧
    render o (.document [.paragraph xs.nodes]) = render o (.document [.paragraph ys.nodes])

instance (o : Options) (xs ys : Spans) : Decidable (Collide o xs ys) :=
  inferInstanceAs (Decidable (xs.Proper ∧ ys.Proper ∧ xs ≠ ys ∧
    render o (.document [.paragraph xs.nodes]) = render o (.document [.paragraph ys.nodes])))

open Spans in
/-- Emphasis in emphasis is written like strong emphasis, and with strong emphasis between the two
like emphasis before strong emphasis; strong emphasis in strong emphasis and a strikethrough in a
strikethrough are written like two in a row, and with emphasis between the two like all three in a
row; three in a row are written like strong emphasis in emphasis; and strong emphasis that is all
emphasis like emphasis that is all strong emphasis. -/
theorem nested_styles_collide :
    let a := letter 'a' rfl
    Collide {} (styled .emphasis (styled .emphasis (word a nil) nil) nil)
      (styled .strong (word a nil) nil) ∧
    Collide {}
      (styled .emphasis (word a nil)
        (styled .strong (word a (styled .emphasis (word a nil) nil)) nil))
      (styled .emphasis
        (word a (styled .strong (styled .emphasis (word a nil) (word a nil)) nil)) nil) ∧
    Collide {}
      (styled .strong (word a nil) (word a (styled .strong (word a nil) nil)))
      (styled .strong (word a (styled .strong (word a nil) (word a nil))) nil) ∧
    Collide {}
      (styled .strong (word a nil)
        (styled .emphasis (word a nil) (styled .strong (word a nil) nil)))
      (styled .strong
        (word a (styled .emphasis (styled .strong (word a nil) nil) (word a nil))) nil) ∧
    Collide {}
      (styled .strikethrough (word a nil) (word a (styled .strikethrough (word a nil) nil)))
      (styled .strikethrough (word a (styled .strikethrough (word a nil) (word a nil))) nil) ∧
    Collide {}
      (styled .emphasis (word a nil)
        (styled .emphasis (word a nil) (styled .emphasis (word a nil) nil)))
      (styled .emphasis (word a (styled .strong (word a nil) (word a nil))) nil) ∧
    Collide {} (styled .strong (styled .emphasis (word a nil) nil) nil)
      (styled .emphasis (styled .strong (word a nil) nil) nil) := by
  decide +kernel

end DocumentTree.Markdown
