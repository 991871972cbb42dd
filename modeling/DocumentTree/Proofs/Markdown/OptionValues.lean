import DocumentTree.Markdown.Options
import DocumentTree.Proofs.Outcome
import Mathlib.Data.List.Basic

/-!
# Which settings a mapping gives

A mapping may give a setting more than once, by its name and by its alias, and the last entry
counts. Only the values that count are checked: one that a later entry replaces may be anything.
But options are built twice where single settings override a mapping, so what the mapping alone
gives is checked as well. Keys that name no setting have no influence.

## Main definitions

* `Field.allowed f` — the values that a setting allows.
* `Field.IsNamedBy f key` — a key is the name of a setting or its alias.
* `lastValue` — the value in the last entry about something, or else a default.
* `RawOptions.refusal? raw` — the refusal of the first setting that is not allowed.
-/

namespace DocumentTree.Markdown

variable {α β : Type} {f g : Field} {raw : RawOptions} {key : Key} {e : OptionsError}

/-! ## Names and values of settings -/

namespace Field

/-- The values that a setting allows. -/
def allowed (f : Field) : List Value :=
  if f.choices = [] then [.bool true, .bool false] else f.choices.map .str

/-- The refusal of a value. -/
def refusal (f : Field) (v : Value) : OptionsError :=
  if f.choices = [] then .notAFlag f v else .notAChoice f v

/-- All settings in the order in which they are checked. -/
def checked : List Field :=
  [bulletMarker, listIndent, ruleStyle, emphasisMarker, strongMarker, codeFenceChar, useFences,
    escapeSpecial, tablePipeEscape]

/-- A key is the name of a setting, or its alias. -/
def IsNamedBy (f : Field) (key : Key) : Prop :=
  key = f.name ∨ key = f.aliasName

instance (f : Field) (key : Key) : Decidable (f.IsNamedBy key) :=
  inferInstanceAs (Decidable (_ ∨ _))

theorem mem_checked (f : Field) : f ∈ checked := by
  cases f <;> decide

theorem ofKey?_eq_some_iff : ofKey? key = some f ↔ f.IsNamedBy key := by
  constructor
  · intro h
    simpa [IsNamedBy] using List.find?_some h
  · rintro (rfl | rfl) <;> cases f <;> rfl

/-- No key names two settings. -/
theorem eq_of_isNamedBy (hf : f.IsNamedBy key) (hg : g.IsNamedBy key) : f = g := by
  rw [← ofKey?_eq_some_iff] at hf hg
  exact Option.some.inj (hf.symm.trans hg)

theorem ofName?_name (f : Field) : ofName? f.name = some f := by
  cases f <;> rfl

end Field

/-! ## Values that count -/

/-- The value in the last entry whose key is about something, or else a default. -/
def lastValue {κ : Type} (about : κ → Bool) (entries : List (κ × Value)) (default : Value) :
    Value :=
  ((entries.filter fun entry => about entry.1).getLast?.map Prod.snd).getD default

section

variable {κ : Type} {about : κ → Bool}

/-- Going on with an entry is starting from its value, if it counts. -/
theorem lastValue_cons (entry : κ × Value) (entries : List (κ × Value)) (d : Value) :
    lastValue about (entry :: entries) d =
      lastValue about entries (if about entry.1 then entry.2 else d) := by
  rw [lastValue, lastValue, List.filter_cons]
  split
  · rw [List.getLast?_cons]
    cases (entries.filter fun entry => about entry.1).getLast? <;> rfl
  · rfl

/-- Entries with the same entries about something give it the same value. -/
theorem lastValue_congr {entries others : List (κ × Value)}
    (h : (entries.filter fun entry => about entry.1) = others.filter fun entry => about entry.1)
    (d : Value) : lastValue about entries d = lastValue about others d := by
  rw [lastValue, h, lastValue]

/-- Setting values one after the other leaves the last one. -/
theorem foldl_set_apply (fieldOf : κ → Option Field) (entries : List (κ × Value))
    (raw : RawOptions) (f : Field) :
    entries.foldl (fun raw entry =>
        match fieldOf entry.1 with
        | some g => raw.set g entry.2
        | none => raw) raw f =
      lastValue (fun k => fieldOf k = some f) entries (raw f) := by
  induction entries generalizing raw with
  | nil => rfl
  | cons entry entries ih =>
    rw [List.foldl_cons, ih, lastValue_cons]
    congr 1
    cases hfield : fieldOf entry.1 with
    | none => simp
    | some g => simp [RawOptions.set, eq_comm]

end

/-! ## Checks -/

namespace RawOptions

/-- A setting checked. -/
def examine (raw : RawOptions) (f : Field) : Except OptionsError Unit :=
  if raw f ∈ f.allowed then .ok () else .error (f.refusal (raw f))

/-- Settings checked in order. -/
def examineAll (raw : RawOptions) : List Field → Except OptionsError Unit
  | [] => .ok ()
  | f :: fs => do
    raw.examine f
    raw.examineAll fs

/-- The refusal of the first setting that is not allowed, in the order of checks. -/
def refusal? (raw : RawOptions) : Option OptionsError :=
  (Field.checked.find? fun f => raw f ∉ f.allowed).map fun f => f.refusal (raw f)

/-- Two computations are refused alike. -/
def RefusedAlike (x : Except OptionsError α) (y : Except OptionsError Unit) : Prop :=
  x.map (fun _ => ()) = y

theorem RefusedAlike.pure (a : α) : RefusedAlike (pure a) (.ok ()) :=
  rfl

/-- Sequences are refused alike if their steps are. -/
theorem RefusedAlike.bind {x : Except OptionsError α} {y z : Except OptionsError Unit}
    {next : α → Except OptionsError β} (hx : RefusedAlike x y)
    (hnext : ∀ a, RefusedAlike (next a) z) : RefusedAlike (x >>= next) (y >>= fun _ => z) := by
  cases x with
  | error e => 
    obtain rfl : .error e = y := hx
    rfl
  | ok a =>
    obtain rfl : .ok () = y := hx
    exact hnext a

theorem choice_refusedAlike (raw : RawOptions) {options : List (String × α)}
    (hchoices : f.choices = options.map Prod.fst) (hne : f.choices ≠ []) :
    RefusedAlike (raw.choice f options) (raw.examine f) := by
  rw [choice, examine, Field.allowed, if_neg hne, Field.refusal, if_neg hne, hchoices]
  cases hv : raw f with
  | str s =>
    have hmem : Value.str s ∈ (options.map Prod.fst).map Value.str ↔
        (options.find? fun option => option.1 = s).isSome = true := by
      simp [List.find?_isSome]
    cases hfind : options.find? fun option => option.1 = s with
    | some option =>
      rw [if_pos (hmem.mpr (by rw [hfind]; rfl))]
      simp only [hfind]
      rfl
    | none =>
      rw [if_neg (hmem.not.mpr (by simp [hfind]))]
      simp only [hfind]
      rfl
  | _ => simp [RefusedAlike, Except.map]

theorem flag_refusedAlike (raw : RawOptions) (hnil : f.choices = []) :
    RefusedAlike (raw.flag f) (raw.examine f) := by
  rw [flag, examine, Field.allowed, if_pos hnil, Field.refusal, if_pos hnil]
  cases hv : raw f with
  | bool b => cases b <;> rfl
  | _ => simp [RefusedAlike, Except.map]

/-- The settings are refused for the first that is not allowed. -/
theorem check_refusedAlike (raw : RawOptions) :
    RefusedAlike raw.check (raw.examineAll Field.checked) := by
  rw [check, Field.checked]
  refine .bind (choice_refusedAlike raw rfl (by decide)) fun _ => ?_
  refine .bind (choice_refusedAlike raw rfl (by decide)) fun _ => ?_
  refine .bind (choice_refusedAlike raw rfl (by decide)) fun _ => ?_
  refine .bind (choice_refusedAlike raw rfl (by decide)) fun _ => ?_
  refine .bind (choice_refusedAlike raw rfl (by decide)) fun _ => ?_
  refine .bind (choice_refusedAlike raw rfl (by decide)) fun _ => ?_
  refine .bind (flag_refusedAlike raw rfl) fun _ => ?_
  refine .bind (flag_refusedAlike raw rfl) fun _ => ?_
  refine .bind (flag_refusedAlike raw rfl) fun _ => ?_
  exact .pure _

theorem examineAll_eq (raw : RawOptions) (fs : List Field) :
    raw.examineAll fs =
      match fs.find? fun f => raw f ∉ f.allowed with
      | some f => .error (f.refusal (raw f))
      | none => .ok () := by
  induction fs with
  | nil => rfl
  | cons f fs ih =>
    rw [examineAll, examine, List.find?_cons]
    by_cases hf : raw f ∈ f.allowed
    · simpa [hf] using ih
    · simp only [hf, if_false, not_false_iff, decide_true]
      rfl

theorem refusal?_eq_none_iff : raw.refusal? = none ↔ ∀ f : Field, raw f ∈ f.allowed := by
  simp [refusal?, Field.mem_checked]

theorem map_check (raw : RawOptions) :
    raw.check.map (fun _ => ()) = match raw.refusal? with
      | some e => .error e
      | none => .ok () := by
  have hcheck : raw.check.map (fun _ => ()) = raw.examineAll Field.checked :=
    check_refusedAlike raw
  rw [hcheck, examineAll_eq, refusal?]
  cases Field.checked.find? fun f => raw f ∉ f.allowed <;> rfl

/-- **Settings are refused for the first value that is not allowed**, and for nothing else. -/
theorem check_eq_error_iff : raw.check = .error e ↔ raw.refusal? = some e := by
  have hmap := map_check raw
  cases hcheck : raw.check <;> cases hrefusal : raw.refusal? <;> simp_all [Except.map]

theorem mem_allowed_of_check {o : Options} (h : raw.check = .ok o) (f : Field) :
    raw f ∈ f.allowed := by
  cases hrefusal : raw.refusal? with
  | none => exact refusal?_eq_none_iff.mp hrefusal f
  | some e =>
    rw [check_eq_error_iff.mpr hrefusal] at h
    cases h

/-- Settings checked after others are refused for either. -/
theorem check_bind_eq_error_iff {other : RawOptions} :
    (raw.check >>= fun _ => other.check) = .error e ↔
      raw.refusal?.or other.refusal? = some e := by
  cases hrefusal : raw.refusal? with
  | some d =>
    rw [check_eq_error_iff.mpr hrefusal]
    simp [bind, Except.bind]
  | none =>
    cases hcheck : raw.check with
    | error d =>
      rw [check_eq_error_iff, hrefusal] at hcheck
      cases hcheck
    | ok o => exact check_eq_error_iff

end RawOptions

namespace Options

variable {o : Options}

/-- Options are the settings that they hold. -/
theorem check_field (o : Options) : o.field.check = .ok o := by
  have hbullet : o.field.choice .bulletMarker
      [("-", Bullet.dash), ("*", Bullet.star), ("+", Bullet.plus)] = .ok o.bulletMarker := by
    cases h : o.bulletMarker <;> simp [RawOptions.choice, field, h, Bullet.char]
  have hindent : o.field.choice .listIndent
      [("one-space", ListIndent.oneSpace), ("tab-width", ListIndent.tabWidth)] =
        .ok o.listIndent := by
    cases h : o.listIndent <;> simp [RawOptions.choice, field, h, ListIndent.name]
  have hrule : o.field.choice .ruleStyle
      [("-", Rule.dash), ("*", Rule.star), ("_", Rule.underscore)] = .ok o.ruleStyle := by
    cases h : o.ruleStyle <;> simp [RawOptions.choice, field, h, Rule.char]
  have hemphasis : o.field.choice .emphasisMarker
      [("*", Stress.star), ("_", Stress.underscore)] = .ok o.emphasisMarker := by
    cases h : o.emphasisMarker <;> simp [RawOptions.choice, field, h, Stress.char]
  have hstrong : o.field.choice .strongMarker
      [("*", Stress.star), ("_", Stress.underscore)] = .ok o.strongMarker := by
    cases h : o.strongMarker <;> simp [RawOptions.choice, field, h, Stress.char]
  have hfence : o.field.choice .codeFenceChar
      [("`", Fence.backtick), ("~", Fence.tilde)] = .ok o.codeFenceChar := by
    cases h : o.codeFenceChar <;> simp [RawOptions.choice, field, h, Fence.char]
  rw [RawOptions.check, hbullet, hindent, hrule, hemphasis, hstrong, hfence]
  rfl

/-- Allowed settings are those of some options. -/
theorem exists_field_eq (h : ∀ f : Field, raw f ∈ f.allowed) : ∃ o : Options, o.field = raw := by
  have hflag : ∀ f : Field, f.choices = [] → ∃ b, raw f = .bool b := by
    intro f hnil
    have hf := h f
    rw [Field.allowed, if_pos hnil] at hf
    rcases List.mem_pair.mp hf with hf | hf
    · exact ⟨true, hf⟩
    · exact ⟨false, hf⟩
  have hchoice : ∀ {α : Type} (f : Field) (text : α → String), f.choices ≠ [] →
      (∀ s ∈ f.choices, ∃ a, text a = s) → ∃ a, raw f = .str (text a) := by
    intro α f text hne hall
    have hf := h f
    rw [Field.allowed, if_neg hne] at hf
    obtain ⟨s, hs, heq⟩ := List.mem_map.mp hf
    obtain ⟨a, rfl⟩ := hall s hs
    exact ⟨a, heq.symm⟩
  have hstress : ∀ s ∈ ["*", "_"], ∃ a : Stress, a.char.toString = s := by
    simpa using ⟨⟨Stress.star, rfl⟩, ⟨Stress.underscore, rfl⟩⟩
  obtain ⟨bulletMarker, hbullet⟩ := hchoice .bulletMarker (fun a : Bullet => a.char.toString)
    (by decide) (by simpa [Field.choices] using ⟨⟨.dash, rfl⟩, ⟨.star, rfl⟩, ⟨.plus, rfl⟩⟩)
  obtain ⟨listIndent, hindent⟩ := hchoice .listIndent ListIndent.name
    (by decide) (by simpa [Field.choices] using ⟨⟨.oneSpace, rfl⟩, ⟨.tabWidth, rfl⟩⟩)
  obtain ⟨ruleStyle, hrule⟩ := hchoice .ruleStyle (fun a : Rule => a.char.toString)
    (by decide) (by simpa [Field.choices] using ⟨⟨.dash, rfl⟩, ⟨.star, rfl⟩, ⟨.underscore, rfl⟩⟩)
  obtain ⟨emphasisMarker, hemphasis⟩ := hchoice .emphasisMarker
    (fun a : Stress => a.char.toString) (by decide) hstress
  obtain ⟨strongMarker, hstrong⟩ := hchoice .strongMarker
    (fun a : Stress => a.char.toString) (by decide) hstress
  obtain ⟨codeFenceChar, hfence⟩ := hchoice .codeFenceChar (fun a : Fence => a.char.toString)
    (by decide) (by simpa [Field.choices] using ⟨⟨.backtick, rfl⟩, ⟨.tilde, rfl⟩⟩)
  obtain ⟨useFences, huse⟩ := hflag .useFences rfl
  obtain ⟨escapeSpecial, hescape⟩ := hflag .escapeSpecial rfl
  obtain ⟨tablePipeEscape, hpipe⟩ := hflag .tablePipeEscape rfl
  refine ⟨{ bulletMarker, listIndent, ruleStyle, useFences, emphasisMarker, strongMarker,
            codeFenceChar, escapeSpecial, tablePipeEscape }, funext fun f => ?_⟩
  cases f <;> simp only [field, hbullet, hindent, hrule, hemphasis, hstrong, hfence, huse,
    hescape, hpipe]

/-- Settings pass the checks just if they are the settings of options. -/
theorem check_eq_ok_iff : raw.check = .ok o ↔ o.field = raw := by
  constructor
  · intro h
    obtain ⟨p, rfl⟩ := exists_field_eq (RawOptions.mem_allowed_of_check h)
    rw [check_field, Except.ok.injEq] at h
    rw [h]
  · rintro rfl
    exact check_field o

/-! ## Options from a mapping -/

/-- What a mapping gives: for each setting the last of its values, or else the default. -/
def givenBy (mapping : Entries) : RawOptions :=
  fun f => lastValue (f.IsNamedBy ·) mapping (({} : Options).field f)

/-- Single settings over others: for each the last of its values, or else the other one. -/
def overridden (raw : RawOptions) (overrides : List (Field × Value)) : RawOptions :=
  fun f => lastValue (· = f) overrides (raw f)

/-- Single settings as a caller names them. -/
def named (overrides : List (Field × Value)) : Entries :=
  overrides.map fun setting => (setting.1.name, setting.2)

theorem rawOfMapping_eq (mapping : Entries) : rawOfMapping mapping = givenBy mapping := by
  funext f
  have hfold := foldl_set_apply Field.ofKey? mapping ({} : Options).field f
  simp only [Field.ofKey?_eq_some_iff] at hfold
  exact hfold

theorem foldl_set_eq_overridden (raw : RawOptions) (overrides : List (Field × Value)) :
    overrides.foldl (fun raw setting => raw.set setting.1 setting.2) raw =
      overridden raw overrides := by
  funext f
  have hfold := foldl_set_apply some overrides raw f
  simp only [Option.some.injEq] at hfold
  exact hfold

/-- All names of settings are known. -/
theorem foldlM_named (raw : RawOptions) (overrides : List (Field × Value)) :
    (named overrides).foldlM (fun raw (setting : Key × Value) =>
        match Field.ofName? setting.1 with
        | some f => .ok (RawOptions.set raw f setting.2)
        | none => .error (.unknownField setting.1)) raw =
      (.ok (overrides.foldl (fun raw setting => raw.set setting.1 setting.2) raw) :
        Except OptionsError RawOptions) := by
  induction overrides generalizing raw with
  | nil => rfl
  | cons setting overrides ih =>
    rw [named, List.map_cons, List.foldlM_cons]
    simp only [Field.ofName?_name]
    exact ih _

theorem update_named (o : Options) (overrides : List (Field × Value)) :
    o.update (named overrides) = (overridden o.field overrides).check := by
  have hnames := foldlM_named o.field overrides
  rw [foldl_set_eq_overridden] at hnames
  exact congrArg (· >>= RawOptions.check) hnames

/-- Options from a mapping and single settings are checked twice: as the mapping gives them, and
with the single settings. -/
theorem resolve_mapping (mapping : Entries) (overrides : List (Field × Value)) :
    ((GivenOptions.data (.map mapping)).resolve (named overrides)).result =
      (givenBy mapping).check >>= fun _ => (overridden (givenBy mapping) overrides).check := by
  have hmapping : (ofMapping mapping).result = (givenBy mapping).check := by
    rw [← rawOfMapping_eq]
    rfl
  simp only [GivenOptions.resolve, Traced.result_bind, hmapping]
  cases hcheck : (givenBy mapping).check with
  | error e => rfl
  | ok o =>
    rw [← check_eq_ok_iff.mp hcheck]
    -- Without single settings there is no second check, but it would not refuse anything.
    cases overrides with
    | nil => exact (check_field o).symm
    | cons setting overrides => exact update_named o (setting :: overrides)

/-- Options written as a map and read again are the same, and no key of the map is unknown. -/
theorem ofMapping_toEntries (o : Options) : ofMapping o.toEntries = ⟨[], .ok o⟩ := by
  have hgiven : givenBy o.toEntries = o.field := by
    funext f
    cases f <;> rfl
  rw [ofMapping, rawOfMapping_eq, hgiven, check_field]
  rfl

/-- What a mapping gives goes by the entries for each setting, and their order. -/
theorem givenBy_congr {mapping other : Entries}
    (h : ∀ f : Field, (mapping.filter fun entry => f.IsNamedBy entry.1) =
      other.filter fun entry => f.IsNamedBy entry.1) : givenBy mapping = givenBy other := by
  funext f
  exact lastValue_congr (h f) _

theorem givenBy_insert_unknown {entry : Key × Value} (h : ∀ f : Field, ¬ f.IsNamedBy entry.1)
    (before after : Entries) : givenBy (before ++ entry :: after) = givenBy (before ++ after) := by
  refine givenBy_congr fun f => ?_
  rw [List.filter_append, List.filter_append, List.filter_cons_of_neg (by simpa using h f)]

theorem givenBy_swap {d e : Key × Value}
    (h : ∀ f : Field, ¬ (f.IsNamedBy d.1 ∧ f.IsNamedBy e.1)) (before after : Entries) :
    givenBy (before ++ e :: d :: after) = givenBy (before ++ d :: e :: after) := by
  refine givenBy_congr fun f => ?_
  rw [List.filter_append, List.filter_append]
  by_cases hd : f.IsNamedBy d.1
  · have he : ¬ f.IsNamedBy e.1 := fun he => h f ⟨hd, he⟩
    simp [hd, he]
  · simp [List.filter_cons, hd]

end Options

/-- **Options from a mapping** and from single settings over it hold the values that count last.
They are refused just if such a value is not allowed, be it one that a single setting replaces. The
refusal is that of the first such value. Entries under unknown keys may be put anywhere, entries for
different settings may be exchanged, and options are read back from their own map. -/
theorem options_hold_the_last_values (mapping : Entries) (overrides : List (Field × Value)) :
    let resolve := fun mapping : Entries =>
      ((GivenOptions.data (.map mapping)).resolve (Options.named overrides)).result
    let given := Options.givenBy mapping
    let final := Options.overridden given overrides
    ((∃ o, resolve mapping = .ok o) ↔
      (∀ f : Field, given f ∈ f.allowed) ∧ ∀ f : Field, final f ∈ f.allowed) ∧
    (∀ o, resolve mapping = .ok o → o.field = final) ∧
    (∀ e, resolve mapping = .error e ↔ given.refusal?.or final.refusal? = some e) ∧
    (∀ entry : Key × Value, (∀ f : Field, ¬ f.IsNamedBy entry.1) → ∀ before after,
      mapping = before ++ after → resolve (before ++ entry :: after) = resolve mapping) ∧
    (∀ (f g : Field) (d e : Key × Value), f.IsNamedBy d.1 → g.IsNamedBy e.1 → f ≠ g →
      ∀ before after, mapping = before ++ d :: e :: after →
        resolve (before ++ e :: d :: after) = resolve mapping) ∧
    ∀ o : Options, Options.ofMapping o.toEntries = ⟨[], .ok o⟩ := by
  intro resolve given final
  have hresolve : ∀ mapping, resolve mapping = (Options.givenBy mapping).check >>= fun _ =>
      (Options.overridden (Options.givenBy mapping) overrides).check :=
    fun mapping => Options.resolve_mapping mapping overrides
  refine ⟨⟨?_, ?_⟩, fun o ho => ?_, fun e => ?_, fun entry hentry before after hmapping => ?_,
    fun f g d e hd he hfg before after hmapping => ?_, Options.ofMapping_toEntries⟩
  · rintro ⟨o, ho⟩
    obtain ⟨p, hp, ho⟩ := bind_eq_ok.mp (hresolve mapping ▸ ho)
    exact ⟨RawOptions.mem_allowed_of_check hp, RawOptions.mem_allowed_of_check ho⟩
  · rintro ⟨hgiven, hfinal⟩
    obtain ⟨p, hp⟩ := Options.exists_field_eq hgiven
    obtain ⟨o, ho⟩ := Options.exists_field_eq hfinal
    refine ⟨o, (hresolve mapping).trans (bind_eq_ok.mpr ⟨p, ?_, ?_⟩)⟩
    · exact Options.check_eq_ok_iff.mpr hp
    · exact Options.check_eq_ok_iff.mpr ho
  · obtain ⟨p, -, ho⟩ := bind_eq_ok.mp (hresolve mapping ▸ ho)
    exact Options.check_eq_ok_iff.mp ho
  · rw [hresolve mapping]
    exact RawOptions.check_bind_eq_error_iff
  · rw [hresolve, hresolve, Options.givenBy_insert_unknown hentry, hmapping]
  · have hnone : ∀ k : Field, ¬ (k.IsNamedBy d.1 ∧ k.IsNamedBy e.1) := fun k hk =>
      hfg ((Field.eq_of_isNamedBy hd hk.1).trans (Field.eq_of_isNamedBy hk.2 he))
    rw [hresolve, hresolve, Options.givenBy_swap hnone, hmapping]

/-- A value that the alias replaces is not checked. -/
example :
    let mapping : Entries :=
      [("bullet_marker", .int 3), ("unknown", .null), ("bulletMarker", .str "*")]
    ((GivenOptions.data (.map mapping)).resolve []).result = .ok { bulletMarker := .star } :=
  rfl

end DocumentTree.Markdown
