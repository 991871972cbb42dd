import DocumentTree.Proofs.Markdown.Parts

/-!
# How inline content starts

Nodes can be written as white space only: a text of blanks, or emphasis of such a text, which has no
delimiters then. Once the white space around content is trimmed, the first other node is the one
that it starts with, and the kind of that node shows in the first characters.

## Main definitions

* `core o marker ns` — inline content without the white space around it.
* `leader o marker ns` — the first node that is not written as white space.
* `Opening o marker n t` — what a node of each kind starts with.
-/

namespace DocumentTree.Markdown

open Text (isBlank)

variable {o : Options} {marker t u : Text} {n : Node} {ns content : List Node} {c : Char}

/-! ## Blank content -/

theorem trim_append_eq_nil_iff : Text.trim (t ++ u) = [] ↔ Text.trim t = [] ∧ Text.trim u = [] := by
  simp only [trim_eq_nil_iff, List.mem_append, or_imp, forall_and]

/-- White space before a text that starts with none is trimmed, and so is what is behind it. -/
theorem trim_append_of_bare {lead t u : Text} (hlead : Text.trim lead = [])
    (hhead : isBare t.head? = true) (hlast : isBare t.getLast? = true) :
    Text.trim (lead ++ t ++ u) = t ++ Text.trimRight u := by
  have hbare : ∀ x : Option Char, isBare x = true → ∀ c, x = some c → isBlank c = false := by
    rintro _ hx c rfl
    simpa [isBare] using hx
  have hleft : Text.trimLeft (lead ++ t ++ u) = t ++ u := by
    rw [Text.trimLeft, List.append_assoc, List.dropWhile_append_of_pos (trim_eq_nil_iff.mp hlead)]
    cases t with
    | nil => cases hhead
    | cons d t =>
      rw [List.cons_append, List.dropWhile_cons_of_neg (by simp [hbare _ hhead d rfl])]
  rw [Text.trim, hleft, Text.trimRight_append t (.inl (hbare _ hlast))]

/-- Marks are put around content that is not blank. -/
theorem trim_wrap_eq_nil_iff {mark : Char} (hmark : isBare (some mark) = true) (width : Nat)
    (t : Text) : Text.trim (wrap (List.replicate (width + 1) mark) t) = [] ↔ Text.trim t = [] := by
  by_cases h : Text.trim t = []
  · rw [wrap_of_trim_eq_nil h]
  · obtain ⟨lead, trail, -, -, -, hwrap⟩ := exists_blanks_around h
    refine iff_of_false (fun hnil => ?_) h
    have hmem : mark ∈ wrap (List.replicate (width + 1) mark) t := by simp [hwrap]
    simp [isBare, trim_eq_nil_iff.mp hnil mark hmem] at hmark

/-- A node is written as white space, or as nothing. -/
def isSilent (o : Options) (marker : Text) (n : Node) : Bool :=
  (Text.trim (fragment o { marker } n).text).isEmpty

theorem trim_text_stressed (m : Stress) (width : Nat) (inner : Text) :
    Text.trim (stressed m (width + 1) inner).text = [] ↔ Text.trim inner = [] :=
  trim_wrap_eq_nil_iff (of_mem_delimiterMarks (stress_mem_delimiterMarks false m)).1 width inner

/-- What is blank stays blank between its neighbours. -/
theorem trim_settled_of_isSilent (h : isSilent o marker n = true) (previous : Option Char)
    (following : Option Fragment) :
    Text.trim ((fragment o { marker } n).settled o previous following) = [] := by
  rw [isSilent, List.isEmpty_iff] at h
  have hstress : ∀ (m : Stress) (width : Nat) (inner : Text),
      Text.trim (stressed m (width + 1) inner).text = [] →
      Text.trim ((stressed m (width + 1) inner).settled o previous following) = [] := by
    intro m width inner hnil
    rw [settled_stressed_eq, trim_wrap_eq_nil_iff
      (of_mem_delimiterMarks (stress_mem_delimiterMarks _ m)).1]
    exact (trim_text_stressed m width inner).mp hnil
  cases n with
  | emphasis content m =>
    rw [fragment] at h ⊢
    exact hstress _ 0 _ h
  | strong content m =>
    rw [fragment] at h ⊢
    exact hstress _ 1 _ h
  | text content m =>
    rw [fragment] at h ⊢
    rcases settled_text_cases o previous (literal o content.toList) following with
      heq | ⟨init, ht, -⟩
    · rwa [heq]
    · rw [ht] at h
      exact absurd (trim_eq_nil_iff.mp h '!' (by simp)) (by decide +kernel)
  | _ =>
    rw [fragment] at h ⊢
    exact h

/-! ## The start of a node -/

/-- Inline content without the white space around it. -/
def core (o : Options) (marker : Text) (content : List Node) : Text :=
  Text.trim (joinFragments o (fragments o marker content))

/-- What a node of each kind starts with, up to a character that is not white space. -/
inductive Opening (o : Options) (marker : Text) : Node → Text → Prop
  | text {content : String} {m : Metadata} {c : Char} :
    isBlank c = false → c ∉ delimiterMarks → Opening o marker (.text content m) [c]
  | emphasis {content : List Node} {m : Metadata} {mark : Char} :
    mark ∈ ['*', '_'] → core o marker content ≠ [] →
    Opening o marker (.emphasis content m) ([mark] ++ core o marker content)
  | strong {content : List Node} {m : Metadata} {mark : Char} :
    mark ∈ ['*', '_'] → core o marker content ≠ [] →
    Opening o marker (.strong content m) ([mark, mark] ++ core o marker content)
  | strikethrough {content : List Node} {m : Metadata} :
    core o marker content ≠ [] →
    Opening o marker (.strikethrough content m) (['~', '~'] ++ core o marker content)
  | code {content : String} {m : Metadata} :
    content.toList ≠ [] → Opening o marker (.code content m) (codeSpan content.toList)
  | link {url : String} {content : List Node} {title : Option String} {m : Metadata} :
    Opening o marker (.link url content title m) ['[']
  | image {url alternative : String} {title : Option String} {m : Metadata} :
    Opening o marker (.image url alternative title m) ['!']

theorem Opening.isBare_ends (h : Opening o marker n t) :
    isBare t.head? = true ∧ isBare t.getLast? = true := by
  have hstyled : ∀ (mark : Char) (marks : Text) (content : List Node), mark ∈ delimiterMarks →
      core o marker content ≠ [] → isBare (mark :: marks ++ core o marker content).head? = true ∧
        isBare (mark :: marks ++ core o marker content).getLast? = true := by
    intro mark marks content hmark hcore
    rw [List.getLast?_append_of_ne_nil _ hcore]
    exact ⟨(of_mem_delimiterMarks hmark).1, isBare_getLast?_trim hcore⟩
  cases h with
  | text hc => simp [isBare, hc]
  | emphasis hmark hcore => exact hstyled _ [] _ (stress_subset_delimiterMarks hmark) hcore
  | @strong _ _ mark hmark hcore =>
    exact hstyled _ [mark] _ (stress_subset_delimiterMarks hmark) hcore
  | strikethrough hcore => exact hstyled '~' ['~'] _ (by decide) hcore
  | code hcontent =>
    obtain ⟨hhead, hlast⟩ := ends_of_codeSpan hcontent
    rw [hhead, hlast]
    decide +kernel
  | link | image => decide +kernel

/-- A delimiter at the start is one of the node. -/
theorem Opening.mem_delimiterChars (h : Opening o marker n t) (hc : t.head? = some c)
    (hmark : c ∈ delimiterMarks) : c ∈ delimiterChars n := by
  cases h with
  | text _ hnot =>
    obtain rfl := Option.some.inj hc
    exact absurd hmark hnot
  | emphasis hstress | strong hstress =>
    obtain rfl := Option.some.inj hc
    exact hstress
  | strikethrough =>
    obtain rfl := Option.some.inj hc
    exact List.mem_singleton_self _
  | code hcontent =>
    rw [(ends_of_codeSpan hcontent).1] at hc
    obtain rfl := Option.some.inj hc
    exact List.mem_singleton_self _
  | link | image =>
    obtain rfl := Option.some.inj hc
    exact absurd hmark (by decide)

/-- Text that is not blank starts with a first character behind white space. -/
theorem exists_first_of_trim (h : Text.trim t ≠ []) :
    ∃ lead c rest, t = lead ++ c :: rest ∧ Text.trim lead = [] ∧ isBlank c = false ∧
      Text.trimLeft t = c :: rest := by
  obtain ⟨c, rest, hrest⟩ : ∃ c rest, Text.trimLeft t = c :: rest := by
    refine List.exists_cons_of_ne_nil fun hnil => h ?_
    rw [Text.trim, hnil]
    rfl
  refine ⟨Text.leadingBlanks t, c, rest, ?_, trim_eq_nil_iff.mpr fun d hd =>
    List.mem_takeWhile_imp hd, ?_, hrest⟩
  · rw [← hrest]
    exact List.takeWhile_append_dropWhile.symm
  · have hnot := List.head?_dropWhile_not isBlank t
    rw [← Text.trimLeft, hrest] at hnot
    exact hnot

/-- Escaped text starts with no delimiter behind its white space, also where its end is adjusted. -/
theorem exists_opening_of_text (h : Text.trim (escapeText t) ≠ []) (previous : Option Char)
    (following : Option Fragment) :
    ∃ lead c rest,
      (⟨escapeText t, .text⟩ : Fragment).settled o previous following = lead ++ [c] ++ rest ∧
      Text.trim lead = [] ∧ isBlank c = false ∧ c ∉ delimiterMarks := by
  obtain ⟨lead, c, rest, htext, hlead, hblank, hrest⟩ := exists_first_of_trim h
  have hmark : c ∉ delimiterMarks := by
    rw [trimLeft_escapeText] at hrest
    exact head?_escapeText_not_mem (congrArg List.head? hrest)
  rcases settled_text_cases o previous (escapeText t) following with heq | ⟨init, hinit, heq⟩
  · exact ⟨lead, c, rest, by rw [heq, htext]; simp, hlead, hblank, hmark⟩
  · rw [heq]
    rw [hinit] at htext
    cases rest using List.reverseRecOn with
    | nil =>
      obtain ⟨rfl, -⟩ := List.append_inj' htext rfl
      exact ⟨init, '\\', ['!'], by simp, hlead, by decide +kernel, by decide⟩
    | append_singleton rest d =>
      rw [← List.cons_append, ← List.append_assoc] at htext
      obtain ⟨rfl, -⟩ := List.append_inj' htext rfl
      exact ⟨lead, c, rest ++ ['\\', '!'], by simp, hlead, hblank, hmark⟩

theorem exists_marks_of_wrap (marks : Text) (h : core o marker content ≠ []) :
    ∃ lead rest, wrap marks (joinFragments o (fragments o marker content)) =
      lead ++ (marks ++ core o marker content) ++ rest ∧ Text.trim lead = [] := by
  obtain ⟨lead, trail, hlead, -, -, hwrap⟩ := exists_blanks_around h
  exact ⟨lead, marks ++ trail, by rw [hwrap, core]; simp, trim_eq_nil_iff.mpr hlead⟩

/-- **A node that is not blank shows what it is** behind the white space it starts with. -/
theorem exists_opening (hescape : o.escapeSpecial = true) (hinline : n.isInline = true)
    (h : isSilent o marker n = false) (previous : Option Char) (following : Option Fragment) :
    ∃ lead opening rest,
      (fragment o { marker } n).settled o previous following = lead ++ opening ++ rest ∧
      Text.trim lead = [] ∧ Opening o marker n opening := by
  rw [isSilent, List.isEmpty_eq_false_iff] at h
  cases n with
  | text content m =>
    rw [fragment, literal, if_pos hescape] at h ⊢
    obtain ⟨lead, c, rest, heq, hlead, hblank, hmark⟩ :=
      exists_opening_of_text h previous following
    exact ⟨lead, [c], rest, heq, hlead, .text hblank hmark⟩
  | code content m =>
    rw [fragment] at h ⊢
    refine ⟨[], codeSpan content.toList, [], (List.append_nil _).symm, rfl, .code ?_⟩
    intro hnil
    rw [hnil, codeSpan_nil] at h
    exact h rfl
  | link => exact ⟨[], ['['], _, by rw [fragment]; rfl, rfl, .link⟩
  | image => exact ⟨[], ['!'], _, by rw [fragment]; rfl, rfl, .image⟩
  | emphasis content m =>
    rw [fragment] at h ⊢
    have hcore : core o marker content ≠ [] := mt (trim_text_stressed _ 0 _).mpr h
    rw [settled_stressed_eq]
    obtain ⟨lead, rest, heq, hlead⟩ := exists_marks_of_wrap _ hcore
    exact ⟨lead, _, rest, heq, hlead, .emphasis (stress_mem _ _) hcore⟩
  | strong content m =>
    rw [fragment] at h ⊢
    have hcore : core o marker content ≠ [] := mt (trim_text_stressed _ 1 _).mpr h
    rw [settled_stressed_eq]
    obtain ⟨lead, rest, heq, hlead⟩ := exists_marks_of_wrap _ hcore
    exact ⟨lead, _, rest, heq, hlead, .strong (stress_mem _ _) hcore⟩
  | strikethrough content m =>
    rw [fragment] at h ⊢
    have hcore : core o marker content ≠ [] :=
      mt (trim_wrap_eq_nil_iff (by decide +kernel) 1 _).mpr h
    obtain ⟨lead, rest, heq, hlead⟩ := exists_marks_of_wrap ['~', '~'] hcore
    exact ⟨lead, _, rest, heq, hlead, .strikethrough hcore⟩
  | _ => cases hinline

/-! ## The start of content -/

/-- The first node that is not written as white space. -/
def leader (o : Options) (marker : Text) (ns : List Node) : Option Node :=
  ns.find? fun n => !isSilent o marker n

/-- Silent nodes leave white space. -/
theorem trim_flatten_of_isSilent {ts : List Text} (hns : ∀ n ∈ ns, isSilent o marker n = true)
    (h : ∀ t ∈ ts, ∃ f ∈ (ns.map (fragment o { marker })).filter fun f => !f.text.isEmpty,
      ∃ p q, t = f.settled o p q) : Text.trim ts.flatten = [] := by
  rw [trim_eq_nil_iff]
  intro c hc
  obtain ⟨t, ht, hct⟩ := List.mem_flatten.mp hc
  obtain ⟨f, hf, p, q, rfl⟩ := h t ht
  obtain ⟨n, hn, rfl⟩ := List.mem_map.mp (List.mem_of_mem_filter hf)
  exact trim_eq_nil_iff.mp (trim_settled_of_isSilent (hns n hn) p q) c hct

theorem core_of_leader_eq_none (h : leader o marker ns = none) : core o marker ns = [] := by
  rw [leader, List.find?_eq_none] at h
  rw [core, joinFragments, fragments_eq_map]
  exact trim_flatten_of_isSilent (by simpa using h) fun t ht => mem_settle ht

/-- **Content starts as its leader does.** -/
theorem exists_core_of_leader (hescape : o.escapeSpecial = true)
    (hinline : ∀ n ∈ ns, n.isInline = true) (h : leader o marker ns = some n) :
    ∃ opening rest, core o marker ns = opening ++ rest ∧ Opening o marker n opening := by
  obtain ⟨hn, before, after, rfl, hbefore⟩ := List.find?_eq_some_iff_append.mp h
  have hloud : isSilent o marker n = false := by simpa using hn
  have hvisible : (fragment o { marker } n).text ≠ [] := by
    intro hnil
    rw [isSilent, hnil] at hloud
    cases hloud
  let following := (after.map (fragment o { marker })).filter fun f => !f.text.isEmpty
  obtain ⟨ts, -, hts, hsettle⟩ := exists_settle_append o none
    ((before.map (fragment o { marker })).filter fun f => !f.text.isEmpty)
    (fragment o { marker } n) following
  obtain ⟨lead, opening, rest, heq, hlead, hopening⟩ :=
    exists_opening hescape (hinline n (by simp)) hloud (lastChar none ts) following.head?
  -- What the silent nodes leave is trimmed together with the white space of the leader itself.
  have hblank : Text.trim (ts.flatten ++ lead) = [] :=
    trim_append_eq_nil_iff.mpr ⟨trim_flatten_of_isSilent (by simpa using hbefore) hts, hlead⟩
  obtain ⟨hhead, hlast⟩ := hopening.isBare_ends
  rw [settle, heq] at hsettle
  let behind := (settle o (lead ++ opening ++ rest).getLast? following).flatten
  refine ⟨opening, Text.trimRight (rest ++ behind), ?_, hopening⟩
  rw [core, joinFragments, fragments_eq_map, List.map_append, List.map_cons, List.filter_append,
    List.filter_cons_of_pos (by simpa using hvisible), hsettle, List.flatten_append,
    List.flatten_cons, ← trim_append_of_bare hblank hhead hlast]
  simp only [List.append_assoc, behind]

end DocumentTree.Markdown
