import DocumentTree.Proofs.Document.Rules
import DocumentTree.Proofs.Markdown.CarriageReturns
import DocumentTree.Proofs.Markdown.Documents

/-!
# Where an option acts

Each setting is about one kind of node: the mark of emphasis is about emphasis, the character of
fences about code, and so on. But how a node is written also depends on the nodes around it, which
are written under the same options: a block is set off from its predecessor, an item takes the
marker of its list, and a fragment is adjusted to its neighbours. Through all of this no setting
reaches further than the nodes of its kind: under options that agree on the settings for all nodes
in a document, the document is written alike.

## Main definitions

* `Field.governs` — the nodes that a setting is about.
* `Options.AgreesOn` — two options have the same settings for a node.
* `SameAround` — the surroundings of a node are the same under two options, as far as they matter.
* `WrittenAlike` — a node is written alike under two options wherever that is so.
-/

namespace DocumentTree

/-! ## What holds of all nodes in a node -/

namespace Node

theorem Contains.trans {n m k : Node} (hnm : n.Contains m) (hmk : m.Contains k) : n.Contains k := by
  induction hnm with
  | self => exact hmk
  | inside hchild _ ih => exact .inside hchild (ih hmk)

/-- What holds of a node and of all nodes in its children holds of all nodes in it. -/
theorem forall_contains {n : Node} {P : Node → Prop} (self : P n)
    (below : ∀ child ∈ n.children, ∀ m, child.Contains m → P m) : ∀ m, n.Contains m → P m := by
  intro m hm
  cases hm with
  | self => exact self
  | inside hchild hm => exact below _ hchild m hm

/-- What holds of a node as soon as it holds of all nodes below it holds of all nodes. -/
theorem forall_of_below {P : Node → Prop}
    (step : ∀ n, (∀ child ∈ n.children, ∀ m, child.Contains m → P m) → P n) (n : Node) : P n := by
  have hall : ∀ m, n.Contains m → P m := by
    induction n using forall_of_children with
    | step n ih => exact forall_contains (step n ih) ih
  exact hall n (.self n)

end Node

namespace Markdown

/-! ## Settings and their nodes -/

theorem Bullet.char_inj {a b : Bullet} : a.char = b.char ↔ a = b := by
  cases a <;> cases b <;> decide

theorem ListIndent.name_inj {a b : ListIndent} : a.name = b.name ↔ a = b := by
  cases a <;> cases b <;> decide

theorem Rule.char_inj {a b : Rule} : a.char = b.char ↔ a = b := by
  cases a <;> cases b <;> decide

theorem Stress.char_inj {a b : Stress} : a.char = b.char ↔ a = b := by
  cases a <;> cases b <;> decide

theorem Fence.char_inj {a b : Fence} : a.char = b.char ↔ a = b := by
  cases a <;> cases b <;> decide

/-- Whether a setting is about a node. -/
def Field.governs : Field → Node → Bool
  | .bulletMarker, .list ordered .. => !ordered
  | .listIndent, .list .. => true
  | .ruleStyle, .thematicBreak _ => true
  | .useFences, .codeBlock .. => true
  | .codeFenceChar, .codeBlock .. => true
  | .emphasisMarker, .emphasis .. => true
  | .strongMarker, .strong .. => true
  | .escapeSpecial, .text .. => true
  | .escapeSpecial, .paragraph .. => true
  | .tablePipeEscape, .table .. => true
  | _, _ => false

namespace Options

variable {o o' : Options} {n : Node}

/-- Two options have the same setting. -/
def SameSetting (o o' : Options) : Field → Prop
  | .bulletMarker => o.bulletMarker = o'.bulletMarker
  | .listIndent => o.listIndent = o'.listIndent
  | .ruleStyle => o.ruleStyle = o'.ruleStyle
  | .useFences => o.useFences = o'.useFences
  | .emphasisMarker => o.emphasisMarker = o'.emphasisMarker
  | .strongMarker => o.strongMarker = o'.strongMarker
  | .codeFenceChar => o.codeFenceChar = o'.codeFenceChar
  | .escapeSpecial => o.escapeSpecial = o'.escapeSpecial
  | .tablePipeEscape => o.tablePipeEscape = o'.tablePipeEscape

/-- A setting is determined by its value. -/
theorem sameSetting_of_field_eq {f : Field} (h : o.field f = o'.field f) : o.SameSetting o' f := by
  cases f <;>
    simpa [field, SameSetting, Bullet.char_inj, ListIndent.name_inj, Rule.char_inj,
      Stress.char_inj, Fence.char_inj] using h

/-- Two options have the same settings for a node. -/
def AgreesOn (o o' : Options) (n : Node) : Prop :=
  ∀ f : Field, f.governs n = true → o.field f = o'.field f

theorem AgreesOn.same (h : o.AgreesOn o' n) (f : Field) (hf : f.governs n = true) :
    o.SameSetting o' f :=
  sameSetting_of_field_eq (h f hf)

end Options

section

variable {o o' : Options} {n : Node}

/-! ## The parts that read options -/

/-- A fragment is adjusted to its neighbours alike unless it is a text that is escaped or not. -/
theorem settled_congr {f : Fragment} (h : f.kind = .text → o.escapeSpecial = o'.escapeSpecial)
    (previous : Option Char) (following : Option Fragment) :
    f.settled o previous following = f.settled o' previous following := by
  unfold Fragment.settled
  cases hkind : f.kind with
  | text => simp only [h hkind]
  | _ => rfl

theorem settle_congr {fs : List Fragment}
    (h : ∀ f ∈ fs, f.kind = .text → o.escapeSpecial = o'.escapeSpecial) (previous : Option Char) :
    settle o previous fs = settle o' previous fs := by
  induction fs generalizing previous with
  | nil => rfl
  | cons f fs ih =>
    rw [List.forall_mem_cons] at h
    simp only [settle]
    rw [settled_congr h.1, ih h.2]

theorem joinFragments_congr {fs : List Fragment}
    (h : ∀ f ∈ fs, f.kind = .text → o.escapeSpecial = o'.escapeSpecial) :
    joinFragments o fs = joinFragments o' fs := by
  rw [joinFragments, joinFragments, settle_congr fun f hf => h f (List.mem_of_mem_filter hf)]

theorem isIndentedCode_congr (h : o.AgreesOn o' n) : isIndentedCode o n = isIndentedCode o' n := by
  cases n with
  | codeBlock content language metadata =>
    have hfences : o.useFences = o'.useFences := h.same .useFences rfl
    simp only [isIndentedCode, hfences]
  | _ => rfl

theorem separator_congr (h : o.AgreesOn o' n) (inItem : Bool) (previous : Option Predecessor) :
    separator o inItem previous n = separator o' inItem previous n := by
  have hneeds : needsBlankLine o n = needsBlankLine o' n := by
    unfold needsBlankLine
    split
    · rfl
    · rfl
    · exact isIndentedCode_congr h
  unfold separator
  rw [hneeds]

theorem markerText_congr (h : o.listIndent = o'.listIndent) (marker : Text) :
    markerText o marker = markerText o' marker := by
  unfold markerText
  rw [h]

/-- The markers of a list are the same under options that agree on it. -/
theorem listMarker_congr {ordered : Bool} {nodes : List Node} {start : Int} {metadata : Metadata}
    (h : o.AgreesOn o' (.list ordered nodes start metadata)) (alternate : Bool) (number : Int) :
    listMarker o ordered alternate number = listMarker o' ordered alternate number := by
  cases ordered with
  | true => rfl
  | false =>
    have hbullet : o.bulletMarker = o'.bulletMarker := h.same .bulletMarker rfl
    simp only [listMarker, alternateBullet, hbullet]

theorem codeBlock_congr {content : String} {language : Option String} {metadata : Metadata}
    (h : o.AgreesOn o' (.codeBlock content language metadata)) {p p' : Placement}
    (hp : p.fenced = p'.fenced) :
    codeBlock o p (.codeBlock content language metadata) content language =
      codeBlock o' p' (.codeBlock content language metadata) content language := by
  have hfence : o.codeFenceChar = o'.codeFenceChar := h.same .codeFenceChar rfl
  unfold codeBlock
  rw [isIndentedCode_congr h, hp]
  simp only [fencedCode, fenceChar, hfence]

theorem cellContent_congr (h : o.tablePipeEscape = o'.tablePipeEscape) (content : Text) :
    cellContent o content = cellContent o' content := by
  unfold cellContent
  rw [h]

theorem item_congr {marker marker' : Text} (h : markerText o marker = markerText o' marker')
    (status : Option String) (body : Text) :
    item o marker status body = item o' marker' status body := by
  unfold item
  rw [h]

/-! ## Surroundings -/

/-- The surroundings of a node are the same under two options, as far as they matter: to lists and
code the form that their predecessor gives them, to an item its marker with its spacing, to rows and
cells whether pipes are escaped. -/
structure SameAround (o o' : Options) (p p' : Placement) (n : Node) : Prop where
  /-- A list takes the same of the two markers. -/
  alternate : p.alternate = p'.alternate
  /-- Code is fenced, whatever the options say, in both or in none. -/
  fenced : p.fenced = p'.fenced
  /-- An item has the same marker. -/
  marker : n.isItem = true → markerText o p.marker = markerText o' p'.marker
  /-- Pipes in a row or cell are escaped in both or in none. -/
  pipes : n.isRow = true ∨ n.isCell = true → o.tablePipeEscape = o'.tablePipeEscape

/-- A node is written alike under two options wherever its surroundings are the same. -/
def WrittenAlike (o o' : Options) (n : Node) : Prop :=
  ∀ p p' : Placement, SameAround o o' p p' n → fragment o p n = fragment o' p' n

/-- Outside lists and tables, markers and pipes do not matter. -/
theorem sameAround_of_plain (h : n.isBlock = true ∨ n.isInline = true) {p p' : Placement}
    (halternate : p.alternate = p'.alternate) (hfenced : p.fenced = p'.fenced) :
    SameAround o o' p p' n where
  alternate := halternate
  fenced := hfenced
  marker hitem := by
    cases n with
    | listItem => simp [Node.isBlock, Node.isInline] at h
    | _ => cases hitem
  pipes hpart := by
    cases n with
    | tableRow | tableCell => simp [Node.isBlock, Node.isInline] at h
    | _ => simp [Node.isRow, Node.isCell] at hpart

theorem sameAround_placementAfter (hblock : n.isBlock = true) (h : o.AgreesOn o' n)
    (marker marker' : Text) (previous : Option Predecessor) :
    SameAround o o' (placementAfter o marker previous n) (placementAfter o' marker' previous n)
      n := by
  apply sameAround_of_plain (.inl hblock)
  · unfold placementAfter
    split
    · split <;> rfl
    · rfl
  · unfold placementAfter
    split
    · split
      · rfl
      · exact isIndentedCode_congr h
    · rfl

/-! ## Siblings -/

theorem fragments_congr {ns : List Node} (h : ∀ n ∈ ns, WrittenAlike o o' n)
    (hinline : ∀ n ∈ ns, n.isInline = true) (marker marker' : Text) :
    fragments o marker ns = fragments o' marker' ns := by
  induction ns with
  | nil => rfl
  | cons n ns ih =>
    rw [List.forall_mem_cons] at h hinline
    have haround : SameAround o o' { marker } { marker := marker' } n :=
      sameAround_of_plain (.inr hinline.1) rfl rfl
    rw [fragments, fragments, h.1 _ _ haround, ih h.2 hinline.2]

/-- Only a text is a text among fragments. -/
theorem exists_text_of_kind {p : Placement} (h : (fragment o p n).kind = .text) :
    ∃ content metadata, n = .text content metadata := by
  cases n <;> simp [fragment, stressed] at h ⊢

/-- Inline content is written alike. -/
theorem content_congr {ns : List Node} (h : ∀ n ∈ ns, WrittenAlike o o' n)
    (hon : ∀ n ∈ ns, o.AgreesOn o' n) (hinline : ∀ n ∈ ns, n.isInline = true)
    (marker marker' : Text) :
    joinFragments o (fragments o marker ns) = joinFragments o' (fragments o' marker' ns) := by
  rw [← fragments_congr h hinline marker marker']
  -- joining reads an option at texts only, and for each text the options agree on it
  apply joinFragments_congr
  clear h hinline
  induction ns with
  | nil => simp [fragments]
  | cons n ns ih =>
    rw [List.forall_mem_cons] at hon
    rw [fragments, List.forall_mem_cons]
    refine ⟨fun hkind => ?_, ih hon.2⟩
    obtain ⟨content, metadata, rfl⟩ := exists_text_of_kind hkind
    exact hon.1.same .escapeSpecial rfl

theorem blocksAfter_congr {ns : List Node} (h : ∀ n ∈ ns, WrittenAlike o o' n)
    (hon : ∀ n ∈ ns, o.AgreesOn o' n) (hblocks : ∀ n ∈ ns, n.isBlock = true)
    (marker marker' : Text) (inItem : Bool) (previous : Option Predecessor) :
    blocksAfter o marker inItem previous ns = blocksAfter o' marker' inItem previous ns := by
  induction ns generalizing previous with
  | nil => rfl
  | cons n ns ih =>
    rw [List.forall_mem_cons] at h hon hblocks
    have hplacement := sameAround_placementAfter hblocks.1 hon.1 marker marker' previous
    simp only [blocksAfter]
    rw [h.1 _ _ hplacement, separator_congr hon.1, hplacement.alternate, ih h.2 hon.2 hblocks.2,
      ih h.2 hon.2 hblocks.2]

theorem items_congr {ns : List Node} (h : ∀ n ∈ ns, WrittenAlike o o' n)
    (hitems : ∀ n ∈ ns, n.isItem = true) {ordered alternate : Bool}
    (hmarker : ∀ number, markerText o (listMarker o ordered alternate number) =
      markerText o' (listMarker o' ordered alternate number)) (number : Int) :
    items o ordered alternate number ns = items o' ordered alternate number ns := by
  induction ns generalizing number with
  | nil => rfl
  | cons n ns ih =>
    rw [List.forall_mem_cons] at h hitems
    have haround : SameAround o o' { marker := listMarker o ordered alternate number }
        { marker := listMarker o' ordered alternate number } n := by
      refine ⟨rfl, rfl, fun _ => hmarker number, fun hpart => ?_⟩
      cases n with
      | listItem => simp [Node.isRow, Node.isCell] at hpart
      | _ => cases hitems.1
    rw [items, items, h.1 _ _ haround, ih h.2 hitems.2]

theorem cells_congr {ns : List Node} (h : ∀ n ∈ ns, WrittenAlike o o' n)
    (hcells : ∀ n ∈ ns, n.isCell = true) (hpipes : o.tablePipeEscape = o'.tablePipeEscape)
    (marker marker' : Text) : cells o marker ns = cells o' marker' ns := by
  induction ns with
  | nil => rfl
  | cons n ns ih =>
    rw [List.forall_mem_cons] at h hcells
    have haround : SameAround o o' { marker } { marker := marker' } n := by
      refine ⟨rfl, rfl, fun hitem => ?_, fun _ => hpipes⟩
      cases n with
      | tableCell => cases hitem
      | _ => cases hcells.1
    have htext := h.1 _ _ haround
    rw [cells, cells, ih h.2 hcells.2]
    cases n with
    | tableCell content alignment header metadata =>
      simp only [fragment, Fragment.mk.injEq, and_true] at htext
      rw [cell, cell, htext]
    | _ => cases hcells.1

/-- The texts of rows would not tell that their cells are alike, so this is about the cells. -/
theorem rows_congr {ns : List Node}
    (h : ∀ n ∈ ns, ∀ m ∈ n.children, WrittenAlike o o' m)
    (hrows : ∀ n ∈ ns, n.isRow = true) (hcells : ∀ n ∈ ns, ∀ m ∈ n.children, m.isCell = true)
    (hpipes : o.tablePipeEscape = o'.tablePipeEscape) (marker marker' : Text) :
    rows o marker ns = rows o' marker' ns := by
  induction ns with
  | nil => rfl
  | cons n ns ih =>
    rw [List.forall_mem_cons] at h hrows hcells
    cases n with
    | tableRow nodes metadata =>
      have hrow : cells o marker nodes = cells o' marker' nodes :=
        cells_congr h.1 hcells.1 hpipes marker marker'
      rw [rows, rows, hrow, ih h.2 hrows.2 hcells.2]
    | _ => cases hrows.1

/-! ## The walk -/

/-- Two options agree on all nodes in a node. -/
def Options.AgreesIn (o o' : Options) (n : Node) : Prop :=
  ∀ m, n.Contains m → o.AgreesOn o' m

theorem Options.AgreesIn.of_contains (h : o.AgreesIn o' n) {m : Node} (hm : n.Contains m) :
    o.AgreesIn o' m :=
  fun k hk => h k (hm.trans hk)

theorem Options.AgreesIn.children (h : o.AgreesIn o' n) : ∀ m ∈ n.children, o.AgreesOn o' m :=
  fun m hm => h m (.inside hm (.self m))

/-- A table of the grammar has rows, which have cells. -/
theorem rows_and_cells {nodes : List Node} {metadata : Metadata}
    (h : (Node.table nodes metadata).Grammatical) :
    (∀ row ∈ nodes, row.isRow = true) ∧
      ∀ row ∈ nodes, ∀ cell ∈ row.children, cell.isCell = true := by
  rw [Node.Grammatical, Node.allGrammatical_iff] at h
  refine ⟨h.1, fun row hrow => ?_⟩
  have hgrammar := h.2 row hrow
  cases row with
  | tableRow cells metadata =>
    rw [Node.Grammatical] at hgrammar
    exact hgrammar.1
  | _ => cases h.1 _ hrow

/-- **A node is written alike if all nodes below it are.** What is left is its own kind. -/
theorem writtenAlike_of_below (hn : n.Grammatical) (hagree : o.AgreesIn o' n)
    (h : ∀ child ∈ n.children, ∀ m, child.Contains m → WrittenAlike o o' m) :
    WrittenAlike o o' n := by
  intro p p' haround
  have hself : o.AgreesOn o' n := hagree n (.self n)
  have hkids : ∀ child ∈ n.children, WrittenAlike o o' child :=
    fun child hchild => h child hchild child (.self child)
  have hcontent : ∀ content, n.children = content → (∀ m ∈ content, m.isInline = true) →
      joinFragments o (fragments o p.marker content) =
        joinFragments o' (fragments o' p'.marker content) := by
    rintro _ rfl hinline
    exact content_congr hkids hagree.children hinline p.marker p'.marker
  have hblocks : ∀ children, n.children = children → (∀ m ∈ children, m.isBlock = true) →
      ∀ inItem, blocksAfter o p.marker inItem none children =
        blocksAfter o' p'.marker inItem none children := by
    rintro _ rfl hblock inItem
    exact blocksAfter_congr hkids hagree.children hblock p.marker p'.marker inItem none
  cases n with
  | document children _ | blockQuote children _ =>
    rw [Node.Grammatical] at hn
    simp only [fragment, hblocks children rfl hn.1]
  | heading _ content _ | strikethrough content _ | link _ content _ _ =>
    rw [Node.Grammatical] at hn
    simp only [fragment, hcontent content rfl fun m hm => (hn.1 m hm).1]
  | emphasis content _ =>
    rw [Node.Grammatical] at hn
    have hmark : o.emphasisMarker = o'.emphasisMarker := hself.same .emphasisMarker rfl
    simp only [fragment, hcontent content rfl fun m hm => (hn.1 m hm).1, hmark]
  | strong content _ =>
    rw [Node.Grammatical] at hn
    have hmark : o.strongMarker = o'.strongMarker := hself.same .strongMarker rfl
    simp only [fragment, hcontent content rfl fun m hm => (hn.1 m hm).1, hmark]
  | paragraph content _ =>
    rw [Node.Grammatical] at hn
    have hescape : o.escapeSpecial = o'.escapeSpecial := hself.same .escapeSpecial rfl
    simp only [fragment, paragraph, hcontent content rfl hn.1.1, hescape]
  | list ordered nodes start _ =>
    rw [Node.Grammatical] at hn
    have hindent : o.listIndent = o'.listIndent := hself.same .listIndent rfl
    have hitems : ∀ alternate,
        items o ordered alternate start nodes = items o' ordered alternate start nodes := by
      refine fun alternate => items_congr hkids hn.2.1 (fun number => ?_) start
      rw [listMarker_congr hself, markerText_congr hindent]
    simp only [fragment, hitems, haround.alternate]
  | listItem children _ _ =>
    rw [Node.Grammatical] at hn
    simp only [fragment, hblocks children rfl hn.2.1, item_congr (haround.marker rfl)]
  | table nodes _ =>
    have hrows : rows o p.marker nodes = rows o' p'.marker nodes := by
      obtain ⟨hrows, hcells⟩ := rows_and_cells hn
      refine rows_congr (fun row hrow cell hcell => ?_) hrows hcells
        (hself.same .tablePipeEscape rfl) p.marker p'.marker
      exact h row hrow cell (.inside hcell (.self cell))
    simp only [fragment, hrows]
  | tableRow nodes _ =>
    rw [Node.Grammatical] at hn
    have hcells : cells o p.marker nodes = cells o' p'.marker nodes :=
      cells_congr hkids hn.1 (haround.pipes (.inl rfl)) p.marker p'.marker
    simp only [fragment, hcells]
  | tableCell content _ _ _ =>
    rw [Node.Grammatical] at hn
    simp only [fragment, hcontent content rfl fun m hm => (hn.2.1 m hm).1,
      cellContent_congr (haround.pipes (.inr rfl))]
  | codeBlock => simp only [fragment, codeBlock_congr hself haround.fenced]
  | thematicBreak _ =>
    have hrule : o.ruleStyle = o'.ruleStyle := hself.same .ruleStyle rfl
    simp only [fragment, hrule]
  | text _ _ =>
    have hescape : o.escapeSpecial = o'.escapeSpecial := hself.same .escapeSpecial rfl
    simp only [fragment, literal, hescape]
  | code | image => rfl

/-- **A grammatical node is written alike under options that agree on all nodes in it.** -/
theorem writtenAlike (n : Node) : n.Grammatical → o.AgreesIn o' n → WrittenAlike o o' n := by
  induction n using Node.forall_of_below with
  | step n ih =>
    intro hn hagree
    refine writtenAlike_of_below hn hagree fun child hchild m hm => ?_
    have hbelow : n.Contains m := .inside hchild hm
    exact ih child hchild m hm (hbelow.grammatical hn) (hagree.of_contains hbelow)

/-- A document is written as the same text under such options. -/
theorem render_document_congr {children : List Node} {metadata : Metadata}
    (hn : (Node.document children metadata).Grammatical)
    (hagree : o.AgreesIn o' (.document children metadata)) :
    render o (.document children metadata) = render o' (.document children metadata) := by
  have haround : SameAround o o' { marker := [o.bulletMarker.char] }
      { marker := [o'.bulletMarker.char] } (.document children metadata) :=
    ⟨rfl, rfl, nofun, by simp [Node.isRow, Node.isCell]⟩
  rw [render, render, body, body, writtenAlike _ hn hagree _ _ haround]

end

/-- **An option acts only where it belongs.** A document without problems is written under any
options, and under two options that differ in one setting at most it is written as the same text if
the document contains no node that the setting is about. -/
theorem option_acts_on_its_nodes (children : List Node) (metadata : Metadata)
    (hproblems : (Node.document children metadata).problems = []) (field : Field) (o o' : Options)
    (hothers : ∀ f, f ≠ field → o.field f = o'.field f)
    (habsent : ∀ n, (Node.document children metadata).Contains n → field.governs n = false) :
    ∃ t, write? o (.document children metadata) = some t ∧
      write? o' (.document children metadata) = some t := by
  have hagree : o.AgreesIn o' (.document children metadata) := by
    intro n hn f hf
    refine hothers f fun heq => ?_
    rw [heq, habsent n hn] at hf
    cases hf
  have hgrammar := (Node.problems_eq_nil_iff _).mp hproblems
  have hsame := render_document_congr hgrammar hagree
  exact ⟨_, write?_of_problems_eq_nil o hproblems, by
    rw [write?_of_problems_eq_nil o' hproblems, hsame]⟩

/-- A numbered list of one item, with emphasis in it. -/
def numbered : List Node :=
  [.list true [.listItem [.paragraph [.text "a ", .emphasis [.text "b"]]] none] 1]

/-- No bullet stands in a numbered list, so another bullet changes nothing there. -/
theorem bullets_do_not_act_on_numbers :
    ∃ t, write? {} (.document numbered) = some t ∧
      write? { bulletMarker := .star } (.document numbered) = some t := by
  refine option_acts_on_its_nodes numbered [] (by decide +kernel) .bulletMarker {}
    { bulletMarker := .star } ?_ ?_
  · intro f hf
    cases f <;> first | rfl | exact absurd rfl hf
  · have htext : ∀ content metadata m, (Node.text content metadata).Contains m →
        Field.bulletMarker.governs m = false :=
      fun _ _ => Node.forall_contains rfl nofun
    refine Node.forall_contains rfl ?_
    rintro _ (_ | ⟨_, ⟨⟩⟩)
    refine Node.forall_contains rfl ?_
    rintro _ (_ | ⟨_, ⟨⟩⟩)
    refine Node.forall_contains rfl ?_
    rintro _ (_ | ⟨_, ⟨⟩⟩)
    refine Node.forall_contains rfl ?_
    rintro _ (_ | ⟨_, _ | ⟨_, ⟨⟩⟩⟩)
    · exact htext _ _
    · refine Node.forall_contains rfl ?_
      rintro _ (_ | ⟨_, ⟨⟩⟩)
      exact htext _ _

end Markdown

end DocumentTree
