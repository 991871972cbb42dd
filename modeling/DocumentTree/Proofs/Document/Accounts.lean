import DocumentTree.Proofs.Document.Places
import DocumentTree.Proofs.Document.Texts

/-!
# Lowering accounts for the places that it visits

A pass is accounted for by the places that it visits: in their order, the reports that something is
dropped are those of the nodes that their positions do not hold, and the literals of the document
are those of the nodes that are kept. No node is refused at any of them.

The reports are recognised by their wording, which begins with a word that the reports of a wrapped
item, row or cell do not begin with.

## Main definitions

* `LoweringNotice.isDrop` — the reports that something is dropped, by their wording.
* `Node.literals` — the literals of a document, in order.
* `Accounted` — reports and literals that are those of some places.
-/

namespace DocumentTree

/-! ## Reports that something is dropped -/

/-- The report says that something is dropped. -/
def LoweringNotice.isDrop (notice : LoweringNotice) : Bool :=
  "Dropping".toList.isPrefixOf notice.message.toList

/-- A text begins with a word. -/
def BeginsWith (word s : String) : Prop :=
  word.toList <+: s.toList

theorem BeginsWith.append {word s : String} (h : BeginsWith word s) (t : String) :
    BeginsWith word (s ++ t) := by
  rw [BeginsWith, String.toList_append]
  exact h.trans (List.prefix_append _ _)

/-- How a text goes on makes no difference, once the word is over. -/
theorem BeginsWith.not_append {word s : String} (h : ¬ BeginsWith word s)
    (hlength : word.toList.length ≤ s.toList.length) (t u : String) :
    ¬ BeginsWith word (s ++ t ++ u) := by
  rw [BeginsWith, String.toList_append, String.toList_append, List.append_assoc]
  exact fun hbegins =>
    h (List.prefix_of_prefix_length_le hbegins (List.prefix_append _ _) hlength)

theorem LoweringNotice.isDrop_iff {notice : LoweringNotice} :
    notice.isDrop = true ↔ BeginsWith "Dropping" notice.message := by
  rw [isDrop, List.isPrefixOf_iff_prefix, BeginsWith]

/-- What a position does not hold is reported as dropped. -/
theorem Position.isDrop_of_dropped {p : Position} {t : Tree} {notice : LoweringNotice}
    (h : p.dropped t = some notice) : notice.isDrop = true := by
  rw [LoweringNotice.isDrop_iff]
  cases p with
  | block => cases h
  | inline container =>
    obtain rfl := Option.some.inj h
    have hfirst : BeginsWith "Dropping" "Dropping non-inline child " := by simp [BeginsWith]
    exact ((((hfirst.append _).append _).append _).append _).append _
  | item =>
    obtain rfl := Option.some.inj h
    have hfirst : BeginsWith "Dropping" "Dropping non-item child " := by simp [BeginsWith]
    exact (hfirst.append _).append _
  | row =>
    obtain rfl := Option.some.inj h
    have hfirst : BeginsWith "Dropping" "Dropping non-row child " := by simp [BeginsWith]
    exact (hfirst.append _).append _
  | cell =>
    obtain rfl := Option.some.inj h
    have hfirst : BeginsWith "Dropping" "Dropping non-cell child " := by simp [BeginsWith]
    exact (hfirst.append _).append _

/-- What is wrapped is not dropped. -/
theorem LoweringNotice.isDrop_of_stray (handle : Value) :
    (strayItem handle).isDrop = false ∧ (strayRow handle).isDrop = false ∧
      (strayCell handle).isDrop = false := by
  have hitem : ¬ BeginsWith "Dropping" "List item " := by simp [BeginsWith]
  have hrow : ¬ BeginsWith "Dropping" "Table row " := by simp [BeginsWith]
  have hcell : ¬ BeginsWith "Dropping" "Table cell " := by simp [BeginsWith]
  simp only [← Bool.not_eq_true, isDrop_iff]
  exact ⟨BeginsWith.not_append hitem (by simp) _ _, BeginsWith.not_append hrow (by simp) _ _,
    BeginsWith.not_append hcell (by simp) _ _⟩

/-! ## Literals of documents -/

namespace Node

mutual

/-- The literals of a document, in order. -/
def literals : Node → List Literal
  | text content _ => [.text content]
  | code content _ => [.code content]
  | codeBlock content _ _ => [.codeBlock content]
  | document children _ | heading _ children _ | paragraph children _ | blockQuote children _
  | list _ children _ _ | listItem children _ _ | table children _ | tableRow children _
  | tableCell children _ _ _ | emphasis children _ | strong children _ | strikethrough children _
  | link _ children _ _ => literalsAll children
  | thematicBreak _ | image .. => []

/-- The literals of documents, in order. -/
def literalsAll : List Node → List Literal
  | [] => []
  | n :: ns => literals n ++ literalsAll ns

end

theorem literalsAll_eq_flatMap (ns : List Node) : literalsAll ns = ns.flatMap literals := by
  induction ns with
  | nil => rfl
  | cons n ns ih => rw [literalsAll, ih, List.flatMap_cons]

@[simp] theorem literalsAll_singleton (n : Node) : literalsAll [n] = n.literals := by
  simp [literalsAll]

end Node

theorem Node.literals_synthesized (run : List Node) :
    (paragraph run synthesized).literals = run.flatMap literals := by
  rw [literals, literalsAll_eq_flatMap]

/-- Grouping siblings into paragraphs keeps all literals in order. -/
theorem literalsAll_group (pieces : List Piece) :
    Node.literalsAll (group pieces) = pieces.flatMap fun p => p.node.literals := by
  rw [Node.literalsAll_eq_flatMap, flatMap_group Node.literals_synthesized]

/-! ## What a pass accounts for -/

/-- The reports and the literals are those of the places, and nothing is refused at a place. -/
structure Accounted (places : List Place) (notices : List LoweringNotice)
    (literals : List Literal) : Prop where
  /-- The reports that something is dropped are those of the nodes that are dropped. -/
  drops : notices.filter LoweringNotice.isDrop = places.filterMap Place.notice?
  /-- The literals are those of the nodes that are kept. -/
  literals_eq : literals = places.filterMap Place.literal?
  /-- No node is refused for its role. -/
  accepted : ∀ place ∈ places, place.position.refuses place.node = false

namespace Accounted

variable {places places' : List Place} {notices notices' : List LoweringNotice}
  {literals literals' : List Literal} {p : Position} {t : Tree}

theorem nil : Accounted [] [] [] :=
  ⟨rfl, rfl, by simp⟩

theorem append (h : Accounted places notices literals)
    (h' : Accounted places' notices' literals') :
    Accounted (places ++ places') (notices ++ notices') (literals ++ literals') where
  drops := by rw [List.filter_append, List.filterMap_append, h.drops, h'.drops]
  literals_eq := by rw [List.filterMap_append, h.literals_eq, h'.literals_eq]
  accepted := by
    intro place hplace
    rcases List.mem_append.mp hplace with hplace | hplace
    · exact h.accepted place hplace
    · exact h'.accepted place hplace

/-- A node that is kept stands in front of what is below it and is not reported. -/
theorem held (hheld : p.holds t = true) (haccepted : p.refuses t = false)
    (h : Accounted places notices literals) :
    Accounted (⟨p, t⟩ :: places) notices (t.literal?.toList ++ literals) := by
  have htop : Accounted [⟨p, t⟩] [] t.literal?.toList := by
    refine ⟨?_, ?_, by simpa using haccepted⟩
    · simp [Place.notice?, hheld]
    · cases hliteral : t.literal? <;> simp [Place.literal?, hheld, hliteral]
  exact htop.append h

/-- A node that is dropped is reported, and nothing is kept of it. -/
theorem dropped (hheld : p.holds t = false) (haccepted : p.refuses t = false)
    {notice : LoweringNotice} (hnotice : p.dropped t = some notice) :
    Accounted (t.places p) [notice] [] := by
  rw [Tree.places_of_dropped hheld]
  refine ⟨?_, ?_, by simpa using haccepted⟩
  · simp [Place.notice?, hheld, hnotice, Position.isDrop_of_dropped hnotice]
  · simp [Place.literal?, hheld]

/-- Other reports do not count. -/
theorem report (h : Accounted places notices literals) {notice : LoweringNotice}
    (hnotice : notice.isDrop = false) : Accounted places (notice :: notices) literals :=
  ⟨by rw [List.filter_cons_of_neg (by simp [hnotice]), h.drops], h.literals_eq, h.accepted⟩

end Accounted

namespace Lowering

/-! ## Properties of nodes -/

@[simp] theorem notices_property {α : Type} (x : Except PropertyError α) :
    (property x).notices = [] := rfl

@[simp] theorem notices_stringProperty? (properties : Entries) (key : String) :
    (stringProperty? properties key).notices = [] := rfl

@[simp] theorem notices_stringProperty (properties : Entries) (key : String) :
    (stringProperty properties key).notices = [] :=
  Traced.notices_bind_eq_nil rfl fun _ => rfl

@[simp] theorem notices_literal (properties : Entries) (children : List Tree) :
    (literal properties children).notices = [] :=
  Traced.notices_bind_eq_nil rfl fun _ => rfl

@[simp] theorem notices_language (properties : Entries) : (language properties).notices = [] := by
  refine Traced.notices_bind_eq_nil rfl fun given => ?_
  cases given <;> rfl

@[simp] theorem notices_start (properties : Entries) : (start properties).notices = [] :=
  Traced.notices_bind_eq_nil rfl fun _ => rfl

@[simp] theorem notices_taskStatus (properties : Entries) :
    (taskStatus properties).notices = [] :=
  Traced.notices_bind_eq_nil rfl fun _ => rfl

@[simp] theorem notices_cell (role : Role) (properties : Entries) (content : List Node) :
    (cell role properties content).notices = [] :=
  Traced.notices_bind_eq_nil rfl fun _ => rfl

@[simp] theorem notices_image (properties : Entries) : (image properties).notices = [] :=
  Traced.notices_bind_eq_nil (notices_stringProperty properties "url") fun _ =>
    Traced.notices_bind_eq_nil (notices_stringProperty properties "alt") fun _ =>
      Traced.notices_bind_eq_nil rfl fun _ => rfl

/-- The literal text of an element that is not refused. -/
theorem literal_eq_ok {properties : Entries} {children : List Tree} {content : String}
    (h : (literal properties children).result = .ok content) :
    content = literalOf properties children := by
  simp only [literal, Traced.result_bind_eq_ok, Traced.result_pure_eq_ok] at h
  obtain ⟨given, hgiven, rfl⟩ := h
  have hread : Property.string? (some "value") (properties.get "value") = .ok given :=
    mapError_eq_ok.mp hgiven
  unfold literalOf
  cases hvalue : properties.get "value" with
  | null =>
    rw [hvalue] at hread
    obtain rfl := Except.ok.inj hread
    rfl
  | str value =>
    rw [hvalue] at hread
    obtain rfl := Except.ok.inj hread
    rfl
  | _ =>
    rw [hvalue] at hread
    cases hread

theorem literals_item (status : Option String) (pieces : List Piece) :
    (item status pieces).literals = pieces.flatMap fun p => p.node.literals := by
  refine flatMap_item Node.literals_synthesized (fun children status => ?_) status pieces
  rw [Node.literals, Node.literalsAll_eq_flatMap]

theorem literals_cell {role : Role} {properties : Entries} {content : List Node} {n : Node}
    (h : (cell role properties content).result = .ok n) :
    n.literals = Node.literalsAll content := by
  simp only [cell, Traced.result_bind_eq_ok, Traced.result_pure_eq_ok] at h
  obtain ⟨alignment, -, rfl⟩ := h
  rw [Node.literals]

theorem literals_image {properties : Entries} {n : Node}
    (h : (image properties).result = .ok n) : n.literals = [] := by
  obtain ⟨url, alt, title, rfl⟩ := image_isImage h
  rfl

/-! ## The passes -/

theorem exists_node_of_isInline {t : Tree} (hinline : t.isInline = true) {answer : Option Node}
    (h : (inline t).result = .ok answer) : ∃ n, answer = some n := by
  obtain ⟨node, hanswer, -⟩ := result_piece_of_isInline hinline
  simp only [hanswer, bind_eq_ok, pure_eq_ok] at h
  obtain ⟨n, -, rfl⟩ := h
  exact ⟨n, rfl⟩

/-- A node that is not inline gives nothing at an inline position, unless it is refused. -/
theorem inline_of_not_isInline {t : Tree} (hinline : t.isInline = false) {answer : Option Node}
    (h : (inline t).result = .ok answer) :
    inline t = pure none ∧ ∀ container, (Position.inline container).refuses t = false := by
  cases t with
  | text handle value => cases hinline
  | element handle role properties children =>
    cases role with
    | strong | emphasis | strikethrough | inlineCode | link => cases hinline
    | other given => simp [inline] at h
    | _ => exact ⟨by simp [inline], fun _ => rfl⟩

/-- A node of an inline role makes the same reports at both positions. -/
theorem notices_piece_of_isInline {t : Tree} (hinline : t.isInline = true) :
    (piece t).notices = (inline t).notices := by
  cases t with
  | text handle value => simp [piece, inline]
  | element handle role properties children =>
    cases role with
    | strong | emphasis | strikethrough | inlineCode =>
      rw [piece, inline]
      exact Traced.notices_bind_congr fun _ => rfl
    | link =>
      rw [piece, inline]
      exact Traced.notices_bind_congr fun _ => Traced.notices_bind_congr fun _ =>
        Traced.notices_bind_congr fun _ => rfl
    | _ => cases hinline

mutual

/-- A node of an inline role is kept at any position that holds it. -/
theorem accounted_inline : (t : Tree) → {p : Position} → {n : Node} → t.isInline = true →
    p.holds t = true → (inline t).result = .ok (some n) →
    Accounted (t.places p) (inline t).notices n.literals
  | .text handle value, p, n, hinline, hheld, h => by
    simp only [inline, Traced.result_pure_eq_ok, Option.some.injEq] at h
    subst h
    rw [inline, Traced.notices_pure, Tree.places_of_leaf rfl]
    exact Accounted.nil.held hheld (by cases p <;> rfl)
  | .element handle role properties children, p, n, hinline, hheld, h => by
    cases role with
    | strong | emphasis | strikethrough =>
      simp only [inline, Traced.result_bind_eq_ok, Traced.result_pure_eq_ok,
        Option.some.injEq] at h
      obtain ⟨content, hcontent, rfl⟩ := h
      rw [inline, Traced.notices_bind_of_ok hcontent, Traced.notices_pure, List.append_nil,
        Tree.places_of_held hheld rfl, Node.literals]
      exact (accounted_inlines children hcontent).held hheld
        (p.refuses_eq_false _ _ _ rfl (by simp))
    | link =>
      simp only [inline, Traced.result_bind_eq_ok, Traced.result_pure_eq_ok,
        Option.some.injEq] at h
      obtain ⟨url, hurl, content, hcontent, title, htitle, rfl⟩ := h
      rw [inline, Traced.notices_bind_of_ok hurl, Traced.notices_bind_of_ok hcontent,
        Traced.notices_bind_of_ok htitle, notices_stringProperty, notices_stringProperty?,
        Traced.notices_pure, List.nil_append, List.append_nil, List.append_nil,
        Tree.places_of_held hheld rfl, Node.literals]
      exact (accounted_inlines children hcontent).held hheld
        (p.refuses_eq_false _ _ _ rfl (by simp))
    | inlineCode =>
      simp only [inline, Traced.result_bind_eq_ok, Traced.result_pure_eq_ok,
        Option.some.injEq] at h
      obtain ⟨content, hcontent, rfl⟩ := h
      rw [inline, Traced.notices_bind_of_ok hcontent, notices_literal, Traced.notices_pure,
        List.append_nil, Tree.places_of_leaf rfl, literal_eq_ok hcontent]
      exact Accounted.nil.held hheld (p.refuses_eq_false _ _ _ rfl (by simp))
    | _ => cases hinline

theorem accounted_inlines {container : String} : (ts : List Tree) → {ns : List Node} →
    (inlines container ts).result = .ok ns →
    Accounted (Tree.placesAll (.inline container) ts) (inlines container ts).notices
      (Node.literalsAll ns)
  | [], ns, h => by
    simp only [inlines, Traced.result_pure_eq_ok] at h
    subst h
    exact .nil
  | t :: ts, ns, h => by
    simp only [result_inlines_cons, bind_eq_ok, pure_eq_ok] at h
    obtain ⟨answer, hanswer, rest, hrest, rfl⟩ := h
    rw [inlines, Traced.notices_bind_of_ok hanswer, Tree.placesAll]
    have hbelow := accounted_inlines ts hrest
    cases hinline : t.isInline with
    | true =>
      have hheld : (Position.inline container).holds t = true := hinline
      obtain ⟨n, rfl⟩ := exists_node_of_isInline hinline hanswer
      rw [Traced.notices_bind_of_ok hrest]
      simpa [Node.literalsAll] using (accounted_inline t hinline hheld hanswer).append hbelow
    | false =>
      obtain ⟨hnone, haccepted⟩ := inline_of_not_isInline hinline hanswer
      -- The node makes no report of its own, so the only one is that it is dropped.
      rw [hnone] at hanswer ⊢
      obtain rfl := Except.ok.inj hanswer
      have hheld : (Position.inline container).holds t = false := hinline
      exact (Accounted.dropped hheld (haccepted container) rfl).append hbelow

end

/-- A node of an inline role is kept at a block position too. -/
theorem accounted_piece_of_isInline {t : Tree} {p : Piece} (hinline : t.isInline = true)
    (h : (piece t).result = .ok p) :
    Accounted (t.places .block) (piece t).notices p.node.literals := by
  obtain ⟨node, hanswer, hpiece⟩ := result_piece_of_isInline hinline
  simp only [hpiece, bind_eq_ok, pure_eq_ok] at h
  obtain ⟨n, rfl, rfl⟩ := h
  rw [notices_piece_of_isInline hinline]
  exact accounted_inline t hinline rfl hanswer

/-- A row keeps its cells. -/
theorem accounted_cells : (ts : List Tree) → {ns : List Node} → (cells ts).result = .ok ns →
    Accounted (Tree.placesAll .cell ts) (cells ts).notices (Node.literalsAll ns)
  | [], ns, h => by
    simp only [cells, Traced.result_pure_eq_ok] at h
    subst h
    exact .nil
  | .text handle value :: ts, ns, h => by
    simp only [cells, Traced.result_bind_eq_ok] at h
    obtain ⟨-, -, h⟩ := h
    rw [cells]
    exact (Accounted.dropped rfl rfl rfl).append (accounted_cells ts h)
  | .element handle role properties children :: ts, ns, h => by
    unfold cells at h ⊢
    split at h
    · rename_i hrole
      simp only [Traced.result_bind_eq_ok, Traced.result_pure_eq_ok] at h
      obtain ⟨content, hcontent, first, hfirst, rest, hrest, rfl⟩ := h
      have hcell : Accounted ((Tree.element handle role properties children).places .cell)
          (inlines "table cell" children).notices (Node.literalsAll content) := by
        rcases hrole with rfl | rfl <;> rw [Tree.places_of_held rfl rfl] <;>
          exact (accounted_inlines children hcontent).held rfl rfl
      rw [if_pos hrole, Traced.notices_bind_of_ok hcontent, Traced.notices_bind_of_ok hfirst,
        Traced.notices_bind_of_ok hrest, notices_cell, Tree.placesAll, Node.literalsAll,
        literals_cell hfirst]
      simpa using hcell.append (accounted_cells ts hrest)
    · rename_i hrole
      split at h
      · simp at h
      · rename_i hkey
        simp only [Traced.result_bind_eq_ok] at h
        obtain ⟨-, -, h⟩ := h
        have hheld : Position.cell.holds (.element handle role properties children) = false := by
          simpa [Position.holds, Tree.role?] using hrole
        rw [if_neg hrole, if_neg hkey]
        have haccepted : role.isNoKey = false := Bool.eq_false_iff.mpr hkey
        exact (Accounted.dropped hheld haccepted rfl).append (accounted_cells ts h)

/-- A table keeps its rows. -/
theorem accounted_rows (ts : List Tree) {ns : List Node} (h : (rows ts).result = .ok ns) :
    Accounted (Tree.placesAll .row ts) (rows ts).notices (Node.literalsAll ns) := by
  induction ts generalizing ns with
  | nil =>
    simp only [rows, Traced.result_pure_eq_ok] at h
    subst h
    exact .nil
  | cons t ts ih =>
    by_cases hrole : t.role? = some .tableRow
    · obtain ⟨handle, properties, children, rfl⟩ := Tree.eq_element_of_role? hrole
      simp only [rows, Traced.result_bind_eq_ok, Traced.result_pure_eq_ok] at h
      obtain ⟨first, hfirst, rest, hrest, rfl⟩ := h
      rw [rows, Traced.notices_bind_of_ok hfirst, Traced.notices_bind_of_ok hrest,
        Traced.notices_pure, List.append_nil, Tree.placesAll, Tree.places_of_held rfl rfl,
        Node.literalsAll, Node.literals]
      exact ((accounted_cells children hfirst).held rfl rfl).append (ih hrest)
    · rw [rows_of_ne ts hrole] at h ⊢
      simp only [Traced.result_bind_eq_ok] at h
      obtain ⟨-, -, h⟩ := h
      exact (Accounted.dropped (by simpa [Position.holds] using hrole) rfl rfl).append (ih h)

mutual

/-- A list keeps its items. -/
theorem accounted_items : (ts : List Tree) → {ns : List Node} → (items ts).result = .ok ns →
    Accounted (Tree.placesAll .item ts) (items ts).notices (Node.literalsAll ns)
  | [], ns, h => by
    simp only [items, Traced.result_pure_eq_ok] at h
    subst h
    exact .nil
  | .text handle value :: ts, ns, h => by
    rw [items_of_ne ts (by simp [Tree.role?])] at h ⊢
    simp only [Traced.result_bind_eq_ok] at h
    obtain ⟨-, -, h⟩ := h
    exact (Accounted.dropped rfl rfl rfl).append (accounted_items ts h)
  | .element handle role properties children :: ts, ns, h => by
    by_cases hrole : role = .listItem
    · subst hrole
      simp only [items, Traced.result_bind_eq_ok, Traced.result_pure_eq_ok] at h
      obtain ⟨status, hstatus, kids, hkids, rest, hrest, rfl⟩ := h
      rw [items, Traced.notices_bind_of_ok hstatus, Traced.notices_bind_of_ok hkids,
        Traced.notices_bind_of_ok hrest, notices_taskStatus, Traced.notices_pure, List.nil_append,
        List.append_nil, Tree.placesAll, Tree.places_of_held rfl rfl, Node.literalsAll,
        literals_item]
      exact ((accounted_pieces children hkids).held rfl rfl).append (accounted_items ts hrest)
    · have hne : (Tree.element handle role properties children).role? ≠ some .listItem := by
        simpa [Tree.role?] using hrole
      rw [items_of_ne ts hne] at h ⊢
      simp only [Traced.result_bind_eq_ok] at h
      obtain ⟨-, -, h⟩ := h
      exact (Accounted.dropped (by simpa [Position.holds] using hne) rfl rfl).append
        (accounted_items ts h)

/-- A node at a block position is kept. -/
theorem accounted_piece : (t : Tree) → {p : Piece} → (piece t).result = .ok p →
    Accounted (t.places .block) (piece t).notices p.node.literals
  | .text _ _, p, h => accounted_piece_of_isInline rfl h
  | .element handle role properties children, p, h => by
    cases role with
    | strong | emphasis | strikethrough | inlineCode | link =>
      exact accounted_piece_of_isInline rfl h
    | heading =>
      simp only [piece, Traced.result_bind_eq_ok, Traced.result_pure_eq_ok] at h ⊢
      obtain ⟨level, hlevel, content, hcontent, rfl⟩ := h
      rw [Traced.notices_bind_of_ok hlevel, Traced.notices_bind_of_ok hcontent, notices_property,
        Traced.notices_pure, List.nil_append, List.append_nil, Tree.places_of_held rfl rfl]
      exact (accounted_inlines children hcontent).held rfl rfl
    | paragraph =>
      simp only [piece] at h ⊢
      split at h
      · rename_i imageProperties himage
        simp only [Traced.result_bind_eq_ok, Traced.result_pure_eq_ok] at h
        obtain ⟨n, hn, rfl⟩ := h
        -- The image is a place of its own, below the paragraph, and nothing is visited below it.
        obtain ⟨imageHandle, imageChildren, rfl⟩ := soleImage?_eq_some_iff.mp himage
        rw [Traced.notices_bind_of_ok hn, notices_image, Traced.notices_pure,
          Tree.places_of_held rfl rfl, Piece.node, Node.literals, Node.literalsAll_singleton,
          literals_image hn]
        exact (Accounted.nil.held rfl rfl).held rfl rfl
      · rename_i himage
        simp only [Traced.result_bind_eq_ok, Traced.result_pure_eq_ok] at h
        obtain ⟨content, hcontent, rfl⟩ := h
        have hbelow : (Tree.element handle .paragraph properties children).childPosition? =
            some (.inline "paragraph") := by simp [Tree.childPosition?, himage]
        rw [Traced.notices_bind_of_ok hcontent, Traced.notices_pure, List.append_nil,
          Tree.places_of_held rfl hbelow]
        exact (accounted_inlines children hcontent).held rfl rfl
    | blockquote =>
      simp only [piece, Traced.result_bind_eq_ok, Traced.result_pure_eq_ok] at h ⊢
      obtain ⟨kids, hkids, rfl⟩ := h
      rw [Traced.notices_bind_of_ok hkids, Traced.notices_pure, List.append_nil,
        Tree.places_of_held rfl rfl, Piece.node, Node.literals, literalsAll_group]
      exact (accounted_pieces children hkids).held rfl rfl
    | code =>
      simp only [piece, Traced.result_bind_eq_ok, Traced.result_pure_eq_ok] at h ⊢
      obtain ⟨language, hlanguage, content, hcontent, rfl⟩ := h
      rw [Traced.notices_bind_of_ok hlanguage, Traced.notices_bind_of_ok hcontent,
        notices_language, notices_literal, Traced.notices_pure, Tree.places_of_leaf rfl,
        literal_eq_ok hcontent]
      exact Accounted.nil.held rfl rfl
    | list =>
      simp only [piece, Traced.result_bind_eq_ok, Traced.result_pure_eq_ok] at h ⊢
      obtain ⟨ordered, hordered, first, hfirst, kids, hkids, rfl⟩ := h
      rw [Traced.notices_bind_of_ok hordered, Traced.notices_bind_of_ok hfirst,
        Traced.notices_bind_of_ok hkids, notices_property, notices_start, Traced.notices_pure,
        List.nil_append, List.nil_append, List.append_nil, Tree.places_of_held rfl rfl]
      exact (accounted_items children hkids).held rfl rfl
    | listItem =>
      -- Here and for rows and cells, the report of the wrapping comes first and is no drop.
      simp only [piece, Traced.result_bind_eq_ok, Traced.result_pure_eq_ok] at h ⊢
      obtain ⟨-, -, status, hstatus, kids, hkids, rfl⟩ := h
      rw [Traced.notices_bind_of_ok rfl, Traced.notices_bind_of_ok hstatus,
        Traced.notices_bind_of_ok hkids, notices_taskStatus, Traced.notices_pure, List.nil_append,
        List.append_nil, Tree.places_of_held rfl rfl, Piece.node, Node.literals,
        Node.literalsAll_singleton, literals_item]
      exact ((accounted_pieces children hkids).held rfl rfl).report
        (LoweringNotice.isDrop_of_stray handle).1
    | table =>
      simp only [piece, Traced.result_bind_eq_ok, Traced.result_pure_eq_ok] at h ⊢
      obtain ⟨kids, hkids, rfl⟩ := h
      rw [Traced.notices_bind_of_ok hkids, Traced.notices_pure, List.append_nil,
        Tree.places_of_held rfl rfl]
      exact (accounted_rows children hkids).held rfl rfl
    | tableRow =>
      simp only [piece, Traced.result_bind_eq_ok, Traced.result_pure_eq_ok] at h ⊢
      obtain ⟨-, -, kids, hkids, rfl⟩ := h
      rw [Traced.notices_bind_of_ok rfl, Traced.notices_bind_of_ok hkids, Traced.notices_pure,
        List.append_nil, Tree.places_of_held rfl rfl, Piece.node, Node.literals,
        Node.literalsAll_singleton, Node.literals]
      exact ((accounted_cells children hkids).held rfl rfl).report
        (LoweringNotice.isDrop_of_stray handle).2.1
    | tableCell | tableHeader =>
      simp only [piece, Traced.result_bind_eq_ok, Traced.result_pure_eq_ok] at h ⊢
      obtain ⟨-, -, content, hcontent, first, hfirst, rfl⟩ := h
      rw [Traced.notices_bind_of_ok rfl, Traced.notices_bind_of_ok hcontent,
        Traced.notices_bind_of_ok hfirst, notices_cell, Traced.notices_pure, List.append_nil,
        List.append_nil, Tree.places_of_held rfl rfl, Piece.node, Node.literals,
        Node.literalsAll_singleton, Node.literals, Node.literalsAll_singleton, literals_cell hfirst]
      exact ((accounted_inlines children hcontent).held rfl rfl).report
        (LoweringNotice.isDrop_of_stray handle).2.2
    | thematicBreak =>
      simp only [piece, Traced.result_pure_eq_ok] at h ⊢
      subst h
      rw [Traced.notices_pure, Tree.places_of_leaf rfl]
      exact Accounted.nil.held rfl rfl
    | image =>
      simp only [piece, Traced.result_bind_eq_ok, Traced.result_pure_eq_ok] at h ⊢
      obtain ⟨n, hn, rfl⟩ := h
      rw [Traced.notices_bind_of_ok hn, notices_image, Traced.notices_pure,
        Tree.places_of_leaf rfl, Piece.node, Node.literals, Node.literalsAll_singleton,
        literals_image hn]
      exact Accounted.nil.held rfl rfl
    | root | other => simp [piece] at h

/-- Siblings at a block position are kept. -/
theorem accounted_pieces : (ts : List Tree) → {ps : List Piece} → (pieces ts).result = .ok ps →
    Accounted (Tree.placesAll .block ts) (pieces ts).notices (ps.flatMap fun p => p.node.literals)
  | [], ps, h => by
    simp only [pieces, Traced.result_pure_eq_ok] at h
    subst h
    exact .nil
  | t :: ts, ps, h => by
    simp only [pieces, Traced.result_bind_eq_ok, Traced.result_pure_eq_ok] at h
    obtain ⟨first, hfirst, rest, hrest, rfl⟩ := h
    rw [pieces, Traced.notices_bind_of_ok hfirst, Traced.notices_bind_of_ok hrest,
      Traced.notices_pure, List.append_nil, Tree.placesAll, List.flatMap_cons]
    exact (accounted_piece t hfirst).append (accounted_pieces ts hrest)

end

end Lowering

/-! ## Documents -/

/-- The document of a tree accounts for the places in it. -/
theorem Tree.accounted_lower (t : Tree) {doc : Node} (h : t.lower.result = .ok doc) :
    Accounted (placesAll .block t.splice) t.lower.notices doc.literals := by
  simp only [lower, Lowering.blocks, Traced.result_bind_eq_ok, Traced.result_pure_eq_ok] at h
  obtain ⟨_, ⟨kids, hkids, rfl⟩, rfl⟩ := h
  have hblocks : (Lowering.blocks t.splice).result = .ok (group kids) := by
    simp [Lowering.blocks, hkids]
  rw [lower, Traced.notices_bind_of_ok hblocks, Traced.notices_pure, List.append_nil,
    Lowering.blocks, Traced.notices_bind_of_ok hkids, Traced.notices_pure, List.append_nil,
    Node.literals, literalsAll_group]
  exact Lowering.accounted_pieces t.splice hkids

end DocumentTree
