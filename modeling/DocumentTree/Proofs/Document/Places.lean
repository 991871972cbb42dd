import DocumentTree.Document.Lowering

/-!
# The places that lowering visits

Lowering goes down from the siblings at the top, and at each node it depends on the position what
becomes of it. A position holds some nodes and drops the others, and below a node that is held the
children stand at a position that its role gives. Below a node that is dropped, below a text and
below an element that is written from its properties, nothing is visited.

The places are listed depth first, each node before the nodes below it. Root elements are supposed
to have been taken out.

## Main definitions

* `Position`, `Position.holds`, `Position.refuses` — where a node stands, and what may stand there.
* `Tree.childPosition?` — the position of the children of a node.
* `Place`, `Tree.places` — the nodes that are visited, each with its position.
* `Place.notice?`, `Place.literal?` — what is reported of a node, and the literal made of it.
* `Tree.leaves` — the texts of a tree with their handles.
-/

namespace DocumentTree

/-! ## Positions -/

/-- Where a node stands. -/
inductive Position where
  /-- In a document, a quote or an item, or, as an image, alone in a paragraph. -/
  | block
  /-- In an inline container, which has a name in reports. -/
  | inline (container : String)
  /-- In a list. -/
  | item
  /-- In a table. -/
  | row
  /-- In a row. -/
  | cell

namespace Position

/-- Whether a node is kept where it stands. -/
def holds : Position → Tree → Bool
  | block, _ => true
  | inline _, t => t.isInline
  | item, t => t.role? = some .listItem
  | row, t => t.role? = some .tableRow
  | cell, t => t.role? = some .tableCell || t.role? = some .tableHeader

/-- Whether a node is refused where it stands, for its role. -/
def refuses : Position → Tree → Bool
  | block, .element _ .root _ _ | block, .element _ (.other _) _ _
  | inline _, .element _ (.other _) _ _ => true
  | cell, .element _ role _ _ => role.isNoKey
  | _, _ => false

/-- A role of the vocabulary is refused nowhere, apart from root elements. -/
theorem refuses_eq_false (p : Position) (handle : Value) {role : Role} (properties : Entries)
    (children : List Tree) (hknown : role.isKnown = true) (hroot : role ≠ .root) :
    p.refuses (.element handle role properties children) = false := by
  cases role with
  | root => exact absurd rfl hroot
  | other given => cases hknown
  | _ => cases p <;> rfl

/-- A child that is dropped is reported. -/
def dropped : Position → Tree → Option LoweringNotice
  | block, _ => none
  | inline container, t => some (.droppedFromInline t.handle t.role? container)
  | item, t => some (.droppedFromList t.handle)
  | row, t => some (.droppedFromTable t.handle)
  | cell, t => some (.droppedFromRow t.handle)

theorem isSome_dropped {p : Position} {t : Tree} (h : p.holds t = false) :
    (p.dropped t).isSome = true := by
  cases p with
  | block => cases h
  | _ => rfl

end Position

/-- The position of the children of a node, unless they are not visited. -/
def Tree.childPosition? : Tree → Option Position
  | text .. => none
  | element _ role _ children =>
    match role with
    | .blockquote | .listItem => some .block
    | .paragraph =>
      some (if (Lowering.soleImage? children).isSome then .block else .inline "paragraph")
    | .heading => some (.inline "heading")
    | .strong => some (.inline "strong")
    | .emphasis => some (.inline "emphasis")
    | .strikethrough => some (.inline "strikethrough")
    | .link => some (.inline "link")
    | .tableCell | .tableHeader => some (.inline "table cell")
    | .list => some .item
    | .table => some .row
    | .tableRow => some .cell
    | .code | .inlineCode | .image | .thematicBreak | .root | .other _ => none

/-! ## Places -/

/-- A node and the position where it stands. -/
structure Place where
  position : Position
  node : Tree

namespace Tree

mutual

/-- The nodes of a tree that are visited when it stands at a position. -/
def places (position : Position) : Tree → List Place
  | text handle value => [⟨position, text handle value⟩]
  | element handle role properties children =>
    let t := element handle role properties children
    ⟨position, t⟩ ::
      match t.childPosition? with
      | some below => if position.holds t then placesAll below children else []
      | none => []

/-- The nodes of trees that are visited when they stand at a position. -/
def placesAll (position : Position) : List Tree → List Place
  | [] => []
  | t :: ts => places position t ++ placesAll position ts

end

variable {p : Position}

/-- Below a node that is dropped, nothing is visited. -/
theorem places_of_dropped {t : Tree} (h : p.holds t = false) : t.places p = [⟨p, t⟩] := by
  cases t with
  | text handle value => rfl
  | element handle role properties children =>
    rw [places]
    split <;> simp [h]

/-- Below a node that is held, its children are visited. -/
theorem places_of_held {handle : Value} {role : Role} {properties : Entries} {children : List Tree}
    (h : p.holds (.element handle role properties children) = true) {below : Position}
    (hbelow : (Tree.element handle role properties children).childPosition? = some below) :
    (Tree.element handle role properties children).places p =
      ⟨p, .element handle role properties children⟩ :: placesAll below children := by
  simp [places, hbelow, h]

/-- Below a node whose children have no position, nothing is visited. -/
theorem places_of_leaf {t : Tree} (h : t.childPosition? = none) : t.places p = [⟨p, t⟩] := by
  cases t with
  | text handle value => rfl
  | element handle role properties children => simp [places, h]

end Tree

/-! ## Literals -/

/-- What carries text in a document: a text, a code span or a code block. -/
inductive Literal where
  | text (content : String)
  | code (content : String)
  | codeBlock (content : String)

/-- The text that a literal carries. -/
def Literal.content : Literal → String
  | text content | code content | codeBlock content => content

/-- The content of a code element whose value, if it has one, is a string. -/
def Lowering.literalOf (properties : Entries) (children : List Tree) : String :=
  match properties.get "value" with
  | .str value => value
  | _ => Tree.plainTextAll children

/-- The literal that a node becomes where it is kept. -/
def Tree.literal? : Tree → Option Literal
  | text _ value => some (.text value)
  | element _ .inlineCode properties children =>
    some (.code (Lowering.literalOf properties children))
  | element _ .code properties children =>
    some (.codeBlock (Lowering.literalOf properties children))
  | element .. => none

namespace Place

/-- What is reported of a node: that it is dropped, if it is. -/
def notice? (place : Place) : Option LoweringNotice :=
  if place.position.holds place.node then none else place.position.dropped place.node

/-- The literal that a node becomes, if it is kept and becomes one. -/
def literal? (place : Place) : Option Literal :=
  if place.position.holds place.node then place.node.literal? else none

/-- A node is reported exactly when it is dropped. -/
theorem isSome_notice? (place : Place) :
    place.notice?.isSome = !place.position.holds place.node := by
  unfold notice?
  split
  · rename_i h
    simp [h]
  · rename_i h
    rw [Bool.not_eq_true] at h
    simp [h, Position.isSome_dropped h]

end Place

/-! ## Texts by their handles -/

namespace Tree

mutual

/-- The texts in a tree with their handles, depth first. -/
def leaves : Tree → List (Value × String)
  | text handle value => [(handle, value)]
  | element _ _ _ children => leavesAll children

/-- The texts in trees with their handles, depth first. -/
def leavesAll : List Tree → List (Value × String)
  | [] => []
  | t :: ts => leaves t ++ leavesAll ts

end

theorem leavesAll_append (ts us : List Tree) :
    leavesAll (ts ++ us) = leavesAll ts ++ leavesAll us := by
  induction ts with
  | nil => rfl
  | cons t ts ih => rw [List.cons_append, leavesAll, leavesAll, ih, List.append_assoc]

mutual

/-- Taking root elements out keeps the texts and their handles. -/
theorem leavesAll_splice : (t : Tree) → leavesAll t.splice = t.leaves
  | text handle value => by simp [splice, leaves, leavesAll]
  | element handle role properties children => by
    rw [splice]
    split
    · rw [leaves, leavesAll_spliceAll children]
    · simp [leavesAll, leaves, leavesAll_spliceAll children]

theorem leavesAll_spliceAll : (ts : List Tree) → leavesAll (spliceAll ts) = leavesAll ts
  | [] => rfl
  | t :: ts => by
    rw [spliceAll, leavesAll_append, leavesAll_splice t, leavesAll_spliceAll ts, leavesAll]

end

mutual

/-- The plain text of a tree consists of the values of its texts. -/
theorem plainText_eq_join : (t : Tree) → t.plainText = String.join (t.leaves.map Prod.snd)
  | text handle value => by simp [plainText, leaves]
  | element handle role properties children => by
    rw [plainText, leaves, plainTextAll_eq_join children]

theorem plainTextAll_eq_join : (ts : List Tree) →
    plainTextAll ts = String.join ((leavesAll ts).map Prod.snd)
  | [] => rfl
  | t :: ts => by
    rw [plainTextAll, leavesAll, plainText_eq_join t, plainTextAll_eq_join ts, List.map_append]
    simp

end

/-! ## Texts at places -/

end Tree

/-- Nothing is visited below a place: the node is dropped, or its children have no position. -/
def Place.IsEnd (place : Place) : Prop :=
  place.position.holds place.node = false ∨ place.node.childPosition? = none

namespace Tree

mutual

/-- **Every text lies at a place or below one that nothing is visited below.** -/
theorem exists_end_of_mem_leaves : (t : Tree) → (p : Position) → {x : Value × String} →
    x ∈ t.leaves → ∃ place ∈ t.places p, x ∈ place.node.leaves ∧ place.IsEnd
  | text handle value, p, x, hx => ⟨⟨p, .text handle value⟩, by simp [places], hx, .inr rfl⟩
  | element handle role properties children, p, x, hx => by
    have htop : (⟨p, .element handle role properties children⟩ : Place) ∈
        (Tree.element handle role properties children).places p := by simp [places]
    cases hheld : p.holds (.element handle role properties children) with
    | false => exact ⟨_, htop, hx, .inl hheld⟩
    | true =>
      cases hbelow : (Tree.element handle role properties children).childPosition? with
      | none => exact ⟨_, htop, hx, .inr hbelow⟩
      | some below =>
        rw [leaves] at hx
        obtain ⟨place, hplace, hrest⟩ := exists_end_of_mem_leavesAll children below hx
        rw [places_of_held hheld hbelow]
        exact ⟨place, List.mem_cons_of_mem _ hplace, hrest⟩

theorem exists_end_of_mem_leavesAll : (ts : List Tree) → (p : Position) → {x : Value × String} →
    x ∈ leavesAll ts → ∃ place ∈ placesAll p ts, x ∈ place.node.leaves ∧ place.IsEnd
  | [], p, x, hx => by cases hx
  | t :: ts, p, x, hx => by
    rw [leavesAll, List.mem_append] at hx
    rw [placesAll]
    rcases hx with hx | hx
    · obtain ⟨place, hplace, hrest⟩ := exists_end_of_mem_leaves t p hx
      exact ⟨place, List.mem_append_left _ hplace, hrest⟩
    · obtain ⟨place, hplace, hrest⟩ := exists_end_of_mem_leavesAll ts p hx
      exact ⟨place, List.mem_append_right _ hplace, hrest⟩

end

end Tree

end DocumentTree
