import DocumentTree.Document.Decoding
import DocumentTree.Document.Outline
import DocumentTree.Proofs.Document.Rules
import DocumentTree.Proofs.Json.Scalars
import DocumentTree.Proofs.Text.Lines

/-!
# What an outline tells

An outline shows all of a document but its metadata, so documents that look alike differ in nothing
else. The text of a node is told from what is behind it: a value ends where a word or a string ends,
the fields end where no comma is, and the children at a bracket that stands where the next child
would start.

## Main definitions

* `Node.bare` — a document without any metadata.
* `Node.nested` — the children of a node between brackets.
* `Node.IsTold` — a node can be told from what is behind it.
-/

namespace DocumentTree.Node

open Json (IsScalar StopsWord)

variable {a b n m : Node} {indent : Int} {x y : Text}

/-! ## Documents without metadata -/

mutual

/-- A document without the metadata of its nodes. -/
def bare : Node → Node
  | document children _ => document (bareAll children)
  | heading level content _ => heading level (bareAll content)
  | paragraph content _ => paragraph (bareAll content)
  | codeBlock content language _ => codeBlock content language
  | blockQuote children _ => blockQuote (bareAll children)
  | list ordered items start _ => list ordered (bareAll items) start
  | listItem children status _ => listItem (bareAll children) status
  | table rows _ => table (bareAll rows)
  | tableRow cells _ => tableRow (bareAll cells)
  | tableCell content alignment header _ => tableCell (bareAll content) alignment header
  | thematicBreak _ => thematicBreak
  | text content _ => text content
  | emphasis content _ => emphasis (bareAll content)
  | strong content _ => strong (bareAll content)
  | strikethrough content _ => strikethrough (bareAll content)
  | code content _ => code content
  | link url content title _ => link url (bareAll content) title
  | image url alternative title _ => image url alternative title

/-- Documents without the metadata of their nodes. -/
def bareAll : List Node → List Node
  | [] => []
  | n :: ns => bare n :: bareAll ns

end

theorem bareAll_eq_map (ns : List Node) : bareAll ns = ns.map bare := by
  induction ns with
  | nil => rfl
  | cons n ns ih => rw [bareAll, ih, List.map_cons]

theorem children_bare (n : Node) : n.bare.children = n.children.map bare := by
  cases n <;> simp [bare, children, bareAll_eq_map]

theorem optionalField_inj {name : String} {s t : Option String} :
    optionalField name s = optionalField name t ↔ s = t := by
  cases s <;> cases t <;> simp [optionalField]

theorem level_inj {k l : HeadingLevel} : (k.val : Int) = l.val ↔ k = l := by
  rw [Int.natCast_inj]
  cases k
  cases l
  simp

/-- Besides its metadata, a node is its kind, its fields and its children. -/
theorem bare_eq_of_parts (hkind : a.kind = b.kind) (hfields : a.fields = b.fields)
    (hchildren : a.children.map bare = b.children.map bare) : a.bare = b.bare := by
  -- Of the pairs of kinds, those of equal ones are left.
  cases a <;> cases b <;> simp only [kind, String.reduceEq] at hkind <;>
    simp only [children] at hchildren <;>
    simp only [bare, bareAll_eq_map, hchildren]
  -- Only nodes with fields are left.
  all_goals
    simp only [fields, List.cons.injEq, Prod.mk.injEq, Value.str.injEq, Value.int.injEq,
      Value.bool.injEq, List.append_singleton_inj, optionalField_inj, level_inj, true_and,
      and_true] at hfields
    simp only [hfields]

/-! ## Fields -/

/-- The names of fields. -/
def fieldNames : List String :=
  ["level", "content", "language", "ordered", "start", "task_status", "alignment", "is_header",
    "url", "title", "alt_text"]

/-- The name of a field with a scalar. -/
def IsField (entry : String × Value) : Prop :=
  entry.1 ∈ fieldNames ∧ IsScalar entry.2

theorem isField_str {name s : String} : IsField (name, .str s) ↔ name ∈ fieldNames :=
  and_iff_left (.inr ⟨s, rfl⟩)

theorem isField_int {name : String} {i : Int} : IsField (name, .int i) ↔ name ∈ fieldNames :=
  and_iff_left (.inl (.int i))

theorem isField_bool {name : String} {b : Bool} : IsField (name, .bool b) ↔ name ∈ fieldNames :=
  and_iff_left (.inl (.bool b))

theorem isField_optionalField {name : String} {s : Option String} :
    (∀ entry ∈ optionalField name s, IsField entry) ↔ (s.isSome = true → name ∈ fieldNames) := by
  cases s <;> simp [optionalField, isField_str]

/-- All fields of a node are scalars. -/
theorem isField_of_mem_fields (n : Node) : ∀ entry ∈ n.fields, IsField entry := by
  cases n <;> simp only [fields, List.forall_mem_cons, List.forall_mem_append, isField_str,
    isField_int, isField_bool, isField_optionalField] <;> simp [fieldNames]

/-- The characters of the names of kinds and fields. -/
def isNameChar (c : Char) : Bool :=
  c.isAlpha || c = '_'

theorem isNameChar_of_mem_name {e : String × Value} (he : IsField e) {c : Char}
    (hc : c ∈ e.1.toList) : isNameChar c = true := by
  have hall : ∀ name ∈ fieldNames, name.toList.all isNameChar = true := by
    decide
  exact List.all_eq_true.mp (hall e.1 he.1) c hc

/-- A field starts with its name. -/
theorem exists_outlineField_eq {e : String × Value} (he : IsField e) :
    ∃ c rest, outlineField e = c :: rest ∧ isNameChar c = true := by
  have hname : ∀ name ∈ fieldNames, name.toList ≠ [] := by
    decide
  obtain ⟨c, rest, hc⟩ := List.exists_cons_of_ne_nil (hname e.1 he.1)
  exact ⟨c, _, by rw [outlineField, hc]; rfl, isNameChar_of_mem_name he (hc ▸ List.mem_cons_self)⟩

/-- A name ends where the colon is, and its value where no word goes on. -/
theorem outlineField_append_inj {e f : String × Value} (he : IsField e) (hf : IsField f)
    (hx : StopsWord x) (hy : StopsWord y) (h : outlineField e ++ x = outlineField f ++ y) :
    e = f ∧ x = y := by
  have hcolon : ∀ {z : Text} (c : Char), (':' :: z).head? = some c → isNameChar c = false := by
    rintro z c h
    obtain rfl : ':' = c := Option.some.inj h
    decide
  simp only [outlineField, List.append_assoc, List.cons_append, List.nil_append] at h
  obtain ⟨hnames, hrest⟩ := Text.append_inj_of_class (fun c hc => isNameChar_of_mem_name he hc)
    (fun c hc => isNameChar_of_mem_name hf hc) hcolon hcolon h
  simp only [List.cons.injEq, true_and] at hrest
  obtain ⟨hvalues, hxy⟩ := he.2.write_append_inj hf.2 hx hy hrest
  exact ⟨Prod.ext (String.toList_inj.mp hnames) hvalues, hxy⟩

/-- What may stand behind the fields of a node: nothing, the next line, or the bracket before the
children. -/
inductive EndsHead : Text → Prop
  | nil : EndsHead []
  | line (t : Text) : EndsHead ('\n' :: t)
  | bracket (t : Text) : EndsHead (' ' :: '[' :: t)

theorem EndsHead.stopsWord (hx : EndsHead x) : StopsWord x := by
  intro c hc
  cases hx with
  | nil => cases hc
  | line t | bracket t =>
    obtain rfl := Option.some.inj hc
    decide

theorem EndsHead.head_ne_comma (hx : EndsHead x) (t : Text) : x ≠ ',' :: t := by
  rintro rfl
  cases hx

/-- The fields behind the first one. -/
def laterFields (fs : List (String × Value)) : Text :=
  fs.flatMap fun e => [',', ' '] ++ outlineField e

theorem stopsWord_laterFields (fs : List (String × Value)) (hx : EndsHead x) :
    StopsWord (laterFields fs ++ x) := by
  cases fs with
  | nil => exact hx.stopsWord
  | cons e fs =>
    intro c hc
    obtain rfl : ',' = c := Option.some.inj hc
    decide

theorem laterFields_append_inj {es fs : List (String × Value)} (hes : ∀ e ∈ es, IsField e)
    (hfs : ∀ f ∈ fs, IsField f) (hx : EndsHead x) (hy : EndsHead y)
    (h : laterFields es ++ x = laterFields fs ++ y) : es = fs ∧ x = y := by
  induction es generalizing fs with
  | nil =>
    cases fs with
    | nil => exact ⟨rfl, h⟩
    | cons f fs => exact absurd h (hx.head_ne_comma _)
  | cons e es ih =>
    cases fs with
    | nil => exact absurd h.symm (hy.head_ne_comma _)
    | cons f fs =>
      rw [List.forall_mem_cons] at hes hfs
      simp only [laterFields, List.flatMap_cons, List.append_assoc, List.cons_append,
        List.nil_append, List.cons.injEq, true_and] at h
      obtain ⟨rfl, hrest⟩ := outlineField_append_inj hes.1 hfs.1 (stopsWord_laterFields es hx)
        (stopsWord_laterFields fs hy) h
      obtain ⟨rfl, hxy⟩ := ih hes.2 hfs.2 hrest
      exact ⟨rfl, hxy⟩

/-- The fields behind a kind. -/
def shownFields (fs : List (String × Value)) : Text :=
  if fs.isEmpty then [] else ' ' :: Text.join [',', ' '] (fs.map outlineField)

theorem shownFields_cons (e : String × Value) (es : List (String × Value)) :
    shownFields (e :: es) = ' ' :: (outlineField e ++ laterFields es) := by
  rw [shownFields, if_neg (by simp), List.map_cons, Text.join_cons, List.flatMap_map]
  rfl

/-- Behind the fields no further field starts. -/
theorem EndsHead.ne_shownFields {e : String × Value} (he : IsField e)
    (es : List (String × Value)) (hx : EndsHead x) (y : Text) : x ≠ shownFields (e :: es) ++ y := by
  obtain ⟨c, rest, hfield, hc⟩ := exists_outlineField_eq he
  rw [shownFields_cons, hfield]
  rintro rfl
  cases hx
  cases hc

theorem shownFields_append_inj {es fs : List (String × Value)} (hes : ∀ e ∈ es, IsField e)
    (hfs : ∀ f ∈ fs, IsField f) (hx : EndsHead x) (hy : EndsHead y)
    (h : shownFields es ++ x = shownFields fs ++ y) : es = fs ∧ x = y := by
  cases es with
  | nil =>
    cases fs with
    | nil => exact ⟨rfl, h⟩
    | cons f fs => exact absurd h (hx.ne_shownFields (hfs f List.mem_cons_self) fs y)
  | cons e es =>
    cases fs with
    | nil => exact absurd h.symm (hy.ne_shownFields (hes e List.mem_cons_self) es x)
    | cons f fs =>
      exact laterFields_append_inj hes hfs hx hy
        (by simpa [laterFields, shownFields_cons] using h)

/-! ## First lines -/

/-- The name that a node of a kind is shown by. -/
def label (kind : String) : Text :=
  if kind = "Text" then "text".toList else kind.toList

/-- What a node shows behind its name. -/
def shown : Node → Text
  | text content _ => ' ' :: Json.quote content.toList
  | n => shownFields n.fields

/-- The names of the kinds. -/
def kinds : List String :=
  NodeKind.all.map NodeKind.name

theorem kind_mem_kinds (n : Node) : n.kind ∈ kinds := by
  cases n <;> simp [kind, kinds, NodeKind.all, NodeKind.name]

theorem label_kind_ne_nil (n : Node) : label n.kind ≠ [] := by
  have hall : ∀ kind ∈ kinds, label kind ≠ [] := by
    decide
  exact hall n.kind n.kind_mem_kinds

theorem isNameChar_of_mem_label {c : Char} (hc : c ∈ label n.kind) : isNameChar c = true := by
  have hall : ∀ kind ∈ kinds, (label kind).all isNameChar = true := by
    decide
  exact List.all_eq_true.mp (hall n.kind n.kind_mem_kinds) c hc

theorem kind_eq_of_label_eq (h : label n.kind = label m.kind) : n.kind = m.kind := by
  have hall : ∀ kind ∈ kinds, ∀ other ∈ kinds, label kind = label other → kind = other := by
    decide +kernel
  exact hall n.kind n.kind_mem_kinds m.kind m.kind_mem_kinds h

theorem exists_text_of_kind (h : n.kind = "Text") :
    ∃ content metadata, n = text content metadata := by
  cases n with
  | text content metadata => exact ⟨content, metadata, rfl⟩
  | _ => simp [kind] at h

theorem shown_of_ne (h : n.kind ≠ "Text") : n.shown = shownFields n.fields := by
  cases n with
  | text => exact absurd rfl h
  | _ => rfl

theorem outlineHead_eq (n : Node) : n.outlineHead = label n.kind ++ n.shown := by
  by_cases h : n.kind = "Text"
  · obtain ⟨content, metadata, rfl⟩ := exists_text_of_kind h
    rfl
  · have hhead : n.outlineHead = n.kind.toList ++
        if (n.fields.map outlineField).isEmpty then []
        else ' ' :: Text.join [',', ' '] (n.fields.map outlineField) := by
      cases n with
      | text => exact absurd rfl h
      | _ => rfl
    rw [hhead, List.isEmpty_map, ← shownFields, shown_of_ne h, label, if_neg h]

theorem shown_eq_nil_or_cons (n : Node) : n.shown = [] ∨ ∃ t, n.shown = ' ' :: t := by
  by_cases h : n.kind = "Text"
  · obtain ⟨content, metadata, rfl⟩ := exists_text_of_kind h
    exact .inr ⟨_, rfl⟩
  · rw [shown_of_ne h, shownFields]
    split
    · exact .inl rfl
    · exact .inr ⟨_, rfl⟩

/-- No name goes on behind the name of a node. -/
theorem isNameChar_head?_shown (n : Node) (hx : EndsHead x) (c : Char)
    (hc : (n.shown ++ x).head? = some c) : isNameChar c = false := by
  rcases n.shown_eq_nil_or_cons with hnil | ⟨t, ht⟩
  · rw [hnil] at hc
    cases hx with
    | nil => cases hc
    | line | bracket =>
      obtain rfl := Option.some.inj hc
      decide
  · rw [ht] at hc
    obtain rfl : ' ' = c := Option.some.inj hc
    decide

theorem outlineHead_append_inj (hx : EndsHead x) (hy : EndsHead y)
    (h : n.outlineHead ++ x = m.outlineHead ++ y) :
    n.kind = m.kind ∧ n.fields = m.fields ∧ x = y := by
  rw [outlineHead_eq, outlineHead_eq, List.append_assoc, List.append_assoc] at h
  obtain ⟨hlabel, hshown⟩ := Text.append_inj_of_class (fun c hc => isNameChar_of_mem_label hc)
    (fun c hc => isNameChar_of_mem_label hc) (isNameChar_head?_shown n hx)
    (isNameChar_head?_shown m hy) h
  have hkind := kind_eq_of_label_eq hlabel
  refine ⟨hkind, ?_⟩
  by_cases htext : n.kind = "Text"
  · obtain ⟨s, _, rfl⟩ := exists_text_of_kind htext
    obtain ⟨t, _, rfl⟩ := exists_text_of_kind (hkind ▸ htext)
    obtain ⟨hst, hxy⟩ := Json.quote_append_inj (List.cons.inj hshown).2
    exact ⟨by rw [fields, fields, String.toList_inj.mp hst], hxy⟩
  · rw [shown_of_ne htext, shown_of_ne (hkind ▸ htext)] at hshown
    exact shownFields_append_inj n.isField_of_mem_fields m.isField_of_mem_fields hx hy hshown

/-! ## Children -/

/-- The children of a node between brackets. -/
def nested (indent : Int) (ns : List Node) : Text :=
  (ns.flatMap fun n => '\n' :: outline (indent + 2) n) ++
    '\n' :: (Text.spaces indent.toNat ++ [']'])

/-- What stands behind the first line of a node. -/
def outlineRest (indent : Int) (ns : List Node) : Text :=
  if ns.isEmpty then [] else ' ' :: '[' :: nested indent ns

theorem outlines_eq_map (indent : Int) (ns : List Node) :
    outlines indent ns = ns.map (outline indent) := by
  induction ns with
  | nil => rfl
  | cons n ns ih => rw [outlines, ih, List.map_cons]

theorem bracketed_outlines (indent : Int) (head : Text) (ns : List Node) :
    bracketed indent head (outlines (indent + 2) ns) =
      Text.spaces indent.toNat ++ (head ++ outlineRest indent ns) := by
  rw [bracketed, outlineRest, outlines_eq_map, List.isEmpty_map]
  split
  · simp
  · rw [Text.unlines, List.cons_append, Text.join_cons, List.flatMap_append, List.flatMap_map]
    simp [nested]

/-- A node is its first line behind the margin, and its children. -/
theorem outline_eq (indent : Int) (n : Node) :
    n.outline indent =
      Text.spaces indent.toNat ++ (n.outlineHead ++ outlineRest indent n.children) := by
  have hleaf : ∀ head : Text, bracketed indent head [] =
      Text.spaces indent.toNat ++ (head ++ outlineRest indent []) :=
    fun head => bracketed_outlines indent head []
  cases n <;> simp only [outline, bracketed_outlines, hleaf, children]

/-- What may stand behind a node: nothing, or the next line. -/
inductive EndsOutline : Text → Prop
  | nil : EndsOutline []
  | line (t : Text) : EndsOutline ('\n' :: t)

theorem EndsOutline.endsHead (hx : EndsOutline x) (indent : Int) (ns : List Node) :
    EndsHead (outlineRest indent ns ++ x) := by
  rw [outlineRest]
  split
  · cases hx with
    | nil => exact .nil
    | line t => exact .line t
  · exact .bracket _

/-- The closing bracket stands where no node starts. -/
theorem bracket_ne_outline (j k : Nat) (n : Node) (x y : Text) :
    Text.spaces j ++ ']' :: x ≠ Text.spaces k ++ (n.outlineHead ++ y) := by
  obtain ⟨c, rest, hlabel⟩ := List.exists_cons_of_ne_nil n.label_kind_ne_nil
  have hc : isNameChar c = true := isNameChar_of_mem_label (hlabel ▸ List.mem_cons_self)
  have hspace : c ≠ ' ' := by
    rintro rfl
    cases hc
  intro h
  have hdrop := congrArg (List.dropWhile (· = ' ')) h
  rw [outlineHead_eq, hlabel, Text.spaces, Text.spaces, Text.dropWhile_replicate_append,
    Text.dropWhile_replicate_append, List.dropWhile_cons_of_neg (by simp), List.cons_append,
    List.cons_append, List.dropWhile_cons_of_neg (by simpa using hspace)] at hdrop
  obtain rfl : ']' = c := (List.cons.inj hdrop).1
  cases hc

/-- A node is told from what is behind it, at any indent. -/
def IsTold (n : Node) : Prop :=
  ∀ (m : Node) (indent : Int) (x y : Text), EndsOutline x → EndsOutline y →
    n.outline indent ++ x = m.outline indent ++ y → n.bare = m.bare ∧ x = y

theorem nested_nil (indent : Int) :
    nested indent [] = '\n' :: (Text.spaces indent.toNat ++ [']']) :=
  rfl

theorem nested_cons (indent : Int) (n : Node) (ns : List Node) :
    nested indent (n :: ns) = '\n' :: (n.outline (indent + 2) ++ nested indent ns) := by
  simp [nested]

theorem endsOutline_nested (indent : Int) (ns : List Node) (x : Text) :
    EndsOutline (nested indent ns ++ x) := by
  cases ns with
  | nil => exact .line _
  | cons n ns => exact nested_cons indent n ns ▸ .line _

/-- No children are told from some. -/
theorem nested_nil_append_ne (n : Node) (ns : List Node) (x y : Text) :
    nested indent [] ++ x ≠ nested indent (n :: ns) ++ y := by
  intro h
  simp only [nested_nil, nested_cons, outline_eq, List.cons_append, List.append_assoc,
    List.nil_append, List.cons.injEq, true_and] at h
  exact bracket_ne_outline _ _ n _ _ h

/-- Children that are told from what is behind them are all told from each other. -/
theorem nested_append_inj {ns ms : List Node} (hns : ∀ n ∈ ns, n.IsTold)
    (h : nested indent ns ++ x = nested indent ms ++ y) : ns.map bare = ms.map bare ∧ x = y := by
  -- Either both go on with a child, which is cut off, or both end in the bracket.
  induction ns generalizing ms with
  | nil =>
    cases ms with
    | nil => exact ⟨rfl, List.append_cancel_left h⟩
    | cons m ms => exact absurd h (nested_nil_append_ne m ms x y)
  | cons n ns ih =>
    cases ms with
    | nil => exact absurd h.symm (nested_nil_append_ne n ns y x)
    | cons m ms =>
      rw [List.forall_mem_cons] at hns
      simp only [nested_cons, List.cons_append, List.append_assoc, List.cons.injEq,
        true_and] at h
      obtain ⟨hbare, hrest⟩ := hns.1 m (indent + 2) _ _ (endsOutline_nested indent ns x)
        (endsOutline_nested indent ms y) h
      obtain ⟨hbares, hxy⟩ := ih hns.2 hrest
      exact ⟨by rw [List.map_cons, List.map_cons, hbare, hbares], hxy⟩

theorem outlineRest_append_inj {ns ms : List Node} (hns : ∀ n ∈ ns, n.IsTold)
    (hx : EndsOutline x) (hy : EndsOutline y)
    (h : outlineRest indent ns ++ x = outlineRest indent ms ++ y) :
    ns.map bare = ms.map bare ∧ x = y := by
  cases ns with
  | nil =>
    cases ms with
    | nil => exact ⟨rfl, h⟩
    | cons m ms =>
      obtain rfl : x = ' ' :: '[' :: (nested indent (m :: ms) ++ y) := h
      cases hx
  | cons n ns =>
    cases ms with
    | nil =>
      obtain rfl : ' ' :: '[' :: (nested indent (n :: ns) ++ x) = y := h
      cases hy
    | cons m ms => exact nested_append_inj hns (List.cons.inj (List.cons.inj h).2).2

/-- One node is told if its children are. -/
theorem IsTold.of_children (h : ∀ child ∈ n.children, child.IsTold) : n.IsTold := by
  intro m indent x y hx hy heq
  rw [outline_eq, outline_eq, List.append_assoc, List.append_assoc, List.append_assoc,
    List.append_assoc] at heq
  obtain ⟨hkind, hfields, hrest⟩ := outlineHead_append_inj (hx.endsHead indent n.children)
    (hy.endsHead indent m.children) (List.append_cancel_left heq)
  obtain ⟨hchildren, hxy⟩ := outlineRest_append_inj h hx hy hrest
  exact ⟨bare_eq_of_parts hkind hfields hchildren, hxy⟩

theorem isTold (n : Node) : n.IsTold :=
  forall_of_children (fun _ => IsTold.of_children) n

/-! ## Documents -/

/-- The outline does not show the metadata. -/
theorem outline_bare (n : Node) : ∀ indent, n.bare.outline indent = n.outline indent := by
  induction n using forall_of_children with
  | step n ih =>
    intro indent
    have hhead : n.bare.outlineHead = n.outlineHead := by
      cases n <;> rfl
    have hnested : nested indent (n.children.map bare) = nested indent n.children := by
      rw [nested, nested, List.flatMap_map, List.flatMap_congr]
      exact fun child hchild => by rw [ih child hchild]
    rw [outline_eq, outline_eq, children_bare, hhead, outlineRest, outlineRest, List.isEmpty_map,
      hnested]

/-- **An outline tells all of a document but its metadata**: two documents have the same outline
just if they are the same without the metadata of their nodes. So no text, code, address or title
makes a document look like another, whatever its characters are. -/
theorem outlines_tell_documents_apart (indent : Int) (a b : Node) :
    a.outline indent = b.outline indent ↔ a.bare = b.bare := by
  constructor
  · intro h
    exact (a.isTold b indent [] [] .nil .nil (by rw [h])).1
  · intro h
    rw [← a.outline_bare, h, b.outline_bare]

/-- A text with a line break and brackets stays on its line. -/
example :
    (paragraph [text "\"\n]", thematicBreak]).outline 0 =
      "Paragraph [\n  text \"\\\"\\n]\"\n  ThematicBreak\n]".toList := by
  decide

end DocumentTree.Node
