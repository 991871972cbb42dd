import DocumentTree.Proofs.Document.Accounts
import DocumentTree.Proofs.Document.Faults

/-!
# When a role outside the vocabulary is refused

Operations create elements with roles of the vocabulary only, so unless a role is overwritten from
outside, lowering is refused for properties at most. An overwritten role is refused wherever the
lowering meets it among blocks or in an inline container. At a place where children are dropped
unseen, or below a node that is not looked at, it passes.
-/

namespace DocumentTree

/-- The refusal is for a property that cannot be read, or for the start of a list. -/
def LoweringError.IsForProperty : LoweringError → Prop
  | property _ | startOutOfRange => True
  | unknownRole _ | roleNoKey _ | store _ => False

namespace Tree

/-- A tree of the vocabulary is refused for properties only. -/
theorem isForProperty_of_known {t : Tree} (hknown : ∀ x ∈ t.elements, x.1.isKnown = true)
    {e : LoweringError} (h : t.lower.result = .error e) : e.IsForProperty := by
  obtain ⟨⟨role, properties⟩, hmem, -, hfault⟩ := t.exists_fault h
  have hrole : role.isKnown = true := hknown _ hmem
  cases e with
  | property e => trivial
  | startOutOfRange => trivial
  | store e => cases hfault
  | unknownRole given | roleNoKey given =>
    obtain ⟨rfl, -⟩ := hfault
    cases hrole

/-- Without properties, a tree is refused for a role outside the vocabulary only. -/
theorem exists_unknown_of_no_properties {t : Tree} (hempty : ∀ x ∈ t.elements, x.2 = [])
    {e : LoweringError} (h : t.lower.result = .error e) :
    ∃ given, (.other given, []) ∈ t.elements ∧ e = .ofRole given := by
  obtain ⟨⟨role, properties⟩, hmem, -, hfault⟩ := t.exists_fault h
  obtain rfl : properties = [] := hempty _ hmem
  cases e with
  | unknownRole given =>
    obtain ⟨rfl, hkey⟩ := hfault
    exact ⟨given, hmem, by simp [LoweringError.ofRole, hkey]⟩
  | roleNoKey given =>
    obtain ⟨rfl, hkey⟩ := hfault
    exact ⟨given, hmem, by simp [LoweringError.ofRole, hkey]⟩
  | property e =>
    obtain ⟨key, -, hfound, hnull⟩ := hfault
    exact absurd hfound hnull
  | startOutOfRange =>
    obtain ⟨-, i, hstart, -⟩ := hfault
    cases hstart
  | store e => cases hfault

/-- A tree with a place that refuses its node is refused. -/
theorem exists_error_of_refuses {t : Tree} {place : Place}
    (hplace : place ∈ placesAll .block t.splice)
    (hrefuses : place.position.refuses place.node = true) :
    ∃ e, t.lower.result = .error e := by
  cases hresult : t.lower.result with
  | error e => exact ⟨e, rfl⟩
  | ok doc =>
    have haccepted := (t.accounted_lower hresult).accepted place hplace
    cases hrefuses.symm.trans haccepted

end Tree

/-- The place is one where a role outside the vocabulary is met: among the blocks of a document, a
quote or an item, or in an inline container. -/
def Place.IsMet (place : Place) : Prop :=
  place.position = .block ∨ ∃ container, place.position = .inline container

/-- An unknown role is refused where it is met. -/
theorem Place.refuses_of_isMet {place : Place} (hmet : place.IsMet) {given : Value}
    (hrole : place.node.role? = some (.other given)) :
    place.position.refuses place.node = true := by
  obtain ⟨p, t⟩ := place
  obtain ⟨handle, properties, children, rfl⟩ : ∃ handle properties children,
      t = .element handle (.other given) properties children := Tree.eq_element_of_role? hrole
  obtain rfl | ⟨container, rfl⟩ : p = .block ∨ ∃ container, p = .inline container := hmet
  · rfl
  · rfl

/-- **Only an overwritten role is unknown, and it is refused where it is met.** After any run whose
operations write roles of the vocabulary only, lowering a known record is refused for properties at
most. Conversely, where a tree has no properties and one element of a role outside the vocabulary,
it is refused for this role if the element is at the top or stands, root elements aside, among the
children of a document, a quote, an item or an inline container that is itself lowered. -/
theorem unknown_roles_are_refused :
    (∀ (operations : List Operation) (h : Handle),
      (∀ operation ∈ operations, operation.Writes fun role => role.isKnown = true) →
      h.id < (Container.run operations).store.size →
      ∀ e, ((Container.run operations).store.lower h.given).result = .error e →
        e.IsForProperty) ∧
    ∀ (s : Store) (root : Value) (t : Tree) (name : String),
      s.tree? root = .ok (some t) → (∀ x ∈ t.elements, x.2 = []) →
      t.elements.filter (fun x => !x.1.isKnown) = [(.other (.str name), [])] →
      (∃ place ∈ Tree.placesAll .block t.splice,
        place.node.role? = some (.other (.str name)) ∧ place.IsMet) →
      (s.lower root).result = .error (.unknownRole (.str name)) := by
  constructor
  · intro operations h hwrites hsize e he
    have H : (Container.run operations).store.Forest := (Container.consistent_run operations).forest
    have hroles := Container.rolesAre_run (fun _ hknown => hknown) hwrites
    obtain ⟨t, ht, -, hlower⟩ := H.exists_tree h hsize
    rw [hlower] at he
    exact Tree.isForProperty_of_known
      (fun x hx => hroles.of_hasElement (H.hasElement _ ht hx)) he
  · rintro s root t name htree hempty honly ⟨place, hplace, hrole, hmet⟩
    have hlower : (s.lower root).result = t.lower.result := by
      simp [Store.lower, htree, Except.mapError, lowerTree?]
    obtain ⟨e, he⟩ := Tree.exists_error_of_refuses hplace (Place.refuses_of_isMet hmet hrole)
    obtain ⟨given, hmem, rfl⟩ := Tree.exists_unknown_of_no_properties hempty he
    have hgiven : (.other given, []) ∈ t.elements.filter fun x => !x.1.isKnown :=
      List.mem_filter.mpr ⟨hmem, rfl⟩
    rw [honly] at hgiven
    obtain rfl : given = .str name := by simpa using hgiven
    rw [hlower, he]
    rfl

/-- An item in a quote, with a list whose start is no number and a fragment with an element whose
role is overwritten. -/
def figureInFragment : List Operation :=
  [.createElement (.str "blockquote") .null, .createElement (.str "listItem") .null,
    .createElement (.str "root") .null, .createElement (.str "image") .null,
    .createElement (.str "list") (.map [("start", .str "x")]),
    .appendChild (.int 0) (.int 1), .appendChild (.int 1) (.int 2),
    .appendChild (.int 2) (.int 3)]

/-- The list on its own is refused for its start; once the role of the image is overwritten, the
quote is refused for it. -/
theorem figure_is_refused :
    let before := (Container.run figureInFragment).store
    let after := (Container.run (figureInFragment ++ [.setRole (.int 3) (.str "figure")])).store
    (∃ e, (before.lower (.int 4)).result = .error e ∧ e.IsForProperty) ∧
    (after.lower (.int 0)).result = .error (.unknownRole (.str "figure")) := by
  intro before after
  obtain ⟨hknown, hunknown⟩ := unknown_roles_are_refused
  constructor
  · have hwrites : ∀ operation ∈ figureInFragment,
        operation.Writes fun role => role.isKnown = true := by
      simp [figureInFragment, Operation.Writes]
    have hrefused : (before.lower (.int 4)).result = .error
        (.property (.wrongType "number" (.str "x") (some "start"))) := rfl
    exact ⟨_, hrefused, hknown figureInFragment (.ofId 4) hwrites (by decide) _ hrefused⟩
  · have htree : after.tree? (.int 0) = .ok (some (.element (.int 0) .blockquote []
        [.element (.int 1) .listItem []
          [.element (.int 2) .root [] [.element (.int 3) (.other (.str "figure")) [] []]]])) := rfl
    exact hunknown after (.int 0) _ "figure" htree (by simp [Tree.elements, Tree.elementsAll])
      rfl ⟨⟨.block, .element (.int 3) (.other (.str "figure")) [] []⟩, by
        simp [Tree.splice, Tree.spliceAll, Tree.placesAll, Tree.places, Tree.childPosition?,
          Position.holds], rfl, .inl rfl⟩

end DocumentTree
