import DocumentTree.Proofs.Store.Steps

/-!
# Which calls are refused

A call on a store is refused exactly where its contract bars it, and a refused call leaves the store
as it was, although it changes several records one after the other. In the contract a handle is any
value. One that names no record, or a record of the other kind, bars the call; so does a value of
the wrong type, a role outside the vocabulary, and a link that would close a loop.

## Main definitions

* `StoreCall` — the calls on a store; `StoreCall.steps` — what they do, step by step.
* `StoreCall.settled` — the answer of the operation that a call stands for.
* `Store.Unfit`, `StoreCall.Barred` — the contract.
-/

namespace DocumentTree

/-- A sequence is refused by its first part, or by what follows it. -/
theorem bind_error_iff {ε α β : Type} {x : Except ε α} {f : α → Except ε β} {P : Prop}
    (h : ∀ a, x = .ok a → ((∃ e, f a = .error e) ↔ P)) :
    (∃ e, (x >>= f) = .error e) ↔ (∃ e, x = .error e) ∨ P := by
  cases x with
  | ok a => simpa using h a rfl
  | error e => simp

/-- A call on a store, with the values given for its arguments. -/
inductive StoreCall where
  | createText (value : Value)
  | createElement (role properties : Value)
  | appendChild (parent child : Value)
  | insertBefore (parent child reference : Value)
  | removeChild (parent child : Value)
  | updateText (node value : Value)
  | updateProperties (node properties : Value)

/-! ## Reasons for a refusal -/

namespace Store

variable {s t : Store}

/-- The value names no record that may become a child of the element: it is unknown, it is the
element itself, or it is an ancestor of it. -/
def Unfit (s : Store) (parent child : Value) : Prop :=
  ¬ s.Names child ∨ child.index? = parent.index? ∨
    ∃ p c, parent.index? = some p ∧ child.index? = some c ∧ s.Ancestor c p

/-- The check before an attachment passes exactly what is fit. -/
theorem Forest.attachable_ok_iff (H : s.Forest) {p : Handle} (hp : s.IsElement p.id)
    {child : Value} : (∃ c, s.attachable p child = .ok c) ↔ ¬ s.Unfit p.given child := by
  simp only [H.attachable_eq_ok hp]
  constructor
  · rintro ⟨c, rfl, hat⟩ (hunknown | hself | ⟨q, d, hq, hd, hanc⟩)
    · exact hunknown ⟨c.id, c.index?_given, hat.known⟩
    · rw [c.index?_given, p.index?_given, Option.some.injEq] at hself
      exact hat.ne hself
    · rw [p.index?_given, Option.some.injEq] at hq
      rw [c.index?_given, Option.some.injEq] at hd
      subst hq hd
      exact hat.notAncestor hanc
  · intro hfit
    obtain ⟨hknown, hself, hanc⟩ : s.Names child ∧ child.index? ≠ p.given.index? ∧
        ¬ ∃ q c, p.given.index? = some q ∧ child.index? = some c ∧ s.Ancestor c q := by
      simpa [Unfit, not_or] using hfit
    obtain ⟨n, hn, hlt⟩ := hknown
    obtain ⟨c, rfl, rfl⟩ := Handle.exists_of_index? hn
    refine ⟨c, rfl, hp, hlt, fun heq => hself ?_, fun ha => hanc ?_⟩
    · rw [c.index?_given, p.index?_given, heq]
    · exact ⟨p.id, c.id, p.index?_given, c.index?_given, ha⟩

theorem Forest.attachable_error_iff (H : s.Forest) {p : Handle} (hp : s.IsElement p.id)
    {child : Value} : (∃ e, s.attachable p child = .error e) ↔ s.Unfit p.given child := by
  rw [exists_error_iff, H.attachable_ok_iff hp, not_not]

theorem Forest.appendChild_error_iff (H : s.Forest) {parent child : Value} :
    (∃ e, s.appendChild parent child = .error e) ↔
      ¬ s.NamesElement parent ∨ s.Unfit parent child := by
  rw [Store.appendChild, bind_error_iff (P := s.Unfit parent child), findElement_error_iff]
  rintro ⟨p, r⟩ hp
  obtain ⟨rfl, -⟩ := findElement_eq_ok.mp hp
  simp only
  rw [bind_error_iff (P := False) (by simp), or_false,
    H.attachable_error_iff (isElement_of_findElement hp)]

/-- Before what is no child, and before the node itself, nothing is inserted and nothing refused. -/
theorem Forest.insertBefore_error_iff (H : s.Forest) {parent child reference : Value} :
    (∃ e, s.insertBefore parent child reference = .error e) ↔
      ¬ s.NamesElement parent ∨
        (∃ p r, parent.index? = some p ∧ reference.index? = some r ∧ r ∈ s.childrenOf p ∧
          child.index? ≠ some r) ∧ s.Unfit parent child := by
  by_cases hparent : s.NamesElement parent
  · obtain ⟨p, rfl, hp⟩ := hparent.exists_handle
    simp only [hparent, not_true_eq_false, false_or, p.index?_given, Option.some.injEq]
    rw [hp.insertBefore_eq]
    cases hn : named? reference (s.childrenOf p.id) with
    | none =>
      simp only [reduceCtorEq, exists_false, false_iff]
      rintro ⟨⟨_, r, rfl, hr, hmem, -⟩, -⟩
      exact named?_eq_none_iff.mp hn r hr hmem
    | some n =>
      obtain ⟨hr, hmem⟩ := named?_eq_some_iff.mp hn
      by_cases hself : child.index? = some n
      · simp only [if_pos hself, reduceCtorEq, exists_false, false_iff]
        rintro ⟨⟨_, r, rfl, hr', -, hne⟩, -⟩
        exact hne (hself.trans (hr.symm.trans hr'))
      · have hplace : ∃ q r, p.id = q ∧ reference.index? = some r ∧ r ∈ s.childrenOf q ∧
            child.index? ≠ some r := ⟨p.id, n, rfl, hr, hmem, hself⟩
        simp only [if_neg hself]
        rw [bind_error_iff (P := False) (by simp), or_false, H.attachable_error_iff hp]
        simp only [hplace, true_and]
  · simp only [hparent, not_false_eq_true, true_or, iff_true]
    obtain ⟨e, he⟩ := findElement_error_iff.mpr hparent
    exact ⟨e, by rw [Store.insertBefore, he, error_bind]⟩

theorem removeChild_error_iff {parent child : Value} :
    (∃ e, s.removeChild parent child = .error e) ↔ ¬ s.NamesElement parent := by
  rw [exists_error_iff, not_iff_not]
  constructor
  · rintro ⟨x, h⟩
    exact namesElement_of_removeChild h
  · intro hparent
    obtain ⟨p, rfl, hp⟩ := hparent.exists_handle
    rw [hp.removeChild_eq]
    split <;> exact ⟨_, rfl⟩

theorem createText_error_iff {value : Value} :
    (∃ e, s.createText value = .error e) ↔ ¬ ∃ text, value = .str text := by
  cases value <;> simp [Store.createText]

theorem propertyMap_error_iff {v : Value} :
    (∃ e, propertyMap v = .error e) ↔ ¬ ∃ entries, v = .map entries := by
  cases v <;> simp [propertyMap]

theorem knownRole_error_iff {v : Value} :
    (∃ e, knownRole v = .error e) ↔ ¬ ∃ role ∈ Role.vocabulary, role.toValue = v := by
  rw [← Role.isKnown_ofValue_iff, knownRole]
  split <;> simp_all

theorem createElement_error_iff {role properties : Value} :
    (∃ e, s.createElement role properties = .error e) ↔
      (¬ ∃ known ∈ Role.vocabulary, known.toValue = role) ∨
        properties ≠ .null ∧ ¬ ∃ entries, properties = .map entries := by
  rw [← knownRole_error_iff, ← propertyMap_error_iff, Store.createElement]
  refine bind_error_iff fun known _ => ?_
  cases properties with
  | null => simp
  | _ =>
    rw [bind_error_iff (P := False) (by simp)]
    simp

theorem updateText_error_iff {handle value : Value} :
    (∃ e, s.updateText handle value = .error e) ↔
      ¬ s.NamesText handle ∨ ¬ ∃ text, value = .str text := by
  have hfound : ∀ x, s.find handle = .ok x → (s.NamesText handle ↔ x.2.isText = true) := by
    rintro ⟨h, r⟩ hfind
    obtain ⟨rfl, hr⟩ := find_eq_ok.mp hfind
    simp [NamesText, h.index?_given, hr]
  have hunknown : (∃ e, s.find handle = .error e) → ¬ s.NamesText handle := by
    rintro herror ⟨n, r, hn, hr, -⟩
    exact exists_error_iff.mp herror (find_ok_iff.mpr ⟨n, hn, lt_size_of_get? hr⟩)
  rw [Store.updateText, bind_error_iff (P := ¬ s.NamesText handle ∨ ¬ ∃ text, value = .str text),
    or_iff_right_of_imp fun h => .inl (hunknown h)]
  intro x hx
  rw [hfound x hx]
  cases htext : x.2.isText with
  | false => simp [htext]
  | true => cases value <;> simp [htext]

theorem updateProperties_error_iff {handle properties : Value} :
    (∃ e, s.updateProperties handle properties = .error e) ↔
      ¬ s.NamesElement handle ∨ ¬ ∃ entries, properties = .map entries := by
  rw [Store.updateProperties, ← findElement_error_iff, ← propertyMap_error_iff]
  refine bind_error_iff fun found _ => ?_
  rw [bind_error_iff (P := False) (by simp), or_false]

/-! ### Broken invariants -/

/-- A refusal, if there is one, is for an invariant that would be broken. -/
def BreaksOnly {α : Type} (x : Except StoreError α) : Prop :=
  ∀ e, x = .error e → e.broken?.isSome = true

theorem BreaksOnly.ok {α : Type} (a : α) : BreaksOnly (.ok a) := by
  intro e h
  cases h

theorem BreaksOnly.error {α : Type} {e : StoreError} (h : e.broken?.isSome = true) :
    BreaksOnly (.error e : Except StoreError α) := by
  rintro _ ⟨⟩
  exact h

theorem BreaksOnly.bind {α β : Type} {x : Except StoreError α} {f : α → Except StoreError β}
    (hx : BreaksOnly x) (hf : ∀ a, BreaksOnly (f a)) : BreaksOnly (x >>= f) := by
  cases x with
  | ok a => exact hf a
  | error e => exact .error (hx e rfl)

theorem breaksOnly_find {v : Value} (hv : v.isKey = true) : BreaksOnly (s.find v) := by
  rw [find, if_pos hv]
  split
  · split
    · exact .ok _
    · exact .error rfl
  · exact .error rfl

theorem breaksOnly_findElement {v : Value} (hv : v.isKey = true) :
    BreaksOnly (s.findElement v) := by
  refine (breaksOnly_find hv).bind fun ⟨h, r⟩ => ?_
  cases htext : r.isText with
  | true =>
    simp only [htext, if_true]
    exact .error rfl
  | false =>
    simp only [htext]
    exact .ok _

theorem breaksOnly_attachable {p : Handle} {child : Value} (hchild : child.isKey = true) :
    BreaksOnly (s.attachable p child) := by
  refine (breaksOnly_find hchild).bind fun ⟨c, r⟩ => ?_
  simp only
  split
  · exact .error rfl
  · split
    · exact .error rfl
    · exact .ok _

theorem breaksOnly_appendChild {parent child : Value} (hparent : parent.isKey = true)
    (hchild : child.isKey = true) : BreaksOnly (s.appendChild parent child) :=
  (breaksOnly_findElement hparent).bind fun _ =>
    (breaksOnly_attachable hchild).bind fun _ => .ok _

theorem breaksOnly_insertBefore {parent child : Value} (hparent : parent.isKey = true)
    (hchild : child.isKey = true) (reference : Value) :
    BreaksOnly (s.insertBefore parent child reference) := by
  refine (breaksOnly_findElement hparent).bind fun ⟨p, r⟩ => ?_
  simp only
  split
  · exact .ok _
  · split
    · exact .ok _
    · exact (breaksOnly_attachable hchild).bind fun _ => .ok _

theorem breaksOnly_removeChild {parent : Value} (hparent : parent.isKey = true) (child : Value) :
    BreaksOnly (s.removeChild parent child) := by
  refine (breaksOnly_findElement hparent).bind fun ⟨p, r⟩ => ?_
  simp only
  split <;> exact .ok _

end Store

/-! ## The contract -/

namespace StoreCall

/-- What a call does, step by step. -/
def steps : StoreCall → Steps Unit
  | createText value => Steps.createText value
  | createElement role properties => Steps.createElement role properties
  | appendChild parent child => Steps.appendChild parent child
  | insertBefore parent child reference => Steps.insertBefore parent child reference
  | removeChild parent child => Steps.removeChild parent child
  | updateText node value => Steps.updateText node value
  | updateProperties node properties => Steps.updateProperties node properties

/-- The answer of the operation that the call stands for: the store that it gives, or its refusal
and the store as it was. -/
def settled (s : Store) : StoreCall → Except Fault Unit × Store
  | createText value => s.settle Prod.snd (s.createText value)
  | createElement role properties => s.settle Prod.snd (s.createElement role properties)
  | appendChild parent child => s.settle id (s.appendChild parent child)
  | insertBefore parent child reference =>
    s.settle Prod.fst (s.insertBefore parent child reference)
  | removeChild parent child => s.settle Prod.fst (s.removeChild parent child)
  | updateText node value => s.settle id (s.updateText node value)
  | updateProperties node properties => s.settle id (s.updateProperties node properties)

/-- The calls that the contract bars. -/
def Barred (s : Store) : StoreCall → Prop
  | createText value => ¬ ∃ text, value = .str text
  | createElement role properties =>
    (¬ ∃ known ∈ Role.vocabulary, known.toValue = role) ∨
      properties ≠ .null ∧ ¬ ∃ entries, properties = .map entries
  | appendChild parent child => ¬ s.NamesElement parent ∨ s.Unfit parent child
  | insertBefore parent child reference =>
    ¬ s.NamesElement parent ∨
      (∃ p r, parent.index? = some p ∧ reference.index? = some r ∧ r ∈ s.childrenOf p ∧
        child.index? ≠ some r) ∧ s.Unfit parent child
  | removeChild parent _ => ¬ s.NamesElement parent
  | updateText node value => ¬ s.NamesText node ∨ ¬ ∃ text, value = .str text
  | updateProperties node properties =>
    ¬ s.NamesElement node ∨ ¬ ∃ entries, properties = .map entries

/-- The call changes links, and its handles can be keys, as every integer can. -/
def LinksByKeys : StoreCall → Prop
  | appendChild parent child | insertBefore parent child _ =>
    parent.isKey = true ∧ child.isKey = true
  | removeChild parent _ => parent.isKey = true
  | _ => False

end StoreCall

namespace Store

variable {s : Store}

/-- **In a forest, the steps of a call do what its operation does**, as a whole or not at all. -/
theorem Forest.runOn_steps (H : s.Forest) (call : StoreCall) :
    call.steps.runOn s = call.settled s := by
  cases call with
  | createText value => exact runOn_createText s value
  | createElement role properties => exact runOn_createElement s role properties
  | appendChild parent child => exact H.runOn_appendChild parent child
  | insertBefore parent child reference => exact H.runOn_insertBefore parent child reference
  | removeChild parent child => exact H.runOn_removeChild parent child
  | updateText node value => exact runOn_updateText s node value
  | updateProperties node properties => exact runOn_updateProperties s node properties

theorem settle_error_iff {α : Type} {after : α → Store} {x : Except StoreError α} :
    (∃ fault, (s.settle after x).1 = .error fault) ↔ ∃ e, x = .error e := by
  cases x <;> simp [settle]

/-- A refusal of what is settled comes from the operation, and leaves the store. -/
theorem settle_of_error {α : Type} {after : α → Store} {x : Except StoreError α} {fault : Fault}
    {K : Prop} (hK : K → BreaksOnly x) (h : (s.settle after x).1 = .error fault) :
    (s.settle after x).2 = s ∧ ∃ e, fault = .refused e ∧ (K → e.broken?.isSome = true) := by
  cases x with
  | ok a => cases h
  | error e =>
    obtain rfl : Fault.refused e = fault := by simpa [settle] using h
    exact ⟨rfl, e, rfl, fun k => hK k e rfl⟩

/-- An operation is refused exactly where the contract bars the call. -/
theorem Forest.settled_error_iff (H : s.Forest) (call : StoreCall) :
    (∃ fault, (call.settled s).1 = .error fault) ↔ call.Barred s := by
  cases call <;> simp only [StoreCall.settled, settle_error_iff, StoreCall.Barred]
  case createText => exact createText_error_iff
  case createElement => exact createElement_error_iff
  case appendChild => exact H.appendChild_error_iff
  case insertBefore => exact H.insertBefore_error_iff
  case removeChild => exact removeChild_error_iff
  case updateText => exact updateText_error_iff
  case updateProperties => exact updateProperties_error_iff

/-- A refused operation leaves the store, and one on links would break an invariant. -/
theorem settled_of_error {call : StoreCall} {fault : Fault}
    (h : (call.settled s).1 = .error fault) :
    (call.settled s).2 = s ∧
      ∃ e, fault = .refused e ∧ (call.LinksByKeys → e.broken?.isSome = true) := by
  cases call with
  | appendChild parent child =>
    exact settle_of_error (fun ⟨hparent, hchild⟩ => breaksOnly_appendChild hparent hchild) h
  | insertBefore parent child reference =>
    exact settle_of_error
      (fun ⟨hparent, hchild⟩ => breaksOnly_insertBefore hparent hchild reference) h
  | removeChild parent child =>
    exact settle_of_error (fun hparent => breaksOnly_removeChild hparent child) h
  | _ => exact settle_of_error False.elim h

end Store

/-- **A call is refused exactly where its contract bars it, and then it changes nothing.** After any
run of operations, the steps of a call do what its operation does. They stop exactly where the
contract says so: at a check, before anything is changed, so the store and the next free number stay
as they were. A call on links that is refused would break an invariant. -/
theorem refused_calls_change_nothing (operations : List Operation) (call : StoreCall) :
    let s := (Container.run operations).store
    let answer := call.steps.runOn s
    answer = call.settled s ∧
    ((∃ fault, answer.1 = .error fault) ↔ call.Barred s) ∧
    ∀ fault, answer.1 = .error fault →
      answer.2 = s ∧ ∃ e, fault = .refused e ∧ (call.LinksByKeys → e.broken?.isSome = true) := by
  intro s answer
  have H : s.Forest := (Container.consistent_run operations).forest
  have hanswer : answer = call.settled s := H.runOn_steps call
  refine ⟨hanswer, ?_, fun fault h => ?_⟩
  · rw [hanswer]
    exact H.settled_error_iff call
  · rw [hanswer] at h ⊢
    exact Store.settled_of_error h

/-- Two elements, one in the other. -/
def nestedPair : List Operation :=
  [.createElement (.str "blockquote") .null, .createElement (.str "paragraph") .null,
    .appendChild (.int 0) (.int 1)]

/-- Closing the loop is barred, so it is refused and the pair stays as it is. -/
theorem closing_loop_changes_nothing :
    let s := (Container.run nestedPair).store
    let call : StoreCall := .appendChild (.int 1) (.int 0)
    let answer := call.steps.runOn s
    call.Barred s ∧ call.LinksByKeys ∧ answer.2 = s ∧
      ∃ e, answer.1 = .error (.refused e) ∧ e.broken?.isSome = true := by
  obtain ⟨-, hbarred, hkept⟩ :=
    refused_calls_change_nothing nestedPair (.appendChild (.int 1) (.int 0))
  have hloop : (Container.run nestedPair).store.Ancestor 0 1 := .single rfl
  have hbar : (StoreCall.appendChild (.int 1) (.int 0)).Barred (Container.run nestedPair).store :=
    .inr (.inr (.inr ⟨1, 0, rfl, rfl, hloop⟩))
  obtain ⟨fault, hfault⟩ := hbarred.mpr hbar
  obtain ⟨hsame, e, rfl, hbroken⟩ := hkept fault hfault
  exact ⟨hbar, ⟨rfl, rfl⟩, hsame, e, hfault, hbroken ⟨rfl, rfl⟩⟩

end DocumentTree
