import DocumentTree.Proofs.Store.Moves

/-!
# Calls step by step

A call checks its arguments and then changes several records, one after the other. Each step may
find that something it relies on is missing: a record that a link names, or an entry of a list. A
call that stops there keeps what it has changed before.

In a forest this never happens: once the checks are passed, no later step can fail. So a call either
does all that the operation does, or it is refused by a check and the store is as it was.

## Main definitions

* `Fault`, `Steps` — steps on a store, which may stop halfway.
* `Steps.appendChild`, `Steps.insertBefore`, `Steps.removeChild` and so on — the calls as steps.
* `Store.settle` — the answer of a call that is done as a whole or not at all.
-/

namespace DocumentTree

/-- Why steps stop. -/
inductive Fault where
  /-- A check refuses the call. -/
  | refused (error : StoreError)
  /-- A record that a link or a list names is not there. -/
  | missing (n : NodeId)
  /-- A record is not in the list where its place is looked up. -/
  | unlisted (n : NodeId)

/-- Steps that read and change a store. Where they stop, what they have changed stays changed. -/
abbrev Steps (α : Type) := ExceptT Fault (StateM Store) α

namespace Steps

variable {α β : Type}

/-- The answer of the steps on a store, and the store afterwards. -/
def runOn (x : Steps α) (s : Store) : Except Fault α × Store :=
  (ExceptT.run x).run s

/-- A question to the store, which may be a check. -/
def check (f : Store → Except StoreError α) : Steps α := do
  match f (← get) with
  | .ok a => return a
  | .error e => throw (.refused e)

/-- A new record at the next free number. -/
def allocate (r : Record) : Steps NodeId := do
  let n := (← get).size
  modify fun s => s.push r
  return n

/-- Another link to a parent for a record, which must be there. -/
def relink (n : NodeId) (link : Option Link) : Steps Unit := do
  match (← get).get? n with
  | none => throw (.missing n)
  | some _ => modify fun s => s.setLink n link

/-- A node taken out of its parent, which must be an element. -/
def detach (n : NodeId) : Steps Unit := do
  match (← get).get? n with
  | none => throw (.missing n)
  | some r =>
    match r.link with
    | none => return
    | some link =>
      let (p, parent) ← check fun s => s.findElement link.parent.given
      if n ∈ parent.children then
        modify fun s => s.setChildren p.id fun ids => ids.erase n
      relink n none

/-! ## The calls -/

/-- A new text without a parent. -/
def createText (value : Value) : Steps Unit :=
  match value with
  | .str text => discard (allocate { content := .text text })
  | v => throw (.refused (.property (.wrongType "string" v (some "value"))))

/-- A new element without children and parent. Missing properties are none. -/
def createElement (role properties : Value) : Steps Unit := do
  let role ← check fun _ => Store.knownRole role
  let properties ← match properties with
    | .null => pure []
    | v => check fun _ => Store.propertyMap v
  discard (allocate { content := .element role properties [] })

/-- A node made the last child of an element. -/
def appendChild (parent child : Value) : Steps Unit := do
  let (p, _) ← check fun s => s.findElement parent
  let c ← check fun s => s.attachable p child
  detach c.id
  modify fun s => s.setChildren p.id fun ids => ids ++ [c.id]
  relink c.id (some ⟨p, c.given⟩)

/-- A node made a child of an element, right before another child. The place is looked up when the
node has been taken out of its old one. -/
def insertBefore (parent child reference : Value) : Steps Unit := do
  let (p, r) ← check fun s => s.findElement parent
  match Store.named? reference r.children with
  | none => return
  | some n =>
    if child.index? = some n then return
    let c ← check fun s => s.attachable p child
    detach c.id
    match ((← get).childrenOf p.id).idxOf? n with
    | none => throw (.unlisted n)
    | some i =>
      modify fun s => s.setChildren p.id fun ids => ids.insertIdx i c.id
      relink c.id (some ⟨p, c.given⟩)

/-- A child taken out of an element. -/
def removeChild (parent child : Value) : Steps Unit := do
  let (p, r) ← check fun s => s.findElement parent
  match Store.named? child r.children with
  | none => return
  | some c =>
    modify fun s => s.setChildren p.id fun ids => ids.erase c
    relink c none

/-- Another value for a text. -/
def updateText (handle value : Value) : Steps Unit := do
  let (h, r) ← check fun s => s.find handle
  if !r.isText then throw (.refused (.notAText handle))
  match value with
  | .str text => modify fun s => s.modify h.id fun r => { r with content := .text text }
  | v => throw (.refused (.property (.wrongType "string" v (some "value"))))

/-- Another property map for an element. -/
def updateProperties (handle properties : Value) : Steps Unit := do
  let (h, _) ← check fun s => s.findElement handle
  let properties ← check fun _ => Store.propertyMap properties
  modify fun s => s.modify h.id (Store.withProperties properties)

/-! ## Running steps -/

section Running

variable {s t : Store} {x : Steps α} {f : α → Steps β}

theorem runOn_bind (x : Steps α) (f : α → Steps β) (s : Store) :
    (x >>= f).runOn s =
      match x.runOn s with
      | (.ok a, t) => (f a).runOn t
      | (.error e, t) => (.error e, t) := by
  unfold runOn
  rw [ExceptT.run_bind, StateT.run_bind]
  obtain ⟨_ | _, t⟩ := (ExceptT.run x).run s <;> rfl

theorem runOn_bind_ok {a : α} (h : x.runOn s = (.ok a, t)) :
    (x >>= f).runOn s = (f a).runOn t := by
  rw [runOn_bind, h]

theorem runOn_bind_error {e : Fault} (h : x.runOn s = (.error e, t)) :
    (x >>= f).runOn s = (.error e, t) := by
  rw [runOn_bind, h]

@[simp] theorem runOn_pure (a : α) (s : Store) : (pure a : Steps α).runOn s = (.ok a, s) := rfl

@[simp] theorem runOn_modify (g : Store → Store) (s : Store) :
    (modify g : Steps PUnit).runOn s = (.ok (), g s) := rfl

@[simp] theorem runOn_get_bind (s : Store) (g : Store → Steps β) :
    ((get : Steps Store) >>= g).runOn s = (g s).runOn s := rfl

theorem runOn_check_ok {g : Store → Except StoreError α} {a : α} (h : g s = .ok a) :
    (check g).runOn s = (.ok a, s) := by
  rw [check, runOn_get_bind, h]
  rfl

theorem runOn_check_error {g : Store → Except StoreError α} {e : StoreError}
    (h : g s = .error e) : (check g).runOn s = (.error (.refused e), s) := by
  rw [check, runOn_get_bind, h]
  rfl

/-- A known record can be linked. -/
theorem runOn_relink {n : NodeId} (hn : n < s.size) (link : Option Link) :
    (relink n link).runOn s = (.ok (), s.setLink n link) := by
  obtain ⟨r, hr⟩ := Store.lt_size_iff.mp hn
  rw [relink, runOn_get_bind, hr]
  rfl

end Running

end Steps

/-! ## Calls are done as a whole or not at all -/

namespace Store

variable {α β : Type} {s t : Store}

/-- The answer of a call that is done as a whole or not at all: the store that the operation gives,
or its refusal and the store as it was. -/
def settle (s : Store) (after : α → Store) : Except StoreError α → Except Fault Unit × Store
  | .ok a => (.ok (), after a)
  | .error e => (.error (.refused e), s)

/-- A check before anything is changed is settled by what follows it. -/
theorem runOn_check_bind {g : Store → Except StoreError β} {f : β → Steps Unit}
    {k : β → Except StoreError α} {after : α → Store}
    (h : ∀ b, g s = .ok b → (f b).runOn s = s.settle after (k b)) :
    (Steps.check g >>= f).runOn s = s.settle after (g s >>= k) := by
  cases hg : g s with
  | ok b => rw [Steps.runOn_bind_ok (Steps.runOn_check_ok hg), h b hg, ok_bind]
  | error e =>
    rw [Steps.runOn_bind_error (Steps.runOn_check_error hg), error_bind]
    rfl

/-! ### Links -/

/-- A known record of a forest can always be taken out of its parent. -/
theorem Forest.runOn_detach (H : s.Forest) {c : NodeId} (hc : c < s.size) :
    (Steps.detach c).runOn s = (.ok (), s.detach c) := by
  obtain ⟨r, hr⟩ := lt_size_iff.mp hc
  rw [Steps.detach, Steps.runOn_get_bind, hr]
  cases hlink : r.link with
  | none =>
    have hparent : s.parent? c = none := by simp [parent?_eq_map, hr, hlink]
    rw [detach_of_parent?_eq_none hparent]
    simp only [hlink, Steps.runOn_pure]
  | some link =>
    have hparent : s.parent? c = some link.parent.id := by simp [parent?_eq_map, hr, hlink]
    obtain ⟨q, hq, hkids⟩ := (H.isElement_parent hparent).findElement
    have hmem : c ∈ q.children := hkids ▸ (H.mem_childrenOf _ c).mpr hparent
    rw [detach_of_parent? hparent, Store.cut]
    simp only [hlink]
    rw [Steps.runOn_bind_ok (Steps.runOn_check_ok hq), if_pos hmem,
      Steps.runOn_bind_ok (Steps.runOn_modify _ s), Steps.runOn_relink (by simpa using hc)]

theorem Forest.runOn_appendChild (H : s.Forest) (parent child : Value) :
    (Steps.appendChild parent child).runOn s = s.settle id (s.appendChild parent child) := by
  refine runOn_check_bind fun ⟨p, q⟩ hp => runOn_check_bind fun c hc => ?_
  have hat := ((H.attachable_eq_ok (isElement_of_findElement hp)).mp hc).2
  rw [Steps.runOn_bind_ok (H.runOn_detach hat.known), Steps.runOn_bind_ok (Steps.runOn_modify _ _),
    Steps.runOn_relink (by simpa using hat.known)]
  rfl

/-- The place of a reference that is in the list. -/
theorem insertBeforeIn_eq_insertIdx {reference : NodeId} (item : NodeId) {ids : List NodeId}
    (h : reference ∈ ids) :
    ∃ i, ids.idxOf? reference = some i ∧
      insertBeforeIn reference item ids = ids.insertIdx i item := by
  induction ids with
  | nil => cases h
  | cons n ns ih =>
    by_cases hn : n = reference
    · exact ⟨0, by simp [List.idxOf?_cons, hn], by simp [insertBeforeIn, hn]⟩
    · obtain ⟨i, hi, hplace⟩ := ih (by simpa [Ne.symm hn] using h)
      exact ⟨i + 1, by simp [List.idxOf?_cons, hn, hi], by simp [insertBeforeIn, hn, hplace]⟩

/-- Other children are determined by what they are where the children were. -/
theorem setChildren_congr {n : NodeId} {f g : List NodeId → List NodeId}
    (h : f (s.childrenOf n) = g (s.childrenOf n)) : s.setChildren n f = s.setChildren n g := by
  have hrecords : (s.setChildren n f).records = (s.setChildren n g).records := by
    refine Array.ext_getElem? fun m => ?_
    show (s.setChildren n f).get? m = (s.setChildren n g).get? m
    refine get?_eq_of_content?_of_link? ?_ (by simp)
    rw [content?_setChildren, content?_setChildren]
    split
    · rename_i hm
      subst hm
      cases hcontent : s.content? m with
      | none => rfl
      | some content =>
        cases content with
        | text value => rfl
        | element role properties ids =>
          rw [childrenOf_of_content? hcontent] at h
          rw [Option.map_some, Option.map_some, Content.mapChildren, Content.mapChildren, h]
    · rfl
  exact congrArg Store.mk hrecords

theorem Forest.runOn_insertBefore (H : s.Forest) (parent child reference : Value) :
    (Steps.insertBefore parent child reference).runOn s =
      s.settle Prod.fst (s.insertBefore parent child reference) := by
  refine runOn_check_bind fun ⟨p, q⟩ hp => ?_
  obtain ⟨-, hq, -⟩ := findElement_eq_ok.mp hp
  cases hn : named? reference q.children with
  | none => simp only [hn]; rfl
  | some n =>
    simp only [hn]
    by_cases hself : child.index? = some n
    · simp only [hself, if_true]
      rfl
    · simp only [if_neg hself]
      refine runOn_check_bind fun c hc => ?_
      obtain ⟨rfl, hat⟩ := (H.attachable_eq_ok (isElement_of_findElement hp)).mp hc
      rw [Steps.runOn_bind_ok (H.runOn_detach hat.known), Steps.runOn_get_bind]
      -- the reference is another child, so it has not been taken out
      have hmem : n ∈ (s.detach c.id).childrenOf p.id := by
        rw [H.childrenOf_detach, childrenOf_eq hq, List.mem_filter]
        refine ⟨(named?_eq_some_iff.mp hn).2, ?_⟩
        simpa [c.index?_given] using Ne.symm hself
      obtain ⟨i, hi, hplace⟩ := insertBeforeIn_eq_insertIdx c.id hmem
      have hsame : (s.detach c.id).setChildren p.id (fun ids => ids.insertIdx i c.id) =
          (s.detach c.id).setChildren p.id (insertBeforeIn n c.id) :=
        setChildren_congr hplace.symm
      simp only [hi]
      rw [Steps.runOn_bind_ok (Steps.runOn_modify _ _),
        Steps.runOn_relink (by simpa using hat.known), hsame]
      rfl

theorem Forest.runOn_removeChild (H : s.Forest) (parent child : Value) :
    (Steps.removeChild parent child).runOn s =
      s.settle Prod.fst (s.removeChild parent child) := by
  refine runOn_check_bind fun ⟨p, q⟩ hp => ?_
  obtain ⟨-, hq, -⟩ := findElement_eq_ok.mp hp
  cases hc : named? child q.children with
  | none => simp only [hc]; rfl
  | some c =>
    have hmem : c ∈ s.childrenOf p.id := childrenOf_eq hq ▸ (named?_eq_some_iff.mp hc).2
    have hknown : c < s.size := lt_size_of_parent? ((H.mem_childrenOf p.id c).mp hmem)
    simp only [hc]
    rw [Steps.runOn_bind_ok (Steps.runOn_modify _ _), Steps.runOn_relink (by simpa using hknown)]
    rfl

/-! ### Creation and contents -/

theorem runOn_createText (s : Store) (value : Value) :
    (Steps.createText value).runOn s = s.settle Prod.snd (s.createText value) := by
  cases value <;> rfl

theorem runOn_createElement (s : Store) (role properties : Value) :
    (Steps.createElement role properties).runOn s =
      s.settle Prod.snd (s.createElement role properties) := by
  refine runOn_check_bind fun role _ => ?_
  cases properties with
  | null => rfl
  | _ => exact runOn_check_bind fun _ _ => rfl

theorem runOn_updateText (s : Store) (handle value : Value) :
    (Steps.updateText handle value).runOn s = s.settle id (s.updateText handle value) := by
  refine runOn_check_bind fun ⟨h, r⟩ _ => ?_
  simp only
  cases r.isText with
  | false => rfl
  | true => cases value <;> rfl

theorem runOn_updateProperties (s : Store) (handle properties : Value) :
    (Steps.updateProperties handle properties).runOn s =
      s.settle id (s.updateProperties handle properties) :=
  runOn_check_bind fun _ _ => runOn_check_bind fun _ _ => rfl

end Store

end DocumentTree
