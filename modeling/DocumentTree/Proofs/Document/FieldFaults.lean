import DocumentTree.Document.Decoding
import DocumentTree.Proofs.Outcome

/-!
# What is wrong with the fields of a node

A node of a kind is read from entries and from what stands under them as children. It is refused
for what is wrong with an entry: a field that its kind needs is missing, the level of a heading is
none of the six, or what stands for metadata is no map. It is refused for nothing else but its
children, whatever its other fields hold.

## Main definitions

* `FailsFor x faults` — an operation fails for some faults, and only if there is one.
* `KindFault` — what is wrong with entries that name a kind, apart from their children.
-/

namespace DocumentTree

variable {α β : Type} {entries : Entries} {e : DecodeError}

/-! ## Failing for faults -/

/-- An operation that fails does so for one of the faults, and it fails where there is any. -/
structure FailsFor (x : Except DecodeError α) (faults : DecodeError → Prop) : Prop where
  of_error : ∀ e, x = .error e → faults e
  of_ok : ∀ a, x = .ok a → ∀ e, ¬ faults e

namespace FailsFor

variable {x : Except DecodeError α} {f : α → Except DecodeError β}
  {faults more : DecodeError → Prop}

theorem congr (h : FailsFor x faults) (hmore : ∀ e, faults e ↔ more e) : FailsFor x more where
  of_error e he := (hmore e).mp (h.of_error e he)
  of_ok a ha e := (not_congr (hmore e)).mp (h.of_ok a ha e)

theorem ok (a : α) (h : ∀ e, ¬ faults e) : FailsFor (.ok a) faults where
  of_error _ he := by cases he
  of_ok _ _ := h

theorem error {e : DecodeError} (h : faults e) :
    FailsFor (.error e : Except DecodeError α) faults where
  of_error _ he := Except.error.inj he ▸ h
  of_ok _ ha := by cases ha

/-- **A sequence fails for the faults of its parts.** -/
theorem bind (hx : FailsFor x faults) (hf : ∀ a, x = .ok a → FailsFor (f a) more) :
    FailsFor (x >>= f) fun e => faults e ∨ more e := by
  cases hresult : x with
  | error e => exact .error (.inl (hx.of_error e hresult))
  | ok a =>
    have hnone := hx.of_ok a hresult
    exact (hf a hresult).congr fun e => (or_iff_right (hnone e)).symm

theorem self (x : Except DecodeError α) : FailsFor x fun e => x = .error e where
  of_error _ h := h
  of_ok _ ha e he := by
    rw [ha] at he
    cases he

theorem pure (a : α) : FailsFor (pure a) fun _ => False :=
  .ok a fun _ => id

/-- An operation on each item of a list fails for the faults of the items. -/
theorem mapM {f : α → Except DecodeError β} {faults : α → DecodeError → Prop}
    (h : ∀ a, FailsFor (f a) (faults a)) (l : List α) :
    FailsFor (l.mapM f) fun e => ∃ a ∈ l, faults a e := by
  induction l with
  | nil => exact .ok [] (by simp)
  | cons a l ih =>
    rw [List.mapM_cons]
    refine ((h a).bind fun _ _ => ih.bind fun _ _ => .pure _).congr fun e => ?_
    simp

end FailsFor

/-! ## Reading one field -/

/-- A field that must be there is not. -/
def FieldForm.IsMissing (field : FieldForm) (entries : Entries) : Prop :=
  field.default? = none ∧ entries.get? field.name = none

theorem FieldForm.failsFor_read (entries : Entries) (field : FieldForm) :
    FailsFor (field.read entries) fun e => field.IsMissing entries ∧ e = .missing field.name := by
  rw [read]
  cases hvalue : (entries.get? field.name).or field.default? with
  | some v => exact .ok _ fun e he => by simp [he.1.1, he.1.2] at hvalue
  | none =>
    obtain ⟨hentry, hdefault⟩ := Option.or_eq_none_iff.mp hvalue
    exact .error ⟨⟨hdefault, hentry⟩, rfl⟩

/-- The metadata is there and stands for no map. -/
def MetadataFault (entries : Entries) (e : DecodeError) : Prop :=
  ∃ v error, entries.get? "metadata" = some v ∧ v.toMapping = .error error ∧ e = .metadata error

theorem failsFor_readMetadata (entries : Entries) :
    FailsFor (readMetadata entries) (MetadataFault entries) := by
  rw [readMetadata]
  cases hget : entries.get? "metadata" with
  | none => exact .ok _ (by simp [MetadataFault, hget])
  | some v =>
    dsimp only
    cases hmapping : v.toMapping with
    | error error => exact .error (e := .metadata error) ⟨v, error, hget, hmapping, rfl⟩
    | ok m => exact .ok m (by simp [MetadataFault, hget, hmapping])

/-! ## Reading a node of a kind -/

namespace RawNode

/-- The level of a heading is none of the six, or no number. -/
def LevelFault (kind : NodeKind) (entries : Entries) (e : DecodeError) : Prop :=
  kind = .heading ∧ ∃ level, entries.get? "level" = some level ∧
    (level.within? 1 6 = some false ∧ e = .levelOutOfRange level ∨
      level.within? 1 6 = none ∧ e = .wrongType "level")

/-- What is wrong with entries that name a kind, apart from their children. -/
def KindFault (kind : NodeKind) (entries : Entries) (e : DecodeError) : Prop :=
  (∃ field ∈ kind.form.fields, field.IsMissing entries ∧ e = .missing field.name) ∨
  LevelFault kind entries e ∨
  MetadataFault entries e

/-- The fields that are read for a heading hold its level. -/
theorem exists_level_of_mapM {fields : Entries}
    (h : NodeKind.heading.form.fields.mapM (FieldForm.read entries) = .ok fields) :
    ∃ level, entries.get? "level" = some level ∧ fields.get "level" = level := by
  have hform : NodeKind.heading.form.fields = [.needed "level"] := rfl
  rw [hform, List.mapM_cons, bind_eq_ok] at h
  obtain ⟨field, hfield, hrest⟩ := h
  obtain rfl : [field] = fields := by simpa using hrest
  rw [FieldForm.read] at hfield
  split at hfield
  · rename_i level hlevel
    obtain rfl := Except.ok.inj hfield
    refine ⟨level, ?_, rfl⟩
    simpa [FieldForm.needed] using hlevel
  · cases hfield

theorem failsFor_checked {kind : NodeKind} {fields : Entries}
    (h : kind.form.fields.mapM (FieldForm.read entries) = .ok fields) (children : List RawNode)
    (m : Metadata) :
    FailsFor (checked ⟨kind, fields, children, m⟩) (LevelFault kind entries) := by
  rw [checked]
  split
  · rename_i hkind
    obtain rfl : kind = .heading := hkind
    obtain ⟨level, hentry, hlevel⟩ := exists_level_of_mapM h
    simp only [hlevel]
    cases hwithin : level.within? 1 6 with
    | none => exact .error ⟨rfl, level, hentry, .inr ⟨hwithin, rfl⟩⟩
    | some inside =>
      cases inside with
      | true => exact .ok _ (by simp [LevelFault, hentry, hwithin])
      | false => exact .error ⟨rfl, level, hentry, .inl ⟨hwithin, rfl⟩⟩
  · rename_i hkind
    exact .ok _ fun e he => hkind he.1

/-- **A node of a kind is refused for what is wrong with its entries**, or with its children. -/
theorem failsFor_ofKind (kind : NodeKind) (entries : Entries) (branches : Branches) :
    FailsFor (ofKind kind entries branches) fun e =>
      KindFault kind entries e ∨
        ∃ field ∈ kind.form.children?, branches.under field = .error e := by
  have hchildren : FailsFor (branches.under? kind.form.children?)
      fun e => ∃ field ∈ kind.form.children?, branches.under field = .error e := by
    cases kind.form.children? with
    | some field => exact (FailsFor.self _).congr fun e => by simp
    | none => exact .ok [] (by simp)
  rw [ofKind]
  refine ((FailsFor.mapM (FieldForm.failsFor_read entries) _).bind fun fields hfields =>
    hchildren.bind fun children _ => (failsFor_readMetadata entries).bind fun m _ =>
      failsFor_checked hfields children m).congr fun e => ?_
  rw [KindFault]
  constructor
  · rintro (h | h | h | h)
    · exact .inl (.inl h)
    · exact .inr h
    · exact .inl (.inr (.inr h))
    · exact .inl (.inr (.inl h))
  · rintro ((h | h | h) | h)
    · exact .inl h
    · exact .inr (.inr (.inr h))
    · exact .inr (.inr (.inl h))
    · exact .inr (.inl h)

end RawNode

end DocumentTree
