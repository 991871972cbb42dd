/-!
# Results with reports

A computation that may be refused and reports on the way. The reports made before a refusal are
kept.

## Main definitions

* `Traced ν ε α` — reports of type `ν`, and a result of type `α` or a refusal of type `ε`.
* `Traced.report`, `Traced.reportAll` — one report, and several.
* `Traced.refuse`, `Traced.lift` — a refusal, and a result without reports.
* `Traced.mapNotices`, `Traced.mapError` — other forms of reports and refusals.
-/

namespace DocumentTree

/-- Reports in order, and a result or a refusal. -/
structure Traced (ν ε α : Type) where
  /-- The reports, in order. -/
  notices : List ν
  /-- The result, or the refusal. -/
  result : Except ε α

namespace Traced

variable {ν ε α β : Type}

/-- A result without reports. -/
protected def pure (a : α) : Traced ν ε α := ⟨[], .ok a⟩

/-- A computation after another. A refusal ends the sequence. -/
protected def bind (x : Traced ν ε α) (f : α → Traced ν ε β) : Traced ν ε β :=
  match x.result with
  | .error e => ⟨x.notices, .error e⟩
  | .ok a => ⟨x.notices ++ (f a).notices, (f a).result⟩

instance : Monad (Traced ν ε) where
  pure := Traced.pure
  bind := Traced.bind

/-- One report. -/
def report (notice : ν) : Traced ν ε Unit := ⟨[notice], .ok ()⟩

/-- Several reports, in order. -/
def reportAll (notices : List ν) : Traced ν ε Unit := ⟨notices, .ok ()⟩

/-- A refusal. -/
def refuse (e : ε) : Traced ν ε α := ⟨[], .error e⟩

/-- A result or refusal without reports. -/
def lift (x : Except ε α) : Traced ν ε α := ⟨[], x⟩

/-- The reports in another form. -/
def mapNotices {μ : Type} (f : ν → μ) (x : Traced ν ε α) : Traced μ ε α :=
  ⟨x.notices.map f, x.result⟩

/-- The refusal in another form. -/
def mapError {δ : Type} (f : ε → δ) (x : Traced ν ε α) : Traced ν δ α :=
  ⟨x.notices, x.result.mapError f⟩

@[simp] theorem notices_pure (a : α) : (pure a : Traced ν ε α).notices = [] := rfl

@[simp] theorem result_pure (a : α) : (pure a : Traced ν ε α).result = .ok a := rfl

/-- The result of a sequence is that of its parts, whatever they report. -/
theorem result_bind (x : Traced ν ε α) (f : α → Traced ν ε β) :
    (x >>= f).result = x.result.bind fun a => (f a).result := by
  show (Traced.bind x f).result = _
  unfold Traced.bind
  cases x.result <;> rfl

end Traced

end DocumentTree
