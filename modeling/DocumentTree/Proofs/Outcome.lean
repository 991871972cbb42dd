import DocumentTree.Traced
import Mathlib.Tactic.Common

/-!
# When a sequence of steps succeeds

A sequence of steps gives a result exactly when each step gives one in turn. Whatever an operation
has checked before it gave its result is read off its text with these rules. Where it gives a
result, it has made the reports of all its steps.
-/

namespace DocumentTree

variable {ε δ ν α β : Type}

/-! ## Results or refusals -/

@[simp] theorem bind_eq_ok {x : Except ε α} {f : α → Except ε β} {b : β} :
    (x >>= f) = .ok b ↔ ∃ a, x = .ok a ∧ f a = .ok b := by
  cases x <;> simp [bind, Except.bind]

@[simp] theorem pure_eq_ok {a b : α} : (pure a : Except ε α) = .ok b ↔ a = b := by
  simp [pure, Except.pure]

@[simp] theorem mapError_eq_ok {x : Except ε α} {f : ε → δ} {a : α} :
    x.mapError f = .ok a ↔ x = .ok a := by
  cases x <;> simp [Except.mapError]

@[simp] theorem pure_eq (a : α) : (pure a : Except ε α) = .ok a := rfl

@[simp] theorem throw_eq (e : ε) : (throw e : Except ε α) = .error e := rfl

@[simp] theorem ok_bind (a : α) (f : α → Except ε β) : ((.ok a : Except ε α) >>= f) = f a := rfl

@[simp] theorem error_bind (e : ε) (f : α → Except ε β) :
    ((.error e : Except ε α) >>= f) = .error e := rfl

@[simp] theorem bind_ok (x : Except ε α) : (x >>= fun a => .ok a) = x :=
  bind_pure x

/-! ## Results with reports -/

namespace Traced

theorem pure_bind_eq (a : α) (f : α → Traced ν ε β) : (pure a >>= f) = f a := rfl

/-- The result of a sequence is the sequence of the results. -/
@[simp] theorem result_bind_eq (x : Traced ν ε α) (f : α → Traced ν ε β) :
    (x >>= f).result = x.result >>= fun a => (f a).result :=
  result_bind x f

theorem result_bind_eq_ok {x : Traced ν ε α} {f : α → Traced ν ε β} {b : β} :
    (x >>= f).result = .ok b ↔ ∃ a, x.result = .ok a ∧ (f a).result = .ok b := by
  rw [result_bind_eq, bind_eq_ok]

theorem result_pure_eq_ok {a b : α} : (pure a : Traced ν ε α).result = .ok b ↔ a = b := by
  rw [result_pure, Except.ok.injEq]

@[simp] theorem result_report (notice : ν) : (report notice : Traced ν ε Unit).result = .ok () :=
  rfl

@[simp] theorem result_refuse (e : ε) : (refuse e : Traced ν ε α).result = .error e := rfl

@[simp] theorem result_lift (x : Except ε α) : (lift x : Traced ν ε α).result = x := rfl

@[simp] theorem result_reportAll (notices : List ν) :
    (reportAll notices : Traced ν ε Unit).result = .ok () := rfl

@[simp] theorem result_mapNotices {μ : Type} (f : ν → μ) (x : Traced ν ε α) :
    (x.mapNotices f).result = x.result := rfl

@[simp] theorem result_mapError (f : ε → δ) (x : Traced ν ε α) :
    (x.mapError f).result = x.result.mapError f := rfl

/-! ## Reports -/

section

variable {γ : Type} {x : Traced ν ε α} {f : α → Traced ν ε β} {g : α → Traced ν ε γ}

/-- The reports of a sequence are those of its parts. -/
theorem notices_bind_of_ok {a : α} (h : x.result = .ok a) :
    (x >>= f).notices = x.notices ++ (f a).notices := by
  show (Traced.bind x f).notices = _
  unfold Traced.bind
  rw [h]

theorem notices_bind_congr (h : ∀ a, (f a).notices = (g a).notices) :
    (x >>= f).notices = (x >>= g).notices := by
  show (Traced.bind x f).notices = (Traced.bind x g).notices
  unfold Traced.bind
  cases x.result with
  | error e => rfl
  | ok a => simp [h a]

/-- A sequence of parts without reports has none. -/
theorem notices_bind_eq_nil (hx : x.notices = []) (hf : ∀ a, (f a).notices = []) :
    (x >>= f).notices = [] := by
  show (Traced.bind x f).notices = _
  unfold Traced.bind
  cases x.result with
  | error e => exact hx
  | ok a => simp [hx, hf a]

end

end Traced

end DocumentTree
