import DocumentTree.Proofs.Description.Mounting
import DocumentTree.Rendering.Basic

/-!
# The text of a description

Rendering a description mounts it in a container of its own, but container, handles and reports
leave no trace in the text: it is the text of the document that the description stands for.
-/

namespace DocumentTree

open Markdown (GivenOptions Options)

/-- **Events on the way do not change the result.** -/
theorem result_renderTraced (s : Store) (root : Value) (given : GivenOptions)
    (overrides : Entries) :
    (renderTraced s root given overrides).result = render s root given overrides := by
  have hlower : (s.lower root).result =
      (s.tree? root).mapError LoweringError.store >>= fun tree => (lowerTree? tree).result := by
    simp [Store.lower]
  simp only [renderTraced, render, Traced.result_bind_eq, Traced.result_lift,
    Traced.result_report, Traced.result_reportAll, Traced.result_mapError,
    Traced.result_mapNotices, Traced.result_pure, ok_bind, pure_eq]
  -- A tree that is not found is refused once more by the lowering, in the same words.
  cases htree : s.tree? root with
  | error e => simp [hlower, htree, Except.mapError]
  | ok tree => simp [Except.mapError]

/-- **A description is written as the document of one root element around it.** -/
theorem result_renderDescription {e : Element} (he : e.isKnown = true) {given : GivenOptions}
    {o : Options} (hgiven : (given.resolve []).result = .ok o) :
    (renderDescription (.item e) given []).result = (do
      let document ← ((Element.element Role.root.toValue [] [e]).document).mapError .lowering
      return Markdown.render o document) := by
  obtain ⟨hmount, M⟩ := mount_spec [e] (by simp [Element.isKnownAll, he]) mounted_empty
  have hmounted : (mounted (.item e)).result = .ok (mount [e] {}).after := by
    simp [mounted, Child.items, hmount, Except.mapError, Except.map]
  have hrender : ∀ c : Container, (renderContainerTraced c given []).result =
      (do
        let document ← (c.store.lower c.rootHandle).result.mapError .lowering
        return Markdown.render o document) := by
    intro c
    simp [renderContainerTraced, result_renderTraced, render, Call.accept, hgiven, Except.mapError]
  simp [renderDescription, Call.accept, hmounted, hrender, M.result_lower, Except.mapError]

end DocumentTree
