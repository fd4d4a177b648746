import Mathlib.Tactic

/-!
# Unwinding

A system takes steps, and an observer sees some of them.  A relation unwinds the system when a step
that is not seen stays within it and the same seen step keeps it; two runs with the same seen steps
then end in related states.
-/

namespace Unwinding

variable {σ α β : Type*} (step : σ → α → σ) (view : σ → α → Option β)

/-- What the observer sees of a run. -/
def views (s : σ) : List α → List β
  | [] => []
  | x :: l => (view s x).toList ++ views (step s x) l

/-- The unwinding conditions. -/
structure Unwinds (r : σ → σ → Prop) : Prop where
  symm : ∀ s t, r s t → r t s
  /-- A step that is not seen changes nothing the relation tells apart. -/
  unseen : ∀ s t x, r s t → view s x = none → r (step s x) t
  /-- Steps seen as the same go the same way. -/
  seen : ∀ s t x y b, r s t → view s x = some b → view t y = some b → r (step s x) (step t y)

variable {step view} {r : σ → σ → Prop}

namespace Unwinds

/-- A run of which nothing is seen. -/
theorem silent (h : Unwinds step view r) {s t : σ} {l : List α} (hst : r s t)
    (hl : views step view s l = []) : r (l.foldl step s) t := by
  induction l generalizing s with
  | nil => exact hst
  | cons x l ih =>
    rw [views, List.append_eq_nil_iff] at hl
    have hview : view s x = none := by simpa using hl.1
    exact ih (h.unseen s t x hst hview) hl.2

/-- A run up to the first step that is seen. -/
theorem first (h : Unwinds step view r) {s t : σ} {m : List α} {b : β} {rest : List β}
    (hst : r s t) (hm : views step view t m = b :: rest) :
    ∃ t' y m', r s t' ∧ view t' y = some b ∧ views step view (step t' y) m' = rest ∧
      m.foldl step t = m'.foldl step (step t' y) := by
  induction m generalizing t with
  | nil => cases hm
  | cons y m ih =>
    rw [views] at hm
    cases hview : view t y with
    | none =>
      rw [hview, Option.toList_none, List.nil_append] at hm
      have hst' := h.symm _ _ (h.unseen t s y (h.symm _ _ hst) hview)
      exact ih hst' hm
    | some c =>
      rw [hview, Option.toList_some, List.singleton_append, List.cons.injEq] at hm
      obtain ⟨rfl, hrest⟩ := hm
      exact ⟨t, y, m, hst, hview, hrest, rfl⟩

/-- **Two runs that are seen as the same end in related states.** -/
theorem runs (h : Unwinds step view r) {s t : σ} {l m : List α} (hst : r s t)
    (hlm : views step view s l = views step view t m) : r (l.foldl step s) (m.foldl step t) := by
  induction l generalizing s t m with
  | nil => exact h.symm _ _ (h.silent (h.symm _ _ hst) hlm.symm)
  | cons x l ih =>
    rw [views] at hlm
    cases hview : view s x with
    | none =>
      rw [hview, Option.toList_none, List.nil_append] at hlm
      exact ih (h.unseen s t x hst hview) hlm
    | some b =>
      rw [hview, Option.toList_some, List.singleton_append] at hlm
      obtain ⟨t', y, m', hst', hy, hrest, hrun⟩ := h.first hst hlm.symm
      rw [hrun]
      exact ih (h.seen s t' x y b hst' hview hy) hrest.symm

end Unwinds

end Unwinding
