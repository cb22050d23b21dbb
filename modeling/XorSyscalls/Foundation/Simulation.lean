import XorSyscalls.Foundation.TransitionSystem

/-!
# Forward simulation

A relation between the states of two systems such that every step of the first system is answered
by any number of steps of the second one.  Then every run of the first system is answered by a run
of the second one.
-/

namespace TransitionSystem

variable {S A S' A' : Type*} {step : S → A → Option S} {step' : S' → A' → Option S'}

/-- Every step from related states is answered by a run that leads to related states. -/
def Simulates (step : S → A → Option S) (step' : S' → A' → Option S') (R : S → S' → Prop) : Prop :=
  ∀ s a t s', R s s' → step s a = some t → ∃ t', Reaches step' s' t' ∧ R t t'

/-- Whole runs are answered as the steps are. -/
theorem Simulates.run {R : S → S' → Prop} (h : Simulates step step' R) {s₀ s : S} {s₀' : S'}
    {acts : List A} (hstart : R s₀ s₀') (hrun : TransitionSystem.run step s₀ acts = some s) :
    ∃ s', Reaches step' s₀' s' ∧ R s s' := by
  refine run_invariant (I := fun s => ∃ s', Reaches step' s₀' s' ∧ R s s')
    ⟨s₀', .refl s₀', hstart⟩ ?_ hrun
  rintro s a t ⟨s', hreach, hR⟩ hstep
  obtain ⟨t', hnext, hR'⟩ := h s a t s' hR hstep
  exact ⟨t', hreach.trans hnext, hR'⟩

end TransitionSystem
