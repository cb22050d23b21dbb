import XorSyscalls.Foundation.TransitionSystem

/-!
# Bisimulation up to quiet steps

Two systems with the same actions run in lockstep if related states have related successors under
every action, except that the first system may take additional *quiet* steps, during which the
second one stays where it is.  Only finitely many quiet steps can follow one another, so the first
system can always get past them.

`Lockstep.run_forth` and `Lockstep.run_back` carry whole runs over in both directions.  The
schedules agree up to the quiet actions.
-/

namespace TransitionSystem

variable {S₁ S₂ A : Type*}

/-- `R` relates the states of two systems that run in lockstep up to quiet steps of the first. -/
structure Lockstep (step₁ : S₁ → A → Option S₁) (step₂ : S₂ → A → Option S₂)
    (quiet : S₁ → A → Prop) (R : S₁ → S₂ → Prop) : Prop where
  /-- An action that is not quiet has related results, or is not enabled on either side. -/
  loud : ∀ s₁ s₂ a, R s₁ s₂ → ¬ quiet s₁ a → Option.Rel R (step₁ s₁ a) (step₂ s₂ a)
  /-- A quiet step does not matter for the second system. -/
  hush : ∀ s₁ s₂ a, R s₁ s₂ → quiet s₁ a → ∃ t₁, step₁ s₁ a = some t₁ ∧ R t₁ s₂
  /-- The first system can get past its quiet steps. -/
  wake : ∀ s₁ s₂, R s₁ s₂ → ∃ acts t₁, run step₁ s₁ acts = some t₁ ∧
    AllSteps step₁ quiet s₁ acts ∧ R t₁ s₂ ∧ ∀ a, ¬ quiet t₁ a

/-- What is related to a value is a value. -/
lemma exists_of_rel_some {R : S₁ → S₂ → Prop} {s₁ : S₁} {o : Option S₂}
    (h : Option.Rel R (some s₁) o) : ∃ s₂, o = some s₂ ∧ R s₁ s₂ := by
  cases h with
  | some hR => exact ⟨_, rfl, hR⟩

lemma exists_of_some_rel {R : S₁ → S₂ → Prop} {s₂ : S₂} {o : Option S₁}
    (h : Option.Rel R o (some s₂)) : ∃ s₁, o = some s₁ ∧ R s₁ s₂ := by
  cases h with
  | some hR => exact ⟨_, rfl, hR⟩

/-- Computations that may fail are related if their parts are. -/
lemma rel_bind {T₁ T₂ : Type*} {R : S₁ → S₂ → Prop} {Q : T₁ → T₂ → Prop} {o : Option S₁}
    {o' : Option S₂} {f : S₁ → Option T₁} {f' : S₂ → Option T₂} (h : Option.Rel R o o')
    (hf : ∀ s₁ s₂, R s₁ s₂ → Option.Rel Q (f s₁) (f' s₂)) :
    Option.Rel Q (o.bind f) (o'.bind f') := by
  cases h with
  | none => exact .none
  | some hR => exact hf _ _ hR

namespace Lockstep

variable {step₁ : S₁ → A → Option S₁} {step₂ : S₂ → A → Option S₂} {quiet : S₁ → A → Prop}
  {R : S₁ → S₂ → Prop} {P : A → Bool} {s₁ t₁ : S₁} {s₂ t₂ : S₂} {acts : List A}

/-- The second system follows the first; `P` selects actions that are never quiet. -/
theorem run_forth (h : Lockstep step₁ step₂ quiet R) (hP : ∀ s a, quiet s a → P a = false)
    (hR : R s₁ s₂) (hrun : run step₁ s₁ acts = some t₁) :
    ∃ acts' t₂, run step₂ s₂ acts' = some t₂ ∧ acts'.filter P = acts.filter P ∧ R t₁ t₂ := by
  induction acts generalizing s₁ s₂ with
  | nil =>
    rw [run_nil, Option.some_inj] at hrun
    subst hrun
    exact ⟨[], s₂, rfl, rfl, hR⟩
  | cons a acts ih =>
    obtain ⟨u₁, hu₁, hrun⟩ := Option.bind_eq_some_iff.mp hrun
    by_cases hquiet : quiet s₁ a
    · obtain ⟨v₁, hv₁, hR'⟩ := h.hush s₁ s₂ a hR hquiet
      obtain rfl : u₁ = v₁ := Option.some_inj.mp (hu₁.symm.trans hv₁)
      obtain ⟨acts', t₂, hrun₂, hfilter, hend⟩ := ih hR' hrun
      refine ⟨acts', t₂, hrun₂, ?_, hend⟩
      rw [hfilter, List.filter_cons_of_neg (by simp [hP s₁ a hquiet])]
    · have hrel := h.loud s₁ s₂ a hR hquiet
      rw [hu₁] at hrel
      obtain ⟨u₂, hu₂, hR'⟩ := exists_of_rel_some hrel
      obtain ⟨acts', t₂, hrun₂, hfilter, hend⟩ := ih hR' hrun
      refine ⟨a :: acts', t₂, by rw [run_cons, hu₂, Option.bind_some, hrun₂], ?_, hend⟩
      rw [List.filter_cons, List.filter_cons, hfilter]

/-- Quiet schedules contain no selected action. -/
lemma filter_eq_nil_of_quiet (hP : ∀ s a, quiet s a → P a = false)
    (hrun : run step₁ s₁ acts = some t₁) (hquiet : AllSteps step₁ quiet s₁ acts) :
    acts.filter P = [] := by
  refine run_induction (motive := fun acts _ => AllSteps step₁ quiet s₁ acts → acts.filter P = [])
    (fun _ => rfl) (fun acts s a s' hs ih _ hall => ?_) hrun hquiet
  obtain ⟨hall, hlast⟩ := (allSteps_concat hs).mp hall
  rw [List.filter_append, ih hall, List.nil_append,
    List.filter_cons_of_neg (by simp [hP s a hlast]), List.filter_nil]

/-- The first system follows the second, with quiet steps in between. -/
theorem run_back (h : Lockstep step₁ step₂ quiet R) (hP : ∀ s a, quiet s a → P a = false)
    (hR : R s₁ s₂) (hrun : run step₂ s₂ acts = some t₂) :
    ∃ acts' t₁, run step₁ s₁ acts' = some t₁ ∧ acts'.filter P = acts.filter P ∧ R t₁ t₂ := by
  induction acts generalizing s₁ s₂ with
  | nil =>
    rw [run_nil, Option.some_inj] at hrun
    subst hrun
    exact ⟨[], s₁, rfl, rfl, hR⟩
  | cons a acts ih =>
    obtain ⟨u₂, hu₂, hrun⟩ := Option.bind_eq_some_iff.mp hrun
    obtain ⟨quietActs, v₁, hv₁, hquiet, hRv, hawake⟩ := h.wake s₁ s₂ hR
    have hrel := h.loud v₁ s₂ a hRv (hawake a)
    rw [hu₂] at hrel
    obtain ⟨u₁, hu₁, hR'⟩ := exists_of_some_rel hrel
    obtain ⟨acts', t₁, hrun₁, hfilter, hend⟩ := ih hR' hrun
    refine ⟨quietActs ++ a :: acts', t₁, ?_, ?_, hend⟩
    · rw [run_append, hv₁, Option.bind_some, run_cons, hu₁, Option.bind_some, hrun₁]
    · rw [List.filter_append, filter_eq_nil_of_quiet hP hv₁ hquiet, List.nil_append,
        List.filter_cons, List.filter_cons, hfilter]

end Lockstep

end TransitionSystem
