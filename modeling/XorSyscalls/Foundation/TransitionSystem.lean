import Mathlib.Data.List.Induction
import Mathlib.Order.RelClasses
import Mathlib.Tactic.Common

/-!
# Labelled transition systems given by a partial step function

A system is a function `step : S → A → Option S`: in the state `s` the action `a` either is
enabled and leads to one successor, or is not enabled.  All nondeterminism of a concurrent
system sits in the choice of the actions, so a *schedule* is a list of actions and an
interleaving is a schedule that `run` accepts.

`Reaches` is the reachability relation.  `AllSteps` says that every step of a schedule meets a
condition on the state before the step and on the action taken there.  `run_induction` is the
induction rule for whole runs: an assertion about the schedule so far and the current state that
holds at the start and is kept by every step holds at the end.  `wellFounded_of_rank` concludes
from a rank that every step makes smaller that no run goes on forever.  `Terminates` says this of
the runs from one state; `not_terminates_of_invariant` is the rule for the opposite.
-/

namespace TransitionSystem

variable {S A : Type*} (step : S → A → Option S)

/-- The state after performing the actions of a schedule in order, if all of them are enabled. -/
def run : S → List A → Option S
  | s, [] => some s
  | s, a :: acts => (step s a).bind fun t => run t acts

/-- `t` is reachable from `s`. -/
def Reaches (s t : S) : Prop := ∃ acts, run step s acts = some t

/-- No run from `s` goes on forever: whatever the actions are, one of them is not enabled. -/
def Terminates (s : S) : Prop := ∀ acts : ℕ → A, ∃ n, run step s ((List.range n).map acts) = none

/-- Every step taken along the schedule `acts` from `s` satisfies `P` of the state before the step
and of the action. -/
def AllSteps (P : S → A → Prop) (s : S) (acts : List A) : Prop :=
  ∀ acts₁ a acts₂ t, acts = acts₁ ++ a :: acts₂ → run step s acts₁ = some t → P t a

variable {step}

@[simp] lemma run_nil (s : S) : run step s [] = some s := rfl

@[simp] lemma run_cons (s : S) (a : A) (acts : List A) :
    run step s (a :: acts) = (step s a).bind fun t => run step t acts := rfl

/-- A schedule put together from two parts runs the second part from the end of the first. -/
lemma run_append (s : S) (acts acts' : List A) :
    run step s (acts ++ acts') = (run step s acts).bind fun t => run step t acts' := by
  induction acts generalizing s with
  | nil => rfl
  | cons a acts ih =>
    rw [List.cons_append, run_cons, run_cons, Option.bind_assoc]
    congr 1
    funext t
    exact ih t

/-- The last action of a schedule is performed in the state reached by the others. -/
lemma run_concat (s : S) (acts : List A) (a : A) :
    run step s (acts ++ [a]) = (run step s acts).bind fun t => step t a := by
  rw [run_append]
  congr 1
  funext t
  cases h : step t a <;> simp [h]

/-- Induction along a run: `motive` relates the schedule performed so far to the state reached. -/
theorem run_induction {s₀ : S} {motive : List A → S → Prop} (start : motive [] s₀)
    (next : ∀ acts s a s', run step s₀ acts = some s → motive acts s → step s a = some s' →
      motive (acts ++ [a]) s')
    {acts : List A} {s : S} (h : run step s₀ acts = some s) : motive acts s := by
  induction acts using List.reverseRecOn generalizing s with
  | nil =>
    rw [run_nil, Option.some_inj] at h
    exact h ▸ start
  | append_singleton acts a ih =>
    rw [run_concat] at h
    obtain ⟨t, ht, hstep⟩ := Option.bind_eq_some_iff.mp h
    exact next acts t a s ht (ih ht) hstep

/-- An invariant that holds in the initial state and is kept by every step holds at the end of
every run. -/
theorem run_invariant {s₀ : S} {I : S → Prop} (start : I s₀)
    (next : ∀ s a s', I s → step s a = some s' → I s')
    {acts : List A} {s : S} (h : run step s₀ acts = some s) : I s :=
  run_induction (motive := fun _ s => I s) start (fun _ s a s' _ hs hst => next s a s' hs hst) h

/-- The first action of a sequence, and the rest of the sequence. -/
lemma run_range_succ (s : S) (acts : ℕ → A) (n : ℕ) :
    run step s ((List.range (n + 1)).map acts) =
      (step s (acts 0)).bind fun t => run step t ((List.range n).map fun i => acts (i + 1)) := by
  rw [List.range_succ_eq_map, List.map_cons, List.map_map, run_cons]
  rfl

/-- A run ends iff it ends after each first step. -/
lemma terminates_iff_next {s : S} :
    Terminates step s ↔ ∀ a s', step s a = some s' → Terminates step s' := by
  constructor
  · intro h a s' hstep acts
    obtain ⟨n, hn⟩ := h fun i => i.casesOn a acts
    cases n with
    | zero => cases hn
    | succ n =>
      rw [run_range_succ] at hn
      change (step s a).bind _ = none at hn
      rw [hstep] at hn
      exact ⟨n, hn⟩
  · intro h acts
    cases hstep : step s (acts 0) with
    | none => exact ⟨1, by simp [hstep]⟩
    | some s' =>
      obtain ⟨n, hn⟩ := h _ _ hstep fun i => acts (i + 1)
      exact ⟨n + 1, by rw [run_range_succ, hstep, Option.bind_some, hn]⟩

/-- A run ends if every step keeps an invariant and makes a rank smaller. -/
theorem terminates_of_rank {R : Type*} [LT R] [WellFoundedLT R] {I : S → Prop} (rank : S → R)
    (next : ∀ s a s', I s → step s a = some s' → I s' ∧ rank s' < rank s) {s : S} (start : I s) :
    Terminates step s := by
  induction h : rank s using WellFoundedLT.induction generalizing s with
  | ind r ih =>
    subst h
    refine terminates_iff_next.mpr fun a s' hstep => ?_
    obtain ⟨hs', hlt⟩ := next s a s' start hstep
    exact ih _ hlt hs' rfl

/-- A run goes on forever if every action is enabled and keeps an invariant. -/
theorem not_terminates_of_invariant [Nonempty A] {I : S → Prop}
    (next : ∀ s a, I s → ∃ s', step s a = some s' ∧ I s') {s : S} (start : I s) :
    ¬Terminates step s := by
  intro h
  obtain ⟨n, hn⟩ := h fun _ => Classical.arbitrary A
  clear h
  induction n generalizing s with
  | zero => cases hn
  | succ n ih =>
    obtain ⟨s', hstep, hs'⟩ := next s (Classical.arbitrary A) start
    rw [run_range_succ, hstep, Option.bind_some] at hn
    exact ih hs' hn

namespace Reaches

/-- Every state reaches itself. -/
lemma refl (s : S) : Reaches step s s := ⟨[], rfl⟩

/-- One enabled action is a run. -/
lemma single {s t : S} (a : A) (h : step s a = some t) : Reaches step s t :=
  ⟨[a], by simp [h]⟩

/-- Runs can be put one after the other. -/
lemma trans {s t u : S} (h₁ : Reaches step s t) (h₂ : Reaches step t u) : Reaches step s u := by
  obtain ⟨acts₁, h₁⟩ := h₁
  obtain ⟨acts₂, h₂⟩ := h₂
  exact ⟨acts₁ ++ acts₂, by rw [run_append, h₁, Option.bind_some, h₂]⟩

/-- A first step followed by a run is a run. -/
lemma head {s t u : S} (a : A) (h : step s a = some t) (h₂ : Reaches step t u) :
    Reaches step s u :=
  (single a h).trans h₂

end Reaches

/-- The empty schedule takes no step. -/
lemma allSteps_nil {P : S → A → Prop} (s : S) : AllSteps step P s [] := by
  intro acts₁ a acts₂ t heq
  simp at heq

/-- A good first step followed by good steps. -/
lemma allSteps_cons {P : S → A → Prop} {s t : S} {a : A} {acts : List A} (h : step s a = some t)
    (ha : P s a) (hacts : AllSteps step P t acts) : AllSteps step P s (a :: acts) := by
  intro acts₁ b acts₂ u heq hu
  cases acts₁ with
  | nil =>
    cases heq
    rw [run_nil, Option.some_inj] at hu
    exact hu ▸ ha
  | cons a' acts₁ =>
    cases heq
    rw [run_cons, h, Option.bind_some] at hu
    exact hacts acts₁ b acts₂ u rfl hu

/-- Every step of a schedule is good iff its last step and all earlier ones are. -/
lemma allSteps_concat {P : S → A → Prop} {s t : S} {acts : List A} {a : A}
    (h : run step s acts = some t) :
    AllSteps step P s (acts ++ [a]) ↔ AllSteps step P s acts ∧ P t a := by
  constructor
  · intro hall
    refine ⟨fun acts₁ b acts₂ u heq hu => ?_, hall acts a [] t rfl h⟩
    exact hall acts₁ b (acts₂ ++ [a]) u (by rw [heq]; simp) hu
  · rintro ⟨hall, hlast⟩ acts₁ b acts₂ u heq hu
    rcases List.eq_nil_or_concat acts₂ with rfl | ⟨acts₃, b', rfl⟩
    · obtain ⟨rfl, hab⟩ := List.append_inj' heq rfl
      obtain rfl : a = b := by simpa using hab
      obtain rfl : t = u := Option.some_inj.mp (h.symm.trans hu)
      exact hlast
    · have heq' : acts ++ [a] = (acts₁ ++ b :: acts₃) ++ [b'] := by rw [heq]; simp
      exact hall acts₁ b acts₃ u (List.append_inj' heq' rfl).1 hu

end TransitionSystem
