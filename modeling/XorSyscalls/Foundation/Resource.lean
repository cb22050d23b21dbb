import Mathlib.Tactic.Common

/-!
# A resource held by one task at a time

A record of the holder of a resource, and for each task whether it is at a program point at which it
should hold the resource.  In each step one task moves: it keeps what it has, takes the resource
when it is free, or gives it back.  Then the record says at all times which task is inside.
-/

namespace Resource

variable {T : Type*}

/-- What a step of task `t` does to the holder of a resource and to the tasks that are inside. -/
inductive Step (t : T) (holder holder' : Option T) (inside inside' : T → Prop) : Prop
  | keep (hholder : holder' = holder) (hin : inside' t ↔ inside t)
  | enter (hfree : holder = none) (hholder : holder' = some t) (hin : inside' t)
  | leave (hin : inside t) (hholder : holder' = none) (hout : ¬inside' t)

variable {t : T} {holder holder' : Option T} {inside inside' : T → Prop}

/-- The holder is the task inside, before and after a step. -/
theorem Step.holder_iff (hstep : Step t holder holder' inside inside')
    (hothers : ∀ u, u ≠ t → (inside' u ↔ inside u)) (h : ∀ u, holder = some u ↔ inside u) (u : T) :
    holder' = some u ↔ inside' u := by
  have hne : u ≠ t → (inside' u ↔ holder = some u) := fun hu => (hothers u hu).trans (h u).symm
  cases hstep with
  | keep hholder hin =>
    rcases eq_or_ne u t with rfl | hu
    · rw [hin, hholder, h]
    · rw [hne hu, hholder]
  | enter hfree hholder hin =>
    rcases eq_or_ne u t with rfl | hu
    · exact iff_of_true hholder hin
    · rw [hne hu, hholder, hfree]
      simp [hu.symm]
  | leave hin hholder hout =>
    rcases eq_or_ne u t with rfl | hu
    · simpa [hholder] using hout
    · rw [hne hu, hholder, (h t).mpr hin]
      simp [hu.symm]

/-- At most one task is inside. -/
lemma eq_of_inside (h : ∀ u, holder = some u ↔ inside u) {u v : T} (hu : inside u)
    (hv : inside v) : u = v :=
  Option.some_inj.mp (((h u).mpr hu).symm.trans ((h v).mpr hv))

end Resource
