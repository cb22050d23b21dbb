import Mathlib.Data.List.Basic
import Mathlib.Tactic.Common

/-!
# The last value of a key

A list of pairs is read as a sequence of assignments to its keys.  `lastValue` is the value assigned
last to a key, and `foldl_lastValue` says that a loop which performs the assignments one after the
other ends with these values.
-/

variable {κ β γ σ : Type*} [DecidableEq κ] {k : κ} {l : List (κ × β)}

/-- The last value that belongs to a key. -/
def lastValue (k : κ) (l : List (κ × β)) : Option β :=
  ((l.filter (·.1 = k)).getLast?).map Prod.snd

/-- An assignment in front counts if there is no later one. -/
lemma lastValue_cons_elim (x : κ × β) (l : List (κ × β)) (c : γ) (g : β → γ) :
    (lastValue k (x :: l)).elim c g = (lastValue k l).elim (if x.1 = k then g x.2 else c) g := by
  unfold lastValue
  by_cases hx : x.1 = k
  · rw [List.filter_cons_of_pos (by simpa using hx), List.getLast?_cons, if_pos hx]
    cases (l.filter (·.1 = k)).getLast? <;> rfl
  · rw [List.filter_cons_of_neg (by simpa using hx), if_neg hx]

/-- The last value of a key belongs to it. -/
lemma mem_of_lastValue {v : β} (h : lastValue k l = some v) : (k, v) ∈ l := by
  obtain ⟨⟨o, v'⟩, hlast, rfl⟩ := Option.map_eq_some_iff.mp h
  have hmem := List.mem_filter.mp (List.mem_of_getLast? hlast)
  obtain rfl : o = k := by simpa using hmem.2
  exact hmem.1

/-- A key has no last value iff it does not occur. -/
lemma lastValue_eq_none_iff : lastValue k l = none ↔ ∀ x ∈ l, x.1 ≠ k := by
  simp [lastValue]

/-- A loop over the assignments ends with the last value of a key, or with the value before the loop
if the key does not occur. -/
theorem foldl_lastValue {f : σ → γ} {g : β → γ} {asg : σ → κ → β → σ}
    (h : ∀ s o v, f (asg s o v) = if o = k then g v else f s) (l : List (κ × β)) (s : σ) :
    f (l.foldl (fun s x => asg s x.1 x.2) s) = (lastValue k l).elim (f s) g := by
  induction l generalizing s with
  | nil => rfl
  | cons x l ih => rw [List.foldl_cons, ih, h, lastValue_cons_elim]
