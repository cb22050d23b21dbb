import Mathlib.Data.List.Basic
import Mathlib.Algebra.GroupWithZero.Nat
import Mathlib.Tactic.Common

/-!
# Pools of numbered components

A pool is a list whose entries are found under their number.  It changes in three ways: entry `i` is
replaced, a new entry is put behind the others, or a function is applied to entry `i`.  The lemmas
on look-ups say where an entry of the changed pool comes from, and the rules `forall_getElem?_set`,
`forall_getElem?_concat` and `forall_getElem?_modify` that a property of all entries is kept if the
entry concerned has it, as `exists_getElem?_set` says for one entry; `forall_mem_modify` is for
properties that do not mention the number.  `sum_map_set` is for measures that are added up over all
entries.
-/

variable {α : Type*} {l : List α} {P : ℕ → α → Prop} {i j : ℕ} {a b : α}

/-! ## Look-ups -/

/-- An entry after entry `i` has been replaced. -/
lemma getElem?_set_cases (h : (l.set i b)[j]? = some a) :
    (j = i ∧ a = b) ∨ (j ≠ i ∧ l[j]? = some a) := by
  rcases eq_or_ne i j with rfl | hne
  · rw [List.getElem?_set_self'] at h
    obtain ⟨_, -, rfl⟩ := Option.map_eq_some_iff.mp h
    exact Or.inl ⟨rfl, rfl⟩
  · rw [List.getElem?_set_ne hne] at h
    exact Or.inr ⟨hne.symm, h⟩

/-- An entry after a new one has been put behind the others. -/
lemma getElem?_concat_cases (h : (l ++ [b])[j]? = some a) :
    (j = l.length ∧ a = b) ∨ l[j]? = some a := by
  rcases Nat.lt_or_ge j l.length with hj | hj
  · rw [List.getElem?_append_left hj] at h
    exact Or.inr h
  · have hlt := (List.getElem?_eq_some_iff.mp h).1
    rw [List.length_append, List.length_singleton] at hlt
    obtain rfl : j = l.length := by omega
    exact Or.inl ⟨rfl, by simpa using h.symm⟩

/-- An entry after a function has been applied to entry `i`. -/
lemma getElem?_modify_cases {f : α → α} (h : (l.modify i f)[j]? = some a) :
    (j = i ∧ ∃ c, l[j]? = some c ∧ a = f c) ∨ (j ≠ i ∧ l[j]? = some a) := by
  rw [List.getElem?_modify] at h
  obtain ⟨c, hc, rfl⟩ := Option.map_eq_some_iff.mp h
  rcases eq_or_ne i j with rfl | hne
  · exact Or.inl ⟨rfl, c, hc, if_pos rfl⟩
  · rw [if_neg hne]
    exact Or.inr ⟨hne.symm, hc⟩

/-! ## Properties of all entries -/

lemma forall_getElem?_set (h : ∀ j a, l[j]? = some a → P j a) (hb : P i b) :
    ∀ j a, (l.set i b)[j]? = some a → P j a := by
  intro j a ha
  rcases getElem?_set_cases ha with ⟨rfl, rfl⟩ | ⟨-, ha⟩
  · exact hb
  · exact h j a ha

/-- An entry with a property is still there, if replacing entry `i` keeps the property. -/
lemma exists_getElem?_set {p : α → Prop} (h : ∃ c, l[j]? = some c ∧ p c) (ha : l[i]? = some a)
    (hb : p a → p b) : ∃ c, (l.set i b)[j]? = some c ∧ p c := by
  obtain ⟨c, hc, hp⟩ := h
  rcases eq_or_ne i j with rfl | hne
  · obtain rfl : a = c := Option.some.inj (ha.symm.trans hc)
    exact ⟨b, List.getElem?_set_self (List.getElem?_eq_some_iff.mp ha).1, hb hp⟩
  · exact ⟨c, by rwa [List.getElem?_set_ne hne], hp⟩

lemma forall_getElem?_concat (h : ∀ j a, l[j]? = some a → P j a) (hb : P l.length b) :
    ∀ j a, (l ++ [b])[j]? = some a → P j a := by
  intro j a ha
  rcases getElem?_concat_cases ha with ⟨rfl, rfl⟩ | ha
  · exact hb
  · exact h j a ha

lemma forall_getElem?_modify {f : α → α} (h : ∀ j a, l[j]? = some a → P j a)
    (hf : ∀ a, P i a → P i (f a)) : ∀ j a, (l.modify i f)[j]? = some a → P j a := by
  intro j a ha
  rcases getElem?_modify_cases ha with ⟨rfl, c, hc, rfl⟩ | ⟨-, ha⟩
  · exact hf c (h j c hc)
  · exact h j a ha

lemma forall_mem_modify {p : α → Prop} {f : α → α} (h : ∀ a ∈ l, p a) (hf : ∀ a, p a → p (f a)) :
    ∀ a ∈ l.modify i f, p a := by
  intro a ha
  obtain ⟨j, hj⟩ := List.mem_iff_getElem?.mp ha
  exact forall_getElem?_modify (P := fun _ a => p a) (fun _ a ha => h a (List.mem_of_getElem? ha))
    hf j a hj

/-! ## Sums -/

/-- The sum of a measure over all entries after entry `i` has been replaced. -/
lemma sum_map_set {f : α → ℕ} (h : l[i]? = some a) :
    ((l.set i b).map f).sum + f a = (l.map f).sum + f b := by
  obtain ⟨hi, rfl⟩ := List.getElem?_eq_some_iff.mp h
  have hsplit := congrArg (fun l => (l.map f).sum) (List.set_getElem_self hi)
  rw [List.set_eq_take_append_cons_drop, if_pos hi] at hsplit ⊢
  simp only [List.map_append, List.map_cons, List.sum_append, List.sum_cons] at hsplit ⊢
  omega
