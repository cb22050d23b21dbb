import Mathlib.Tactic.Common
import Mathlib.Tactic.Linarith

/-!
# Cutting an interval into chunks of floor-divided length

The interval `[0, L)` is cut into `n` consecutive chunks.  All chunks but the last have length
`L / n`; the last one runs to `L` and so takes the remainder, or the whole interval when `n`
exceeds `L` and the other chunks are empty.  The lemmas say that the chunks are intervals inside
`[0, L)`, that they follow each other without overlap, and that they cover `[0, L)`.
-/

/-- The first index of chunk `i`. -/
def chunkStart (L n i : ℕ) : ℕ := i * (L / n)

/-- The index just behind chunk `i`; the last chunk takes the remainder. -/
def chunkEnd (L n i : ℕ) : ℕ := if i + 1 = n then L else (i + 1) * (L / n)

variable {L n i j : ℕ}

/-- Up to `n` chunks of floor-divided length fit into the interval. -/
lemma mul_div_le_of_le (h : i ≤ n) : i * (L / n) ≤ L :=
  (Nat.mul_le_mul_right _ h).trans (Nat.mul_div_le L n)

/-- A chunk does not end before it starts. -/
lemma chunkStart_le_chunkEnd (h : i < n) : chunkStart L n i ≤ chunkEnd L n i := by
  unfold chunkStart chunkEnd
  split
  · exact mul_div_le_of_le h.le
  · exact Nat.mul_le_mul_right _ (Nat.le_succ i)

/-- A chunk ends inside the interval. -/
lemma chunkEnd_le (h : i < n) : chunkEnd L n i ≤ L := by
  unfold chunkEnd
  split
  · exact le_rfl
  · exact mul_div_le_of_le h

/-- The last chunk ends with the interval. -/
lemma chunkEnd_last (h : i + 1 = n) : chunkEnd L n i = L := if_pos h

/-- Every other chunk ends where the next one starts. -/
lemma chunkEnd_eq_chunkStart_succ (h : i + 1 < n) : chunkEnd L n i = chunkStart L n (i + 1) :=
  if_neg h.ne

/-- An earlier chunk ends before a later one starts. -/
lemma chunkEnd_le_chunkStart (hij : i < j) (hj : j < n) : chunkEnd L n i ≤ chunkStart L n j := by
  rw [chunkEnd_eq_chunkStart_succ (by omega)]
  exact Nat.mul_le_mul_right _ hij

/-- Different chunks have no index in common. -/
lemma eq_of_mem_chunk {x : ℕ} (hi : i < n) (hj : j < n)
    (hxi : chunkStart L n i ≤ x ∧ x < chunkEnd L n i)
    (hxj : chunkStart L n j ≤ x ∧ x < chunkEnd L n j) : i = j := by
  rcases lt_trichotomy i j with h | h | h
  · have := chunkEnd_le_chunkStart (L := L) h hj
    omega
  · exact h
  · have := chunkEnd_le_chunkStart (L := L) h hi
    omega

/-- The chunks before `m` cover everything in front of chunk `m`. -/
lemma exists_chunk_of_lt_chunkStart {x m : ℕ} (hm : m < n) (hx : x < chunkStart L n m) :
    ∃ i < m, chunkStart L n i ≤ x ∧ x < chunkEnd L n i := by
  induction m with
  | zero => simp [chunkStart] at hx
  | succ m ih =>
    rcases lt_or_ge x (chunkStart L n m) with h | h
    · obtain ⟨i, him, hi⟩ := ih (by omega) h
      exact ⟨i, by omega, hi⟩
    · exact ⟨m, Nat.lt_succ_self m, h, by rwa [chunkEnd_eq_chunkStart_succ hm]⟩

/-- The chunks cover the interval. -/
theorem exists_chunk {x : ℕ} (hn : 0 < n) (hx : x < L) :
    ∃ i < n, chunkStart L n i ≤ x ∧ x < chunkEnd L n i := by
  obtain ⟨m, rfl⟩ : ∃ m, n = m + 1 := ⟨n - 1, by omega⟩
  rcases lt_or_ge x (chunkStart L (m + 1) m) with h | h
  · obtain ⟨i, him, hi⟩ := exists_chunk_of_lt_chunkStart (Nat.lt_succ_self m) h
    exact ⟨i, by omega, hi⟩
  · exact ⟨m, Nat.lt_succ_self m, h, by rwa [chunkEnd_last rfl]⟩
