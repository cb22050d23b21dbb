import Mathlib.Data.List.Basic
import Mathlib.Tactic.Common

/-!
# Words and pieces

A separator cuts a list into pieces, some of them empty.  The words of a list are its maximal runs
of elements other than a separator, that is, the pieces that are not empty.  The lemmas compute the
words from left to right: separators in front do not matter, and a run followed by a separator is
the first word.  `exists_of_mem_splitOn` takes a list apart at the first piece of a given kind.
-/

variable {α : Type*} [DecidableEq α] {sep : α}

/-- The maximal runs of elements other than `sep`. -/
def words (sep : α) (l : List α) : List (List α) := (l.splitOn sep).filter (· ≠ [])

@[simp] lemma words_nil : words sep [] = [] := by
  simp [words]

/-- A separator in front does not matter. -/
@[simp] lemma words_cons_self (l : List α) : words sep (sep :: l) = words sep l := by
  simp [words, List.splitOn, List.splitOnP_cons_eq_if_modifyHead]

/-- Separators in front do not matter. -/
lemma words_append_of_forall_eq {s : List α} (hs : ∀ a ∈ s, a = sep) (l : List α) :
    words sep (s ++ l) = words sep l := by
  induction s with
  | nil => rfl
  | cons a s ih =>
    obtain rfl := hs a (List.mem_cons_self ..)
    rw [List.cons_append, words_cons_self]
    exact ih fun b hb => hs b (List.mem_cons_of_mem _ hb)

/-- A run without separators is one word. -/
lemma words_of_not_mem {w : List α} (hw : sep ∉ w) (hne : w ≠ []) : words sep w = [w] := by
  rw [words, List.splitOn, List.splitOnP_eq_singleton, List.filter_cons_of_pos (by simpa using hne),
    List.filter_nil]
  intro a ha
  simpa using fun h : a = sep => hw (h ▸ ha)

/-- A run in front of a separator is the first word. -/
lemma words_append_cons {w : List α} (hw : sep ∉ w) (hne : w ≠ []) (l : List α) :
    words sep (w ++ sep :: l) = w :: words sep l := by
  rw [words, List.splitOn, List.splitOnP_append_cons_of_forall_mem _ _ (by simp),
    List.filter_cons_of_pos (by simpa using hne)]
  · rfl
  · intro a ha
    simpa using fun h : a = sep => hw (h ▸ ha)

/-- The words hold all elements other than the separators. -/
lemma flatten_words (sep : α) (l : List α) : (words sep l).flatten = l.filter (· ≠ sep) := by
  have hsplit : (l.splitOn sep).flatten = l.filter (· ≠ sep) := by
    unfold List.splitOn
    induction l with
    | nil => rfl
    | cons a l ih =>
      rw [List.splitOnP_cons_eq_if_modifyHead]
      by_cases ha : a = sep
      · simpa [ha] using ih
      · cases hl : l.splitOnP (· == sep) with
        | nil => simp [List.splitOnP_ne_nil] at hl
        | cons x xs =>
          rw [hl] at ih
          simpa [ha] using ih
  rw [words, List.flatten_filter_ne_nil, hsplit]

/-- An element other than the separator occurs in the words iff it occurs in the list. -/
lemma exists_mem_words_iff {a : α} (ha : a ≠ sep) {l : List α} :
    (∃ w ∈ words sep l, a ∈ w) ↔ a ∈ l := by
  rw [← List.mem_flatten, flatten_words, List.mem_filter]
  simp [ha]

/-- A list in front of the first piece equal to `x`: pieces without separators, each followed by a
separator. -/
lemma exists_of_mem_splitOn {x : List α} (l : List α) (h : x ∈ l.splitOn sep) :
    (∀ y ∈ (l.splitOn sep).takeWhile (· ≠ x), sep ∉ y) ∧
      ∃ s, l = ((l.splitOn sep).takeWhile (· ≠ x)).flatMap (· ++ [sep]) ++ s ∧
        (s = x ∨ ∃ rest, s = x ++ sep :: rest) := by
  induction hlen : l.length using Nat.strongRecOn generalizing l with
  | ind n ih =>
    by_cases hsep : sep ∈ l
    · obtain ⟨y, rest, rfl, hy⟩ := List.eq_append_cons_of_mem hsep
      rw [List.splitOn_append_cons_self_of_not_mem hy] at h ⊢
      by_cases hx : y = x
      · rw [List.takeWhile_cons_of_neg (by simpa using hx)]
        exact ⟨by simp, y ++ sep :: rest, rfl, .inr ⟨rest, by rw [hx]⟩⟩
      · have hmem := (List.mem_cons.mp h).resolve_left (Ne.symm hx)
        have hlt : rest.length < n := by
          rw [← hlen, List.length_append, List.length_cons]
          omega
        obtain ⟨hM, s, hs, hend⟩ := ih _ hlt rest hmem rfl
        rw [List.takeWhile_cons_of_pos (by simpa using hx)]
        refine ⟨?_, s, ?_, hend⟩
        · intro z hz
          obtain rfl | hz := List.mem_cons.mp hz
          · exact hy
          · exact hM z hz
        · conv_lhs => rw [hs]
          simp
    · rw [List.splitOn_eq_singleton hsep, List.mem_singleton] at h
      rw [List.splitOn_eq_singleton hsep, h, List.takeWhile_cons_of_neg (by simp)]
      exact ⟨by simp, l, rfl, .inl rfl⟩
