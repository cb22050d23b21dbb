import Mathlib.Data.Set.Insert
import Mathlib.Data.List.Basic
import Mathlib.Tactic.Common

/-!
# Mapping a list at the positions of a set

`maskMap S f l` applies `f j` to the entry at every position `j ∈ S` of the list `l` and leaves the
other entries as they are.  It describes an array of which some cells have already been worked on:
working on one more cell inserts its position into the set (`modify_maskMap`), and the work is
complete once every position is in the set or its cell is a fixed point
(`maskMap_eq_mapIdx_iff`).
-/

variable {α : Type*}

open Classical in
/-- Apply `f j` to the entries at the positions `j ∈ S`. -/
noncomputable def maskMap (S : Set ℕ) (f : ℕ → α → α) (l : List α) : List α :=
  l.mapIdx fun j a => if j ∈ S then f j a else a

variable {S T : Set ℕ} {f : ℕ → α → α} {l : List α}

@[simp] lemma length_maskMap : (maskMap S f l).length = l.length := by
  simp [maskMap]

open Classical in
/-- The entry of a masked map at a position. -/
lemma getElem?_maskMap (j : ℕ) :
    (maskMap S f l)[j]? = l[j]?.map fun a => if j ∈ S then f j a else a := by
  simp [maskMap]

/-- Inside the set the function has been applied. -/
lemma getElem?_maskMap_of_mem {j : ℕ} (hj : j ∈ S) : (maskMap S f l)[j]? = l[j]?.map (f j) := by
  rw [getElem?_maskMap]
  simp [hj]

/-- Outside the set nothing has changed. -/
lemma getElem?_maskMap_of_not_mem {j : ℕ} (hj : j ∉ S) : (maskMap S f l)[j]? = l[j]? := by
  rw [getElem?_maskMap]
  simp [hj]

/-- At the start no position has been worked on. -/
@[simp] lemma maskMap_empty : maskMap ∅ f l = l := by
  refine List.ext_getElem? fun j => ?_
  exact getElem?_maskMap_of_not_mem (Set.notMem_empty j)

/-- Working on a new position inserts it into the set. -/
lemma modify_maskMap {j : ℕ} (hj : j ∉ S) :
    (maskMap S f l).modify j (f j) = maskMap (insert j S) f l := by
  refine List.ext_getElem? fun m => ?_
  rw [List.getElem?_modify]
  rcases eq_or_ne j m with rfl | hne
  · rw [getElem?_maskMap_of_not_mem hj, getElem?_maskMap_of_mem (Set.mem_insert j S)]
    simp
  · by_cases hm : m ∈ S
    · rw [getElem?_maskMap_of_mem hm, getElem?_maskMap_of_mem (Set.mem_insert_of_mem j hm)]
      simp [hne]
    · have hm' : m ∉ insert j S := by simp [hm, hne.symm]
      rw [getElem?_maskMap_of_not_mem hm, getElem?_maskMap_of_not_mem hm']
      simp [hne]

/-- The work is complete iff every cell outside the set is a fixed point of its function. -/
theorem maskMap_eq_mapIdx_iff :
    maskMap S f l = l.mapIdx f ↔ ∀ j a, l[j]? = some a → j ∉ S → f j a = a := by
  constructor
  · intro h j a ha hj
    have hentry := congrArg (fun m : List α => m[j]?) h
    simp only [getElem?_maskMap_of_not_mem hj, List.getElem?_mapIdx, ha, Option.map_some,
      Option.some_inj] at hentry
    exact hentry.symm
  · intro h
    refine List.ext_getElem? fun j => ?_
    rw [List.getElem?_mapIdx]
    by_cases hj : j ∈ S
    · exact getElem?_maskMap_of_mem hj
    · rw [getElem?_maskMap_of_not_mem hj]
      cases ha : l[j]? with
      | none => rfl
      | some a => rw [Option.map_some, h j a ha hj]

/-- A set that contains every position of the list gives the complete map. -/
lemma maskMap_eq_mapIdx (h : ∀ j < l.length, j ∈ S) : maskMap S f l = l.mapIdx f := by
  rw [maskMap_eq_mapIdx_iff]
  intro j a ha hj
  exact absurd (h j (List.getElem?_eq_some_iff.mp ha).1) hj

/-- A sequential loop over the first `m` positions works on exactly these. -/
theorem foldl_modify_range (f : ℕ → α → α) (l : List α) (m : ℕ) :
    (List.range m).foldl (fun acc j => acc.modify j (f j)) l = maskMap {j | j < m} f l := by
  induction m with
  | zero => simp
  | succ m ih =>
    rw [List.range_succ, List.foldl_append, ih]
    have hm : m ∉ {j | j < m} := fun h => Nat.lt_irrefl m h
    have hset : insert m {j | j < m} = {j | j < m + 1} := by
      ext j
      rw [Set.mem_insert_iff]
      change j = m ∨ j < m ↔ j < m + 1
      omega
    simpa [hset] using modify_maskMap (f := f) (l := l) hm
