import XorSyscalls.Concurrent.Isolation

/-!
# Any number of calls in any order

If no call writes to a file that another one works on, and no call leaves a worker behind, a run of
concurrent calls can be sorted: the steps of each call stay as they are, and the calls come one
after the other, in any order.  The sorted schedule leads to the same return values, the same
workers and the same files.

The proof adds one call after the other.  `Calls.Sorted` says what the calls done so far have left
behind, and the next call cannot tell this from the start of the interleaved run.
-/

namespace XorSyscalls

open TransitionSystem

namespace Calls

variable {cs : Calls} {k : Kernel} {acts : List (ℕ × Act)} {S : System}

/-- The steps of a schedule, sorted by call in the order given. -/
def sorted (order : List ℕ) (acts : List (ℕ × Act)) : List (ℕ × Act) :=
  order.flatMap fun j => (actsOf j acts).map fun a => (j, a)

/-- In `T` the calls in `order` are where they are in `S`, from `k`, and the others have not
begun. -/
structure Sorted (cs : Calls) (k : Kernel) (S : System) (order : List ℕ) (T : System) : Prop where
  /-- The private states of the calls that are done. -/
  done : ∀ j ∈ order, T.procs[j]? = S.procs[j]?
  /-- The other calls are at their entries. -/
  entry : ∀ j ∉ order, T.procs[j]? = (System.start cs k).procs[j]?
  /-- The mutexes are free. -/
  free : ∀ m, T.kernel.holder m = none
  /-- The files of the calls that are done. -/
  used : ∀ j ∈ order, ∀ x, cs.list[j]? = some x → ∀ p, x.2.Uses p → T.kernel.fs p = S.kernel.fs p
  /-- The files that these calls do not write. -/
  unwritten : ∀ p, (∀ j ∈ order, ∀ x, cs.list[j]? = some x → x.2.destPath ≠ some p) →
    T.kernel.fs p = k.fs p
  /-- The memory of the other calls. -/
  undisturbed : ∀ j ∉ order, ∀ x, cs.list[j]? = some x → x.2.Undisturbed k T.kernel

/-- A call that has not begun cannot tell what the others have left behind from the start. -/
lemma Sorted.sees (hapart : cs.Apart) (hfree : ∀ m, k.holder m = none) {order : List ℕ} {j : ℕ}
    (hj : j ∉ order) {d : Syscall} {c : Call} (hcall : cs.list[j]? = some (d, c)) {T : System}
    (h : cs.Sorted k S order T) : c.Sees d.lock T.kernel k where
  fs := fun p hp => h.unwritten p fun i hi y hy hdest =>
    hapart i j y _ hy hcall (ne_of_mem_of_not_mem hi hj) p hdest hp
  mem := (h.undisturbed j hj _ hcall).mem
  args := (h.undisturbed j hj _ hcall).args
  holder := by rw [h.free, hfree]; rfl

/-- One more call is done. -/
lemma Sorted.next (hkeep : cs.KeepWorkers) (hapart : cs.Apart) (hfree : ∀ m, k.holder m = none)
    (hrun : cs.Run k acts S) (hexited : ∀ p ∈ S.procs, ∀ w ∈ p.workers, ∃ r, w.pc = .exited r)
    {order : List ℕ} {j : ℕ} (hj : j ∉ order) {d : Syscall} {c : Call}
    (hcall : cs.list[j]? = some (d, c)) {T : System} (hT : cs.Run k (sorted order acts) T)
    (h : cs.Sorted k S order T) :
    ∃ T', cs.Run k (sorted (order ++ [j]) acts) T' ∧ cs.Sorted k S (order ++ [j]) T' := by
  have hlt : j < S.procs.length := length_procs hrun ▸ (List.getElem?_eq_some_iff.mp hcall).1
  have hproc := List.getElem?_eq_getElem hlt
  generalize S.procs[j] = p at hproc
  have hentry : T.procs[j]? = some ⟨.entry (d.prepares c.args), []⟩ := by
    rw [h.entry j hj]
    simp [System.start, hcall]
  have hkeeps := hkeep _ (List.mem_of_getElem? hcall)
  have hsound := State.Sound.start d c k
  -- the call alone from the start, and then from `T`
  obtain ⟨k₁, hsolo, hsees₁⟩ := solo_of_run hkeep hapart hfree hrun hcall hproc
  obtain ⟨k₂, hsolo₂, hsees₂⟩ := Syscall.run_of_sees hsolo (State.Safe.start d c k) hsound hkeeps
    (h.sees hapart hfree hj hcall)
  have hchanges : c.Changes T.kernel k₂ := Syscall.changes_of_run hsolo₂
    (State.Safe.start d c T.kernel) (hsound.of_kernel T.kernel) hkeeps
  have hblock := run_map_of_run hcall hentry hsolo₂
  have hT' : cs.Run k (sorted (order ++ [j]) acts) (T.put j ⟨k₂, p.caller, p.workers⟩) := by
    rw [Calls.Run] at hT ⊢
    rw [sorted, List.flatMap_append, run_append, ← sorted, hT, Option.bind_some,
      List.flatMap_singleton, hblock]
  have hself : (T.put j ⟨k₂, p.caller, p.workers⟩).procs[j]? = some p :=
    List.getElem?_set_self (List.getElem?_eq_some_iff.mp hentry).1
  have hother : ∀ i, i ≠ j → (T.put j ⟨k₂, p.caller, p.workers⟩).procs[i]? = T.procs[i]? :=
    fun i hi => List.getElem?_set_ne hi.symm
  have hdone : ∀ i ∈ order ++ [j],
      (T.put j ⟨k₂, p.caller, p.workers⟩).procs[i]? = S.procs[i]? := by
    intro i hi
    rcases eq_or_ne i j with rfl | hne
    · rw [hself, hproc]
    · rw [hother i hne, h.done i (by simpa [hne] using hi)]
  have hrest : ∀ i ∉ order ++ [j], (T.put j ⟨k₂, p.caller, p.workers⟩).procs[i]? =
      (System.start cs k).procs[i]? := by
    intro i hi
    rw [List.mem_append, List.mem_singleton, not_or] at hi
    rw [hother i hi.2, h.entry i hi.1]
  refine ⟨_, hT', hdone, hrest, ?_, ?_, ?_, ?_⟩
  · -- every worker in the new state has exited
    refine holder_eq_none hT' hfree fun q hq w hw => ?_
    obtain ⟨i, hi⟩ := List.mem_iff_getElem?.mp hq
    by_cases hmem : i ∈ order ++ [j]
    · exact hexited q (List.mem_of_getElem? ((hdone i hmem).symm.trans hi)) w hw
    · obtain ⟨⟨d', c'⟩, hcall'⟩ := exists_call hT' hi
      obtain rfl := eq_entry_of_start hcall' ((hrest i hmem).symm.trans hi)
      cases hw
  · intro i hi y hy path hpath
    rcases eq_or_ne i j with rfl | hne
    · cases hcall.symm.trans hy
      exact (hsees₂.fs path hpath).trans (hsees₁.fs path hpath)
    · rw [System.put_kernel, hchanges.fs path fun hdest =>
        hapart j i _ y hcall hy hne.symm path hdest hpath]
      exact h.used i (by simpa [hne] using hi) y hy path hpath
  · intro path hpath
    rw [System.put_kernel, hchanges.fs path (hpath j (by simp) _ hcall)]
    exact h.unwritten path fun i hi => hpath i (List.mem_append_left _ hi)
  · intro i hi y hy
    rw [List.mem_append, List.mem_singleton, not_or] at hi
    have htask : y.2.task ≠ c.task := fun htask => hi.2 (eq_of_task_eq hy hcall htask)
    exact trans_of y.2.Undisturbed (h.undisturbed i hi.1 y hy) (hchanges.undisturbed htask)

/-- Any calls can be done in any order. -/
lemma exists_sorted (hkeep : cs.KeepWorkers) (hapart : cs.Apart)
    (hfree : ∀ m, k.holder m = none) (hrun : cs.Run k acts S)
    (hexited : ∀ p ∈ S.procs, ∀ w ∈ p.workers, ∃ r, w.pc = .exited r) {order : List ℕ}
    (hnodup : order.Nodup) (hlt : ∀ j ∈ order, j < cs.list.length) :
    ∃ T, cs.Run k (sorted order acts) T ∧ cs.Sorted k S order T := by
  induction order using List.reverseRecOn with
  | nil =>
    refine ⟨_, rfl, ?_, fun _ _ => rfl, hfree, ?_, fun _ _ => rfl, ?_⟩
    · simp
    · simp
    · exact fun _ _ x _ => refl_of x.2.Undisturbed k
  | append_singleton order j ih =>
    rw [List.nodup_append] at hnodup
    obtain ⟨T, hT, hsorted⟩ := ih hnodup.1 fun i hi => hlt i (List.mem_append_left _ hi)
    have hj : j ∉ order := fun hj => hnodup.2.2 j hj j (List.mem_singleton_self j) rfl
    have hcall := List.getElem?_eq_getElem (hlt j (by simp))
    exact hsorted.next hkeep hapart hfree hrun hexited hj hcall hT

/-- Calls that do not write to each other's files and leave no worker behind, in a run after which
their workers have exited: if the steps of the run are sorted by call, in any order, they are still
a run, with the same return values, workers and files. -/
theorem sorted_run (hkeep : cs.KeepWorkers) (hapart : cs.Apart)
    (hfree : ∀ m, k.holder m = none) (hrun : cs.Run k acts S)
    (hexited : ∀ p ∈ S.procs, ∀ w ∈ p.workers, ∃ r, w.pc = .exited r) {order : List ℕ}
    (horder : order.Perm (List.range cs.list.length)) :
    ∃ T, cs.Run k (sorted order acts) T ∧ T.procs = S.procs ∧ T.kernel.fs = S.kernel.fs := by
  have hmem : ∀ j, j ∈ order ↔ j < cs.list.length := fun j => by
    rw [horder.mem_iff, List.mem_range]
  obtain ⟨T, hT, hsorted⟩ := exists_sorted hkeep hapart hfree hrun hexited
    (horder.nodup_iff.mpr List.nodup_range) fun j hj => (hmem j).mp hj
  refine ⟨T, hT, List.ext_getElem? fun j => ?_, funext fun p => ?_⟩
  · by_cases hj : j ∈ order
    · exact hsorted.done j hj
    · rw [hmem] at hj
      rw [List.getElem?_eq_none (by rwa [length_procs hT, ← not_lt]),
        List.getElem?_eq_none (by rwa [length_procs hrun, ← not_lt])]
  · -- a file that some call works on, or one that no call writes
    by_cases hp : ∃ (j : ℕ) (x : _), cs.list[j]? = some x ∧ x.2.Uses p
    · obtain ⟨j, x, hx, hp⟩ := hp
      exact hsorted.used j ((hmem j).mpr (List.getElem?_eq_some_iff.mp hx).1) x hx p hp
    · have hdest : ∀ (j : ℕ) x, cs.list[j]? = some x → x.2.destPath ≠ some p :=
        fun j x hx hdest => hp ⟨j, x, hx, .inr (.inr hdest)⟩
      rw [hsorted.unwritten p fun j _ => hdest j, fs_of_run hrun fun x hx => ?_]
      obtain ⟨j, hj⟩ := List.mem_iff_getElem?.mp hx
      exact hdest j x hj

/-- The two small calls do not write to each other's files. -/
lemma sampleCalls_apart : (sampleCalls 1).Apart := by
  have hnames := sampleCall_names 1
  have hdest : (secondCall 1).destPath = some [99] := by decide +kernel
  have hsrc : (secondCall 1).srcPath = some [97] := by decide +kernel
  have hkey : (secondCall 1).keyPath = some [107] := by decide +kernel
  refine apart_of_pair rfl ?_ ?_
  · simp [Call.Uses, hnames.destPath, hdest, hsrc, hkey]
  · simp [Call.Uses, hnames.destPath, hnames.srcPath, hnames.keyPath, hdest]

/-- The interleaving of the two small calls, with the steps of the second call first. -/
theorem sorted_run_sample :
    ∃ S T : System, (sampleCalls 1).Run (.idle sampleFiles) sampleInterleaving S ∧
      (sampleCalls 1).Run (.idle sampleFiles) (sorted [1, 0] sampleInterleaving) T ∧
      T.procs = S.procs ∧ T.kernel.fs = S.kernel.fs := by
  have hresult : (run (sampleCalls 1).step (.start (sampleCalls 1) (.idle sampleFiles))
      sampleInterleaving).map (fun S => S.procs.map fun p => p.workers.map Worker.pc) =
        some [[.exited 0], [.exited 0]] := by
    decide +kernel
  obtain ⟨S, hrun, hS⟩ := Option.map_eq_some_iff.mp hresult
  have hexited : ∀ p ∈ S.procs, ∀ w ∈ p.workers, ∃ r, w.pc = .exited r := by
    intro p hp w hw
    have hpcs : p.workers.map Worker.pc = [.exited 0] := by
      simpa [hS] using List.mem_map_of_mem (f := fun p => p.workers.map Worker.pc) hp
    exact ⟨0, by simpa [hpcs] using List.mem_map_of_mem (f := Worker.pc) hw⟩
  obtain ⟨T, hT, hprocs, hfs⟩ := sorted_run (sampleCalls_keep 1) sampleCalls_apart
    (fun _ => rfl) hrun hexited (List.Perm.swap 0 1 [])
  exact ⟨S, T, hrun, hT, hprocs, hfs⟩

end Calls

end XorSyscalls
