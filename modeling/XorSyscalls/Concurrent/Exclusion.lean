import XorSyscalls.Concurrent.System

/-!
# Mutual exclusion

A worker is inside its critical section from the successful `mutex_lock_interruptible` to the
`mutex_unlock`, and stays there if it is killed.  `LockEffect` says what a step of a call does to
the mutexes and to the critical sections, and `Calls.holder_iff` concludes for all concurrent calls:
a mutex is held by a worker exactly while this worker is inside its critical section.
-/

namespace XorSyscalls

open TransitionSystem

/-! ## Critical sections -/

/-- Worker `i` is inside its critical section. -/
def CriticalAt (ws : List Worker) (i : ℕ) : Prop := ∃ w, ws[i]? = some w ∧ w.pc.Critical

section CriticalAt

variable {ws : List Worker} {i j : ℕ} {w w' : Worker}

/-- The critical sections after worker `i` has changed. -/
lemma criticalAt_set (hw : ws[i]? = some w) :
    CriticalAt (ws.set i w') j ↔ (j = i ∧ w'.pc.Critical) ∨ (j ≠ i ∧ CriticalAt ws j) := by
  unfold CriticalAt
  rcases eq_or_ne i j with rfl | hne
  · simp [List.getElem?_set_self (List.getElem?_eq_some_iff.mp hw).1]
  · simp [List.getElem?_set_ne hne, hne.symm]

/-- A move that neither enters nor leaves the critical section. -/
lemma criticalAt_set_of_iff (hw : ws[i]? = some w) (h : w'.pc.Critical ↔ w.pc.Critical) :
    CriticalAt (ws.set i w') j ↔ CriticalAt ws j := by
  rw [criticalAt_set hw, h]
  rcases eq_or_ne j i with rfl | hne
  · simp [CriticalAt, hw]
  · simp [hne]

/-- A new worker is outside. -/
lemma criticalAt_append_new (p : ArgsPtr) (n : ℕ) :
    CriticalAt (ws ++ [Worker.new p n]) j ↔ CriticalAt ws j := by
  constructor
  · rintro ⟨v, hv, hcrit⟩
    rcases getElem?_concat_cases hv with ⟨-, rfl⟩ | hv
    · exact hcrit.elim
    · exact ⟨v, hv, hcrit⟩
  · rintro ⟨v, hv, hcrit⟩
    exact ⟨v, by rw [List.getElem?_append_left (List.getElem?_eq_some_iff.mp hv).1, hv], hcrit⟩

/-- Stop flags do not matter. -/
lemma criticalAt_modify_stop : CriticalAt (ws.modify i Worker.stop) j ↔ CriticalAt ws j := by
  unfold CriticalAt
  rw [List.getElem?_modify]
  rcases eq_or_ne i j with rfl | hne
  · cases ws[i]? <;> simp [Worker.stop]
  · cases ws[j]? <;> simp [hne]

end CriticalAt

/-! ## The effect of one step -/

/-- Kernel functions do not touch the mutexes. -/
lemma Call.exec_holder (c : Call) (op : Op) (k : Kernel) : (c.exec op k).2.holder = k.holder := by
  cases op with
  | copyFromUser | iSizeRead | printk => rfl
  | filpOpen site filename mode =>
    simp only [exec, filpOpen]
    split
    · rfl
    · split <;> rfl
  | kmalloc site size =>
    simp only [exec, kmalloc]
    split
    · rfl
    · split <;> rfl
  | kernelRead file buf count =>
    simp only [exec, kernelRead]
    split
    · rfl
    · unfold Kernel.fill
      split <;> rfl
  | kernelWrite file buf count =>
    simp only [exec, kernelWrite]
    split
    · rfl
    · split <;> rfl
  | storeByte buf idx v => exact k.storeByte_holder buf idx v
  | filpClose file => exact congrArg (fun x => x.2.2.2) (k.core_filpClose file)
  | kfree p => exact k.kfree_holder p

/-- What a step of a task does to the mutexes and to its critical sections: nothing, or one worker
enters, or one worker leaves. -/
inductive LockEffect (lock : Mutex) (task : ℕ) (s s' : State) : Prop
  | none (hholder : s'.kernel.holder = s.kernel.holder)
      (hcrit : ∀ i, CriticalAt s'.workers i ↔ CriticalAt s.workers i)
  | enter (i : ℕ) (hfree : s.kernel.holder lock = Option.none)
      (hholder : s'.kernel.holder = Function.update s.kernel.holder lock (some (task, i)))
      (hcrit : ∀ j, CriticalAt s'.workers j ↔ j = i ∨ CriticalAt s.workers j)
  | leave (i : ℕ) (hin : CriticalAt s.workers i)
      (hholder : s'.kernel.holder = Function.update s.kernel.holder lock Option.none)
      (hcrit : ∀ j, CriticalAt s'.workers j ↔ j ≠ i ∧ CriticalAt s.workers j)

/-- Every move of a worker is of this kind. -/
lemma WorkerMove.lockEffect {lock : Mutex} {task : ℕ} {s : State} {i : ℕ} {w w' : Worker}
    {k' : Kernel} (hw : s.workers[i]? = some w) (hm : WorkerMove lock task i s.kernel w k' w') :
    LockEffect lock task s { s with kernel := k', workers := s.workers.set i w' } := by
  -- a worker that uses memory is inside
  have hinside : s.kernel.Missing w → w.pc.Critical := by
    intro hmiss
    have hacc := hmiss.accesses
    cases hpc : w.pc <;> simp_all [WorkerPc.Accesses, WorkerPc.Critical]
  cases hm with
  | regular a ha hmove =>
    cases hmove with
    | start hpc _ | startStopped hpc _ | interrupt hpc _ | enter hpc | test hpc _ _
    | testStopped hpc _ _ | testDone hpc _ | oops hpc _ | exit hpc =>
      exact .none rfl fun j => criticalAt_set_of_iff hw (by simp [hpc, WorkerPc.Critical])
    | xor hpc _ _ _ =>
      exact .none (Kernel.storeByte_holder _ _ _ _) fun j =>
        criticalAt_set_of_iff hw (by simp [hpc, WorkerPc.Critical])
    | lock hpc hfree =>
      refine .enter i hfree rfl fun j => ?_
      rw [criticalAt_set hw]
      by_cases hj : j = i <;> simp [hj, WorkerPc.Critical]
    | unlock hpc =>
      refine .leave i ⟨w, hw, by simp [hpc, WorkerPc.Critical]⟩ rfl fun j => ?_
      rw [criticalAt_set hw]
      simp [WorkerPc.Critical]
  | stray e hmiss hstep =>
    exact .none (strayed_of_workerStep hmiss hstep).holder fun j =>
      criticalAt_set_of_iff hw (iff_of_true (worker_of_strayStep hmiss hstep).2.2 (hinside hmiss))
  | fault hmiss =>
    exact .none rfl fun j => criticalAt_set_of_iff hw (iff_of_true trivial (hinside hmiss))

/-- Every step of a call is of this kind. -/
theorem Syscall.lockEffect_of_step {d : Syscall} {c : Call} {s s' : State} {a : Act}
    (hstep : d.step c s a = some s') : LockEffect d.lock c.task s s' := by
  cases Syscall.move_of_step hstep with
  | entryCall | saveCall => exact .none (c.exec_holder _ _) fun _ => Iff.rfl
  | create => exact .none rfl fun _ => criticalAt_append_new _ _
  | stop => exact .none rfl fun _ => criticalAt_modify_stop
  | free => exact .none (Kernel.kfree_holder _ _) fun _ => Iff.rfl
  | worker ha hw hmove => exact hmove.lockEffect hw
  | _ => exact .none rfl fun _ => Iff.rfl

/-- In a run of one call alone the holder of its mutex is one of its workers, inside its critical
section. -/
lemma Syscall.criticalAt_of_holder {d : Syscall} {c : Call} {k₀ : Kernel}
    (hfree : k₀.holder d.lock = none) {acts : List Act} {s : State} (hrun : d.Run c k₀ acts s)
    {o : ℕ × ℕ} (ho : s.kernel.holder d.lock = some o) : ∃ i, CriticalAt s.workers i := by
  refine run_invariant (I := fun s => s.kernel.holder d.lock ≠ none → ∃ i, CriticalAt s.workers i)
    (fun h => absurd hfree h) ?_ hrun (by simp [ho])
  intro s a s' hholder hstep hne
  cases Syscall.lockEffect_of_step hstep with
  | none hsame hcrit =>
    obtain ⟨i, hi⟩ := hholder (hsame ▸ hne)
    exact ⟨i, (hcrit i).mpr hi⟩
  | enter i _ _ hcrit => exact ⟨i, (hcrit i).mpr (.inl rfl)⟩
  | leave i _ hnone => simp [hnone] at hne

/-! ## All calls together -/

namespace Calls

variable {cs : Calls}

/-- Worker `i` of the task `task` is inside its critical section for the mutex `m`. -/
def Inside (cs : Calls) (S : System) (m : Mutex) (task i : ℕ) : Prop :=
  ∃ (j : ℕ) (d : Syscall) (c : Call) (p : Process), cs.list[j]? = some (d, c) ∧ d.lock = m ∧
    c.task = task ∧ S.procs[j]? = some p ∧ CriticalAt p.workers i

/-- Who is inside after a step of call `j`. -/
lemma inside_put {S : System} {j : ℕ} {d : Syscall} {c : Call} {p : Process} {s' : State}
    (hcall : cs.list[j]? = some (d, c)) (hproc : S.procs[j]? = some p) {m : Mutex} {task i : ℕ} :
    cs.Inside (S.put j s') m task i ↔
      (task = c.task ∧ m = d.lock ∧ CriticalAt s'.workers i) ∨
        (task ≠ c.task ∧ cs.Inside S m task i) := by
  have hlt := (List.getElem?_eq_some_iff.mp hproc).1
  constructor
  · rintro ⟨j', d', c', p', hcall', rfl, rfl, hproc', hcrit⟩
    rcases getElem?_put hproc hproc' with ⟨rfl, rfl⟩ | ⟨hne, hproc'⟩
    · cases hcall.symm.trans hcall'
      exact Or.inl ⟨rfl, rfl, hcrit⟩
    · refine Or.inr ⟨fun htask => hne (eq_of_task_eq hcall' hcall htask), ?_⟩
      exact ⟨j', d', c', p', hcall', rfl, rfl, hproc', hcrit⟩
  · rintro (⟨rfl, rfl, hcrit⟩ | ⟨hne, j', d', c', p', hcall', rfl, rfl, hproc', hcrit⟩)
    · exact ⟨j, d, c, _, hcall, rfl, rfl, List.getElem?_set_self hlt, hcrit⟩
    · have hj : j ≠ j' := by
        rintro rfl
        cases hcall.symm.trans hcall'
        exact hne rfl
      exact ⟨j', d', c', p', hcall', rfl, rfl, (List.getElem?_set_ne hj).trans hproc', hcrit⟩

/-- Who is inside among the workers of one call. -/
lemma inside_self {S : System} {j : ℕ} {d : Syscall} {c : Call} {p : Process}
    (hcall : cs.list[j]? = some (d, c)) (hproc : S.procs[j]? = some p) {m : Mutex} {i : ℕ} :
    cs.Inside S m c.task i ↔ m = d.lock ∧ CriticalAt p.workers i := by
  constructor
  · rintro ⟨j', d', c', p', hcall', rfl, htask, hproc', hcrit⟩
    obtain rfl := eq_of_task_eq hcall' hcall htask
    cases hcall.symm.trans hcall'
    cases hproc.symm.trans hproc'
    exact ⟨rfl, hcrit⟩
  · rintro ⟨rfl, hcrit⟩
    exact ⟨j, d, c, p, hcall, rfl, rfl, hproc, hcrit⟩

/-- The holders of the mutexes are exactly the workers inside their critical sections. -/
def HoldersInside (cs : Calls) (S : System) : Prop :=
  ∀ m task i, S.kernel.holder m = some (task, i) ↔ cs.Inside S m task i

/-- A step of a call keeps the holders inside. -/
lemma HoldersInside.step {S : System} (h : cs.HoldersInside S) {j : ℕ} {d : Syscall} {c : Call}
    {p : Process} {s' : State} (hcall : cs.list[j]? = some (d, c)) (hproc : S.procs[j]? = some p)
    (heffect : LockEffect d.lock c.task (S.view p) s') : cs.HoldersInside (S.put j s') := by
  intro m task i
  have hself : ∀ i, S.kernel.holder m = some (c.task, i) ↔ m = d.lock ∧ CriticalAt p.workers i :=
    fun i => (h m c.task i).trans (inside_self hcall hproc)
  -- a mutex of the other kind is not concerned
  have hother : m ≠ d.lock → (S.kernel.holder m = some (task, i) ↔
      (task = c.task ∧ m = d.lock ∧ CriticalAt s'.workers i) ∨
        (task ≠ c.task ∧ cs.Inside S m task i)) := by
    intro hm
    rcases eq_or_ne task c.task with rfl | hne
    · simpa [hm] using hself i
    · simpa [hne, hm] using h m task i
  rw [inside_put hcall hproc, System.put_kernel]
  cases heffect with
  | none hholder hcrit =>
    rw [hholder, hcrit]
    rcases eq_or_ne task c.task with rfl | hne
    · simpa using hself i
    · simpa [hne] using h m task i
  | enter i₀ hfree hholder hcrit =>
    rw [hholder]
    rcases eq_or_ne m d.lock with rfl | hm
    · -- nobody was inside before
      have hnone : ∀ task i, ¬ cs.Inside S d.lock task i := by
        intro task i hin
        have hholds := (h _ _ _).mpr hin
        rw [System.view_kernel] at hfree
        rw [hfree] at hholds
        cases hholds
      have hnot : ¬ CriticalAt p.workers i := fun hc =>
        hnone c.task i ((inside_self hcall hproc).mpr ⟨rfl, hc⟩)
      rw [Function.update_self, hcrit]
      simp only [Option.some_inj, Prod.mk.injEq, System.view_workers, hnone, hnot, and_false,
        or_false, true_and]
      constructor
      · rintro ⟨rfl, rfl⟩
        exact ⟨rfl, rfl⟩
      · rintro ⟨rfl, rfl⟩
        exact ⟨rfl, rfl⟩
    · rw [Function.update_of_ne hm]
      exact hother hm
  | leave i₀ hin hholder hcrit =>
    rw [hholder]
    rcases eq_or_ne m d.lock with rfl | hm
    · -- nobody else was inside before
      have hheld : S.kernel.holder d.lock = some (c.task, i₀) := (hself i₀).mpr ⟨rfl, hin⟩
      have honly : ∀ task i, cs.Inside S d.lock task i → task = c.task ∧ i = i₀ := by
        intro task i hi
        have hholds := (h _ _ _).mpr hi
        rw [hheld, Option.some_inj, Prod.mk.injEq] at hholds
        exact ⟨hholds.1.symm, hholds.2.symm⟩
      rw [Function.update_self, hcrit]
      refine iff_of_false (by simp) ?_
      rintro (⟨-, -, hne, hc⟩ | ⟨hne, hi⟩)
      · exact hne (honly c.task i ((inside_self hcall hproc).mpr ⟨rfl, hc⟩)).2
      · exact hne (honly task i hi).1
    · rw [Function.update_of_ne hm]
      exact hother hm

/-- In every run from free mutexes, a mutex is held by a worker exactly while the worker is inside
its critical section. -/
theorem holder_iff {k : Kernel} {acts : List (ℕ × Act)} {S : System} (hrun : cs.Run k acts S)
    (hfree : ∀ m, k.holder m = none) : cs.HoldersInside S := by
  refine run_invariant (I := cs.HoldersInside) ?_ (fun S a S' ih hstep => ?_) hrun
  · intro m task i
    refine iff_of_false (by simp [System.start, hfree]) ?_
    rintro ⟨j, d, c, p, hcall, -, -, hproc, w, hw, -⟩
    obtain rfl := eq_entry_of_start hcall hproc
    simp at hw
  · obtain ⟨j, a⟩ := a
    obtain ⟨d, c, p, s', hcall, hproc, hs', rfl⟩ := step_eq_some_iff.mp hstep
    exact ih.step hcall hproc (Syscall.lockEffect_of_step hs')

end Calls

end XorSyscalls
