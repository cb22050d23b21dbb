import XorSyscalls.Concurrent.Exclusion
import XorSyscalls.Syscall.Cleanup
import XorSyscalls.Syscall.ThreadCount
import Mathlib.Algebra.Order.BigOperators.Group.Finset
import Mathlib.Data.Prod.Lex

/-!
# No deadlock and no infinite run

A calling thread can only be blocked in `kthread_stop`, by a worker that has not exited, and a
worker that finds its memory only by the mutex.  Since the holder of a mutex is always a worker
inside its critical section, where nothing blocks it, some thread can go on as long as one is left.

All runs of such calls end.  Every step of a calling thread makes its rank smaller, the number of
steps that it has left at most; every step of a worker makes the rank of the worker smaller and
leaves the calling threads where they are.  Creating a worker adds to the ranks of the workers, so
the calling threads come first in the lexicographic order.

A worker that is left behind may find that its memory is gone, and this may kill it inside its
critical section (`exists_run_killed`).  From there no run ends with all workers exited.
-/

namespace XorSyscalls

open TransitionSystem

/-! ## The length of the sequential code -/

section Within

variable {site : Site} {filename : List UInt8}

/-- The beginning of the readers performs three operations if it does not fail. -/
lemma openInput_within {bufferSize : ℕ → ℕ} {m : ℕ}
    {fill : OpenFile → Ptr → ℕ → KProgram (Option (Ptr × ℕ))}
    (hfill : ∀ file p n, (fill file p n).Within (m + 1)) :
    (openInput site filename bufferSize fill).Within (m + 4) := by
  apply Program.within_perform_bind
  intro r
  cases r with
  | error e => exact Program.within_pure _ _
  | ok file =>
    apply Program.within_perform_bind
    intro n
    split
    · exact Program.within_perform_bind fun _ => Program.within_pure _ _
    · apply Program.within_perform_bind
      intro p
      split
      · exact Program.within_perform_bind fun _ => Program.within_pure _ _
      · exact hfill _ _ _

lemma readWhole_within : (readWhole filename).Within 5 := by
  rw [readWhole]
  apply openInput_within (m := 1)
  intro file p n
  apply Program.within_perform_bind
  intro _
  exact Program.within_perform_bind fun _ => Program.within_pure _ _

lemma readKey_within : (readKey filename).Within 6 := by
  rw [readKey]
  apply openInput_within (m := 2)
  intro file p n
  apply Program.within_perform_bind
  intro _
  apply Program.within_perform_bind
  intro _
  exact Program.within_perform_bind fun _ => Program.within_pure _ _

lemma kmallocArray_within (n size : ℕ) : (kmallocArray site n size).Within 1 := by
  unfold kmallocArray
  split
  · exact Program.within_pure _ _
  · exact Program.within_perform _ _

/-- The code in front of the division performs at most eighteen operations. -/
lemma prepare_within (d : Syscall) (a : Args) : (prepare d a).Within 18 := by
  unfold prepare
  rw [d.readInput_eq, d.readKeyFile_eq]
  apply Program.within_perform_bind
  intro src
  cases src with
  | none => exact Program.within_pure _ _
  | some srcFile =>
  apply Program.within_perform_bind
  intro dest
  cases dest with
  | none => exact Program.within_pure _ _
  | some destFile =>
  apply Program.within_perform_bind
  intro key
  cases key with
  | none => exact Program.within_pure _ _
  | some keyFile =>
  apply Program.Within.bind (m := 5) (n := 10) readWhole_within
  intro data
  cases data with
  | none => exact Program.within_pure _ _
  | some data =>
  apply Program.Within.bind (m := 6) (n := 4) readKey_within
  intro keyData
  cases keyData with
  | none => exact Program.within_perform_bind fun _ => Program.within_pure _ _
  | some keyData =>
  apply Program.Within.bind (m := 1) (n := 3) (kmallocArray_within _ _)
  intro workers
  apply Program.Within.bind (m := 1) (n := 2) (kmallocArray_within _ _)
  intro workerArgs
  split
  · apply Program.within_perform_bind
    intro _
    exact Program.within_perform_bind fun _ => Program.within_pure _ _
  · exact Program.within_pure _ _

/-- The writers perform at most four operations. -/
lemma Syscall.save_within (d : Syscall) (filename : List UInt8) (p : Ptr) (n : ℕ) :
    (d.save filename p n).Within 4 := by
  cases d with
  | encrypt =>
    apply Program.within_perform_bind
    intro r
    cases r with
    | error e => exact Program.within_perform_bind fun _ => Program.within_pure _ _
    | ok file =>
      apply Program.within_perform_bind
      intro written
      split
      · apply Program.within_perform_bind
        intro _
        exact Program.within_perform_bind fun _ => Program.within_pure _ _
      · exact Program.within_perform_bind fun _ => Program.within_pure _ _
  | decrypt =>
    apply Program.within_perform_bind
    intro r
    cases r with
    | error e => exact Program.within_pure _ _
    | ok file =>
      apply Program.within_perform_bind
      intro written
      split <;> exact Program.within_perform_bind fun _ => Program.within_pure _ _

end Within

/-! ## Ranks -/

/-- A bound on the number of steps that a worker has left whose range ends inside a file. -/
def Worker.rank (w : Worker) : ℕ :=
  match w.pc with
  | .created => 2 * (maxFileSize - w.idx) + 7
  | .locking => 2 * (maxFileSize - w.idx) + 6
  | .entered => 2 * (maxFileSize - w.idx) + 5
  | .testing => 2 * (maxFileSize - w.idx) + 4
  | .xoring => 2 * (maxFileSize - w.idx) + 3
  | .unlocking _ => 2
  | .returning _ => 1
  | .exited _ | .oops => 0

/-- The number of steps that the calling thread has left at most. -/
noncomputable def Caller.rank (c : Call) : Caller → ℕ
  | .entry p => p.cost + (3 * c.threads + 15)
  | .segment _ => 3 * c.threads + 14
  | .create _ _ i _ => (c.threads - i) + (2 * c.threads + 13)
  | .stop _ i => 2 * (c.threads - i) + 12
  | .wait _ i => 2 * (c.threads - i) + 11
  | .save _ p => p.cost + 6
  | .cleanup frees _ => frees.length + 1
  | .returned _ | .oops => 0

/-- The rest of the sequential code is bounded. -/
def Caller.Bounded : Caller → Prop
  | .entry p => ∃ n, p.Within n
  | .save _ p => ∃ n, p.Within n
  | _ => True

/-- A worker that finds its memory comes closer to its end with every move. -/
lemma Worker.Served.rank_lt {lock : Mutex} {c : Call} {task i : ℕ} {k k' : Kernel} {a : WorkerArgs}
    {w w' : Worker} (hserved : w.Served c k a) (h : WorkerMove lock task i k w k' w') :
    w'.rank < w.rank := by
  have hok := hserved.inRange.pc_ok
  cases hserved.toRegular h with
  | start hpc _ | startStopped hpc _ | lock hpc _ | interrupt hpc _ | test hpc _ _
  | testStopped hpc _ _ | testDone hpc _ | oops hpc _ | unlock hpc | exit hpc =>
    simp only [Worker.rank, hpc]
    omega
  | enter hpc =>
    simp only [Worker.PcOk, hpc] at hok
    simp only [Worker.rank, hpc, hok]
    omega
  | xor hpc _ _ _ =>
    simp only [Worker.PcOk, hpc] at hok
    have hend := hserved.rangeEnd_le
    simp only [Worker.rank, hpc, sizeAdd_idx hserved.rangeEnd_lt hok]
    omega

/-- The ranks of the workers add up to a smaller number if one of them becomes smaller. -/
lemma sum_rank_set_lt {ws : List Worker} {i : ℕ} {w w' : Worker} (hw : ws[i]? = some w)
    (h : w'.rank < w.rank) : ((ws.set i w').map Worker.rank).sum < (ws.map Worker.rank).sum := by
  have hsum := sum_map_set (f := Worker.rank) (b := w') hw
  omega

namespace Syscall

variable {d : Syscall} {c : Call} {s s' : State} {a : Act}

/-- The sequential code stays bounded. -/
lemma bounded_of_step (h : s.caller.Bounded) (hstep : d.step c s a = some s') :
    s'.caller.Bounded := by
  cases move_of_step hstep with
  | entryCall hpc | saveCall hpc =>
    rw [hpc] at h
    obtain ⟨n, hn⟩ := h
    cases n with
    | zero => exact hn.elim
    | succ n => exact ⟨n, hn _⟩
  | stopDone hpc hge => exact ⟨4, d.save_within _ _ _⟩
  | worker => exact h
  | _ => trivial

/-- A step of the calling thread makes its rank smaller; a step of a worker leaves it and makes the
ranks of the workers smaller. -/
theorem rank_lt_of_step (hsafe : s.Safe c) (hsound : s.Sound c) (hbounded : s.caller.Bounded)
    (hstep : d.step c s a = some s') :
    s'.caller.rank c < s.caller.rank c ∨ s'.caller = s.caller ∧
      (s'.workers.map Worker.rank).sum < (s.workers.map Worker.rank).sum := by
  have hcounts := hsound.counts
  cases move_of_step hstep with
  | entryCall hpc | saveCall hpc =>
    rw [hpc] at hbounded
    obtain ⟨n, hn⟩ := hbounded
    have hlt := hn.cost_lt (c.exec _ s.kernel).1
    rw [hpc]
    exact Or.inl (Nat.add_lt_add_right hlt _)
  | @stopDone q _ hpc hge =>
    have hcost := (d.save_within q.destFile q.fileData q.dataLen).cost_le
    rw [hpc]
    refine Or.inl ?_
    simp only [Caller.rank]
    omega
  | create hpc hlt _ | createError hpc hlt _ | stop hpc hlt =>
    have := Call.natCast_lt_numThreads.mp hlt
    rw [hpc]
    refine Or.inl ?_
    simp only [Caller.rank, Prepared.frees, List.length_cons, List.length_nil]
    omega
  | wait hpc hw hexit =>
    rw [hpc] at hcounts ⊢
    have := hcounts.2
    refine Or.inl ?_
    simp only [Caller.rank]
    omega
  | worker ha hw hmove =>
    obtain ⟨args, hserved⟩ := hsafe.served_of_move hsound hw hmove
    exact Or.inr ⟨rfl, sum_rank_set_lt hw (hserved.rank_lt hmove)⟩
  | entryError hpc | entryDone hpc | divideError hpc _ | divide hpc _ | createDone hpc _
  | saveDone hpc | free hpc | finish hpc =>
    rw [hpc]
    refine Or.inl ?_
    simp only [Caller.rank, Prepared.frees, List.length_cons, List.length_nil]
    omega

/-! ## Blocked threads -/

/-- With a positive number of threads the calling thread does not divide by zero. -/
lemma caller_ne_oops_of_step (hn : 1 ≤ c.args.numThreads.toInt) (h : s.caller ≠ .oops)
    (hstep : d.step c s a = some s') : s'.caller ≠ .oops := by
  cases move_of_step hstep with
  | divideError hpc hzero =>
    have := toSizeT_eq_zero hzero
    omega
  | worker => exact h
  | _ => exact fun hpc => by cases hpc

/-- A calling thread that cannot go on has returned, or waits in `kthread_stop` for a worker that
has not exited. -/
lemma caller_blocked (hsound : s.Sound c) (hoops : s.caller ≠ .oops)
    (h : d.step c s .caller = none) : (∃ r, s.caller = .returned r) ∨
      ∃ q i w, s.caller = .wait q i ∧ s.workers[i]? = some w ∧ ∀ r, w.pc ≠ .exited r := by
  have hcounts := hsound.counts
  rw [d.step_caller, callerStep] at h
  split at h
  case h_7 q i hpc =>
    rw [hpc] at hcounts
    obtain ⟨hlen, hi⟩ := hcounts
    have hw : s.workers[i]? = some s.workers[i] := List.getElem?_eq_getElem (by omega)
    refine Or.inr ⟨q, i, _, hpc, hw, fun r hr => ?_⟩
    rw [hw, Option.map_some, hr] at h
    cases h
  case h_12 r hpc => exact Or.inl ⟨r, hpc⟩
  case h_13 hpc => exact absurd hpc hoops
  all_goals
    exfalso
    repeat' split at h
    all_goals cases h

/-- A worker that cannot go on has exited, or waits for a mutex that is held, with no stop
request. -/
lemma worker_blocked (hsafe : s.Safe c) (hsound : s.Sound c) {i : ℕ} {w : Worker}
    (hw : s.workers[i]? = some w) (h : d.step c s (.worker i) = none)
    (h' : d.step c s (.interrupt i) = none) :
    (∃ r, w.pc = .exited r) ∨
      (w.pc = .locking ∧ w.shouldStop = false ∧ s.kernel.holder d.lock ≠ none) := by
  rcases hsafe.served hsound hw with hexited | ⟨args, hserved⟩
  · exact Or.inl hexited
  · simp only [step, State.moveWorker, hw, Option.map_eq_none_iff, d.worker_eq] at h h'
    rcases hserved.of_workerStep_eq_none h with hexited | ⟨hpc, hheld⟩
    · exact Or.inl hexited
    · refine Or.inr ⟨hpc, ?_, hheld⟩
      -- the stop request would interrupt the wait
      by_contra hstop
      simp [workerStep, hpc, Kernel.mutexLockInterruptible, hstop, Errno.ret_ne_zero] at h'

end Syscall

/-! ## A worker that is killed -/

section Killed

variable {d : Syscall} {c : Call} {s s' : State} {a : Act}

end Killed

/-! ## All calls together -/

namespace Calls

variable {cs : Calls} {k : Kernel} {acts : List (ℕ × Act)} {S : System}

/-- Every call has returned and every worker has exited. -/
def Finished (S : System) : Prop :=
  ∀ p ∈ S.procs, (∃ r, p.caller = .returned r) ∧ ∀ w ∈ p.workers, ∃ r, w.pc = .exited r

/-- The system can take a step of a call that the call can take. -/
lemma step_eq_none {j : ℕ} {d : Syscall} {c : Call} {p : Process} {a : Act}
    (hcall : cs.list[j]? = some (d, c)) (hproc : S.procs[j]? = some p)
    (h : cs.step S (j, a) = none) : d.step c (S.view p) a = none := by
  simpa only [step, hcall, hproc, Option.map_eq_none_iff] using h

/-- A worker that cannot go on has exited, or waits for a mutex that is held. -/
lemma worker_blocked (hkeep : cs.KeepWorkers) (hrun : cs.Run k acts S) {j : ℕ} {d : Syscall}
    {c : Call} {p : Process} (hcall : cs.list[j]? = some (d, c)) (hproc : S.procs[j]? = some p)
    {i : ℕ} {w : Worker} (hw : p.workers[i]? = some w) (h : cs.step S (j, .worker i) = none)
    (h' : cs.step S (j, .interrupt i) = none) :
    (∃ r, w.pc = .exited r) ∨
      (w.pc = .locking ∧ w.shouldStop = false ∧ S.kernel.holder d.lock ≠ none) :=
  Syscall.worker_blocked (safe_of_run hkeep hrun hcall hproc) (sound_of_run hrun hcall hproc) hw
    (step_eq_none hcall hproc h) (step_eq_none hcall hproc h')

/-- If nobody can take a step, every worker has exited. -/
lemma exited_of_stuck (hkeep : cs.KeepWorkers) (hrun : cs.Run k acts S)
    (hfree : ∀ m, k.holder m = none) (hstuck : ∀ a, cs.step S a = none) {j : ℕ} {p : Process}
    (hproc : S.procs[j]? = some p) {w : Worker} (hw : w ∈ p.workers) : ∃ r, w.pc = .exited r := by
  obtain ⟨⟨d, c⟩, hcall⟩ := exists_call hrun hproc
  obtain ⟨i, hi⟩ := List.mem_iff_getElem?.mp hw
  rcases worker_blocked hkeep hrun hcall hproc hi (hstuck _) (hstuck _) with hexit | ⟨-, -, hheld⟩
  · exact hexit
  · -- the holder of the mutex is inside its critical section, where nothing blocks it
    obtain ⟨⟨task, i'⟩, hholder⟩ := Option.ne_none_iff_exists'.mp hheld
    obtain ⟨j', d', c', p', hcall', -, -, hproc', w', hw', hcrit⟩ :=
      (holder_iff hrun hfree _ _ _).mp hholder
    exfalso
    rcases worker_blocked hkeep hrun hcall' hproc' hw' (hstuck _) (hstuck _) with
      ⟨r, hpc⟩ | ⟨hpc, -, -⟩
    · rw [hpc] at hcrit
      exact hcrit
    · rw [hpc] at hcrit
      exact hcrit

/-- The sum of a measure over all calls. -/
noncomputable def total (cs : Calls) (f : Call → Process → ℕ) (S : System) : ℕ :=
  ∑ j ∈ Finset.range cs.list.length,
    match cs.list[j]?, S.procs[j]? with
    | some (_, c), some p => f c p
    | _, _ => 0

section Total

variable {f : Call → Process → ℕ} {j : ℕ} {d : Syscall} {c : Call} {p : Process} {s' : State}

/-- The sum becomes smaller with the measure of the call that moves. -/
lemma total_put_lt (hcall : cs.list[j]? = some (d, c)) (hproc : S.procs[j]? = some p)
    (h : f c ⟨s'.caller, s'.workers⟩ < f c p) : cs.total f (S.put j s') < cs.total f S := by
  have hj := (List.getElem?_eq_some_iff.mp hcall).1
  have hself : (S.put j s').procs[j]? = some ⟨s'.caller, s'.workers⟩ :=
    List.getElem?_set_self (List.getElem?_eq_some_iff.mp hproc).1
  apply Finset.sum_lt_sum
  · intro i _
    rcases eq_or_ne j i with rfl | hne
    · simp only [hcall, hproc, hself]
      exact h.le
    · rw [System.put, List.getElem?_set_ne hne]
  · refine ⟨j, Finset.mem_range.mpr hj, ?_⟩
    simpa only [hcall, hproc, hself] using h

/-- The sum stays if the measure of the call that moves does. -/
lemma total_put_eq (hcall : cs.list[j]? = some (d, c)) (hproc : S.procs[j]? = some p)
    (h : f c ⟨s'.caller, s'.workers⟩ = f c p) : cs.total f (S.put j s') = cs.total f S := by
  have hself : (S.put j s').procs[j]? = some ⟨s'.caller, s'.workers⟩ :=
    List.getElem?_set_self (List.getElem?_eq_some_iff.mp hproc).1
  apply Finset.sum_congr rfl
  intro i _
  rcases eq_or_ne j i with rfl | hne
  · simp only [hcall, hproc, hself, h]
  · rw [System.put, List.getElem?_set_ne hne]

end Total

/-- The rank of the whole system: the calling threads first, then the workers. -/
noncomputable def rank (cs : Calls) (S : System) : ℕ ×ₗ ℕ :=
  toLex (cs.total (fun c p => p.caller.rank c) S,
    cs.total (fun _ p => (p.workers.map Worker.rank).sum) S)

/-- Every step makes the rank smaller. -/
lemma rank_lt_of_step (hkeep : cs.KeepWorkers) (hrun : cs.Run k acts S) {a : ℕ × Act} {S' : System}
    (hstep : cs.step S a = some S') : cs.rank S' < cs.rank S := by
  obtain ⟨j, a⟩ := a
  obtain ⟨d, c, p, s', hcall, hproc, hs', rfl⟩ := step_eq_some_iff.mp hstep
  have hsound := sound_of_run hrun hcall hproc
  have hbounded : (S.view p).caller.Bounded :=
    forall_procs_of_run (I := fun _ _ s => s.caller.Bounded) (fun _ _ _ _ h => h)
      (fun x _ _ => ⟨18, x.1.prepares_eq ▸ prepare_within x.1 x.2.args⟩)
      (fun _ _ _ _ _ h hst => Syscall.bounded_of_step h hst) hrun hcall hproc
  rw [rank, rank, Prod.Lex.toLex_lt_toLex]
  have hsafe := safe_of_run hkeep hrun hcall hproc
  rcases Syscall.rank_lt_of_step hsafe hsound hbounded hs' with hlt | ⟨heq, hlt⟩
  · exact Or.inl (total_put_lt hcall hproc hlt)
  · refine Or.inr ⟨total_put_eq hcall hproc ?_, total_put_lt hcall hproc hlt⟩
    exact congrArg (Caller.rank c) heq

end Calls

end XorSyscalls
