import XorSyscalls.Linux.Kthread
import XorSyscalls.Foundation.Pool

/-!
# The life of a kernel thread

`ThreadMove` and `Move` list what a thread and the whole system can do.  `Thread.Ok` is the
invariant of one thread: its phase determines its reference counts, its completion and the program
point of its function.  `Inv` is the invariant of a system call with its threads.

A reference that `kthread_stop` has taken keeps the `task_struct` alive, so the only statement that
can find it freed is the first one (`Inv.fault`).
-/

namespace XorSyscalls

open TransitionSystem

/-- The parts of the code of a system call that do not touch its threads. -/
def Caller.Plain : Caller → Prop
  | .create _ _ _ _ | .stop _ _ => False
  | _ => True

namespace Kthread

/-! ## Moves -/

/-- The moves of thread `i` of a task. -/
inductive ThreadMove (d : Syscall) (task i : ℕ) : Kernel → Thread → Kernel → Thread → Prop
  /-- The thread runs for the first time. -/
  | wakes {k t} (hphase : t.task.phase = .parked) (hrunnable : t.task.runnable = true) :
    ThreadMove d task i k t k { t with task := { t.task with phase := .woken } }
  /-- It tests the stop flag and enters its function. -/
  | begins {k t k' w' e} (hphase : t.task.phase = .woken)
      (h : d.worker task i (chance e) k t.worker = some (k', w')) :
    ThreadMove d task i k t k' ⟨w', { t.task with phase := .running }⟩
  /-- The function takes a step. -/
  | runs {k t k' w' e} (hphase : t.task.phase = .running) (hpc : ∀ r, t.worker.pc ≠ .returning r)
      (h : d.worker task i (chance e) k t.worker = some (k', w')) :
    ThreadMove d task i k t k' { t with worker := w' }
  /-- The function is killed by a fault. -/
  | faults {k t} (hphase : t.task.phase = .running) (hmiss : k.Missing t.worker) :
    ThreadMove d task i k t k { t with worker := { t.worker with pc := .oops } }
  /-- The wait for the mutex is interrupted. -/
  | interrupted {k t} (hphase : t.task.phase = .running) (hpc : t.worker.pc = .locking)
      (hnotify : t.task.notifySignal = true) :
    ThreadMove d task i k t k
      { t with worker := { t.worker with pc := .returning Errno.eintr.ret } }
  /-- `kthread_exit` stores the result. -/
  | exits {k t r} (hphase : t.task.phase = .running) (hpc : t.worker.pc = .returning r) :
    ThreadMove d task i k t k { t with task := { t.task with result := r, phase := .exiting } }
  /-- `vfork_done` is completed. -/
  | completes {k t} (hphase : t.task.phase = .exiting) :
    ThreadMove d task i k t k ⟨{ t.worker with pc := .exited t.task.result },
      { t.task with exited := t.task.exited + 1, phase := .notifying }⟩
  /-- `release_task` or `finish_task_switch` drops its reference. -/
  | releases {k t} (hphase : t.task.phase = .notifying ∨ t.task.phase = .dead) :
    ThreadMove d task i k t k { t with task := t.task.putTaskStructRcuUser }
  /-- `delayed_put_task_struct` drops the last reference of the kernel. -/
  | reaps {k t} (hphase : t.task.phase = .queued) :
    ThreadMove d task i k t k { t with task := { t.task.putTaskStruct with phase := .reaped } }

section ThreadMove

variable {d : Syscall} {task i : ℕ} {e : Option Stray} {k k' : Kernel} {t t' : Thread}

/-- Every step of a thread is one of its moves. -/
lemma threadMove_of_threadStep (h : threadStep d task i e k t = some (k', t')) :
    ThreadMove d task i k t k' t' := by
  unfold threadStep at h
  split at h
  case h_1 hphase =>
    split at h <;> rename_i hrunnable <;> cases h
    exact .wakes hphase hrunnable
  case h_2 hphase =>
    obtain ⟨m, hm, heq⟩ := Option.map_eq_some_iff.mp h
    cases heq
    exact .begins hphase hm
  case h_3 hphase =>
    split at h
    · rename_i r hpc
      cases h
      exact .exits hphase hpc
    · rename_i hpc
      obtain ⟨m, hm, heq⟩ := Option.map_eq_some_iff.mp h
      cases heq
      exact .runs hphase hpc hm
  case h_4 hphase => cases h; exact .completes hphase
  case h_5 hphase => cases h; exact .releases (.inl hphase)
  all_goals cases h

/-- An interrupted wait is a move of the thread. -/
lemma threadMove_of_threadInterrupt (h : threadInterrupt k t = some (k', t')) :
    ThreadMove d task i k t k' t' := by
  unfold threadInterrupt at h
  split at h <;> rename_i hguard <;> cases h
  exact .interrupted hguard.1 hguard.2.1 hguard.2.2

/-- A fault is a move of the thread. -/
lemma threadMove_of_threadFault (h : threadFault k t = some (k', t')) :
    ThreadMove d task i k t k' t' := by
  unfold threadFault at h
  split at h <;> rename_i hphase
  · obtain ⟨m, hm, heq⟩ := Option.map_eq_some_iff.mp h
    cases heq
    unfold Kernel.faultStep at hm
    split at hm <;> rename_i hmiss <;> cases hm
    exact .faults hphase hmiss
  · cases h

/-- Dropping a reference is a move of the thread. -/
lemma threadMove_of_reapStep (h : reapStep k t = some (k', t')) :
    ThreadMove d task i k t k' t' := by
  unfold reapStep at h
  split at h
  case h_1 hphase => cases h; exact .releases (.inr hphase)
  case h_2 hphase => cases h; exact .reaps hphase
  case h_3 => cases h

/-- Every move of a thread is one of its steps. -/
lemma ThreadMove.cases_step (h : ThreadMove d task i k t k' t') :
    (∃ e, threadStep d task i e k t = some (k', t')) ∨ threadInterrupt k t = some (k', t') ∨
      threadFault k t = some (k', t') ∨ reapStep k t = some (k', t') := by
  cases h with
  | wakes hphase hrunnable => exact .inl ⟨none, by simp [threadStep, hphase, hrunnable]⟩
  | @begins _ _ e hphase hw => exact .inl ⟨e, by simp [threadStep, hphase, hw]⟩
  | @runs _ _ e hphase hpc hw =>
    refine .inl ⟨e, ?_⟩
    unfold threadStep
    rw [hphase]
    dsimp only
    split
    · exact absurd ‹_› (hpc _)
    · rw [hw]
      rfl
  | interrupted hphase hpc hnotify =>
    exact .inr (.inl (by simp [threadInterrupt, hphase, hpc, hnotify]))
  | faults hphase hmiss =>
    exact .inr (.inr (.inl (by simp [threadFault, Kernel.faultStep, hphase, hmiss])))
  | exits hphase hpc => exact .inl ⟨none, by simp [threadStep, hphase, hpc]⟩
  | completes hphase => exact .inl ⟨none, by simp [threadStep, hphase]⟩
  | releases hphase =>
    rcases hphase with hphase | hphase
    · exact .inl ⟨none, by simp [threadStep, hphase]⟩
    · exact .inr (.inr (.inr (by simp [reapStep, hphase])))
  | reaps hphase => exact .inr (.inr (.inr (by simp [reapStep, hphase])))

end ThreadMove

/-- The calling thread is about to use the `task_struct` of thread `i`. -/
def KCaller.Accesses (i : ℕ) : KCaller → Prop
  | .waking _ _ j _ | .stopping _ j _ => j = i
  | .code _ | .stopped _ _ _ => False

/-- The moves of a system call with its threads. -/
inductive Move (d : Syscall) (c : Call) (s : KState) : KState → Prop
  /-- A step of the code of the system call that does not touch its threads. -/
  | code {caller s'} (hpc : s.caller = .code caller) (hplain : caller.Plain)
      (h : XorSyscalls.callerStep d c ⟨s.kernel, caller, []⟩ = some s') :
    Move d c s { s with kernel := s'.kernel, caller := .code s'.caller }
  /-- A thread is created. -/
  | create {q seg} {i : ℕ} {off} (hpc : s.caller = .code (.create q seg i off))
      (hlt : (i : ℤ) < c.args.numThreads.toInt) (hrun : c.env.threadError i = none) :
    Move d c s { s with
      kernel := s.kernel.storeArgs (q.argsPtr i) (q.argsFor c.args.numThreads.toInt seg i off)
      threads := s.threads ++ [Thread.new (q.argsPtr i) off]
      caller := .waking q seg i off }
  /-- A thread cannot be created, and the system call jumps to `cleanup`. -/
  | createError {q seg} {i : ℕ} {off e} (hpc : s.caller = .code (.create q seg i off))
      (hlt : (i : ℤ) < c.args.numThreads.toInt) (hrun : c.env.threadError i = some e) :
    Move d c s { s with
      kernel := (s.kernel.storeArgs (q.argsPtr i)
        (q.argsFor c.args.numThreads.toInt seg i off)).printk ⟨.kernErr, d.createFailed, [.int i]⟩
      caller := .code (.cleanup q.frees e.ret) }
  /-- All threads have been created. -/
  | createDone {q seg} {i : ℕ} {off} (hpc : s.caller = .code (.create q seg i off))
      (hge : c.args.numThreads.toInt ≤ (i : ℤ)) : Move d c s { s with caller := .code (.stop q 0) }
  /-- A new thread is woken. -/
  | wake {q seg i off t} (hpc : s.caller = .waking q seg i off) (ht : s.threads[i]? = some t)
      (hlive : t.task.freed = false) :
    Move d c s { s with
      threads := s.threads.set i { t with task := t.task.wakeUpProcess }
      caller := .code (.create q seg (i + 1) (sizeAdd off seg)) }
  /-- `kthread_stop` is called. -/
  | enter {q} {i : ℕ} (hpc : s.caller = .code (.stop q i))
      (hlt : (i : ℤ) < c.args.numThreads.toInt) :
    Move d c s { s with caller := .stopping q i .get }
  /-- All threads have been stopped. -/
  | stopDone {q} {i : ℕ} (hpc : s.caller = .code (.stop q i))
      (hge : c.args.numThreads.toInt ≤ (i : ℤ)) :
    Move d c s { s with caller := .code (.save q (d.save q.destFile q.fileData q.dataLen)) }
  /-- A statement of `kthread_stop`. -/
  | stop {q i pc t m} (hpc : s.caller = .stopping q i pc) (ht : s.threads[i]? = some t)
      (hlive : t.task.freed = false) (hm : kthreadStop pc t = some m) :
    Move d c s { s with
      threads := s.threads.set i m.2, caller := m.1.elim (.stopping q i) (.stopped q i) }
  /-- The result of a thread is logged. -/
  | log {q i r} (hpc : s.caller = .stopped q i r) :
    Move d c s { s with
      kernel := s.kernel.printk (d.stopMessage i r), caller := .code (.stop q (i + 1)) }
  /-- A freed `task_struct` is used. -/
  | fault {i t} (hpc : s.caller.Accesses i) (ht : s.threads[i]? = some t)
      (hfreed : t.task.freed = true) : Move d c s { s with fault := true }
  /-- A thread moves. -/
  | thread {i t k' t'} (ht : s.threads[i]? = some t)
      (hmove : ThreadMove d c.task i s.kernel t k' t') :
    Move d c s { s with kernel := k', threads := s.threads.set i t' }

section Move

variable {d : Syscall} {c : Call} {s s' : KState}

/-- An access either goes on or finds the thread freed. -/
lemma exists_of_access {i : ℕ} {f : Thread → Option (KCaller × Thread)}
    (h : s.access i f = some s') : ∃ t, s.threads[i]? = some t ∧
      ((t.task.freed = true ∧ s' = { s with fault := true }) ∨
        t.task.freed = false ∧ ∃ m, f t = some m ∧
          s' = { s with caller := m.1, threads := s.threads.set i m.2 }) := by
  unfold KState.access at h
  split at h
  · cases h
  · rename_i t ht
    refine ⟨t, ht, ?_⟩
    split at h <;> rename_i hfreed
    · cases h
      exact .inl ⟨hfreed, rfl⟩
    · obtain ⟨m, hm, rfl⟩ := Option.map_eq_some_iff.mp h
      exact .inr ⟨by simpa using hfreed, m, hm, rfl⟩

/-- Every step of the calling thread is one of the moves. -/
lemma move_of_callerStep (h : callerStep d c s = some s') : Move d c s s' := by
  unfold callerStep at h
  dsimp only at h
  split at h
  case h_1 q seg i off hpc =>
    split at h <;> rename_i hlt
    · split at h <;> rename_i hrun <;> cases h
      · exact .createError hpc hlt hrun
      · exact .create hpc hlt hrun
    · cases h
      exact .createDone hpc (by omega)
  case h_2 q seg i off hpc =>
    obtain ⟨t, ht, ⟨hfreed, rfl⟩ | ⟨hlive, m, hm, rfl⟩⟩ := exists_of_access h
    · exact .fault (hpc ▸ rfl) ht hfreed
    · cases hm
      exact .wake hpc ht hlive
  case h_3 q i hpc =>
    split at h <;> rename_i hlt <;> cases h
    · exact .enter hpc hlt
    · exact .stopDone hpc (by omega)
  case h_4 q i pc hpc =>
    obtain ⟨t, ht, ⟨hfreed, rfl⟩ | ⟨hlive, m, hm, rfl⟩⟩ := exists_of_access h
    · exact .fault (hpc ▸ rfl) ht hfreed
    · obtain ⟨m', hm', rfl⟩ := Option.map_eq_some_iff.mp hm
      exact .stop hpc ht hlive hm'
  case h_5 q i r hpc => cases h; exact .log hpc
  case h_6 caller hcreate hstop hpc =>
    rw [d.body_eq] at h
    obtain ⟨s', hs', rfl⟩ := Option.map_eq_some_iff.mp h
    refine .code hpc ?_ hs'
    cases caller with
    | create q seg i off => exact (hcreate q seg i off rfl).elim
    | stop q i => exact (hstop q i rfl).elim
    | _ => trivial

/-- Every step is one of the moves. -/
theorem move_of_step {a : KAct} (h : step d c s a = some s') : s.fault = false ∧ Move d c s s' := by
  have hmove : ∀ {i : ℕ} {f : Kernel → Thread → Option (Kernel × Thread)},
      (∀ {k t k' t'}, f k t = some (k', t') → ThreadMove d c.task i k t k' t') →
      s.moveThread i f = some s' → Move d c s s' := by
    intro i f hf h
    unfold KState.moveThread at h
    split at h
    · cases h
    · rename_i t ht
      obtain ⟨m, hm, rfl⟩ := Option.map_eq_some_iff.mp h
      exact .thread ht (hf hm)
  unfold step at h
  split at h <;> rename_i hfault
  · cases h
  · refine ⟨by simpa using hfault, ?_⟩
    cases a with
    | caller => exact move_of_callerStep h
    | thread i e => exact hmove threadMove_of_threadStep h
    | interrupt i => exact hmove threadMove_of_threadInterrupt h
    | fault i => exact hmove threadMove_of_threadFault h
    | reap i => exact hmove threadMove_of_reapStep h

/-- Every move is a step. -/
lemma Move.exists_step (h : Move d c s s') (hfault : s.fault = false) :
    ∃ a, step d c s a = some s' := by
  have hcaller : callerStep d c s = some s' → ∃ a, step d c s a = some s' := fun h =>
    ⟨.caller, by simpa [step, hfault] using h⟩
  cases h with
  | @code caller t hpc hplain ht =>
    refine hcaller ?_
    cases caller with
    | create | stop => exact hplain.elim
    | _ => simp only [callerStep, hpc, d.body_eq, ht, Option.map_some]
  | create hpc hlt hrun | createError hpc hlt hrun =>
    exact hcaller (by simp only [callerStep, hpc, hlt, if_true, hrun])
  | createDone hpc hge | stopDone hpc hge =>
    exact hcaller (by simp only [callerStep, hpc, not_lt.mpr hge, if_false])
  | wake hpc ht hlive => exact hcaller (by simp [callerStep, hpc, KState.access, ht, hlive])
  | enter hpc hlt => exact hcaller (by simp only [callerStep, hpc, hlt, if_true])
  | stop hpc ht hlive hm =>
    exact hcaller (by simp [callerStep, hpc, KState.access, ht, hlive, hm])
  | log hpc => exact hcaller (by simp only [callerStep, hpc])
  | fault hpc ht hfreed =>
    refine hcaller ?_
    cases hpc' : s.caller with
    | code | stopped =>
      rw [hpc'] at hpc
      exact hpc.elim
    | waking | stopping =>
      rw [hpc'] at hpc
      obtain rfl := hpc
      simp [callerStep, hpc', KState.access, ht, hfreed]
  | @thread i t k' t' ht hmove =>
    rcases hmove.cases_step with ⟨e, h⟩ | h | h | h
    · exact ⟨.thread i e, by simp [step, hfault, KState.moveThread, ht, h]⟩
    · exact ⟨.interrupt i, by simp [step, hfault, KState.moveThread, ht, h]⟩
    · exact ⟨.fault i, by simp [step, hfault, KState.moveThread, ht, h]⟩
    · exact ⟨.reap i, by simp [step, hfault, KState.moveThread, ht, h]⟩

end Move

/-! ## One thread -/

namespace Phase

/-- `vfork_done` has been completed. -/
def completed : Phase → Bool
  | parked | woken | running | exiting => false
  | notifying | dead | queued | reaped => true

/-- The users of the thread that `put_task_struct_rcu_user` has not been called for. -/
def rcuUsers : Phase → ℕ
  | parked | woken | running | exiting | notifying => 2
  | dead => 1
  | queued | reaped => 0

/-- The references of the kernel itself. -/
def usage : Phase → ℕ
  | reaped => 0
  | _ => 1

/-- The program points of the function in a phase, where `result` has been stored. -/
def At (result : ℤ) (pc : WorkerPc) : Phase → Prop
  | parked | woken => pc = .created
  | running => pc ≠ .created ∧ ∀ r, pc ≠ .exited r
  | exiting => pc = .returning result
  | notifying | dead | queued | reaped => pc = .exited result

end Phase

/-- The invariant of a thread.  The calling thread may hold a reference to it, may still have to
wait for its completion, and may still have to wake it for the first time. -/
structure Thread.Ok (holds pending wakes : Bool) (t : Thread) : Prop where
  rcuUsers : t.task.rcuUsers = t.task.phase.rcuUsers
  usage : t.task.usage = t.task.phase.usage + holds.toNat
  freed : t.task.freed = (t.task.usage == 0)
  exited : pending = true → t.task.exited = t.task.phase.completed.toNat
  pc : t.task.phase.At t.task.result t.worker.pc
  runnable : t.task.phase = .parked → wakes = false → t.task.runnable = true
  notify : t.task.notifySignal = true → t.worker.shouldStop = true

section Thread

variable {d : Syscall} {task i : ℕ} {k k' : Kernel} {t t' : Thread} {holds pending wakes : Bool}

/-- A new thread has to be woken. -/
lemma Thread.Ok.new (pending : Bool) (params : ArgsPtr) (rangeStart : ℕ) :
    (Thread.new params rangeStart).Ok false pending true :=
  ⟨rfl, rfl, rfl, fun _ => rfl, rfl, fun _ h => (by cases h), fun h => (by cases h)⟩

/-- It does not matter for a thread that nobody waits for it any more. -/
lemma Thread.Ok.mono (h : t.Ok holds pending wakes) {pending' : Bool}
    (hp : pending' = true → pending = true) : t.Ok holds pending' wakes :=
  { h with exited := fun hp' => h.exited (hp hp') }

/-- A step of the function leads to a place inside of it. -/
lemma running_of_workerMove {lock : Mutex} {w w' : Worker}
    (h : WorkerMove lock task i k w k' w') (hpc : ∀ r, w.pc ≠ .returning r) :
    w'.pc ≠ .created ∧ ∀ r, w'.pc ≠ .exited r := by
  cases h with
  | regular a ha hmove =>
    cases hmove with
    | exit h => exact absurd h (hpc _)
    | _ => exact ⟨by simp, by simp⟩
  | stray e hmiss hstep =>
    have hcrit := (worker_of_strayStep hmiss hstep).2.2
    exact ⟨fun h => by rw [h] at hcrit; exact hcrit, fun r h => by rw [h] at hcrit; exact hcrit⟩
  | fault => exact ⟨by simp, by simp⟩

/-- Every move of a thread keeps its invariant. -/
lemma ThreadMove.ok (h : ThreadMove d task i k t k' t') (hok : t.Ok holds pending wakes) :
    t'.Ok holds pending wakes := by
  obtain ⟨hrcu, husage, hfreed, hexited, hpc, hrunnable, hnotify⟩ := hok
  cases h with
  | wakes hphase =>
    rw [hphase] at hrcu husage hexited hpc
    exact ⟨hrcu, husage, hfreed, hexited, hpc, fun h => (by cases h), hnotify⟩
  | begins hphase hw =>
    rw [hphase] at hrcu husage hexited hpc
    rw [d.worker_eq] at hw
    have hcreated : t.worker.pc = .created := hpc
    have hmove := workerMove_of_workerStep hw
    exact ⟨hrcu, husage, hfreed, hexited, running_of_workerMove hmove (by simp [hcreated]),
      fun h => (by cases h), hmove.shouldStop_eq ▸ hnotify⟩
  | runs hphase hreturn hw =>
    rw [d.worker_eq] at hw
    have hmove := workerMove_of_workerStep hw
    refine ⟨hrcu, husage, hfreed, hexited, ?_, hrunnable, hmove.shouldStop_eq ▸ hnotify⟩
    rw [hphase]
    exact running_of_workerMove hmove hreturn
  | interrupted hphase | faults hphase =>
    refine ⟨hrcu, husage, hfreed, hexited, ?_, hrunnable, hnotify⟩
    rw [hphase]
    exact ⟨by simp, by simp⟩
  | exits hphase hreturn =>
    rw [hphase] at hrcu husage hexited
    exact ⟨hrcu, husage, hfreed, hexited, hreturn, fun h => (by cases h), hnotify⟩
  | completes hphase =>
    rw [hphase] at hrcu husage hexited
    exact ⟨hrcu, husage, hfreed, fun hp => congrArg (· + 1) (hexited hp), rfl,
      fun h => (by cases h), hnotify⟩
  | releases hphase =>
    rcases hphase with hphase | hphase
    · rw [hphase] at hrcu husage hexited hpc
      have hnext : t.task.putTaskStructRcuUser = { t.task with rcuUsers := 1, phase := .dead } := by
        simp [Task.putTaskStructRcuUser, hrcu, Phase.rcuUsers]
      rw [hnext]
      exact ⟨rfl, husage, hfreed, hexited, hpc, fun h => (by cases h), hnotify⟩
    · rw [hphase] at hrcu husage hexited hpc
      have hnext : t.task.putTaskStructRcuUser =
          { t.task with rcuUsers := 0, phase := .queued } := by
        simp [Task.putTaskStructRcuUser, hrcu, Phase.rcuUsers]
      rw [hnext]
      exact ⟨rfl, husage, hfreed, hexited, hpc, fun h => (by cases h), hnotify⟩
  | reaps hphase =>
    rw [hphase] at hrcu husage hexited hpc
    refine ⟨hrcu, ?_, ?_, hexited, hpc, fun h => (by cases h), hnotify⟩
    · simp [Task.putTaskStruct, husage, Phase.usage]
    · cases holds <;> simp [Task.putTaskStruct, hfreed, husage, Phase.usage]

/-- A completed thread stays so, with its result. -/
lemma ThreadMove.completed (h : ThreadMove d task i k t k' t')
    (hdone : t.task.phase.completed = true) :
    t'.task.phase.completed = true ∧ t'.task.result = t.task.result := by
  cases h with
  | releases hphase =>
    refine ⟨?_, rfl⟩
    dsimp only [Task.putTaskStructRcuUser]
    split <;> rfl
  | reaps => exact ⟨rfl, rfl⟩
  | interrupted | runs | faults => exact ⟨hdone, rfl⟩
  | _ => simp_all [Phase.completed]

/-- No move of a thread changes the flags that `kthread_stop` sets. -/
lemma ThreadMove.flags (h : ThreadMove d task i k t k' t') :
    t'.worker.shouldStop = t.worker.shouldStop ∧ t'.task.notifySignal = t.task.notifySignal := by
  cases h with
  | begins _ hw | runs _ _ hw =>
    rw [d.worker_eq] at hw
    exact ⟨(workerMove_of_workerStep hw).shouldStop_eq, rfl⟩
  | _ => exact ⟨rfl, rfl⟩

end Thread

/-! ## The calling thread -/

namespace StopPc

/-- `kthread_stop` holds its reference. -/
def holds : StopPc → Bool
  | get => false
  | _ => true

/-- The completion has not been waited for yet. -/
def pending : StopPc → Bool
  | read | put _ => false
  | _ => true

/-- What `kthread_stop` has done to the thread, or seen of it. -/
def Done (t : Thread) : StopPc → Prop
  | get | setBit => True
  | unpark | notify => t.worker.shouldStop = true
  | wake | wait => t.task.notifySignal = true
  | read => t.task.phase.completed = true
  | put ret => t.task.phase.completed = true ∧ t.task.result = ret

end StopPc

namespace KCaller

/-- The calling thread holds a reference to thread `i`. -/
def holds (i : ℕ) : KCaller → Bool
  | stopping _ j pc => j == i && pc.holds
  | _ => false

/-- The calling thread has not yet waited for the completion of thread `i`. -/
def pending (i : ℕ) : KCaller → Bool
  | code (.entry _) | code (.segment _) | code (.create _ _ _ _) | waking _ _ _ _ => true
  | code (.stop _ j) => decide (j ≤ i)
  | stopping _ j pc => decide (j < i) || (j == i && pc.pending)
  | stopped _ j _ => decide (j < i)
  | code _ => false

/-- The calling thread has not yet woken thread `i`. -/
def wakes (i : ℕ) : KCaller → Bool
  | waking _ _ j _ => j == i
  | _ => false

/-- What the calling thread knows of its threads. -/
def Knows (c : Call) (threads : List Thread) : KCaller → Prop
  | code (.entry _) | code (.segment _) => threads.length = 0
  | code (.create _ _ i _) => threads.length = i
  | waking _ _ i _ => threads.length = i + 1 ∧ ∀ t, threads[i]? = some t →
      t.task.phase = .parked ∧ t.task.runnable = false
  | code (.stop _ _) => c.args.numThreads.toInt ≤ threads.length
  -- `kthread_stop` waits in its own code
  | code (.wait _ _) => False
  | stopping _ i pc => c.args.numThreads.toInt ≤ threads.length ∧
      (i : ℤ) < c.args.numThreads.toInt ∧ ∀ t, threads[i]? = some t → pc.Done t
  | stopped _ i ret => c.args.numThreads.toInt ≤ threads.length ∧
      (i : ℤ) < c.args.numThreads.toInt ∧ ∀ t, threads[i]? = some t → (StopPc.put ret).Done t
  | code _ => True

@[simp]
lemma holds_stopping (q : Prepared) (i : ℕ) (pc : StopPc) :
    (stopping q i pc).holds i = pc.holds := by
  simp [holds]

@[simp]
lemma pending_stopping (q : Prepared) (i : ℕ) (pc : StopPc) :
    (stopping q i pc).pending i = pc.pending := by
  simp [pending]

end KCaller

/-- The invariant of a system call with its threads. -/
structure Inv (c : Call) (s : KState) : Prop where
  threads : ∀ (i : ℕ) (t : Thread), s.threads[i]? = some t →
    t.Ok (s.caller.holds i) (s.caller.pending i) (s.caller.wakes i)
  caller : s.caller.Knows c s.threads
  /-- Only the first statement of `kthread_stop` can find a freed thread. -/
  fault : s.fault = true → ∃ q i t, s.caller = .stopping q i .get ∧ s.threads[i]? = some t ∧
    t.task.freed = true

section Inv

variable {d : Syscall} {c : Call} {s s' : KState}

/-- A statement of `kthread_stop` keeps the invariant of its thread. -/
lemma Thread.Ok.kthreadStop {pc : StopPc} {t : Thread} (hok : t.Ok pc.holds pc.pending false)
    (hdone : pc.Done t) (hlive : t.task.freed = false) {m : (StopPc ⊕ ℤ) × Thread}
    (h : Kthread.kthreadStop pc t = some m) :
    m.2.Ok (m.1.elim StopPc.holds fun _ => false) (m.1.elim StopPc.pending fun _ => false) false ∧
      (m.1.elim id StopPc.put).Done m.2 := by
  obtain ⟨hrcu, husage, hfreed, hexited, hpc, hrunnable, hnotify⟩ := hok
  cases pc with
  | get =>
    cases h
    exact ⟨⟨hrcu, congrArg (· + 1) husage, hlive, hexited, hpc, hrunnable, hnotify⟩, trivial⟩
  | setBit =>
    cases h
    exact ⟨⟨hrcu, husage, hfreed, hexited, hpc, hrunnable, fun _ => rfl⟩, rfl⟩
  | unpark =>
    cases h
    exact ⟨⟨hrcu, husage, hfreed, hexited, hpc, hrunnable, hnotify⟩, hdone⟩
  | notify =>
    cases h
    exact ⟨⟨hrcu, husage, hfreed, hexited, hpc, hrunnable, fun _ => hdone⟩, rfl⟩
  | wake =>
    cases h
    exact ⟨⟨hrcu, husage, hfreed, hexited, hpc, fun _ _ => rfl, hnotify⟩, hdone⟩
  | wait =>
    simp only [Kthread.kthreadStop] at h
    split at h <;> rename_i hzero <;> cases h
    refine ⟨⟨hrcu, husage, hfreed, fun h => (by cases h), hpc, hrunnable, hnotify⟩, ?_⟩
    -- the completion is set only by the thread itself
    rw [hexited rfl] at hzero
    change t.task.phase.completed = true
    cases hcompleted : t.task.phase.completed with
    | true => rfl
    | false => exact absurd (by rw [hcompleted]; rfl) hzero
  | read =>
    cases h
    exact ⟨⟨hrcu, husage, hfreed, hexited, hpc, hrunnable, hnotify⟩, hdone, rfl⟩
  | put ret =>
    cases h
    refine ⟨⟨hrcu, ?_, ?_, fun h => (by cases h), hpc, hrunnable, hnotify⟩, hdone⟩
    · simp [Task.putTaskStruct, husage, StopPc.holds]
    · simp [Task.putTaskStruct, hlive, husage, StopPc.holds]

/-- What `kthread_stop` has done or seen stays so while the thread moves. -/
lemma StopPc.Done.move {pc : StopPc} {task i : ℕ} {k k' : Kernel} {t t' : Thread} (h : pc.Done t)
    (hmove : ThreadMove d task i k t k' t') : pc.Done t' := by
  obtain ⟨hstop, hnotify⟩ := hmove.flags
  cases pc with
  | get | setBit => trivial
  | unpark | notify => exact hstop.trans h
  | wake | wait => exact hnotify.trans h
  | read => exact (hmove.completed h).1
  | put ret =>
    obtain ⟨hcompleted, hresult⟩ := hmove.completed h.1
    exact ⟨hcompleted, hresult.trans h.2⟩

namespace Inv

/-- The invariant holds at the entry of a system call. -/
lemma start (d : Syscall) (c : Call) (k : Kernel) : Inv c (.start d c k) :=
  ⟨fun i t ht => by simp [KState.start] at ht, rfl, fun h => by cases h⟩

/-- The calling thread goes on in the code of the system call. -/
lemma to_code (h : Inv c s) (hfault : s.fault = false) (hholds : ∀ i, s.caller.holds i = false)
    (hwakes : ∀ i, s.caller.wakes i = false) {caller : Caller}
    (hpending : ∀ i, (KCaller.code caller).pending i = true → s.caller.pending i = true)
    (hknows : (KCaller.code caller).Knows c s.threads) (k : Kernel) :
    Inv c { s with kernel := k, caller := .code caller } where
  threads := fun i t ht => by
    have hok := h.threads i t ht
    rw [hholds, hwakes] at hok
    exact hok.mono (hpending i)
  caller := hknows
  fault := fun hf => by
    rw [hfault] at hf
    cases hf

/-- One thread moves, by itself or because the calling thread has moved. -/
lemma set (h : Inv c s) (hfault : s.fault = false) {i : ℕ} {t' : Thread} {caller : KCaller}
    (hother : ∀ i', i' ≠ i → caller.holds i' = s.caller.holds i' ∧
      caller.pending i' = s.caller.pending i' ∧ caller.wakes i' = s.caller.wakes i')
    (hok : t'.Ok (caller.holds i) (caller.pending i) (caller.wakes i))
    (hknows : caller.Knows c (s.threads.set i t')) (k : Kernel) :
    Inv c { s with kernel := k, caller := caller, threads := s.threads.set i t' } where
  threads := fun i' t ht => by
    rcases getElem?_set_cases ht with ⟨rfl, rfl⟩ | ⟨hne, ht⟩
    · exact hok
    · obtain ⟨hholds, hpending, hwakes⟩ := hother i' hne
      rw [hholds, hpending, hwakes]
      exact h.threads i' t ht
  caller := hknows
  fault := fun hf => by
    rw [hfault] at hf
    cases hf

/-- What the calling thread knows stays so when a thread moves by itself. -/
lemma knows_of_threadMove (h : Inv c s) {task i : ℕ} {t t' : Thread} {k' : Kernel}
    (ht : s.threads[i]? = some t) (hmove : ThreadMove d task i s.kernel t k' t') :
    s.caller.Knows c (s.threads.set i t') := by
  have hknows := h.caller
  have hdone : ∀ {j : ℕ} {pc : StopPc}, (∀ u, s.threads[j]? = some u → pc.Done u) →
      ∀ u, (s.threads.set i t')[j]? = some u → pc.Done u := by
    intro j pc hpc u hu
    rcases getElem?_set_cases hu with ⟨rfl, rfl⟩ | ⟨-, hu⟩
    · exact (hpc t ht).move hmove
    · exact hpc u hu
  cases hcaller : s.caller with
  | code caller =>
    rw [hcaller] at hknows
    cases caller <;> simp_all [KCaller.Knows]
  | waking q seg j off =>
    rw [hcaller] at hknows
    refine ⟨by simpa using hknows.1, fun u hu => ?_⟩
    rcases getElem?_set_cases hu with ⟨rfl, rfl⟩ | ⟨-, hu⟩
    · -- the new thread cannot move before it is woken
      obtain ⟨hphase, hrunnable⟩ := hknows.2 t ht
      cases hmove <;> simp_all
    · exact hknows.2 u hu
  | stopping q j pc =>
    rw [hcaller] at hknows
    exact ⟨by simpa using hknows.1, hknows.2.1, hdone hknows.2.2⟩
  | stopped q j ret =>
    rw [hcaller] at hknows
    exact ⟨by simpa using hknows.1, hknows.2.1, hdone hknows.2.2⟩

/-- The code that does not touch threads does not go back to them. -/
lemma knows_of_plain {caller : Caller} (hplain : caller.Plain) {ws : List Worker} {t : State}
    (hstep : XorSyscalls.callerStep d c ⟨s.kernel, caller, ws⟩ = some t) (hws : ws = [])
    (hknows : (KCaller.code caller).Knows c s.threads) :
    (KCaller.code t.caller).Knows c s.threads ∧
      ∀ i, (KCaller.code t.caller).pending i = true → (KCaller.code caller).pending i = true := by
  cases XorSyscalls.move_of_callerStep hstep with
  | worker ha => cases ha
  | create hpc | createError hpc | createDone hpc | stop hpc | stopDone hpc =>
    simp_all [Caller.Plain]
  | wait hpc hw => simp_all
  | entryCall hpc | entryError hpc | entryDone hpc | divideError hpc | divide hpc | saveCall hpc
  | saveDone hpc | free hpc | finish hpc =>
    obtain rfl : caller = _ := hpc
    simp_all [KCaller.Knows, KCaller.pending]

/-- The calling thread goes from one place in the code of the system call to another. -/
lemma code (h : Inv c s) (hfault : s.fault = false) {caller caller' : Caller}
    (hpc : s.caller = .code caller)
    (hpending : ∀ i, (KCaller.code caller').pending i = true →
      (KCaller.code caller).pending i = true)
    (hknows : (KCaller.code caller').Knows c s.threads) (k : Kernel) :
    Inv c { s with kernel := k, caller := .code caller' } :=
  h.to_code hfault (fun i => by rw [hpc]; rfl) (fun i => by rw [hpc]; rfl)
    (fun i => hpc ▸ hpending i) hknows k

/-- A thread is created. -/
lemma create (h : Inv c s) (hfault : s.fault = false) {q : Prepared} {seg i off : ℕ}
    (hpc : s.caller = .code (.create q seg i off)) (k : Kernel) :
    Inv c { s with
      kernel := k
      threads := s.threads ++ [Thread.new (q.argsPtr i) off]
      caller := .waking q seg i off } := by
  have hcaller := h.caller
  rw [hpc] at hcaller
  obtain rfl : s.threads.length = i := hcaller
  refine ⟨forall_getElem?_concat (fun i t ht => ?_) ?_, ⟨by simp, fun t ht => ?_⟩, by simp [hfault]⟩
  · have hok := h.threads i t ht
    have hne : (s.threads.length == i) = false :=
      beq_eq_false_iff_ne.mpr (List.getElem?_eq_some_iff.mp ht).1.ne'
    rw [hpc] at hok
    simp only [KCaller.wakes, hne]
    exact hok
  · simpa [KCaller.holds, KCaller.pending, KCaller.wakes] using Thread.Ok.new true _ _
  · obtain rfl : Thread.new _ _ = t := by simpa using ht
    exact ⟨rfl, rfl⟩

/-- A new thread is woken. -/
lemma wake (h : Inv c s) (hfault : s.fault = false) {q : Prepared} {seg i off : ℕ} {t : Thread}
    (hpc : s.caller = .waking q seg i off) (ht : s.threads[i]? = some t) :
    Inv c { s with
      threads := s.threads.set i { t with task := t.task.wakeUpProcess }
      caller := .code (.create q seg (i + 1) (sizeAdd off seg)) } := by
  have hcaller := h.caller
  have hok := h.threads i t ht
  rw [hpc] at hcaller hok
  refine h.set hfault (fun i' hne => ?_) ?_ ?_ _
  · simp [hpc, KCaller.holds, KCaller.pending, KCaller.wakes, hne.symm]
  · exact { hok with runnable := fun _ _ => rfl }
  · simpa [KCaller.Knows] using hcaller.1

/-- `kthread_stop` is called. -/
lemma enter (h : Inv c s) (hfault : s.fault = false) {q : Prepared} {i : ℕ}
    (hpc : s.caller = .code (.stop q i)) (hlt : (i : ℤ) < c.args.numThreads.toInt) :
    Inv c { s with caller := .stopping q i .get } := by
  have hcaller := h.caller
  rw [hpc] at hcaller
  refine ⟨fun i' t ht => ?_, ⟨hcaller, hlt, fun _ _ => trivial⟩, by simp [hfault]⟩
  have hok := h.threads i' t ht
  rw [hpc] at hok
  have hholds : (KCaller.stopping q i .get).holds i' = false := by
    simp [KCaller.holds, StopPc.holds]
  have hpending : (KCaller.stopping q i .get).pending i' =
      (KCaller.code (.stop q i)).pending i' := by
    simp [KCaller.pending, StopPc.pending, Nat.le_iff_lt_or_eq, beq_eq_decide]
  rw [hholds, hpending]
  exact hok

/-- A statement of `kthread_stop`. -/
lemma stop (h : Inv c s) (hfault : s.fault = false) {q : Prepared} {i : ℕ} {pc : StopPc}
    {t : Thread} {m : (StopPc ⊕ ℤ) × Thread} (hpc : s.caller = .stopping q i pc)
    (ht : s.threads[i]? = some t) (hlive : t.task.freed = false) (hm : kthreadStop pc t = some m) :
    Inv c { s with
      threads := s.threads.set i m.2, caller := m.1.elim (.stopping q i) (.stopped q i) } := by
  have hcaller := h.caller
  have hok := h.threads i t ht
  rw [hpc] at hcaller
  rw [hpc, KCaller.holds_stopping, KCaller.pending_stopping] at hok
  obtain ⟨hok', hdone⟩ := hok.kthreadStop (hcaller.2.2 t ht) hlive hm
  have hself : ∀ u, (s.threads.set i m.2)[i]? = some u → u = m.2 := by
    intro u hu
    rcases getElem?_set_cases hu with ⟨-, rfl⟩ | ⟨hne, -⟩
    · rfl
    · exact absurd rfl hne
  obtain ⟨pc' | ret, t'⟩ := m <;> refine h.set hfault (fun i' hne => ?_) ?_ ?_ _
  · simp [hpc, KCaller.holds, KCaller.pending, KCaller.wakes, beq_eq_false_iff_ne.mpr hne.symm]
  · simpa [KCaller.holds, KCaller.pending, KCaller.wakes] using hok'
  · exact ⟨by simpa using hcaller.1, hcaller.2.1, fun u hu => hself u hu ▸ hdone⟩
  · simp [hpc, KCaller.holds, KCaller.pending, KCaller.wakes, beq_eq_false_iff_ne.mpr hne.symm]
  · simpa [KCaller.holds, KCaller.pending, KCaller.wakes] using hok'
  · exact ⟨by simpa using hcaller.1, hcaller.2.1, fun u hu => hself u hu ▸ hdone⟩

/-- The reference that `kthread_stop` has taken protects the thread. -/
lemma freed_eq_false (h : Inv c s) {q : Prepared} {i : ℕ} {pc : StopPc} {t : Thread}
    (hpc : s.caller = .stopping q i pc) (hget : pc ≠ .get) (ht : s.threads[i]? = some t) :
    t.task.freed = false := by
  have hok := h.threads i t ht
  have hholds : pc.holds = true := by
    cases pc with
    | get => exact absurd rfl hget
    | _ => rfl
  rw [hok.freed, hok.usage, hpc, KCaller.holds_stopping, hholds]
  simp

/-- A freed `task_struct` is used. -/
lemma used (h : Inv c s) {i : ℕ} {t : Thread} (hpc : s.caller.Accesses i)
    (ht : s.threads[i]? = some t) (hfreed : t.task.freed = true) :
    Inv c { s with fault := true } := by
  have hcaller := h.caller
  refine ⟨h.threads, h.caller, fun _ => ?_⟩
  cases hpc' : s.caller with
  | code | stopped =>
    rw [hpc'] at hpc
    exact hpc.elim
  | waking q seg j off =>
    -- the new thread is still parked
    rw [hpc'] at hpc hcaller
    obtain rfl : j = i := hpc
    have hok := h.threads j t ht
    rw [hok.freed, hok.usage, (hcaller.2 t ht).1] at hfreed
    simp [Phase.usage] at hfreed
  | stopping q j pc =>
    rw [hpc'] at hpc
    obtain rfl : j = i := hpc
    by_cases hget : pc = .get
    · subst hget
      exact ⟨q, j, t, rfl, ht, hfreed⟩
    · rw [h.freed_eq_false hpc' hget ht] at hfreed
      cases hfreed

/-- Every move keeps the invariant. -/
lemma move (h : Inv c s) (hmove : Move d c s s') (hfault : s.fault = false) : Inv c s' := by
  have hcaller := h.caller
  cases hmove with
  | @code caller t hpc hplain hs =>
    rw [hpc] at hcaller
    obtain ⟨hknows, hpending⟩ := knows_of_plain hplain hs rfl hcaller
    exact h.code hfault hpc hpending hknows _
  | create hpc => exact h.create hfault hpc _
  | createError hpc => exact h.code hfault hpc (fun i h => by cases h) (by trivial) _
  | createDone hpc hge =>
    rw [hpc] at hcaller
    refine h.code hfault hpc (fun i _ => rfl) ?_ _
    have hlen : s.threads.length = _ := hcaller
    change _ ≤ (s.threads.length : ℤ)
    omega
  | wake hpc ht => exact h.wake hfault hpc ht
  | enter hpc hlt => exact h.enter hfault hpc hlt
  | stopDone hpc => exact h.code hfault hpc (fun i h => by cases h) (by trivial) _
  | stop hpc ht hlive hm => exact h.stop hfault hpc ht hlive hm
  | log hpc =>
    rw [hpc] at hcaller
    refine h.to_code hfault (fun i => by rw [hpc]; rfl) (fun i => by rw [hpc]; rfl)
      (fun i => ?_) (by exact hcaller.1) _
    rw [hpc]
    simp only [KCaller.pending, decide_eq_true_eq]
    exact id
  | fault hpc ht hfreed => exact h.used hpc ht hfreed
  | thread ht hmove =>
    exact h.set hfault (fun _ _ => ⟨rfl, rfl, rfl⟩) (hmove.ok (h.threads _ _ ht))
      (h.knows_of_threadMove ht hmove) _

/-- The invariant holds after every run. -/
theorem of_run {k₀ : Kernel} {acts : List KAct} (hrun : Run d c k₀ acts s) : Inv c s :=
  run_invariant (I := Inv c) (.start d c k₀)
    (fun _ _ _ h hstep => h.move (move_of_step hstep).2 (move_of_step hstep).1) hrun

end Inv

end Inv

end Kthread

end XorSyscalls
