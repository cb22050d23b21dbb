import XorSyscalls.Linux.MutexProgress
import XorSyscalls.Concurrent.Progress

/-!
# The calls with the mutex of the Linux kernel

`Calls.step` takes and releases a mutex in one step.  Here the workers run the code of
`mutex_lock_interruptible` and `mutex_unlock` instead, one access to shared data at a time.  The
pending signal of a worker is its stop flag.

The program point of a worker and its program point in the code of the mutex fit together
(`Fits`), and every thread that is not a worker is outside of the code.
-/

namespace XorSyscalls.Linux

open TransitionSystem

/-- The calls with their mutexes.  The record of the holders in the kernel state is not used. -/
structure LinuxSystem where
  system : System
  mutexes : Mutex → MutexState (ℕ × ℕ)

/-- The actions a scheduler can choose for a call. -/
inductive LinuxAct
  /-- The calling thread takes a step. -/
  | caller
  /-- Worker `i` takes a step. -/
  | worker (i : ℕ) (choice : Choice) (x : Chance := .usual)
  /-- Worker `i` is killed by a fault. -/
  | fault (i : ℕ)
  deriving DecidableEq

/-- One step of worker `i` of a task, for the mutex `lock` in the state `M`. -/
def workerStep (lock : Mutex) (task i : ℕ) (choice : Choice) (x : Chance) (k : Kernel)
    (M : MutexState (ℕ × ℕ)) (w : Worker) :
    Option (Kernel × MutexState (ℕ × ℕ) × Worker) :=
  match w.pc, M.pc (task, i) with
  -- `mutex_lock_interruptible` has returned
  | .locking, .holding => some (k, M, { w with pc := .entered })
  | .locking, .interrupted =>
    some (k, M.goto (task, i) .idle, { w with pc := .returning Errno.eintr.ret })
  -- `mutex_unlock` has returned
  | .unlocking r, .idle => some (k, M, { w with pc := .returning r })
  | .locking, _ | .unlocking _, _ =>
    (M.step (task, i) w.shouldStop choice).map fun M' => (k, M', w)
  | _, _ => (XorSyscalls.workerStep lock task i x k w).map fun m => (m.1, M, m.2)

/-- Worker `i` is killed by a fault. -/
def faultStep (k : Kernel) (M : MutexState (ℕ × ℕ)) (w : Worker) :
    Option (Kernel × MutexState (ℕ × ℕ) × Worker) :=
  (k.faultStep w).map fun m => (m.1, M, m.2)

namespace LinuxSystem

/-- All calls at their entry, both mutexes free. -/
def start (cs : Calls) (k : Kernel) : LinuxSystem := ⟨.start cs k, fun _ => .init⟩

/-- The state after call `j` has got to the state `s` and the mutex `m` to the state `M`. -/
def put (L : LinuxSystem) (j : ℕ) (s : State) (m : Mutex) (M : MutexState (ℕ × ℕ)) : LinuxSystem :=
  ⟨L.system.put j s, Function.update L.mutexes m M⟩

/-- Let worker `i` of call `j`, which is in the state `p`, move by `f`. -/
def moveWorker (L : LinuxSystem) (j : ℕ) (p : Process) (i : ℕ) (m : Mutex)
    (f : Kernel → MutexState (ℕ × ℕ) → Worker → Option (Kernel × MutexState (ℕ × ℕ) × Worker)) :
    Option LinuxSystem :=
  match p.workers[i]? with
  | none => none
  | some w => (f L.system.kernel (L.mutexes m) w).map fun r =>
    L.put j ⟨r.1, p.caller, p.workers.set i r.2.2⟩ m r.2.1

end LinuxSystem

/-- One action of one of the calls. -/
def step (cs : Calls) (L : LinuxSystem) (a : ℕ × LinuxAct) : Option LinuxSystem :=
  match cs.list[a.1]?, L.system.procs[a.1]? with
  | some (d, c), some p =>
    match a.2 with
    | .caller =>
      (d.step c (L.system.view p) .caller).map fun s => { L with system := L.system.put a.1 s }
    | .worker i choice x => L.moveWorker a.1 p i d.lock (workerStep d.lock c.task i choice x)
    | .fault i => L.moveWorker a.1 p i d.lock faultStep
  | _, _ => none

/-- The runs of the calls from their entries in the kernel state `k`. -/
def Run (cs : Calls) (k : Kernel) (acts : List (ℕ × LinuxAct)) (L : LinuxSystem) : Prop :=
  run (step cs) (.start cs k) acts = some L

/-! ## What one step can do -/

/-- The moves of worker `i` of a task, for the mutex `lock` in the state `M`. -/
inductive WorkerMove (lock : Mutex) (task i : ℕ) (k : Kernel) (M : MutexState (ℕ × ℕ))
    (w : Worker) : Kernel → MutexState (ℕ × ℕ) → Worker → Prop
  /-- `mutex_lock_interruptible` returns `0`. -/
  | acquired (hpc : w.pc = .locking) (hmutex : M.pc (task, i) = .holding) :
    WorkerMove lock task i k M w k M { w with pc := .entered }
  /-- `mutex_lock_interruptible` returns `-EINTR`. -/
  | interrupted (hpc : w.pc = .locking) (hmutex : M.pc (task, i) = .interrupted) :
    WorkerMove lock task i k M w k (M.goto (task, i) .idle)
      { w with pc := .returning Errno.eintr.ret }
  /-- `mutex_unlock` returns. -/
  | released {r} (hpc : w.pc = .unlocking r) (hmutex : M.pc (task, i) = .idle) :
    WorkerMove lock task i k M w k M { w with pc := .returning r }
  /-- A step in `mutex_lock_interruptible`. -/
  | lock {M' choice} (hpc : w.pc = .locking) (hne : M.pc (task, i) ≠ .holding)
      (hne' : M.pc (task, i) ≠ .interrupted)
      (hstep : M.step (task, i) w.shouldStop choice = some M') : WorkerMove lock task i k M w k M' w
  /-- A step in `mutex_unlock`. -/
  | unlock {M' choice r} (hpc : w.pc = .unlocking r) (hne : M.pc (task, i) ≠ .idle)
      (hstep : M.step (task, i) w.shouldStop choice = some M') : WorkerMove lock task i k M w k M' w
  /-- A step outside of the code of the mutex. -/
  | other {k' w'} (hpc : w.pc ≠ .locking) (hpc' : ∀ r, w.pc ≠ .unlocking r)
      (hmove : XorSyscalls.WorkerMove lock task i k w k' w') : WorkerMove lock task i k M w k' M w'

/-- Every step of a worker is one of its moves. -/
lemma workerMove_of_workerStep {lock : Mutex} {task i : ℕ} {choice : Choice} {x : Chance}
    {k k' : Kernel} {M M' : MutexState (ℕ × ℕ)} {w w' : Worker}
    (h : workerStep lock task i choice x k M w = some (k', M', w')) :
    WorkerMove lock task i k M w k' M' w' := by
  unfold workerStep at h
  split at h
  · rename_i hpc hmutex
    cases h
    exact .acquired hpc hmutex
  · rename_i hpc hmutex
    cases h
    exact .interrupted hpc hmutex
  · rename_i hpc hmutex
    cases h
    exact .released hpc hmutex
  · rename_i hpc hne hne'
    obtain ⟨M₁, hstep, heq⟩ := Option.map_eq_some_iff.mp h
    cases heq
    exact .lock hpc hne hne' hstep
  · rename_i r hpc hne
    obtain ⟨M₁, hstep, heq⟩ := Option.map_eq_some_iff.mp h
    cases heq
    exact .unlock hpc hne hstep
  · rename_i hpc hpc' _ _ _
    obtain ⟨m, hstep, heq⟩ := Option.map_eq_some_iff.mp h
    cases heq
    exact .other hpc hpc' (XorSyscalls.workerMove_of_workerStep hstep)

/-- A fault is a move outside of the code of the mutex. -/
lemma workerMove_of_faultStep {lock : Mutex} {task i : ℕ} {k k' : Kernel}
    {M M' : MutexState (ℕ × ℕ)} {w w' : Worker} (h : faultStep k M w = some (k', M', w')) :
    WorkerMove lock task i k M w k' M' w' := by
  obtain ⟨m, hfault, heq⟩ := Option.map_eq_some_iff.mp h
  cases heq
  unfold Kernel.faultStep at hfault
  split at hfault <;> rename_i hmiss <;> cases hfault
  have hacc := hmiss.accesses
  refine .other (fun hpc => ?_) (fun r hpc => ?_) (.fault hmiss) <;>
  · rw [hpc] at hacc
    exact hacc

/-- A worker that moves in the system. -/
lemma LinuxSystem.exists_of_moveWorker {L L' : LinuxSystem} {j i : ℕ} {p : Process} {m : Mutex}
    {f : Kernel → MutexState (ℕ × ℕ) → Worker → Option (Kernel × MutexState (ℕ × ℕ) × Worker)}
    (h : L.moveWorker j p i m f = some L') :
    ∃ w k' M' w', p.workers[i]? = some w ∧
      f L.system.kernel (L.mutexes m) w = some (k', M', w') ∧
      L' = L.put j ⟨k', p.caller, p.workers.set i w'⟩ m M' := by
  unfold moveWorker at h
  split at h
  · cases h
  · rename_i w hw
    obtain ⟨⟨k', M', w'⟩, hstep, rfl⟩ := Option.map_eq_some_iff.mp h
    exact ⟨w, k', M', w', hw, hstep, rfl⟩

/-- A step of the system is a step of a calling thread or a move of a worker. -/
lemma step_cases {cs : Calls} {L L' : LinuxSystem} {j : ℕ} {a : LinuxAct}
    (h : step cs L (j, a) = some L') :
    ∃ d c p, cs.list[j]? = some (d, c) ∧ L.system.procs[j]? = some p ∧
      ((∃ s, d.step c (L.system.view p) .caller = some s ∧
          L' = { L with system := L.system.put j s }) ∨
        ∃ i w k' M' w', p.workers[i]? = some w ∧
          WorkerMove d.lock c.task i L.system.kernel (L.mutexes d.lock) w k' M' w' ∧
          L' = L.put j ⟨k', p.caller, p.workers.set i w'⟩ d.lock M') := by
  unfold step at h
  split at h
  · rename_i d c p hcall hproc
    refine ⟨d, c, p, hcall, hproc, ?_⟩
    cases a with
    | caller =>
      obtain ⟨s, hs, rfl⟩ := Option.map_eq_some_iff.mp h
      exact .inl ⟨s, hs, rfl⟩
    | worker i choice x =>
      obtain ⟨w, k', M', w', hw, hstep, rfl⟩ := LinuxSystem.exists_of_moveWorker h
      exact .inr ⟨i, w, k', M', w', hw, workerMove_of_workerStep hstep, rfl⟩
    | fault i =>
      obtain ⟨w, k', M', w', hw, hstep, rfl⟩ := LinuxSystem.exists_of_moveWorker h
      exact .inr ⟨i, w, k', M', w', hw, workerMove_of_faultStep hstep, rfl⟩
  · cases h

/-! ## The two program points of a worker -/

/-- In `mutex_lock_interruptible`, or before or after it. -/
def Pc.InLock {T : Type} : Pc T → Prop
  | .unlockFast | .unlockSlow _ | .wakeLock _ | .wakeNext _ | .handoff _ _ _ | .wakeUnlock _
  | .wake _ | .wakeUp _ => False
  | _ => True

/-- In `mutex_unlock`, or before or after it. -/
def Pc.InUnlock {T : Type} : Pc T → Prop
  | .holding | .unlockFast | .unlockSlow _ | .wakeLock _ | .wakeNext _ | .handoff _ _ _
  | .wakeUnlock _ | .wake _ | .wakeUp _ | .idle => True
  | _ => False

/-- The program point of a worker and its program point in the code of the mutex. -/
def Fits {T : Type} : WorkerPc → Pc T → Prop
  | .created, q | .returning _, q | .exited _, q => q = .idle
  | .locking, q => q.InLock
  | .entered, q | .testing, q | .xoring, q | .oops, q => q = .holding
  | .unlocking _, q => q.InUnlock

/-- A worker that uses its arguments has the mutex. -/
lemma Fits.eq_holding {T : Type} {pc : WorkerPc} {q : Pc T} (h : Fits pc q) (hpc : pc.Accesses) :
    q = .holding := by
  cases pc <;> simp only [WorkerPc.Accesses] at hpc <;> exact h

/-- Between the lock and the unlock a worker has the mutex. -/
lemma fits_holding {T : Type} {pc : WorkerPc} (h : pc.Critical) :
    Fits pc (Pc.holding (T := T)) := by
  cases pc <;> simp only [WorkerPc.Critical] at h <;> simp [Fits, Pc.InUnlock]

section Step

variable {T : Type} [DecidableEq T] {M M' : MutexState T} {t : T} {signal : Bool}

/-- The code of `mutex_lock_interruptible` is left by its end only. -/
lemma MutexState.Move.inLock (h : M.Move t signal M') (hin : (M.pc t).InLock)
    (hne : M.pc t ≠ .holding) (hne' : M.pc t ≠ .interrupted) : (M'.pc t).InLock := by
  cases h with
  | jump hjump =>
    rw [pc_goto_self]
    generalize M.pc t = pc at *
    cases hjump with
    | @fail place => rcases place with _ | _ | _ | _ | (_ | _) <;> trivial
    | _ => simp_all [Pc.InLock]
  | lockWait hlocks =>
    rw [pc_goto_self]
    generalize M.pc t = pc at *
    cases hlocks <;> simp_all [Pc.InLock]
  | unlockWait hunlocks =>
    rw [pc_goto_self]
    generalize M.pc t = pc at *
    cases hunlocks <;> simp_all [Pc.InLock]
  | @take place =>
    rw [pc_goto_self]
    rcases place with _ | (_ | _) | _ | _ | _ <;> trivial
  | enqueue | dequeue =>
    rw [pc_goto_self]
    split <;> trivial
  | unlockFast hpc | release hpc | wakeNext hpc | handoff hpc | wake hpc | wakeUp hpc =>
    simp [hpc, Pc.InLock] at hin
  | _ =>
    rw [pc_goto_self]
    trivial

/-- The code of `mutex_unlock` is left by its end only. -/
lemma MutexState.Move.inUnlock (h : M.Move t signal M') (hin : (M.pc t).InUnlock)
    (hne : M.pc t ≠ .idle) : (M'.pc t).InUnlock := by
  cases h with
  | jump hjump =>
    rw [pc_goto_self]
    generalize M.pc t = pc at *
    cases hjump <;> simp_all [Pc.InUnlock]
  | lockWait hlocks =>
    rw [pc_goto_self]
    generalize M.pc t = pc at *
    cases hlocks <;> simp_all [Pc.InUnlock]
  | unlockWait hunlocks =>
    rw [pc_goto_self]
    generalize M.pc t = pc at *
    cases hunlocks <;> simp_all [Pc.InUnlock]
  | release =>
    rw [pc_goto_self]
    split <;> trivial
  | wakeNext =>
    rw [MutexState.wakeNext, pc_goto_self]
    split <;> trivial
  | unlockFast | handoff | wake | wakeUp =>
    rw [pc_goto_self]
    trivial
  | fastLock hpc | take hpc | ask hpc | giveUp hpc | enqueue hpc | setWaiters hpc | setState hpc
  | dequeue hpc | clearFlags hpc => simp [hpc, Pc.InUnlock] at hin

end Step

section WorkerMove

variable {lock : Mutex} {task i : ℕ} {k k' : Kernel} {M M' : MutexState (ℕ × ℕ)} {w w' : Worker}

/-- What a worker does to the mutex is a step in the code of the mutex. -/
lemma WorkerMove.mutex_cases (h : M.WakeInv) (hmove : WorkerMove lock task i k M w k' M' w') :
    M' = M ∨ M.Move (task, i) w.shouldStop M' := by
  cases hmove with
  | acquired | released | other => exact .inl rfl
  | interrupted hpc hmutex => exact .inr (.jump (hmutex ▸ .quit))
  | lock hpc hne hne' hstep => exact .inr (h.inv.move hstep)
  | unlock hpc hne hstep => exact .inr (h.inv.move hstep)

/-- The two program points of a worker fit together after a move. -/
lemma WorkerMove.fits (h : M.WakeInv) (hfits : Fits w.pc (M.pc (task, i)))
    (hmove : WorkerMove lock task i k M w k' M' w') : Fits w'.pc (M'.pc (task, i)) := by
  cases hmove with
  | acquired hpc hmutex => exact hmutex
  | interrupted => exact MutexState.pc_goto_self ..
  | released hpc hmutex => exact hmutex
  | lock hpc hne hne' hstep =>
    rw [hpc] at hfits ⊢
    exact (h.inv.move hstep).inLock hfits hne hne'
  | unlock hpc hne hstep =>
    rw [hpc] at hfits ⊢
    exact (h.inv.move hstep).inUnlock hfits hne
  | other hpc hpc' hmove =>
    cases hmove with
    | regular a ha hmove =>
      cases hmove with
      | start hpc | testStopped hpc | testDone hpc =>
        rw [hpc] at hfits
        change M.pc _ = _ at hfits
        simp [Fits, hfits, Pc.InLock, Pc.InUnlock]
      | startStopped hpc | enter hpc | test hpc | xor hpc | oops hpc | exit hpc =>
        rw [hpc] at hfits
        exact hfits
      | lock hlock | interrupt hlock => exact absurd hlock hpc
      | unlock hunlock => exact absurd hunlock (hpc' _)
    | stray e hmiss hstep =>
      rw [hfits.eq_holding hmiss.accesses]
      exact fits_holding (worker_of_strayStep hmiss hstep).2.2
    | fault hmiss => exact hfits.eq_holding hmiss.accesses

end WorkerMove

/-! ## The invariant of the system -/

/-- The thread `t` is the worker `w`, and its mutex is `m`. -/
def WorkerAt (cs : Calls) (S : System) (m : Mutex) (t : ℕ × ℕ) (w : Worker) : Prop :=
  ∃ (j : ℕ) (d : Syscall) (c : Call) (p : Process), cs.list[j]? = some (d, c) ∧ d.lock = m ∧
    c.task = t.1 ∧ S.procs[j]? = some p ∧ p.workers[t.2]? = some w

section WorkerAt

variable {cs : Calls} {S : System} {j : ℕ} {d : Syscall} {c : Call} {p : Process}

/-- The workers of one call. -/
lemma workerAt_self (hcall : cs.list[j]? = some (d, c)) (hproc : S.procs[j]? = some p) {m : Mutex}
    {i : ℕ} {w : Worker} :
    WorkerAt cs S m (c.task, i) w ↔ m = d.lock ∧ p.workers[i]? = some w := by
  constructor
  · rintro ⟨j', d', c', p', hcall', rfl, htask, hproc', hw⟩
    obtain rfl := Calls.eq_of_task_eq hcall' hcall htask
    cases hcall.symm.trans hcall'
    cases hproc.symm.trans hproc'
    exact ⟨rfl, hw⟩
  · rintro ⟨rfl, hw⟩
    exact ⟨j, d, c, p, hcall, rfl, rfl, hproc, hw⟩

/-- The workers after a step of call `j`. -/
lemma workerAt_put (hcall : cs.list[j]? = some (d, c)) (hproc : S.procs[j]? = some p) {s : State}
    {m : Mutex} {t : ℕ × ℕ} {w : Worker} :
    WorkerAt cs (S.put j s) m t w ↔
      (t.1 = c.task ∧ m = d.lock ∧ s.workers[t.2]? = some w) ∨
        (t.1 ≠ c.task ∧ WorkerAt cs S m t w) := by
  have hlt := (List.getElem?_eq_some_iff.mp hproc).1
  have hself : (S.put j s).procs[j]? = some ⟨s.caller, s.workers⟩ := List.getElem?_set_self hlt
  obtain ⟨task, i⟩ := t
  rcases eq_or_ne task c.task with rfl | hne
  · simp [workerAt_self hcall hself]
  · simp only [hne, false_and, false_or, ne_eq, not_false_eq_true, true_and]
    constructor <;> rintro ⟨j', d', c', p', hcall', rfl, htask, hproc', hw⟩
    all_goals
      have hj : j ≠ j' := by
        rintro rfl
        cases hcall.symm.trans hcall'
        exact hne htask.symm
      refine ⟨j', d', c', p', hcall', rfl, htask, ?_, hw⟩
      simpa only [System.put, List.getElem?_set_ne hj] using hproc'

end WorkerAt

/-- What a step of the calling thread does to the workers. -/
lemma workers_of_callerStep {d : Syscall} {c : Call} {s s' : State}
    (h : d.step c s .caller = some s') :
    s'.workers = s.workers ∨ (∃ p n, s'.workers = s.workers ++ [Worker.new p n]) ∨
      ∃ i, s'.workers = s.workers.modify i Worker.stop := by
  cases Syscall.move_of_step h with
  | create => exact .inr (.inl ⟨_, _, rfl⟩)
  | stop => exact .inr (.inr ⟨_, rfl⟩)
  | worker ha => cases ha
  | _ => exact .inl rfl

/-- The invariant of the calls with their mutexes. -/
structure LinuxSystem.Inv (cs : Calls) (L : LinuxSystem) : Prop where
  /-- Every call has a private state. -/
  length : L.system.procs.length = cs.list.length
  /-- The invariants of the mutexes. -/
  mutex : ∀ m, (L.mutexes m).WakeInv
  /-- The two program points of each worker fit together. -/
  fits : ∀ m t w, WorkerAt cs L.system m t w → Fits w.pc ((L.mutexes m).pc t)
  /-- Only workers use the mutexes. -/
  outside : ∀ m t, (L.mutexes m).pc t ≠ .idle → ∃ w, WorkerAt cs L.system m t w

namespace LinuxSystem.Inv

variable {cs : Calls} {L : LinuxSystem} {j : ℕ} {d : Syscall} {c : Call} {p : Process}

/-- At the start there are no workers. -/
lemma start (cs : Calls) (k : Kernel) : (start cs k).Inv cs where
  length := by simp [LinuxSystem.start, System.start]
  mutex := fun _ => .init
  fits := by
    rintro m t w ⟨j, d, c, p, hcall, -, -, hproc, hw⟩
    obtain rfl := Calls.eq_entry_of_start hcall hproc
    simp at hw
  outside := fun _ _ h => absurd rfl h

/-- A step of a calling thread keeps the invariant. -/
lemma caller (h : L.Inv cs) (hcall : cs.list[j]? = some (d, c))
    (hproc : L.system.procs[j]? = some p) {s : State}
    (hstep : d.step c (L.system.view p) .caller = some s) :
    Inv cs { L with system := L.system.put j s } where
  length := by simpa [System.put] using h.length
  mutex := h.mutex
  fits := by
    intro m t w hat
    rcases (workerAt_put hcall hproc).mp hat with ⟨htask, rfl, hw⟩ | ⟨-, hat⟩
    · obtain ⟨task, i⟩ := t
      obtain rfl : task = c.task := htask
      have hold : ∀ w, p.workers[i]? = some w → Fits w.pc ((L.mutexes d.lock).pc (c.task, i)) :=
        fun w hw => h.fits _ _ w ((workerAt_self hcall hproc).mpr ⟨rfl, hw⟩)
      rcases workers_of_callerStep hstep with heq | ⟨_, _, heq⟩ | ⟨i', heq⟩ <;> rw [heq] at hw
      · exact hold w hw
      · rcases getElem?_concat_cases hw with ⟨rfl, rfl⟩ | hw
        · -- nobody has used the mutex under this number
          by_contra hidle
          obtain ⟨v, hv⟩ := h.outside _ _ hidle
          have hlt := (List.getElem?_eq_some_iff.mp ((workerAt_self hcall hproc).mp hv).2).1
          exact absurd hlt (lt_irrefl _)
        · exact hold w hw
      · rw [List.getElem?_modify] at hw
        obtain ⟨v, hv, rfl⟩ := Option.map_eq_some_iff.mp hw
        have hfits := hold v hv
        split <;> exact hfits
    · exact h.fits m t w hat
  outside := by
    intro m t ht
    obtain ⟨w, hat⟩ := h.outside m t ht
    rcases eq_or_ne t.1 c.task with htask | hne
    · obtain ⟨task, i⟩ := t
      obtain rfl : task = c.task := htask
      obtain ⟨rfl, hw⟩ := (workerAt_self hcall hproc).mp hat
      have hlt := (List.getElem?_eq_some_iff.mp hw).1
      have hlt' : i < s.workers.length := by
        rcases workers_of_callerStep hstep with heq | ⟨_, _, heq⟩ | ⟨i', heq⟩ <;> rw [heq]
        · exact hlt
        · simp only [List.length_append, System.view_workers]
          omega
        · simpa using hlt
      exact ⟨s.workers[i], (workerAt_put hcall hproc).mpr
        (.inl ⟨rfl, rfl, List.getElem?_eq_getElem hlt'⟩)⟩
    · exact ⟨w, (workerAt_put hcall hproc).mpr (.inr ⟨hne, hat⟩)⟩

/-- A move of a worker keeps the invariant. -/
lemma worker (h : L.Inv cs) (hcall : cs.list[j]? = some (d, c))
    (hproc : L.system.procs[j]? = some p) {i : ℕ} {w w' : Worker} {k' : Kernel}
    {M' : MutexState (ℕ × ℕ)} (hw : p.workers[i]? = some w)
    (hmove : WorkerMove d.lock c.task i L.system.kernel (L.mutexes d.lock) w k' M' w') :
    (L.put j ⟨k', p.caller, p.workers.set i w'⟩ d.lock M').Inv cs := by
  have hself : (p.workers.set i w')[i]? = some w' :=
    List.getElem?_set_self (List.getElem?_eq_some_iff.mp hw).1
  have hpc : ∀ m u, u ≠ (c.task, i) →
      (Function.update L.mutexes d.lock M' m).pc u = (L.mutexes m).pc u := by
    intro m u hu
    rcases eq_or_ne m d.lock with rfl | hm
    · rw [Function.update_self]
      rcases hmove.mutex_cases (h.mutex _) with heq | hmove
      · rw [heq]
      · exact hmove.pc_of_ne hu
    · rw [Function.update_of_ne hm]
  refine ⟨by simpa [LinuxSystem.put, System.put] using h.length, fun m => ?_, fun m t v hat => ?_,
    fun m t ht => ?_⟩
  · change (Function.update L.mutexes d.lock M' m).WakeInv
    rcases eq_or_ne m d.lock with rfl | hm
    · rw [Function.update_self]
      rcases hmove.mutex_cases (h.mutex _) with heq | hmove
      · exact heq ▸ h.mutex _
      · exact (h.mutex _).of_move hmove
    · rw [Function.update_of_ne hm]
      exact h.mutex m
  · change Fits v.pc ((Function.update L.mutexes d.lock M' m).pc t)
    rcases eq_or_ne t (c.task, i) with rfl | hne
    · obtain ⟨rfl, hv⟩ := ((workerAt_put hcall hproc).mp hat).resolve_right (by simp) |>.2
      obtain rfl : w' = v := Option.some_inj.mp (hself.symm.trans hv)
      rw [Function.update_self]
      exact hmove.fits (h.mutex _) (h.fits _ _ w ((workerAt_self hcall hproc).mpr ⟨rfl, hw⟩))
    · rw [hpc m t hne]
      refine h.fits m t v ?_
      rcases (workerAt_put hcall hproc).mp hat with ⟨htask, rfl, hv⟩ | ⟨-, hat⟩
      · obtain ⟨task, i'⟩ := t
        obtain rfl : task = c.task := htask
        rw [List.getElem?_set_ne (by rintro rfl; exact hne rfl)] at hv
        exact (workerAt_self hcall hproc).mpr ⟨rfl, hv⟩
      · exact hat
  · change (Function.update L.mutexes d.lock M' m).pc t ≠ .idle at ht
    rcases eq_or_ne t (c.task, i) with rfl | hne
    · rcases eq_or_ne m d.lock with rfl | hm
      · exact ⟨w', (workerAt_put hcall hproc).mpr (.inl ⟨rfl, rfl, hself⟩)⟩
      · rw [Function.update_of_ne hm] at ht
        obtain ⟨v, hat⟩ := h.outside m _ ht
        exact absurd ((workerAt_self hcall hproc).mp hat).1 hm
    · rw [hpc m t hne] at ht
      obtain ⟨v, hat⟩ := h.outside m t ht
      refine ⟨v, (workerAt_put hcall hproc).mpr ?_⟩
      rcases eq_or_ne t.1 c.task with htask | htask
      · obtain ⟨task, i'⟩ := t
        obtain rfl : task = c.task := htask
        obtain ⟨rfl, hv⟩ := (workerAt_self hcall hproc).mp hat
        refine .inl ⟨rfl, rfl, ?_⟩
        rwa [List.getElem?_set_ne (by rintro rfl; exact hne rfl)]
      · exact .inr ⟨htask, hat⟩

/-- Every step keeps the invariant. -/
lemma step (h : L.Inv cs) {a : ℕ × LinuxAct} {L' : LinuxSystem}
    (hstep : Linux.step cs L a = some L') : L'.Inv cs := by
  obtain ⟨j, a⟩ := a
  obtain ⟨d, c, p, hcall, hproc, ⟨s, hs, rfl⟩ | ⟨i, w, k', M', w', hw, hmove, rfl⟩⟩ :=
    step_cases hstep
  · exact h.caller hcall hproc hs
  · exact h.worker hcall hproc hw hmove

end LinuxSystem.Inv

end XorSyscalls.Linux
