import XorSyscalls.Syscall.PrivateState
import XorSyscalls.Syscall.Schedules

/-!
# Kernel threads

`kthread_run` and `kthread_stop` as the kernel has them: a thread is created asleep and woken by its
creator, and `kthread_stop` sets a flag, wakes the thread and waits for a completion.  A thread that
has left its function goes through `do_exit`, which completes `vfork_done` and drops references to
the `task_struct`; when the last one is gone the `task_struct` is freed.

The system calls keep nothing but the pointer that `kthread_run` has returned, without a reference
of their own.  So `kthread_stop` may be given the pointer to a `task_struct` that has been freed.

* `kthread_exit`, `do_exit`, `release_task` and `finish_task_switch` are the phases of a thread.
* `wake_up_process` only matters for a thread that has not run yet; for a thread in
  `mutex_lock_interruptible` it is part of the interrupted wait.
* `KTHREAD_SHOULD_PARK` is never set, so that `kthread_parkme` and `kthread_unpark` do nothing.
* Access to a freed `task_struct` ends the run with a fault.
* A thread that is killed in its function stays there.
-/

namespace XorSyscalls

open TransitionSystem

namespace Kthread

/-! ## Threads -/

/-- Where a thread is in `kthread` and, behind its function, in `do_exit`. -/
inductive Phase
  /-- In `schedule` of `kthread`, until it is woken for the first time. -/
  | parked
  /-- Before the test of `KTHREAD_SHOULD_STOP`. -/
  | woken
  /-- In `threadfn`, up to the return of its result. -/
  | running
  /-- In `do_exit` called by `kthread_exit`, before `exit_mm` completes `vfork_done`. -/
  | exiting
  /-- In `do_exit`, before `release_task`. -/
  | notifying
  /-- Switched away from for the last time; `finish_task_switch` of the next task is due. -/
  | dead
  /-- `delayed_put_task_struct` is due. -/
  | queued
  /-- Nothing refers to the thread any more but who has called `get_task_struct`. -/
  | reaped
  deriving DecidableEq

/-- A `task_struct` with its `struct kthread`, except for the flag `KTHREAD_SHOULD_STOP`. -/
structure Task where
  phase : Phase
  /-- The state is `TASK_RUNNING`. -/
  runnable : Bool
  /-- `TIF_NOTIFY_SIGNAL` -/
  notifySignal : Bool
  /-- `kthread->result` -/
  result : ℤ
  /-- `kthread->exited.done` -/
  exited : ℕ
  rcuUsers : ℕ
  usage : ℕ
  freed : Bool
  deriving DecidableEq

namespace Task

/-- A task just created: `dup_task_struct` sets the reference counts. -/
def new : Task := ⟨.parked, false, false, 0, 0, 2, 1, false⟩

/-- `wake_up_process` -/
def wakeUpProcess (t : Task) : Task := { t with runnable := true }

/-- `get_task_struct` -/
def getTaskStruct (t : Task) : Task := { t with usage := t.usage + 1 }

/-- `put_task_struct`: the last reference frees the task. -/
def putTaskStruct (t : Task) : Task :=
  { t with usage := t.usage - 1, freed := t.freed || t.usage == 1 }

/-- `put_task_struct_rcu_user`: the last user queues `delayed_put_task_struct`. -/
def putTaskStructRcuUser (t : Task) : Task :=
  { t with rcuUsers := t.rcuUsers - 1, phase := if t.rcuUsers = 1 then .queued else .dead }

end Task

/-- A thread: the local state of its function, with the flag `KTHREAD_SHOULD_STOP`, and its task. -/
structure Thread where
  worker : Worker
  task : Task
  deriving DecidableEq

/-- A thread just created by `kthread_create`. -/
def Thread.new (params : ArgsPtr) (rangeStart : ℕ) : Thread := ⟨.new params rangeStart, .new⟩

/-- What happens to the function of a thread, which may meet memory that is not there.  Signals are
looked at by `threadInterrupt`. -/
def chance : Option Stray → Chance
  | none => .usual
  | some e => .stray e

/-- One step of thread `i` in `kthread`, its function and `do_exit`. -/
def threadStep (d : Syscall) (task i : ℕ) (e : Option Stray) (k : Kernel) (t : Thread) :
    Option (Kernel × Thread) :=
  match t.task.phase with
  | .parked =>
    if t.task.runnable then some (k, { t with task := { t.task with phase := .woken } }) else none
  | .woken =>
    -- `-EINTR` is returned without a call of `threadfn` if the flag is set
    (d.worker task i (chance e) k t.worker).map fun m =>
      (m.1, ⟨m.2, { t.task with phase := .running }⟩)
  | .running =>
    match t.worker.pc with
    | .returning r => some (k, { t with task := { t.task with result := r, phase := .exiting } })
    | _ => (d.worker task i (chance e) k t.worker).map fun m => (m.1, { t with worker := m.2 })
  | .exiting =>
    some (k, ⟨{ t.worker with pc := .exited t.task.result },
      { t.task with exited := t.task.exited + 1, phase := .notifying }⟩)
  | .notifying => some (k, { t with task := t.task.putTaskStructRcuUser })
  | .dead | .queued | .reaped => none

/-- `mutex_lock_interruptible` of a thread with `TIF_NOTIFY_SIGNAL` fails with `-EINTR`. -/
def threadInterrupt (k : Kernel) (t : Thread) : Option (Kernel × Thread) :=
  if t.task.phase = .running ∧ t.worker.pc = .locking ∧ t.task.notifySignal = true then
    some (k, { t with worker := { t.worker with pc := .returning Errno.eintr.ret } })
  else none

/-- A thread is killed by a fault in its function. -/
def threadFault (k : Kernel) (t : Thread) : Option (Kernel × Thread) :=
  if t.task.phase = .running then
    (k.faultStep t.worker).map fun m => (m.1, { t with worker := m.2 })
  else none

/-- What is done about a dead thread by others: `finish_task_switch` of the task that runs next, and
the RCU callback `delayed_put_task_struct`. -/
def reapStep (k : Kernel) (t : Thread) : Option (Kernel × Thread) :=
  match t.task.phase with
  | .dead => some (k, { t with task := t.task.putTaskStructRcuUser })
  | .queued => some (k, { t with task := { t.task.putTaskStruct with phase := .reaped } })
  | _ => none

/-! ## The calling thread -/

/-- The statements of `kthread_stop`. -/
inductive StopPc
  /-- `get_task_struct` -/
  | get
  /-- `set_bit` of `KTHREAD_SHOULD_STOP` -/
  | setBit
  /-- `kthread_unpark` -/
  | unpark
  /-- `set_tsk_thread_flag` of `TIF_NOTIFY_SIGNAL` -/
  | notify
  /-- `wake_up_process` -/
  | wake
  /-- `wait_for_completion` of `kthread->exited` -/
  | wait
  /-- `ret = kthread->result` -/
  | read
  /-- `put_task_struct` -/
  | put (ret : ℤ)
  deriving DecidableEq

/-- One statement of `kthread_stop` on thread `t`, with the next statement or the value returned. -/
def kthreadStop : StopPc → Thread → Option ((StopPc ⊕ ℤ) × Thread)
  | .get, t => some (.inl .setBit, { t with task := t.task.getTaskStruct })
  | .setBit, t => some (.inl .unpark, { t with worker := t.worker.stop })
  | .unpark, t => some (.inl .notify, t)
  | .notify, t => some (.inl .wake, { t with task := { t.task with notifySignal := true } })
  | .wake, t => some (.inl .wait, { t with task := t.task.wakeUpProcess })
  | .wait, t =>
    if t.task.exited = 0 then none
    else some (.inl .read, { t with task := { t.task with exited := t.task.exited - 1 } })
  | .read, t => some (.inl (.put t.task.result), t)
  | .put ret, t => some (.inr ret, { t with task := t.task.putTaskStruct })

/-- Where the calling thread is. -/
inductive KCaller
  /-- In the code of the system call. -/
  | code (caller : Caller)
  /-- In `kthread_run`, before the `wake_up_process` of thread `i`. -/
  | waking (q : Prepared) (segmentSize i offset : ℕ)
  /-- In `kthread_stop` of thread `i`. -/
  | stopping (q : Prepared) (i : ℕ) (pc : StopPc)
  /-- Behind `kthread_stop` of thread `i`, which has returned `workerResult`. -/
  | stopped (q : Prepared) (i : ℕ) (workerResult : ℤ)

/-- The state of a system call with its threads. -/
structure KState where
  kernel : Kernel
  caller : KCaller
  threads : List Thread
  /-- A freed `task_struct` has been used. -/
  fault : Bool

/-- The state at the entry of a system call. -/
def KState.start (d : Syscall) (c : Call) (k : Kernel) : KState :=
  ⟨k, .code (.entry (d.prepares c.args)), [], false⟩

/-- The calling thread changes thread `i` and goes on, unless the thread has been freed. -/
def KState.access (s : KState) (i : ℕ) (f : Thread → Option (KCaller × Thread)) : Option KState :=
  match s.threads[i]? with
  | none => none
  | some t =>
    if t.task.freed then some { s with fault := true }
    else (f t).map fun m => { s with caller := m.1, threads := s.threads.set i m.2 }

/-- One step of the calling thread. -/
def callerStep (d : Syscall) (c : Call) (s : KState) : Option KState :=
  let n := c.args.numThreads.toInt
  match s.caller with
  | .code (.create q segmentSize i offset) =>
    if (i : ℤ) < n then
      let k := s.kernel.storeArgs (q.argsPtr i) (q.argsFor n segmentSize i offset)
      match c.env.threadError i with
      | some e =>
        some { s with
          kernel := k.printk ⟨.kernErr, d.createFailed, [.int i]⟩
          caller := .code (.cleanup q.frees e.ret) }
      | none =>
        some { s with
          kernel := k
          threads := s.threads ++ [Thread.new (q.argsPtr i) offset]
          caller := .waking q segmentSize i offset }
    else some { s with caller := .code (.stop q 0) }
  | .waking q segmentSize i offset =>
    s.access i fun t =>
      some (.code (.create q segmentSize (i + 1) (sizeAdd offset segmentSize)),
        { t with task := t.task.wakeUpProcess })
  | .code (.stop q i) =>
    if (i : ℤ) < n then some { s with caller := .stopping q i .get }
    else some { s with caller := .code (.save q (d.save q.destFile q.fileData q.dataLen)) }
  | .stopping q i pc =>
    s.access i fun t =>
      (kthreadStop pc t).map fun m => (m.1.elim (.stopping q i) (.stopped q i), m.2)
  | .stopped q i workerResult =>
    some { s with
      kernel := s.kernel.printk (d.stopMessage i workerResult)
      caller := .code (.stop q (i + 1)) }
  | .code caller =>
    (d.body c ⟨s.kernel, caller, []⟩).map fun s' =>
      { s with kernel := s'.kernel, caller := .code s'.caller }

/-! ## Schedules -/

/-- The actions a scheduler can choose. -/
inductive KAct
  /-- The calling thread takes a step. -/
  | caller
  /-- Thread `i` takes a step; `e` is what it meets in place of memory that is not there. -/
  | thread (i : ℕ) (e : Option Stray := none)
  /-- The wait of thread `i` for the mutex is interrupted. -/
  | interrupt (i : ℕ)
  /-- Thread `i` is killed by a fault. -/
  | fault (i : ℕ)
  /-- A reference to the dead thread `i` is dropped. -/
  | reap (i : ℕ)
  deriving DecidableEq

/-- Let thread `i` move by `f`. -/
def KState.moveThread (s : KState) (i : ℕ) (f : Kernel → Thread → Option (Kernel × Thread)) :
    Option KState :=
  match s.threads[i]? with
  | none => none
  | some t => (f s.kernel t).map fun m => { s with kernel := m.1, threads := s.threads.set i m.2 }

/-- One step of a system call with its threads; there is none after a fault. -/
def step (d : Syscall) (c : Call) (s : KState) (a : KAct) : Option KState :=
  if s.fault then none
  else
    match a with
    | .caller => callerStep d c s
    | .thread i e => s.moveThread i (threadStep d c.task i e)
    | .interrupt i => s.moveThread i threadInterrupt
    | .fault i => s.moveThread i threadFault
    | .reap i => s.moveThread i reapStep

/-- The runs of a system call from its entry in the kernel state `k`. -/
def Run (d : Syscall) (c : Call) (k : Kernel) (acts : List KAct) (s : KState) : Prop :=
  run (step d c) (.start d c k) acts = some s

end Kthread

end XorSyscalls
