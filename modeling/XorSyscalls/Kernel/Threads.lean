import XorSyscalls.Kernel.Calls

/-!
# What the workers ask of the kernel

The functions of the workers lock and unlock a mutex, read the arguments that the system call has
left for them in its array, and XOR bytes of its buffers.  Nothing keeps that memory from being
freed meanwhile.  A thread that reads arguments which are gone finds anything in their place, and
a write through a pointer that leads nowhere hits what the memory now belongs to: `Stray` says
what it finds and what it hits, and the access may as well fault (`Kernel.Missing`).

* `mutex_lock_interruptible` blocks while the mutex is held.  The wait is interrupted by
  `kthread_stop`, which also sets the signal flag of the worker; workers get no other signals.
* Dividing by zero, or a fault, kills the thread (`oops`).
-/

namespace XorSyscalls

/-! ## Threads -/

/-- Where a worker is in its code. -/
inductive WorkerPc
  /-- Created, but not yet running. -/
  | created
  /-- At `mutex_lock_interruptible`. -/
  | locking
  /-- Behind the successful lock, before the start of the range is read. -/
  | entered
  /-- At the head of the loop: the bound on `idx` and `kthread_should_stop` are tested next. -/
  | testing
  /-- Before the XOR of the byte at `idx`. -/
  | xoring
  /-- Before `mutex_unlock`, with the result to return. -/
  | unlocking (result : ℤ)
  /-- Before the end of the thread. -/
  | returning (result : ℤ)
  /-- The thread has ended. -/
  | exited (result : ℤ)
  /-- The thread was killed by a division by zero or a fault. -/
  | oops
  deriving DecidableEq

/-- A worker thread, with its parameter and its local variable `idx`, which is not read before the
loop sets it. -/
structure Worker where
  params : ArgsPtr
  idx : ℕ
  shouldStop : Bool
  pc : WorkerPc
  deriving DecidableEq

/-- A worker just created by `kthread_run`; `idx` starts as the beginning of its range. -/
def Worker.new (params : ArgsPtr) (rangeStart : ℕ) : Worker := ⟨params, rangeStart, false, .created⟩

/-- The worker after the first half of `kthread_stop`. -/
def Worker.stop (w : Worker) : Worker := { w with shouldStop := true }

/-! ## Memory that is not there -/

/-- What a stray write hits: a byte or the worker arguments in a block of another call. -/
inductive Hit
  /-- Nothing that matters here. -/
  | nothing
  | byte (b : Block) (idx : ℕ) (v : UInt8)
  | args (b : Block) (elem : ℕ) (a : WorkerArgs)
  deriving DecidableEq

/-- What a thread meets in memory that is not its own any more: the numbers it finds in place of
its arguments, and what its write through a pointer found there hits. -/
structure Stray where
  rangeStart : ℕ
  rangeEnd : ℕ
  keyLength : ℕ
  hit : Hit
  deriving DecidableEq

/-- The arguments found; their pointers lead nowhere. -/
def Stray.found (e : Stray) : WorkerArgs := ⟨.null, .null, e.rangeStart, e.rangeEnd, e.keyLength⟩

/-- What happens to a thread in one step, as far as it depends on the rest of the system. -/
inductive Chance
  | usual
  /-- A wait for a mutex ends with a signal. -/
  | signal
  /-- An access meets memory that is not there. -/
  | stray (e : Stray)
  deriving DecidableEq

namespace Kernel

/-- The use of a block that is not allocated is recorded. -/
def noteUse (k : Kernel) (p : Ptr) : Kernel :=
  match p with
  | .block b => if b ∈ k.live then k else { k with misuses := .useAfterFree b :: k.misuses }
  | _ => k

/-- Recording a use does not change what is stored. -/
lemma loadArgs_noteUse (k : Kernel) (p : Ptr) (q : ArgsPtr) :
    (k.noteUse p).loadArgs q = k.loadArgs q := by
  cases p with
  | null | zeroSize => rfl
  | block b => by_cases hmem : b ∈ k.live <;> simp [noteUse, hmem, loadArgs]

/-- The effect of a stray write of a task; blocks of its own are gone. -/
def scribble (k : Kernel) (task : ℕ) : Hit → Kernel
  | .nothing => k
  | .byte b idx v => if b.task = task then k else k.setMem b ((k.mem b).set idx v)
  | .args b elem a =>
    if b.task = task ∨ k.args b elem = none then k else k.storeArgs ⟨.block b, elem⟩ a

/-- Reading worker arguments: those that are stored, or whatever is found in their place. -/
def findArgs (k : Kernel) (p : ArgsPtr) (x : Chance) : Option (WorkerArgs × Kernel) :=
  match k.loadArgs p, x with
  | some a, _ => some (a, k)
  | none, .stray e => some (e.found, k.noteUse p.array)
  | none, _ => none

/-- The assignment `dst[idx] ^= src[jdx]` of a task. -/
def xorByte (k : Kernel) (task : ℕ) (dst : Ptr) (idx : ℕ) (src : Ptr) (jdx : ℕ) (x : Chance) :
    Option Kernel :=
  match k.byteAt dst idx, k.byteAt src jdx, x with
  | some u, some v, _ => some (k.storeByte dst idx (u ^^^ v))
  | _, _, .stray e => some (((k.noteUse dst).noteUse src).scribble task e.hit)
  | _, _, _ => none

/-- `mutex_lock_interruptible` of a thread with or without a pending signal; `none` if it has to
wait. -/
def mutexLockInterruptible (k : Kernel) (m : Mutex) (self : ℕ × ℕ) (pending : Bool) :
    Chance → Option (ℤ × Kernel)
  | .signal => if pending then some (Errno.eintr.ret, k) else none
  | _ => if k.holder m = none then some (0, k.setHolder m (some self)) else none

/-- `mutex_unlock` -/
def mutexUnlock (k : Kernel) (m : Mutex) : Kernel := k.setHolder m none

/-- The worker is about to use memory that is not there. -/
def Missing (k : Kernel) (w : Worker) : Prop :=
  match w.pc, k.loadArgs w.params with
  | .entered, none | .testing, none | .xoring, none => True
  | .xoring, some a => a.keyLength ≠ 0 ∧
    (k.byteAt a.inputData w.idx = none ∨ k.byteAt a.cipherKey (w.idx % a.keyLength) = none)
  | _, _ => False

instance (k : Kernel) (w : Worker) : Decidable (k.Missing w) := by
  unfold Missing
  split <;> infer_instance

/-- A thread is killed by a fault. -/
def faultStep (k : Kernel) (w : Worker) : Option (Kernel × Worker) :=
  if k.Missing w then some (k, { w with pc := .oops }) else none

end Kernel

/-- The frame of a kernel thread around its function, `kthread` of `kernel/kthread.c`: a thread
whose stop flag is set before it first runs exits with `-EINTR` without entering the function. -/
def kthread (threadfn : Kernel → Worker → Option (Kernel × Worker)) (k : Kernel) (w : Worker) :
    Option (Kernel × Worker) :=
  match w.pc with
  | .created =>
    if w.shouldStop then some (k, { w with pc := .returning Errno.eintr.ret })
    else some (k, { w with pc := .locking })
  | .returning r => some (k, { w with pc := .exited r })
  | .exited _ => none
  | .oops => none
  | _ => threadfn k w

end XorSyscalls
