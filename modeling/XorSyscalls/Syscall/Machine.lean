import XorSyscalls.Syscall.Helpers
import XorSyscalls.Foundation.TransitionSystem

/-!
# One system call and its worker threads as a transition system

The calling thread of `xor_encrypt_syscall` or `xor_decrypt` and the workers it has created run
concurrently.  `step` performs one action of one thread, and a schedule is a list of actions.

`my_encrypt.c` and `my_decrypt.c` have the same code up to the mutex, the log messages and the
helpers: `workerStep`, `prepare` and `callerStep` are its common form, with a parameter
`d : Syscall` for what differs, and `Syscall.worker_eq`, `Syscall.prepares_eq` and
`Syscall.body_eq` say that the functions of both files are instances of it.  The results that do
not compare the two files are proved for the common form.

`kthread_stop` sets the stop flag of a worker and then waits until the worker has exited.
-/

namespace XorSyscalls

open TransitionSystem

namespace Syscall

/-- The mutex of the workers. -/
def lock : Syscall → Mutex
  | encrypt => .syncLock
  | decrypt => .decryptMutex

/-- The function of the workers. -/
def threadfn : Syscall → ℕ × ℕ → Chance → Kernel → Worker → Option (Kernel × Worker)
  | encrypt => xorEncryptWorker
  | decrypt => xorDecryptWorker

/-- The system call in front of the division. -/
def prepares : Syscall → Args → KProgram (Except ℤ Prepared)
  | encrypt => prepareEncrypt
  | decrypt => prepareDecrypt

/-- The calling thread. -/
def body : Syscall → Call → State → Option State
  | encrypt => xorEncryptSyscall
  | decrypt => xorDecrypt

/-- The message for a thread that cannot be created. -/
def createFailed : Syscall → String
  | encrypt => "ERROR: Fallo al crear el hilo %d\n"
  | decrypt => "ERROR: No se pudo iniciar el hilo %d\n"

/-- The message for a thread that ended with an error. -/
def threadFailed : Syscall → String
  | encrypt => "ERROR: El hilo %d finalizó con error %d\n"
  | decrypt => "ERROR: El hilo %d terminó con error %d\n"

/-- The message for a thread that ended well. -/
def threadDone : Syscall → String
  | encrypt => "Hilo %d finalizó correctamente\n"
  | decrypt => "Hilo %d finalizó correctamente\n"

end Syscall

/-! ## Workers -/

/-- One step of worker `i` of a task, for the mutex `lock`. -/
def workerStep (lock : Mutex) (task i : ℕ) (x : Chance) (k : Kernel) (w : Worker) :
    Option (Kernel × Worker) :=
  match w.pc with
  | .created =>
    if w.shouldStop then some (k, { w with pc := .returning Errno.eintr.ret })
    else some (k, { w with pc := .locking })
  | .locking => do
    let (result, k) ← k.mutexLockInterruptible lock (task, i) w.shouldStop x
    if result ≠ 0 then some (k, { w with pc := .returning Errno.eintr.ret })
    else some (k, { w with pc := .entered })
  | .entered => do
    let (args, k) ← k.findArgs w.params x
    some (k, { w with idx := args.rangeStart, pc := .testing })
  | .testing => do
    let (args, k) ← k.findArgs w.params x
    if w.idx < args.rangeEnd then
      if w.shouldStop then some (k, { w with pc := .unlocking Errno.eintr.ret })
      else some (k, { w with pc := .xoring })
    else some (k, { w with pc := .unlocking 0 })
  | .xoring => do
    let (args, k) ← k.findArgs w.params x
    if args.keyLength = 0 then some (k, { w with pc := .oops })
    else
      let k ← k.xorByte task args.inputData w.idx args.cipherKey (w.idx % args.keyLength) x
      some (k, { w with idx := sizeAdd w.idx 1, pc := .testing })
  | .unlocking r => some (k.mutexUnlock lock, { w with pc := .returning r })
  | .returning r => some (k, { w with pc := .exited r })
  | .exited _ => none
  | .oops => none

namespace Syscall

/-- One step of worker `i` of a task. -/
def worker (d : Syscall) (task i : ℕ) (x : Chance) : Kernel → Worker → Option (Kernel × Worker) :=
  kthread (d.threadfn (task, i) x)

/-- `xor_encrypt_worker` and `xor_decrypt_worker` are the same code for their own mutex. -/
lemma worker_eq (d : Syscall) : d.worker = workerStep d.lock := by
  funext task i x k ⟨params, idx, shouldStop, pc⟩
  cases pc <;> cases d <;> rfl

end Syscall

/-! ## The calling thread -/

/-- The code of a system call in front of the division `data_len / num_threads`. -/
def prepare (d : Syscall) (a : Args) : KProgram (Except ℤ Prepared) := do
  let some srcFile ← copyFromUser a.srcFile 256 | return .error Errno.efault.ret
  let some destFile ← copyFromUser a.destFile 256 | return .error Errno.efault.ret
  let some keyFile ← copyFromUser a.keyFilepath 256 | return .error Errno.efault.ret
  let some (fileData, dataLen) ← d.readInput srcFile | return .error Errno.eio.ret
  match ← d.readKeyFile keyFile with
  | none =>
    kfree fileData
    return .error Errno.eio.ret
  | some (keyData, keyLen) =>
    let workers ← kmallocArray .workers (toSizeT a.numThreads.toInt) taskPtrSize
    let workerArgs ← kmallocArray .workerArgs (toSizeT a.numThreads.toInt) workerArgsSize
    if workers = .null ∨ workerArgs = .null then
      kfree fileData
      kfree keyData
      return .error Errno.enomem.ret
    else
      return .ok { destFile, fileData, dataLen, keyData, keyLen, workers, workerArgs }

/-- Both system calls begin with this code. -/
lemma Syscall.prepares_eq (d : Syscall) : d.prepares = prepare d := by
  cases d <;> rfl

/-- The message logged when `kthread_stop` has returned the result of worker `i`. -/
def Syscall.stopMessage (d : Syscall) (i : ℕ) (r : ℤ) : LogEntry :=
  if r ≠ 0 ∧ r ≠ Errno.eintr.ret then ⟨.kernErr, d.threadFailed, [.int i, .int r]⟩
  else ⟨.kernInfo, d.threadDone, [.int i]⟩

/-- One step of the calling thread; `none` if it is blocked or has ended. -/
def callerStep (d : Syscall) (c : Call) (s : State) : Option State :=
  let n := c.args.numThreads.toInt
  match s.caller with
  | .entry (.call op next) =>
    some { s with
      kernel := (c.exec op s.kernel).2
      caller := .entry (next (c.exec op s.kernel).1) }
  | .entry (.ret (.error r)) => some { s with caller := .returned r }
  | .entry (.ret (.ok q)) => some { s with caller := .segment q }
  | .segment q =>
    if toSizeT n = 0 then some { s with caller := .oops }
    else some { s with caller := .create q (q.dataLen / toSizeT n) 0 0 }
  | .create q segmentSize i offset =>
    if (i : ℤ) < n then
      let k := s.kernel.storeArgs (q.argsPtr i) (q.argsFor n segmentSize i offset)
      match c.env.threadError i with
      | some e =>
        some { s with
          kernel := k.printk ⟨.kernErr, d.createFailed, [.int i]⟩
          caller := .cleanup q.frees e.ret }
      | none =>
        some { s with
          kernel := k
          workers := s.workers ++ [Worker.new (q.argsPtr i) offset]
          caller := .create q segmentSize (i + 1) (sizeAdd offset segmentSize) }
    else some { s with caller := .stop q 0 }
  | .stop q i =>
    if (i : ℤ) < n then
      some { s with workers := s.workers.modify i Worker.stop, caller := .wait q i }
    else some { s with caller := .save q (d.save q.destFile q.fileData q.dataLen) }
  | .wait q i =>
    match (s.workers[i]?).map Worker.pc with
    | some (.exited r) =>
      some { s with kernel := s.kernel.printk (d.stopMessage i r), caller := .stop q (i + 1) }
    | _ => none
  | .save q (.call op next) =>
    some { s with
      kernel := (c.exec op s.kernel).2
      caller := .save q (next (c.exec op s.kernel).1) }
  | .save q (.ret r) => some { s with caller := .cleanup q.frees r }
  | .cleanup (p :: ps) r => some { s with kernel := s.kernel.kfree p, caller := .cleanup ps r }
  | .cleanup [] r => some { s with caller := .returned r }
  | .returned _ => none
  | .oops => none

/-- `xor_encrypt_syscall` and `xor_decrypt` are this code with their own messages and writers. -/
lemma Syscall.body_eq (d : Syscall) : d.body = callerStep d := by
  cases d <;> rfl

/-- The state at the entry of a system call. -/
def State.start (d : Syscall) (c : Call) (k : Kernel) : State := ⟨k, .entry (d.prepares c.args), []⟩

/-- A system call begins with the common code. -/
lemma State.start_caller (d : Syscall) (c : Call) (k : Kernel) :
    (State.start d c k).caller = .entry (prepare d c.args) := by
  rw [State.start, d.prepares_eq]

/-! ## Schedules -/

/-- The actions a scheduler can choose. -/
inductive Act
  /-- The calling thread takes a step. -/
  | caller
  /-- Worker `i` takes a step. -/
  | worker (i : ℕ) (x : Chance := .usual)
  /-- Worker `i` is killed by a fault. -/
  | fault (i : ℕ)
  deriving DecidableEq

/-- The wait of worker `i` for the mutex is interrupted. -/
abbrev Act.interrupt (i : ℕ) : Act := .worker i .signal

/-- The worker that moves. -/
def Act.mover : Act → Option ℕ
  | .caller => none
  | .worker i _ => some i
  | .fault i => some i

/-- Let worker `i` move by `f`. -/
def State.moveWorker (s : State) (i : ℕ) (f : Kernel → Worker → Option (Kernel × Worker)) :
    Option State :=
  match s.workers[i]? with
  | none => none
  | some w => (f s.kernel w).map fun m => { s with kernel := m.1, workers := s.workers.set i m.2 }

/-- One step of a system call with its workers. -/
def Syscall.step (d : Syscall) (c : Call) (s : State) : Act → Option State
  | .caller => d.body c s
  | .worker i x => s.moveWorker i (d.worker c.task i x)
  | .fault i => s.moveWorker i Kernel.faultStep

/-- The runs of a system call from its entry in the kernel state `k`. -/
def Syscall.Run (d : Syscall) (c : Call) (k : Kernel) (acts : List Act) (s : State) : Prop :=
  run (d.step c) (State.start d c k) acts = some s

end XorSyscalls
