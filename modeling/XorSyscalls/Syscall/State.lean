import XorSyscalls.Kernel.Threads

/-!
# The state of a system call

The calling thread of a system call first runs sequential code, up to the division of the data
among the threads.  `Caller` lists its program points from there on: it creates the workers, stops
them one after the other with `kthread_stop`, writes the output file and frees its memory.  Its
local variables keep the names they have in `my_encrypt.c`; those of `my_decrypt.c` are stated in
`Syscall.Decrypt`.
-/

namespace XorSyscalls

/-- The local variables of the system call when it enters the creation loop. -/
structure Prepared where
  destFile : List UInt8
  fileData : Ptr
  dataLen : ℕ
  keyData : Ptr
  keyLen : ℕ
  workers : Ptr
  workerArgs : Ptr

/-- `sizeof(struct task_struct *)` -/
def taskPtrSize : ℕ := 8

/-- `sizeof(worker_args_t)` -/
def workerArgsSize : ℕ := 40

/-- Where the calling thread is in its code. -/
inductive Caller
  /-- In the code before the division. -/
  | entry (p : KProgram (Except ℤ Prepared))
  /-- At `segment_size = data_len / num_threads`. -/
  | segment (q : Prepared)
  /-- At the head of the creation loop. -/
  | create (q : Prepared) (segmentSize i offset : ℕ)
  /-- At the head of the stop loop. -/
  | stop (q : Prepared) (i : ℕ)
  /-- In `kthread_stop`, waiting for worker `i` to exit. -/
  | wait (q : Prepared) (i : ℕ)
  /-- In `save_data_to_file` or `save_data`. -/
  | save (q : Prepared) (p : KProgram ℤ)
  /-- Behind the label `cleanup`, with the pointers still to free. -/
  | cleanup (frees : List Ptr) (result : ℤ)
  /-- The system call has returned. -/
  | returned (result : ℤ)
  /-- The thread was killed by a division by zero. -/
  | oops

/-- The address of the arguments of worker `i`, `&worker_args[i]`. -/
def Prepared.argsPtr (q : Prepared) (i : ℕ) : ArgsPtr := ⟨q.workerArgs, i⟩

/-- The state of a system call, its workers and the kernel. -/
structure State where
  kernel : Kernel
  caller : Caller
  workers : List Worker

end XorSyscalls
