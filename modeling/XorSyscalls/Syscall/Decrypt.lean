import XorSyscalls.Syscall.State

/-!
# `my_decrypt.c`

The functions of `my_decrypt.c`, transcribed on their own and under their own names.  The arguments
of a worker, `decrypt_thread_args_t`, have the layout of `worker_args_t`, so in memory both are the
same five words.
-/

namespace XorSyscalls

/-- `decrypt_thread_args_t` -/
structure DecryptThreadArgs where
  buffer : Ptr
  key : Ptr
  startOffset : ℕ
  endOffset : ℕ
  keyLength : ℕ

/-- The five words that the arguments take in memory. -/
def DecryptThreadArgs.words (args : DecryptThreadArgs) : WorkerArgs :=
  ⟨args.buffer, args.key, args.startOffset, args.endOffset, args.keyLength⟩

/-- The arguments read from five words of memory. -/
def DecryptThreadArgs.ofWords (a : WorkerArgs) : DecryptThreadArgs :=
  ⟨a.inputData, a.cipherKey, a.rangeStart, a.rangeEnd, a.keyLength⟩

/-- `xor_decrypt_worker`; `self` is the thread that runs it, and its local variable `i` is kept as
`idx`. -/
def xorDecryptWorker (self : ℕ × ℕ) (x : Chance) (k : Kernel) (w : Worker) :
    Option (Kernel × Worker) :=
  match w.pc with
  | .locking => do
    let (lockStatus, k) ← k.mutexLockInterruptible .decryptMutex self w.shouldStop x
    if lockStatus ≠ 0 then some (k, { w with pc := .returning Errno.eintr.ret })
    else some (k, { w with pc := .entered })
  | .entered => do
    let (words, k) ← k.findArgs w.params x
    let args := DecryptThreadArgs.ofWords words
    some (k, { w with idx := args.startOffset, pc := .testing })
  | .testing => do
    let (words, k) ← k.findArgs w.params x
    let args := DecryptThreadArgs.ofWords words
    if w.idx < args.endOffset then
      if w.shouldStop then some (k, { w with pc := .unlocking Errno.eintr.ret })
      else some (k, { w with pc := .xoring })
    else some (k, { w with pc := .unlocking 0 })
  | .xoring => do
    let (words, k) ← k.findArgs w.params x
    let args := DecryptThreadArgs.ofWords words
    if args.keyLength = 0 then some (k, { w with pc := .oops })
    else
      let k ← k.xorByte self.1 args.buffer w.idx args.key (w.idx % args.keyLength) x
      some (k, { w with idx := sizeAdd w.idx 1, pc := .testing })
  | .unlocking r => some (k.mutexUnlock .decryptMutex, { w with pc := .returning r })
  | _ => none

/-- `load_key` -/
def loadKey (keyPath : List UInt8) : KProgram (Option (Ptr × ℕ)) := do
  match ← filpOpen .key keyPath .readOnly with
  | .error _ => return none
  | .ok keyFile =>
    let keySize ← iSizeRead keyFile
    if keySize ≤ 0 then
      filpClose keyFile
      return none
    else
      let keyBuffer ← kmalloc .key (keySize + 1)
      if keyBuffer = .null then
        filpClose keyFile
        return none
      else
        let _ ← kernelRead keyFile keyBuffer keySize
        storeByte keyBuffer keySize 0
        filpClose keyFile
        return some (keyBuffer, keySize)

/-- `load_data` -/
def loadData (inputPath : List UInt8) : KProgram (Option (Ptr × ℕ)) := do
  match ← filpOpen .data inputPath .readOnly with
  | .error _ => return none
  | .ok inputFile =>
    let dataSize ← iSizeRead inputFile
    if dataSize ≤ 0 then
      filpClose inputFile
      return none
    else
      let dataBuffer ← kmalloc .data dataSize
      if dataBuffer = .null then
        filpClose inputFile
        return none
      else
        let _ ← kernelRead inputFile dataBuffer dataSize
        filpClose inputFile
        return some (dataBuffer, dataSize)

/-- `save_data` -/
def saveData (outputPath : List UInt8) (data : Ptr) (dataSize : ℕ) : KProgram ℤ := do
  match ← filpOpen .out outputPath .writeCreate with
  | .error e => return e.ret
  | .ok outputFile =>
    let bytesWritten ← kernelWrite outputFile data dataSize
    if bytesWritten < 0 then
      filpClose outputFile
      return bytesWritten
    else
      filpClose outputFile
      return 0

/-- `sizeof(decrypt_thread_args_t)` -/
def decryptThreadArgsSize : ℕ := 40

/-- `xor_decrypt` in front of the division `data_size / num_threads`. -/
def prepareDecrypt (a : Args) : KProgram (Except ℤ Prepared) := do
  let some inputFilePath ← copyFromUser a.srcFile 256 | return .error Errno.efault.ret
  let some outputFilePath ← copyFromUser a.destFile 256 | return .error Errno.efault.ret
  let some keyFilePath ← copyFromUser a.keyFilepath 256 | return .error Errno.efault.ret
  let some (dataBuffer, dataSize) ← loadData inputFilePath | return .error Errno.eio.ret
  match ← loadKey keyFilePath with
  | none =>
    kfree dataBuffer
    return .error Errno.eio.ret
  | some (keyBuffer, keySize) =>
    let threadHandles ← kmallocArray .workers (toSizeT a.numThreads.toInt) taskPtrSize
    let threadArgs ← kmallocArray .workerArgs (toSizeT a.numThreads.toInt) decryptThreadArgsSize
    if threadHandles = .null ∨ threadArgs = .null then
      kfree dataBuffer
      kfree keyBuffer
      return .error Errno.enomem.ret
    else
      return .ok
        { destFile := outputFilePath, fileData := dataBuffer, dataLen := dataSize,
          keyData := keyBuffer, keyLen := keySize, workers := threadHandles,
          workerArgs := threadArgs }

/-- The arguments stored for thread `i` in the creation loop. -/
def Prepared.threadArgsFor (q : Prepared) (n : ℤ) (chunkSize i offset : ℕ) :
    DecryptThreadArgs where
  buffer := q.fileData
  key := q.keyData
  keyLength := q.keyLen
  startOffset := offset
  endOffset := if (i : ℤ) = n - 1 then q.dataLen else sizeAdd offset chunkSize

/-- The pointers freed behind the label `cleanup`, in order. -/
def Prepared.kfreed (q : Prepared) : List Ptr := [q.fileData, q.keyData, q.workers, q.workerArgs]

/-- One step of `xor_decrypt`; `none` if it is blocked or has ended. -/
def xorDecrypt (c : Call) (s : State) : Option State :=
  let n := c.args.numThreads.toInt
  match s.caller with
  | .entry (.call op next) =>
    some { s with
      kernel := (c.exec op s.kernel).2
      caller := .entry (next (c.exec op s.kernel).1) }
  | .entry (.ret (.error r)) => some { s with caller := .returned r }
  | .entry (.ret (.ok q)) => some { s with caller := .segment q }
  | .segment q =>
    if toSizeT n = 0 then some { s with caller := .oops }
    else
      let chunkSize := q.dataLen / toSizeT n
      some { s with caller := .create q chunkSize 0 0 }
  | .create q chunkSize i offset =>
    if (i : ℤ) < n then
      let k := s.kernel.storeArgs (q.argsPtr i) (q.threadArgsFor n chunkSize i offset).words
      match c.env.threadError i with
      | some e =>
        some { s with
          kernel := k.printk ⟨.kernErr, "ERROR: No se pudo iniciar el hilo %d\n", [.int i]⟩
          caller := .cleanup q.kfreed e.ret }
      | none =>
        some { s with
          kernel := k
          workers := s.workers ++ [Worker.new (q.argsPtr i) offset]
          caller := .create q chunkSize (i + 1) (sizeAdd offset chunkSize) }
    else some { s with caller := .stop q 0 }
  | .stop q i =>
    -- the test of `thread_handles[i]` always succeeds: `kthread_run` does not return `NULL`
    if (i : ℤ) < n then
      some { s with workers := s.workers.modify i Worker.stop, caller := .wait q i }
    else some { s with caller := .save q (saveData q.destFile q.fileData q.dataLen) }
  | .wait q i =>
    match (s.workers[i]?).map Worker.pc with
    | some (.exited threadStatus) =>
      let message : LogEntry :=
        if threadStatus ≠ 0 ∧ threadStatus ≠ Errno.eintr.ret then
          ⟨.kernErr, "ERROR: El hilo %d terminó con error %d\n", [.int i, .int threadStatus]⟩
        else ⟨.kernInfo, "Hilo %d finalizó correctamente\n", [.int i]⟩
      some { s with kernel := s.kernel.printk message, caller := .stop q (i + 1) }
    | _ => none
  | .save q (.call op next) =>
    some { s with
      kernel := (c.exec op s.kernel).2
      caller := .save q (next (c.exec op s.kernel).1) }
  | .save q (.ret r) => some { s with caller := .cleanup q.kfreed r }
  | .cleanup (p :: ps) r => some { s with kernel := s.kernel.kfree p, caller := .cleanup ps r }
  | .cleanup [] r => some { s with caller := .returned r }
  | .returned _ => none
  | .oops => none

end XorSyscalls
