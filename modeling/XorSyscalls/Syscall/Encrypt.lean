import XorSyscalls.Syscall.State

/-!
# `my_encrypt.c`

The functions of `my_encrypt.c`.  The helpers and the beginning of the system call are sequential
code; `xorEncryptWorker` and `xorEncryptSyscall` perform one step of a worker and of the calling
thread.  The results of `kernel_read` are not used by the source.
-/

namespace XorSyscalls

/-- `xor_encrypt_worker`; `self` is the thread that runs it. -/
def xorEncryptWorker (self : ℕ × ℕ) (x : Chance) (k : Kernel) (w : Worker) :
    Option (Kernel × Worker) :=
  match w.pc with
  | .locking => do
    let (result, k) ← k.mutexLockInterruptible .syncLock self w.shouldStop x
    if result ≠ 0 then some (k, { w with pc := .returning Errno.eintr.ret })
    else some (k, { w with pc := .entered })
  | .entered => do
    let (args, k) ← k.findArgs w.params x
    some (k, { w with idx := args.rangeStart, pc := .testing })
  | .testing => do
    let (args, k) ← k.findArgs w.params x
    if w.idx < args.rangeEnd then
      if w.shouldStop then some (k, { w with pc := .unlocking Errno.eintr.ret })
      else some (k, { w with pc := .xoring })
    else some (k, { w with pc := .unlocking 0 })
  | .xoring => do
    let (args, k) ← k.findArgs w.params x
    if args.keyLength = 0 then some (k, { w with pc := .oops })
    else
      let k ← k.xorByte self.1 args.inputData w.idx args.cipherKey (w.idx % args.keyLength) x
      some (k, { w with idx := sizeAdd w.idx 1, pc := .testing })
  | .unlocking r => some (k.mutexUnlock .syncLock, { w with pc := .returning r })
  | _ => none

/-- `load_key_from_file` -/
def loadKeyFromFile (keyFilepath : List UInt8) : KProgram (Option (Ptr × ℕ)) := do
  match ← filpOpen .key keyFilepath .readOnly with
  | .error _ => return none
  | .ok keyFile =>
    let keyLen ← iSizeRead keyFile
    if keyLen ≤ 0 then
      filpClose keyFile
      return none
    else
      let keyBuffer ← kmalloc .key (keyLen + 1)
      if keyBuffer = .null then
        filpClose keyFile
        return none
      else
        let _ ← kernelRead keyFile keyBuffer keyLen
        storeByte keyBuffer keyLen 0
        filpClose keyFile
        return some (keyBuffer, keyLen)

/-- `read_data_from_file` -/
def readDataFromFile (filename : List UInt8) : KProgram (Option (Ptr × ℕ)) := do
  match ← filpOpen .data filename .readOnly with
  | .error _ => return none
  | .ok inputFile =>
    let dataSize ← iSizeRead inputFile
    if dataSize ≤ 0 then
      filpClose inputFile
      return none
    else
      let buffer ← kmalloc .data dataSize
      if buffer = .null then
        filpClose inputFile
        return none
      else
        let _ ← kernelRead inputFile buffer dataSize
        filpClose inputFile
        return some (buffer, dataSize)

/-- `save_data_to_file` -/
def saveDataToFile (filename : List UInt8) (outputData : Ptr) (dataLength : ℕ) : KProgram ℤ := do
  match ← filpOpen .out filename .writeCreate with
  | .error e =>
    printk ⟨.kernErr, "ERROR: No se pudo abrir el archivo de salida: %s\n", [.str filename]⟩
    return e.ret
  | .ok outputFile =>
    let written ← kernelWrite outputFile outputData dataLength
    if written < 0 then
      printk ⟨.kernErr, "ERROR: Error al escribir los datos\n", []⟩
      filpClose outputFile
      return written
    else
      filpClose outputFile
      return 0

/-- `xor_encrypt_syscall` in front of the division `data_len / num_threads`: either it returns
early with a value, or it goes on with its local variables set. -/
def prepareEncrypt (a : Args) : KProgram (Except ℤ Prepared) := do
  let some kernelSrcFile ← copyFromUser a.srcFile 256 | return .error Errno.efault.ret
  let some kernelDestFile ← copyFromUser a.destFile 256 | return .error Errno.efault.ret
  let some kernelKeyFile ← copyFromUser a.keyFilepath 256 | return .error Errno.efault.ret
  let some (fileData, dataLen) ← readDataFromFile kernelSrcFile | return .error Errno.eio.ret
  match ← loadKeyFromFile kernelKeyFile with
  | none =>
    kfree fileData
    return .error Errno.eio.ret
  | some (keyData, keyLen) =>
    let workers ← kmallocArray .workers (toSizeT a.numThreads.toInt) taskPtrSize
    let workerArgs ← kmallocArray .workerArgs (toSizeT a.numThreads.toInt) workerArgsSize
    if workers = .null ∨ workerArgs = .null then
      kfree fileData
      kfree keyData
      return .error Errno.enomem.ret
    else
      return .ok
        { destFile := kernelDestFile, fileData, dataLen, keyData, keyLen, workers, workerArgs }

/-- The arguments stored for worker `i` in the creation loop. -/
def Prepared.argsFor (q : Prepared) (n : ℤ) (segmentSize i offset : ℕ) : WorkerArgs where
  inputData := q.fileData
  cipherKey := q.keyData
  keyLength := q.keyLen
  rangeStart := offset
  rangeEnd := if (i : ℤ) = n - 1 then q.dataLen else sizeAdd offset segmentSize

/-- The pointers freed behind the label `cleanup`, in order. -/
def Prepared.frees (q : Prepared) : List Ptr := [q.fileData, q.keyData, q.workers, q.workerArgs]

/-- One step of `xor_encrypt_syscall`; `none` if it is blocked or has ended. -/
def xorEncryptSyscall (c : Call) (s : State) : Option State :=
  let n := c.args.numThreads.toInt
  match s.caller with
  | .entry (.call op next) =>
    some { s with
      kernel := (c.exec op s.kernel).2
      caller := .entry (next (c.exec op s.kernel).1) }
  | .entry (.ret (.error r)) => some { s with caller := .returned r }
  | .entry (.ret (.ok q)) => some { s with caller := .segment q }
  | .segment q =>
    if toSizeT n = 0 then some { s with caller := .oops }
    else
      let segmentSize := q.dataLen / toSizeT n
      some { s with caller := .create q segmentSize 0 0 }
  | .create q segmentSize i offset =>
    if (i : ℤ) < n then
      let k := s.kernel.storeArgs (q.argsPtr i) (q.argsFor n segmentSize i offset)
      match c.env.threadError i with
      | some e =>
        some { s with
          kernel := k.printk ⟨.kernErr, "ERROR: Fallo al crear el hilo %d\n", [.int i]⟩
          caller := .cleanup q.frees e.ret }
      | none =>
        some { s with
          kernel := k
          workers := s.workers ++ [Worker.new (q.argsPtr i) offset]
          caller := .create q segmentSize (i + 1) (sizeAdd offset segmentSize) }
    else some { s with caller := .stop q 0 }
  | .stop q i =>
    -- the test of `workers[i]` always succeeds: `kthread_run` does not return `NULL`
    if (i : ℤ) < n then
      some { s with workers := s.workers.modify i Worker.stop, caller := .wait q i }
    else some { s with caller := .save q (saveDataToFile q.destFile q.fileData q.dataLen) }
  | .wait q i =>
    match (s.workers[i]?).map Worker.pc with
    | some (.exited workerResult) =>
      let message : LogEntry :=
        if workerResult ≠ 0 ∧ workerResult ≠ Errno.eintr.ret then
          ⟨.kernErr, "ERROR: El hilo %d finalizó con error %d\n", [.int i, .int workerResult]⟩
        else ⟨.kernInfo, "Hilo %d finalizó correctamente\n", [.int i]⟩
      some { s with kernel := s.kernel.printk message, caller := .stop q (i + 1) }
    | _ => none
  | .save q (.call op next) =>
    some { s with
      kernel := (c.exec op s.kernel).2
      caller := .save q (next (c.exec op s.kernel).1) }
  | .save q (.ret r) => some { s with caller := .cleanup q.frees r }
  | .cleanup (p :: ps) r => some { s with kernel := s.kernel.kfree p, caller := .cleanup ps r }
  | .cleanup [] r => some { s with caller := .returned r }
  | .returned _ => none
  | .oops => none

end XorSyscalls
