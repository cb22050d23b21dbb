import XorSyscalls.Cipher
import XorSyscalls.Foundation.ChunkPartition
import XorSyscalls.Foundation.Pool
import XorSyscalls.Syscall.Moves
import XorSyscalls.Syscall.Prepare

/-!
# The workers and the shared buffer

The creation loop gives worker `i` the chunk `[chunkStart, chunkEnd)` of the data.  `InRange` ties
the program point of a worker to its local variable `idx`, for any range that does not wrap around,
and `WorkerOk` says that the range is the chunk: the worker has XORed exactly the bytes of its chunk
in front of `idx`.  `Running` is the invariant of the concurrent phase: the arguments of the workers
are in their array, and the data buffer is the loaded data with the bytes worked on so far XORed
once with the repeated key, where `touched` collects the positions in front of the `idx` of each
worker.  It needs no mutual exclusion, only that the chunks are disjoint.
-/

namespace XorSyscalls

/-! ## The number of threads -/

namespace Call

variable (c : Call)

/-- The number of threads as a natural number. -/
def threads : ℕ := c.args.numThreads.toInt.toNat

variable {c}

/-- A positive number of threads keeps its value as a `size_t`. -/
lemma toSizeT_numThreads (h : 0 < c.args.numThreads.toInt) :
    toSizeT c.args.numThreads.toInt = c.threads := by
  have hlt := c.args.numThreads.toInt_lt
  unfold toSizeT threads sizeModulus
  rw [Int.emod_eq_of_lt h.le (by omega)]

/-- A negative number of threads becomes a `size_t` for which no array fits into memory. -/
lemma arrayPtr_eq_null (site : Site) {elem : ℕ} (helem : 2 ≤ elem)
    (h : c.args.numThreads.toInt < 0) : c.arrayPtr site elem = .null := by
  have hle := c.args.numThreads.le_toInt
  have hsize : 2 ^ 63 ≤ toSizeT c.args.numThreads.toInt := by
    unfold toSizeT sizeModulus
    omega
  have hbig : sizeModulus ≤ c.arraySize elem := by
    calc sizeModulus = 2 ^ 63 * 2 := by norm_num [sizeModulus]
      _ ≤ c.arraySize elem := Nat.mul_le_mul hsize helem
  rw [arrayPtr, if_pos hbig]

/-- A number of threads that is not negative is never too large for an array. -/
lemma arrayPtr_ne_null {site : Site} {elem : ℕ} (h : 0 ≤ c.args.numThreads.toInt)
    (helem : elem ≤ 2 ^ 32) (hsite : c.env.allocates site = true) :
    c.arrayPtr site elem ≠ .null := by
  have hlt := c.args.numThreads.toInt_lt
  have hsize : toSizeT c.args.numThreads.toInt < 2 ^ 31 := by
    unfold toSizeT sizeModulus
    omega
  have hfits : ¬ sizeModulus ≤ c.arraySize elem := by
    have hle : c.arraySize elem ≤ 2 ^ 31 * 2 ^ 32 := Nat.mul_le_mul hsize.le helem
    exact not_le.mpr (hle.trans_lt (by norm_num [sizeModulus]))
  rw [arrayPtr, if_neg hfits, if_pos hsite]
  split <;> simp

/-- Behind the division the number of threads is positive. -/
lemma numThreads_pos (harr : c.ArraysAllocated) (hn : toSizeT c.args.numThreads.toInt ≠ 0) :
    0 < c.args.numThreads.toInt := by
  rcases lt_trichotomy c.args.numThreads.toInt 0 with h | h | h
  · exact absurd (arrayPtr_eq_null .workers (by decide) h) harr.1
  · rw [h] at hn
    exact absurd rfl hn
  · exact h

variable (c) in
/-- The call gets to its creation loop: its arrays can be allocated, and the number of threads is
positive. -/
structure Ready : Prop where
  arrays : c.ArraysAllocated
  numThreads_pos : 0 < c.args.numThreads.toInt

variable (c) in
/-- No worker is left behind: if a creation fails, it is already the first one. -/
def KeepsWorkers : Prop :=
  c.env.threadError 0 = none → ∀ i < c.threads, c.env.threadError i = none

instance : Decidable c.KeepsWorkers := inferInstanceAs (Decidable (_ → _))

/-- Comparing a loop counter with the number of threads. -/
lemma natCast_lt_numThreads {i : ℕ} : (i : ℤ) < c.args.numThreads.toInt ↔ i < c.threads := by
  unfold threads
  omega

/-- A call that is ready has at least one thread. -/
lemma Ready.threads_pos (h : c.Ready) : 0 < c.threads := natCast_lt_numThreads.mp h.numThreads_pos

/-- A call that is ready has got the array of worker arguments. -/
lemma Ready.arrayPtr_workerArgs (h : c.Ready) :
    c.arrayPtr .workerArgs workerArgsSize = .block (c.blockAt .workerArgs) := by
  have hpos := h.threads_pos
  have hne := h.arrays.2
  unfold arrayPtr at hne ⊢
  split at hne
  · exact absurd rfl hne
  · rename_i hsmall
    have hsize : c.arraySize workerArgsSize ≠ 0 := by
      rw [arraySize, toSizeT_numThreads h.numThreads_pos]
      exact (Nat.mul_pos hpos (by decide)).ne'
    rw [if_neg hsmall, if_neg hsize]
    rw [if_neg hsize] at hne
    split at hne
    · rename_i halloc
      rw [if_pos halloc]
    · exact absurd rfl hne

/-- The end of a loop over the threads. -/
lemma numThreads_le_natCast {i : ℕ} : c.args.numThreads.toInt ≤ (i : ℤ) ↔ c.threads ≤ i := by
  unfold threads
  omega

variable (c) in
/-- A loop over the threads ends when its counter has reached their number. -/
lemma not_threads_lt : ¬(c.threads : ℤ) < c.args.numThreads.toInt :=
  not_lt.mpr (numThreads_le_natCast.mpr le_rfl)

end Call

/-! ## The arguments of the workers -/

section Chunks

variable {c : Call} {q : Prepared} {i : ℕ}

/-- The running offset of the creation loop does not wrap around. -/
lemma sizeAdd_offset {L n : ℕ} (hL : L < sizeModulus) (hi : i < n) :
    sizeAdd (i * (L / n)) (L / n) = (i + 1) * (L / n) := by
  have hle : (i + 1) * (L / n) ≤ L := mul_div_le_of_le hi
  rw [sizeAdd, ← Nat.succ_mul]
  exact Nat.mod_eq_of_lt (hle.trans_lt hL)

/-- The arguments of a worker for chunk `i` of `n` chunks of the data. -/
def Prepared.chunkArgs (q : Prepared) (n i : ℕ) : WorkerArgs where
  inputData := q.fileData
  cipherKey := q.keyData
  rangeStart := chunkStart q.dataLen n i
  rangeEnd := chunkEnd q.dataLen n i
  keyLength := q.keyLen

/-- The creation loop computes the chunks. -/
lemma Prepared.argsFor_eq (hL : q.dataLen < sizeModulus) (hi : i < c.threads) :
    q.argsFor c.args.numThreads.toInt (q.dataLen / c.threads) i (i * (q.dataLen / c.threads)) =
      q.chunkArgs c.threads i := by
  have hlast : ((i : ℤ) = c.args.numThreads.toInt - 1) ↔ i + 1 = c.threads := by
    unfold Call.threads at *
    omega
  simp only [Prepared.argsFor, Prepared.chunkArgs, chunkStart, chunkEnd, hlast,
    sizeAdd_offset hL hi]

end Chunks

namespace Inputs

variable {c : Call} {fs : FileSystem} (inp : Inputs c fs)

/-- The data as the workers find it in the buffer. -/
def dataBuffer : List UInt8 := c.loaded .data inp.data

/-- The key as the workers find it, without its terminator. -/
def keyBuffer : List UInt8 := c.loaded .key inp.key

lemma length_dataBuffer : inp.dataBuffer.length = inp.data.size := c.length_loaded .data inp.data

lemma length_keyBuffer : inp.keyBuffer.length = inp.key.size := c.length_loaded .key inp.key

/-- The arguments of worker `i`: its chunk of the data, and the key. -/
def argsOf (i : ℕ) : WorkerArgs where
  inputData := .block (c.blockAt .data)
  cipherKey := .block (c.blockAt .key)
  rangeStart := chunkStart inp.data.size c.threads i
  rangeEnd := chunkEnd inp.data.size c.threads i
  keyLength := inp.key.size

/-- The key is not empty. -/
lemma key_pos : 0 < inp.key.size := (Call.inputFile_eq_some_iff.mp inp.key_eq).2.2.1

/-- Sizes of data are far below the modulus of `size_t`. -/
lemma data_lt : inp.data.size < sizeModulus := by
  have := inp.data.size_le
  unfold File.size sizeModulus maxFileSize at *
  omega

/-- The arguments of the workers are in a block of their own. -/
lemma argsPtr_eq (h : c.Ready) (i : ℕ) :
    inp.prepared.argsPtr i = ⟨.block (c.blockAt .workerArgs), i⟩ := by
  have := h.arrayPtr_workerArgs
  rw [Prepared.argsPtr, prepared, this]

/-- The creation loop computes the chunks of the data. -/
lemma argsFor_eq {i : ℕ} (hi : i < c.threads) :
    inp.prepared.argsFor c.args.numThreads.toInt (inp.data.size / c.threads) i
      (i * (inp.data.size / c.threads)) = inp.argsOf i :=
  Prepared.argsFor_eq (q := inp.prepared) inp.data_lt hi

end Inputs

/-! ## One worker -/

/-- What the program point of a worker with the arguments `a` says about `idx` and its result. -/
def Worker.PcOk (a : WorkerArgs) (w : Worker) : Prop :=
  match w.pc with
  | .created | .locking | .entered => w.idx = a.rangeStart
  | .testing => True
  | .xoring => w.idx < a.rangeEnd
  | .unlocking r | .returning r | .exited r =>
    (r = 0 ∧ w.idx = a.rangeEnd) ∨ (r = Errno.eintr.ret ∧ w.shouldStop = true)
  | .oops => False

/-- The `idx` of a worker is in its range and fits the program point. -/
structure Worker.InRange (a : WorkerArgs) (w : Worker) : Prop where
  start_le : a.rangeStart ≤ w.idx
  le_end : w.idx ≤ a.rangeEnd
  pc_ok : w.PcOk a

/-- The memory that a worker uses is there: its arguments, the bytes of its range and a key. -/
structure Kernel.Provides (k : Kernel) (p : ArgsPtr) (a : WorkerArgs) : Prop where
  args : k.loadArgs p = some a
  data : a.rangeEnd ≤ (k.bytesAt a.inputData).length
  key : a.keyLength ≤ (k.bytesAt a.cipherKey).length
  key_pos : 0 < a.keyLength

section InRange

variable {w w' : Worker} {a : WorkerArgs} {lock : Mutex} {task i : ℕ} {k k' : Kernel}

/-- The increment of `idx` inside the range does not wrap around. -/
lemma sizeAdd_idx (hend : a.rangeEnd < sizeModulus) (hlt : w.idx < a.rangeEnd) :
    sizeAdd w.idx 1 = w.idx + 1 :=
  Nat.mod_eq_of_lt ((Nat.succ_le_of_lt hlt).trans_lt hend)

namespace Worker.InRange

/-- A new worker. -/
lemma new (p : ArgsPtr) (h : a.rangeStart ≤ a.rangeEnd) : (Worker.new p a.rangeStart).InRange a :=
  ⟨le_rfl, h, rfl⟩

/-- Setting the stop flag. -/
lemma stop (h : w.InRange a) : w.stop.InRange a where
  start_le := h.start_le
  le_end := h.le_end
  pc_ok := by
    have hpc := h.pc_ok
    unfold Worker.PcOk at hpc ⊢
    cases hw : w.pc <;> simp only [hw, Worker.stop] at hpc ⊢ <;> first
      | exact hpc
      | exact hpc.imp_right fun hr => ⟨hr.1, trivial⟩

/-- A worker keeps to its range and its program text. -/
lemma move (h : w.InRange a) (hend : a.rangeEnd < sizeModulus) (hkey : a.keyLength ≠ 0)
    (hm : RegularMove lock task i a k w k' w') : w'.InRange a := by
  have hok := h.pc_ok
  unfold Worker.PcOk at hok
  cases hm with
  | start hpc hstop | lock hpc hfree =>
    rw [hpc] at hok
    exact ⟨h.start_le, h.le_end, hok⟩
  | startStopped hpc hstop => exact ⟨h.start_le, h.le_end, Or.inr ⟨rfl, hstop⟩⟩
  | interrupt hpc hstop => exact ⟨h.start_le, h.le_end, Or.inr ⟨rfl, hstop⟩⟩
  | enter hpc =>
    rw [hpc] at hok
    exact ⟨le_rfl, hok ▸ h.le_end, trivial⟩
  | test hpc hlt hstop => exact ⟨h.start_le, h.le_end, hlt⟩
  | testStopped hpc hlt hstop => exact ⟨h.start_le, h.le_end, Or.inr ⟨rfl, hstop⟩⟩
  | testDone hpc hge =>
    exact ⟨h.start_le, h.le_end, Or.inl ⟨rfl, le_antisymm h.le_end hge⟩⟩
  | xor hpc =>
    rw [hpc] at hok
    have hadd : sizeAdd w.idx 1 = w.idx + 1 := sizeAdd_idx hend hok
    refine ⟨?_, ?_, trivial⟩
    · exact h.start_le.trans (by simp [hadd])
    · change sizeAdd w.idx 1 ≤ a.rangeEnd
      omega
  | oops hpc hzero => exact absurd hzero hkey
  | unlock hpc | exit hpc =>
    rw [hpc] at hok
    exact ⟨h.start_le, h.le_end, hok⟩

end Worker.InRange

/-- A worker that keeps to its range finds what it uses. -/
lemma Kernel.Provides.not_missing (h : k.Provides w.params a) (hrange : w.InRange a) :
    ¬ k.Missing w := by
  have hok := hrange.pc_ok
  have hmod := Nat.mod_lt w.idx h.key_pos
  unfold Missing Worker.PcOk at *
  cases hpc : w.pc <;> simp only [hpc, h.args, not_false_eq_true] at hok ⊢
  simp only [byteAt, List.getElem?_eq_none_iff, not_and, not_or, not_le]
  exact fun _ => ⟨hok.trans_le h.data, hmod.trans_le h.key⟩

/-- XORing bytes takes no memory away. -/
lemma Kernel.Provides.storeByte {p : ArgsPtr} (h : k.Provides p a) (dst : Ptr) (idx : ℕ)
    (v : UInt8) : (k.storeByte dst idx v).Provides p a := by
  have hlen : ∀ p', ((k.storeByte dst idx v).bytesAt p').length = (k.bytesAt p').length := by
    rintro (_ | _ | b)
    · rfl
    · rfl
    · exact k.length_storeByte dst idx v b
  refine ⟨?_, h.data.trans_eq (hlen _).symm, h.key.trans_eq (hlen _).symm, h.key_pos⟩
  rw [loadArgs_congr (storeByte_args ..)]
  exact h.args

end InRange

/-- Worker `i` works on its own chunk, `idx` is inside it and fits the program point. -/
structure WorkerOk {c : Call} {fs : FileSystem} (inp : Inputs c fs) (i : ℕ) (w : Worker) :
    Prop extends w.InRange (inp.argsOf i) where
  params_eq : w.params = inp.prepared.argsPtr i

/-- Every worker is in order. -/
def WorkersOk {c : Call} {fs : FileSystem} (inp : Inputs c fs) (ws : List Worker) : Prop :=
  ∀ (i : ℕ) (w : Worker), ws[i]? = some w → WorkerOk inp i w

section Workers

variable {c : Call} {fs : FileSystem} {inp : Inputs c fs}

/-- The positions of the buffer that the workers have passed. -/
def touched (inp : Inputs c fs) (ws : List Worker) : Set ℕ :=
  {x | ∃ (i : ℕ) (w : Worker), ws[i]? = some w ∧ (inp.argsOf i).rangeStart ≤ x ∧ x < w.idx}

/-- The chunk of a worker ends inside the data. -/
lemma Inputs.rangeEnd_le {i : ℕ} (hi : i < c.threads) : (inp.argsOf i).rangeEnd ≤ inp.data.size :=
  chunkEnd_le hi

/-- The chunks do not wrap around. -/
lemma Inputs.rangeEnd_lt {i : ℕ} (hi : i < c.threads) : (inp.argsOf i).rangeEnd < sizeModulus :=
  (Inputs.rangeEnd_le hi).trans_lt inp.data_lt

namespace WorkerOk

variable {i : ℕ} {w : Worker}

/-- The increment of `idx` inside the chunk does not wrap around. -/
lemma sizeAdd_idx (_ : WorkerOk inp i w) (hi : i < c.threads)
    (hlt : w.idx < (inp.argsOf i).rangeEnd) : sizeAdd w.idx 1 = w.idx + 1 :=
  XorSyscalls.sizeAdd_idx (Inputs.rangeEnd_lt hi) hlt

/-- A new worker. -/
lemma new (hi : i < c.threads) :
    WorkerOk inp i (Worker.new (inp.prepared.argsPtr i) (inp.argsOf i).rangeStart) :=
  ⟨.new _ (chunkStart_le_chunkEnd hi), rfl⟩

/-- Setting the stop flag. -/
lemma stop (h : WorkerOk inp i w) : WorkerOk inp i w.stop := ⟨h.toInRange.stop, h.params_eq⟩

/-- A worker keeps to its chunk and its program text. -/
lemma move (h : WorkerOk inp i w) (hi : i < c.threads) {lock : Mutex} {task : ℕ}
    {k k' : Kernel} {w' : Worker} (hm : RegularMove lock task i (inp.argsOf i) k w k' w') :
    WorkerOk inp i w' := by
  refine ⟨h.toInRange.move (Inputs.rangeEnd_lt hi) inp.key_pos.ne' hm, ?_⟩
  rw [← h.params_eq]
  cases hm <;> rfl

end WorkerOk

/-! ## The positions passed by the workers -/

/-- Only the `idx` of the workers matter. -/
lemma touched_congr {ws ws' : List Worker}
    (h : ∀ i : ℕ, (ws[i]?).map Worker.idx = (ws'[i]?).map Worker.idx) :
    touched inp ws = touched inp ws' := by
  have hsub : ∀ {us vs : List Worker},
      (∀ i : ℕ, (us[i]?).map Worker.idx = (vs[i]?).map Worker.idx) →
        touched inp us ⊆ touched inp vs := by
    intro us vs huv x hx
    obtain ⟨i, w, hw, hstart, hlt⟩ := hx
    have hi := huv i
    rw [hw, Option.map_some] at hi
    obtain ⟨v, hv, hidx⟩ := Option.map_eq_some_iff.mp hi.symm
    exact ⟨i, v, hv, hstart, hidx ▸ hlt⟩
  exact Set.Subset.antisymm (hsub h) (hsub fun i => (h i).symm)

/-- A move that leaves `idx` alone. -/
lemma touched_set {ws : List Worker} {i : ℕ} {w w' : Worker} (hw : ws[i]? = some w)
    (hidx : w'.idx = w.idx) : touched inp (ws.set i w') = touched inp ws := by
  refine touched_congr fun j => ?_
  rcases eq_or_ne i j with rfl | hne
  · rw [List.getElem?_set_self (List.getElem?_eq_some_iff.mp hw).1, hw, Option.map_some,
      Option.map_some, hidx]
  · rw [List.getElem?_set_ne hne]

/-- Setting a stop flag passes no position. -/
lemma touched_modify_stop (ws : List Worker) (i : ℕ) :
    touched inp (ws.modify i Worker.stop) = touched inp ws := by
  refine touched_congr fun j => ?_
  rw [List.getElem?_modify]
  rcases eq_or_ne i j with rfl | hne
  · cases ws[i]? <;> simp [Worker.stop]
  · cases ws[j]? <;> simp [hne]

/-- A new worker has passed no position. -/
lemma touched_append_new (ws : List Worker) (p : ArgsPtr) :
    touched inp (ws ++ [Worker.new p (inp.argsOf ws.length).rangeStart]) = touched inp ws := by
  ext x
  constructor
  · rintro ⟨i, w, hw, hstart, hlt⟩
    rcases getElem?_concat_cases hw with ⟨rfl, rfl⟩ | hw
    · exact absurd hlt (not_lt.mpr hstart)
    · exact ⟨i, w, hw, hstart, hlt⟩
  · rintro ⟨i, w, hw, hstart, hlt⟩
    refine ⟨i, w, ?_, hstart, hlt⟩
    rw [List.getElem?_append_left (List.getElem?_eq_some_iff.mp hw).1, hw]

/-- XORing a byte passes its position. -/
lemma touched_set_succ {ws : List Worker} {i : ℕ} {w w' : Worker} (hw : ws[i]? = some w)
    (hstart : (inp.argsOf i).rangeStart ≤ w.idx) (hidx : w'.idx = w.idx + 1) :
    touched inp (ws.set i w') = insert w.idx (touched inp ws) := by
  have hself : (ws.set i w')[i]? = some w' :=
    List.getElem?_set_self (List.getElem?_eq_some_iff.mp hw).1
  ext x
  rw [Set.mem_insert_iff]
  constructor
  · rintro ⟨j, v, hv, hvs, hvl⟩
    rcases eq_or_ne i j with rfl | hne
    · obtain rfl : w' = v := Option.some_inj.mp (hself.symm.trans hv)
      rcases Nat.lt_succ_iff_lt_or_eq.mp (hidx ▸ hvl) with h | h
      · exact Or.inr ⟨i, w, hw, hvs, h⟩
      · exact Or.inl h
    · rw [List.getElem?_set_ne hne] at hv
      exact Or.inr ⟨j, v, hv, hvs, hvl⟩
  · rintro (rfl | ⟨j, v, hv, hvs, hvl⟩)
    · exact ⟨i, w', hself, hstart, by omega⟩
    · rcases eq_or_ne i j with rfl | hne
      · obtain rfl : w = v := Option.some_inj.mp (hw.symm.trans hv)
        exact ⟨i, w', hself, hvs, by omega⟩
      · exact ⟨j, v, by rwa [List.getElem?_set_ne hne], hvs, hvl⟩

/-- The positions that a worker has still in front of it have been passed by no worker. -/
lemma WorkersOk.not_mem_touched {ws : List Worker} (h : WorkersOk inp ws)
    (hlen : ws.length ≤ c.threads) {i j : ℕ} {w : Worker} (hw : ws[i]? = some w) (hj : w.idx ≤ j)
    (hlt : j < (inp.argsOf i).rangeEnd) : j ∉ touched inp ws := by
  rintro ⟨i', v, hv, hstart, hidx⟩
  have hok := h i w hw
  have hvok := h i' v hv
  have hi : i < c.threads := (List.getElem?_eq_some_iff.mp hw).1.trans_le hlen
  have hi' : i' < c.threads := (List.getElem?_eq_some_iff.mp hv).1.trans_le hlen
  have hmem : chunkStart inp.data.size c.threads i ≤ j ∧ j < chunkEnd inp.data.size c.threads i :=
    ⟨hok.start_le.trans hj, hlt⟩
  have hmem' : chunkStart inp.data.size c.threads i' ≤ j ∧
      j < chunkEnd inp.data.size c.threads i' := ⟨hstart, hidx.trans_le hvok.le_end⟩
  obtain rfl : i = i' := eq_of_mem_chunk hi hi' hmem hmem'
  obtain rfl : w = v := Option.some_inj.mp (hw.symm.trans hv)
  exact absurd hidx (not_lt.mpr hj)

/-! ## The invariant of the concurrent phase -/

/-- The files are unchanged, the data buffer is the loaded data with the passed positions XORed
once, the key buffer holds the key and its terminator, and every worker is in order and finds its
arguments. -/
structure Running (inp : Inputs c fs) (k : Kernel) (ws : List Worker) : Prop where
  fs_eq : k.fs = fs
  data_eq :
    k.mem (c.blockAt .data) = maskMap (touched inp ws) (xorAt inp.keyBuffer) inp.dataBuffer
  key_eq : k.mem (c.blockAt .key) = inp.keyBuffer ++ [0]
  args_eq : ∀ i < ws.length, k.loadArgs (inp.prepared.argsPtr i) = some (inp.argsOf i)
  length_le : ws.length ≤ c.threads
  worker_ok : WorkersOk inp ws

namespace Running

variable {k k' : Kernel} {ws : List Worker}

/-- At the division there are no workers yet. -/
lemma start (k₀ : Kernel) (hfs : k₀.fs = fs) : Running inp (inp.kernel k₀) [] where
  fs_eq := (inp.kernel_fs k₀).trans hfs
  data_eq := by
    have htouched : touched inp [] = ∅ := by
      ext x
      simp [touched]
    rw [inp.kernel_mem_data, htouched, maskMap_empty]
    rfl
  key_eq := inp.kernel_mem_key k₀
  args_eq := fun i hi => absurd hi (Nat.not_lt_zero i)
  length_le := Nat.zero_le _
  worker_ok := fun i w h => by simp at h

/-- The number of a worker is below the number of threads. -/
lemma lt_threads (h : Running inp k ws) {i : ℕ} {w : Worker} (hw : ws[i]? = some w) :
    i < c.threads :=
  (List.getElem?_eq_some_iff.mp hw).1.trans_le h.length_le

/-- The byte of the key used at a position is never the terminator. -/
lemma byteAt_key (h : Running inp k ws) (j : ℕ) :
    k.byteAt (.block (c.blockAt .key)) (j % inp.key.size) =
      some (inp.keyBuffer.getD (j % inp.keyBuffer.length) 0) := by
  have hlt : j % inp.keyBuffer.length < inp.keyBuffer.length :=
    Nat.mod_lt _ (by rw [inp.length_keyBuffer]; exact inp.key_pos)
  rw [Kernel.byteAt, Kernel.bytesAt, h.key_eq, ← inp.length_keyBuffer,
    List.getElem?_append_left hlt, List.getD_eq_getElem?_getD, List.getElem?_eq_getElem hlt,
    Option.getD_some]

/-- Every worker finds its arguments, the bytes of its chunk and the key. -/
lemma provides (h : Running inp k ws) {i : ℕ} {w : Worker} (hw : ws[i]? = some w) :
    k.Provides w.params (inp.argsOf i) where
  args := by
    rw [(h.worker_ok i w hw).params_eq]
    exact h.args_eq i (List.getElem?_eq_some_iff.mp hw).1
  data := by
    change _ ≤ (k.mem (c.blockAt .data)).length
    rw [h.data_eq, length_maskMap, inp.length_dataBuffer]
    exact Inputs.rangeEnd_le (h.lt_threads hw)
  key := by
    change inp.key.size ≤ (k.mem (c.blockAt .key)).length
    rw [h.key_eq, List.length_append, inp.length_keyBuffer]
    exact Nat.le_add_right _ _
  key_pos := inp.key_pos

/-- The moves of a worker are regular. -/
lemma toRegular (h : Running inp k ws) {lock : Mutex} {task i : ℕ} {w w' : Worker}
    (hw : ws[i]? = some w) (hm : WorkerMove lock task i k w k' w') :
    RegularMove lock task i (inp.argsOf i) k w k' w' :=
  hm.toRegular (h.provides hw).args
    ((h.provides hw).not_missing (h.worker_ok i w hw).toInRange)

/-- Changes of the kernel that touch neither the files nor the memory do not matter. -/
lemma of_kernel (h : Running inp k ws) (hfs : k'.fs = k.fs) (hmem : k'.mem = k.mem)
    (hargs : k'.args = k.args) : Running inp k' ws :=
  ⟨hfs.trans h.fs_eq, by rw [hmem, h.data_eq], by rw [hmem, h.key_eq],
    by simpa only [Kernel.loadArgs, hargs] using h.args_eq, h.length_le, h.worker_ok⟩

/-- All workers stay in order when one of them moves. -/
lemma worker_ok_set (h : Running inp k ws) {lock : Mutex} {task i : ℕ} {w w' : Worker}
    (hw : ws[i]? = some w) (hm : RegularMove lock task i (inp.argsOf i) k w k' w') :
    WorkersOk inp (ws.set i w') :=
  forall_getElem?_set h.worker_ok ((h.worker_ok i w hw).move (h.lt_threads hw) hm)

/-- The XOR of one byte is one more position of the buffer worked on. -/
lemma xorByte (h : Running inp k ws) {i : ℕ} {w w' : Worker} {u v : UInt8}
    (hw : ws[i]? = some w) (hlt : w.idx < (inp.argsOf i).rangeEnd)
    (hu : k.byteAt (inp.argsOf i).inputData w.idx = some u)
    (hv : k.byteAt (inp.argsOf i).cipherKey (w.idx % (inp.argsOf i).keyLength) = some v)
    (hidx : w'.idx = w.idx + 1) (hok : WorkersOk inp (ws.set i w')) :
    Running inp (k.storeByte (inp.argsOf i).inputData w.idx (u ^^^ v)) (ws.set i w') := by
  have hwok := h.worker_ok i w hw
  have hmem : (k.storeByte (inp.argsOf i).inputData w.idx (u ^^^ v)).mem =
      Function.update k.mem (c.blockAt .data)
        ((k.mem (c.blockAt .data)).modify w.idx (xorAt inp.keyBuffer w.idx)) := by
    have hu' : (k.mem (c.blockAt .data))[w.idx]? = some u := hu
    have hv' := (h.byteAt_key w.idx).symm.trans hv
    rw [Option.some_inj] at hv'
    rw [← hv']
    change Function.update k.mem (c.blockAt .data) _ = _
    rw [List.modify_eq_set, hu', Option.getD_some]
    rfl
  refine ⟨h.fs_eq, ?_, ?_, fun j hj => ?_, by simpa using h.length_le, hok⟩
  · rw [hmem, Function.update_self, h.data_eq, touched_set_succ hw hwok.start_le hidx]
    exact modify_maskMap (h.worker_ok.not_mem_touched h.length_le hw le_rfl hlt)
  · have hne : c.blockAt .key ≠ c.blockAt .data := by simp [Call.blockAt]
    rw [hmem, Function.update_of_ne hne, h.key_eq]
  · rw [Kernel.loadArgs_congr (Kernel.storeByte_args ..)]
    exact h.args_eq j (by simpa using hj)

/-- Every move of a worker keeps the invariant. -/
theorem move (h : Running inp k ws) {lock : Mutex} {task i : ℕ} {w w' : Worker}
    (hw : ws[i]? = some w) (hm : WorkerMove lock task i k w k' w') :
    Running inp k' (ws.set i w') := by
  have hreg := h.toRegular hw hm
  have hok := h.worker_ok_set hw hreg
  have hwok := h.worker_ok i w hw
  -- all moves but the XOR of a byte leave `idx` and the memory alone
  have hframe : ∀ {k₁ : Kernel} {w₁ : Worker}, k₁.fs = k.fs → k₁.mem = k.mem → k₁.args = k.args →
      w₁.idx = w.idx → WorkersOk inp (ws.set i w₁) → Running inp k₁ (ws.set i w₁) := by
    intro k₁ w₁ hfs hmem hargs hidx hok₁
    refine ⟨hfs.trans h.fs_eq, ?_, by rw [hmem, h.key_eq], ?_, by simpa using h.length_le, hok₁⟩
    · rw [hmem, h.data_eq, touched_set hw hidx]
    · simpa only [Kernel.loadArgs, hargs, List.length_set] using h.args_eq
  cases hreg with
  | start hpc hstop => exact hframe rfl rfl rfl rfl hok
  | startStopped hpc hstop => exact hframe rfl rfl rfl rfl hok
  | lock hpc hfree => exact hframe rfl rfl rfl rfl hok
  | interrupt hpc hstop => exact hframe rfl rfl rfl rfl hok
  | enter hpc =>
    have hidx := hwok.pc_ok
    simp only [Worker.PcOk, hpc] at hidx
    exact hframe rfl rfl rfl hidx.symm hok
  | test hpc hlt hstop => exact hframe rfl rfl rfl rfl hok
  | testStopped hpc hlt hstop => exact hframe rfl rfl rfl rfl hok
  | testDone hpc hge => exact hframe rfl rfl rfl rfl hok
  | xor hpc hkey hu hv =>
    have hlt := hwok.pc_ok
    simp only [Worker.PcOk, hpc] at hlt
    exact h.xorByte hw hlt hu hv (hwok.sizeAdd_idx (h.lt_threads hw) hlt) hok
  | oops hpc hkey => exact hframe rfl rfl rfl rfl hok
  | unlock hpc => exact hframe rfl rfl rfl rfl hok
  | exit hpc => exact hframe rfl rfl rfl rfl hok

/-- Creating the next worker: its arguments are stored first. -/
lemma create (h : Running inp k ws) (hready : c.Ready) (hlt : ws.length < c.threads) :
    Running inp (k.storeArgs (inp.prepared.argsPtr ws.length) (inp.argsOf ws.length))
      (ws ++ [Worker.new (inp.prepared.argsPtr ws.length) (inp.argsOf ws.length).rangeStart]) := by
  refine ⟨h.fs_eq, ?_, h.key_eq, fun i hi => ?_, ?_, forall_getElem?_concat h.worker_ok
    (WorkerOk.new hlt)⟩
  · rw [touched_append_new]
    exact h.data_eq
  · rw [List.length_append, List.length_singleton, Nat.lt_succ_iff_lt_or_eq] at hi
    rcases hi with hi | rfl
    · rw [Kernel.loadArgs_storeArgs_of_ne _ _ fun heq => hi.ne (congrArg ArgsPtr.elem heq)]
      exact h.args_eq i hi
    · rw [inp.argsPtr_eq hready]
      exact Kernel.loadArgs_storeArgs_self ..
  · rw [List.length_append, List.length_singleton]
    exact hlt

/-- Setting the stop flag of a worker. -/
lemma stop (h : Running inp k ws) (i : ℕ) : Running inp k (ws.modify i Worker.stop) := by
  refine ⟨h.fs_eq, ?_, h.key_eq, by simpa using h.args_eq, by simpa using h.length_le,
    forall_getElem?_modify h.worker_ok fun _ hw => hw.stop⟩
  rw [touched_modify_stop, h.data_eq]

end Running

end Workers

end XorSyscalls
