import XorSyscalls.Syscall.Invariant

/-!
# Schedules that reach a given outcome

The runs of a system call can be steered: while no worker interferes the calling thread can be run
to the end of its sequential code, and in the stop loop each worker can be run alone, stopped
after any number of bytes.  `reaches_stopped` does this for one worker and `exists_run_stopped` for
the whole call: for every choice of a number of bytes for each worker there is a run in which
exactly these bytes have been XORed when the stop loop ends.
-/

namespace XorSyscalls

open TransitionSystem

/-! ## Single steps -/

/-- Both system calls are the same function up to their parameter. -/
lemma Syscall.step_caller (d : Syscall) (c : Call) (s : State) :
    d.step c s .caller = callerStep d c s := by
  rw [Syscall.step, d.body_eq]

/-- The state in which worker `i` is `w` and the kernel is `k`. -/
def State.withWorker (s : State) (i : ℕ) (k : Kernel) (w : Worker) : State :=
  { s with kernel := k, workers := s.workers.set i w }

section Steps

variable {d : Syscall} {c : Call} {s : State}

/-- Worker `i` stays. -/
lemma State.withWorker_self {i : ℕ} {w : Worker} (hw : s.workers[i]? = some w) :
    s.withWorker i s.kernel w = s := by
  obtain ⟨hi, rfl⟩ := List.getElem?_eq_some_iff.mp hw
  rw [State.withWorker, List.set_getElem_self]

/-- A step of worker `i`. -/
lemma reaches_worker {i : ℕ} (hi : i < s.workers.length) {x : Chance} {k k' : Kernel}
    {w w' : Worker} (h : workerStep d.lock c.task i x k w = some (k', w')) :
    Reaches (d.step c) (s.withWorker i k w) (s.withWorker i k' w') := by
  refine Reaches.single (.worker i x) ?_
  have hget : (s.withWorker i k w).workers[i]? = some w := List.getElem?_set_self hi
  simp only [Syscall.step, State.moveWorker, hget, d.worker_eq]
  change (workerStep d.lock c.task i x k w).map _ = _
  rw [h, Option.map_some]
  simp [State.withWorker]

/-- The calling thread runs its sequential code in front of the division. -/
lemma reaches_entry (p : KProgram (Except ℤ Prepared)) (hpc : s.caller = .entry p) :
    Reaches (d.step c) s { s with
      kernel := (p.eval c.exec s.kernel).2
      caller := .entry (.ret (p.eval c.exec s.kernel).1) } := by
  induction p generalizing s with
  | ret a =>
    have hs : s = { s with caller := .entry (.ret a) } := by rw [← hpc]
    rw [Program.eval_ret]
    exact hs ▸ Reaches.refl s
  | call op next ih =>
    refine Reaches.head .caller (t := { s with
      kernel := (c.exec op s.kernel).2
      caller := .entry (next (c.exec op s.kernel).1) }) ?_ (ih _ rfl)
    rw [d.step_caller, callerStep, hpc]

/-- The calling thread runs the writer. -/
lemma reaches_save {q : Prepared} (p : KProgram ℤ) (hpc : s.caller = .save q p) :
    Reaches (d.step c) s { s with
      kernel := (p.eval c.exec s.kernel).2
      caller := .save q (.ret (p.eval c.exec s.kernel).1) } := by
  induction p generalizing s with
  | ret a =>
    have hs : s = { s with caller := .save q (.ret a) } := by rw [← hpc]
    rw [Program.eval_ret]
    exact hs ▸ Reaches.refl s
  | call op next ih =>
    refine Reaches.head .caller (t := { s with
      kernel := (c.exec op s.kernel).2
      caller := .save q (next (c.exec op s.kernel).1) }) ?_ (ih _ rfl)
    rw [d.step_caller, callerStep, hpc]

/-- The calling thread frees its memory and returns. -/
lemma reaches_returned (ps : List Ptr) (r : ℤ) (hpc : s.caller = .cleanup ps r) :
    Reaches (d.step c) s { s with
      kernel := ps.foldl Kernel.kfree s.kernel, caller := .returned r } := by
  induction ps generalizing s with
  | nil =>
    refine Reaches.single .caller ?_
    rw [d.step_caller, callerStep, hpc]
    rfl
  | cons p ps ih =>
    have hrest := ih (s := { s with kernel := s.kernel.kfree p, caller := .cleanup ps r }) rfl
    refine Reaches.head .caller ?_ hrest
    rw [d.step_caller, callerStep, hpc]

/-! ## One worker alone -/

/-- The kernel `k'` has the memory that `k` has. -/
def Kernel.Keeps (k k' : Kernel) : Prop :=
  ∀ (p : ArgsPtr) (a : WorkerArgs), k.Provides p a → k'.Provides p a

/-- A new worker starts and takes the free mutex. -/
lemma reaches_entered {i : ℕ} (hi : i < s.workers.length) (p : ArgsPtr) (rangeStart : ℕ)
    {k : Kernel} (hfree : k.holder d.lock = none) :
    Reaches (d.step c) (s.withWorker i k (Worker.new p rangeStart))
      (s.withWorker i (k.setHolder d.lock (some (c.task, i)))
        ⟨p, rangeStart, false, .entered⟩) := by
  have hstart : workerStep d.lock c.task i .usual k (Worker.new p rangeStart) =
      some (k, ⟨p, rangeStart, false, .locking⟩) := rfl
  have hlock : workerStep d.lock c.task i .usual k ⟨p, rangeStart, false, .locking⟩ =
      some (k.setHolder d.lock (some (c.task, i)), ⟨p, rangeStart, false, .entered⟩) := by
    simp [workerStep, Kernel.mutexLockInterruptible, hfree]
  exact (reaches_worker hi hstart).trans (reaches_worker hi hlock)

/-- If it finds its arguments it begins with its range. -/
lemma reaches_locked {i : ℕ} (hi : i < s.workers.length) {p : ArgsPtr} {a : WorkerArgs}
    {k : Kernel} (hprov : k.Provides p a) (hfree : k.holder d.lock = none) :
    Reaches (d.step c) (s.withWorker i k (Worker.new p a.rangeStart))
      (s.withWorker i (k.setHolder d.lock (some (c.task, i)))
        ⟨p, a.rangeStart, false, .testing⟩) := by
  have henter : workerStep d.lock c.task i .usual (k.setHolder d.lock (some (c.task, i)))
      ⟨p, a.rangeStart, false, .entered⟩ =
      some (k.setHolder d.lock (some (c.task, i)), ⟨p, a.rangeStart, false, .testing⟩) := by
    have hargs : (k.setHolder d.lock (some (c.task, i))).loadArgs p = some a := hprov.args
    simp [workerStep, Kernel.findArgs, hargs]
  exact (reaches_entered hi p a.rangeStart hfree).trans (reaches_worker hi henter)

/-- A worker that is not stopped XORs `m` more bytes of its range. -/
lemma reaches_xored {i : ℕ} (hi : i < s.workers.length) {p : ArgsPtr} {a : WorkerArgs}
    (hend : a.rangeEnd < sizeModulus) (m idx : ℕ) (hm : idx + m ≤ a.rangeEnd) (k : Kernel)
    (hprov : k.Provides p a) :
    ∃ k', k'.holder = k.holder ∧ k.Keeps k' ∧
      Reaches (d.step c) (s.withWorker i k ⟨p, idx, false, .testing⟩)
        (s.withWorker i k' ⟨p, idx + m, false, .testing⟩) := by
  induction m generalizing idx k with
  | zero => exact ⟨k, rfl, fun _ _ h => h, Reaches.refl _⟩
  | succ m ih =>
    have hfind : k.findArgs p .usual = some (a, k) := by simp only [Kernel.findArgs, hprov.args]
    have htest : workerStep d.lock c.task i .usual k ⟨p, idx, false, .testing⟩ =
        some (k, ⟨p, idx, false, .xoring⟩) := by
      simp [workerStep, hfind, (by omega : idx < a.rangeEnd)]
    have hadd : sizeAdd idx 1 = idx + 1 := Nat.mod_eq_of_lt (by omega)
    have hdata : idx < (k.bytesAt a.inputData).length := by have := hprov.data; omega
    have hkey : idx % a.keyLength < (k.bytesAt a.cipherKey).length :=
      (Nat.mod_lt idx hprov.key_pos).trans_le hprov.key
    obtain ⟨v, hxor⟩ : ∃ v, workerStep d.lock c.task i .usual k ⟨p, idx, false, .xoring⟩ =
        some (k.storeByte a.inputData idx v, ⟨p, idx + 1, false, .testing⟩) := by
      refine ⟨(k.bytesAt a.inputData)[idx] ^^^ (k.bytesAt a.cipherKey)[idx % a.keyLength], ?_⟩
      simp [workerStep, hfind, hprov.key_pos.ne', hadd, Kernel.xorByte_of_bytes
        (List.getElem?_eq_getElem hdata) (List.getElem?_eq_getElem hkey)]
    obtain ⟨k', hk', hkeeps, hreach⟩ := ih (idx + 1) (by omega) (k.storeByte a.inputData idx v)
      (hprov.storeByte ..)
    rw [Nat.add_right_comm] at hreach
    exact ⟨k', hk'.trans (k.storeByte_holder ..), fun p' a' h => hkeeps p' a' (h.storeByte ..),
      ((reaches_worker hi htest).trans (reaches_worker hi hxor)).trans hreach⟩

/-- A worker releases the mutex and exits. -/
lemma reaches_exited {i : ℕ} (hi : i < s.workers.length) (p : ArgsPtr) (idx : ℕ) (stop : Bool)
    (r : ℤ) (k : Kernel) :
    Reaches (d.step c) (s.withWorker i k ⟨p, idx, stop, .unlocking r⟩)
      (s.withWorker i (k.setHolder d.lock none) ⟨p, idx, stop, .exited r⟩) := by
  have hunlock : workerStep d.lock c.task i .usual k ⟨p, idx, stop, .unlocking r⟩ =
      some (k.setHolder d.lock none, ⟨p, idx, stop, .returning r⟩) := rfl
  have hexit : workerStep d.lock c.task i .usual (k.setHolder d.lock none)
      ⟨p, idx, stop, .returning r⟩ =
      some (k.setHolder d.lock none, ⟨p, idx, stop, .exited r⟩) := rfl
  exact (reaches_worker hi hunlock).trans (reaches_worker hi hexit)

/-- `kthread_stop` sets the flag of worker `i`. -/
lemma reaches_flagged {q : Prepared} {i : ℕ} (hpc : s.caller = .stop q i) (hi : i < c.threads)
    (k : Kernel) (w : Worker) :
    Reaches (d.step c) (s.withWorker i k w)
      (({ s with caller := .wait q i } : State).withWorker i k w.stop) := by
  refine Reaches.single .caller ?_
  have hpc' : (s.withWorker i k w).caller = .stop q i := hpc
  have hlt : (i : ℤ) < c.args.numThreads.toInt := Call.natCast_lt_numThreads.mpr hi
  rw [d.step_caller, callerStep, hpc']
  simp only [hlt, if_true, State.withWorker]
  congr 2
  refine List.ext_getElem? fun j => ?_
  rw [List.getElem?_modify, List.getElem?_set, List.getElem?_set]
  split
  · split <;> simp
  · simp

/-- `kthread_stop` returns when worker `i` has exited. -/
lemma reaches_waited {q : Prepared} {i : ℕ} (hi : i < s.workers.length) (k : Kernel) (w : Worker)
    {r : ℤ} (hr : w.pc = .exited r) :
    Reaches (d.step c) (({ s with caller := .wait q i } : State).withWorker i k w)
      (({ s with caller := .stop q (i + 1) } : State).withWorker i
        (k.printk (d.stopMessage i r)) w) := by
  refine Reaches.single .caller ?_
  have hget : ((({ s with caller := .wait q i } : State).withWorker i k w).workers[i]?).map
      Worker.pc = some (.exited r) := by
    have : (({ s with caller := .wait q i } : State).withWorker i k w).workers[i]? = some w :=
      List.getElem?_set_self hi
    rw [this, Option.map_some, hr]
  have hpc : (({ s with caller := .wait q i } : State).withWorker i k w).caller = .wait q i := rfl
  rw [d.step_caller, callerStep, hpc]
  simp only [hget]
  rfl

/-- A worker stopped after `m` bytes; it returns `0` iff these are all bytes of its range. -/
def stoppedWorker (p : ArgsPtr) (a : WorkerArgs) (m : ℕ) : Worker :=
  ⟨p, a.rangeStart + m, true,
    .exited (if a.rangeStart + m = a.rangeEnd then 0 else Errno.eintr.ret)⟩

/-- In the stop loop a new worker can be run alone and stopped after any number of bytes. -/
lemma reaches_stopped {q : Prepared} {i : ℕ} {p : ArgsPtr} {a : WorkerArgs}
    (hpc : s.caller = .stop q i) (hi : i < c.threads)
    (hw : s.workers[i]? = some (Worker.new p a.rangeStart)) (hfree : s.kernel.holder d.lock = none)
    (hprov : s.kernel.Provides p a) (hend : a.rangeEnd < sizeModulus) {m : ℕ}
    (hm : a.rangeStart + m ≤ a.rangeEnd) :
    ∃ k, k.holder d.lock = none ∧ s.kernel.Keeps k ∧ Reaches (d.step c) s
      (({ s with caller := .stop q (i + 1) } : State).withWorker i k (stoppedWorker p a m)) := by
  have hlen : i < s.workers.length := (List.getElem?_eq_some_iff.mp hw).1
  have hlocked : (s.kernel.setHolder d.lock (some (c.task, i))).Provides p a :=
    ⟨hprov.args, hprov.data, hprov.key, hprov.key_pos⟩
  obtain ⟨k, -, hkeeps, hxored⟩ := reaches_xored (d := d) (c := c) hlen hend m a.rangeStart hm
    (s.kernel.setHolder d.lock (some (c.task, i))) hlocked
  have hrun := (reaches_locked (c := c) hlen hprov hfree).trans hxored
  rw [State.withWorker_self hw] at hrun
  have hfree' : ∀ e, ((k.setHolder d.lock none).printk e).holder d.lock = none :=
    fun e => Function.update_self ..
  have hkeeps' : ∀ e, s.kernel.Keeps ((k.setHolder d.lock none).printk e) := fun e p' a' h => by
    have hk := hkeeps p' a' ⟨h.args, h.data, h.key, h.key_pos⟩
    exact ⟨hk.args, hk.data, hk.key, hk.key_pos⟩
  have hfind : k.findArgs p .usual = some (a, k) := by
    simp only [Kernel.findArgs, (hkeeps p a hlocked).args]
  by_cases hall : a.rangeStart + m = a.rangeEnd
  · -- the worker finishes its range before it is stopped
    have htest : workerStep d.lock c.task i .usual k ⟨p, a.rangeStart + m, false, .testing⟩ =
        some (k, ⟨p, a.rangeStart + m, false, .unlocking 0⟩) := by
      simp [workerStep, hall, hfind]
    have hexit := (hrun.trans (reaches_worker hlen htest)).trans
      (reaches_exited hlen p (a.rangeStart + m) false 0 k)
    have hstop := (hexit.trans (reaches_flagged hpc hi _ _)).trans
      (reaches_waited (r := 0) hlen _ _ rfl)
    rw [stoppedWorker, if_pos hall]
    exact ⟨_, hfree' _, hkeeps' _, hstop⟩
  · -- the worker is stopped in the middle of its range
    have hstop := hrun.trans (reaches_flagged hpc hi _ _)
    have htest : workerStep d.lock c.task i .usual k ⟨p, a.rangeStart + m, true, .testing⟩ =
        some (k, ⟨p, a.rangeStart + m, true, .unlocking Errno.eintr.ret⟩) := by
      have hlt : a.rangeStart + m < a.rangeEnd := lt_of_le_of_ne hm hall
      simp [workerStep, hlt, hfind]
    have hexit := ((hstop.trans
      (reaches_worker (s := { s with caller := .wait q i }) hlen htest)).trans
      (reaches_exited (s := { s with caller := .wait q i }) hlen p (a.rangeStart + m) true
        Errno.eintr.ret k)).trans (reaches_waited (r := Errno.eintr.ret) hlen _ _ rfl)
    rw [stoppedWorker, if_neg hall]
    exact ⟨_, hfree' _, hkeeps' _, hexit⟩

end Steps

/-! ## The loops -/

section Loops

variable {d : Syscall} {c : Call} {fs : FileSystem} (inp : Inputs c fs)

/-- The workers when the first `j` of them have been stopped, worker `i` after `m i` bytes, and the
others are new. -/
def Inputs.workersAt (m : ℕ → ℕ) (j : ℕ) : List Worker :=
  (List.range c.threads).map fun i =>
    if i < j then stoppedWorker (inp.prepared.argsPtr i) (inp.argsOf i) (m i)
    else Worker.new (inp.prepared.argsPtr i) (inp.argsOf i).rangeStart

@[simp] lemma Inputs.length_workersAt (m : ℕ → ℕ) (j : ℕ) :
    (inp.workersAt m j).length = c.threads := by
  simp [workersAt]

lemma Inputs.getElem?_workersAt (m : ℕ → ℕ) (j : ℕ) {i : ℕ} (hi : i < c.threads) :
    (inp.workersAt m j)[i]? = some
      (if i < j then stoppedWorker (inp.prepared.argsPtr i) (inp.argsOf i) (m i)
      else Worker.new (inp.prepared.argsPtr i) (inp.argsOf i).rangeStart) := by
  simp [workersAt, List.getElem?_map, List.getElem?_range hi]

/-- Stopping the next worker. -/
lemma Inputs.set_workersAt (m : ℕ → ℕ) {j : ℕ} (hj : j < c.threads) :
    (inp.workersAt m j).set j (stoppedWorker (inp.prepared.argsPtr j) (inp.argsOf j) (m j)) =
      inp.workersAt m (j + 1) := by
  refine List.ext_getElem? fun i => ?_
  rcases lt_or_ge i c.threads with hi | hi
  · rw [inp.getElem?_workersAt m (j + 1) hi]
    rcases eq_or_ne j i with rfl | hne
    · rw [List.getElem?_set_self (by simpa using hj), if_pos (Nat.lt_succ_self j)]
    · rw [List.getElem?_set_ne hne, inp.getElem?_workersAt m j hi]
      have hiff : i < j ↔ i < j + 1 := by omega
      simp only [hiff]
  · rw [List.getElem?_eq_none (by simpa using hi), List.getElem?_eq_none (by simpa using hi)]

/-- The number of bytes of chunk `i`. -/
def Inputs.chunkLength (i : ℕ) : ℕ :=
  chunkEnd inp.data.size c.threads i - chunkStart inp.data.size c.threads i

/-- A chunk ends behind its last byte. -/
lemma Inputs.chunkStart_add_chunkLength {i : ℕ} (hi : i < c.threads) :
    chunkStart inp.data.size c.threads i + inp.chunkLength i =
      chunkEnd inp.data.size c.threads i :=
  Nat.add_sub_of_le (chunkStart_le_chunkEnd hi)

/-- Workers that are stopped only after their whole chunk return `0`. -/
lemma Inputs.exited_zero_of_mem_workersAt {w : Worker}
    (hw : w ∈ inp.workersAt inp.chunkLength c.threads) : w.pc = .exited 0 := by
  obtain ⟨i, hi, rfl⟩ := List.mem_map.mp hw
  have hlt : i < c.threads := List.mem_range.mp hi
  have hend : (inp.argsOf i).rangeStart + inp.chunkLength i = (inp.argsOf i).rangeEnd :=
    inp.chunkStart_add_chunkLength hlt
  rw [if_pos hlt, stoppedWorker, if_pos hend]

/-- The stop loop can stop every worker after any number of bytes. -/
lemma reaches_stop_loop {k : Kernel} (hfree : k.holder d.lock = none)
    (hprov : ∀ i < c.threads, k.Provides (inp.prepared.argsPtr i) (inp.argsOf i)) (m : ℕ → ℕ)
    (hm : ∀ i < c.threads,
      chunkStart inp.data.size c.threads i + m i ≤ chunkEnd inp.data.size c.threads i)
    {j : ℕ} (hj : j ≤ c.threads) :
    ∃ k', k'.holder d.lock = none ∧ k.Keeps k' ∧
      Reaches (d.step c) ⟨k, .stop inp.prepared 0, inp.workersAt m 0⟩
        ⟨k', .stop inp.prepared j, inp.workersAt m j⟩ := by
  induction j with
  | zero => exact ⟨k, hfree, fun _ _ h => h, Reaches.refl _⟩
  | succ j ih =>
    obtain ⟨k₁, hfree₁, hkeeps₁, hreach⟩ := ih (by omega)
    have hnew : (inp.workersAt m j)[j]? =
        some (Worker.new (inp.prepared.argsPtr j) (inp.argsOf j).rangeStart) := by
      rw [inp.getElem?_workersAt m j hj, if_neg (lt_irrefl j)]
    obtain ⟨k₂, hfree₂, hkeeps₂, hstop⟩ := reaches_stopped (d := d) (c := c)
      (s := ⟨k₁, .stop inp.prepared j, inp.workersAt m j⟩) rfl hj hnew hfree₁
      (hkeeps₁ _ _ (hprov j hj)) (Inputs.rangeEnd_lt hj) (hm j hj)
    rw [State.withWorker, inp.set_workersAt m hj] at hstop
    exact ⟨k₂, hfree₂, fun p a h => hkeeps₂ p a (hkeeps₁ p a h), hreach.trans hstop⟩

/-- The kernel when the arguments of the first `j` workers have been stored. -/
def Kernel.storeChunks (k : Kernel) (q : Prepared) (n : ℕ) : ℕ → Kernel
  | 0 => k
  | j + 1 => (k.storeChunks q n j).storeArgs (q.argsPtr j) (q.chunkArgs n j)

lemma Kernel.storeChunks_holder (k : Kernel) (q : Prepared) (n j : ℕ) :
    (k.storeChunks q n j).holder = k.holder := by
  induction j with
  | zero => rfl
  | succ j ih => exact ih

/-- Up to the first error the creation loop can create its workers before any of them runs. -/
lemma reaches_create_loop {q : Prepared} (hq : q.dataLen < sizeModulus) (k : Kernel) {j : ℕ}
    (hj : j ≤ c.threads) (hthreads : ∀ i < j, c.env.threadError i = none) :
    Reaches (d.step c) ⟨k, .create q (q.dataLen / c.threads) 0 0, []⟩
      ⟨k.storeChunks q c.threads j,
        .create q (q.dataLen / c.threads) j (j * (q.dataLen / c.threads)),
        (List.range j).map fun i =>
          Worker.new (q.argsPtr i) (q.chunkArgs c.threads i).rangeStart⟩ := by
  induction j with
  | zero =>
    rw [Nat.zero_mul]
    exact Reaches.refl _
  | succ j ih =>
    refine (ih (by omega) fun i hi => hthreads i (by omega)).trans (Reaches.single .caller ?_)
    have hlt : (j : ℤ) < c.args.numThreads.toInt := Call.natCast_lt_numThreads.mpr hj
    rw [d.step_caller]
    simp only [callerStep, hlt, if_true, hthreads j (Nat.lt_succ_self j),
      Prepared.argsFor_eq hq hj, sizeAdd_offset hq hj, List.range_succ, List.map_append,
      List.map_singleton, Kernel.storeChunks]
    rfl

/-- With a positive number of threads the division leads into the creation loop. -/
lemma step_segment (hn : 0 < c.args.numThreads.toInt) (q : Prepared) (k : Kernel) :
    d.step c ⟨k, .segment q, []⟩ .caller =
      some ⟨k, .create q (q.dataLen / c.threads) 0 0, []⟩ := by
  have hne : c.threads ≠ 0 := (Call.natCast_lt_numThreads.mp hn).ne'
  rw [d.step_caller, callerStep]
  simp only [Call.toSizeT_numThreads hn, if_neg hne]

/-- Behind the creation loop the stop loop begins. -/
lemma step_createDone (k : Kernel) (q : Prepared) (seg off : ℕ) (ws : List Worker) :
    d.step c ⟨k, .create q seg c.threads off, ws⟩ .caller = some ⟨k, .stop q 0, ws⟩ := by
  rw [d.step_caller]
  simp only [callerStep, if_neg c.not_threads_lt]

/-- If no thread is refused, the creation loop can hand out all chunks before any worker runs. -/
lemma reaches_stop {q : Prepared} (hq : q.dataLen < sizeModulus) (hn : 0 < c.args.numThreads.toInt)
    (hthreads : ∀ i < c.threads, c.env.threadError i = none) (k : Kernel) :
    Reaches (d.step c) ⟨k, .segment q, []⟩ ⟨k.storeChunks q c.threads c.threads, .stop q 0,
      (List.range c.threads).map fun i =>
        Worker.new (q.argsPtr i) (q.chunkArgs c.threads i).rangeStart⟩ :=
  (Reaches.head .caller (step_segment hn q k) (reaches_create_loop hq k le_rfl hthreads)).trans
    (Reaches.single .caller (step_createDone _ q _ _ _))

/-- With its inputs and arrays at hand a system call can reach the division. -/
lemma reaches_segment {k₀ : Kernel} (inp : Inputs c k₀.fs) (harr : c.ArraysAllocated) :
    Reaches (d.step c) (State.start d c k₀) ⟨inp.kernel k₀, .segment inp.prepared, []⟩ := by
  have heval := eval_prepare_of_inputs d inp
  rw [if_neg (not_or.mpr harr)] at heval
  have hentry := reaches_entry (d := d) (c := c) (s := State.start d c k₀) _ rfl
  simp only [State.start, d.prepares_eq, heval] at hentry
  rw [← d.prepares_eq] at hentry
  have hdone : d.step c ⟨inp.kernel k₀, .entry (.ret (.ok inp.prepared)), []⟩ .caller =
      some ⟨inp.kernel k₀, .segment inp.prepared, []⟩ := d.step_caller c _
  exact hentry.trans (Reaches.single _ hdone)

/-- With a positive number of threads it then enters the creation loop. -/
lemma reaches_create {k₀ : Kernel} (inp : Inputs c k₀.fs) (hn : c.Ready) :
    Reaches (d.step c) (State.start d c k₀)
      ⟨inp.kernel k₀, .create inp.prepared (inp.data.size / c.threads) 0 0, []⟩ :=
  (reaches_segment inp hn.arrays).trans
    (Reaches.single .caller (step_segment hn.numThreads_pos inp.prepared _))

end Loops

/-! ## Whole runs -/

/-- All workers of the call get started: their number is positive, and neither the arrays nor a
thread is refused. -/
structure Call.StartsWorkers (c : Call) : Prop extends c.Ready where
  threads : ∀ i < c.threads, c.env.threadError i = none

/-- For every choice of a number of bytes for each worker there is a run in which the first `j`
workers have XORed exactly these bytes when the stop loop has stopped them, and the others are
new. -/
lemma exists_run_stopping (d : Syscall) {c : Call} {k₀ : Kernel} (inp : Inputs c k₀.fs)
    (hstart : c.StartsWorkers) (hfree : k₀.holder d.lock = none) (m : ℕ → ℕ)
    (hm : ∀ i < c.threads,
      chunkStart inp.data.size c.threads i + m i ≤ chunkEnd inp.data.size c.threads i)
    {j : ℕ} (hj : j ≤ c.threads) :
    ∃ acts k, k.holder d.lock = none ∧
      (∀ i < c.threads, k.Provides (inp.prepared.argsPtr i) (inp.argsOf i)) ∧
      d.Run c k₀ acts ⟨k, .stop inp.prepared j, inp.workersAt m j⟩ := by
  have hcreated : Reaches (d.step c) (State.start d c k₀)
      ⟨(inp.kernel k₀).storeChunks inp.prepared c.threads c.threads, .stop inp.prepared 0,
        inp.workersAt m 0⟩ :=
    (reaches_segment inp hstart.arrays).trans (reaches_stop (q := inp.prepared) inp.data_lt
      hstart.numThreads_pos hstart.threads (inp.kernel k₀))
  obtain ⟨acts₁, hacts₁⟩ := hcreated
  obtain ⟨inp', -, -, hrunning, -⟩ := (Inv.of_run hacts₁).at_stop rfl
  obtain rfl := Subsingleton.elim inp inp'
  have hprov : ∀ i < c.threads, ((inp.kernel k₀).storeChunks inp.prepared c.threads
      c.threads).Provides (inp.prepared.argsPtr i) (inp.argsOf i) := fun i hi =>
    hrunning.provides (inp.getElem?_workersAt m 0 hi)
  obtain ⟨k, hfree', hkeeps, hstopped⟩ := reaches_stop_loop (d := d) inp
    (by rw [Kernel.storeChunks_holder, inp.kernel_holder]; exact hfree) hprov m hm hj
  obtain ⟨acts, hacts⟩ := Reaches.trans ⟨acts₁, hacts₁⟩ hstopped
  exact ⟨acts, k, hfree', fun i hi => hkeeps _ _ (hprov i hi), hacts⟩

/-- For every choice of a number of bytes for each worker there is a run in which the workers have
XORed exactly these bytes when the stop loop ends. -/
theorem exists_run_stopped (d : Syscall) {c : Call} {k₀ : Kernel} (inp : Inputs c k₀.fs)
    (hstart : c.StartsWorkers) (hfree : k₀.holder d.lock = none) (m : ℕ → ℕ)
    (hm : ∀ i < c.threads,
      chunkStart inp.data.size c.threads i + m i ≤ chunkEnd inp.data.size c.threads i) :
    ∃ acts k, d.Run c k₀ acts
      ⟨k, .stop inp.prepared c.threads, inp.workersAt m c.threads⟩ := by
  obtain ⟨acts, k, -, -, hrun⟩ := exists_run_stopping d inp hstart hfree m hm le_rfl
  exact ⟨acts, k, hrun⟩

/-- Behind the stop loop the calling thread calls the writer. -/
lemma step_stopDone (d : Syscall) {c : Call} {fs : FileSystem} (inp : Inputs c fs) (k : Kernel)
    (ws : List Worker) :
    d.step c ⟨k, .stop inp.prepared c.threads, ws⟩ .caller = some ⟨k, .save inp.prepared
      (d.save inp.destFile (.block (c.blockAt .data)) inp.data.size), ws⟩ := by
  rw [d.step_caller]
  simp only [callerStep, if_neg c.not_threads_lt]
  rfl

/-- Such a run can be continued until the system call returns. -/
theorem exists_run_returned (d : Syscall) {c : Call} {k₀ : Kernel} (inp : Inputs c k₀.fs)
    (hstart : c.StartsWorkers) (hfree : k₀.holder d.lock = none) (m : ℕ → ℕ)
    (hm : ∀ i < c.threads,
      chunkStart inp.data.size c.threads i + m i ≤ chunkEnd inp.data.size c.threads i) :
    ∃ acts k r, d.Run c k₀ acts ⟨k, .returned r, inp.workersAt m c.threads⟩ ∧
      Saved inp ⟨k, .returned r, inp.workersAt m c.threads⟩ r := by
  obtain ⟨acts, k, hrun⟩ := exists_run_stopped d inp hstart hfree m hm
  have hsave := reaches_save (d := d) (c := c) (s := ⟨k, .save inp.prepared
    (d.save inp.destFile (.block (c.blockAt .data)) inp.data.size),
      inp.workersAt m c.threads⟩) _ rfl
  generalize (d.save inp.destFile (.block (c.blockAt .data)) inp.data.size).eval c.exec k = out
    at hsave
  obtain ⟨r, k₁⟩ := out
  have hdone : d.step c ⟨k₁, .save inp.prepared (.ret r), inp.workersAt m c.threads⟩ .caller =
      some ⟨k₁, .cleanup inp.prepared.frees r, inp.workersAt m c.threads⟩ := d.step_caller c _
  have hreturn := reaches_returned (d := d) (c := c)
    (s := ⟨k₁, .cleanup inp.prepared.frees r, inp.workersAt m c.threads⟩) _ _ rfl
  have hstopped : Reaches (d.step c) (State.start d c k₀) _ := ⟨acts, hrun⟩
  obtain ⟨acts', hacts'⟩ := (((hstopped.trans (Reaches.single _ (step_stopDone d inp k _))).trans
    hsave).trans (Reaches.single _ hdone)).trans hreturn
  obtain ⟨inp', hsaved⟩ := (Inv.of_run hacts').saved_of_length rfl (inp.length_workersAt m _)
    hstart.threads_pos
  obtain rfl := Subsingleton.elim inp inp'
  exact ⟨acts', _, r, hacts', hsaved⟩

/-! ## A small call -/

/-- User memory with the paths `"a"`, `"b"` and `"k"` at the addresses `0`, `256` and `512`. -/
def sampleMem (addr : ℕ) : Option UInt8 :=
  some (if addr = 0 then 97 else if addr = 256 then 98 else if addr = 512 then 107 else 0)

/-- A system in which nothing fails and all transfers are complete. -/
def sampleEnv : Env where
  userMem := sampleMem
  stack := fun _ => []
  openError := fun _ => none
  allocates := fun _ => true
  junk := fun _ _ => 0
  readResult := fun _ => .ok 8
  writeResult := .ok 8
  threadError := fun _ => none

/-- A call that works on `"a"` with the key `"k"` and writes `"b"`. -/
def sampleCall (n : Int32) : Call := ⟨1, ⟨0, 256, n, 512⟩, sampleEnv⟩

/-- The file `"a"` with three bytes and the key `"k"` with one. -/
def sampleFiles (p : Path) : Option File :=
  if p = [97] then some ⟨[1, 2, 3], by decide⟩
  else if p = [107] then some ⟨[5], by decide⟩
  else none

/-- The inputs of the small call. -/
def sampleInputs (n : Int32) : Inputs (sampleCall n) (Kernel.idle sampleFiles).fs where
  srcFile := 97 :: List.replicate 255 0
  destFile := 98 :: List.replicate 255 0
  keyFile := 107 :: List.replicate 255 0
  data := ⟨[1, 2, 3], by decide⟩
  key := ⟨[5], by decide⟩
  srcFile_eq := by
    change (sampleCall 1).userBytes 0 256 = _
    decide +kernel
  destFile_eq := by
    change (sampleCall 1).userBytes 256 256 = _
    decide +kernel
  keyFile_eq := by
    change (sampleCall 1).userBytes 512 256 = _
    decide +kernel
  data_eq := Call.inputFile_eq_some_iff.mpr ⟨rfl, by rfl, by decide, rfl⟩
  key_eq := Call.inputFile_eq_some_iff.mpr ⟨rfl, by rfl, by decide, rfl⟩

/-- The small call starts its workers. -/
lemma sampleCall_startsWorkers {n : Int32} (hn : 0 < n.toInt)
    (harr : (sampleCall n).ArraysAllocated) : (sampleCall n).StartsWorkers :=
  ⟨⟨harr, hn⟩, fun _ _ => rfl⟩

/-- The paths of the small call. -/
lemma sampleCall_names (n : Int32) : (sampleCall n).Names [97] [98] [107] where
  srcPath := by rw [Call.srcPath, (sampleInputs n).srcFile_eq]; rfl
  destPath := by rw [Call.destPath, (sampleInputs n).destFile_eq]; rfl
  keyPath := by rw [Call.keyPath, (sampleInputs n).keyFile_eq]; rfl

/-- The value that a system call has returned, if it has. -/
def Caller.result : Caller → Option ℤ
  | .returned r => some r
  | _ => none

/-- Only a system call that has returned has a result. -/
lemma Caller.eq_returned {caller : Caller} {r : ℤ} (h : caller.result = some r) :
    caller = .returned r := by
  cases caller <;> simp_all [Caller.result]

/-- What a schedule leads to: the result of the system call, the program points of the workers and
the content of the file at `p`. -/
def Syscall.outcome (d : Syscall) (c : Call) (k : Kernel) (acts : List Act) (p : Path) :
    Option (Option ℤ × List WorkerPc × Option (List UInt8)) :=
  (run (d.step c) (State.start d c k) acts).map fun s =>
    (s.caller.result, s.workers.map Worker.pc, (s.kernel.fs p).map File.bytes)

/-- A schedule with an outcome is a run. -/
lemma Syscall.exists_run_of_outcome {d : Syscall} {c : Call} {k : Kernel} {acts : List Act}
    {p : Path} {r : ℤ} {pcs : List WorkerPc} {bytes : Option (List UInt8)}
    (h : d.outcome c k acts p = some (some r, pcs, bytes)) :
    ∃ s, d.Run c k acts s ∧ s.caller = .returned r ∧ s.workers.map Worker.pc = pcs ∧
      (s.kernel.fs p).map File.bytes = bytes := by
  obtain ⟨s, hrun, hs⟩ := Option.map_eq_some_iff.mp h
  obtain ⟨hresult, hrest⟩ := Prod.mk.inj hs
  obtain ⟨hpcs, hbytes⟩ := Prod.mk.inj hrest
  exact ⟨s, hrun, Caller.eq_returned hresult, hpcs, hbytes⟩

/-- A single worker has exited with `0`. -/
lemma exited_zero_of_map_pc {ws : List Worker} (h : ws.map Worker.pc = [.exited 0]) :
    ∀ w ∈ ws, w.pc = .exited 0 := by
  intro w hw
  have hmem := List.mem_map_of_mem (f := Worker.pc) hw
  simpa [h] using hmem

/-- A schedule for one worker that finishes its three bytes before it is stopped. -/
def sampleSchedule : List Act :=
  List.replicate 20 .caller ++ List.replicate 12 (.worker 0) ++ List.replicate 12 .caller

/-- The small call with this schedule writes the cipher. -/
lemma sampleCall_outcome :
    Syscall.encrypt.outcome (sampleCall 1) (.idle sampleFiles) sampleSchedule [98] =
      some (some 0, [.exited 0], some [4, 7, 6]) := by
  decide +kernel

end XorSyscalls
