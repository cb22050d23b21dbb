import XorSyscalls.Syscall.Schedules

/-!
# The buffer that is written to the output

When the calling thread has left the stop loop it hands the data buffer to the writer.  How much of
the buffer has been XORed by then depends on the schedule: `handed_buffers` says that every worker
has done some leading part of its chunk, that each choice of such parts is the outcome of some
schedule, and that nothing changes any more once the writer has started.  If all workers return
`0`, the buffer is the one that a single sequential loop computes (`handed_eq_xorReference`).
-/

namespace XorSyscalls

open TransitionSystem

/-! ## Chunks worked on in part -/

/-- The data with the first `p i` bytes of every chunk `i` XORed with the repeated key. -/
def xorLeading (D K : List UInt8) (n : ℕ) (p : ℕ → ℕ) : List UInt8 :=
  D.mapIdx fun j v =>
    if ∃ i < n, chunkStart D.length n i ≤ j ∧ j < chunkStart D.length n i + p i then v ^^^
      K.getD (j % K.length) 0
    else v

/-- The leading parts of the chunks are one set of positions. -/
lemma maskMap_eq_xorLeading {S : Set ℕ} {D K : List UInt8} {n : ℕ} {p : ℕ → ℕ}
    (h : ∀ j, j ∈ S ↔
      ∃ i < n, chunkStart D.length n i ≤ j ∧ j < chunkStart D.length n i + p i) :
    maskMap S (xorAt K) D = xorLeading D K n p := by
  refine List.ext_getElem? fun j => ?_
  rw [xorLeading, List.getElem?_mapIdx]
  by_cases hj : j ∈ S
  · rw [getElem?_maskMap_of_mem hj]
    simp only [if_pos ((h j).mp hj)]
    rfl
  · rw [getElem?_maskMap_of_not_mem hj]
    simp only [if_neg fun hp => hj ((h j).mpr hp), Option.map_id']

section Passed

variable {c : Call} {fs : FileSystem} {inp : Inputs c fs} {ws : List Worker}

/-- The number of bytes that worker `i` has XORed. -/
def passed (inp : Inputs c fs) (ws : List Worker) (i : ℕ) : ℕ :=
  (ws[i]?).elim 0 fun w => w.idx - (inp.argsOf i).rangeStart

/-- The passed positions, chunk by chunk. -/
lemma mem_touched_iff (hok : WorkersOk inp ws) (j : ℕ) :
    j ∈ touched inp ws ↔ ∃ i < ws.length, chunkStart inp.data.size c.threads i ≤ j ∧
      j < chunkStart inp.data.size c.threads i + passed inp ws i := by
  constructor
  · rintro ⟨i, w, hw, hstart, hlt⟩
    refine ⟨i, (List.getElem?_eq_some_iff.mp hw).1, hstart, ?_⟩
    have hle := (hok i w hw).start_le
    rw [passed, hw, Option.elim_some]
    change j < (inp.argsOf i).rangeStart + _
    omega
  · rintro ⟨i, hi, hstart, hlt⟩
    obtain ⟨w, hw⟩ : ∃ w, ws[i]? = some w := ⟨ws[i], List.getElem?_eq_getElem hi⟩
    have hle := (hok i w hw).start_le
    rw [passed, hw, Option.elim_some] at hlt
    change j < (inp.argsOf i).rangeStart + _ at hlt
    exact ⟨i, w, hw, hstart, by omega⟩

/-- The buffer left by the workers. -/
lemma buffer_eq_xorLeading (hok : WorkersOk inp ws) (hlen : ws.length = c.threads) :
    inp.buffer ws = xorLeading inp.dataBuffer inp.keyBuffer c.threads (passed inp ws) := by
  refine maskMap_eq_xorLeading fun j => ?_
  rw [mem_touched_iff hok, hlen, inp.length_dataBuffer]

/-- No worker gets beyond its chunk. -/
lemma passed_le (hok : WorkersOk inp ws) (i : ℕ) :
    passed inp ws i ≤ (inp.argsOf i).rangeEnd - (inp.argsOf i).rangeStart := by
  unfold passed
  cases hw : ws[i]? with
  | none => exact Nat.zero_le _
  | some w =>
    have hle := (hok i w hw).le_end
    rw [Option.elim_some]
    omega

/-- A worker that returned `0` has finished its chunk. -/
lemma WorkerOk.idx_eq_of_exited_zero {i : ℕ} {w : Worker} (h : WorkerOk inp i w)
    (hpc : w.pc = .exited 0) : w.idx = (inp.argsOf i).rangeEnd := by
  have hok := h.pc_ok
  simp only [Worker.PcOk, hpc] at hok
  rcases hok with ⟨-, hidx⟩ | ⟨hzero, -⟩
  · exact hidx
  · exact absurd hzero.symm Errno.eintr.ret_ne_zero

/-- If all workers returned `0`, every position has been passed. -/
lemma mem_touched_of_all_zero (hok : WorkersOk inp ws) (hn : 0 < c.threads)
    (hlen : ws.length = c.threads) (hzero : ∀ w ∈ ws, w.pc = .exited 0)
    {j : ℕ} (hj : j < inp.data.size) : j ∈ touched inp ws := by
  obtain ⟨i, hi, hstart, hend⟩ := exists_chunk hn hj
  obtain ⟨w, hw⟩ : ∃ w, ws[i]? = some w :=
    ⟨_, List.getElem?_eq_getElem (hlen ▸ hi)⟩
  have hidx := (hok i w hw).idx_eq_of_exited_zero (hzero w (List.mem_of_getElem? hw))
  exact ⟨i, w, hw, hstart, by rw [hidx]; exact hend⟩

/-- If all workers returned `0`, the buffer holds the cipher of what was read. -/
lemma buffer_eq_xorCipher (hok : WorkersOk inp ws) (hn : 0 < c.threads)
    (hlen : ws.length = c.threads) (hzero : ∀ w ∈ ws, w.pc = .exited 0) :
    inp.buffer ws = xorCipher inp.dataBuffer inp.keyBuffer := by
  refine maskMap_eq_mapIdx fun j hj => ?_
  rw [inp.length_dataBuffer] at hj
  exact mem_touched_of_all_zero hok hn hlen hzero hj

end Passed

/-! ## The call of the writer -/

/-- The schedule `acts` brings the calling thread to the end of its stop loop, and its next step is
the call of the writer: `q` are its local variables and `s` is the state in which the writer
starts. -/
def Syscall.StartsSave (d : Syscall) (c : Call) (k₀ : Kernel) (acts : List Act) (q : Prepared)
    (s : State) : Prop :=
  ∃ t i, d.Run c k₀ acts t ∧ t.caller = .stop q i ∧ d.step c t .caller = some s ∧
    s.caller = .save q (d.save q.destFile q.fileData q.dataLen)

section Handed

variable {d : Syscall} {c : Call} {k₀ : Kernel} {acts : List Act} {q : Prepared} {s s' : State}

/-- When the writer starts, all workers have exited and the invariant of the concurrent phase still
holds. -/
lemma Syscall.StartsSave.running (h : d.StartsSave c k₀ acts q s) :
    ∃ inp : Inputs c k₀.fs, q = inp.prepared ∧ 0 < c.threads ∧ Running inp s.kernel s.workers ∧
      s.workers.length = c.threads ∧ ExitedBelow s.workers c.threads := by
  obtain ⟨t, i, hrun, hpc, hstep, hsave⟩ := h
  obtain ⟨inp, rfl, hn, hrunning, hlen, hi, -, hexit⟩ := (Inv.of_run hrun).at_stop hpc
  have hpos := hn.threads_pos
  cases Syscall.move_of_step hstep with
  | stop hpc' hlt => cases hsave
  | stopDone hpc' hge =>
    cases hpc.symm.trans hpc'
    obtain rfl := le_antisymm hi (Call.numThreads_le_natCast.mp hge)
    exact ⟨inp, rfl, hpos, hrunning, hlen, hexit⟩
  | worker ha => cases ha
  | _ => simp_all

/-- The calling thread is in the writer or behind it. -/
def Caller.Finishing (caller : Caller) : Prop :=
  (∃ q p, caller = .save q p) ∨ ∃ r, caller.Leaving r

/-- Once all workers have exited, only the calling thread moves. -/
lemma step_of_finishing (hpc : s.caller.Finishing) (hexit : ∀ w ∈ s.workers, ∃ r, w.pc = .exited r)
    {a : Act} (hstep : d.step c s a = some s') :
    a = .caller ∧ s'.caller.Finishing ∧ s'.workers = s.workers := by
  cases Syscall.move_of_step hstep with
  | saveCall hpc' => exact ⟨rfl, Or.inl ⟨_, _, rfl⟩, rfl⟩
  | saveDone hpc' => exact ⟨rfl, Or.inr ⟨_, Or.inl ⟨_, rfl⟩⟩, rfl⟩
  | free hpc' => exact ⟨rfl, Or.inr ⟨_, Or.inl ⟨_, rfl⟩⟩, rfl⟩
  | finish hpc' => exact ⟨rfl, Or.inr ⟨_, Or.inr rfl⟩, rfl⟩
  | worker ha hw hmove =>
    obtain ⟨r, hr⟩ := hexit _ (List.mem_of_getElem? hw)
    exact absurd hr (hmove.not_exited r)
  | _ => simp_all [Caller.Finishing, Caller.Leaving]

/-- The same along a whole run. -/
lemma run_of_finishing (hpc : s.caller.Finishing) (hexit : ∀ w ∈ s.workers, ∃ r, w.pc = .exited r)
    {acts' : List Act} (hrun : run (d.step c) s acts' = some s') : ∀ a ∈ acts', a = .caller := by
  induction acts' generalizing s with
  | nil => simp
  | cons b acts' ih =>
    obtain ⟨t, hstep, hrest⟩ := Option.bind_eq_some_iff.mp hrun
    obtain ⟨rfl, hpc', hws⟩ := step_of_finishing hpc hexit hstep
    have htail := ih hpc' (hws ▸ hexit) hrest
    simpa using htail

end Handed

/-! ## All buffers that can be written -/

/-- Steered workers have passed as many bytes as they were told to. -/
lemma passed_workersAt {c : Call} {fs : FileSystem} (inp : Inputs c fs) (m : ℕ → ℕ) {i : ℕ}
    (hi : i < c.threads) : passed inp (inp.workersAt m c.threads) i = m i := by
  rw [passed, inp.getElem?_workersAt m _ hi, if_pos hi, Option.elim_some, stoppedWorker,
    Nat.add_sub_cancel_left]

/-- Only the chunks below the number of threads matter. -/
lemma xorLeading_congr {D K : List UInt8} {n : ℕ} {p p' : ℕ → ℕ} (h : ∀ i < n, p i = p' i) :
    xorLeading D K n p = xorLeading D K n p' := by
  have hiff : ∀ j, (∃ i < n, chunkStart D.length n i ≤ j ∧ j < chunkStart D.length n i + p i) ↔
      ∃ i < n, chunkStart D.length n i ≤ j ∧ j < chunkStart D.length n i + p' i := by
    intro j
    refine exists_congr fun i => and_congr_right fun hi => ?_
    rw [h i hi]
  unfold xorLeading
  simp only [hiff]

/-- The buffers that can reach the writer are exactly those in which every worker has XORed some
leading part of its chunk, once and at its absolute position, and nothing else has changed; and no
worker takes a step once the writer has started. -/
theorem handed_buffers (d : Syscall) {c : Call} {k₀ : Kernel} (inp : Inputs c k₀.fs)
    (hstart : c.StartsWorkers) (hfree : k₀.holder d.lock = none)
    (hdata : c.transferred .data inp.data.size = inp.data.size)
    (hkey : c.transferred .key inp.key.size = inp.key.size) :
    {b | ∃ acts q s, d.StartsSave c k₀ acts q s ∧ s.kernel.bytesAt q.fileData = b} =
        {b | ∃ p : ℕ → ℕ, (∀ i < c.threads, p i ≤
          chunkEnd inp.data.size c.threads i - chunkStart inp.data.size c.threads i) ∧
          b = xorLeading inp.data.bytes inp.key.bytes c.threads p} ∧
      ∀ acts q s, d.StartsSave c k₀ acts q s →
        ∀ acts' t, run (d.step c) s acts' = some t → ∀ a ∈ acts', a = .caller := by
  have hD : inp.dataBuffer = inp.data.bytes := c.loaded_of_transferred .data inp.data hdata
  have hK : inp.keyBuffer = inp.key.bytes := c.loaded_of_transferred .key inp.key hkey
  refine ⟨Set.Subset.antisymm ?_ ?_, ?_⟩
  · rintro b ⟨acts, q, s, hsave, rfl⟩
    obtain ⟨inp', rfl, -, hrunning, hlen, -⟩ := hsave.running
    obtain rfl := Subsingleton.elim inp inp'
    refine ⟨passed inp s.workers, fun i _ => passed_le hrunning.worker_ok i, ?_⟩
    have hbuffer := buffer_eq_xorLeading hrunning.worker_ok hlen
    rw [hD, hK] at hbuffer
    exact hrunning.data_eq.trans hbuffer
  · rintro b ⟨p, hp, rfl⟩
    have hm : ∀ i < c.threads,
        chunkStart inp.data.size c.threads i + p i ≤ chunkEnd inp.data.size c.threads i := by
      intro i hi
      have hle := chunkStart_le_chunkEnd (L := inp.data.size) hi
      have := hp i hi
      omega
    obtain ⟨acts, k, hrun⟩ := exists_run_stopped d inp hstart hfree p hm
    have hsave : d.StartsSave c k₀ acts inp.prepared _ :=
      ⟨_, _, hrun, rfl, step_stopDone d inp k _, rfl⟩
    obtain ⟨inp', -, -, hrunning, hlen, -⟩ := hsave.running
    obtain rfl := Subsingleton.elim inp inp'
    refine ⟨acts, inp.prepared, _, hsave, ?_⟩
    have hbuffer := buffer_eq_xorLeading hrunning.worker_ok hlen
    rw [hD, hK, xorLeading_congr fun i hi => passed_workersAt inp p hi] at hbuffer
    exact hrunning.data_eq.trans hbuffer
  · intro acts q s hsave acts' t hrun
    obtain ⟨inp', rfl, -, -, hlen, hexit⟩ := hsave.running
    obtain ⟨-, -, -, -, -, hpc⟩ := hsave
    refine run_of_finishing (Or.inl ⟨_, _, hpc⟩) (fun w hw => ?_) hrun
    obtain ⟨i, hi⟩ := List.mem_iff_getElem?.mp hw
    exact hexit i w hi (hlen ▸ (List.getElem?_eq_some_iff.mp hi).1)

/-- Two workers on three bytes, of which only the first one gets to work. -/
theorem handed_buffers_sample :
    [4, 2, 3] ∈ {b | ∃ acts q s, Syscall.encrypt.StartsSave (sampleCall 2) (.idle sampleFiles) acts
      q s ∧ s.kernel.bytesAt q.fileData = b} := by
  rw [(handed_buffers .encrypt (sampleInputs 2)
    (sampleCall_startsWorkers (by decide) (by decide)) rfl (by decide) (by decide)).1]
  exact ⟨fun i => 1 - i, by decide, by decide⟩

/-- If all workers return `0`, the buffer that reaches the writer is the result of the sequential
loop on what was read, for every number of threads and every schedule. -/
theorem handed_eq_xorReference {d : Syscall} {c : Call} {k₀ : Kernel} {acts : List Act}
    {q : Prepared} {s : State} (hsave : d.StartsSave c k₀ acts q s)
    (hzero : ∀ w ∈ s.workers, w.pc = .exited 0) (inp : Inputs c k₀.fs) {D K : List UInt8}
    (hD : inp.dataBuffer = D) (hK : inp.keyBuffer = K) :
    s.kernel.bytesAt q.fileData = xorReference D K := by
  obtain ⟨inp', rfl, hpos, hrunning, hlen, -⟩ := hsave.running
  obtain rfl := Subsingleton.elim inp inp'
  rw [xorReference_eq, ← hD, ← hK]
  exact hrunning.data_eq.trans (buffer_eq_xorCipher hrunning.worker_ok hpos hlen hzero)

/-- Five workers on three bytes, all of which return `0`. -/
theorem handed_eq_xorReference_sample :
    ∃ acts q s, Syscall.decrypt.StartsSave (sampleCall 5) (.idle sampleFiles) acts q s ∧
      s.kernel.bytesAt q.fileData = xorReference [1, 2, 3] [5] := by
  obtain ⟨acts, k, hrun⟩ := exists_run_stopped .decrypt (sampleInputs 5)
    (sampleCall_startsWorkers (by decide) (by decide)) rfl (sampleInputs 5).chunkLength
    (fun i hi => ((sampleInputs 5).chunkStart_add_chunkLength hi).le)
  have hsave : Syscall.decrypt.StartsSave (sampleCall 5) (.idle sampleFiles) acts
      (sampleInputs 5).prepared _ :=
    ⟨_, _, hrun, rfl, step_stopDone .decrypt (sampleInputs 5) k _, rfl⟩
  exact ⟨acts, _, _, hsave, handed_eq_xorReference hsave
    (fun w hw => (sampleInputs 5).exited_zero_of_mem_workersAt hw) (sampleInputs 5) (by decide)
    (by decide)⟩

end XorSyscalls
