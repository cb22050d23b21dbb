import XorSyscalls.Syscall.Output

/-!
# When a stopped call has encrypted everything

The calling thread stops its workers right after it has created them, and a worker that is told to
stop leaves the rest of its chunk alone.  `destination_complete_iff` says when a call that returns
`0` has nevertheless XORed every byte: iff `kthread_stop` is called for each worker only when all
that the worker would leave alone meets zero bytes of the key.
-/

namespace XorSyscalls

open TransitionSystem

/-- The first position that a worker leaves alone if it is told to stop now.  A byte that has passed
the test is still XORed. -/
def Worker.pendingFrom (w : Worker) : ℕ := if w.pc = .xoring then w.idx + 1 else w.idx

/-- All bytes of its range that a worker with the arguments `a` leaves alone if it is told to stop
now meet a zero byte of the key `K`. -/
def Worker.Settled (K : List UInt8) (a : WorkerArgs) (w : Worker) : Prop :=
  ∀ j, w.pendingFrom ≤ j → j < a.rangeEnd → K.getD (j % K.length) 0 = 0

/-- If the action `act` in the state `s` is the start of `kthread_stop` for a worker, this worker is
settled. -/
def StopSettled (K : List UInt8) (s : State) (act : Act) : Prop :=
  ∀ q i w a, act = .caller → s.caller = .stop q i → s.workers[i]? = some w →
    s.kernel.loadArgs w.params = some a → w.Settled K a

section Steps

variable {c : Call} {fs : FileSystem} {inp : Inputs c fs} {K : List UInt8} {ws : List Worker}
  {lock : Mutex} {task i : ℕ} {k k' : Kernel} {w w' : Worker}

/-- All workers that have been told to stop are settled. -/
def FlaggedSettled (K : List UInt8) (inp : Inputs c fs) (ws : List Worker) : Prop :=
  ∀ (i : ℕ) (w : Worker), ws[i]? = some w → w.shouldStop = true → w.Settled K (inp.argsOf i)

/-- A worker that has been told to stop finishes at most the byte that has passed the test. -/
lemma WorkerOk.pendingFrom_eq (h : WorkerOk inp i w) (hi : i < c.threads)
    (hm : RegularMove lock task i (inp.argsOf i) k w k' w') (hstop : w.shouldStop = true) :
    w'.pendingFrom = w.pendingFrom := by
  have hok := h.pc_ok
  unfold Worker.PcOk at hok
  unfold Worker.pendingFrom
  cases hm with
  | start _ hfalse | test _ _ hfalse => simp [hstop] at hfalse
  | enter hpc =>
    rw [hpc] at hok
    simpa [hpc] using hok.symm
  | xor hpc hkey =>
    rw [hpc] at hok
    simpa [hpc] using h.sizeAdd_idx hi hok
  | oops hpc hkey => exact absurd hkey inp.key_pos.ne'
  | startStopped hpc _ | lock hpc _ | interrupt hpc _ | testStopped hpc _ _ | testDone hpc _
  | unlock hpc | exit hpc => simp [hpc]

/-- Telling a worker to stop does not change what it would leave alone. -/
lemma settled_stop {a : WorkerArgs} : w.stop.Settled K a ↔ w.Settled K a := Iff.rfl

/-- The moves of the workers do not matter. -/
lemma flaggedSettled_set (hw : ws[i]? = some w) (hstop : w'.shouldStop = w.shouldStop)
    (hsame : w.shouldStop = true → w'.pendingFrom = w.pendingFrom) :
    FlaggedSettled K inp (ws.set i w') ↔ FlaggedSettled K inp ws := by
  have hself : (ws.set i w')[i]? = some w' :=
    List.getElem?_set_self (List.getElem?_eq_some_iff.mp hw).1
  have hiff : w.shouldStop = true →
      (w'.Settled K (inp.argsOf i) ↔ w.Settled K (inp.argsOf i)) := by
    intro h
    unfold Worker.Settled
    rw [hsame h]
  constructor
  · intro h j v hv hflag
    rcases eq_or_ne i j with rfl | hne
    · obtain rfl : w = v := Option.some_inj.mp (hw.symm.trans hv)
      exact (hiff hflag).mp (h i w' hself (hstop.trans hflag))
    · exact h j v (by rwa [List.getElem?_set_ne hne]) hflag
  · intro h j v hv hflag
    rcases getElem?_set_cases hv with ⟨rfl, rfl⟩ | ⟨-, hv⟩
    · have hflag' := hstop.symm.trans hflag
      exact (hiff hflag').mpr (h j w hw hflag')
    · exact h j v hv hflag

/-- A new worker has not been told to stop. -/
lemma flaggedSettled_append_new (p : ArgsPtr) (n : ℕ) :
    FlaggedSettled K inp (ws ++ [Worker.new p n]) ↔ FlaggedSettled K inp ws := by
  constructor
  · intro h j v hv hstop
    refine h j v ?_ hstop
    rw [List.getElem?_append_left (List.getElem?_eq_some_iff.mp hv).1, hv]
  · intro h j v hv hstop
    rcases getElem?_concat_cases hv with ⟨-, rfl⟩ | hv
    · cases hstop
    · exact h j v hv hstop

/-- `kthread_stop` adds one worker to those told to stop. -/
lemma flaggedSettled_modify_stop (hflag : FlaggedBelow ws i) :
    FlaggedSettled K inp (ws.modify i Worker.stop) ↔
      FlaggedSettled K inp ws ∧ ∀ w, ws[i]? = some w → w.Settled K (inp.argsOf i) := by
  constructor
  · intro h
    refine ⟨fun j v hv hstop => ?_, fun w hw => ?_⟩
    · have hne : i ≠ j := ((hflag j v hv).mp hstop).ne'
      exact h j v (by simp [hv, hne]) hstop
    · have hget : (ws.modify i Worker.stop)[i]? = some w.stop := by
        simp [hw]
      exact settled_stop.mp (h i w.stop hget rfl)
  · rintro ⟨h, hnew⟩ j v hv hstop
    rw [List.getElem?_modify] at hv
    obtain ⟨u, hu, rfl⟩ := Option.map_eq_some_iff.mp hv
    split at hstop
    · rename_i hij
      subst hij
      rw [if_pos rfl]
      exact settled_stop.mpr (hnew u hu)
    · rename_i hij
      rw [if_neg hij]
      exact h j u hu hstop

end Steps

section Runs

variable {d : Syscall} {c : Call} {k₀ : Kernel} {s s' : State} {K : List UInt8}

/-- Only the start of a `kthread_stop` can spoil a step. -/
lemma stopSettled_of_no_worker (a : Act)
    (h : ∀ q i, s.caller = .stop q i → s.workers[i]? = none) : StopSettled K s a := by
  intro q i w args _ hpc hw
  rw [h q i hpc] at hw
  cases hw

/-- A move of a worker settles or unsettles nobody who has been told to stop. -/
lemma flaggedSettled_worker (h : Inv d c k₀ s) (inp : Inputs c k₀.fs) {i : ℕ} {w w' : Worker}
    {k' : Kernel} (hw : s.workers[i]? = some w)
    (hm : WorkerMove d.lock c.task i s.kernel w k' w') :
    FlaggedSettled K inp (s.workers.set i w') ↔ FlaggedSettled K inp s.workers := by
  refine flaggedSettled_set hw hm.shouldStop_eq fun hstop => ?_
  rcases h.running_or_left hw hm with ⟨inp', hrun⟩ | hflag
  · exact (hrun.worker_ok i w hw).pendingFrom_eq (hrun.lt_threads hw) (hrun.toRegular hw hm) hstop
  · exact absurd ((hflag i w hw).mp hstop) (Nat.not_lt_zero i)

/-- The workers told to stop after a step are settled iff those before it were and the step was
good. -/
lemma flaggedSettled_step (h : Inv d c k₀ s) (inp : Inputs c k₀.fs) {a : Act}
    (hstep : d.step c s a = some s') :
    FlaggedSettled K inp s'.workers ↔ FlaggedSettled K inp s.workers ∧ StopSettled K s a := by
  have hfree : (∀ q i, s.caller ≠ .stop q i) → StopSettled K s a := fun hne =>
    stopSettled_of_no_worker a fun q i hpc => absurd hpc (hne q i)
  cases Syscall.move_of_step hstep with
  | create hpc hlt hrun =>
    rw [flaggedSettled_append_new, iff_self_and]
    exact fun _ => hfree (by simp [hpc])
  | stop hpc hlt =>
    obtain ⟨inp', -, -, hrun, -, -, hflag, -⟩ := h.at_stop hpc
    obtain rfl := Subsingleton.elim inp inp'
    rw [flaggedSettled_modify_stop hflag]
    refine and_congr_right fun _ => ⟨fun hset q' i' w args _ hpc' hw hargs => ?_,
      fun hset w hw => hset _ _ w _ rfl hpc hw (hrun.provides hw).args⟩
    cases hpc.symm.trans hpc'
    obtain rfl := Option.some_inj.mp ((hrun.provides hw).args.symm.trans hargs)
    exact hset w hw
  | stopDone hpc hge =>
    obtain ⟨inp', -, -, -, hlen, -, -, -⟩ := h.at_stop hpc
    rw [iff_self_and]
    refine fun _ => stopSettled_of_no_worker _ fun q' i' hpc' => ?_
    cases hpc.symm.trans hpc'
    exact List.getElem?_eq_none (hlen.trans_le (Call.numThreads_le_natCast.mp hge))
  | worker ha hw hmove =>
    rw [flaggedSettled_worker h inp hw hmove, iff_self_and]
    rintro _ q i w args rfl
    cases ha
  | _ =>
    rw [iff_self_and]
    exact fun _ => hfree (by simp_all)

/-- All steps of a run were good iff all workers told to stop so far are settled. -/
lemma allSteps_stopSettled_iff (inp : Inputs c k₀.fs) {acts : List Act}
    (hrun : d.Run c k₀ acts s) :
    AllSteps (d.step c) (StopSettled K) (State.start d c k₀) acts ↔
      FlaggedSettled K inp s.workers := by
  refine run_induction (motive := fun acts s =>
    AllSteps (d.step c) (StopSettled K) (State.start d c k₀) acts ↔
      FlaggedSettled K inp s.workers)
    ?_ (fun acts t a t' ht ih hstep => ?_) hrun
  · refine iff_of_true (allSteps_nil _) fun i w hw => ?_
    simp [State.start] at hw
  · rw [allSteps_concat ht, ih, flaggedSettled_step (Inv.of_run ht) inp hstep]

end Runs

/-! ## The output of a stopped call -/

/-- When the output has been written, the workers are settled iff every byte that was left alone
meets a zero byte of the key. -/
lemma Saved.flaggedSettled_iff {c : Call} {fs : FileSystem} {inp : Inputs c fs} {s : State} {r : ℤ}
    (h : Saved inp s r) (K : List UInt8) :
    FlaggedSettled K inp s.workers ↔
      ∀ j < inp.data.size, j ∉ touched inp s.workers → K.getD (j % K.length) 0 = 0 := by
  have hidx : ∀ (i : ℕ) (w : Worker), s.workers[i]? = some w →
      w.shouldStop = true ∧ w.pendingFrom = w.idx := by
    intro i w hw
    have hi : i < c.threads := h.length_eq ▸ (List.getElem?_eq_some_iff.mp hw).1
    obtain ⟨r', hr'⟩ := h.exited i w hw hi
    exact ⟨(h.flagged i w hw).mpr hi, by simp [Worker.pendingFrom, hr']⟩
  constructor
  · intro hset j hj hnot
    obtain ⟨i, hi, hstart, hend⟩ := exists_chunk h.ready.threads_pos hj
    obtain ⟨w, hw⟩ : ∃ w, s.workers[i]? = some w :=
      ⟨_, List.getElem?_eq_getElem (h.length_eq ▸ hi)⟩
    obtain ⟨hstop, hpending⟩ := hidx i w hw
    refine hset i w hw hstop j ?_ hend
    rw [hpending]
    by_contra hlt
    exact hnot ⟨i, w, hw, hstart, not_le.mp hlt⟩
  · intro hzero i w hw _ j hj hlt
    have hi : i < c.threads := h.length_eq ▸ (List.getElem?_eq_some_iff.mp hw).1
    rw [(hidx i w hw).2] at hj
    exact hzero j (hlt.trans_le (Inputs.rangeEnd_le hi))
      (h.worker_ok.not_mem_touched h.length_eq.le hw hj hlt)

/-- A call that returns `0` has XORed every byte of the data iff `kthread_stop` was called for each
worker only when all bytes that the worker then left alone meet zero bytes of the key. -/
theorem destination_complete_iff {d : Syscall} {c : Call} {k₀ : Kernel} {acts : List Act}
    {s : State} {src dest key : Path} {D K : File} (hrun : d.Run c k₀ acts s)
    (hret : s.caller = .returned 0) (hnames : c.Names src dest key) (hD : k₀.fs src = some D)
    (hK : k₀.fs key = some K) (hall : c.TransfersAll D K) :
    (∃ f, s.kernel.fs dest = some f ∧ ∀ j < D.size,
        f.bytes[j]? = D.bytes[j]?.map fun v => v ^^^ K.bytes.getD (j % K.size) 0) ↔
      AllSteps (d.step c) (StopSettled K.bytes) (State.start d c k₀) acts := by
  obtain ⟨inp, hsaved⟩ := (Inv.of_run hrun).saved_of_zero hret
  have hfs := hsaved.fs_eq_of_transfersAll hnames hD hK hall
  obtain ⟨rfl, rfl, rfl⟩ := inp.eq_of_names hnames hD hK
  have hlen := length_buffer inp s.workers
  have hdata : inp.dataBuffer = inp.data.bytes := c.loaded_of_transferred _ _ hall.data
  have hkey : inp.keyBuffer = inp.key.bytes := c.loaded_of_transferred _ _ hall.key
  -- below the size of the data the destination is the buffer
  have hbytes : ∀ j < inp.data.size,
      (((k₀.fs (c.pathAt .out inp.destFile)).getD .empty).overwrite
        (inp.buffer s.workers)).bytes[j]? = (inp.buffer s.workers)[j]? := by
    intro j hj
    rw [File.bytes_overwrite _ (hlen.trans_le inp.data.size_le),
      List.getElem?_append_left (hlen ▸ hj)]
  rw [allSteps_stopSettled_iff inp hrun, hsaved.flaggedSettled_iff, hfs, Function.update_self]
  simp only [Option.some_inj, exists_eq_left']
  refine forall₂_congr fun j hj => ?_
  rw [hbytes j hj, Inputs.buffer, hdata, hkey]
  obtain ⟨v, hv⟩ : ∃ v, inp.data.bytes[j]? = some v := ⟨_, List.getElem?_eq_getElem hj⟩
  by_cases hmem : j ∈ touched inp s.workers
  · rw [getElem?_maskMap_of_mem hmem]
    exact iff_of_true rfl fun hnot => absurd hmem hnot
  · rw [getElem?_maskMap_of_not_mem hmem, hv, Option.map_some, Option.some_inj, eq_comm]
    exact xorAt_eq_self_iff.trans ⟨fun h _ => h, fun h => h hmem⟩

/-- A schedule in which the only worker is told to stop before it has run at all. -/
def earlyStop : List Act :=
  List.replicate 21 .caller ++ [.worker 0, .worker 0] ++ List.replicate 11 .caller

/-- A worker that is stopped before it has run leaves the data in the clear, and the call
returns `0`. -/
theorem early_stop_leaves_plaintext :
    ∃ s, Syscall.encrypt.Run (sampleCall 1) (.idle sampleFiles) earlyStop s ∧
      s.caller = .returned 0 ∧ (sampleCall 1).Names [97] [98] [107] ∧
      (sampleCall 1).TransfersAll ⟨[1, 2, 3], by decide⟩ ⟨[5], by decide⟩ ∧
      sampleFiles [98] = none ∧ (s.kernel.fs [98]).map File.bytes = some [1, 2, 3] ∧
      xorCipher [1, 2, 3] [5] = [4, 7, 6] := by
  have hout : Syscall.encrypt.outcome (sampleCall 1) (.idle sampleFiles) earlyStop [98] =
      some (some 0, [.exited Errno.eintr.ret], some [1, 2, 3]) := by
    decide +kernel
  obtain ⟨s, hrun, hret, -, hfile⟩ := Syscall.exists_run_of_outcome hout
  exact ⟨s, hrun, hret, sampleCall_names 1, sampleCall_transfersAll 1, rfl, hfile, by decide⟩

/-- A worker that has finished its bytes is stopped without harm. -/
theorem destination_complete_sample :
    AllSteps (Syscall.encrypt.step (sampleCall 1)) (StopSettled [5])
      (State.start .encrypt (sampleCall 1) (.idle sampleFiles)) sampleSchedule := by
  obtain ⟨s, hrun, hret, -, hfile⟩ := Syscall.exists_run_of_outcome sampleCall_outcome
  obtain ⟨f, hf, hbytes⟩ := Option.map_eq_some_iff.mp hfile
  refine (destination_complete_iff hrun hret (sampleCall_names 1) rfl rfl
    (sampleCall_transfersAll 1)).mp ⟨f, hf, ?_⟩
  rw [hbytes]
  decide

end XorSyscalls
