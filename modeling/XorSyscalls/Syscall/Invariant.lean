import XorSyscalls.Syscall.Workers

/-!
# The invariant of a system call

`Inv` describes the reachable states of one system call phase by phase: what the calling thread
has still to do, which workers exist, which of them are flagged and which have exited, and what the
buffer and the files hold.  `Inv.step` proves that every move keeps it and `Inv.of_run` that it
holds in every state of every run.
-/

namespace XorSyscalls

open TransitionSystem

/-! ## Facts about single moves -/

namespace WorkerMove

variable {lock : Mutex} {task i : ℕ} {k k' : Kernel} {w w' : Worker}

/-- A worker does not touch its stop flag. -/
lemma shouldStop_eq (h : WorkerMove lock task i k w k' w') : w'.shouldStop = w.shouldStop := by
  cases h with
  | regular a ha hmove => cases hmove <;> rfl
  | stray e hmiss hstep => exact (worker_of_strayStep hmiss hstep).2.1
  | fault hmiss => rfl

/-- A worker that has exited does not move. -/
lemma not_exited (h : WorkerMove lock task i k w k' w') (r : ℤ) : w.pc ≠ .exited r := by
  intro hpc
  have hacc : ¬ w.pc.Accesses := by
    rw [hpc]
    exact id
  cases h with
  | regular a ha hmove => cases hmove <;> simp_all
  | stray e hmiss hstep => exact hacc hmiss.accesses
  | fault hmiss => exact hacc hmiss.accesses

/-- A worker that was killed does not move. -/
lemma not_oops (h : WorkerMove lock task i k w k' w') : w.pc ≠ .oops := by
  intro hpc
  have hacc : ¬ w.pc.Accesses := by
    rw [hpc]
    exact id
  cases h with
  | regular a ha hmove => cases hmove <;> simp_all
  | stray e hmiss hstep => exact hacc hmiss.accesses
  | fault hmiss => exact hacc hmiss.accesses

/-- A worker does not touch the files. -/
lemma fs_eq (h : WorkerMove lock task i k w k' w') : k'.fs = k.fs := by
  cases h with
  | regular a ha hmove =>
    cases hmove with
    | xor => exact Kernel.storeByte_fs ..
    | _ => rfl
  | stray e hmiss hstep => exact (strayed_of_workerStep hmiss hstep).fs
  | fault hmiss => rfl

end WorkerMove

/-! ## Flags and exits -/

/-- Exactly the workers before `m` have been told to stop. -/
def FlaggedBelow (ws : List Worker) (m : ℕ) : Prop :=
  ∀ (i : ℕ) (w : Worker), ws[i]? = some w → (w.shouldStop = true ↔ i < m)

/-- All workers before `m` have exited. -/
def ExitedBelow (ws : List Worker) (m : ℕ) : Prop :=
  ∀ (i : ℕ) (w : Worker), ws[i]? = some w → i < m → ∃ r, w.pc = .exited r

section Flags

variable {lock : Mutex} {task i m : ℕ} {k k' : Kernel} {w w' : Worker} {ws : List Worker}

lemma FlaggedBelow.move (h : FlaggedBelow ws m) (hw : ws[i]? = some w)
    (hm : WorkerMove lock task i k w k' w') : FlaggedBelow (ws.set i w') m :=
  forall_getElem?_set h (by rw [hm.shouldStop_eq]; exact h i w hw)

lemma ExitedBelow.move (h : ExitedBelow ws m) (hw : ws[i]? = some w)
    (hm : WorkerMove lock task i k w k' w') : ExitedBelow (ws.set i w') m := by
  refine forall_getElem?_set h fun hi => ?_
  obtain ⟨r, hr⟩ := h i w hw hi
  exact absurd hr (hm.not_exited r)

/-- A new worker is not flagged. -/
lemma FlaggedBelow.create (h : FlaggedBelow ws 0) (p : ArgsPtr) (n : ℕ) :
    FlaggedBelow (ws ++ [Worker.new p n]) 0 :=
  forall_getElem?_concat h (by simp [Worker.new])

/-- `kthread_stop` flags the next worker. -/
lemma FlaggedBelow.stop (h : FlaggedBelow ws m) :
    FlaggedBelow (ws.modify m Worker.stop) (m + 1) := by
  intro j v hv
  rcases getElem?_modify_cases hv with ⟨rfl, u, hu, rfl⟩ | ⟨hne, hv⟩
  · simp [Worker.stop]
  · rw [h j v hv]
    omega

/-- Flags do not matter for exits. -/
lemma ExitedBelow.stop (h : ExitedBelow ws m) : ExitedBelow (ws.modify m Worker.stop) m :=
  forall_getElem?_modify h fun _ hw => hw

/-- `kthread_stop` has waited for the next worker. -/
lemma ExitedBelow.wait (h : ExitedBelow ws m) (hw : ws[m]? = some w) {r : ℤ}
    (hr : w.pc = .exited r) : ExitedBelow ws (m + 1) := by
  intro j v hv hj
  rcases Nat.lt_succ_iff_lt_or_eq.mp hj with hj | rfl
  · exact h j v hv hj
  · obtain rfl : w = v := Option.some_inj.mp (hw.symm.trans hv)
    exact ⟨r, hr⟩

end Flags

/-! ## The phases -/

/-- The calling thread is behind the label `cleanup` or has returned from there with `r`. -/
def Caller.Leaving (caller : Caller) (r : ℤ) : Prop :=
  (∃ frees, caller = .cleanup frees r) ∨ caller = .returned r

/-- The buffer when the workers have passed the positions they have. -/
noncomputable def Inputs.buffer {c : Call} {fs : FileSystem} (inp : Inputs c fs)
    (ws : List Worker) : List UInt8 :=
  maskMap (touched inp ws) (xorAt inp.keyBuffer) inp.dataBuffer

/-- The output has been written with the result `r`: all workers were created, stopped and waited
for, and return value and files are those of the writer on the buffer they left. -/
structure Saved {c : Call} {fs : FileSystem} (inp : Inputs c fs) (s : State) (r : ℤ) : Prop where
  ready : c.Ready
  worker_ok : WorkersOk inp s.workers
  length_eq : s.workers.length = c.threads
  flagged : FlaggedBelow s.workers c.threads
  exited : ExitedBelow s.workers c.threads
  result : c.saveResult inp.destFile (inp.buffer s.workers) inp.data.size fs = (r, s.kernel.fs)

/-- The states of a system call that was entered in the kernel state `k₀`. -/
inductive Inv (d : Syscall) (c : Call) (k₀ : Kernel) (s : State) : Prop
  /-- The rest of the code in front of the division will end like the whole of it. -/
  | entry (p : KProgram (Except ℤ Prepared)) (hpc : s.caller = .entry p) (hws : s.workers = [])
      (heval : p.eval c.exec s.kernel = (prepare d c.args).eval c.exec k₀)
  /-- The system call returned before it created any worker. -/
  | early (e : Errno) (hpc : s.caller = .returned e.ret) (hws : s.workers = [])
      (hfs : s.kernel.fs = k₀.fs)
  /-- At the division. -/
  | segment (inp : Inputs c k₀.fs) (hpc : s.caller = .segment inp.prepared) (hws : s.workers = [])
      (harr : c.ArraysAllocated) (hk : s.kernel = inp.kernel k₀)
  /-- The division was by zero. -/
  | oops (hpc : s.caller = .oops) (hws : s.workers = [])
      (hn : toSizeT c.args.numThreads.toInt = 0)
  /-- In the creation loop. -/
  | create (inp : Inputs c k₀.fs) (i : ℕ)
      (hpc : s.caller = .create inp.prepared (inp.data.size / c.threads) i
        (i * (inp.data.size / c.threads)))
      (hn : c.Ready) (hrun : Running inp s.kernel s.workers)
      (hlen : s.workers.length = i) (hflag : FlaggedBelow s.workers 0)
  /-- In the stop loop. -/
  | stop (inp : Inputs c k₀.fs) (i : ℕ) (hpc : s.caller = .stop inp.prepared i)
      (hn : c.Ready) (hrun : Running inp s.kernel s.workers)
      (hlen : s.workers.length = c.threads) (hi : i ≤ c.threads)
      (hflag : FlaggedBelow s.workers i) (hexit : ExitedBelow s.workers i)
  /-- Waiting in `kthread_stop`. -/
  | wait (inp : Inputs c k₀.fs) (i : ℕ) (hpc : s.caller = .wait inp.prepared i)
      (hn : c.Ready) (hrun : Running inp s.kernel s.workers)
      (hlen : s.workers.length = c.threads) (hi : i < c.threads)
      (hflag : FlaggedBelow s.workers (i + 1)) (hexit : ExitedBelow s.workers i)
  /-- The rest of the writer will end like the whole of it. -/
  | save (inp : Inputs c k₀.fs) (k : Kernel) (p : KProgram ℤ)
      (hpc : s.caller = .save inp.prepared p) (hn : c.Ready)
      (hrun : Running inp k s.workers) (hlen : s.workers.length = c.threads)
      (hflag : FlaggedBelow s.workers c.threads) (hexit : ExitedBelow s.workers c.threads)
      (heval : p.eval c.exec s.kernel =
        (d.save inp.destFile (.block (c.blockAt .data)) inp.data.size).eval c.exec k)
  /-- The writer is done. -/
  | saved (inp : Inputs c k₀.fs) (r : ℤ) (hpc : s.caller.Leaving r) (hsaved : Saved inp s r)
  /-- A worker could not be created; the earlier ones still run. -/
  | failed (inp : Inputs c k₀.fs) (e : Errno) (hpc : s.caller.Leaving e.ret)
      (hn : c.Ready) (hlen : s.workers.length < c.threads)
      (herr : c.env.threadError s.workers.length = some e)
      (hflag : FlaggedBelow s.workers 0) (hfs : s.kernel.fs = k₀.fs)

namespace Inv

variable {d : Syscall} {c : Call} {k₀ : Kernel} {s s' : State}

/-- The invariant holds at the entry. -/
lemma start (d : Syscall) (c : Call) (k₀ : Kernel) : Inv d c k₀ (State.start d c k₀) :=
  .entry (prepare d c.args) (by rw [State.start, d.prepares_eq]) rfl rfl

/-! ### The invariant at a given program point -/

/-- In front of the division. -/
lemma at_entry (h : Inv d c k₀ s) {p : KProgram (Except ℤ Prepared)}
    (hpc : s.caller = .entry p) :
    s.workers = [] ∧ p.eval c.exec s.kernel = (prepare d c.args).eval c.exec k₀ := by
  cases h with
  | entry p' hpc' hws heval =>
    cases hpc.symm.trans hpc'
    exact ⟨hws, heval⟩
  | saved _ _ hpc' | failed _ _ hpc' => simp [Caller.Leaving, hpc] at hpc'
  | _ => simp_all

/-- At the division. -/
lemma at_segment (h : Inv d c k₀ s) {q : Prepared} (hpc : s.caller = .segment q) :
    ∃ inp : Inputs c k₀.fs, q = inp.prepared ∧ s.workers = [] ∧ c.ArraysAllocated ∧
      s.kernel = inp.kernel k₀ := by
  cases h with
  | segment inp hpc' hws harr hk =>
    cases hpc.symm.trans hpc'
    exact ⟨inp, rfl, hws, harr, hk⟩
  | saved _ _ hpc' | failed _ _ hpc' => simp [Caller.Leaving, hpc] at hpc'
  | _ => simp_all

/-- In the creation loop. -/
lemma at_create (h : Inv d c k₀ s) {q : Prepared} {seg i off : ℕ}
    (hpc : s.caller = .create q seg i off) :
    ∃ inp : Inputs c k₀.fs, q = inp.prepared ∧ seg = inp.data.size / c.threads ∧ off = i * seg ∧
      c.Ready ∧ Running inp s.kernel s.workers ∧ s.workers.length = i ∧
      FlaggedBelow s.workers 0 := by
  cases h with
  | create inp i hpc' hn hrun hlen hflag =>
    cases hpc.symm.trans hpc'
    exact ⟨inp, rfl, rfl, rfl, hn, hrun, hlen, hflag⟩
  | saved _ _ hpc' | failed _ _ hpc' => simp [Caller.Leaving, hpc] at hpc'
  | _ => simp_all

/-- At the head of the stop loop. -/
lemma at_stop (h : Inv d c k₀ s) {q : Prepared} {i : ℕ} (hpc : s.caller = .stop q i) :
    ∃ inp : Inputs c k₀.fs, q = inp.prepared ∧ c.Ready ∧
      Running inp s.kernel s.workers ∧ s.workers.length = c.threads ∧ i ≤ c.threads ∧
      FlaggedBelow s.workers i ∧ ExitedBelow s.workers i := by
  cases h with
  | stop inp i hpc' hn hrun hlen hi hflag hexit =>
    cases hpc.symm.trans hpc'
    exact ⟨inp, rfl, hn, hrun, hlen, hi, hflag, hexit⟩
  | saved _ _ hpc' | failed _ _ hpc' => simp [Caller.Leaving, hpc] at hpc'
  | _ => simp_all

/-- Inside `kthread_stop`. -/
lemma at_wait (h : Inv d c k₀ s) {q : Prepared} {i : ℕ} (hpc : s.caller = .wait q i) :
    ∃ inp : Inputs c k₀.fs, q = inp.prepared ∧ c.Ready ∧
      Running inp s.kernel s.workers ∧ s.workers.length = c.threads ∧ i < c.threads ∧
      FlaggedBelow s.workers (i + 1) ∧ ExitedBelow s.workers i := by
  cases h with
  | wait inp i hpc' hn hrun hlen hi hflag hexit =>
    cases hpc.symm.trans hpc'
    exact ⟨inp, rfl, hn, hrun, hlen, hi, hflag, hexit⟩
  | saved _ _ hpc' | failed _ _ hpc' => simp [Caller.Leaving, hpc] at hpc'
  | _ => simp_all

/-- Inside the writer. -/
lemma at_save (h : Inv d c k₀ s) {q : Prepared} {p : KProgram ℤ} (hpc : s.caller = .save q p) :
    ∃ (inp : Inputs c k₀.fs) (k : Kernel), q = inp.prepared ∧ c.Ready ∧
      Running inp k s.workers ∧ s.workers.length = c.threads ∧
      FlaggedBelow s.workers c.threads ∧ ExitedBelow s.workers c.threads ∧
      p.eval c.exec s.kernel =
        (d.save inp.destFile (.block (c.blockAt .data)) inp.data.size).eval c.exec k := by
  cases h with
  | save inp k p hpc' hn hrun hlen hflag hexit heval =>
    cases hpc.symm.trans hpc'
    exact ⟨inp, k, rfl, hn, hrun, hlen, hflag, hexit, heval⟩
  | saved _ _ hpc' | failed _ _ hpc' => simp [Caller.Leaving, hpc] at hpc'
  | _ => simp_all

/-- Unless a creation has failed, the workers are in order. -/
lemma worker_ok (h : Inv d c k₀ s) {i : ℕ} {w : Worker} (hw : s.workers[i]? = some w)
    (hcreate : ∀ j < c.threads, c.env.threadError j = none) :
    ∃ inp : Inputs c k₀.fs, WorkerOk inp i w ∧ i < c.threads := by
  have hlt : i < s.workers.length := (List.getElem?_eq_some_iff.mp hw).1
  cases h with
  | entry _ _ hws | early _ _ hws | segment _ _ hws | oops _ hws => simp [hws] at hw
  | create inp _ _ _ hrun | stop inp _ _ _ hrun | wait inp _ _ _ hrun | save inp _ _ _ _ hrun =>
    exact ⟨inp, hrun.worker_ok i w hw, hrun.lt_threads hw⟩
  | saved inp _ _ hsaved => exact ⟨inp, hsaved.worker_ok i w hw, hsaved.length_eq ▸ hlt⟩
  | failed inp _ _ _ hlen herr =>
    rw [hcreate _ hlen] at herr
    cases herr

/-- A worker moves in the concurrent phase, or it was left behind and never told to stop. -/
lemma running_or_left (h : Inv d c k₀ s) {i : ℕ} {w w' : Worker} {k' : Kernel}
    (hw : s.workers[i]? = some w) (hm : WorkerMove d.lock c.task i s.kernel w k' w') :
    (∃ inp : Inputs c k₀.fs, Running inp s.kernel s.workers) ∨ FlaggedBelow s.workers 0 := by
  have hlt : i < s.workers.length := (List.getElem?_eq_some_iff.mp hw).1
  have hdone : s.workers.length = c.threads → ¬ ExitedBelow s.workers c.threads := by
    intro hlen hexit
    obtain ⟨r, hr⟩ := hexit i w hw (hlen ▸ hlt)
    exact hm.not_exited r hr
  cases h with
  | entry _ _ hws | early _ _ hws | segment _ _ hws | oops _ hws => simp [hws] at hw
  | create inp _ _ _ hrun | stop inp _ _ _ hrun | wait inp _ _ _ hrun => exact Or.inl ⟨inp, hrun⟩
  | save _ _ _ _ _ _ hlen _ hexit => exact (hdone hlen hexit).elim
  | saved _ _ _ hsaved => exact (hdone hsaved.length_eq hsaved.exited).elim
  | failed _ _ _ _ _ _ hflag _ => exact Or.inr hflag

/-! ### Preservation -/

/-- A move of a worker keeps the invariant. -/
lemma worker_step (h : Inv d c k₀ s) {i : ℕ} {w w' : Worker} {k' : Kernel}
    (hw : s.workers[i]? = some w) (hm : WorkerMove d.lock c.task i s.kernel w k' w') :
    Inv d c k₀ { s with kernel := k', workers := s.workers.set i w' } := by
  have hlt : i < s.workers.length := (List.getElem?_eq_some_iff.mp hw).1
  have hnone : s.workers = [] → False := by
    intro hws
    simp [hws] at hw
  have hdone : s.workers.length = c.threads → ExitedBelow s.workers c.threads → False := by
    intro hlen hexit
    obtain ⟨r, hr⟩ := hexit i w hw (hlen ▸ hlt)
    exact hm.not_exited r hr
  cases h with
  | entry _ _ hws | early _ _ hws | segment _ _ hws | oops _ hws => exact (hnone hws).elim
  | create inp i' hpc hn hrun hlen hflag =>
    exact .create inp i' hpc hn (hrun.move hw hm) (by simpa using hlen) (hflag.move hw hm)
  | stop inp i' hpc hn hrun hlen hi hflag hexit =>
    exact .stop inp i' hpc hn (hrun.move hw hm) (by simpa using hlen) hi (hflag.move hw hm)
      (hexit.move hw hm)
  | wait inp i' hpc hn hrun hlen hi hflag hexit =>
    exact .wait inp i' hpc hn (hrun.move hw hm) (by simpa using hlen) hi (hflag.move hw hm)
      (hexit.move hw hm)
  | save _ _ _ _ _ _ hlen _ hexit => exact (hdone hlen hexit).elim
  | saved _ _ _ hsaved => exact (hdone hsaved.length_eq hsaved.exited).elim
  | failed inp e hpc hn hlen herr hflag hfs =>
    exact .failed inp e hpc hn (by simpa using hlen) (by simpa using herr) (hflag.move hw hm)
      (hm.fs_eq.trans hfs)

/-- The writer is done: the files are what `saveResult` says. -/
lemma save_done (h : Inv d c k₀ s) {q : Prepared} {r : ℤ} (hpc : s.caller = .save q (.ret r))
    (caller : Caller) (hleave : caller.Leaving r) :
    Inv d c k₀ { s with caller := caller } := by
  obtain ⟨inp, k, rfl, hn, hrun, hlen, hflag, hexit, heval⟩ := h.at_save hpc
  obtain ⟨log, hsave⟩ := d.eval_save c inp.destFile (.block (c.blockAt .data)) inp.data.size k
  rw [Program.eval_ret, hsave] at heval
  obtain ⟨hr, hk⟩ := Prod.mk.inj heval
  have hbytes : k.bytesAt (.block (c.blockAt .data)) = inp.buffer s.workers := hrun.data_eq
  rw [hbytes, hrun.fs_eq] at hr hk
  exact .saved inp r hleave
    ⟨hn, hrun.worker_ok, hlen, hflag, hexit, Prod.ext hr.symm (by rw [hk])⟩

/-- Freeing memory or returning keeps the invariant. -/
lemma leaving_step (h : Inv d c k₀ s) {ps : List Ptr} {r : ℤ} (hpc : s.caller = .cleanup ps r)
    (k' : Kernel) (hfs' : k'.fs = s.kernel.fs) (caller : Caller) (hleave : caller.Leaving r) :
    Inv d c k₀ { s with kernel := k', caller := caller } := by
  have hsame : ∀ r', s.caller.Leaving r' → r' = r := by
    rintro r' (⟨frees, h'⟩ | h')
    · cases hpc.symm.trans h'
      rfl
    · cases hpc.symm.trans h'
  cases h with
  | saved inp r' hpc' hsaved =>
    obtain rfl := hsame r' hpc'
    exact .saved inp r' hleave { hsaved with result := hsaved.result.trans (by rw [← hfs']) }
  | failed inp e hpc' hn hlen herr hflag hfs =>
    obtain rfl := hsame e.ret hpc'
    exact .failed inp e hleave hn hlen herr hflag (hfs'.trans hfs)
  | _ => simp_all

/-- The code in front of the division is done. -/
lemma entry_done (h : Inv d c k₀ s) {q : Prepared} (hpc : s.caller = .entry (.ret (.ok q))) :
    Inv d c k₀ { s with caller := .segment q } := by
  obtain ⟨hws, heval⟩ := h.at_entry hpc
  rw [Program.eval_ret] at heval
  rcases eval_prepare d c k₀ with ⟨e, k', herr, -⟩ | ⟨inp, harr, hok⟩
  · rw [herr] at heval
    cases heval
  · rw [hok] at heval
    obtain ⟨hq, hk⟩ := Prod.mk.inj heval
    cases hq
    exact .segment inp rfl hws harr hk

/-- The code in front of the division returns early. -/
lemma entry_error (h : Inv d c k₀ s) {r : ℤ} (hpc : s.caller = .entry (.ret (.error r))) :
    Inv d c k₀ { s with caller := .returned r } := by
  obtain ⟨hws, heval⟩ := h.at_entry hpc
  rw [Program.eval_ret] at heval
  rcases eval_prepare d c k₀ with ⟨e, k', herr, hfs⟩ | ⟨inp, harr, hok⟩
  · rw [herr] at heval
    obtain ⟨hr, hk⟩ := Prod.mk.inj heval
    cases hr
    exact .early e rfl hws (hk ▸ hfs)
  · rw [hok] at heval
    cases heval

/-- A worker is created. -/
lemma create_step (h : Inv d c k₀ s) {q : Prepared} {seg i off : ℕ}
    (hpc : s.caller = .create q seg i off) (hlt : (i : ℤ) < c.args.numThreads.toInt) :
    Inv d c k₀ { s with
      kernel := s.kernel.storeArgs (q.argsPtr i) (q.argsFor c.args.numThreads.toInt seg i off)
      workers := s.workers ++ [Worker.new (q.argsPtr i) off]
      caller := .create q seg (i + 1) (sizeAdd off seg) } := by
  obtain ⟨inp, rfl, rfl, rfl, hn, hrun, hlen, hflag⟩ := h.at_create hpc
  have hi : i < c.threads := Call.natCast_lt_numThreads.mp hlt
  rw [inp.argsFor_eq hi, sizeAdd_offset inp.data_lt hi]
  subst hlen
  exact .create inp _ rfl hn (hrun.create hn hi) (by simp) (hflag.create _ _)

/-- Every step keeps the invariant. -/
theorem step (h : Inv d c k₀ s) {a : Act} (hstep : d.step c s a = some s') : Inv d c k₀ s' := by
  cases Syscall.move_of_step hstep with
  | entryCall hpc =>
    obtain ⟨hws, heval⟩ := h.at_entry hpc
    exact .entry _ rfl hws heval
  | entryError hpc => exact h.entry_error hpc
  | entryDone hpc => exact h.entry_done hpc
  | divideError hpc hn =>
    obtain ⟨inp, rfl, hws, harr, hk⟩ := h.at_segment hpc
    exact .oops rfl hws hn
  | divide hpc hn =>
    obtain ⟨inp, rfl, hws, harr, hk⟩ := h.at_segment hpc
    have hpos := Call.numThreads_pos harr hn
    have hrun : Running inp s.kernel s.workers := by
      rw [hk, hws]
      exact Running.start k₀ rfl
    refine .create inp 0 ?_ ⟨harr, hpos⟩ hrun (by simp [hws]) (by simp [FlaggedBelow, hws])
    simp only [Inputs.prepared, Call.toSizeT_numThreads hpos, Nat.zero_mul]
  | create hpc hlt hrun => exact h.create_step hpc hlt
  | createError hpc hlt herr =>
    obtain ⟨inp, rfl, rfl, rfl, hn, hrun, hlen, hflag⟩ := h.at_create hpc
    subst hlen
    exact .failed inp _ (Or.inl ⟨_, rfl⟩) hn (Call.natCast_lt_numThreads.mp hlt) herr
      hflag hrun.fs_eq
  | createDone hpc hge =>
    obtain ⟨inp, rfl, rfl, rfl, hn, hrun, hlen, hflag⟩ := h.at_create hpc
    have hall : s.workers.length = c.threads :=
      le_antisymm hrun.length_le (hlen ▸ Call.numThreads_le_natCast.mp hge)
    exact .stop inp 0 rfl hn hrun hall (Nat.zero_le _) hflag (fun _ _ _ hj => absurd hj (by simp))
  | stop hpc hlt =>
    obtain ⟨inp, rfl, hn, hrun, hlen, hi, hflag, hexit⟩ := h.at_stop hpc
    exact .wait inp _ rfl hn (hrun.stop _) (by simpa using hlen)
      (Call.natCast_lt_numThreads.mp hlt) hflag.stop hexit.stop
  | stopDone hpc hge =>
    obtain ⟨inp, rfl, hn, hrun, hlen, hi, hflag, hexit⟩ := h.at_stop hpc
    obtain rfl := le_antisymm hi (Call.numThreads_le_natCast.mp hge)
    exact .save inp s.kernel _ rfl hn hrun hlen hflag hexit rfl
  | wait hpc hw hexited =>
    obtain ⟨inp, rfl, hn, hrun, hlen, hi, hflag, hexit⟩ := h.at_wait hpc
    exact .stop inp _ rfl hn (hrun.of_kernel rfl rfl rfl) hlen hi hflag (hexit.wait hw hexited)
  | saveCall hpc =>
    obtain ⟨inp, k, rfl, hn, hrun, hlen, hflag, hexit, heval⟩ := h.at_save hpc
    exact .save inp k _ rfl hn hrun hlen hflag hexit heval
  | saveDone hpc => exact h.save_done hpc _ (Or.inl ⟨_, rfl⟩)
  | free hpc => exact h.leaving_step hpc _ (Kernel.kfree_fs _ _) _ (Or.inl ⟨_, rfl⟩)
  | finish hpc => exact h.leaving_step hpc s.kernel rfl _ (Or.inr rfl)
  | worker ha hw hmove => exact h.worker_step hw hmove

/-- The invariant holds in every state of every run. -/
theorem of_run {acts : List Act} (hrun : d.Run c k₀ acts s) : Inv d c k₀ s :=
  run_invariant (I := Inv d c k₀) (Inv.start d c k₀) (fun _ _ _ hs hst => hs.step hst) hrun

/-- A system call that has returned either failed before it opened the output, with all files as
they were, or has written the output. -/
theorem of_returned (h : Inv d c k₀ s) {r : ℤ} (hpc : s.caller = .returned r) :
    (∃ e : Errno, r = e.ret ∧ s.kernel.fs = k₀.fs) ∨ ∃ inp : Inputs c k₀.fs, Saved inp s r := by
  have hsame : ∀ r', s.caller.Leaving r' → r = r' := fun r' hr' => by
    simpa [Caller.Leaving, hpc] using hr'
  cases h with
  | early e hpc' hws hfs => exact Or.inl ⟨e, by simpa [hpc] using hpc', hfs⟩
  | saved inp r' hpc' hsaved => exact Or.inr ⟨inp, hsame r' hpc' ▸ hsaved⟩
  | failed inp e hpc' hn hlen herr hflag hfs => exact Or.inl ⟨e, hsame e.ret hpc', hfs⟩
  | _ => simp_all

/-- A system call that has returned with all its workers created has written the output. -/
lemma saved_of_length (h : Inv d c k₀ s) {r : ℤ} (hpc : s.caller = .returned r)
    (hlen : s.workers.length = c.threads) (hpos : 0 < c.threads) :
    ∃ inp : Inputs c k₀.fs, Saved inp s r := by
  cases h with
  | early e hpc' hws hfs =>
    rw [hws, List.length_nil] at hlen
    omega
  | saved inp r' hpc' hsaved =>
    obtain rfl : r = r' := by simpa [Caller.Leaving, hpc] using hpc'
    exact ⟨inp, hsaved⟩
  | failed inp e hpc' hn hlt herr hflag hfs => exact absurd hlen hlt.ne
  | _ => simp_all

/-- A system call that has returned `0` has written the output. -/
theorem saved_of_zero (h : Inv d c k₀ s) (hpc : s.caller = .returned 0) :
    ∃ inp : Inputs c k₀.fs, Saved inp s 0 := by
  rcases h.of_returned hpc with ⟨e, he, -⟩ | hsaved
  · exact absurd he.symm e.ret_ne_zero
  · exact hsaved

end Inv

/-- A worker exists only if its creation did not fail. -/
lemma threadError_of_run {d : Syscall} {c : Call} {k₀ : Kernel} {acts : List Act} {s : State}
    (hrun : d.Run c k₀ acts s) : ∀ i < s.workers.length, c.env.threadError i = none := by
  refine run_induction (motive := fun _ s => ∀ i < s.workers.length, c.env.threadError i = none)
    ?_ (fun acts t a t' ht ih hstep => ?_) hrun
  · intro i hi
    simp [State.start] at hi
  · cases Syscall.move_of_step hstep with
    | create hpc hlt hok =>
      obtain ⟨-, -, -, -, -, -, hlen, -⟩ := (Inv.of_run ht).at_create hpc
      intro i hi
      rw [List.length_append, List.length_singleton] at hi
      rcases Nat.lt_succ_iff_lt_or_eq.mp hi with hi | rfl
      · exact ih i hi
      · rwa [hlen]
    | stop => simpa using ih
    | worker => simpa using ih
    | _ => exact ih

end XorSyscalls
