import XorSyscalls.Syscall.Schedules

/-!
# Workers that outlive their memory

Behind the label `cleanup` a system call frees the buffers that its workers read and write.  On the
regular way there all workers have been waited for.  When `kthread_run` fails, however, the call
jumps to `cleanup` from inside the creation loop and leaves the workers created before it running.
`exited_at_cleanup_iff` says that this is the only way to get there with a worker that has not
exited.
-/

namespace XorSyscalls

open TransitionSystem

/-- If the creation of worker `i` is the first to fail, the call can jump to `cleanup` before any of
the earlier workers has run. -/
lemma exists_run_createError (d : Syscall) {c : Call} {k₀ : Kernel} (inp : Inputs c k₀.fs)
    (harr : c.ArraysAllocated) {i : ℕ} (hi : i < c.threads) {e : Errno}
    (herr : c.env.threadError i = some e) (hbefore : ∀ j < i, c.env.threadError j = none) :
    ∃ acts k, k.holder = k₀.holder ∧ d.Run c k₀ acts ⟨k, .cleanup inp.prepared.frees e.ret,
      (List.range i).map fun j =>
        Worker.new (inp.prepared.argsPtr j) (inp.argsOf j).rangeStart⟩ := by
  have hlt : (i : ℤ) < c.args.numThreads.toInt := Call.natCast_lt_numThreads.mpr hi
  have hn : 0 < c.args.numThreads.toInt := (Int.natCast_nonneg i).trans_lt hlt
  have hcreated := (reaches_create (d := d) inp ⟨harr, hn⟩).trans
    (reaches_create_loop (q := inp.prepared) inp.data_lt (inp.kernel k₀) hi.le hbefore)
  have herror : ∀ k seg off ws, ∃ k', d.step c ⟨k, .create inp.prepared seg i off, ws⟩ .caller =
      some ⟨k', .cleanup inp.prepared.frees e.ret, ws⟩ ∧ k'.holder = k.holder := by
    intro k seg off ws
    rw [d.step_caller]
    simp only [callerStep, hlt, if_true, herr]
    exact ⟨_, rfl, rfl⟩
  obtain ⟨k', hk', hholder⟩ := herror _ _ _ _
  obtain ⟨acts, hacts⟩ := hcreated.trans (Reaches.single .caller hk')
  exact ⟨acts, _, by rw [hholder, Kernel.storeChunks_holder, inp.kernel_holder], hacts⟩

/-- A call that does not keep its workers can jump to `cleanup` before any of them has run. -/
lemma exists_run_left (d : Syscall) {c : Call} {k₀ : Kernel} (inp : Inputs c k₀.fs)
    (harr : c.ArraysAllocated) (hleft : ¬ c.KeepsWorkers) :
    ∃ acts k r ws, k.holder = k₀.holder ∧
      d.Run c k₀ acts ⟨k, .cleanup inp.prepared.frees r, ws⟩ ∧
      ws[0]? = some (Worker.new (inp.prepared.argsPtr 0) (inp.argsOf 0).rangeStart) := by
  obtain ⟨hzero, hex⟩ : c.env.threadError 0 = none ∧
      ∃ i, i < c.threads ∧ c.env.threadError i ≠ none := by
    simpa [Call.KeepsWorkers] using hleft
  -- the first creation that fails is not that of worker 0
  obtain ⟨hlt, hne⟩ := Nat.find_spec hex
  obtain ⟨e, he⟩ := Option.ne_none_iff_exists'.mp hne
  have hbefore : ∀ j < Nat.find hex, c.env.threadError j = none := by
    intro j hj
    by_contra hj'
    exact Nat.find_min hex hj ⟨hj.trans hlt, hj'⟩
  have hpos : 0 < Nat.find hex := by
    rw [Nat.find_pos]
    exact fun h => h.2 hzero
  obtain ⟨acts, k, hholder, hrun⟩ := exists_run_createError d inp harr hlt he hbefore
  exact ⟨acts, k, e.ret, _, hholder, hrun, by simp [hpos]⟩

/-- Then it can return, and its first worker can take the mutex when its arguments are gone. -/
lemma exists_run_gone {d : Syscall} {c : Call} {k₀ : Kernel} (inp : Inputs c k₀.fs)
    (harr : c.ArraysAllocated) (hleft : ¬ c.KeepsWorkers) (hfree : k₀.holder d.lock = none) :
    ∃ (acts : List Act) (s : State) (k : Kernel) (p : ArgsPtr) (idx : ℕ),
      d.Run c k₀ acts (s.withWorker 0 k ⟨p, idx, false, .entered⟩) ∧ 0 < s.workers.length ∧
      k.holder d.lock = some (c.task, 0) ∧ k.loadArgs p = none := by
  obtain ⟨acts, k, r, ws, hholder, hrun, hw⟩ := exists_run_left d inp harr hleft
  have hlen := (List.getElem?_eq_some_iff.mp hw).1
  have hreturn := reaches_returned (d := d) (c := c)
    (s := ⟨k, .cleanup inp.prepared.frees r, ws⟩) _ _ rfl
  have hgone : (inp.prepared.frees.foldl Kernel.kfree k).loadArgs (inp.prepared.argsPtr 0) =
      none := Kernel.loadArgs_kfree _ _ _
  have hfree' : (inp.prepared.frees.foldl Kernel.kfree k).holder d.lock = none := by
    simp only [Prepared.frees, List.foldl_cons, List.foldl_nil, Kernel.kfree_holder, hholder, hfree]
  generalize inp.prepared.frees.foldl Kernel.kfree k = k' at hreturn hgone hfree'
  have hentered := reaches_entered (d := d) (c := c) (s := ⟨k', .returned r, ws⟩) hlen
    (inp.prepared.argsPtr 0) (inp.argsOf 0).rangeStart hfree'
  rw [State.withWorker_self (s := ⟨k', .returned r, ws⟩) hw] at hentered
  obtain ⟨acts', hrun'⟩ := (Reaches.trans ⟨acts, hrun⟩ hreturn).trans hentered
  exact ⟨acts', _, _, _, _, hrun', hlen, Function.update_self .., hgone⟩

/-- Every worker has exited when its call gets to `cleanup`, if a `kthread_run` that the
call gets to and that fails is the first one. -/
lemma exited_of_leaving {d : Syscall} {c : Call} {k₀ : Kernel} {acts : List Act} {s : State}
    (hrun : d.Run c k₀ acts s) {r : ℤ} (hpc : s.caller.Leaving r)
    (hfirst : Nonempty (Inputs c k₀.fs) → c.ArraysAllocated →
      ∀ i < c.threads, c.env.threadError i ≠ none → c.env.threadError 0 ≠ none) :
    ∀ w ∈ s.workers, ∃ r, w.pc = .exited r := by
  intro w hw
  obtain ⟨i, hi⟩ := List.mem_iff_getElem?.mp hw
  have hlt : i < s.workers.length := (List.getElem?_eq_some_iff.mp hi).1
  cases Inv.of_run hrun with
  | early _ _ hws => simp [hws] at hw
  | saved inp _ _ hsaved => exact hsaved.exited i w hi (hsaved.length_eq ▸ hlt)
  | failed inp e _ hn hlen herr hflag hfs =>
    have hzero := hfirst ⟨inp⟩ hn.arrays _ hlen (by simp [herr])
    exact absurd (threadError_of_run hrun 0 (Nat.zero_lt_of_lt hlt)) hzero
  | _ => simp_all [Caller.Leaving]

/-- Every worker has exited when its call gets to `cleanup`, in all runs, iff a `kthread_run` that
fails is the first one, or none fails, or the call does not get that far. -/
theorem exited_at_cleanup_iff (d : Syscall) (c : Call) (k₀ : Kernel) :
    (∀ acts s, d.Run c k₀ acts s → (∃ r, s.caller.Leaving r) →
        ∀ w ∈ s.workers, ∃ r, w.pc = .exited r) ↔
      (Nonempty (Inputs c k₀.fs) → c.ArraysAllocated →
        ∀ i < c.threads, c.env.threadError i ≠ none → c.env.threadError 0 ≠ none) := by
  constructor
  · rintro hall ⟨inp⟩ harr i hi herr hzero
    obtain ⟨acts, k, r, ws, -, hrun, hw⟩ :=
      exists_run_left d inp harr fun hkeeps => herr (hkeeps hzero i hi)
    obtain ⟨r', hr'⟩ := hall acts _ hrun ⟨r, Or.inl ⟨_, rfl⟩⟩ _ (List.mem_of_getElem? hw)
    cases hr'
  · rintro hcond acts s hrun ⟨r, hpc⟩
    exact exited_of_leaving hrun hpc hcond

/-- The small call with two threads in a system that cannot create the second one. -/
def failingSecondThread : Call :=
  { sampleCall 2 with env :=
    { sampleEnv with threadError := fun i => if i = 1 then some .enomem else none } }

/-- What a worker may find in freed memory: a range with one byte, and a key. -/
def sampleStray : Stray := ⟨0, 1, 1, .nothing⟩

/-- The call returns, and then its first worker starts, takes the mutex and XORs a byte with what it
finds in place of its arguments. -/
def leftBehind : List Act :=
  List.replicate 25 .caller ++ List.replicate 5 (.worker 0 (.stray sampleStray))

/-- The first worker survives the failed creation of the second one: the call has returned and its
memory is freed when the worker reads its range and XORs its first byte. -/
theorem failed_creation_leaves_worker :
    ∃ s, Syscall.encrypt.Run failingSecondThread (.idle sampleFiles) leftBehind s ∧
      s.caller = .returned Errno.enomem.ret ∧ s.workers.map Worker.pc = [.testing] ∧
      s.kernel.misuses =
        List.replicate 3 (.useAfterFree (failingSecondThread.blockAt .workerArgs)) := by
  have hout : (run (Syscall.encrypt.step failingSecondThread)
      (State.start .encrypt failingSecondThread (.idle sampleFiles)) leftBehind).map (fun s =>
        (s.caller.result, s.workers.map Worker.pc, s.kernel.misuses)) =
      some (some Errno.enomem.ret, [.testing],
        List.replicate 3 (.useAfterFree (failingSecondThread.blockAt .workerArgs))) := by
    decide +kernel
  obtain ⟨s, hrun, hs⟩ := Option.map_eq_some_iff.mp hout
  obtain ⟨hresult, hrest⟩ := Prod.mk.inj hs
  obtain ⟨hpcs, hmisuses⟩ := Prod.mk.inj hrest
  exact ⟨s, hrun, Caller.eq_returned hresult, hpcs, hmisuses⟩

end XorSyscalls
