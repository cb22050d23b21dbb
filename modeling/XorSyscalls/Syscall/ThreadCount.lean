import XorSyscalls.Syscall.Cleanup

/-!
# The number of threads

Nothing in the system calls checks `num_threads`.  A negative number becomes a huge `size_t`, for
which `kmalloc_array` refuses both arrays, so the call fails before it divides by it.  Zero gets
through, since an array without elements is not refused, and the division
`data_len / num_threads` traps.

The workers divide by the length of the key, which they read through a pointer.  It is not zero as
long as they find it: a worker that a failed creation leaves behind may find anything.
`no_zero_divisor_iff` puts this together for all allocation outcomes.
-/

namespace XorSyscalls

open TransitionSystem

/-- The same call with other outcomes of its allocations. -/
def Call.withAllocates (c : Call) (allocates : Site → Bool) : Call :=
  { c with env := { c.env with allocates } }

/-- The only complete run of the call returns a negative error number, with all files as they were:
no other thread ever runs, and every run is a part of this one. -/
def Syscall.Fails (d : Syscall) (c : Call) (k₀ : Kernel) : Prop :=
  ∃ (n : ℕ) (s : State) (e : Errno), d.Run c k₀ (List.replicate n .caller) s ∧
    s.caller = .returned e.ret ∧ s.kernel.fs = k₀.fs ∧
    ∀ acts s', d.Run c k₀ acts s' → ∃ m ≤ n, acts = List.replicate m .caller

/-- Worker `i` is at the XOR and finds a key length of zero, so it evaluates `idx % 0`. -/
def State.DividesByZero (s : State) (i : ℕ) (x : Chance) : Prop :=
  ∃ w args k, s.workers[i]? = some w ∧ w.pc = .xoring ∧
    s.kernel.findArgs w.params x = some (args, k) ∧ args.keyLength = 0

/-- Only zero becomes the `size_t` zero. -/
lemma toSizeT_eq_zero {n : Int32} (h : toSizeT n.toInt = 0) : n.toInt = 0 := by
  have hlt := n.toInt_lt
  have hle := n.le_toInt
  unfold toSizeT sizeModulus at h
  omega

section ThreadCount

variable {d : Syscall} {c : Call} {k₀ : Kernel} {acts : List Act} {s : State}

/-- With a nonzero number of threads nothing is divided by zero; workers that are left behind work
with what they find. -/
lemma no_oops (hn : c.args.numThreads.toInt ≠ 0) (hrun : d.Run c k₀ acts s) :
    s.caller ≠ .oops ∧ (c.KeepsWorkers → ∀ w ∈ s.workers, w.pc ≠ .oops) := by
  have hinv := Inv.of_run hrun
  constructor
  · intro hpc
    cases hinv with
    | oops _ _ hzero => exact hn (toSizeT_eq_zero hzero)
    | _ => simp_all [Caller.Leaving]
  · intro hkeeps w hw hpc
    obtain ⟨i, hi⟩ := List.mem_iff_getElem?.mp hw
    have hfirst := threadError_of_run hrun 0 (List.length_pos_of_mem hw)
    obtain ⟨inp, hok, -⟩ := hinv.worker_ok hi (hkeeps hfirst)
    have hfalse := hok.pc_ok
    simp only [Worker.PcOk, hpc] at hfalse

/-- Without a positive number of threads no worker is created. -/
lemma workers_eq_nil (hn : c.args.numThreads.toInt ≤ 0) (hrun : d.Run c k₀ acts s) :
    s.workers = [] := by
  have hready : ¬ c.Ready := fun h => absurd h.numThreads_pos (not_lt.mpr hn)
  cases Inv.of_run hrun with
  | entry _ _ hws | early _ _ hws | segment _ _ hws | oops _ hws => exact hws
  | create _ _ _ hr | stop _ _ _ hr | wait _ _ _ hr | save _ _ _ _ hr | failed _ _ _ hr =>
    exact absurd hr hready
  | saved _ _ _ hsaved => exact absurd hsaved.ready hready

/-- Without workers only the calling thread runs. -/
lemma eq_replicate_caller (hws : ∀ acts s, d.Run c k₀ acts s → s.workers = [])
    (hrun : d.Run c k₀ acts s) : acts = List.replicate acts.length .caller := by
  refine List.eq_replicate_iff.mpr ⟨rfl, ?_⟩
  refine run_induction (motive := fun acts _ => ∀ a ∈ acts, a = .caller) (by simp)
    (fun acts t a t' ht ih hstep => ?_) hrun
  have hlast : a = .caller := by
    cases Syscall.move_of_step hstep with
    | worker _ hw _ => simp [hws acts t ht] at hw
    | _ => rfl
  intro b hb
  rcases List.mem_append.mp hb with hb | hb
  · exact ih b hb
  · rw [List.mem_singleton.mp hb, hlast]

/-- A call fails if it has no workers and the code in front of the division returns an error. -/
lemma fails_of_eval_prepare (hws : ∀ acts s, d.Run c k₀ acts s → s.workers = []) {e : Errno}
    {k : Kernel} (heval : (prepare d c.args).eval c.exec k₀ = (.error e.ret, k))
    (hfs : k.fs = k₀.fs) : d.Fails c k₀ := by
  have hentry := reaches_entry (d := d) (c := c) (s := State.start d c k₀) _ rfl
  simp only [State.start, d.prepares_eq, heval] at hentry
  rw [← d.prepares_eq] at hentry
  have hreturn : d.step c ⟨k, .entry (.ret (.error e.ret)), []⟩ .caller =
      some ⟨k, .returned e.ret, []⟩ := d.step_caller c _
  obtain ⟨acts, hacts⟩ := hentry.trans (Reaches.single _ hreturn)
  have hrun : d.Run c k₀ acts ⟨k, .returned e.ret, []⟩ := hacts
  rw [eq_replicate_caller hws hrun] at hrun
  refine ⟨acts.length, _, e, hrun, rfl, hfs, fun acts' s' hrun' => ?_⟩
  have hrep := eq_replicate_caller hws hrun'
  refine ⟨acts'.length, ?_, hrep⟩
  -- a longer run would go on after the return
  by_contra hlong
  obtain ⟨m, hm⟩ : ∃ m, acts'.length = acts.length + (m + 1) :=
    ⟨acts'.length - acts.length - 1, by omega⟩
  have hend : d.step c ⟨k, .returned e.ret, []⟩ .caller = none := d.step_caller c _
  rw [hrep, hm, ← List.replicate_append_replicate, Syscall.Run, run_append] at hrun'
  rw [show run (d.step c) (State.start d c k₀) (List.replicate acts.length .caller) = _ from hrun,
    Option.bind_some, List.replicate_succ, run_cons, hend] at hrun'
  cases hrun'

/-- A call with a negative number of threads fails. -/
lemma fails_of_neg (hn : c.args.numThreads.toInt < 0) : d.Fails c k₀ := by
  rcases eval_prepare d c k₀ with ⟨e, k, heval, hfs⟩ | ⟨inp, harr, -⟩
  · exact fails_of_eval_prepare (fun _ _ hrun => workers_eq_nil hn.le hrun) heval hfs
  · exact absurd (Call.arrayPtr_eq_null .workers (by decide) hn) harr.1

/-- A call with no thread divides by zero. -/
lemma exists_run_oops (d : Syscall) (inp : Inputs c k₀.fs) (hn : c.args.numThreads.toInt = 0) :
    ∃ acts s, d.Run c k₀ acts s ∧ s.caller = .oops := by
  have hsize : toSizeT c.args.numThreads.toInt = 0 := by
    rw [hn]
    rfl
  have harr : c.ArraysAllocated := by
    simp [Call.ArraysAllocated, Call.arrayPtr, Call.arraySize, hsize, sizeModulus]
  have hdivide : d.step c ⟨inp.kernel k₀, .segment inp.prepared, []⟩ .caller =
      some ⟨inp.kernel k₀, .oops, []⟩ := by
    rw [d.step_caller, callerStep]
    simp only [if_pos hsize]
  obtain ⟨acts, hacts⟩ := (reaches_segment (d := d) inp harr).trans (Reaches.single _ hdivide)
  exact ⟨acts, _, hacts, rfl⟩

/-- The numbers found in place of its arguments let a worker get to the remainder `idx % 0`. -/
lemma exists_run_dividesByZero (inp : Inputs c k₀.fs) (harr : c.ArraysAllocated)
    (hleft : ¬ c.KeepsWorkers) (hfree : k₀.holder d.lock = none) {e : Stray}
    (hrange : e.rangeStart < e.rangeEnd) (hkey : e.keyLength = 0) :
    ∃ acts s, d.Run c k₀ acts s ∧ s.DividesByZero 0 (.stray e) := by
  obtain ⟨acts, s, k, p, idx, hrun, hlen, -, hgone⟩ := exists_run_gone inp harr hleft hfree
  have hfind : ∀ {k : Kernel}, k.loadArgs p = none →
      k.findArgs p (.stray e) = some (e.found, k.noteUse p.array) ∧
        (k.noteUse p.array).loadArgs p = none := fun {k} hk =>
    ⟨by simp only [Kernel.findArgs, hk], by rw [k.loadArgs_noteUse, hk]⟩
  obtain ⟨hfind₁, hgone₁⟩ := hfind hgone
  obtain ⟨hfind₂, hgone₂⟩ := hfind hgone₁
  have henter : workerStep d.lock c.task 0 (.stray e) k ⟨p, idx, false, .entered⟩ =
      some (k.noteUse p.array, ⟨p, e.rangeStart, false, .testing⟩) := by
    simp only [workerStep, hfind₁]
    rfl
  have htest : workerStep d.lock c.task 0 (.stray e) (k.noteUse p.array)
      ⟨p, e.rangeStart, false, .testing⟩ =
      some ((k.noteUse p.array).noteUse p.array, ⟨p, e.rangeStart, false, .xoring⟩) := by
    simp [workerStep, hfind₂, Stray.found, hrange]
  obtain ⟨acts', hrun'⟩ :=
    (Reaches.trans ⟨acts, hrun⟩ (reaches_worker hlen henter)).trans (reaches_worker hlen htest)
  exact ⟨acts', _, hrun', _, _, _, List.getElem?_set_self hlen, rfl, (hfind hgone₂).1, hkey⟩

end ThreadCount

/-- For a source and a key that can be read and are not empty: whatever the allocations do, nothing
is divided by zero, not by a worker either unless a failed creation leaves it behind, and a number
of threads that is not positive makes the call fail, iff the number of threads is not zero.  A
worker that is left behind can divide by a key length of zero. -/
theorem no_zero_divisor_iff (d : Syscall) {c : Call} {k₀ : Kernel}
    (inp : Inputs (c.withAllocates fun _ => true) k₀.fs) :
    ((∀ allocates,
      (∀ acts s, d.Run (c.withAllocates allocates) k₀ acts s →
        s.caller ≠ .oops ∧ (c.KeepsWorkers → ∀ w ∈ s.workers, w.pc ≠ .oops)) ∧
      (c.args.numThreads.toInt ≤ 0 → d.Fails (c.withAllocates allocates) k₀)) ↔
      c.args.numThreads.toInt ≠ 0) ∧
    (k₀.holder d.lock = none → ¬ c.KeepsWorkers →
      ∃ acts s e, d.Run (c.withAllocates fun _ => true) k₀ acts s ∧
        s.DividesByZero 0 (.stray e)) := by
  refine ⟨⟨fun hall hn => ?_, fun hn allocates => ?_⟩, fun hfree hleft => ?_⟩
  · obtain ⟨acts, s, hrun, hpc⟩ := exists_run_oops d inp hn
    exact ((hall _).1 acts s hrun).1 hpc
  · exact ⟨fun acts s hrun => no_oops (c := c.withAllocates allocates) hn hrun,
      fun hle => fails_of_neg (c := c.withAllocates allocates) (lt_of_le_of_ne hle hn)⟩
  · have hn : 0 ≤ c.args.numThreads.toInt := by
      by_contra hneg
      refine hleft fun _ i hi => ?_
      rw [Call.threads, Int.toNat_of_nonpos (le_of_not_ge hneg)] at hi
      cases hi
    have harr : (c.withAllocates fun _ => true).ArraysAllocated :=
      ⟨Call.arrayPtr_ne_null hn (by decide) rfl, Call.arrayPtr_ne_null hn (by decide) rfl⟩
    obtain ⟨acts, s, hrun, hzero⟩ := exists_run_dividesByZero (e := ⟨0, 1, 0, .nothing⟩) inp harr
      hleft hfree (by decide) rfl
    exact ⟨acts, s, _, hrun, hzero⟩

/-- Whatever the allocations do, the small call with two threads does not divide by zero.  If its
second thread cannot be created, the first one can. -/
theorem no_zero_divisor_sample :
    ((sampleCall 2).KeepsWorkers ∧ ∀ allocates acts s,
      Syscall.encrypt.Run ((sampleCall 2).withAllocates allocates) (.idle sampleFiles) acts s →
        s.caller ≠ .oops ∧ ∀ w ∈ s.workers, w.pc ≠ .oops) ∧
    ¬ failingSecondThread.KeepsWorkers ∧ ∃ acts s e,
      Syscall.encrypt.Run failingSecondThread (.idle sampleFiles) acts s ∧
        s.DividesByZero 0 (.stray e) := by
  constructor
  · have hkeeps : (sampleCall 2).KeepsWorkers := by decide
    have hall := (no_zero_divisor_iff .encrypt (c := sampleCall 2) (sampleInputs 2)).1.mpr
      (by decide)
    refine ⟨hkeeps, fun allocates acts s hrun => ?_⟩
    obtain ⟨hcaller, hworkers⟩ := (hall allocates).1 acts s hrun
    exact ⟨hcaller, hworkers hkeeps⟩
  · have hleft : ¬ failingSecondThread.KeepsWorkers := by decide
    have inp : Inputs failingSecondThread (Kernel.idle sampleFiles).fs := { sampleInputs 2 with }
    exact ⟨hleft, (no_zero_divisor_iff .encrypt (c := failingSecondThread) inp).2 rfl hleft⟩

/-- The small call with no thread divides by zero. -/
theorem zero_threads_oops :
    ∃ acts s, Syscall.encrypt.Run (sampleCall 0) (.idle sampleFiles) acts s ∧ s.caller = .oops :=
  exists_run_oops .encrypt (sampleInputs 0) (by decide)

end XorSyscalls
