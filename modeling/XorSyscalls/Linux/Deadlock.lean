import XorSyscalls.Linux.Refinement

/-!
# No deadlock over the code of the mutex

The refinement says what a run can do, not that the code of the mutex goes on.  That some thread can
always go on follows from the two halves: a worker in the code of the mutex is not left asleep
(`WakeInv.exists_holding`), and a worker that has the mutex and finds its memory is blocked by
nobody.
-/

namespace XorSyscalls.Linux

open TransitionSystem

/-- What the private state of a call looks like from outside says enough about it. -/
lemma sound_of_viewState {mutexes : Mutex → MutexState (ℕ × ℕ)} {d : Syscall} {c : Call} {s : State}
    (h : (viewState mutexes d c s).Sound c) : s.Sound c :=
  ⟨h.caller, by simpa [viewState] using h.counts, by simpa [viewState] using h.created⟩

/-- Outside of the code of the mutex, a worker that is safe from outside finds its memory. -/
lemma served_of_viewState {mutexes : Mutex → MutexState (ℕ × ℕ)} {d : Syscall} {c : Call}
    {s : State} (hsafe : (viewState mutexes d c s).Safe c)
    (hsound : (viewState mutexes d c s).Sound c) {i : ℕ} {w : Worker}
    (hw : s.workers[i]? = some w) (hpc : w.pc ≠ .locking) (hpc' : ∀ r, w.pc ≠ .unlocking r) :
    (∃ r, w.pc = .exited r) ∨ ∃ a, w.Served c s.kernel a := by
  have hview : (viewState mutexes d c s).workers[i]? = some w := by
    rw [viewState, List.getElem?_mapIdx, hw, Option.map_some, MutexState.view_eq_self hpc hpc']
  refine (hsafe.served hsound hview).imp_right ?_
  rintro ⟨a, hserved⟩
  exact ⟨a, hserved.of_mem_eq rfl rfl⟩

/-- A worker that cannot go on has exited, or is blocked in the code of the mutex. -/
lemma blocked_of_workerStep {lock : Mutex} {task i : ℕ} {k : Kernel} {M : MutexState (ℕ × ℕ)}
    {c : Call} {w : Worker} (hserved : w.pc ≠ .locking → (∀ r, w.pc ≠ .unlocking r) →
      (∃ r, w.pc = .exited r) ∨ ∃ a, w.Served c k a)
    (hfits : Fits w.pc (M.pc (task, i))) (h : workerStep lock task i .go .usual k M w = none) :
    (∃ r, w.pc = .exited r) ∨
      (M.pc (task, i)).Inside ∧ M.step (task, i) w.shouldStop .go = none := by
  have hinside : ∀ {q : Pc (ℕ × ℕ)}, q ≠ .idle → q ≠ .holding → q ≠ .interrupted → q.Inside := by
    intro q
    cases q <;> simp [Pc.Inside]
  unfold workerStep at h
  split at h
  · cases h
  · cases h
  · cases h
  · rename_i hpc hne hne'
    rw [Option.map_eq_none_iff] at h
    refine .inr ⟨hinside (fun hidle => ?_) hne hne', h⟩
    simp [MutexState.step, hidle] at h
  · rename_i r hpc hne
    rw [Option.map_eq_none_iff] at h
    rw [hpc] at hfits
    refine .inr ⟨hinside hne (fun hholding => ?_) fun hinterrupted => ?_, h⟩
    · simp [MutexState.step, hholding] at h
    · rw [hinterrupted] at hfits
      exact hfits
  · rename_i hpc hpc' _ _ _
    rw [Option.map_eq_none_iff] at h
    rcases hserved hpc hpc' with hexited | ⟨a, hserved⟩
    · exact .inl hexited
    · exact (hserved.of_workerStep_eq_none h).imp_right fun hlocking => absurd hlocking.1 hpc

variable {cs : Calls} {k : Kernel} {acts : List (ℕ × LinuxAct)} {L : LinuxSystem}

/-- If nobody can take a step, every worker has exited. -/
lemma exited_of_stuck (h : L.Inv cs)
    (hserved : ∀ (j : ℕ) d c p, cs.list[j]? = some (d, c) → L.system.procs[j]? = some p →
      ∀ (i : ℕ) w, p.workers[i]? = some w → w.pc ≠ .locking → (∀ r, w.pc ≠ .unlocking r) →
        (∃ r, w.pc = .exited r) ∨ ∃ a, w.Served c L.system.kernel a)
    (hstuck : ∀ a, step cs L a = none) {m : Mutex} {t : ℕ × ℕ} {w : Worker}
    (hat : WorkerAt cs L.system m t w) : ∃ r, w.pc = .exited r := by
  have hblocked : ∀ t w, WorkerAt cs L.system m t w → (∃ r, w.pc = .exited r) ∨
      ((L.mutexes m).pc t).Inside ∧ (L.mutexes m).step t w.shouldStop .go = none := by
    intro t w hat
    have hfits := h.fits m t w hat
    obtain ⟨j, d, c, p, hcall, rfl, htask, hproc, hw⟩ := hat
    obtain ⟨task, i⟩ := t
    obtain rfl : c.task = task := htask
    have hnone := hstuck (j, .worker i .go)
    simp only [step, hcall, hproc, LinuxSystem.moveWorker, hw, Option.map_eq_none_iff] at hnone
    exact blocked_of_workerStep (hserved j d c p hcall hproc i w hw) hfits hnone
  refine (hblocked t w hat).resolve_right fun hblock => ?_
  -- somebody has the mutex, and is not blocked
  obtain ⟨u, hu⟩ := (h.mutex m).exists_holding hblock.1 fun u hu => by
    obtain ⟨v, hv⟩ := h.outside m u fun hidle => by simp [hidle, Pc.Inside] at hu
    refine ⟨v.shouldStop, ((hblocked u v hv).resolve_left ?_).2⟩
    rintro ⟨r, hr⟩
    have hfits := h.fits m u v hv
    rw [hr] at hfits
    have hidle : (L.mutexes m).pc u = .idle := hfits
    simp [hidle, Pc.Inside] at hu
  obtain ⟨v, hv⟩ := h.outside m u (by simp [hu])
  rcases hblocked u v hv with ⟨r, hr⟩ | ⟨hinside, -⟩
  · have hfits := h.fits m u v hv
    rw [hr, hu] at hfits
    cases hfits
  · simp [hu, Pc.Inside] at hinside

/-- With a positive number of threads no calling thread divides by zero. -/
lemma caller_ne_oops_of_run (hn : ∀ x ∈ cs.list, 1 ≤ x.2.args.numThreads.toInt)
    {acts : List (ℕ × Act)} {S : System} (hrun : cs.Run k acts S) {j : ℕ} {d : Syscall} {c : Call}
    {p : Process} (hcall : cs.list[j]? = some (d, c)) (hproc : S.procs[j]? = some p) :
    p.caller ≠ .oops :=
  Calls.forall_procs_of_run (I := fun _ c s => 1 ≤ c.args.numThreads.toInt → s.caller ≠ .oops)
    (fun _ _ _ _ h => h) (fun _ _ _ _ h => by cases h)
    (fun _ _ _ _ _ h hstep hn => Syscall.caller_ne_oops_of_step hn (h hn) hstep) hrun hcall hproc
    (hn _ (List.mem_of_getElem? hcall))

/-- For any number of concurrent calls with a positive number of threads over the code of the Linux
mutex, none of which leaves a worker behind: until every call has returned and every worker has
exited, some thread can take a step. -/
theorem linux_deadlock_free (hn : ∀ x ∈ cs.list, 1 ≤ x.2.args.numThreads.toInt)
    (hkeep : cs.KeepWorkers) (hfree : ∀ m, k.holder m = none) (hrun : Run cs k acts L) :
    Calls.Finished L.system ∨ ∃ a L', step cs L a = some L' := by
  obtain ⟨hinv, acts', hview⟩ := exists_run_view hfree hrun
  have hsound : ∀ (j : ℕ) d c p, cs.list[j]? = some (d, c) → L.system.procs[j]? = some p →
      (viewState L.mutexes d c (L.system.view p)).Sound c := fun j d c p hcall hproc =>
    Calls.sound_of_run hview hcall (getElem?_view hcall hproc)
  have hserved : ∀ (j : ℕ) d c p, cs.list[j]? = some (d, c) → L.system.procs[j]? = some p →
      ∀ (i : ℕ) w, p.workers[i]? = some w → w.pc ≠ .locking → (∀ r, w.pc ≠ .unlocking r) →
        (∃ r, w.pc = .exited r) ∨ ∃ a, w.Served c L.system.kernel a :=
    fun j d c p hcall hproc i w hw => served_of_viewState (s := L.system.view p)
      (Calls.safe_of_run hkeep hview hcall (getElem?_view hcall hproc))
      (hsound j d c p hcall hproc) hw
  by_contra! hcon
  obtain ⟨hfinished, hstep⟩ := hcon
  have hstuck : ∀ a, step cs L a = none := fun a => Option.eq_none_iff_forall_ne_some.mpr (hstep a)
  apply hfinished
  intro p hp
  obtain ⟨j, hproc⟩ := List.mem_iff_getElem?.mp hp
  obtain ⟨d, c, hcall⟩ := hinv.exists_call hproc
  have hexited : ∀ w ∈ p.workers, ∃ r, w.pc = .exited r := fun w hw => by
    obtain ⟨i, hi⟩ := List.mem_iff_getElem?.mp hw
    exact exited_of_stuck hinv hserved hstuck ((workerAt_self hcall hproc).mpr ⟨rfl, hi⟩)
  refine ⟨?_, hexited⟩
  have hoops := caller_ne_oops_of_run hn hview hcall (getElem?_view hcall hproc)
  have hnone : d.step c (L.system.view p) .caller = none := by
    simpa only [step, hcall, hproc, Option.map_eq_none_iff] using hstuck (j, .caller)
  rcases Syscall.caller_blocked (sound_of_viewState (hsound j d c p hcall hproc)) hoops hnone with
    hreturned | ⟨q, i, w, -, hw, hne⟩
  · exact hreturned
  · obtain ⟨r, hr⟩ := hexited w (List.mem_of_getElem? hw)
    exact absurd hr (hne r)

/-- While one worker holds the mutex and another one sleeps in its wait list, where it cannot take a
step, the calls go on. -/
theorem linux_deadlock_free_sample :
    ∃ L, Run (sampleCalls 2) (.idle sampleFiles) sampleContention L ∧
      (L.mutexes .syncLock).holder = some (1, 0) ∧ (L.mutexes .syncLock).pc (1, 1) = .schedule ∧
      step (sampleCalls 2) L (0, .worker 1 .go) = none ∧
      (Calls.Finished L.system ∨ ∃ a L', step (sampleCalls 2) L a = some L') := by
  obtain ⟨L, hrun, hholder, -, hpc, hblocked⟩ := sampleContention_mutex
  refine ⟨L, hrun, hholder, hpc, hblocked,
    linux_deadlock_free ?_ (sampleCalls_keep 2) (fun _ => rfl) hrun⟩
  intro x hx
  simp only [sampleCalls, List.mem_cons, List.not_mem_nil, or_false] at hx
  rcases hx with rfl | rfl <;> decide

end XorSyscalls.Linux
