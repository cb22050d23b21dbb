import XorSyscalls.Linux.KthreadRefinement
import XorSyscalls.Concurrent.Progress

/-!
# The lifetime of kernel threads

The system calls give `kthread_stop` the pointer that `kthread_run` has returned.  A worker that has
done its part exits by itself, so its `task_struct` may be freed before `kthread_stop` is called;
`use_after_free_iff` says for which calls this happens.

Nothing else goes wrong with the `task_struct` of a call that leaves no worker behind: every run
ends, and in the end every thread has exited and has been freed (`kthread_no_leak`).
-/

namespace XorSyscalls

open TransitionSystem

/-! ## A worker that exits by itself -/

section Exit

variable {d : Syscall} {c : Call}

/-- A new worker that runs alone exits before it is stopped. -/
lemma reaches_exited_alone {s : State} {i : ℕ} {p : ArgsPtr} {a : WorkerArgs}
    (hw : s.workers[i]? = some (Worker.new p a.rangeStart)) (hfree : s.kernel.holder d.lock = none)
    (hprov : s.kernel.Provides p a) (hend : a.rangeEnd < sizeModulus)
    (hle : a.rangeStart ≤ a.rangeEnd) :
    ∃ k, Reaches (d.step c) s (s.withWorker i k ⟨p, a.rangeEnd, false, .exited 0⟩) := by
  have hi := (List.getElem?_eq_some_iff.mp hw).1
  have hlock := reaches_locked (c := c) hi hprov hfree
  have hlocked : (s.kernel.setHolder d.lock (some (c.task, i))).Provides p a :=
    ⟨hprov.args, hprov.data, hprov.key, hprov.key_pos⟩
  obtain ⟨k, -, hkeeps, hxored⟩ := reaches_xored (d := d) (c := c) hi hend
    (a.rangeEnd - a.rangeStart) a.rangeStart (by omega) _ hlocked
  rw [Nat.add_sub_of_le hle] at hxored
  have htest : workerStep d.lock c.task i .usual k ⟨p, a.rangeEnd, false, .testing⟩ =
      some (k, ⟨p, a.rangeEnd, false, .unlocking 0⟩) := by
    simp [workerStep, Kernel.findArgs, (hkeeps p a hlocked).args]
  rw [State.withWorker_self hw] at hlock
  exact ⟨_, ((hlock.trans hxored).trans (reaches_worker hi htest)).trans
    (reaches_exited hi p a.rangeEnd false 0 k)⟩

/-- A call that starts its workers can get to `kthread_stop` of any of them when it has exited. -/
lemma exists_run_exited {k₀ : Kernel} (inp : Inputs c k₀.fs) (hstart : c.StartsWorkers)
    (hfree : k₀.holder d.lock = none) {i : ℕ} (hi : i < c.threads) :
    ∃ acts s w, d.Run c k₀ acts s ∧ s.caller = .stop inp.prepared i ∧ s.workers[i]? = some w ∧
      w.pc = .exited 0 := by
  obtain ⟨acts, k, hfree', hprov, hrun⟩ := exists_run_stopping d inp hstart hfree (fun _ => 0)
    (fun j hj => chunkStart_le_chunkEnd hj) hi.le
  have hnew : (inp.workersAt (fun _ => 0) i)[i]? =
      some (Worker.new (inp.prepared.argsPtr i) (inp.argsOf i).rangeStart) := by
    rw [inp.getElem?_workersAt _ i hi, if_neg (lt_irrefl i)]
  obtain ⟨k', hexited⟩ := reaches_exited_alone (d := d) (c := c)
    (s := ⟨k, .stop inp.prepared i, inp.workersAt (fun _ => 0) i⟩) hnew hfree' (hprov i hi)
    (Inputs.rangeEnd_lt hi) (chunkStart_le_chunkEnd hi)
  obtain ⟨acts', hrun'⟩ := Reaches.trans ⟨acts, hrun⟩ hexited
  exact ⟨acts', _, _, hrun', rfl, List.getElem?_set_self (by simpa using hi), rfl⟩

end Exit

namespace Kthread

/-! ## Freed threads -/

section Freed

variable {d : Syscall} {c : Call} {s s' : KState} {i : ℕ} {t : Thread} {k₀ : Kernel}

/-- The references of the kernel to a thread that has exited can be dropped. -/
lemma reaches_reaped (ht : s.threads[i]? = some t) (hfault : s.fault = false)
    (hphase : t.task.phase = .notifying) (hrcu : t.task.rcuUsers = 2) (husage : t.task.usage = 1) :
    ∃ t', t'.task.freed = true ∧
      Reaches (step d c) s (s.withThread s.kernel s.caller i t') := by
  have hi := (List.getElem?_eq_some_iff.mp ht).1
  have hself : s.withThread s.kernel s.caller i t = s := withThread_self ht _ _
  have hdead := reaches_thread (d := d) (c := c) (k := s.kernel) hi hfault s.caller
    (.releases (.inl hphase))
  have hdead' : t.task.putTaskStructRcuUser = { t.task with rcuUsers := 1, phase := .dead } := by
    simp [Task.putTaskStructRcuUser, hrcu]
  have hqueued := reaches_thread (d := d) (c := c) (k := s.kernel) hi hfault s.caller
    (.releases (t := { t with task := t.task.putTaskStructRcuUser }) (.inr (by rw [hdead'])))
  have hqueued' : t.task.putTaskStructRcuUser.putTaskStructRcuUser =
      { t.task with rcuUsers := 0, phase := .queued } := by
    simp [Task.putTaskStructRcuUser, hrcu]
  have hreaped := reaches_thread (d := d) (c := c) (k := s.kernel) hi hfault s.caller
    (.reaps (t := { t with task := t.task.putTaskStructRcuUser.putTaskStructRcuUser })
      (by rw [hqueued']))
  rw [hself] at hdead
  refine ⟨_, ?_, (hdead.trans hqueued).trans hreaped⟩
  simp [hqueued', Task.putTaskStruct, husage]

/-- A call uses a freed `task_struct` in some schedule, namely that of thread `i`, iff its inputs
are in order, all of its threads get started and `i` is one of them.  So the pointer that
`kthread_stop` is given can be dangling whenever the stop loop is reached at all.  Only its
`get_task_struct` can go wrong in this way: from there on the thread is not freed before
`kthread_stop` returns. -/
theorem use_after_free_iff (hfree : k₀.holder d.lock = none) :
    (∀ i, (∃ acts s, Run d c k₀ acts s ∧ s.caller.Accesses i ∧ s.fault = true) ↔
      Nonempty (Inputs c k₀.fs) ∧ c.StartsWorkers ∧ i < c.threads) ∧
    ∀ acts s, Run d c k₀ acts s →
      (s.fault = true → ∃ q i t, s.caller = .stopping q i .get ∧ s.threads[i]? = some t ∧
        t.task.freed = true) ∧
      ∀ q i pc t, s.caller = .stopping q i pc → pc ≠ .get → s.threads[i]? = some t →
        t.task.freed = false := by
  refine ⟨fun i => ?_, fun acts s hrun => ⟨(Inv.of_run hrun).fault,
    fun q i pc t hpc hget ht => (Inv.of_run hrun).freed_eq_false hpc hget ht⟩⟩
  constructor
  · rintro ⟨acts, s, hrun, haccess, hfault⟩
    have hinv := Inv.of_run hrun
    obtain ⟨q, j, t, hpc, ht, hfreed⟩ := hinv.fault hfault
    rw [hpc] at haccess
    obtain rfl : j = i := haccess
    have hknows := hinv.caller
    rw [hpc] at hknows
    obtain ⟨acts', hview⟩ := exists_run_view hrun
    have hstop : s.view.caller = .stop q j := by
      rw [KState.view, hpc]
      rfl
    obtain ⟨inp, -, hready, -, hlen, -⟩ := (XorSyscalls.Inv.of_run hview).at_stop hstop
    refine ⟨⟨inp⟩, ⟨hready, fun i hi => ?_⟩, Call.natCast_lt_numThreads.mp hknows.2.1⟩
    exact threadError_of_run hview i (hlen ▸ hi)
  · rintro ⟨⟨inp⟩, hstart, hi⟩
    obtain ⟨acts, _, w, hrun, hstop, hw, hexited⟩ := exists_run_exited inp hstart hfree hi
    obtain ⟨acts', s, hrun', hrests, rfl⟩ := exists_rests hrun
    have hpc := hrests.caller_eq hstop
    obtain ⟨t, ht, rfl⟩ := exists_of_getElem?_view hw
    have hok := hrests.inv.threads i t ht
    have hphase : t.task.phase = .notifying := by
      have hat := hok.pc
      rw [hexited] at hat
      rcases (hrests.threads i t ht).phase with hphase | hphase | hphase
      · rw [hphase] at hat
        cases hat
      · rw [hphase] at hat
        exact absurd rfl (hat.2 0)
      · exact hphase
    have hrcu : t.task.rcuUsers = 2 := by rw [hok.rcuUsers, hphase]; rfl
    have husage : t.task.usage = 1 := by rw [hok.usage, hphase, hpc]; rfl
    obtain ⟨t', hfreed, hreaped⟩ :=
      reaches_reaped (d := d) (c := c) ht hrests.fault hphase hrcu husage
    -- now `kthread_stop` is called with the dangling pointer
    have henter := Move.enter (d := d) (c := c) (s := s.withThread s.kernel s.caller i t') hpc
      (Call.natCast_lt_numThreads.mpr hi)
    have hlen := (List.getElem?_eq_some_iff.mp ht).1
    have hfault := Move.fault (d := d) (c := c) (i := i) (t := t')
      (s := s.withThread s.kernel (.stopping inp.prepared i .get) i t') rfl
      (List.getElem?_set_self hlen) hfreed
    have hstart : Reaches (step d c) (.start d c k₀) s := ⟨acts', hrun'⟩
    obtain ⟨acts'', hrun''⟩ := ((hstart.trans hreaped).trans (henter.reaches hrests.fault)).trans
      (hfault.reaches hrests.fault)
    exact ⟨acts'', _, hrun'', rfl, rfl⟩

/-- The small call with two threads can be given a dangling pointer to the second one. -/
theorem use_after_free_sample : (Kernel.idle sampleFiles).holder Syscall.encrypt.lock = none ∧
    ∃ acts s q t, Run .encrypt (sampleCall 2) (.idle sampleFiles) acts s ∧ s.fault = true ∧
      s.caller = .stopping q 1 .get ∧ s.threads[1]? = some t ∧ t.task.freed = true := by
  have hfree : (Kernel.idle sampleFiles).holder Syscall.encrypt.lock = none := rfl
  obtain ⟨hiff, hrun⟩ := use_after_free_iff (c := sampleCall 2) hfree
  obtain ⟨acts, s, hacts, haccess, hfault⟩ := (hiff 1).mpr
    ⟨⟨sampleInputs 2⟩, sampleCall_startsWorkers (by decide) (by decide), by decide⟩
  obtain ⟨q, i, t, hpc, ht, hfreed⟩ := (hrun acts s hacts).1 hfault
  rw [hpc] at haccess
  obtain rfl : i = 1 := haccess
  exact ⟨hfree, acts, s, q, t, hacts, hfault, hpc, ht, hfreed⟩

end Freed

/-! ## What is left at the end -/

section End

variable {d : Syscall} {c : Call} {s s' : KState} {i : ℕ} {t : Thread} {k₀ : Kernel}

/-- A call that leaves no worker behind serves them until they exit. -/
lemma safe_of_run (hkeeps : c.KeepsWorkers) {acts : List Act} {s : State}
    (hrun : d.Run c k₀ acts s) : s.Safe c ∧ s.Sound c :=
  run_invariant (I := fun s => s.Safe c ∧ s.Sound c) ⟨.start d c k₀, .start d c k₀⟩
    (fun _ _ _ h hstep => ⟨h.1.step h.2 hkeeps hstep, h.2.step hstep⟩) hrun

/-- A thread that cannot move waits for the mutex or has been reaped, if it has been woken. -/
lemma thread_blocked {holds pending : Bool} (hok : t.Ok holds pending false)
    {k : Kernel} (hserved : (∃ r, t.worker.pc = .exited r) ∨ ∃ a, t.worker.Served c k a)
    (h : ∀ k' t', ¬ThreadMove d c.task i k t k' t') :
    t.task.phase = .reaped ∨ t.worker.pc = .locking ∧ k.holder d.lock ≠ none := by
  have hpc := hok.pc
  have hworker : d.worker c.task i (chance none) k t.worker = none →
      (∃ r, t.worker.pc = .exited r) ∨ t.worker.pc = .locking ∧ k.holder d.lock ≠ none := by
    intro hnone
    rw [d.worker_eq] at hnone
    rcases hserved with hexited | ⟨a, hserved⟩
    · exact .inl hexited
    · exact hserved.of_workerStep_eq_none hnone
  cases hphase : t.task.phase with
  | parked => exact absurd (.wakes hphase (hok.runnable hphase rfl)) (h _ _)
  | woken =>
    rw [hphase] at hpc
    cases hm : d.worker c.task i (chance none) k t.worker with
    | some m => exact absurd (.begins hphase hm) (h _ _)
    | none =>
      have hcreated : t.worker.pc = .created := hpc
      simp [hcreated] at hworker
      exact absurd hm hworker
  | running =>
    rw [hphase] at hpc
    by_cases hreturn : ∃ r, t.worker.pc = .returning r
    · obtain ⟨r, hreturn⟩ := hreturn
      exact absurd (.exits hphase hreturn) (h _ _)
    · cases hm : d.worker c.task i (chance none) k t.worker with
      | some m => exact absurd (.runs hphase (not_exists.mp hreturn) hm) (h _ _)
      | none =>
        rcases hworker hm with ⟨r, hr⟩ | hlocking
        · exact absurd hr (hpc.2 r)
        · exact .inr hlocking
  | exiting => exact absurd (.completes hphase) (h _ _)
  | notifying => exact absurd (.releases (.inl hphase)) (h _ _)
  | dead => exact absurd (.releases (.inr hphase)) (h _ _)
  | queued => exact absurd (.reaps hphase) (h _ _)
  | reaped => exact .inl rfl

/-- An access to a thread is never blocked, but for the wait in `kthread_stop`. -/
lemma exists_move_of_accesses (h : Inv c s) (haccess : s.caller.Accesses i)
    (ht : s.threads[i]? = some t) (hphase : t.task.phase = .reaped ∨ ∃ q seg off,
      s.caller = .waking q seg i off) : ∃ s', Move d c s s' := by
  cases hfreed : t.task.freed with
  | true => exact ⟨_, .fault haccess ht hfreed⟩
  | false =>
    cases hpc : s.caller with
    | code | stopped =>
      rw [hpc] at haccess
      exact haccess.elim
    | waking q seg j off =>
      rw [hpc] at haccess
      obtain rfl : j = i := haccess
      exact ⟨_, .wake hpc ht hfreed⟩
    | stopping q j pc =>
      rw [hpc] at haccess
      obtain rfl : j = i := haccess
      suffices hm : ∃ m, kthreadStop pc t = some m by
        obtain ⟨m, hm⟩ := hm
        exact ⟨_, .stop hpc ht hfreed hm⟩
      cases pc with
      | wait =>
        have hone : t.task.exited = 1 := by
          have hphase : t.task.phase = .reaped := by simpa [hpc] using hphase
          rw [(h.threads j t ht).exited (by rw [hpc, KCaller.pending_stopping]; rfl), hphase]
          rfl
        exact ⟨_, by rw [kthreadStop, if_neg (by omega)]⟩
      | _ => exact ⟨_, rfl⟩

/-- If nothing can move, every thread has been reaped. -/
lemma reaped_of_stuck (hkeeps : c.KeepsWorkers) (hfree : k₀.holder d.lock = none)
    {acts : List KAct} (hrun : Run d c k₀ acts s) (hstuck : ∀ s', ¬Move d c s s')
    (ht : s.threads[i]? = some t) : t.task.phase = .reaped := by
  have hinv := Inv.of_run hrun
  obtain ⟨acts', hview⟩ := exists_run_view hrun
  obtain ⟨hsafe, hsound⟩ := safe_of_run hkeeps hview
  have hwakes : ∀ i, s.caller.wakes i = false := by
    intro i
    have hknows := hinv.caller
    cases hpc : s.caller with
    | waking q seg j off =>
      rw [hpc] at hknows
      obtain ⟨hlen, -⟩ := hknows
      obtain ⟨s', hmove⟩ := exists_move_of_accesses (d := d) (i := j) hinv (hpc ▸ rfl)
        (List.getElem?_eq_getElem (by omega)) (.inr ⟨q, seg, off, hpc⟩)
      exact absurd hmove (hstuck s')
    | _ => rfl
  have hblocked : ∀ {i : ℕ} {t : Thread}, s.threads[i]? = some t →
      t.task.phase = .reaped ∨ t.worker.pc = .locking ∧ s.kernel.holder d.lock ≠ none := by
    intro i t ht
    have hok := hinv.threads i t ht
    rw [hwakes] at hok
    exact thread_blocked hok (hsafe.served hsound (getElem?_view ht))
      fun k' t' hmove => hstuck _ (.thread ht hmove)
  refine (hblocked ht).resolve_right fun hlocking => ?_
  -- the holder of the mutex is in its critical section, where nothing blocks it
  obtain ⟨o, ho⟩ := Option.ne_none_iff_exists'.mp hlocking.2
  obtain ⟨j, w, hw, hcrit⟩ := Syscall.criticalAt_of_holder hfree hview ho
  obtain ⟨u, hu, rfl⟩ := exists_of_getElem?_view hw
  rcases hblocked hu with hphase | ⟨hlocking, -⟩
  · have hexited := (hinv.threads j u hu).pc_of_completed (by rw [hphase]; rfl)
    rw [hexited] at hcrit
    exact hcrit
  · rw [hlocking] at hcrit
    exact hcrit

/-- If nothing can move, the calling thread has returned. -/
lemma returned_of_stuck (hn : 1 ≤ c.args.numThreads.toInt) (hkeeps : c.KeepsWorkers)
    (hfree : k₀.holder d.lock = none) {acts : List KAct} (hrun : Run d c k₀ acts s)
    (hstuck : ∀ s', ¬Move d c s s') : ∃ r, s.caller = .code (.returned r) := by
  have hinv := Inv.of_run hrun
  have hknows := hinv.caller
  obtain ⟨acts', hview⟩ := exists_run_view hrun
  have haccess : ∀ {i : ℕ}, i < s.threads.length → ¬s.caller.Accesses i := fun hi haccess => by
    have ht := List.getElem?_eq_getElem hi
    obtain ⟨s', hmove⟩ := exists_move_of_accesses (d := d) hinv haccess ht
      (.inl (reaped_of_stuck hkeeps hfree hrun hstuck ht))
    exact hstuck s' hmove
  cases hpc : s.caller with
  | waking q seg i off =>
    rw [hpc] at hknows
    obtain ⟨hlen, -⟩ := hknows
    exact absurd (hpc ▸ rfl) (haccess (i := i) (by omega))
  | stopping q i pc =>
    rw [hpc] at hknows
    obtain ⟨hlen, hi, -⟩ := hknows
    exact absurd (hpc ▸ rfl) (haccess (i := i) (by omega))
  | stopped q i r => exact absurd (.log hpc) (hstuck _)
  | code caller =>
    cases caller with
    | create q seg i off =>
      rcases lt_or_ge (i : ℤ) c.args.numThreads.toInt with hlt | hge
      · cases herr : c.env.threadError i with
        | none => exact absurd (.create hpc hlt herr) (hstuck _)
        | some e => exact absurd (.createError hpc hlt herr) (hstuck _)
      · exact absurd (.createDone hpc hge) (hstuck _)
    | stop q i =>
      rcases lt_or_ge (i : ℤ) c.args.numThreads.toInt with hlt | hge
      · exact absurd (.enter hpc hlt) (hstuck _)
      · exact absurd (.stopDone hpc hge) (hstuck _)
    | wait q i =>
      rw [hpc] at hknows
      exact hknows.elim
    | _ =>
      have hsound := (safe_of_run hkeeps hview).2
      have hnone : d.step c s.view .caller = none := by
        rw [d.step_caller, KState.view, hpc]
        refine (Caller.Plain.callerStep_eq (by trivial) (by simp [KCaller.view]) _ [] _).trans ?_
        rw [Option.map_eq_none_iff, Option.eq_none_iff_forall_ne_some]
        exact fun s' hs' => hstuck _ (.code hpc (by trivial) hs')
      have hoops := (no_oops (by omega) hview).1
      rcases Syscall.caller_blocked hsound hoops hnone with ⟨r, hr⟩ | ⟨q, i, w, hwait, -⟩
      · rw [KState.view, hpc] at hr
        exact ⟨r, congrArg KCaller.code hr⟩
      · rw [KState.view, hpc] at hwait
        cases hwait

/-- Every run of a call that leaves no worker behind ends. -/
lemma terminates_start (d : Syscall) (k₀ : Kernel) (hkeeps : c.KeepsWorkers) :
    Terminates (step d c) (.start d c k₀) := by
  refine terminates_of_rank
    (I := fun s => Inv c s ∧ s.view.Safe c ∧ s.view.Sound c ∧ s.view.caller.Bounded)
    (fun s => toLex (s.view.caller.rank c,
      toLex ((s.view.workers.map Worker.rank).sum, s.rank)))
    ?_ ⟨.start d c k₀, .start d c k₀, .start d c k₀, 18, d.prepares_eq ▸ prepare_within d c.args⟩
  rintro s a s' ⟨hinv, hsafe, hsound, hbounded⟩ hstep
  obtain ⟨hfault, hmove⟩ := move_of_step hstep
  have hinv' := hinv.move hmove hfault
  rcases view_move hinv hfault hmove with ⟨hview, hrank⟩ | ⟨a', ha'⟩
  · -- the step is not seen
    rw [hview]
    refine ⟨⟨hinv', hsafe, hsound, hbounded⟩, ?_⟩
    simp only [Prod.Lex.toLex_lt_toLex, lt_irrefl, false_or, true_and]
    exact hrank
  · refine ⟨⟨hinv', hsafe.step hsound hkeeps ha', hsound.step ha',
      Syscall.bounded_of_step hbounded ha'⟩, ?_⟩
    simp only [Prod.Lex.toLex_lt_toLex]
    rcases Syscall.rank_lt_of_step hsafe hsound hbounded ha' with hlt | ⟨heq, hlt⟩
    · exact .inl hlt
    · exact .inr ⟨congrArg (Caller.rank c) heq, .inl hlt⟩

/-- Kernel threads do not leak.  Every run of a call with a positive number of threads that leaves
no worker behind ends, and unless a freed thread has been used, it can only end when the call has
returned and all of its threads have exited and have been freed. -/
theorem kthread_no_leak (hn : 1 ≤ c.args.numThreads.toInt) (hkeeps : c.KeepsWorkers)
    (hfree : k₀.holder d.lock = none) :
    Terminates (step d c) (.start d c k₀) ∧
      ∀ acts s, Run d c k₀ acts s → (∀ a, step d c s a = none) → s.fault = true ∨
        (∃ r, s.caller = .code (.returned r)) ∧
          ∀ t ∈ s.threads, t.task.freed = true ∧ ∃ r, t.worker.pc = .exited r := by
  refine ⟨terminates_start d k₀ hkeeps, fun acts s hrun hnone => ?_⟩
  cases hfault : s.fault with
  | true => exact .inl rfl
  | false =>
    right
    have hstuck : ∀ s', ¬Move d c s s' := fun s' hmove => by
      obtain ⟨a, ha⟩ := hmove.exists_step hfault
      rw [hnone a] at ha
      cases ha
    obtain ⟨r, hreturned⟩ := returned_of_stuck hn hkeeps hfree hrun hstuck
    refine ⟨⟨r, hreturned⟩, fun t ht => ?_⟩
    obtain ⟨i, hi⟩ := List.mem_iff_getElem?.mp ht
    have hok := (Inv.of_run hrun).threads i t hi
    have hphase := reaped_of_stuck hkeeps hfree hrun hstuck hi
    rw [hreturned] at hok
    refine ⟨?_, _, hok.pc_of_completed (by rw [hphase]; rfl)⟩
    rw [hok.freed, hok.usage, hphase]
    rfl

/-- Conversely nothing moves when a call has returned and its threads have been reaped. -/
lemma step_eq_none_of_reaped {r : ℤ} (hpc : s.caller = .code (.returned r))
    (h : ∀ t ∈ s.threads, t.task.phase = .reaped) (a : KAct) : step d c s a = none := by
  rw [Option.eq_none_iff_forall_ne_some]
  intro s' hstep
  cases (move_of_step hstep).2 with
  | code hcode hplain hs =>
    rw [hpc] at hcode
    cases hcode
    cases hs
  | thread ht hmove =>
    have hphase := h _ (List.mem_of_getElem? ht)
    cases hmove with
    | releases hdead => rcases hdead with hdead | hdead <;> rw [hphase] at hdead <;> cases hdead
    | _ => simp_all
  | fault haccess =>
    rw [hpc] at haccess
    exact haccess
  | _ => simp_all

/-- Only a call that has returned is seen to have returned. -/
lemma KCaller.eq_of_view_returned {caller : KCaller} {r : ℤ} (h : caller.view = .returned r) :
    caller = .code (.returned r) := by
  cases caller with
  | code => exact congrArg KCaller.code h
  | waking | stopped => cases h
  | stopping q i pc => cases pc <;> cases h

/-- The small call with two threads that are reaped while `kthread_stop` waits for them. -/
def sampleLifetimes : List KAct :=
  List.replicate 25 .caller ++ List.replicate 11 (.thread 0) ++ [.reap 0, .reap 0] ++
    List.replicate 10 .caller ++ List.replicate 13 (.thread 1) ++ [.reap 1, .reap 1] ++
    List.replicate 18 .caller

/-- Both threads of the small call have exited and have been freed in the end. -/
theorem kthread_no_leak_sample : 1 ≤ (sampleCall 2).args.numThreads.toInt ∧
    (sampleCall 2).KeepsWorkers ∧ (Kernel.idle sampleFiles).holder Syscall.encrypt.lock = none ∧
    Terminates (step .encrypt (sampleCall 2))
      (.start .encrypt (sampleCall 2) (.idle sampleFiles)) ∧
    ∃ s, Run .encrypt (sampleCall 2) (.idle sampleFiles) sampleLifetimes s ∧
      (∀ a, step .encrypt (sampleCall 2) s a = none) ∧ s.fault = false ∧ s.threads.length = 2 ∧
      (∃ r, s.caller = .code (.returned r)) ∧
        ∀ t ∈ s.threads, t.task.freed = true ∧ ∃ r, t.worker.pc = .exited r := by
  have hkeeps : (sampleCall 2).KeepsWorkers := by decide
  have hfree : (Kernel.idle sampleFiles).holder Syscall.encrypt.lock = none := rfl
  obtain ⟨hterminates, hend⟩ := kthread_no_leak (by decide) hkeeps hfree
  have hresult : (run (step .encrypt (sampleCall 2)) (.start .encrypt (sampleCall 2)
      (.idle sampleFiles)) sampleLifetimes).map
        (fun s => (s.fault, s.view.caller.result, s.threads.map fun t => t.task.phase)) =
      some (false, some 0, [.reaped, .reaped]) := by
    decide +kernel
  obtain ⟨s, hrun, hs⟩ := Option.map_eq_some_iff.mp hresult
  simp only [Prod.mk.injEq] at hs
  obtain ⟨hfault, hcaller, hphases⟩ := hs
  have hreaped : ∀ t ∈ s.threads, t.task.phase = .reaped := fun t ht => by
    have hmem := List.mem_map_of_mem (f := fun t : Thread => t.task.phase) ht
    simpa [hphases] using hmem
  have hnone := step_eq_none_of_reaped (d := .encrypt) (c := sampleCall 2)
    (KCaller.eq_of_view_returned (Caller.eq_returned hcaller)) hreaped
  exact ⟨by decide, hkeeps, hfree, hterminates, s, hrun, hnone, hfault,
    by simpa using congrArg List.length hphases,
    (hend _ s hrun hnone).resolve_left (by simp [hfault])⟩

end End

end Kthread

end XorSyscalls
