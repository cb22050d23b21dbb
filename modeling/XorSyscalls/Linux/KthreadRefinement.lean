import XorSyscalls.Linux.KthreadInvariant
import XorSyscalls.Foundation.Simulation

/-!
# Kernel threads as the system calls see them

Seen from outside, a thread is created together with its wake-up, `kthread_stop` is one statement
that sets the flag and one that waits, and a thread has exited when its completion is set.  In this
view every step of the kernel threads is a step of `Syscall.step` or no step at all
(`view_move`).

Conversely every step of `Syscall.step` is made by kernel threads (`realise_step`): the calling
thread runs through `kthread_run` and `kthread_stop` without a break, and nobody drops a reference
to a dead thread.  So both systems have the same reachable states (`kthread_equiv`).
-/

namespace XorSyscalls

open TransitionSystem

/-- Code that does not touch the threads of a call does not depend on them either. -/
lemma Caller.Plain.callerStep_eq {d : Syscall} {c : Call} {caller : Caller} (h : caller.Plain)
    (hwait : ∀ q i, caller ≠ .wait q i) (k : Kernel) (ws ws' : List Worker) :
    callerStep d c ⟨k, caller, ws'⟩ =
      (callerStep d c ⟨k, caller, ws⟩).map fun s => { s with workers := ws' } := by
  cases caller with
  | entry p =>
    rcases p with (_ | _) | _ <;> rfl
  | segment q =>
    simp only [callerStep]
    split <;> rfl
  | create | stop => exact h.elim
  | wait q i => exact absurd rfl (hwait q i)
  | save q p => cases p <;> rfl
  | cleanup ps r => cases ps <;> rfl
  | returned | oops => rfl

/-- A signal only matters to a worker that waits for the mutex and is to stop. -/
lemma usual_or_interrupted {lock : Mutex} {task i : ℕ} {k k' : Kernel} {w w' : Worker}
    (h : workerStep lock task i .signal k w = some (k', w')) :
    workerStep lock task i .usual k w = some (k', w') ∨
      w.pc = .locking ∧ w.shouldStop = true ∧ k' = k ∧
        w' = { w with pc := .returning Errno.eintr.ret } := by
  have hfind : k.findArgs w.params .signal = k.findArgs w.params .usual := by
    simp only [Kernel.findArgs]
    cases k.loadArgs w.params <;> rfl
  have hxor : ∀ k : Kernel, ∀ dst idx src jdx, k.xorByte task dst idx src jdx .signal =
      k.xorByte task dst idx src jdx .usual := fun k dst idx src jdx => by
    simp only [Kernel.xorByte]
    cases k.byteAt dst idx <;> cases k.byteAt src jdx <;> rfl
  unfold workerStep at h ⊢
  cases hpc : w.pc with
  | locking =>
    right
    simp only [hpc, Kernel.mutexLockInterruptible] at h
    split at h <;> rename_i hstop
    · cases h
      exact ⟨rfl, hstop, rfl, rfl⟩
    · cases h
  | _ =>
    left
    simpa only [hpc, hfind, hxor] using h

namespace Kthread

/-! ## The view from outside -/

/-- The calling thread as it is seen from outside. -/
def KCaller.view : KCaller → Caller
  | .code caller => caller
  | .waking q seg i off => .create q seg (i + 1) (sizeAdd off seg)
  | .stopping q i .get | .stopping q i .setBit => .stop q i
  | .stopping q i _ | .stopped q i _ => .wait q i

/-- The state as it is seen from outside. -/
def KState.view (s : KState) : State := ⟨s.kernel, s.caller.view, s.threads.map Thread.worker⟩

/-- A bound for the statements of `kthread_stop` that are left. -/
def StopPc.rank : StopPc → ℕ
  | get => 9
  | setBit => 8
  | unpark => 7
  | notify => 6
  | wake => 5
  | wait => 4
  | read => 3
  | put _ => 2

/-- A bound for the steps in a row that are not seen of the calling thread. -/
def KCaller.rank : KCaller → ℕ
  | waking _ _ _ _ => 11
  | code _ => 10
  | stopping _ _ pc => pc.rank
  | stopped _ _ _ => 1

/-- A bound for the steps in a row that are not seen of a thread. -/
def Phase.rank : Phase → ℕ
  | parked => 7
  | woken => 6
  | running => 5
  | exiting => 4
  | notifying => 3
  | dead => 2
  | queued => 1
  | reaped => 0

/-- A bound for the steps in a row that are not seen. -/
def KState.rank (s : KState) : ℕ :=
  s.caller.rank + (s.threads.map fun t => t.task.phase.rank).sum + (!s.fault).toNat

section View

variable {d : Syscall} {c : Call} {s s' : KState}

/-- A change of the function of a thread is seen. -/
lemma map_worker_set {threads : List Thread} {i : ℕ} {t t' : Thread} {f : Worker → Worker}
    (ht : threads[i]? = some t) (h : t'.worker = f t.worker) :
    (threads.set i t').map Thread.worker = (threads.map Thread.worker).modify i f := by
  refine List.ext_getElem? fun j => ?_
  rw [List.map_set, h, List.getElem?_modify]
  rcases eq_or_ne i j with rfl | hne
  · simp [List.getElem?_set_self', ht]
  · simp [List.getElem?_set_ne hne, hne]

/-- Nothing else of a thread is seen. -/
lemma map_worker_set_of_eq {threads : List Thread} {i : ℕ} {t t' : Thread}
    (ht : threads[i]? = some t) (h : t'.worker = t.worker) :
    (threads.set i t').map Thread.worker = threads.map Thread.worker := by
  rw [map_worker_set (f := id) ht h, List.modify_id]

/-- The function of a thread. -/
lemma getElem?_view {i : ℕ} {t : Thread} (ht : s.threads[i]? = some t) :
    s.view.workers[i]? = some t.worker := by
  rw [KState.view, List.getElem?_map, ht]
  rfl

/-- A worker that is seen is the function of a thread. -/
lemma exists_of_getElem?_view {i : ℕ} {w : Worker} (hw : s.view.workers[i]? = some w) :
    ∃ t, s.threads[i]? = some t ∧ t.worker = w := by
  rw [KState.view, List.getElem?_map] at hw
  exact Option.map_eq_some_iff.mp hw

/-- The function of a thread has returned before the completion is set. -/
lemma Thread.Ok.pc_of_completed {t : Thread} {holds pending wakes : Bool}
    (h : t.Ok holds pending wakes) (hcompleted : t.task.phase.completed = true) :
    t.worker.pc = .exited t.task.result := by
  have hpc := h.pc
  cases hphase : t.task.phase <;> simp_all [Phase.completed, Phase.At]

/-- A move of a thread is seen as a move of a worker, or not at all and then the thread comes closer
to its end. -/
lemma ThreadMove.view {task i : ℕ} {k k' : Kernel} {t t' : Thread} {holds pending wakes : Bool}
    (hok : t.Ok holds pending wakes) (h : ThreadMove d task i k t k' t') :
    (k' = k ∧ t'.worker = t.worker ∧ t'.task.phase.rank < t.task.phase.rank) ∨
      WorkerMove d.lock task i k t.worker k' t'.worker := by
  have hrcu := hok.rcuUsers
  cases h with
  | begins _ hw | runs _ _ hw =>
    rw [d.worker_eq] at hw
    exact .inr (workerMove_of_workerStep hw)
  | interrupted _ hpc hnotify =>
    refine .inr (.plain ?_ fun a => .interrupt hpc (hok.notify hnotify))
    rw [hpc]
    exact id
  | faults _ hmiss => exact .inr (.fault hmiss)
  | completes hphase =>
    have hpc := hok.pc
    rw [hphase] at hpc
    have hpc : t.worker.pc = .returning t.task.result := hpc
    refine .inr (.plain ?_ fun a => .exit hpc)
    rw [hpc]
    exact id
  | wakes hphase | exits hphase | reaps hphase =>
    exact .inl ⟨rfl, rfl, by simp [hphase, Phase.rank]⟩
  | releases hphase =>
    refine .inl ⟨rfl, rfl, ?_⟩
    rcases hphase with hphase | hphase <;> rw [hphase] at hrcu <;>
      simp [Task.putTaskStructRcuUser, hphase, hrcu, Phase.rcuUsers, Phase.rank]

/-- The rank when the calling thread moves and thread `i` stays in its phase. -/
lemma rank_set {i : ℕ} {t t' : Thread} (ht : s.threads[i]? = some t)
    (hphase : t'.task.phase = t.task.phase) (caller : KCaller) :
    ({ s with caller := caller, threads := s.threads.set i t' } : KState).rank + s.caller.rank =
      s.rank + caller.rank := by
  have hsum := sum_map_set (f := fun t => t.task.phase.rank) (b := t') ht
  simp only [hphase] at hsum
  simp only [KState.rank]
  omega

/-- A statement of `kthread_stop` is not seen, but for the one that sets the flag. -/
lemma view_stop {q : Prepared} {i : ℕ} {pc : StopPc} {t : Thread} {m : (StopPc ⊕ ℤ) × Thread}
    (hpc : s.caller = .stopping q i pc) (hne : pc ≠ .setBit) (ht : s.threads[i]? = some t)
    (hm : kthreadStop pc t = some m) :
    let s' : KState := { s with
      threads := s.threads.set i m.2, caller := m.1.elim (.stopping q i) (.stopped q i) }
    s'.view = s.view ∧ s'.rank < s.rank := by
  have hsame : m.2.worker = t.worker ∧ m.2.task.phase = t.task.phase ∧
      (m.1.elim (.stopping q i) (.stopped q i) : KCaller).view = (KCaller.stopping q i pc).view ∧
      (m.1.elim (.stopping q i) (.stopped q i) : KCaller).rank < pc.rank := by
    cases pc with
    | setBit => exact absurd rfl hne
    | wait =>
      simp only [kthreadStop] at hm
      split at hm <;> cases hm
      exact ⟨rfl, rfl, rfl, by simp [KCaller.rank, StopPc.rank]⟩
    | _ =>
      cases hm
      exact ⟨rfl, rfl, rfl, by simp [KCaller.rank, StopPc.rank]⟩
  obtain ⟨hworker, hphase, hview, hrank⟩ := hsame
  have hset := rank_set ht hphase (m.1.elim (.stopping q i) (.stopped q i))
  rw [hpc, show (KCaller.stopping q i pc).rank = pc.rank from rfl] at hset
  refine ⟨?_, by omega⟩
  simp only [KState.view, map_worker_set_of_eq ht hworker, hview, hpc]

/-- Every move is seen as a step, or not at all and then the rank becomes smaller. -/
theorem view_move (h : Inv c s) (hfault : s.fault = false) (hmove : Move d c s s') :
    (s'.view = s.view ∧ s'.rank < s.rank) ∨ ∃ a, d.step c s.view a = some s'.view := by
  have hknows := h.caller
  have hview : ∀ {caller}, s.caller = caller → s.view.caller = caller.view := fun h => h ▸ rfl
  have hcaller : ∀ {s'}, XorSyscalls.Move d c s.view .caller s' →
      ∃ a, d.step c s.view a = some s' := fun hm =>
    ⟨.caller, (d.step_caller c _).trans hm.callerStep_eq⟩
  cases hmove with
  | @code caller t hpc hplain ht =>
    rw [hpc] at hknows
    refine .inr ⟨.caller, ?_⟩
    rw [d.step_caller, KState.view, hpc]
    have hwait : ∀ q i, caller ≠ .wait q i := by
      rintro q i rfl
      exact hknows
    exact (hplain.callerStep_eq hwait _ [] _).trans (by rw [ht]; rfl)
  | create hpc hlt hrun =>
    have hm := XorSyscalls.Move.create (d := d) (hview hpc) hlt hrun
    refine .inr (hcaller ?_)
    simpa [KState.view, KCaller.view, Thread.new] using hm
  | createError hpc hlt hrun => exact .inr (hcaller (.createError (hview hpc) hlt hrun))
  | createDone hpc hge => exact .inr (hcaller (.createDone (hview hpc) hge))
  | @wake q seg i off t hpc ht hlive =>
    have hphase : ({ t with task := t.task.wakeUpProcess } : Thread).task.phase = t.task.phase :=
      rfl
    have hset := rank_set ht hphase (.code (.create q seg (i + 1) (sizeAdd off seg)))
    simp only [hpc, KCaller.rank] at hset
    refine .inl ⟨?_, by omega⟩
    simp only [KState.view, hpc, KCaller.view, map_worker_set_of_eq ht]
  | enter hpc hlt =>
    exact .inl ⟨by simp only [KState.view, hpc, KCaller.view],
      by simp [KState.rank, hpc, KCaller.rank, StopPc.rank]⟩
  | stopDone hpc hge => exact .inr (hcaller (.stopDone (hview hpc) hge))
  | @stop q i pc t m hpc ht hlive hm =>
    by_cases hset : pc = .setBit
    · subst hset
      rw [hpc] at hknows
      cases hm
      have hm := XorSyscalls.Move.stop (d := d) (hview hpc) hknows.2.1
      refine .inr (hcaller ?_)
      simpa only [KState.view, hpc, KCaller.view, Sum.elim_inl,
        map_worker_set (f := Worker.stop) ht] using hm
    · exact .inl (view_stop hpc hset ht hm)
  | @log q i r hpc =>
    rw [hpc] at hknows
    obtain ⟨hn, hi, hdone⟩ := hknows
    have hlt : i < s.threads.length := by exact_mod_cast hi.trans_le hn
    have ht := List.getElem?_eq_getElem hlt
    obtain ⟨hcompleted, hresult⟩ := hdone _ ht
    have hexited := (h.threads i _ ht).pc_of_completed hcompleted
    rw [hresult] at hexited
    exact .inr (hcaller (.wait (hview hpc) (getElem?_view ht) hexited))
  | fault => exact .inl ⟨rfl, by simp [KState.rank, hfault]⟩
  | @thread i t k' t' ht hm =>
    rcases hm.view (h.threads i t ht) with ⟨rfl, hworker, hrank⟩ | hworker
    · have hsum := sum_map_set (f := fun t => t.task.phase.rank) (b := t') ht
      refine .inl ⟨?_, ?_⟩
      · simp only [KState.view, map_worker_set_of_eq ht hworker]
      · simp only [KState.rank]
        omega
    · obtain ⟨a, ha⟩ := hworker.exists_step (s := s.view) (getElem?_view ht)
      refine .inr ⟨a, ha.trans ?_⟩
      simp only [KState.view, List.map_set]

/-- The view keeps the steps of a run. -/
lemma simulates_view (d : Syscall) (c : Call) :
    Simulates (step d c) (d.step c) fun s s' => Inv c s ∧ s.view = s' := by
  rintro s a t _ ⟨h, rfl⟩ hstep
  obtain ⟨hfault, hmove⟩ := move_of_step hstep
  refine ⟨t.view, ?_, h.move hmove hfault, rfl⟩
  rcases view_move h hfault hmove with ⟨heq, -⟩ | ⟨a', ha'⟩
  · exact heq ▸ .refl _
  · exact .single a' ha'

end View

/-! ## Realisation -/

/-- A thread that is not in the middle of something that cannot be seen from outside. -/
structure Thread.Rests (t : Thread) : Prop where
  phase : t.task.phase = .parked ∨ t.task.phase = .running ∨ t.task.phase = .notifying
  notify : t.worker.shouldStop = true → t.task.notifySignal = true

/-- The calling thread is in the code of the system call or waits in `kthread_stop`. -/
def KCaller.Rests : KCaller → Prop
  | .code _ | .stopping _ _ .wait => True
  | _ => False

/-- Nobody is in the middle of something that cannot be seen from outside. -/
structure Rests (c : Call) (s : KState) : Prop where
  inv : Inv c s
  fault : s.fault = false
  caller : s.caller.Rests
  threads : ∀ (i : ℕ) (t : Thread), s.threads[i]? = some t → t.Rests

/-- Thread `i` is `t`, the kernel is `k` and the calling thread is at `caller`. -/
def KState.withThread (s : KState) (k : Kernel) (caller : KCaller) (i : ℕ) (t : Thread) : KState :=
  { s with kernel := k, caller := caller, threads := s.threads.set i t }

section Realise

variable {d : Syscall} {c : Call} {s s' : KState} {i : ℕ} {t : Thread} {k : Kernel}

/-- A move is a run. -/
lemma Move.reaches (h : Move d c s s') (hfault : s.fault = false) : Reaches (step d c) s s' := by
  obtain ⟨a, ha⟩ := h.exists_step hfault
  exact .single a ha

/-- Thread `i` stays. -/
lemma withThread_self (ht : s.threads[i]? = some t) (k : Kernel) (caller : KCaller) :
    s.withThread k caller i t = { s with kernel := k, caller := caller } := by
  obtain ⟨hi, rfl⟩ := List.getElem?_eq_some_iff.mp ht
  rw [KState.withThread, List.set_getElem_self]

/-- A move of thread `i`. -/
lemma reaches_thread (hi : i < s.threads.length) (hfault : s.fault = false) (caller : KCaller)
    {k' : Kernel} {t' : Thread} (hmove : ThreadMove d c.task i k t k' t') :
    Reaches (step d c) (s.withThread k caller i t) (s.withThread k' caller i t') := by
  have hmove := Move.thread (s := s.withThread k caller i t) (List.getElem?_set_self hi) hmove
  simpa [KState.withThread] using hmove.reaches hfault

/-- A statement of `kthread_stop` of thread `i`. -/
lemma reaches_stopping (pc : StopPc) {m : (StopPc ⊕ ℤ) × Thread} (hm : kthreadStop pc t = some m)
    (hi : i < s.threads.length) (hfault : s.fault = false) (hlive : t.task.freed = false)
    {q : Prepared} :
    Reaches (step d c) (s.withThread k (.stopping q i pc) i t)
      (s.withThread k (m.1.elim (.stopping q i) (.stopped q i)) i m.2) := by
  have hmove := Move.stop (d := d) (c := c) (s := s.withThread k (.stopping q i pc) i t) rfl
    (List.getElem?_set_self hi) hlive hm
  simpa [KState.withThread] using hmove.reaches hfault

/-- `kthread_stop` of a thread that has not been freed gets to its wait. -/
lemma reaches_wait (hfault : s.fault = false) {q : Prepared} (hpc : s.caller = .code (.stop q i))
    (hlt : (i : ℤ) < c.args.numThreads.toInt) (ht : s.threads[i]? = some t)
    (hlive : t.task.freed = false) :
    Reaches (step d c) s (s.withThread s.kernel (.stopping q i .wait) i
      ⟨t.worker.stop, { t.task with
        usage := t.task.usage + 1, notifySignal := true, runnable := true }⟩) := by
  have hi := (List.getElem?_eq_some_iff.mp ht).1
  have henter := (Move.enter (d := d) hpc hlt).reaches hfault
  rw [← withThread_self ht] at henter
  refine henter.trans ?_
  refine (reaches_stopping .get rfl hi hfault hlive).trans ?_
  refine (reaches_stopping .setBit rfl hi hfault (by exact hlive)).trans ?_
  refine (reaches_stopping .unpark rfl hi hfault (by exact hlive)).trans ?_
  refine (reaches_stopping .notify rfl hi hfault (by exact hlive)).trans ?_
  exact reaches_stopping .wake rfl hi hfault (by exact hlive)

/-- `kthread_stop` of a thread that is completed returns, and its result is logged. -/
lemma reaches_joined (hfault : s.fault = false) {q : Prepared}
    (hpc : s.caller = .stopping q i .wait) (ht : s.threads[i]? = some t)
    (hlive : t.task.freed = false) (hexited : t.task.exited ≠ 0) :
    Reaches (step d c) s (s.withThread (s.kernel.printk (d.stopMessage i t.task.result))
      (.code (.stop q (i + 1))) i
      { t with task := { t.task with exited := t.task.exited - 1 }.putTaskStruct }) := by
  have hi := (List.getElem?_eq_some_iff.mp ht).1
  have hself : s.withThread s.kernel (.stopping q i .wait) i t = s := by
    rw [withThread_self ht, ← hpc]
  have hwait := reaches_stopping (d := d) (c := c) (k := s.kernel) (q := q) .wait
    (show _ = some (Sum.inl StopPc.read, _) by simp only [kthreadStop, hexited, if_false]; rfl)
    hi hfault hlive
  rw [hself] at hwait
  refine hwait.trans ?_
  refine (reaches_stopping .read rfl hi hfault (by exact hlive)).trans ?_
  refine (reaches_stopping (.put _) rfl hi hfault (by exact hlive)).trans ?_
  exact (Move.log (d := d) (c := c) rfl).reaches hfault

namespace Rests

/-- At rest nobody has to wake a thread. -/
lemma wakes_eq (h : Rests c s) (i : ℕ) : s.caller.wakes i = false := by
  have hcaller := h.caller
  cases hpc : s.caller with
  | waking =>
    rw [hpc] at hcaller
    exact hcaller.elim
  | _ => rfl

/-- At rest a calling thread that is seen in the stop loop is there. -/
lemma caller_eq (h : Rests c s) {q : Prepared} (hpc : s.view.caller = .stop q i) :
    s.caller = .code (.stop q i) := by
  have hcaller := h.caller
  rw [KState.view] at hpc
  generalize s.caller = caller at hpc hcaller
  cases caller with
  | code => exact congrArg KCaller.code hpc
  | waking | stopped => cases hpc
  | stopping q j pc => cases pc <;> first | exact hcaller.elim | cases hpc

/-- At rest no thread has been freed. -/
lemma freed_eq (h : Rests c s) (ht : s.threads[i]? = some t) : t.task.freed = false := by
  have hok := h.inv.threads i t ht
  have hpos : t.task.phase.usage = 1 := by
    rcases (h.threads i t ht).phase with hphase | hphase | hphase <;> rw [hphase] <;> rfl
  rw [hok.freed, hok.usage, hpos]
  simp

/-- At rest a thread in the middle of its function runs. -/
lemma phase_eq (h : Rests c s) (ht : s.threads[i]? = some t) (hcreated : t.worker.pc ≠ .created)
    (hexited : ∀ r, t.worker.pc ≠ .exited r) : t.task.phase = .running := by
  have hpc := (h.inv.threads i t ht).pc
  rcases (h.threads i t ht).phase with hphase | hphase | hphase
  · rw [hphase] at hpc
    exact absurd hpc hcreated
  · exact hphase
  · rw [hphase] at hpc
    exact absurd hpc (hexited _)

/-- A run leads to rest if the one thread it concerns rests in the end. -/
lemma of_reaches (h : Rests c s) {caller : KCaller}
    (hreach : Reaches (step d c) s (s.withThread k caller i t)) (hcaller : caller.Rests)
    (ht : t.Rests) : Rests c (s.withThread k caller i t) where
  inv := by
    obtain ⟨acts, hrun⟩ := hreach
    exact run_invariant (I := Inv c) h.inv
      (fun _ _ _ h hstep => h.move (move_of_step hstep).2 (move_of_step hstep).1) hrun
  fault := h.fault
  caller := hcaller
  threads := forall_getElem?_set h.threads ht

/-- `kthread_run` creates a thread and wakes it. -/
lemma realise_create (h : Rests c s) {q : Prepared} {seg off : ℕ}
    (hpc : s.caller = .code (.create q seg i off)) (hlt : (i : ℤ) < c.args.numThreads.toInt)
    (hrun : c.env.threadError i = none) :
    ∃ t, Reaches (step d c) s t ∧ Rests c t ∧ t.view =
      ⟨s.kernel.storeArgs (q.argsPtr i) (q.argsFor c.args.numThreads.toInt seg i off),
        .create q seg (i + 1) (sizeAdd off seg),
        s.threads.map Thread.worker ++ [Worker.new (q.argsPtr i) off]⟩ := by
  have hknows := h.inv.caller
  rw [hpc] at hknows
  obtain rfl : s.threads.length = i := hknows
  have hcreate := Move.create (d := d) hpc hlt hrun
  set new := Thread.new (q.argsPtr s.threads.length) off
  have hget : (s.threads ++ [new])[s.threads.length]? = some new :=
    List.getElem?_concat_length ..
  have hwake := Move.wake (d := d) (c := c) (t := new) (s := { s with
    kernel := s.kernel.storeArgs (q.argsPtr s.threads.length)
      (q.argsFor c.args.numThreads.toInt seg s.threads.length off)
    threads := s.threads ++ [new]
    caller := .waking q seg s.threads.length off }) rfl hget rfl
  refine ⟨_, (hcreate.reaches h.fault).trans (hwake.reaches h.fault),
    ⟨(h.inv.move hcreate h.fault).move hwake h.fault, h.fault, trivial, ?_⟩, ?_⟩
  · have hnew : new.Rests := ⟨.inl rfl, fun h => by cases h⟩
    exact forall_getElem?_set (forall_getElem?_concat h.threads hnew) ⟨.inl rfl, hnew.notify⟩
  · simp only [KState.view, KCaller.view, map_worker_set_of_eq hget, List.map_append]
    rfl

/-- `kthread_stop` sets the flag and gets to its wait. -/
lemma realise_stop (h : Rests c s) {q : Prepared} (hpc : s.caller = .code (.stop q i))
    (hlt : (i : ℤ) < c.args.numThreads.toInt) :
    ∃ t, Reaches (step d c) s t ∧ Rests c t ∧
      t.view = ⟨s.kernel, .wait q i, (s.threads.map Thread.worker).modify i Worker.stop⟩ := by
  have hknows := h.inv.caller
  rw [hpc] at hknows
  have hi : i < s.threads.length := by exact_mod_cast hlt.trans_le hknows
  have ht := List.getElem?_eq_getElem hi
  have hreach := reaches_wait (d := d) h.fault hpc hlt ht (h.freed_eq ht)
  refine ⟨_, hreach, h.of_reaches hreach trivial ⟨(h.threads i _ ht).phase, fun _ => rfl⟩, ?_⟩
  simp only [KState.view, KState.withThread, KCaller.view, map_worker_set (f := Worker.stop) ht]

/-- `kthread_stop` returns once the thread has exited. -/
lemma realise_wait (h : Rests c s) {q : Prepared} (hpc : s.caller = .stopping q i .wait)
    {s' : State} (hstep : XorSyscalls.callerStep d c s.view = some s') :
    ∃ t, Reaches (step d c) s t ∧ Rests c t ∧ t.view = s' := by
  have hknows := h.inv.caller
  rw [hpc] at hknows
  have hi : i < s.threads.length := by exact_mod_cast hknows.2.1.trans_le hknows.1
  obtain ⟨t, ht⟩ : ∃ t, s.threads[i]? = some t := ⟨_, List.getElem?_eq_getElem hi⟩
  have hok := h.inv.threads i t ht
  have hat := hok.pc
  have hview : s.view.caller = .wait q i := by rw [KState.view, hpc]; rfl
  simp only [XorSyscalls.callerStep, hview, getElem?_view ht, Option.map_some] at hstep
  split at hstep <;> rename_i hexited <;> cases hstep
  -- the thread has completed `vfork_done`
  rw [Option.some_inj] at hexited
  rw [hexited] at hat
  obtain hphase | hphase | hphase := (h.threads i t ht).phase
  · rw [hphase] at hat
    cases hat
  · rw [hphase] at hat
    exact absurd rfl (hat.2 _)
  · have hone : t.task.exited = 1 := by
      rw [hok.exited (by rw [hpc, KCaller.pending_stopping]; rfl), hphase]
      rfl
    rw [hphase] at hat
    cases hat
    have hreach := reaches_joined (d := d) (c := c) h.fault hpc ht (h.freed_eq ht) (by omega)
    refine ⟨_, hreach, h.of_reaches hreach trivial ⟨.inr (.inr hphase),
      (h.threads i t ht).notify⟩, ?_⟩
    simp only [KState.view, KState.withThread, KCaller.view, map_worker_set_of_eq ht]

/-- The calling thread makes every step that is seen from outside. -/
lemma realise_caller (h : Rests c s) {s' : State}
    (hstep : XorSyscalls.callerStep d c s.view = some s') :
    ∃ t, Reaches (step d c) s t ∧ Rests c t ∧ t.view = s' := by
  have hcaller := h.caller
  have hknows := h.inv.caller
  have hmove : ∀ {k caller}, Move d c s { s with kernel := k, caller := .code caller } →
      ∃ t, Reaches (step d c) s t ∧ Rests c t ∧
        t.view = { s.view with kernel := k, caller := caller } := fun hmove =>
    ⟨_, hmove.reaches h.fault, ⟨h.inv.move hmove h.fault, h.fault, trivial, h.threads⟩, rfl⟩
  cases hpc : s.caller with
  | waking | stopped =>
    rw [hpc] at hcaller
    exact hcaller.elim
  | stopping q i pc =>
    cases pc with
    | wait => exact h.realise_wait hpc hstep
    | _ =>
      rw [hpc] at hcaller
      exact hcaller.elim
  | code caller =>
    simp only [KState.view, hpc, KCaller.view] at hstep
    cases caller with
    | wait q i =>
      rw [hpc] at hknows
      exact hknows.elim
    | create q seg i off =>
      simp only [XorSyscalls.callerStep] at hstep
      split at hstep <;> rename_i hlt
      · split at hstep <;> rename_i hrun <;> cases hstep
        · exact hmove (.createError hpc hlt hrun)
        · exact h.realise_create hpc hlt hrun
      · cases hstep
        exact hmove (.createDone hpc (not_lt.mp hlt))
    | stop q i =>
      simp only [XorSyscalls.callerStep] at hstep
      split at hstep <;> rename_i hlt <;> cases hstep
      · exact h.realise_stop hpc hlt
      · exact hmove (.stopDone hpc (not_lt.mp hlt))
    | _ =>
      -- the code does not touch the threads
      rw [Caller.Plain.callerStep_eq (by trivial) (by simp) _ []] at hstep
      obtain ⟨t, ht, rfl⟩ := Option.map_eq_some_iff.mp hstep
      exact hmove (.code hpc trivial ht)

/-- A thread makes every step that is seen from outside. -/
lemma realise_worker (h : Rests c s) {k' : Kernel} {w' : Worker} (ht : s.threads[i]? = some t)
    {e : Option Stray}
    (hw : workerStep d.lock c.task i (chance e) s.kernel t.worker = some (k', w')) :
    ∃ t', t'.worker = w' ∧ t'.Rests ∧
      Reaches (step d c) s (s.withThread k' s.caller i t') := by
  have hi := (List.getElem?_eq_some_iff.mp ht).1
  have hok := h.inv.threads i t ht
  have hpc := hok.pc
  have hself : s.withThread s.kernel s.caller i t = s := withThread_self ht _ _
  have hreach : ∀ {k' t'}, ThreadMove d c.task i s.kernel t k' t' →
      Reaches (step d c) s (s.withThread k' s.caller i t') := fun hmove => by
    have hthread := reaches_thread hi h.fault s.caller hmove
    rwa [hself] at hthread
  have hnotify : w'.shouldStop = true → t.task.notifySignal = true := fun hstop =>
    (h.threads i t ht).notify ((workerMove_of_workerStep hw).shouldStop_eq ▸ hstop)
  rw [← d.worker_eq] at hw
  rcases (h.threads i t ht).phase with hphase | hphase | hphase
  · -- the thread is woken and enters its function
    have hwakes := hreach (.wakes hphase (hok.runnable hphase (h.wakes_eq i)))
    have hbegins : ThreadMove d c.task i s.kernel { t with task := { t.task with phase := .woken } }
        k' ⟨w', { t.task with phase := .running }⟩ := .begins rfl hw
    exact ⟨_, rfl, ⟨.inr (.inl rfl), hnotify⟩,
      hwakes.trans (reaches_thread hi h.fault s.caller hbegins)⟩
  · by_cases hreturn : ∃ r, t.worker.pc = .returning r
    · -- the function returns and the thread exits
      obtain ⟨r, hreturn⟩ := hreturn
      rw [d.worker_eq, workerStep, hreturn] at hw
      cases hw
      have hexits := hreach (.exits hphase hreturn)
      have hcompletes := reaches_thread (d := d) (c := c) (k := s.kernel)
        (t := { t with task := { t.task with result := r, phase := .exiting } }) hi h.fault s.caller
        (.completes rfl)
      refine ⟨⟨_, { t.task with result := r, exited := t.task.exited + 1, phase := .notifying }⟩,
        rfl, ⟨.inr (.inr rfl), hnotify⟩, hexits.trans hcompletes⟩
    · exact ⟨{ t with worker := w' }, rfl, ⟨.inr (.inl hphase), hnotify⟩,
        hreach (.runs hphase (not_exists.mp hreturn) hw)⟩
  · -- the thread has exited
    rw [hphase] at hpc
    rw [d.worker_eq, workerStep, show t.worker.pc = .exited _ from hpc] at hw
    cases hw

/-- A signal that is seen from outside gets to a thread that waits for the mutex. -/
lemma realise_interrupt (h : Rests c s) {k' : Kernel} {w' : Worker} (ht : s.threads[i]? = some t)
    (hw : workerStep d.lock c.task i .signal s.kernel t.worker = some (k', w')) :
    ∃ t', t'.worker = w' ∧ t'.Rests ∧
      Reaches (step d c) s (s.withThread k' s.caller i t') := by
  have hrests := h.threads i t ht
  rcases usual_or_interrupted hw with husual | ⟨hpc, hstop, rfl, rfl⟩
  · exact h.realise_worker (e := none) ht husual
  · have hphase := h.phase_eq ht (by simp [hpc]) (by simp [hpc])
    have hnotify := hrests.notify hstop
    have hmove := Move.thread (d := d) (c := c) ht (.interrupted hphase hpc hnotify)
    exact ⟨⟨_, t.task⟩, rfl, ⟨.inr (.inl hphase), fun _ => hnotify⟩, hmove.reaches h.fault⟩

/-- A thread that is killed by a fault is in its function. -/
lemma realise_fault (h : Rests c s) {k' : Kernel} {w' : Worker} (ht : s.threads[i]? = some t)
    (hw : s.kernel.faultStep t.worker = some (k', w')) :
    ∃ t', t'.worker = w' ∧ t'.Rests ∧
      Reaches (step d c) s (s.withThread k' s.caller i t') := by
  unfold Kernel.faultStep at hw
  split at hw <;> rename_i hmiss <;> cases hw
  have hacc := hmiss.accesses
  have hphase := h.phase_eq ht (fun hpc => by rw [hpc] at hacc; exact hacc)
    (fun r hpc => by rw [hpc] at hacc; exact hacc)
  have hmove := Move.thread (d := d) (c := c) ht (.faults hphase hmiss)
  exact ⟨⟨_, t.task⟩, rfl, ⟨.inr (.inl hphase), (h.threads i t ht).notify⟩, hmove.reaches h.fault⟩

/-- Every step that is seen from outside is made. -/
theorem realise_step (h : Rests c s) {a : Act} {s' : State} (hstep : d.step c s.view a = some s') :
    ∃ t, Reaches (step d c) s t ∧ Rests c t ∧ t.view = s' := by
  have hworker : ∀ {i k' w'} {w : Worker}, s.view.workers[i]? = some w →
      (∀ t, s.threads[i]? = some t → t.worker = w → ∃ t' : Thread, t'.worker = w' ∧ t'.Rests ∧
        Reaches (step d c) s (s.withThread k' s.caller i t')) →
      ∃ t, Reaches (step d c) s t ∧ Rests c t ∧
        t.view = { s.view with kernel := k', workers := s.view.workers.set i w' } := by
    intro i k' w' w hw hmove
    obtain ⟨t, ht, hw⟩ := exists_of_getElem?_view hw
    obtain ⟨t', rfl, hrests, hreach⟩ := hmove t ht hw
    refine ⟨_, hreach, h.of_reaches hreach h.caller hrests, ?_⟩
    simp only [KState.view, KState.withThread, List.map_set]
  cases a with
  | caller =>
    rw [d.step_caller] at hstep
    exact h.realise_caller hstep
  | worker i x =>
    obtain ⟨w, k', w', hw, hf, rfl⟩ := exists_of_moveWorker hstep
    rw [d.worker_eq] at hf
    refine hworker hw ?_
    rintro t ht rfl
    cases x with
    | usual => exact h.realise_worker (e := none) ht hf
    | signal => exact h.realise_interrupt ht hf
    | stray e => exact h.realise_worker (e := some e) ht hf
  | fault i =>
    obtain ⟨w, k', w', hw, hf, rfl⟩ := exists_of_moveWorker hstep
    refine hworker hw ?_
    rintro t ht rfl
    exact h.realise_fault ht hf

end Rests

/-- Every run that is seen from outside is made, and leads to rest. -/
lemma exists_rests {k₀ : Kernel} {acts : List Act} {s : State} (hrun : d.Run c k₀ acts s) :
    ∃ acts' t, Run d c k₀ acts' t ∧ Rests c t ∧ t.view = s := by
  have hsim : Simulates (d.step c) (step d c) fun s t => Rests c t ∧ t.view = s := by
    rintro _ a s' t ⟨hrests, rfl⟩ hstep
    exact hrests.realise_step hstep
  have hstart : Rests c (.start d c k₀) :=
    ⟨.start d c k₀, rfl, trivial, fun i t ht => by simp [KState.start] at ht⟩
  obtain ⟨t, ⟨acts', hrun'⟩, hrests⟩ := hsim.run ⟨hstart, rfl⟩ hrun
  exact ⟨acts', t, hrun', hrests⟩

/-- Every run is seen from outside as a run. -/
lemma exists_run_view {k₀ : Kernel} {acts : List KAct} (hrun : Run d c k₀ acts s) :
    ∃ acts', d.Run c k₀ acts' s.view := by
  obtain ⟨_, ⟨acts', hrun'⟩, -, rfl⟩ := (simulates_view d c).run ⟨.start d c k₀, rfl⟩ hrun
  exact ⟨acts', hrun'⟩

end Realise

/-- `kthread_run`, `kthread_stop` and the exit of kernel threads are what the model of the system
calls takes them for.  Whatever a call with its kernel threads has done is seen from outside as a
run of the model, with the same kernel state and return value; and whatever a run of the model has
done is seen of a call with its kernel threads that has not used a freed thread. -/
theorem kthread_equiv (d : Syscall) (c : Call) (k₀ : Kernel) :
    (∀ acts s, Run d c k₀ acts s → ∃ acts', d.Run c k₀ acts' s.view) ∧
      ∀ acts s, d.Run c k₀ acts s →
        ∃ acts' t, Run d c k₀ acts' t ∧ t.fault = false ∧ t.view = s := by
  refine ⟨fun acts s hrun => exists_run_view hrun, fun acts s hrun => ?_⟩
  obtain ⟨acts', t, hrun', hrests, hview⟩ := exists_rests hrun
  exact ⟨acts', t, hrun', hrests.fault, hview⟩

end Kthread

end XorSyscalls
