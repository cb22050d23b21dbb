import XorSyscalls.Linux.KthreadCreateInvariant

/-!
# What `kthread_create` guarantees

* `kthread_create_safe`: in no run is a request used after it was freed or freed twice, nor a name,
  nor the completion of a creator that has returned.
* `kthread_create_returns`: a creator that returns a thread returns the one forked for its request,
  which waits to be woken for the first time; if it returns an error, no thread gets that far.
* `kthread_create_answered`: every run ends, and when nobody can move on without being killed, all
  creators have returned, all requests have been freed, and `kthreadd` sleeps in front of an empty
  list.

That runs end follows from a rank that is smaller after every step.  A request on the list pays for
the steps of `kthreadd` that serve it, and a creator that wakes `kthreadd` for one more round of its
loop.
-/

namespace XorSyscalls

open TransitionSystem

namespace KthreadCreate

/-! ## Runs end -/

/-- A bound for what a creator has left to do, and causes others to do. -/
def CreatorPc.rank : CreatorPc → ℕ
  | kmalloc => 50
  | kvasprintf => 49
  | listAddTail => 48
  | wakeUpProcess => 16
  | waitKillable => 5
  | xchg => 4
  | wait => 3
  | read => 2
  | freeCreate _ => 1
  | returned _ => 0

/-- What a new thread has left to do. -/
def ChildPc.rank : ChildPc → ℕ
  | copy => 7
  | xchg => 6
  | freeName | takeName => 5
  | freeCreate | setResult => 4
  | complete => 3
  | parked | exited => 0

/-- What `kthreadd` has left to do until it sleeps, if it finds the list empty. -/
def DaemonPc.rank : DaemonPc → ℕ
  | fork _ => 25
  | xchg _ _ => 24
  | freeName _ _ _ => 23
  | freeCreate _ | setResult _ _ => 22
  | complete _ => 21
  | setRunning => 6
  | take => 5
  | setInterruptible => 4
  | listEmpty => 3
  | schedule => 2

/-- The rank of a request. -/
def Request.rank (q : Request) : ℕ := q.pc.rank + q.child.elim 0 fun t => t.pc.rank

/-- One more round of the loop, which `kthreadd` goes because it has been woken or will find the
list not empty. -/
def CState.round (s : CState) : ℕ :=
  match s.daemon with
  | .setInterruptible => if s.list = [] then 0 else 10
  | .listEmpty | .schedule => if s.list = [] ∧ s.running = false then 0 else 10
  | _ => 0

/-- The rank of the whole system. -/
def CState.rank (s : CState) : ℕ :=
  (s.requests.map Request.rank).sum + 21 * s.list.length + s.daemon.rank + s.round

section Rank

variable {s s' : CState}

/-- One more round is never more than ten steps. -/
lemma CState.round_le (s : CState) : s.round ≤ 10 := by
  unfold CState.round
  repeat' split
  all_goals omega

/-- A move of a creator makes its rank smaller. -/
lemma CreatorMove.rank_lt {q q' : Request} (h : CreatorMove q q') : q'.rank < q.rank := by
  cases h with
  | waited hpc => rcases hpc with hpc | hpc <;> simp [Request.rank, CreatorPc.rank, hpc]
  | xchg hpc => cases hdone : q.done <;> simp [Request.rank, CreatorPc.rank, Request.xchg, hpc]
  | _ => simp [Request.rank, CreatorPc.rank, Request.kfree, *]

/-- A move of a new thread makes its rank smaller. -/
lemma ChildMove.rank_lt {tid : ℕ} {q q' : Request} {pc pc' : ChildPc}
    (h : ChildMove tid q pc pc' q') : pc'.rank < pc.rank := by
  cases h with
  | xchg => cases q.done <;> simp [ChildPc.rank]
  | _ => simp [ChildPc.rank]

/-- `kthreadd` goes on after a failed fork. -/
lemma FailMove.rank_lt {r : ℕ} {q q' : Request} {pc pc' : DaemonPc} (h : FailMove r q pc pc' q') :
    pc'.rank < pc.rank ∧ q'.rank = q.rank := by
  cases h with
  | @freeName e done => cases done <;> exact ⟨by simp [DaemonPc.rank], rfl⟩
  | _ => exact ⟨by simp [DaemonPc.rank], rfl⟩

/-- Then it looks at the list again, without a round of its outer loop. -/
lemma FailMove.round_eq {r : ℕ} {q q' : Request} {pc pc' : DaemonPc} (h : FailMove r q pc pc' q')
    (hpc : s.daemon = pc') : s.round = 0 := by
  unfold CState.round
  rw [hpc]
  cases h with
  | @freeName e done => cases done <;> rfl
  | _ => rfl

/-- `kthreadd` goes on between requests. -/
lemma LoopMove.rank_lt (h : LoopMove s s') : s'.rank < s.rank := by
  cases h <;> simp_all [CState.rank, CState.round, DaemonPc.rank]

/-- Every move makes the rank smaller. -/
lemma Move.rank_lt (h : Move s s') : s'.rank < s.rank := by
  cases h with
  | @creator r q q' hq hmove =>
    have hsum := sum_map_set (f := Request.rank) (b := q') hq
    have hlt := hmove.rank_lt
    simp only [CState.rank, CState.round]
    omega
  | @listAddTail r q hq hpc =>
    have hsum := sum_map_set (f := Request.rank) (b := { q with pc := .wakeUpProcess }) hq
    have hrank : q.rank = Request.rank { q with pc := .wakeUpProcess } + 32 := by
      simp only [Request.rank, CreatorPc.rank, hpc]
      omega
    have hround := CState.round_le { s with
      requests := s.requests.set r { q with pc := .wakeUpProcess }, list := s.list ++ [r] }
    simp only [CState.rank, List.length_append, List.length_singleton]
    omega
  | @wakeUpProcess r q hq hpc =>
    have hsum := sum_map_set (f := Request.rank) (b := { q with pc := .waitKillable }) hq
    have hrank : q.rank = Request.rank { q with pc := .waitKillable } + 11 := by
      simp only [Request.rank, CreatorPc.rank, hpc]
      omega
    have hround := CState.round_le { s with
      requests := s.requests.set r { q with pc := .waitKillable }, running := true }
    simp only [CState.rank]
    omega
  | @child r q q' t pc' hq ht hmove =>
    have hsum := sum_map_set (f := Request.rank) (b := { q' with child := some ⟨t.tid, pc'⟩ }) hq
    have hlt := hmove.rank_lt
    have hrank : Request.rank { q' with child := some ⟨t.tid, pc'⟩ } < q.rank := by
      simpa [Request.rank, hmove.pc_eq, ht] using hlt
    simp only [CState.rank, CState.round]
    omega
  | loop hmove => exact hmove.rank_lt
  | take hpc hlist =>
    simp only [CState.rank, CState.round, hpc, hlist, DaemonPc.rank, List.length_cons]
    omega
  | @fork r q hpc hq =>
    have hsum :=
      sum_map_set (f := Request.rank) (b := { q with child := some ⟨s.nextTid, .copy⟩ }) hq
    have hrank : Request.rank { q with child := some ⟨s.nextTid, .copy⟩ } ≤ q.rank + 7 := by
      simp only [Request.rank, Option.elim_some, ChildPc.rank]
      omega
    simp only [CState.rank, CState.round, hpc, DaemonPc.rank]
    omega
  | forkFails hpc =>
    simp only [CState.rank, CState.round, hpc, DaemonPc.rank]
    omega
  | @fail r q q' pc' hq hmove =>
    have hsum := sum_map_set (f := Request.rank) (b := q') hq
    obtain ⟨hlt, hrank⟩ := hmove.rank_lt
    have hround : CState.round { s with requests := s.requests.set r q', daemon := pc' } = 0 :=
      hmove.round_eq rfl
    simp only [CState.rank] at hround ⊢
    omega

end Rank

/-! ## Who can move -/

section Stuck

variable {s : CState}

/-- To use a request is a step, be it a fault. -/
lemma CState.use_ne_none {r : ℕ} {q : Request} (hq : s.requests[r]? = some q)
    (f : Request → Option Request) (daemon : Request → DaemonPc) : s.use r f daemon ≠ none := by
  simp [CState.use, hq]

/-- `kthreadd` can go on unless it sleeps. -/
lemma Inv.asleep_of_stuck (h : Inv s) (hstuck : s.daemonStep none = none) :
    s.daemon = .schedule ∧ s.running = false := by
  have hserved : ∀ r stage, s.daemon.serves = some (r, stage) → ∀ f daemon,
      s.use r f daemon ≠ none := fun r stage hserves f daemon => by
    obtain ⟨q, hq, -⟩ := h.exists_served hserves
    exact CState.use_ne_none hq f daemon
  unfold CState.daemonStep at hstuck
  cases hpc : s.daemon <;> rw [hpc] at hserved <;> simp only [hpc] at hstuck
  case schedule => simpa using hstuck
  case take => split at hstuck <;> cases hstuck
  case fork r => exact absurd (Option.map_eq_none_iff.mp hstuck) (hserved r _ rfl _ _)
  case xchg r _ | freeName r _ _ | freeCreate r | setResult r _ | complete r =>
    exact absurd hstuck (hserved r _ rfl _ _)
  all_goals cases hstuck

/-- A creator can go on unless it has returned or waits. -/
lemma waits_of_stuck {r : ℕ} {q : Request} (hq : s.requests[r]? = some q)
    (hstuck : ∀ ok, s.creatorStep r ok = none) :
    (∃ task, q.pc = .returned task) ∨ (q.pc = .waitKillable ∨ q.pc = .wait) ∧ q.completion = 0 := by
  have hstep := hstuck true
  unfold CState.creatorStep at hstep
  cases hpc : q.pc <;> simp only [hq, hpc, reduceIte] at hstep
  case returned task => exact .inl ⟨task, rfl⟩
  case waitKillable | wait =>
    split at hstep
    case isTrue hzero => simp [hzero]
    case isFalse => cases hstep
  case kvasprintf | xchg | read | freeCreate => exact absurd hstep (CState.use_ne_none hq _ _)
  all_goals cases hstep

/-- A new thread can go on until it is parked or has ended. -/
lemma rests_of_stuck {r : ℕ} {q : Request} {t : Child} (hq : s.requests[r]? = some q)
    (ht : q.child = some t) (hstuck : s.childStep r = none) : t.pc = .parked ∨ t.pc = .exited := by
  unfold CState.childStep at hstuck
  simp only [hq, Option.bind_some, ht] at hstuck
  cases hpc : t.pc <;> simp only [hpc] at hstuck
  case parked => exact .inl rfl
  case exited => exact .inr rfl
  all_goals exact absurd hstuck (CState.use_ne_none hq _ _)

/-- Nobody can move on, unless a creator is killed. -/
def Stuck (s : CState) : Prop := ∀ a, (∀ r, a ≠ .kill r) → step s a = none

/-- Then `kthreadd` sleeps in front of an empty list. -/
lemma Inv.list_eq_nil (h : Inv s) (hfault : s.fault = false) (hstuck : Stuck s) :
    s.daemon = .schedule ∧ s.running = false ∧ s.list = [] := by
  have hdaemon := hstuck (.daemon none) (by simp)
  simp only [step, hfault] at hdaemon
  obtain ⟨hpc, hrunning⟩ := h.asleep_of_stuck hdaemon
  refine ⟨hpc, hrunning, (h.sleeps hpc hrunning).resolve_right ?_⟩
  -- who has not woken `kthreadd` yet could do it now
  rintro ⟨r, q, hq, hwakes⟩
  have hcreator : ∀ ok, s.creatorStep r ok = none := fun ok => by
    simpa [step, hfault] using hstuck (.creator r ok) (by simp)
  rcases waits_of_stuck hq hcreator with ⟨task, hpc⟩ | ⟨hpc | hpc, -⟩ <;>
    cases hwakes.symm.trans hpc

/-- A request that is settled: the creator has returned, nothing is left to be freed, and the
thread, if there is one, waits to be woken for the first time or has ended. -/
def Request.Settled (q : Request) : Prop :=
  (∃ task, q.pc = .returned task) ∧ (q.allocated = true → q.freed = true) ∧ q.fullName ≠ .held ∧
    ∀ t, q.child = some t → t.pc = .parked ∨ t.pc = .exited

/-- When nobody can move on, all requests are settled. -/
lemma Inv.settled (h : Inv s) (hfault : s.fault = false) (hstuck : Stuck s) {r : ℕ} {q : Request}
    (hq : s.requests[r]? = some q) : q.Settled := by
  obtain ⟨hdaemon, -, hlist⟩ := h.list_eq_nil hfault hstuck
  have hchild : ∀ t, q.child = some t → t.pc = .parked ∨ t.pc = .exited := fun t ht =>
    rests_of_stuck hq ht (by simpa [step, hfault] using hstuck (.child r) (by simp))
  have hrest : s.stage r q = .rest := by
    cases ht : q.child with
    | none => simp [CState.stage_none ht, CState.serving, hdaemon, hlist, DaemonPc.serves]
    | some t =>
      rw [CState.stage_some ht]
      rcases hchild t ht with hpc | hpc <;> rw [hpc] <;> rfl
  obtain ⟨hok, -⟩ := h.requests r q hq
  rw [hrest] at hok
  have hcreator : ∀ ok, s.creatorStep r ok = none := fun ok => by
    simpa [step, hfault] using hstuck (.creator r ok) (by simp)
  rcases waits_of_stuck hq hcreator with ⟨task, hpc⟩ | ⟨hpc, hzero⟩
  · simp only [Request.Ok, Request.Idle, hpc] at hok
    exact ⟨⟨task, hpc⟩, hok.1, hok.2, hchild⟩
  · -- a creator whose request is not served any more has been told
    rcases hpc with hpc | hpc <;> simp [Request.Ok, Request.Idle, hpc, hzero] at hok

end Stuck

/-! ## The guarantees -/

section Guarantees

variable {n : ℕ} {acts : List CAct} {s : CState}

/-- In no run is a request, a name or a completion used that is gone. -/
theorem kthread_create_safe (h : Run n acts s) : s.fault = false :=
  (Inv.of_run h).2

/-- Two creators and two outcomes: `kthreadd` sleeps when the first one wakes it; the fork for the
second one fails after the creator has been killed, and `kthreadd` cleans up. -/
def sampleSchedule : List CAct :=
  [List.replicate 2 (.daemon none),
    List.replicate 4 (.creator 0 true), List.replicate 4 (.creator 1 true),
    List.replicate 5 (.daemon none), [.daemon (some .enomem), .kill 1, .creator 1 true],
    List.replicate 5 (.child 0), List.replicate 3 (.creator 0 true),
    List.replicate 6 (.daemon none)].flatten

theorem kthread_create_safe_sample : ∃ s, Run 2 sampleSchedule s ∧ s.fault = false :=
  have ⟨s, hs⟩ := Option.isSome_iff_exists.mp
    (show (run step (.start 2) sampleSchedule).isSome = true by decide +kernel)
  ⟨s, hs, kthread_create_safe hs⟩

/-- A creator that returns a thread returns the one forked for its request, which waits to be woken
for the first time and which no other creator has got.  If the creator returns an error, the thread
forked for its request, if any, does not get that far. -/
theorem kthread_create_returns {r : ℕ} {q : Request} {task : Answer} (h : Run n acts s)
    (hq : s.requests[r]? = some q) (hpc : q.pc = .returned task) :
    match task with
    | .ok tid => q.child = some ⟨tid, .parked⟩ ∧
        ∀ (r' : ℕ) q', s.requests[r']? = some q' → q'.pc = .returned (.ok tid) → r' = r
    | .error _ => ∀ t, q.child = some t → t.pc ≠ .parked := by
  obtain ⟨hinv, -⟩ := Inv.of_run h
  obtain ⟨-, hanswers⟩ := hinv.requests r q hq
  cases task with
  | ok tid =>
    have hchild := hanswers.answer_ok tid (by rw [hpc]; rfl)
    refine ⟨hchild, fun r' q' hq' hpc' => ?_⟩
    have hchild' := (hinv.requests r' q' hq').2.answer_ok tid (by rw [hpc']; rfl)
    exact hinv.tids.inj r' r q' q _ _ hq' hq hchild' hchild rfl
  | error e =>
    intro t ht hparked
    have hlost := hanswers.answer_error e t (by rw [hpc]; rfl) ht
    rw [hparked] at hlost
    exact hlost

theorem kthread_create_returns_sample : ∃ s q, Run 2 sampleSchedule s ∧
    s.requests[0]? = some q ∧ q.pc = .returned (.ok 0) ∧ q.child = some ⟨0, .parked⟩ :=
  have hpc : ((run step (.start 2) sampleSchedule).bind fun s => (s.requests[0]?).map Request.pc) =
      some (.returned (.ok 0)) := by decide +kernel
  have ⟨s, hs, hpc⟩ := Option.bind_eq_some_iff.mp hpc
  have ⟨q, hq, hpc⟩ := Option.map_eq_some_iff.mp hpc
  ⟨s, q, hs, hq, hpc, (kthread_create_returns hs hq hpc).1⟩

/-- Every run ends.  When nobody can move on, unless a creator is killed, `kthreadd` sleeps in front
of an empty list and every request is settled. -/
theorem kthread_create_answered (h : Run n acts s) :
    Terminates step s ∧ (Stuck s → s.daemon = .schedule ∧ s.list = [] ∧
      ∀ q ∈ s.requests, q.Settled) := by
  obtain ⟨hinv, hfault⟩ := Inv.of_run h
  constructor
  · refine terminates_of_rank (I := Inv) CState.rank (fun s a s' hs hstep => ?_) hinv
    have hmove := hs.move_of_step hstep
    exact ⟨hs.move hmove, hmove.rank_lt⟩
  · intro hstuck
    obtain ⟨hdaemon, -, hlist⟩ := hinv.list_eq_nil hfault hstuck
    refine ⟨hdaemon, hlist, fun q hq => ?_⟩
    obtain ⟨r, hr⟩ := List.mem_iff_getElem?.mp hq
    exact hinv.settled hfault hstuck hr

theorem kthread_create_answered_sample : ∃ s, Run 2 sampleSchedule s ∧ Stuck s ∧
    ∀ q ∈ s.requests, q.Settled := by
  obtain ⟨s, hs⟩ : ∃ s, Run 2 sampleSchedule s := ⟨_, rfl⟩
  have hstuck : Stuck s := by
    cases hs
    rintro (⟨_ | _ | r, ok⟩ | r | (_ | _ | r) | error) hkill
    all_goals first | rfl | exact absurd rfl (hkill _)
  exact ⟨s, hs, hstuck, ((kthread_create_answered hs).2 hstuck).2.2⟩

end Guarantees

end KthreadCreate

end XorSyscalls
