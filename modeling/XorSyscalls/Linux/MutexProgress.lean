import XorSyscalls.Linux.MutexInvariant

/-!
# No lost wake-ups

A waiter sleeps only while somebody is left who will wake it.  `Roused` says that a waiter will make
another attempt or is about to be woken, and `WakeInv` when one has to be roused: after a handoff
the task that the mutex was handed to, and while the mutex is free one of the waiters, unless
somebody is still looking for one.

* `mutex_exclusive`: at most one task owns the mutex, and no `MUTEX_WARN_ON` reports anything.
* `mutex_not_stuck`: somebody in the code can go on, unless the mutex is held outside of it.
* `mutex_handed_over`: a mutex that the first waiter has asked for goes to this waiter.
-/

namespace XorSyscalls.Linux

open TransitionSystem

namespace Pc

variable {T : Type}

/-- The task has `t` in its wake queue. -/
def Queues (t : T) : Pc T → Prop
  | .handoff _ woken _ | .wakeUnlock woken | .wake woken => woken = some t
  | _ => False

/-- The task is about to wake `t`. -/
def Wakes (t : T) (pc : Pc T) : Prop := pc.Queues t ∨ pc = .wakeUp t

/-- The task is in the code of `mutex_lock_interruptible` or `mutex_unlock`. -/
def Inside : Pc T → Prop
  | .idle | .holding | .interrupted => False
  | _ => True

/-- The task has released the mutex and is about to look for a waiter to wake. -/
def Looks (pc : Pc T) : Prop := pc = .wakeLock false ∨ pc = .wakeNext false

section Inside

variable {pc : Pc T}

lemma InWait.inside (h : pc.InWait) : pc.Inside := by
  cases pc <;> simp_all [InWait, Inside]

lemma Awake.inside (h : pc.Awake) : pc.Inside := by
  cases pc <;> simp_all [Awake, Inside]

lemma Wakes.inside {t : T} (h : pc.Wakes t) : pc.Inside := by
  cases pc <;> simp_all [Wakes, Queues, Inside]

lemma Looks.inside (h : pc.Looks) : pc.Inside := by
  rcases h with rfl | rfl <;> trivial

/-- The owner of the mutex is outside of the code only while the mutex is locked. -/
lemma Owns.inside (h : pc.Owns) : pc = .holding ∨ pc.Inside ∧ pc ≠ .schedule := by
  cases pc <;> simp_all [Owns, Inside]

end Inside

end Pc

namespace MutexState

variable {T : Type} [DecidableEq T]

/-- The waiter `t` will make another attempt to take the mutex: it is awake, or is woken. -/
def Roused (M : MutexState T) (t : T) : Prop :=
  (M.pc t).Awake ∨ M.pc t = .schedule ∧ (M.running t = true ∨ ∃ u, (M.pc u).Wakes t)

/-- The invariant of the mutex together with who is about to be woken. -/
structure WakeInv (M : MutexState T) : Prop where
  inv : M.Inv
  queued : ∀ t, M.queued t = true → ∃ u, (M.pc u).Queues t
  pickup : M.owner.pickup = true → ∀ t, M.owner.task = some t → M.Roused t
  handoff : ∀ u t woken seen, M.pc u = .handoff (some t) woken seen → M.Roused t
  free : M.owner.task = none → M.waitList ≠ [] →
    (∃ u, (M.pc u).Looks) ∨ ∃ t ∈ M.waitList, M.Roused t

section Step

variable {M M' : MutexState T} {t u v : T} {signal : Bool}

omit [DecidableEq T] in
/-- A waiter that will make another attempt is in the wait list. -/
lemma Roused.waits (hr : M.Roused u) : (M.pc u).Waits := by
  rcases hr with hawake | ⟨hpc, -⟩
  · revert hawake
    cases M.pc u <;> simp [Pc.Awake, Pc.Waits]
  · simp [hpc, Pc.Waits]

/-- A task that is running is put to sleep by nobody else. -/
lemma Move.running_of_ne (h : Move M t signal M') (hu : u ≠ t) (hrun : M.running u = true) :
    M'.running u = true := by
  cases h with
  | @giveUp waiter hpc needResched =>
    cases needResched
    · exact hrun
    · simpa [goto, setRunning, hu] using hrun
  | setState | dequeue => simpa [goto, setRunning, hu] using hrun
  | wakeUp =>
    simp only [goto, setRunning, Function.update_apply]
    split
    · rfl
    · exact hrun
  | _ => exact hrun

/-- A task keeps the entry of its wake queue until it takes it off. -/
lemma Move.queues (h : Move M t signal M') (hq : (M.pc t).Queues u) :
    (M'.pc t).Queues u ∨ M.pc t = .wake (some u) ∧ M'.pc t = .wakeUp u ∧ M'.queued u = false := by
  cases h with
  | jump hjump =>
    rw [pc_goto_self]
    generalize M.pc t = pc at hjump hq
    cases hjump with
    | handoffRetry => exact .inl hq
    | _ => simp [Pc.Queues] at hq
  | unlockWait hpc =>
    rw [pc_goto_self]
    generalize M.pc t = pc at hpc hq
    cases hpc with
    | wake => exact .inl hq
    | _ => simp [Pc.Queues] at hq
  | lockWait hpc =>
    generalize M.pc t = pc at hpc hq
    cases hpc <;> simp [Pc.Queues] at hq
  | handoff hpc =>
    rw [hpc] at hq
    exact .inl (by simpa [Pc.Queues] using hq)
  | wake hpc =>
    rw [hpc] at hq
    obtain rfl : _ = u := Option.some_inj.mp hq
    exact .inr ⟨hpc, by simp, by simp [goto]⟩
  | fastLock hpc | take hpc | ask hpc | giveUp hpc | enqueue hpc | setWaiters hpc | setState hpc
  | dequeue hpc | clearFlags hpc | unlockFast hpc | release hpc | wakeNext hpc | wakeUp hpc =>
    simp [hpc, Pc.Queues] at hq

/-- A task that is about to wake another one goes on with it, and then the other one is running. -/
lemma Move.wakes (h : Move M t signal M') (hw : (M.pc t).Wakes u) :
    (M'.pc t).Wakes u ∨ M'.running u = true := by
  rcases hw with hq | hpc
  · rcases h.queues hq with hq | ⟨-, hpc, -⟩
    · exact .inl (.inl hq)
    · exact .inl (.inr hpc)
  · right
    cases h with
    | wakeUp hpc' =>
      obtain rfl := Pc.wakeUp.inj (hpc.symm.trans hpc')
      simp [goto, setRunning]
    | jump hjump => rw [hpc] at hjump; cases hjump
    | lockWait hlocks => rw [hpc] at hlocks; cases hlocks
    | unlockWait hunlocks => rw [hpc] at hunlocks; cases hunlocks
    | _ => simp_all

/-- The steps of other tasks leave a waiter roused. -/
lemma Roused.of_ne (hr : M.Roused u) (hmove : Move M t signal M') (hu : u ≠ t) : M'.Roused u := by
  unfold Roused at *
  rw [hmove.pc_of_ne hu]
  refine hr.imp_right fun ⟨hpc, hwake⟩ => ⟨hpc, ?_⟩
  rcases hwake with hrun | ⟨v, hv⟩
  · exact .inl (hmove.running_of_ne hu hrun)
  · rcases eq_or_ne v t with rfl | hne
    · exact (hmove.wakes hv).symm.imp_right fun hv => ⟨v, hv⟩
    · exact .inr ⟨v, by rwa [hmove.pc_of_ne hne]⟩

/-- An awake waiter stays awake in a step that changes no shared data, unless it finds the mutex
taken under `wait_lock`. -/
lemma Jump.awake {pc pc' : Pc T} (hjump : Jump M t signal pc pc')
    (hpcs : pc.Awake ∨ pc = .schedule) :
    pc'.Awake ∨ pc.InWait ∧ trylockNew t false M.owner = none := by
  cases hjump with
  | retry => exact .inl (by simpa [Pc.Awake] using hpcs)
  | @fail place seen hnew =>
    rcases place with _ | _ | _ | _ | (_ | _) <;>
      simp_all [Pc.Awake, Place.Waits, Place.failure, Pc.InWait, Place.InWait, Place.wantsHandoff]
  | spin => exact .inl (by simpa [Pc.Awake, Place.Waits] using hpcs)
  | schedule => exact .inl (by simp [Pc.Awake])
  | isFirst => exact .inl (by simp [Pc.Awake])
  | _ => simp [Pc.Awake] at hpcs

/-- A roused waiter stays so until it takes the mutex, or finds it taken under `wait_lock`. -/
lemma Roused.of_self (hr : M.Roused t) (hmove : Move M t signal M') :
    M'.Roused t ∨ M'.holder = some t ∨
      (M.pc t).InWait ∧ trylockNew t false M.owner = none := by
  have hpcs : (M.pc t).Awake ∨ M.pc t = .schedule := hr.imp_right And.left
  cases hmove with
  | jump hjump =>
    rcases hjump.awake hpcs with hawake | hfail
    · exact .inl (.inl (by simpa using hawake))
    · exact .inr (.inr hfail)
  | take => exact .inr (.inl rfl)
  | ask => exact .inl (.inl (by simp [Pc.Awake]))
  | giveUp hpc =>
    rw [hpc] at hpcs
    exact .inl (.inl (by simpa [Pc.Awake] using hpcs))
  | lockWait hlocks =>
    refine .inl (.inl ?_)
    rw [pc_goto_self]
    generalize M.pc t = pc at hlocks hpcs
    cases hlocks <;> simp_all [Pc.Awake, Place.Waits]
  | unlockWait hunlocks =>
    generalize M.pc t = pc at hunlocks hpcs
    cases hunlocks <;> simp [Pc.Awake] at hpcs
  | setWaiters => exact .inl (.inl (by simp [Pc.Awake]))
  | @setState first => exact .inl (.inl (by cases first <;> simp [Pc.Awake, Place.Waits]))
  | fastLock hpc | enqueue hpc | dequeue hpc | clearFlags hpc | unlockFast hpc | release hpc
  | wakeNext hpc | handoff hpc | wake hpc | wakeUp hpc =>
    simp [hpc, Pc.Awake] at hpcs

/-- The first waiter is roused when it is put into a wake queue, or is in one already. -/
lemma WakeInv.roused_of_wakeNext (h : M.WakeInv) {asked : Bool} (hpc : M.pc t = .wakeNext asked)
    (howner : ∀ v, (M.pc v).Owns → v = t) (hhead : M.waitList.head? = some u) :
    (M.wakeNext t asked).Roused u := by
  obtain ⟨hne, hcan⟩ := h.inv.canPick_of_head (t := t) (u := u) (by simp [hpc, Pc.InWait])
    (by simp [hpc, Pc.Waits]) howner hhead
  have hpc' : (M.wakeNext t asked).pc u = M.pc u := pc_goto_of_ne _ _ hne
  unfold Roused
  rw [hpc']
  rcases hcan with hsched | ⟨hawake, -, -⟩
  · refine .inr ⟨hsched, .inr ?_⟩
    by_cases hqueued : M.queued u = true
    · obtain ⟨v, hv⟩ := h.queued u hqueued
      have hvt : v ≠ t := by
        rintro rfl
        simp [hpc, Pc.Queues] at hv
      exact ⟨v, .inl (by rwa [MutexState.wakeNext, pc_goto_of_ne _ _ hvt])⟩
    · refine ⟨t, .inl ?_⟩
      rw [MutexState.wakeNext, pc_goto_self, hhead]
      cases asked <;> simp [Pc.Queues, Option.filter, hqueued]
  · exact .inl hawake

end Step

namespace WakeInv

variable {M M' : MutexState T} {t u v : T} {signal : Bool}

/-- A task in a wake queue is in that of some task. -/
lemma queued_step (h : M.WakeInv) (hmove : Move M t signal M') (hu : M'.queued u = true) :
    ∃ v, (M'.pc v).Queues u := by
  have hold : M.queued u = true → ∃ v, (M'.pc v).Queues u := by
    intro hq
    obtain ⟨v, hv⟩ := h.queued u hq
    rcases eq_or_ne v t with rfl | hne
    · rcases hmove.queues hv with hv | ⟨-, -, hfalse⟩
      · exact ⟨v, hv⟩
      · rw [hu] at hfalse
        cases hfalse
    · exact ⟨v, by rwa [hmove.pc_of_ne hne]⟩
  cases hmove with
  | @wakeNext asked hpc =>
    simp only [MutexState.wakeNext, goto, Bool.or_eq_true, decide_eq_true_eq] at hu
    rcases hu with hq | hwoken
    · exact hold hq
    · refine ⟨t, ?_⟩
      rw [MutexState.wakeNext, pc_goto_self, hwoken]
      cases asked <;> simp [Pc.Queues]
  | @wake woken hpc =>
    refine hold ?_
    simp only [goto, Function.update_apply] at hu
    split at hu
    · cases hu
    · exact hu
  | @giveUp waiter hpc needResched => cases needResched <;> exact hold hu
  | _ => exact hold hu

/-- A waiter to which the mutex was handed over is roused. -/
lemma pickup_step (h : M.WakeInv) (hmove : Move M t signal M') (hpickup : M'.owner.pickup = true)
    (hu : M'.owner.task = some u) : M'.Roused u := by
  rcases h.inv.pickup_cases hmove hpickup with ⟨hold, htask⟩ | ⟨next, woken, seen, hpc, htask, -⟩
  · rw [htask] at hu
    have hroused := h.pickup hold u hu
    rcases eq_or_ne u t with rfl | hne
    · rcases hroused.of_self hmove with hr | hholder | ⟨-, hnew⟩
      · exact hr
      · simp [holder, hpickup] at hholder
      · simp [trylockNew, hu, hold] at hnew
    · exact hroused.of_ne hmove hne
  · obtain rfl : next = some u := htask.symm.trans hu
    have hroused := h.handoff t u woken seen hpc
    refine hroused.of_ne hmove ?_
    rintro rfl
    simp [Roused, hpc, Pc.Awake] at hroused

/-- A waiter to which the mutex is about to be handed over is roused. -/
lemma handoff_step (h : M.WakeInv) (hmove : Move M t signal M') {woken : Option T}
    {seen : Option (Owner T)} (hv : M'.pc v = .handoff (some u) woken seen) : M'.Roused u := by
  rcases eq_or_ne v t with rfl | hne
  · have harrival := hmove.arrival
    rw [hv] at harrival
    obtain ⟨-, ⟨hnext, hpc, heq⟩ | ⟨seen', hpc⟩⟩ := harrival
    · rw [heq]
      exact h.roused_of_wakeNext hpc (fun w hw => Resource.eq_of_inside h.inv.holder_iff hw
        (by simp [hpc, Pc.Owns])) hnext.symm
    · have hroused := h.handoff v u woken seen' hpc
      refine hroused.of_ne hmove ?_
      rintro rfl
      simp [Roused, hpc, Pc.Awake] at hroused
  · have hpc := hv
    rw [hmove.pc_of_ne hne] at hpc
    have hroused := h.handoff v u woken seen hpc
    rcases eq_or_ne u t with rfl | hut
    · rcases hroused.of_self hmove with hr | hholder | ⟨hwait, -⟩
      · exact hr
      · have hother := ((h.inv.of_move hmove).holder_iff v).mpr (by simp [hv, Pc.Owns])
        exact absurd (Option.some_inj.mp (hother.symm.trans hholder)) hne
      · exact absurd (Resource.eq_of_inside h.inv.waitLock_iff (by simp [hpc, Pc.InWait]) hwait) hne
    · exact hroused.of_ne hmove hut

end WakeInv

/-- How the mutex becomes free. -/
lemma Move.freed_cases {M M' : MutexState T} {t : T} {signal : Bool} (h : Move M t signal M')
    (hbefore : M.owner.task ≠ none) (hafter : M'.owner.task = none) :
    (M'.pc t).Looks ∨ M'.owner.waiters = false ∨
      ∃ woken seen, M.pc t = .handoff none woken seen ∧ M'.waitList = M.waitList := by
  cases h with
  | unlockFast => exact .inr (.inl rfl)
  | release hpc =>
    cases hw : M.owner.waiters with
    | false => exact .inr (.inl hw)
    | true => exact .inl (by simp [Pc.Looks])
  | @handoff next woken seen hpc =>
    obtain rfl : next = none := hafter
    exact .inr (.inr ⟨woken, seen, hpc, rfl⟩)
  | fastLock | take => cases hafter
  | @giveUp waiter hpc needResched => cases needResched <;> exact absurd hafter hbefore
  | _ => exact absurd hafter hbefore

/-- A task that is about to look for a waiter goes on with it. -/
lemma Move.looks {M M' : MutexState T} {t : T} {signal : Bool} (h : Move M t signal M')
    (hl : (M.pc t).Looks) :
    (M'.pc t).Looks ∨ M.pc t = .wakeNext false ∧ M' = M.wakeNext t false := by
  cases h with
  | lockWait hlocks =>
    rw [pc_goto_self]
    generalize M.pc t = pc at hlocks hl
    cases hlocks <;> simp_all [Pc.Looks]
  | jump hjump =>
    generalize M.pc t = pc at hjump hl
    cases hjump <;> simp [Pc.Looks] at hl
  | unlockWait hunlocks =>
    generalize M.pc t = pc at hunlocks hl
    cases hunlocks <;> simp [Pc.Looks] at hl
  | @wakeNext asked hpc =>
    cases asked
    · exact .inr ⟨hpc, rfl⟩
    · simp [hpc, Pc.Looks] at hl
  | fastLock hpc | take hpc | ask hpc | giveUp hpc | enqueue hpc | setWaiters hpc | setState hpc
  | dequeue hpc | clearFlags hpc | unlockFast hpc | release hpc | handoff hpc | wake hpc
  | wakeUp hpc => simp [hpc, Pc.Looks] at hl

namespace WakeInv

variable {M M' : MutexState T} {t u v : T} {signal : Bool}

/-- While the mutex is free and there are waiters, one of them is roused, or some task is about to
look for one. -/
lemma free_step (h : M.WakeInv) (hmove : Move M t signal M') (hfree : M'.owner.task = none)
    (hne : M'.waitList ≠ []) :
    (∃ u, (M'.pc u).Looks) ∨ ∃ u ∈ M'.waitList, M'.Roused u := by
  have hinv' := h.inv.of_move hmove
  have hroused : ∀ u, M'.Roused u → (∃ u, (M'.pc u).Looks) ∨ ∃ u ∈ M'.waitList, M'.Roused u :=
    fun u hu => .inr ⟨u, (hinv'.mem_iff u).mpr hu.waits, hu⟩
  -- a task that is about to set the flag for waiters is awake
  have hset : (∃ u, M'.pc u = .setWaiters) →
      (∃ u, (M'.pc u).Looks) ∨ ∃ u ∈ M'.waitList, M'.Roused u :=
    fun ⟨u, hu⟩ => hroused u (.inl (by simp [hu, Pc.Awake]))
  by_cases hbefore : M.owner.task = none
  · by_cases hnil : M.waitList = []
    · -- the first waiter has been added
      rcases hmove.waitList_cases with ⟨heq, -⟩ | ⟨-, -, hpc⟩ | ⟨-, heq, -⟩
      · exact absurd (heq.trans hnil) hne
      · exact hset ⟨t, by rw [hpc, if_pos hnil]⟩
      · simp [heq, hnil] at hne
    · rcases h.free hbefore hnil with ⟨v, hv⟩ | ⟨u, -, hu⟩
      · rcases eq_or_ne v t with rfl | hvt
        · rcases hmove.looks hv with hlooks | ⟨hpc, heq⟩
          · exact .inl ⟨v, hlooks⟩
          · -- the first waiter is looked up, and nobody owns the mutex
            obtain ⟨u, rest, hlist⟩ := List.exists_cons_of_ne_nil hnil
            refine hroused u ?_
            rw [heq]
            refine h.roused_of_wakeNext hpc (fun w hw => ?_) (by rw [hlist]; rfl)
            have hholder := (h.inv.holder_iff w).mpr hw
            simp [holder, hbefore] at hholder
        · exact .inl ⟨v, by rwa [hmove.pc_of_ne hvt]⟩
      · rcases eq_or_ne u t with rfl | hut
        · rcases hu.of_self hmove with hr | hholder | ⟨-, hnew⟩
          · exact hroused u hr
          · simp [holder, hfree] at hholder
          · simp [trylockNew, hbefore] at hnew
        · exact hroused u (hu.of_ne hmove hut)
  · rcases hmove.freed_cases hbefore hfree with hlooks | hflag | ⟨woken, seen, hpc, heq⟩
    · exact .inl ⟨t, hlooks⟩
    · exact hset ((hinv'.waiters hne).resolve_left (by simp [hflag]))
    · rw [heq] at hne
      have hhead := h.inv.next _ _ _ _ hpc
      exact absurd (List.head?_eq_none_iff.mp hhead.symm) hne

/-- Every move keeps the invariant. -/
lemma of_move (h : M.WakeInv) (hmove : Move M t signal M') : M'.WakeInv where
  inv := h.inv.of_move hmove
  queued := fun _ => h.queued_step hmove
  pickup := fun hpickup _ => h.pickup_step hmove hpickup
  handoff := fun _ _ _ _ => h.handoff_step hmove
  free := h.free_step hmove

omit [DecidableEq T] in
/-- At the start there is nothing to do. -/
lemma init : (init : MutexState T).WakeInv where
  inv :=
    { nodup := List.nodup_nil
      waitLock_iff := fun _ => by simp [MutexState.init, Pc.InWait]
      holder_iff := fun _ => by simp [MutexState.init, holder, Owner.bare, Pc.Owns]
      mem_iff := fun _ => by simp [MutexState.init, Pc.Waits]
      pickup := fun h => by cases h
      free := fun _ => rfl
      pickup_handoff := fun h => by cases h
      waiters := fun h => absurd rfl h
      flags := fun _ => .inl rfl
      clear := fun _ _ h => by cases h
      next := fun _ _ _ _ h => by cases h }
  queued := fun _ h => by cases h
  pickup := fun h => by cases h
  handoff := fun _ _ _ _ h => by cases h
  free := fun _ h => absurd rfl h

end WakeInv

/-! ## Whole runs -/

/-- The mutex with any number of tasks that lock and unlock it.  An action names the task, says
whether it has a signal pending, and resolves what the code leaves open. -/
def act (M : MutexState T) (a : T × Bool × Choice) : Option (MutexState T) :=
  M.step a.1 a.2.1 a.2.2

/-- The invariant holds in every run. -/
lemma wakeInv_of_run {acts : List (T × Bool × Choice)} {M : MutexState T}
    (hrun : run act init acts = some M) : M.WakeInv :=
  run_invariant (I := WakeInv) WakeInv.init
    (fun _ _ _ h hstep => h.of_move (h.inv.move hstep)) hrun

/-- Task `0` locks the mutex; task `1` finds it locked and goes to sleep. -/
def sleepSchedule : List (ℕ × Bool × Choice) :=
  [(0, false, .go), (0, false, .go)] ++ List.replicate 3 (1, false, .go) ++
    [(1, false, .giveUp false)] ++ List.replicate 8 (1, false, .go)

/-- Then task `1` gets a signal and asks for a handoff, and task `0` unlocks the mutex. -/
def handoffSchedule : List (ℕ × Bool × Choice) :=
  sleepSchedule ++ List.replicate 5 (1, true, .go) ++ List.replicate 6 (0, false, .go)

/-- At most one task owns the mutex, at most one holds `wait_lock`, and no `MUTEX_WARN_ON` of
`kernel/locking/mutex.c` reports anything, whatever the tasks do. -/
theorem mutex_exclusive {acts : List (T × Bool × Choice)} {M : MutexState T}
    (hrun : run act init acts = some M) :
    (∀ t u, (M.pc t).Owns → (M.pc u).Owns → t = u) ∧
      (∀ t u, (M.pc t).InWait → (M.pc u).InWait → t = u) ∧ ∀ t, ¬M.Warns t := by
  have h := (wakeInv_of_run hrun).inv
  refine ⟨fun _ _ => Resource.eq_of_inside h.holder_iff,
    fun _ _ => Resource.eq_of_inside h.waitLock_iff, fun t => ?_⟩
  have howner : (M.pc t).Owns → ¬(M.owner.task ≠ some t ∨ M.owner.pickup = true) := by
    intro howns
    have hholder := (h.holder_iff t).mpr howns
    unfold holder at hholder
    split at hholder <;> simp_all
  unfold Warns
  split <;> rename_i hpc
  · rintro ⟨hnone, hhandoff | hpickup⟩
    · simp [h.free hnone] at hhandoff
    · obtain ⟨u, hu, -⟩ := h.pickup hpickup
      simp [hnone] at hu
  · exact howner (by simp [hpc, Pc.Owns])
  · exact howner (by simp [hpc, Pc.Owns])
  · exact not_false

/-- A task sleeps while another one has the mutex. -/
theorem mutex_exclusive_sleep : ∃ M, run act init sleepSchedule = some M ∧ M.pc 0 = .holding ∧
    M.pc 1 = .schedule ∧ ∀ t, ¬M.Warns t :=
  ⟨_, rfl, rfl, rfl, (mutex_exclusive (show run act init sleepSchedule = some _ from rfl)).2.2⟩

/-- `raw_spin_lock` waits for another task. -/
lemma lockWait_eq_none {M : MutexState T} {t : T} {pc : Pc T} (h : M.lockWait t pc = none) :
    ∃ u, M.waitLock = some u := by
  unfold lockWait at h
  split at h <;> rename_i hwait
  · cases h
  · exact Option.ne_none_iff_exists'.mp hwait

/-- What can keep a task from its next step: the spin lock, or sleep. -/
lemma step_go_eq_none {M : MutexState T} {t : T} {signal : Bool}
    (h : M.step t signal .go = none) :
    (∃ u, M.waitLock = some u) ∧ ¬(M.pc t).InWait ∨
      M.pc t = .schedule ∧ M.running t = false := by
  unfold step at h
  dsimp only at h
  split at h <;> rename_i hpc
  case h_2 | h_19 => split at h <;> cases h
  case h_5 | h_13 | h_21 => exact .inl ⟨lockWait_eq_none h, by simp [hpc, Pc.InWait]⟩
  case h_11 =>
    split at h <;> rename_i hawake
    · cases h
    · exact .inr ⟨hpc, by simp_all⟩
  all_goals cases h

/-- If a task is in the code of the mutex and nobody in the code can go on, the mutex is locked. -/
lemma WakeInv.exists_holding {M : MutexState T} (h : M.WakeInv) {t : T} (ht : (M.pc t).Inside)
    (hstuck : ∀ u, (M.pc u).Inside → ∃ signal, M.step u signal .go = none) :
    ∃ u, M.pc u = .holding := by
  have hnone : ∀ u, (M.pc u).Inside → (∃ u, M.waitLock = some u) ∧ ¬(M.pc u).InWait ∨
      M.pc u = .schedule ∧ M.running u = false := fun u hu =>
    (hstuck u hu).elim fun _ => step_go_eq_none
  -- the holder of `wait_lock` could go on
  have hfree : ¬∃ u, M.waitLock = some u := by
    rintro ⟨u, hu⟩
    have hin := (h.inv.waitLock_iff u).mp hu
    rcases hnone u hin.inside with ⟨-, hnot⟩ | ⟨hpc, -⟩
    · exact hnot hin
    · simp [hpc, Pc.InWait] at hin
  -- so everybody sleeps
  have hsleep : ∀ u, (M.pc u).Inside → M.pc u = .schedule ∧ M.running u = false := fun u hu =>
    (hnone u hu).resolve_left fun hwait => hfree hwait.1
  have hroused : ∀ u, ¬M.Roused u := by
    rintro u (hawake | ⟨hpc, hrun | ⟨v, hv⟩⟩)
    · have hpc := (hsleep u hawake.inside).1
      simp [hpc, Pc.Awake] at hawake
    · simp [(hsleep u (by simp [hpc, Pc.Inside])).2] at hrun
    · have hpc := (hsleep v hv.inside).1
      simp [hpc, Pc.Wakes, Pc.Queues] at hv
  have hwaits : M.waitList ≠ [] :=
    List.ne_nil_of_mem ((h.inv.mem_iff t).mpr (by simp [(hsleep t ht).1, Pc.Waits]))
  cases htask : M.owner.task with
  | none =>
    rcases h.free htask hwaits with ⟨u, hu⟩ | ⟨u, -, hu⟩
    · have hpc := (hsleep u hu.inside).1
      simp [hpc, Pc.Looks] at hu
    · exact absurd hu (hroused u)
  | some u =>
    cases hpickup : M.owner.pickup with
    | true => exact absurd (h.pickup hpickup u htask) (hroused u)
    | false =>
      have howns := (h.inv.holder_iff u).mp (by simp [holder, hpickup, htask])
      rcases howns.inside with hpc | ⟨hin, hpc⟩
      · exact ⟨u, hpc⟩
      · exact absurd (hsleep u hin).1 hpc

/-- No wake-up is lost.  While a task is in the code of the mutex, the mutex is locked or some task
in the code can go on. -/
theorem mutex_not_stuck {acts : List (T × Bool × Choice)} {M : MutexState T}
    (hrun : run act init acts = some M) (signal : T → Bool) {t : T} (ht : (M.pc t).Inside) :
    (∃ u, M.pc u = .holding) ∨ ∃ u, (M.pc u).Inside ∧ (M.step u (signal u) .go).isSome := by
  by_contra! hstuck
  obtain ⟨u, hu⟩ := (wakeInv_of_run hrun).exists_holding ht fun u hu =>
    ⟨signal u, by simpa using hstuck.2 u hu⟩
  exact hstuck.1 u hu

/-- The task asleep is not forgotten when the other one unlocks the mutex. -/
theorem mutex_not_stuck_sleep :
    ∃ M, run act init (sleepSchedule ++ [(0, false, .go)]) = some M ∧ (M.pc 1).Inside ∧
      ((∃ u, M.pc u = .holding) ∨ ∃ u, (M.pc u).Inside ∧ (M.step u false .go).isSome) :=
  ⟨_, rfl, trivial, mutex_not_stuck
    (show run act init (sleepSchedule ++ [(0, false, .go)]) = some _ from rfl)
    (fun _ => false) (t := 1) trivial⟩

/-! ## Handoff -/

/-- The mutex is on its way from `u` to the first waiter `w`. -/
def Promised (u w : T) (M : MutexState T) : Prop :=
  M.waitList.head? = some w ∧
    (M.owner.task = some u ∧ M.owner.handoff = true ∧ M.owner.pickup = false ∨
      M.owner.task = some w)

/-- The first waiter stays the first one as long as it waits. -/
lemma Inv.head_step {M M' : MutexState T} {t w : T} {signal : Bool} (h : M.Inv)
    (hmove : Move M t signal M') (hhead : M.waitList.head? = some w) (hw : w ∈ M'.waitList) :
    M'.waitList.head? = some w := by
  obtain ⟨rest, hlist⟩ := List.head?_eq_some_iff.mp hhead
  rcases hmove.waitList_cases with ⟨heq, -⟩ | ⟨heq, -⟩ | ⟨-, heq, -⟩
  · rw [heq, hhead]
  · rw [heq, hlist, List.cons_append, List.head?_cons]
  · have hne : w ≠ t := by
      rintro rfl
      simp [heq, h.nodup.mem_erase_iff] at hw
    rw [heq, hlist, List.erase_cons_tail (by simpa using hne), List.head?_cons]

/-- Nobody else takes a mutex that is promised to the first waiter. -/
lemma Promised.step {M M' : MutexState T} {t u w : T} {signal : Bool} (hp : Promised u w M)
    (h : M.Inv) (hmove : Move M t signal M') (hw : w ∈ M'.waitList) : Promised u w M' := by
  refine ⟨h.head_step hmove hp.1 hw, ?_⟩
  have hwaits := (h.mem_iff w).mp (List.mem_of_mem_head? hp.1)
  rcases hp.2 with ⟨htask, hhandoff, hpickup⟩ | htask
  · cases hmove with
    | fastLock hpc howner | unlockFast hpc howner => simp [howner, Owner.bare] at hhandoff
    | take hpc howner => simp [htask, hpickup] at howner
    | ask => exact .inl ⟨htask, rfl, hpickup⟩
    | clearFlags hpc =>
      have hhead := hp.1
      simp [h.clear _ _ hpc] at hhead
    | release hpc hnot => simp [hhandoff] at hnot
    | handoff hpc => exact .inr ((h.next _ _ _ _ hpc).trans hp.1)
    | @giveUp waiter hpc needResched => cases needResched <;> exact .inl ⟨htask, hhandoff, hpickup⟩
    | _ => exact .inl ⟨htask, hhandoff, hpickup⟩
  · -- the waiter does not unlock the mutex, and nobody else owns it
    have hnot : (M.pc t).Owns → t = w := fun howns => by
      have hholder := (h.holder_iff t).mpr howns
      unfold holder at hholder
      split at hholder
      · cases hholder
      · exact Option.some_inj.mp (hholder.symm.trans htask)
    right
    cases hmove with
    | fastLock hpc howner => simp [howner, Owner.bare] at htask
    | take hpc howner =>
      rcases howner with hnone | ⟨hself, -⟩
      · simp [htask] at hnone
      · exact hself.symm.trans htask ▸ rfl
    | unlockFast hpc | release hpc | handoff hpc =>
      obtain rfl := hnot (by simp [hpc, Pc.Owns])
      simp [hpc, Pc.Waits] at hwaits
    | @giveUp waiter hpc needResched => cases needResched <;> exact htask
    | _ => exact htask

/-- Once the first waiter `w` has asked for it, the mutex goes from its owner `u` to `w`: until `w`
leaves the wait list nobody else gets it. -/
theorem mutex_handed_over {acts₀ acts : List (T × Bool × Choice)} {M M' : MutexState T} {u w : T}
    (hreach : run act init acts₀ = some M) (hhead : M.waitList.head? = some w)
    (htask : M.owner.task = some u) (hhandoff : M.owner.handoff = true)
    (hrun : run act M acts = some M') (hwaits : AllSteps act (fun M _ => w ∈ M.waitList) M acts)
    (hw : w ∈ M'.waitList) {t : T} (ht : (M'.pc t).Owns) : t = u ∨ t = w := by
  have hinv : ∀ {acts M'}, run act M acts = some M' → M'.Inv := fun {acts M'} hrun => by
    have hall : run act init (acts₀ ++ acts) = some M' := by
      rw [run_append, hreach]
      exact hrun
    exact (wakeInv_of_run hall).inv
  have hpickup : M.owner.pickup = false := by
    refine Bool.eq_false_iff.mpr fun hpickup => ?_
    simp [(hinv (run_nil M)).pickup_handoff hpickup] at hhandoff
  have hpromised : Promised u w M' := by
    refine run_induction (motive := fun acts M' =>
      AllSteps act (fun M _ => w ∈ M.waitList) M acts → w ∈ M'.waitList → Promised u w M')
      (fun _ _ => ⟨hhead, .inl ⟨htask, hhandoff, hpickup⟩⟩) ?_ hrun hwaits hw
    intro acts M₁ a M₂ hrun₁ ih hstep hall hw₂
    obtain ⟨hall, hw₁⟩ := (allSteps_concat hrun₁).mp hall
    exact (ih hall hw₁).step (hinv hrun₁) ((hinv hrun₁).move hstep) hw₂
  have hholder := ((hinv hrun).holder_iff t).mpr ht
  unfold holder at hholder
  split at hholder
  · cases hholder
  · rcases hpromised.2 with ⟨htask, -, -⟩ | htask
    · exact .inl (Option.some_inj.mp (hholder.symm.trans htask))
    · exact .inr (Option.some_inj.mp (hholder.symm.trans htask))

/-- Task `0` hands the mutex over, and task `1` picks it up and is its only owner. -/
theorem mutex_handed_over_pickup :
    ∃ M M', run act init handoffSchedule = some M ∧ M.waitList.head? = some 1 ∧
      M.owner.task = some 0 ∧ M.owner.handoff = true ∧
      run act M [(0, false, .go), (1, false, .go), (1, false, .go), (1, false, .go)] = some M' ∧
      (M'.pc 1).Owns ∧ ∀ t, (M'.pc t).Owns → t = 1 := by
  have hmem : (1 : ℕ) ∈ [1] := List.mem_singleton.mpr rfl
  refine ⟨_, _, rfl, rfl, rfl, rfl, rfl, trivial, fun t ht => ?_⟩
  have howner : t = 0 ∨ t = 1 := mutex_handed_over (w := 1)
    (show run act init handoffSchedule = some _ from rfl) rfl rfl rfl
    (show run act _ [(0, false, .go), (1, false, .go), (1, false, .go), (1, false, .go)] = some _
      from rfl)
    (allSteps_cons rfl hmem (allSteps_cons rfl hmem (allSteps_cons rfl hmem
      (allSteps_cons rfl hmem (allSteps_nil _)))))
    (by exact hmem) ht
  -- task `0` has handed it over
  refine howner.resolve_left ?_
  rintro rfl
  exact ht

end MutexState

end XorSyscalls.Linux
