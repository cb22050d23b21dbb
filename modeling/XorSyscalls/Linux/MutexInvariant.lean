import XorSyscalls.Linux.Mutex
import XorSyscalls.Foundation.Resource
import Mathlib.Data.List.Nodup

/-!
# Mutual exclusion and handoff

Three kinds of program points matter: those at which a task holds `wait_lock`, those at which it
owns the mutex, and those at which it is in the wait list.
`Inv` ties the shared data to these kinds.
-/

namespace XorSyscalls.Linux

open TransitionSystem

/-! ## Kinds of program points -/

/-- The attempts made by a task that is in the wait list. -/
def Place.Waits : Place → Prop
  | .early | .locked => False
  | .spin waiter => waiter = true
  | .loop | .awake _ => True

/-- The attempts made under `wait_lock`. -/
def Place.InWait : Place → Prop
  | .early | .spin _ | .awake _ => False
  | .locked | .loop => True

namespace Pc

variable {T : Type}

/-- The task holds `wait_lock`. -/
def InWait : Pc T → Prop
  | .trylock place _ => place.InWait
  | .setState first => first = none
  | .enqueue | .setWaiters | .check | .unlockWait | .dequeue _ | .clearFlags _ | .leave _
  | .wakeNext _ | .handoff _ _ _ | .wakeUnlock _ => True
  | .idle | .fast | .spin _ | .lockWait _ | .schedule | .isFirst | .relock | .holding
  | .interrupted | .unlockFast | .unlockSlow _ | .wakeLock _ | .wake _ | .wakeUp _ => False

/-- The task owns the mutex. -/
def Owns : Pc T → Prop
  | .dequeue acquired | .clearFlags acquired | .leave acquired => acquired = true
  | .wakeLock asked | .wakeNext asked => asked = true
  | .relock | .holding | .unlockFast | .unlockSlow _ | .handoff _ _ _ => True
  | .idle | .fast | .trylock _ _ | .spin _ | .lockWait _ | .enqueue | .setWaiters | .setState _
  | .check | .unlockWait | .schedule | .isFirst | .interrupted | .wakeUnlock _ | .wake _
  | .wakeUp _ => False

/-- The task is in the wait list. -/
def Waits : Pc T → Prop
  | .trylock place _ => place.Waits
  | .spin waiter | .lockWait waiter => waiter = true
  | .setWaiters | .setState _ | .check | .unlockWait | .schedule | .isFirst | .relock
  | .dequeue _ => True
  | .idle | .fast | .enqueue | .clearFlags _ | .leave _ | .holding | .interrupted | .unlockFast
  | .unlockSlow _ | .wakeLock _ | .wakeNext _ | .handoff _ _ _ | .wakeUnlock _ | .wake _
  | .wakeUp _ => False

/-- The task is in the wait list and will make another attempt before it sleeps or gives up. -/
def Awake : Pc T → Prop
  | .trylock place _ => place.Waits
  | .spin waiter | .lockWait waiter => waiter = true
  | .setWaiters | .setState _ | .isFirst => True
  | .idle | .fast | .enqueue | .check | .unlockWait | .schedule | .relock | .dequeue _
  | .clearFlags _ | .leave _ | .holding | .interrupted | .unlockFast
  | .unlockSlow _ | .wakeLock _ | .wakeNext _ | .handoff _ _ _ | .wakeUnlock _ | .wake _
  | .wakeUp _ => False

/-- The task will pick up the mutex if it is handed over. -/
def CanPick (pc : Pc T) : Prop :=
  pc = .schedule ∨ pc.Awake ∧ pc ≠ .setWaiters ∧ pc ≠ .setState none

/-- A waiter that holds neither `wait_lock` nor the mutex can pick the mutex up. -/
lemma canPick_of_waits {pc : Pc T} (hwaits : pc.Waits) (hwait : ¬pc.InWait) (howns : ¬pc.Owns) :
    pc.CanPick := by
  unfold CanPick
  cases pc with
  | setState first => cases first <;> simp_all [Waits, InWait, Awake]
  | _ => simp_all [Waits, InWait, Owns, Awake]

/-- A task that can pick the mutex up is a waiter. -/
lemma CanPick.waits {pc : Pc T} (h : pc.CanPick) : pc.Waits := by
  rcases h with rfl | ⟨hawake, -, -⟩
  · trivial
  · revert hawake
    cases pc <;> simp [Awake, Waits]

end Pc

/-! ## What one step does to the kinds -/

section Kinds

variable {T : Type} {pc pc' : Pc T}

/-- The program points after a successful attempt. -/
lemma Place.success_kinds (place : Place) (seen : Option (Owner T)) :
    ((place.success : Pc T).InWait ↔ (Pc.trylock place seen).InWait) ∧
      (place.success : Pc T).Owns ∧
      ((place.success : Pc T).Waits ↔ (Pc.trylock place seen).Waits) := by
  rcases place with _ | (_ | _) | _ | _ | _ <;>
    simp [Place.success, Pc.InWait, Pc.Owns, Pc.Waits, Place.InWait, Place.Waits]

/-- The program points after a failed attempt. -/
lemma Place.failure_kinds (place : Place) (seen : Option (Owner T)) :
    ((place.failure : Pc T).InWait ↔ (Pc.trylock place seen).InWait) ∧
      ¬(place.failure : Pc T).Owns ∧
      ((place.failure : Pc T).Waits ↔ (Pc.trylock place seen).Waits) := by
  rcases place with _ | _ | _ | _ | (_ | _) <;>
    simp [Place.failure, Pc.InWait, Pc.Owns, Pc.Waits, Place.InWait, Place.Waits]

namespace MutexState

/-- Taking `wait_lock`. -/
lemma Locks.kinds (h : Locks pc pc') :
    pc'.InWait ∧ (pc'.Owns ↔ pc.Owns) ∧ (pc'.Waits ↔ pc.Waits) := by
  cases h <;> simp [Pc.InWait, Pc.Owns, Pc.Waits, Place.InWait, Place.Waits]

/-- Giving `wait_lock` back. -/
lemma Unlocks.kinds (h : Unlocks pc pc') :
    (pc.InWait ∧ ¬pc'.InWait) ∧ (pc'.Owns ↔ pc.Owns) ∧ (pc'.Waits ↔ pc.Waits) := by
  cases h <;> simp [Pc.InWait, Pc.Owns, Pc.Waits]

variable [DecidableEq T] {M M' : MutexState T} {t u : T} {signal : Bool}

/-- A step that changes no shared data keeps the kinds. -/
lemma Jump.kinds (h : Jump M t signal pc pc') :
    (pc'.InWait ↔ pc.InWait) ∧ (pc'.Owns ↔ pc.Owns) ∧ (pc'.Waits ↔ pc.Waits) := by
  cases h with
  | @fail place seen =>
    obtain ⟨hwait, howns, hwaits⟩ := place.failure_kinds seen
    exact ⟨hwait, iff_of_false howns not_false, hwaits⟩
  | _ => simp [Pc.InWait, Pc.Owns, Pc.Waits, Place.InWait, Place.Waits]

@[simp] lemma pc_goto_self (M : MutexState T) (t : T) (pc : Pc T) : (M.goto t pc).pc t = pc :=
  Function.update_self ..

lemma pc_goto_of_ne (M : MutexState T) {t u : T} (pc : Pc T) (hu : u ≠ t) :
    (M.goto t pc).pc u = M.pc u := Function.update_of_ne hu ..

/-- A step of one task does not move the others. -/
lemma Move.pc_of_ne (h : Move M t signal M') (hu : u ≠ t) : M'.pc u = M.pc u := by
  cases h with
  | giveUp hpc needResched => cases needResched <;> exact Function.update_of_ne hu ..
  | _ => exact Function.update_of_ne hu ..

/-- What a step does to `wait_lock`. -/
lemma Move.waitLock_step (h : Move M t signal M') :
    Resource.Step t M.waitLock M'.waitLock (fun u => (M.pc u).InWait)
      fun u => (M'.pc u).InWait := by
  cases h with
  | jump hjump => exact .keep rfl (by simp [hjump.kinds.1])
  | @take place seen hpc =>
    exact .keep rfl (by rw [pc_goto_self, hpc]; exact (place.success_kinds seen).1)
  | lockWait hpc hfree => exact .enter hfree rfl (by simp [hpc.kinds.1])
  | unlockWait hpc => exact .leave hpc.kinds.1.1 rfl (by simp [hpc.kinds.1.2])
  | @giveUp waiter hpc needResched =>
    refine .keep ?_ (by simp [hpc, Pc.InWait])
    cases needResched <;> rfl
  | enqueue hpc => exact .keep rfl (by rw [pc_goto_self, hpc]; split <;> simp [Pc.InWait])
  | @setState first hpc =>
    refine .keep rfl ?_
    rw [pc_goto_self, hpc]
    cases first <;> simp [Pc.InWait, Place.InWait]
  | dequeue hpc => exact .keep rfl (by rw [pc_goto_self, hpc]; split <;> simp [Pc.InWait])
  | release hpc => exact .keep rfl (by rw [pc_goto_self, hpc]; split <;> simp [Pc.InWait])
  | wakeNext hpc =>
    refine .keep rfl ?_
    rw [MutexState.wakeNext, pc_goto_self, hpc]
    split <;> simp [Pc.InWait]
  | fastLock hpc | ask hpc | setWaiters hpc | clearFlags hpc | unlockFast hpc | handoff hpc
  | wake hpc | wakeUp hpc => exact .keep rfl (by simp [hpc, Pc.InWait, Place.InWait])

end MutexState

end Kinds

namespace MutexState

variable {T : Type} [DecidableEq T]

/-- The task that has the mutex.  A task that was handed the mutex has it only when it picks it
up. -/
def holder (M : MutexState T) : Option T := if M.owner.pickup then none else M.owner.task

/-- The invariant of the mutex: who holds what, who waits, and what the flags of `owner` mean. -/
structure Inv (M : MutexState T) : Prop where
  nodup : M.waitList.Nodup
  waitLock_iff : ∀ t, M.waitLock = some t ↔ (M.pc t).InWait
  holder_iff : ∀ t, M.holder = some t ↔ (M.pc t).Owns
  mem_iff : ∀ t, t ∈ M.waitList ↔ (M.pc t).Waits
  pickup : M.owner.pickup = true → ∃ t, M.owner.task = some t ∧ (M.pc t).CanPick
  free : M.owner.task = none → M.owner.handoff = false
  pickup_handoff : M.owner.pickup = true → M.owner.handoff = false
  waiters : M.waitList ≠ [] → M.owner.waiters = true ∨ ∃ t, M.pc t = .setWaiters
  flags : M.waitList = [] →
    M.owner = .bare M.owner.task ∨ ∃ t acquired, M.pc t = .clearFlags acquired
  clear : ∀ t acquired, M.pc t = .clearFlags acquired → M.waitList = []
  next : ∀ t next woken seen, M.pc t = .handoff next woken seen → next = M.waitList.head?

namespace Inv

variable {M M' : MutexState T} {t u : T} {signal : Bool}

omit [DecidableEq T] in
/-- With an empty wait list nobody is waited for to pick the mutex up. -/
lemma pickup_of_nil (h : M.Inv) (hnil : M.waitList = []) : M.owner.pickup = false := by
  refine Bool.eq_false_iff.mpr fun hpickup => ?_
  obtain ⟨t, -, hpick⟩ := h.pickup hpickup
  have hmem := (h.mem_iff t).mpr hpick.waits
  simp [hnil] at hmem

/-- What a step does to the holder of the mutex. -/
lemma holder_step (h : M.Inv) (hmove : Move M t signal M') :
    Resource.Step t M.holder M'.holder (fun u => (M.pc u).Owns) fun u => (M'.pc u).Owns := by
  cases hmove with
  | jump hjump => exact .keep rfl (by simp [hjump.kinds.2.1])
  | lockWait hpc hfree => exact .keep rfl (by simp [hpc.kinds.2.1])
  | unlockWait hpc => exact .keep rfl (by simp [hpc.kinds.2.1])
  | fastLock hpc howner =>
    exact .enter (by simp [holder, howner, Owner.bare]) rfl (by simp [Pc.Owns])
  | @take place seen hpc howner =>
    refine .enter ?_ rfl (by simp [(place.success_kinds seen).2.1])
    rcases howner with hnone | ⟨-, hpickup⟩
    · simp [holder, hnone]
    · simp [holder, hpickup]
  | clearFlags hpc =>
    refine .keep ?_ (by simp [hpc, Pc.Owns])
    simp [holder, goto, Owner.bare, h.pickup_of_nil (h.clear _ _ hpc)]
  | unlockFast hpc => exact .leave (by simp [hpc, Pc.Owns]) rfl (by simp [Pc.Owns])
  | release hpc =>
    refine .leave (by simp [hpc, Pc.Owns]) (ite_self none) ?_
    rw [pc_goto_self]
    split <;> simp [Pc.Owns]
  | @handoff next woken seen hpc =>
    refine .leave (by simp [hpc, Pc.Owns]) ?_ (by simp [Pc.Owns])
    cases next <;> rfl
  | @giveUp waiter hpc needResched =>
    refine .keep ?_ (by simp [hpc, Pc.Owns])
    cases needResched <;> rfl
  | @setState first hpc => exact .keep rfl (by simp [hpc, Pc.Owns])
  | enqueue hpc => exact .keep rfl (by rw [pc_goto_self, hpc]; split <;> simp [Pc.Owns])
  | dequeue hpc => exact .keep rfl (by rw [pc_goto_self, hpc]; split <;> simp [Pc.Owns])
  | @wakeNext asked hpc =>
    refine .keep rfl ?_
    rw [MutexState.wakeNext, pc_goto_self, hpc]
    cases asked <;> simp [Pc.Owns]
  | ask hpc | setWaiters hpc | wake hpc | wakeUp hpc => exact .keep rfl (by simp [hpc, Pc.Owns])

end Inv

/-- What a step does to the wait list. -/
lemma Move.waitList_cases {M M' : MutexState T} {t : T} {signal : Bool}
    (h : Move M t signal M') :
    (M'.waitList = M.waitList ∧ ((M'.pc t).Waits ↔ (M.pc t).Waits)) ∨
    (M'.waitList = M.waitList ++ [t] ∧ M.pc t = .enqueue ∧
      M'.pc t = if M.waitList = [] then .setWaiters else .setState none) ∨
    (∃ acquired, M'.waitList = M.waitList.erase t ∧ M.pc t = .dequeue acquired ∧
      M'.pc t = if M.waitList.erase t = [] then .clearFlags acquired else .leave acquired) := by
  cases h with
  | enqueue hpc => exact .inr (.inl ⟨rfl, hpc, pc_goto_self ..⟩)
  | dequeue hpc => exact .inr (.inr ⟨_, rfl, hpc, pc_goto_self ..⟩)
  | jump hjump => exact .inl ⟨rfl, by simp [hjump.kinds.2.2]⟩
  | lockWait hpc hfree => exact .inl ⟨rfl, by simp [hpc.kinds.2.2]⟩
  | unlockWait hpc => exact .inl ⟨rfl, by simp [hpc.kinds.2.2]⟩
  | @take place seen hpc =>
    exact .inl ⟨rfl, by rw [pc_goto_self, hpc]; exact (place.success_kinds seen).2.2⟩
  | @giveUp waiter hpc needResched =>
    refine .inl ⟨?_, by simp [hpc, Pc.Waits]⟩
    cases needResched <;> rfl
  | @setState first hpc =>
    refine .inl ⟨rfl, ?_⟩
    rw [pc_goto_self, hpc]
    cases first <;> simp [Pc.Waits, Place.Waits]
  | release hpc => exact .inl ⟨rfl, by rw [pc_goto_self, hpc]; split <;> simp [Pc.Waits]⟩
  | wakeNext hpc =>
    exact .inl ⟨rfl, by rw [MutexState.wakeNext, pc_goto_self, hpc]; split <;> simp [Pc.Waits]⟩
  | fastLock hpc | ask hpc | setWaiters hpc | clearFlags hpc | unlockFast hpc | handoff hpc
  | wake hpc | wakeUp hpc => exact .inl ⟨rfl, by simp [hpc, Pc.Waits, Place.Waits]⟩

namespace Inv

variable {M M' : MutexState T} {t u : T} {signal : Bool}

/-- The wait list does not change while another task holds `wait_lock`. -/
lemma waitList_eq (h : M.Inv) (hmove : Move M t signal M') (hne : u ≠ t)
    (hu : (M.pc u).InWait) : M'.waitList = M.waitList := by
  have hnot : ¬(M.pc t).InWait := fun ht => hne (Resource.eq_of_inside h.waitLock_iff hu ht)
  rcases hmove.waitList_cases with ⟨heq, -⟩ | ⟨-, hpc, -⟩ | ⟨acquired, -, hpc, -⟩
  · exact heq
  · exact absurd (by simp [hpc, Pc.InWait]) hnot
  · exact absurd (by simp [hpc, Pc.InWait]) hnot

/-- The waiters are the tasks in the wait list. -/
lemma mem_iff_step (h : M.Inv) (hmove : Move M t signal M') (u : T) :
    u ∈ M'.waitList ↔ (M'.pc u).Waits := by
  rcases hmove.waitList_cases with ⟨heq, hwaits⟩ | ⟨heq, -, hpc⟩ | ⟨acquired, heq, -, hpc⟩
  · rcases eq_or_ne u t with rfl | hu
    · rw [heq, h.mem_iff, hwaits]
    · rw [heq, h.mem_iff, hmove.pc_of_ne hu]
  · rcases eq_or_ne u t with rfl | hu
    · have hwaits : (M'.pc u).Waits := by
        rw [hpc]
        split <;> simp [Pc.Waits]
      simp [heq, hwaits]
    · rw [heq, hmove.pc_of_ne hu, ← h.mem_iff]
      simp [hu]
  · rcases eq_or_ne u t with rfl | hu
    · have hwaits : ¬(M'.pc u).Waits := by
        rw [hpc]
        split <;> simp [Pc.Waits]
      simp [heq, h.nodup.mem_erase_iff, hwaits]
    · rw [heq, hmove.pc_of_ne hu, ← h.mem_iff, h.nodup.mem_erase_iff]
      simp [hu]

lemma nodup_step (h : M.Inv) (hmove : Move M t signal M') : M'.waitList.Nodup := by
  rcases hmove.waitList_cases with ⟨heq, -⟩ | ⟨heq, hpc, -⟩ | ⟨-, heq, -⟩
  · exact heq ▸ h.nodup
  · rw [heq, List.nodup_append_comm]
    refine List.nodup_cons.mpr ⟨?_, h.nodup⟩
    simp [h.mem_iff, hpc, Pc.Waits]
  · exact heq ▸ h.nodup.erase t

/-- How a handoff comes about: it was there before, or it is the step of the old owner. -/
lemma pickup_cases (h : M.Inv) (hmove : Move M t signal M') (hpickup : M'.owner.pickup = true) :
    M.owner.pickup = true ∧ M'.owner.task = M.owner.task ∨
      ∃ next woken seen, M.pc t = .handoff next woken seen ∧ M'.owner.task = next ∧
        next.isSome := by
  cases hmove with
  | fastLock | take | clearFlags | unlockFast => cases hpickup
  | ask hpc howner hnot =>
    change M.owner.pickup = true at hpickup
    rw [hnot] at hpickup
    cases hpickup
  | release hpc =>
    -- the owner is not waited for to pick the mutex up
    have hholder := (h.holder_iff t).mpr (by simp [hpc, Pc.Owns])
    rw [holder, if_pos (by exact hpickup)] at hholder
    cases hholder
  | handoff hpc => exact .inr ⟨_, _, _, hpc, rfl, hpickup⟩
  | @giveUp waiter hpc needResched => cases needResched <;> exact .inl ⟨hpickup, rfl⟩
  | _ => exact .inl ⟨hpickup, rfl⟩

omit [DecidableEq T] in
/-- The first waiter can pick the mutex up while another task holds `wait_lock` and no other waiter
owns the mutex. -/
lemma canPick_of_head (h : M.Inv) (hwait : (M.pc t).InWait) (hnot : ¬(M.pc t).Waits)
    (howner : ∀ v, (M.pc v).Owns → v = t) (hhead : M.waitList.head? = some u) :
    u ≠ t ∧ (M.pc u).CanPick := by
  have hwaits := (h.mem_iff u).mp (List.mem_of_mem_head? hhead)
  have hne : u ≠ t := by
    rintro rfl
    exact hnot hwaits
  refine ⟨hne, Pc.canPick_of_waits hwaits (fun hin => hne ?_) fun howns => hne (howner u howns)⟩
  exact Resource.eq_of_inside h.waitLock_iff hin hwait

end Inv

/-- The task to which the mutex was handed over does not give up. -/
lemma Jump.canPick {M : MutexState T} {t : T} {signal : Bool} {pc pc' : Pc T}
    (hjump : Jump M t signal pc pc') (hcan : pc.CanPick) (htask : M.owner.task = some t)
    (hpickup : M.owner.pickup = true) : pc'.CanPick := by
  cases hjump with
  | retry => simpa [Pc.CanPick, Pc.Awake] using hcan
  | fail hnew => simp [trylockNew, htask, hpickup] at hnew
  | spin => simpa [Pc.CanPick, Pc.Awake, Place.Waits] using hcan
  | schedule => simp [Pc.CanPick, Pc.Awake]
  | isFirst => simp [Pc.CanPick, Pc.Awake]
  | _ => simp [Pc.CanPick, Pc.Awake] at hcan

omit [DecidableEq T] in
/-- Nor does it when it takes `wait_lock`. -/
lemma Locks.canPick {pc pc' : Pc T} (h : Locks pc pc') (hcan : pc.CanPick) : pc'.CanPick := by
  cases h <;> simp_all [Pc.CanPick, Pc.Awake, Place.Waits]

omit [DecidableEq T] in
/-- The mutex is not handed over to a task that holds `wait_lock` and is about to release it. -/
lemma Unlocks.not_canPick {pc pc' : Pc T} (h : Unlocks pc pc') : ¬pc.CanPick := by
  cases h <;> simp [Pc.CanPick, Pc.Awake]

/-- The task to which the mutex was handed over picks it up, or will still do so. -/
lemma Move.canPick {M M' : MutexState T} {t : T} {signal : Bool} (h : Move M t signal M')
    (hcan : (M.pc t).CanPick) (htask : M.owner.task = some t) (hpickup : M.owner.pickup = true) :
    (M'.pc t).CanPick ∨ M'.owner.pickup = false := by
  cases h with
  | jump hjump => exact .inl (by simpa using hjump.canPick hcan htask hpickup)
  | lockWait hpc hfree => exact .inl (by simpa using hpc.canPick hcan)
  | unlockWait hpc => exact absurd hcan hpc.not_canPick
  | take => exact .inr rfl
  | ask => exact .inl (by simp [Pc.CanPick, Pc.Awake])
  | giveUp hpc =>
    rw [hpc] at hcan
    exact .inl (by simpa [Pc.CanPick, Pc.Awake] using hcan)
  | @setState first hpc =>
    rw [hpc] at hcan
    cases first with
    | none => simp [Pc.CanPick, Pc.Awake] at hcan
    | some first => exact .inl (by simp [Pc.CanPick, Pc.Awake, Place.Waits])
  | fastLock hpc | enqueue hpc | setWaiters hpc | dequeue hpc | clearFlags hpc | unlockFast hpc
  | release hpc | wakeNext hpc | handoff hpc | wake hpc | wakeUp hpc =>
    simp [hpc, Pc.CanPick, Pc.Awake] at hcan

namespace Inv

variable {M M' : MutexState T} {t u : T} {signal : Bool}

/-- The mutex is handed over to a task that will pick it up. -/
lemma pickup_step (h : M.Inv) (hmove : Move M t signal M') (hpickup : M'.owner.pickup = true) :
    ∃ u, M'.owner.task = some u ∧ (M'.pc u).CanPick := by
  rcases h.pickup_cases hmove hpickup with ⟨hold, htask⟩ | ⟨next, woken, seen, hpc, htask, hsome⟩
  · obtain ⟨u, hu, hcan⟩ := h.pickup hold
    refine ⟨u, htask.trans hu, ?_⟩
    rcases eq_or_ne u t with rfl | hne
    · exact (hmove.canPick hcan hu hold).resolve_right (by simp [hpickup])
    · rwa [hmove.pc_of_ne hne]
  · obtain ⟨u, rfl⟩ := Option.isSome_iff_exists.mp hsome
    obtain ⟨hne, hcan⟩ := h.canPick_of_head (t := t) (u := u) (by simp [hpc, Pc.InWait])
      (by simp [hpc, Pc.Waits]) (fun v hv => Resource.eq_of_inside h.holder_iff hv
        (by simp [hpc, Pc.Owns])) (h.next _ _ _ _ hpc).symm
    exact ⟨u, htask, by rwa [hmove.pc_of_ne hne]⟩

/-- A free mutex is not marked for a handoff. -/
lemma free_step (h : M.Inv) (hmove : Move M t signal M') (hfree : M'.owner.task = none) :
    M'.owner.handoff = false := by
  cases hmove with
  | fastLock | clearFlags | unlockFast | handoff => rfl
  | take => cases hfree
  | ask hpc howner =>
    change M.owner.task = none at hfree
    rw [howner] at hfree
    cases hfree
  | release hpc hhandoff => exact hhandoff
  | @giveUp waiter hpc needResched => cases needResched <;> exact h.free hfree
  | _ => exact h.free hfree

/-- Neither is one that was just handed over. -/
lemma pickup_handoff_step (h : M.Inv) (hmove : Move M t signal M')
    (hpickup : M'.owner.pickup = true) : M'.owner.handoff = false := by
  cases hmove with
  | fastLock | clearFlags | unlockFast | handoff => rfl
  | take => cases hpickup
  | ask hpc howner hnot =>
    change M.owner.pickup = true at hpickup
    rw [hnot] at hpickup
    cases hpickup
  | release hpc hhandoff => exact hhandoff
  | @giveUp waiter hpc needResched => cases needResched <;> exact h.pickup_handoff hpickup
  | _ => exact h.pickup_handoff hpickup

end Inv

/-- What a step does to the flag for waiters. -/
lemma Move.waiters_cases {M M' : MutexState T} {t : T} {signal : Bool}
    (h : Move M t signal M') :
    M.pc t ≠ .setWaiters ∧ M'.owner.waiters = M.owner.waiters ∨
      M.pc t = .setWaiters ∧ M'.owner.waiters = true ∨
      ∃ acquired, M.pc t = .clearFlags acquired := by
  cases h with
  | setWaiters hpc => exact .inr (.inl ⟨hpc, rfl⟩)
  | clearFlags hpc => exact .inr (.inr ⟨_, hpc⟩)
  | jump hjump => exact .inl ⟨fun hpc => (by rw [hpc] at hjump; cases hjump), rfl⟩
  | lockWait hlocks => exact .inl ⟨fun hpc => (by rw [hpc] at hlocks; cases hlocks), rfl⟩
  | unlockWait hunlocks => exact .inl ⟨fun hpc => (by rw [hpc] at hunlocks; cases hunlocks), rfl⟩
  | @giveUp waiter hpc needResched => exact .inl ⟨by simp [hpc], by cases needResched <;> rfl⟩
  | fastLock hpc howner | unlockFast hpc howner =>
    exact .inl ⟨by simp [hpc], by simp [goto, howner, Owner.bare]⟩
  | _ => exact .inl ⟨by simp_all, rfl⟩

/-- A task that is about to clear the flags does so. -/
lemma Move.bare_of_clearFlags {M M' : MutexState T} {t : T} {signal acquired : Bool}
    (h : Move M t signal M') (hpc : M.pc t = .clearFlags acquired) :
    M'.owner = .bare M'.owner.task := by
  cases h with
  | clearFlags => rfl
  | jump hjump => rw [hpc] at hjump; cases hjump
  | lockWait hlocks => rw [hpc] at hlocks; cases hlocks
  | unlockWait hunlocks => rw [hpc] at hunlocks; cases hunlocks
  | _ => simp_all

/-- A task gets there when it was the last one in the wait list, and to the handoff when it has
looked up the first waiter. -/
lemma Move.arrival {M M' : MutexState T} {t : T} {signal : Bool} (h : Move M t signal M') :
    match M'.pc t with
    | .clearFlags _ => M'.waitList = []
    | .handoff next woken _ => M'.waitList = M.waitList ∧
        (next = M.waitList.head? ∧ M.pc t = .wakeNext true ∧ M' = M.wakeNext t true ∨
          ∃ seen, M.pc t = .handoff next woken seen)
    | _ => True := by
  cases h with
  | dequeue =>
    rw [pc_goto_self]
    by_cases hnil : M.waitList.erase t = []
    · rw [if_pos hnil]
      exact hnil
    · rw [if_neg hnil]
      trivial
  | jump hjump =>
    rw [pc_goto_self]
    generalize M.pc t = pc at hjump ⊢
    cases hjump with
    | handoffRetry => exact ⟨rfl, .inr ⟨_, rfl⟩⟩
    | @fail place => rcases place with _ | _ | _ | _ | (_ | _) <;> trivial
    | _ => trivial
  | lockWait hlocks =>
    rw [pc_goto_self]
    generalize M.pc t = pc at hlocks ⊢
    cases hlocks <;> trivial
  | unlockWait hunlocks =>
    rw [pc_goto_self]
    generalize M.pc t = pc at hunlocks ⊢
    cases hunlocks <;> trivial
  | @take place =>
    rw [pc_goto_self]
    rcases place with _ | (_ | _) | _ | _ | _ <;> trivial
  | @wakeNext asked hpc =>
    rw [MutexState.wakeNext, pc_goto_self]
    cases asked with
    | false => trivial
    | true => exact ⟨rfl, .inl ⟨rfl, hpc, rfl⟩⟩
  | enqueue =>
    rw [pc_goto_self]
    by_cases hnil : M.waitList = []
    · rw [if_pos hnil]
      trivial
    · rw [if_neg hnil]
      trivial
  | release =>
    rw [pc_goto_self]
    cases M.owner.waiters <;> trivial
  | _ => rw [pc_goto_self]; trivial

namespace Inv

variable {M M' : MutexState T} {t u : T} {signal : Bool}

/-- The flag for waiters is set while there are waiters, or about to be set. -/
lemma waiters_step (h : M.Inv) (hmove : Move M t signal M') (hne : M'.waitList ≠ []) :
    M'.owner.waiters = true ∨ ∃ u, M'.pc u = .setWaiters := by
  by_cases hold : M.waitList = []
  · -- only the first waiter can have been added
    rcases hmove.waitList_cases with ⟨heq, -⟩ | ⟨-, -, hpc⟩ | ⟨-, heq, -⟩
    · exact absurd (heq.trans hold) hne
    · exact .inr ⟨t, by rw [hpc, if_pos hold]⟩
    · simp [heq, hold] at hne
  · rcases hmove.waiters_cases with ⟨hpc, heq⟩ | ⟨-, htrue⟩ | ⟨acquired, hpc⟩
    · rw [heq]
      refine (h.waiters hold).imp_right ?_
      rintro ⟨u, hu⟩
      exact ⟨u, by rw [hmove.pc_of_ne (by rintro rfl; exact hpc hu), hu]⟩
    · exact .inl htrue
    · exact absurd (h.clear _ _ hpc) hold

/-- A word without flags stays so while there are no waiters. -/
lemma bare_step (h : M.Inv) (hmove : Move M t signal M') (hnil : M.waitList = [])
    (hbare : M.owner = .bare M.owner.task) : M'.owner = .bare M'.owner.task := by
  have hflags : M.owner.waiters = false ∧ M.owner.handoff = false := by
    rw [hbare]
    exact ⟨rfl, rfl⟩
  have hnot : ¬(M.pc t).Waits := by simp [← h.mem_iff, hnil]
  cases hmove with
  | fastLock | clearFlags | unlockFast => rfl
  | take => simp [goto, Owner.bare, hflags]
  | ask hpc => exact absurd (by simp [hpc, Pc.Waits, Place.Waits]) hnot
  | setWaiters hpc => exact absurd (by simp [hpc, Pc.Waits]) hnot
  | release => simp [goto, Owner.bare, Owner.flags, hflags, h.pickup_of_nil hnil]
  | handoff hpc => simp [goto, Owner.bare, hflags, h.next _ _ _ _ hpc, hnil]
  | @giveUp waiter hpc needResched => cases needResched <;> exact hbare
  | _ => exact hbare

/-- Without waiters there are no flags, or they are about to be cleared. -/
lemma flags_step (h : M.Inv) (hmove : Move M t signal M') (hnil : M'.waitList = []) :
    M'.owner = .bare M'.owner.task ∨ ∃ u acquired, M'.pc u = .clearFlags acquired := by
  by_cases hold : M.waitList = []
  · rcases h.flags hold with hbare | ⟨u, acquired, hu⟩
    · exact .inl (h.bare_step hmove hold hbare)
    · rcases eq_or_ne u t with rfl | hne
      · exact .inl (hmove.bare_of_clearFlags hu)
      · exact .inr ⟨u, acquired, by rw [hmove.pc_of_ne hne, hu]⟩
  · -- the last waiter has left
    rcases hmove.waitList_cases with ⟨heq, -⟩ | ⟨heq, -⟩ | ⟨acquired, heq, -, hpc⟩
    · exact absurd (heq.symm.trans hnil) hold
    · simp [heq] at hnil
    · exact .inr ⟨t, acquired, by rw [hpc, if_pos (heq.symm.trans hnil)]⟩

/-- The flags are cleared only while there are no waiters. -/
lemma clear_step (h : M.Inv) (hmove : Move M t signal M') {acquired : Bool}
    (hu : M'.pc u = .clearFlags acquired) : M'.waitList = [] := by
  rcases eq_or_ne u t with rfl | hne
  · have harrival := hmove.arrival
    rwa [hu] at harrival
  · rw [hmove.pc_of_ne hne] at hu
    rw [h.waitList_eq hmove hne (by simp [hu, Pc.InWait]), h.clear _ _ hu]

/-- The mutex is handed over to the first waiter. -/
lemma next_step (h : M.Inv) (hmove : Move M t signal M') {next woken : Option T}
    {seen : Option (Owner T)} (hu : M'.pc u = .handoff next woken seen) :
    next = M'.waitList.head? := by
  rcases eq_or_ne u t with rfl | hne
  · have harrival := hmove.arrival
    rw [hu] at harrival
    obtain ⟨heq, ⟨hnext, -, -⟩ | ⟨seen', hpc⟩⟩ := harrival
    · rw [heq, hnext]
    · rw [heq, h.next _ _ _ _ hpc]
  · rw [hmove.pc_of_ne hne] at hu
    rw [h.waitList_eq hmove hne (by simp [hu, Pc.InWait]), h.next _ _ _ _ hu]

/-- Every move keeps the invariant. -/
lemma of_move (h : M.Inv) (hmove : Move M t signal M') : M'.Inv := by
  have hothers : ∀ P : Pc T → Prop, ∀ u, u ≠ t → (P (M'.pc u) ↔ P (M.pc u)) := fun P u hu => by
    rw [hmove.pc_of_ne hu]
  exact
    { nodup := h.nodup_step hmove
      waitLock_iff := hmove.waitLock_step.holder_iff (hothers Pc.InWait) h.waitLock_iff
      holder_iff := (h.holder_step hmove).holder_iff (hothers Pc.Owns) h.holder_iff
      mem_iff := h.mem_iff_step hmove
      pickup := h.pickup_step hmove
      free := h.free_step hmove
      pickup_handoff := h.pickup_handoff_step hmove
      waiters := h.waiters_step hmove
      flags := h.flags_step hmove
      clear := fun _ _ => h.clear_step hmove
      next := fun _ _ _ _ => h.next_step hmove }

/-- Every step is one of the moves. -/
lemma move (h : M.Inv) {choice : Choice} (hstep : M.step t signal choice = some M') :
    Move M t signal M' := by
  refine move_of_step (fun place seen hpc hown => ?_) (fun hnone => ?_) hstep
  · have howns := (h.holder_iff t).mp (by rw [holder, hown.2, hown.1]; rfl)
    simp [hpc, Pc.Owns] at howns
  · refine Bool.eq_false_iff.mpr fun hpickup => ?_
    obtain ⟨u, hu, -⟩ := h.pickup hpickup
    rw [hnone] at hu
    cases hu

end Inv

end MutexState

end XorSyscalls.Linux
