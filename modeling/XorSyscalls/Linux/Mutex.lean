import XorSyscalls.Foundation.TransitionSystem
import Mathlib.Logic.Function.Basic

/-!
# The mutex of the Linux kernel

The workers take their mutex with `mutex_lock_interruptible` and release it with `mutex_unlock`.
This is the code of the two functions in `kernel/locking/mutex.c`, as it is configured in
`include/config/auto.conf`: with optimistic spinning, without the debugging variants.

The word `owner` holds the owning task and three flags.  Everything else happens under the spin
lock `wait_lock`, which protects the list of waiting tasks.  Any number of tasks run the code at the
same time; each atomic access to shared data is a step of its own.

* A compare-and-exchange loop remembers the value it has `seen` and retries with the value found.
* Whether a task goes on spinning depends on its processor and on that of the owner, so it is left
  open (`Choice`).
* A task sleeps in `schedule` unless it was woken since it last set its state or has a signal.
-/

namespace XorSyscalls.Linux

/-! ## The word `owner` -/

/-- The value of `owner`: a task and the flags `MUTEX_FLAG_WAITERS`, `MUTEX_FLAG_HANDOFF` and
`MUTEX_FLAG_PICKUP`. -/
@[ext] structure Owner (T : Type) where
  task : Option T
  waiters : Bool
  handoff : Bool
  pickup : Bool
  deriving DecidableEq

namespace Owner

variable {T : Type}

/-- A task without flags; `0` if there is no task. -/
def bare (o : Option T) : Owner T := ⟨o, false, false, false⟩

/-- `__owner_flags` -/
def flags (o : Owner T) : Owner T := { o with task := none }

end Owner

/-! ## Program points -/

/-- The places where `__mutex_trylock_common` is called. -/
inductive Place
  /-- At the beginning of `__mutex_lock_common`. -/
  | early
  /-- In `mutex_optimistic_spin`, by a waiter or by a task that is not one. -/
  | spin (waiter : Bool)
  /-- When `wait_lock` has been taken for the first time. -/
  | locked
  /-- At the head of the waiting loop. -/
  | loop
  /-- After `schedule`, where the first waiter asks for a handoff. -/
  | awake (first : Bool)
  deriving DecidableEq

/-- Where a task is in the code. -/
inductive Pc (T : Type)
  /-- Outside, without the mutex. -/
  | idle
  /-- At `__mutex_trylock_fast`. -/
  | fast
  /-- In `__mutex_trylock_common`, before it reads `owner` or before it exchanges it. -/
  | trylock (place : Place) (seen : Option (Owner T))
  /-- In `mutex_optimistic_spin`, between two attempts. -/
  | spin (waiter : Bool)
  /-- At `raw_spin_lock(&lock->wait_lock)`, for the first time or in the waiting loop. -/
  | lockWait (waiter : Bool)
  /-- At `list_add_tail` of `__mutex_add_waiter`. -/
  | enqueue
  /-- At `__mutex_set_flag` of `__mutex_add_waiter`. -/
  | setWaiters
  /-- At `set_current_state`, in front of the waiting loop or after `schedule`. -/
  | setState (first : Option Bool)
  /-- At `signal_pending_state`. -/
  | check
  /-- At `raw_spin_unlock(&lock->wait_lock)` in front of `schedule`. -/
  | unlockWait
  /-- In `schedule_preempt_disabled`. -/
  | schedule
  /-- At `__mutex_waiter_is_first`. -/
  | isFirst
  /-- At `raw_spin_lock(&lock->wait_lock)` behind the waiting loop. -/
  | relock
  /-- At `list_del` of `__mutex_remove_waiter`, with the mutex or interrupted. -/
  | dequeue (acquired : Bool)
  /-- At `__mutex_clear_flag` of `__mutex_remove_waiter`. -/
  | clearFlags (acquired : Bool)
  /-- At the last `raw_spin_unlock(&lock->wait_lock)`. -/
  | leave (acquired : Bool)
  /-- `mutex_lock_interruptible` has returned `0`. -/
  | holding
  /-- `mutex_lock_interruptible` has returned `-EINTR`. -/
  | interrupted
  /-- At `__mutex_unlock_fast`. -/
  | unlockFast
  /-- In the loop of `__mutex_unlock_slowpath`. -/
  | unlockSlow (seen : Option (Owner T))
  /-- At `raw_spin_lock(&lock->wait_lock)` of `__mutex_unlock_slowpath`. -/
  | wakeLock (handoff : Bool)
  /-- Before the first waiter is looked up. -/
  | wakeNext (handoff : Bool)
  /-- In `__mutex_handoff`, with the task in the wake queue. -/
  | handoff (next woken : Option T) (seen : Option (Owner T))
  /-- At `raw_spin_unlock(&lock->wait_lock)` of `__mutex_unlock_slowpath`. -/
  | wakeUnlock (woken : Option T)
  /-- At `wake_up_q`, before a task is taken off the wake queue. -/
  | wake (woken : Option T)
  /-- At `wake_up_process`. -/
  | wakeUp (woken : T)
  deriving DecidableEq

/-- Whether an attempt asks for a handoff. -/
def Place.wantsHandoff : Place → Bool
  | .awake first => first
  | _ => false

/-- Where the code goes on after a successful attempt. -/
def Place.success {T : Type} : Place → Pc T
  | .early | .spin false => .holding
  | .spin true | .awake _ => .relock
  | .locked => .leave true
  | .loop => .dequeue true

/-- Where the code goes on after a failed attempt. -/
def Place.failure {T : Type} : Place → Pc T
  | .early => .spin false
  | .spin waiter => .spin waiter
  | .locked => .enqueue
  | .loop => .check
  | .awake true => .spin true
  | .awake false => .lockWait true

/-! ## The code -/

/-- `struct mutex` and the tasks that use it. -/
structure MutexState (T : Type) where
  owner : Owner T
  /-- The holder of the spin lock. -/
  waitLock : Option T
  waitList : List T
  /-- The program points of the tasks. -/
  pc : T → Pc T
  /-- The tasks in the state `TASK_RUNNING`. -/
  running : T → Bool
  /-- The tasks in some wake queue. -/
  queued : T → Bool

/-- What is left open in the code of one task. -/
inductive Choice
  /-- The task goes on; in the spinning loop it makes another attempt. -/
  | go
  /-- The task stops spinning, because it should let others run or for another reason. -/
  | giveUp (needResched : Bool)
  deriving DecidableEq

namespace MutexState

variable {T : Type} [DecidableEq T]

/-- `__mutex_init` -/
def init : MutexState T :=
  ⟨.bare none, none, [], fun _ => .idle, fun _ => true, fun _ => false⟩

/-- Task `t` goes on at `pc`. -/
def goto (M : MutexState T) (t : T) (pc : Pc T) : MutexState T :=
  { M with pc := Function.update M.pc t pc }

/-- The value with which `__mutex_trylock_common` replaces `owner`, unless it breaks. -/
def trylockNew (t : T) (handoff : Bool) (o : Owner T) : Option (Owner T) :=
  match o.task with
  | some task =>
    if o.pickup then if task ≠ t then none else some { o with pickup := false }
    else if handoff then if o.handoff then none else some { o with handoff := true }
    else none
  | none => some { o with task := some t }

/-- One access to `owner` in `__mutex_trylock_common`: it is exchanged if it still has the value
seen, otherwise its value is the next one to try with. -/
def trylock (M : MutexState T) (t : T) (place : Place) (seen : Option (Owner T)) : MutexState T :=
  match trylockNew t place.wantsHandoff M.owner with
  | none => M.goto t place.failure
  | some new =>
    if seen = some M.owner then
      { M with owner := new }.goto t (if new.task = some t then place.success else place.failure)
    else M.goto t (.trylock place (some M.owner))

/-- One access to `owner` in the loop of `__mutex_unlock_slowpath`. -/
def unlockSlow (M : MutexState T) (t : T) (seen : Option (Owner T)) : MutexState T :=
  if M.owner.handoff then M.goto t (.wakeLock true)
  else if seen = some M.owner then
    { M with owner := M.owner.flags }.goto t
      (if M.owner.waiters then .wakeLock false else .idle)
  else M.goto t (.unlockSlow (some M.owner))

/-- The first waiter is looked up and, unless another task is about to wake it, added to the wake
queue of the calling task (`wake_q_add`). -/
def wakeNext (M : MutexState T) (t : T) (handoff : Bool) : MutexState T :=
  let next := M.waitList.head?
  let woken := next.filter fun u => !M.queued u
  { M with queued := fun u => M.queued u || woken = some u }.goto t
    (if handoff then .handoff next woken none else .wakeUnlock woken)

/-- One access to `owner` in `__mutex_handoff`. -/
def handoff (M : MutexState T) (t : T) (next woken : Option T) (seen : Option (Owner T)) :
    MutexState T :=
  if seen = some M.owner then
    { M with owner := ⟨next, M.owner.waiters, false, next.isSome⟩ }.goto t (.wakeUnlock woken)
  else M.goto t (.handoff next woken (some M.owner))

/-- `raw_spin_lock(&lock->wait_lock)` -/
def lockWait (M : MutexState T) (t : T) (pc : Pc T) : Option (MutexState T) :=
  if M.waitLock = none then some ({ M with waitLock := some t }.goto t pc) else none

/-- `raw_spin_unlock(&lock->wait_lock)` -/
def unlockWait (M : MutexState T) (t : T) (pc : Pc T) : MutexState T :=
  { M with waitLock := none }.goto t pc

/-- Set whether a task is in the state `TASK_RUNNING`. -/
def setRunning (M : MutexState T) (t : T) (b : Bool) : MutexState T :=
  { M with running := Function.update M.running t b }

/-- One step of task `t`, which has a signal pending or not. -/
def step (M : MutexState T) (t : T) (signal : Bool) : Choice → Option (MutexState T)
  | .giveUp needResched =>
    match M.pc t with
    | .spin waiter =>
      some ((if needResched then M.setRunning t true else M).goto t (.lockWait waiter))
    | _ => none
  | .go =>
    match M.pc t with
    -- `mutex_lock_interruptible` is called
    | .idle => some (M.goto t .fast)
    | .fast =>
      if M.owner = .bare none then some ({ M with owner := .bare (some t) }.goto t .holding)
      else some (M.goto t (.trylock .early none))
    | .trylock place seen => some (M.trylock t place seen)
    | .spin waiter => some (M.goto t (.trylock (.spin waiter) none))
    | .lockWait waiter => M.lockWait t (.trylock (if waiter then .loop else .locked) none)
    | .enqueue =>
      some ({ M with waitList := M.waitList ++ [t] }.goto t
        (if M.waitList = [] then .setWaiters else .setState none))
    | .setWaiters => some ({ M with owner.waiters := true }.goto t (.setState none))
    | .setState first =>
      some ((M.setRunning t false).goto t
        (match first with
          | none => .trylock .loop none
          | some first => .trylock (.awake first) none))
    | .check => some (M.goto t (if signal then .dequeue false else .unlockWait))
    | .unlockWait => some (M.unlockWait t .schedule)
    | .schedule => if M.running t || signal then some (M.goto t .isFirst) else none
    | .isFirst => some (M.goto t (.setState (some (M.waitList.head? = some t))))
    | .relock => M.lockWait t (.dequeue true)
    | .dequeue acquired =>
      some (({ M with waitList := M.waitList.erase t }.setRunning t true).goto t
        (if M.waitList.erase t = [] then .clearFlags acquired else .leave acquired))
    | .clearFlags acquired => some ({ M with owner := .bare M.owner.task }.goto t (.leave acquired))
    | .leave acquired => some (M.unlockWait t (if acquired then .holding else .interrupted))
    -- the caller goes on after `-EINTR`
    | .interrupted => some (M.goto t .idle)
    -- `mutex_unlock` is called
    | .holding => some (M.goto t .unlockFast)
    | .unlockFast =>
      if M.owner = .bare (some t) then some ({ M with owner := .bare none }.goto t .idle)
      else some (M.goto t (.unlockSlow none))
    | .unlockSlow seen => some (M.unlockSlow t seen)
    | .wakeLock handoff => M.lockWait t (.wakeNext handoff)
    | .wakeNext handoff => some (M.wakeNext t handoff)
    | .handoff next woken seen => some (M.handoff t next woken seen)
    | .wakeUnlock woken => some (M.unlockWait t (.wake woken))
    | .wake none => some (M.goto t .idle)
    | .wake (some woken) =>
      some ({ M with queued := Function.update M.queued woken false }.goto t (.wakeUp woken))
    | .wakeUp woken => some ((M.setRunning woken true).goto t .idle)

/-- The condition of a `MUTEX_WARN_ON` holds at the next access of task `t` to `owner`. -/
def Warns (M : MutexState T) (t : T) : Prop :=
  match M.pc t with
  | .trylock _ _ => M.owner.task = none ∧ (M.owner.handoff = true ∨ M.owner.pickup = true)
  | .unlockSlow _ | .handoff _ _ _ => M.owner.task ≠ some t ∨ M.owner.pickup = true
  | _ => False

/-! ## What one step can do -/

/-- The steps of task `t` that do not change shared data. -/
inductive Jump (M : MutexState T) (t : T) (signal : Bool) : Pc T → Pc T → Prop
  /-- `mutex_lock_interruptible` is called. -/
  | call : Jump M t signal .idle .fast
  | slow (howner : M.owner ≠ .bare none) : Jump M t signal .fast (.trylock .early none)
  /-- The word has changed since it was read, or has just been read. -/
  | retry {place seen new} (hnew : trylockNew t place.wantsHandoff M.owner = some new) :
    Jump M t signal (.trylock place seen) (.trylock place (some M.owner))
  /-- An attempt fails. -/
  | fail {place seen} (hnew : trylockNew t place.wantsHandoff M.owner = none) :
    Jump M t signal (.trylock place seen) place.failure
  | spin {waiter} : Jump M t signal (.spin waiter) (.trylock (.spin waiter) none)
  | interrupt (hsignal : signal = true) : Jump M t signal .check (.dequeue false)
  | wait (hsignal : signal = false) : Jump M t signal .check .unlockWait
  | schedule (hawake : M.running t = true ∨ signal = true) : Jump M t signal .schedule .isFirst
  | isFirst : Jump M t signal .isFirst (.setState (some (M.waitList.head? = some t)))
  /-- The caller goes on after `-EINTR`. -/
  | quit : Jump M t signal .interrupted .idle
  /-- `mutex_unlock` is called. -/
  | unlock : Jump M t signal .holding .unlockFast
  | unlockSlow (howner : M.owner ≠ .bare (some t)) : Jump M t signal .unlockFast (.unlockSlow none)
  | askedFor {seen} (hhandoff : M.owner.handoff = true) :
    Jump M t signal (.unlockSlow seen) (.wakeLock true)
  | unlockRetry {seen} : Jump M t signal (.unlockSlow seen) (.unlockSlow (some M.owner))
  | handoffRetry {next woken seen} :
    Jump M t signal (.handoff next woken seen) (.handoff next woken (some M.owner))
  | nobody : Jump M t signal (.wake none) .idle

/-- Where a task goes on after `raw_spin_lock(&lock->wait_lock)`. -/
inductive Locks : Pc T → Pc T → Prop
  | first : Locks (.lockWait false) (.trylock .locked none)
  | again : Locks (.lockWait true) (.trylock .loop none)
  | relock : Locks .relock (.dequeue true)
  | wakeLock {handoff} : Locks (.wakeLock handoff) (.wakeNext handoff)

/-- Where a task goes on after `raw_spin_unlock(&lock->wait_lock)`. -/
inductive Unlocks : Pc T → Pc T → Prop
  | sleep : Unlocks .unlockWait .schedule
  | acquired : Unlocks (.leave true) .holding
  | interrupted : Unlocks (.leave false) .interrupted
  | wake {woken} : Unlocks (.wakeUnlock woken) (.wake woken)

/-- The steps of task `t`. -/
inductive Move (M : MutexState T) (t : T) (signal : Bool) : MutexState T → Prop
  | jump {pc} (hjump : Jump M t signal (M.pc t) pc) : Move M t signal (M.goto t pc)
  /-- The fast path finds the mutex free and without waiters. -/
  | fastLock (hpc : M.pc t = .fast) (howner : M.owner = .bare none) :
    Move M t signal ({ M with owner := .bare (some t) }.goto t .holding)
  /-- An attempt succeeds: the mutex is free, or was handed over to the task. -/
  | take {place seen} (hpc : M.pc t = .trylock place seen)
      (howner : M.owner.task = none ∨ M.owner.task = some t ∧ M.owner.pickup = true) :
    Move M t signal
      ({ M with owner := ⟨some t, M.owner.waiters, M.owner.handoff, false⟩ }.goto t place.success)
  /-- The first waiter asks the owner for a handoff. -/
  | ask {seen u} (hpc : M.pc t = .trylock (.awake true) seen) (howner : M.owner.task = some u)
      (hpickup : M.owner.pickup = false) :
    Move M t signal ({ M with owner := { M.owner with handoff := true } }.goto t (.spin true))
  | giveUp {waiter} (hpc : M.pc t = .spin waiter) (needResched : Bool) :
    Move M t signal ((if needResched then M.setRunning t true else M).goto t (.lockWait waiter))
  | lockWait {pc} (hpc : Locks (M.pc t) pc) (hfree : M.waitLock = none) :
    Move M t signal ({ M with waitLock := some t }.goto t pc)
  | unlockWait {pc} (hpc : Unlocks (M.pc t) pc) :
    Move M t signal ({ M with waitLock := none }.goto t pc)
  | enqueue (hpc : M.pc t = .enqueue) :
    Move M t signal ({ M with waitList := M.waitList ++ [t] }.goto t
      (if M.waitList = [] then .setWaiters else .setState none))
  | setWaiters (hpc : M.pc t = .setWaiters) :
    Move M t signal ({ M with owner := { M.owner with waiters := true } }.goto t (.setState none))
  | setState {first} (hpc : M.pc t = .setState first) :
    Move M t signal ((M.setRunning t false).goto t
      (.trylock (first.elim .loop .awake) none))
  | dequeue {acquired} (hpc : M.pc t = .dequeue acquired) :
    Move M t signal (({ M with waitList := M.waitList.erase t }.setRunning t true).goto t
      (if M.waitList.erase t = [] then .clearFlags acquired else .leave acquired))
  | clearFlags {acquired} (hpc : M.pc t = .clearFlags acquired) :
    Move M t signal ({ M with owner := .bare M.owner.task }.goto t (.leave acquired))
  /-- The fast path finds no waiters. -/
  | unlockFast (hpc : M.pc t = .unlockFast) (howner : M.owner = .bare (some t)) :
    Move M t signal ({ M with owner := .bare none }.goto t .idle)
  /-- The mutex is released, and a waiter has to be woken if there is one. -/
  | release {seen} (hpc : M.pc t = .unlockSlow seen) (hhandoff : M.owner.handoff = false) :
    Move M t signal ({ M with owner := M.owner.flags }.goto t
      (if M.owner.waiters then .wakeLock false else .idle))
  | wakeNext {handoff} (hpc : M.pc t = .wakeNext handoff) :
    Move M t signal (M.wakeNext t handoff)
  /-- The mutex is handed over to the first waiter, or released if there is none. -/
  | handoff {next woken seen} (hpc : M.pc t = .handoff next woken seen) :
    Move M t signal ({ M with owner := ⟨next, M.owner.waiters, false, next.isSome⟩ }.goto t
      (.wakeUnlock woken))
  | wake {woken} (hpc : M.pc t = .wake (some woken)) :
    Move M t signal ({ M with queued := Function.update M.queued woken false }.goto t
      (.wakeUp woken))
  | wakeUp {woken} (hpc : M.pc t = .wakeUp woken) :
    Move M t signal ((M.setRunning woken true).goto t .idle)

/-- The outcomes of an access to `owner` in `__mutex_trylock_common`, for a task that does not own
the mutex. -/
lemma move_trylock {M : MutexState T} {t : T} {signal : Bool} {place : Place}
    {seen : Option (Owner T)} (hpc : M.pc t = .trylock place seen)
    (hnot : ¬(M.owner.task = some t ∧ M.owner.pickup = false))
    (hfree : M.owner.task = none → M.owner.pickup = false) :
    Move M t signal (M.trylock t place seen) := by
  unfold trylock
  cases hnew : trylockNew t place.wantsHandoff M.owner with
  | none => exact .jump (hpc ▸ .fail hnew)
  | some new =>
    dsimp only
    split
    · -- the exchange succeeds
      unfold trylockNew at hnew
      split at hnew
      · rename_i task htask
        split at hnew
        · rename_i hpickup
          split at hnew <;> rename_i hself <;> cases hnew
          obtain rfl := not_not.mp hself
          rw [htask, if_pos rfl]
          exact .take hpc (.inr ⟨htask, hpickup⟩)
        · rename_i hpickup
          split at hnew
          · rename_i hwants
            split at hnew <;> cases hnew
            obtain ⟨first, rfl⟩ : ∃ first, place = .awake first := by
              cases place <;> simp [Place.wantsHandoff] at hwants ⊢
            obtain rfl : first = true := hwants
            have hne : M.owner.task ≠ some t := fun h => hnot ⟨h, by simpa using hpickup⟩
            rw [if_neg hne]
            exact .ask hpc htask (by simpa using hpickup)
          · cases hnew
      · rename_i htask
        cases hnew
        rw [if_pos rfl, hfree htask]
        exact .take hpc (.inl htask)
    · exact .jump (hpc ▸ .retry hnew)

/-- Every step is one of the moves, as long as a task that makes an attempt does not own the
mutex. -/
theorem move_of_step {M M' : MutexState T} {t : T} {signal : Bool} {choice : Choice}
    (hnot : ∀ place seen, M.pc t = .trylock place seen →
      ¬(M.owner.task = some t ∧ M.owner.pickup = false))
    (hfree : M.owner.task = none → M.owner.pickup = false)
    (h : M.step t signal choice = some M') : Move M t signal M' := by
  unfold step at h
  split at h
  · split at h <;> cases h
    exact .giveUp (by assumption) _
  · split at h <;> rename_i hpc
    case h_2 =>
      split at h <;> rename_i howner <;> cases h
      · exact .fastLock hpc howner
      · exact .jump (hpc ▸ .slow howner)
    case h_3 place seen =>
      cases h
      exact move_trylock hpc (hnot place seen hpc) hfree
    case h_5 waiter =>
      unfold lockWait at h
      split at h <;> rename_i hwait <;> cases h
      cases waiter with
      | false => exact .lockWait (hpc ▸ .first) hwait
      | true => exact .lockWait (hpc ▸ .again) hwait
    case h_8 first =>
      cases h
      cases first with
      | none => exact .setState hpc
      | some first => exact .setState hpc
    case h_9 =>
      cases h
      cases signal with
      | false => exact .jump (hpc ▸ .wait rfl)
      | true => exact .jump (hpc ▸ .interrupt rfl)
    case h_11 =>
      split at h <;> rename_i hawake <;> cases h
      exact .jump (hpc ▸ .schedule (by simpa using hawake))
    case h_13 =>
      unfold lockWait at h
      split at h <;> rename_i hwait <;> cases h
      exact .lockWait (hpc ▸ .relock) hwait
    case h_16 acquired =>
      cases h
      cases acquired with
      | false => exact .unlockWait (hpc ▸ .interrupted)
      | true => exact .unlockWait (hpc ▸ .acquired)
    case h_19 =>
      split at h <;> rename_i howner <;> cases h
      · exact .unlockFast hpc howner
      · exact .jump (hpc ▸ .unlockSlow howner)
    case h_20 seen =>
      cases h
      unfold MutexState.unlockSlow
      split
      · rename_i hhandoff
        exact .jump (hpc ▸ .askedFor hhandoff)
      · rename_i hhandoff
        split
        · exact .release hpc (by simpa using hhandoff)
        · exact .jump (hpc ▸ .unlockRetry)
    case h_21 handoff =>
      unfold lockWait at h
      split at h <;> rename_i hwait <;> cases h
      exact .lockWait (hpc ▸ .wakeLock) hwait
    case h_23 next woken seen =>
      cases h
      unfold MutexState.handoff
      split
      · exact .handoff hpc
      · exact .jump (hpc ▸ .handoffRetry)
    all_goals cases h
    · exact .jump (hpc ▸ .call)
    · exact .jump (hpc ▸ .spin)
    · exact .enqueue hpc
    · exact .setWaiters hpc
    · exact .unlockWait (hpc ▸ .sleep)
    · exact .jump (hpc ▸ .isFirst)
    · exact .dequeue hpc
    · exact .clearFlags hpc
    · exact .jump (hpc ▸ .quit)
    · exact .jump (hpc ▸ .unlock)
    · exact .wakeNext hpc
    · exact .unlockWait (hpc ▸ .wake)
    · exact .jump (hpc ▸ .nobody)
    · exact .wake hpc
    · exact .wakeUp hpc

end MutexState

end XorSyscalls.Linux
