import XorSyscalls.Linux.Workers
import XorSyscalls.Foundation.Simulation

/-!
# The code of the mutex refines the mutex of the calls

Seen from outside, a mutex is taken at the access to `owner` that succeeds, and released at the
access that clears the owner or hands the mutex over.  A worker that has taken the mutex and is
still in the code of `mutex_lock_interruptible` is seen behind it, one that has given up is seen
with its result, and so is one that has released the mutex and is still in the code of
`mutex_unlock`.

In this view every step is a step of `Calls.step` or no step at all.
-/

namespace XorSyscalls

namespace Linux

open TransitionSystem

/-! ## The view from outside -/

/-- The task gives up and will return `-EINTR`. -/
def Pc.gaveUp {T : Type} : Pc T → Bool
  | .dequeue acquired | .clearFlags acquired | .leave acquired => !acquired
  | .interrupted => true
  | _ => false

/-- The worker `t` as it is seen from outside. -/
def MutexState.view (M : MutexState (ℕ × ℕ)) (t : ℕ × ℕ) (w : Worker) : Worker :=
  match w.pc with
  | .locking =>
    if M.holder = some t then { w with pc := .entered }
    else if (M.pc t).gaveUp then { w with pc := .returning Errno.eintr.ret }
    else w
  | .unlocking r => if M.holder = some t then w else { w with pc := .returning r }
  | _ => w

/-- The kernel state with the holders of the mutexes. -/
def viewKernel (mutexes : Mutex → MutexState (ℕ × ℕ)) (k : Kernel) : Kernel :=
  { k with holder := fun m => (mutexes m).holder }

/-- The state of a call as it is seen from outside. -/
def viewState (mutexes : Mutex → MutexState (ℕ × ℕ)) (d : Syscall) (c : Call) (s : State) : State :=
  ⟨viewKernel mutexes s.kernel, s.caller,
    s.workers.mapIdx fun i => (mutexes d.lock).view (c.task, i)⟩

/-- The system as it is seen from outside. -/
def LinuxSystem.view (cs : Calls) (L : LinuxSystem) : System :=
  ⟨viewKernel L.mutexes L.system.kernel,
    List.zipWith (fun x p => ⟨p.caller,
      p.workers.mapIdx fun i => (L.mutexes x.1.lock).view (x.2.task, i)⟩) cs.list L.system.procs⟩

section View

variable {M M' : MutexState (ℕ × ℕ)} {t : ℕ × ℕ} {w : Worker}

/-- Setting the stop flag is seen from outside. -/
lemma MutexState.view_stop (M : MutexState (ℕ × ℕ)) (t : ℕ × ℕ) (w : Worker) :
    M.view t w.stop = (M.view t w).stop := by
  unfold view Worker.stop
  dsimp only
  split
  · split_ifs <;> rfl
  · split_ifs <;> rfl
  · rfl

/-- Outside of the code of the mutex a worker is seen where it is. -/
lemma MutexState.view_eq_self (hpc : w.pc ≠ .locking) (hpc' : ∀ r, w.pc ≠ .unlocking r) :
    M.view t w = w := by
  unfold view
  split
  · exact absurd ‹_› hpc
  · exact absurd ‹_› (hpc' _)
  · rfl

/-- A worker with the mutex is seen in its critical section. -/
lemma MutexState.view_of_critical (hpc : w.pc.Critical) (hholder : M.holder = some t) :
    M.view t w = w := by
  unfold view
  split
  · rename_i hlocking
    rw [hlocking] at hpc
    exact hpc.elim
  · rw [if_pos hholder]
  · rfl

/-- The view of a worker depends on its own program point and on whether it has the mutex. -/
lemma MutexState.view_congr (hpc : M'.pc t = M.pc t)
    (hholder : M'.holder = some t ↔ M.holder = some t) : M'.view t w = M.view t w := by
  simp only [view, hpc, hholder]

end View

/-! ## Steps of the calling thread -/

section Caller

variable {d : Syscall} {c : Call} {s s' : State} (mutexes : Mutex → MutexState (ℕ × ℕ))

/-- `kfree` does not concern the mutexes. -/
lemma kfree_viewKernel (k : Kernel) (p : Ptr) :
    (viewKernel mutexes k).kfree p = viewKernel mutexes (k.kfree p) := by
  cases p with
  | null | zeroSize => rfl
  | block b =>
    by_cases hmem : b ∈ k.live <;> simp [Kernel.kfree, Kernel.clear, viewKernel, hmem]

/-- Storing arguments does not concern the mutexes. -/
lemma storeArgs_viewKernel (k : Kernel) (p : ArgsPtr) (a : WorkerArgs) :
    (viewKernel mutexes k).storeArgs p a = viewKernel mutexes (k.storeArgs p a) := rfl

/-- Kernel functions neither read nor change the holders of the mutexes. -/
lemma exec_viewKernel (c : Call) (op : Op) (k : Kernel) :
    c.exec op (viewKernel mutexes k) =
      ((c.exec op k).1, viewKernel mutexes (c.exec op k).2) := by
  cases op with
  | copyFromUser | iSizeRead | printk => rfl
  | filpOpen site filename mode =>
    simp only [Call.exec, Call.filpOpen, viewKernel]
    split
    · rfl
    · split <;> rfl
  | kmalloc site size =>
    simp only [Call.exec, Call.kmalloc, viewKernel]
    split
    · rfl
    · split <;> rfl
  | kernelRead file buf count =>
    simp only [Call.exec, Call.kernelRead, viewKernel]
    split
    · rfl
    · cases buf <;> rfl
  | kernelWrite file buf count =>
    simp only [Call.exec, Call.kernelWrite, viewKernel]
    split
    · rfl
    · cases buf <;> split <;> rfl
  | storeByte buf idx v => cases buf <;> rfl
  | filpClose file =>
    by_cases hmem : file ∈ k.files <;> simp [Call.exec, Kernel.filpClose, viewKernel, hmem]
  | kfree p => exact congrArg (Prod.mk ()) (kfree_viewKernel mutexes k p)

/-- Setting the stop flag of a worker is seen from outside. -/
lemma mapIdx_modify_stop (M : MutexState (ℕ × ℕ)) (task i : ℕ) (ws : List Worker) :
    ((ws.modify i Worker.stop).mapIdx fun i => M.view (task, i)) =
      (ws.mapIdx fun i => M.view (task, i)).modify i Worker.stop := by
  refine List.ext_getElem? fun j => ?_
  rw [List.getElem?_mapIdx, List.getElem?_modify, List.getElem?_modify, List.getElem?_mapIdx]
  cases ws[j]? with
  | none => rfl
  | some w => by_cases hj : i = j <;> simp [hj, M.view_stop]

/-- A step of the calling thread is the same step seen from outside. -/
lemma step_viewState (h : d.step c s .caller = some s') :
    d.step c (viewState mutexes d c s) .caller = some (viewState mutexes d c s') := by
  rw [d.step_caller] at h ⊢
  refine Move.callerStep_eq ?_
  have hcaller : ∀ {pc}, s.caller = pc → (viewState mutexes d c s).caller = pc := fun h => h
  cases move_of_callerStep h with
  | entryCall hpc =>
    have hmove := Move.entryCall (d := d) (c := c) (hcaller hpc)
    rwa [show (viewState mutexes d c s).kernel = viewKernel mutexes s.kernel from rfl,
      exec_viewKernel] at hmove
  | entryError hpc => exact .entryError (hcaller hpc)
  | entryDone hpc => exact .entryDone (hcaller hpc)
  | divideError hpc hn => exact .divideError (hcaller hpc) hn
  | divide hpc hn => exact .divide (hcaller hpc) hn
  | create hpc hlt hrun =>
    have hmove := Move.create (d := d) (hcaller hpc) hlt hrun
    simpa only [viewState, storeArgs_viewKernel, List.mapIdx_concat, MutexState.view, Worker.new]
      using hmove
  | createError hpc hlt hrun => exact .createError (hcaller hpc) hlt hrun
  | createDone hpc hge => exact .createDone (hcaller hpc) hge
  | stop hpc hlt =>
    have hmove := Move.stop (d := d) (hcaller hpc) hlt
    simpa only [viewState, mapIdx_modify_stop] using hmove
  | stopDone hpc hge => exact .stopDone (hcaller hpc) hge
  | wait hpc hw hexit =>
    refine .wait (hcaller hpc) ?_ hexit
    rw [viewState, List.getElem?_mapIdx, hw, Option.map_some,
      MutexState.view_eq_self (by simp [hexit]) (by simp [hexit])]
  | saveCall hpc =>
    have hmove := Move.saveCall (d := d) (c := c) (hcaller hpc)
    rwa [show (viewState mutexes d c s).kernel = viewKernel mutexes s.kernel from rfl,
      exec_viewKernel] at hmove
  | saveDone hpc => exact .saveDone (hcaller hpc)
  | free hpc =>
    have hmove := Move.free (d := d) (c := c) (hcaller hpc)
    rwa [show (viewState mutexes d c s).kernel = viewKernel mutexes s.kernel from rfl,
      kfree_viewKernel] at hmove
  | finish hpc => exact .finish (hcaller hpc)
  | worker ha => cases ha

end Caller

/-! ## Steps of the workers -/

/-- A task that owns the mutex has not given up. -/
lemma Pc.Owns.gaveUp_eq {T : Type} {pc : Pc T} (h : pc.Owns) : pc.gaveUp = false := by
  cases pc <;> simp_all [Pc.Owns, Pc.gaveUp]

section Move

variable {T : Type} [DecidableEq T] {M M' : MutexState T} {t : T} {signal : Bool}

/-- A task gives up only if it has a signal, and then goes on to return. -/
lemma MutexState.Move.gaveUp_cases (h : M.Move t signal M') (hne : M.pc t ≠ .interrupted) :
    (M'.pc t).gaveUp = (M.pc t).gaveUp ∨
      signal = true ∧ (M.pc t).gaveUp = false ∧ (M'.pc t).gaveUp = true := by
  cases h with
  | jump hjump =>
    rw [pc_goto_self]
    generalize M.pc t = pc at *
    cases hjump with
    | @fail place => rcases place with _ | _ | _ | _ | (_ | _) <;> exact .inl rfl
    | interrupt hsignal => exact .inr ⟨hsignal, rfl, rfl⟩
    | quit => exact absurd rfl hne
    | _ => exact .inl rfl
  | lockWait hlocks =>
    rw [pc_goto_self]
    generalize M.pc t = pc at *
    cases hlocks <;> exact .inl rfl
  | unlockWait hunlocks =>
    rw [pc_goto_self]
    generalize M.pc t = pc at *
    cases hunlocks <;> exact .inl rfl
  | @take place seen hpc =>
    rw [pc_goto_self, hpc, (place.success_kinds seen).2.1.gaveUp_eq]
    exact .inl rfl
  | enqueue hpc | dequeue hpc | release hpc =>
    rw [pc_goto_self, hpc]
    split <;> exact .inl rfl
  | wakeNext hpc =>
    rw [MutexState.wakeNext, pc_goto_self, hpc]
    split <;> exact .inl rfl
  | fastLock hpc | ask hpc | giveUp hpc | setWaiters hpc | setState hpc | clearFlags hpc
  | unlockFast hpc | handoff hpc | wake hpc | wakeUp hpc =>
    rw [pc_goto_self, hpc]
    exact .inl rfl

/-- The mutex is not released in `mutex_lock_interruptible`. -/
lemma MutexState.Move.owns_of_inLock (h : M.Move t signal M') (hin : (M.pc t).InLock)
    (howns : (M.pc t).Owns) : (M'.pc t).Owns := by
  cases h with
  | jump hjump => simpa [hjump.kinds.2.1] using howns
  | lockWait hlocks => simpa [hlocks.kinds.2.1] using howns
  | unlockWait hunlocks => simpa [hunlocks.kinds.2.1] using howns
  | dequeue hpc =>
    rw [hpc] at howns
    rw [pc_goto_self]
    split <;> exact howns
  | clearFlags hpc =>
    rw [hpc] at howns
    rw [pc_goto_self]
    exact howns
  | unlockFast hpc | release hpc | wakeNext hpc | handoff hpc => simp [hpc, Pc.InLock] at hin
  | fastLock hpc | take hpc | ask hpc | giveUp hpc | enqueue hpc | setWaiters hpc | setState hpc
  | wake hpc | wakeUp hpc => simp [hpc, Pc.Owns] at howns

/-- The mutex is not taken in `mutex_unlock`. -/
lemma MutexState.Move.not_owns_of_inUnlock (h : M.Move t signal M') (hin : (M.pc t).InUnlock)
    (howns : ¬(M.pc t).Owns) : ¬(M'.pc t).Owns := by
  cases h with
  | jump hjump => simpa [hjump.kinds.2.1] using howns
  | lockWait hlocks => simpa [hlocks.kinds.2.1] using howns
  | unlockWait hunlocks => simpa [hunlocks.kinds.2.1] using howns
  | @wakeNext asked hpc =>
    rw [hpc] at howns
    rw [MutexState.wakeNext, pc_goto_self]
    cases asked <;> simp_all [Pc.Owns]
  | wake hpc | wakeUp hpc =>
    rw [pc_goto_self]
    simp [Pc.Owns]
  | unlockFast hpc | release hpc | handoff hpc => simp [hpc, Pc.Owns] at howns
  | fastLock hpc | take hpc | ask hpc | giveUp hpc | enqueue hpc | setWaiters hpc | setState hpc
  | dequeue hpc | clearFlags hpc => simp [hpc, Pc.InUnlock] at hin

end Move

/-- The kernel state seen from outside after a step in the code of one mutex. -/
lemma viewKernel_update (mutexes : Mutex → MutexState (ℕ × ℕ)) (k : Kernel) (m : Mutex)
    (M : MutexState (ℕ × ℕ)) :
    viewKernel (Function.update mutexes m M) k =
      (viewKernel mutexes k).setHolder m M.holder := by
  simp only [viewKernel, Kernel.setHolder]
  congr 1
  funext m'
  rcases eq_or_ne m' m with rfl | hm
  · simp
  · simp [hm]

/-- Nothing is seen if the holder stays. -/
lemma viewKernel_update_of_eq {mutexes : Mutex → MutexState (ℕ × ℕ)} {m : Mutex}
    {M : MutexState (ℕ × ℕ)} (h : M.holder = (mutexes m).holder) (k : Kernel) :
    viewKernel (Function.update mutexes m M) k = viewKernel mutexes k := by
  rw [viewKernel_update, h]
  simp [viewKernel, Kernel.setHolder]

section Worker

variable {lock : Mutex} {task i : ℕ} {k k' : Kernel} {mutexes : Mutex → MutexState (ℕ × ℕ)}
  {M' : MutexState (ℕ × ℕ)} {w w' : Worker}

/-- A store does not concern the holders. -/
lemma storeByte_viewKernel (p : Ptr) (idx : ℕ) (v : UInt8) :
    (viewKernel mutexes k).storeByte p idx v = viewKernel mutexes (k.storeByte p idx v) := by
  cases p <;> rfl

/-- Recording the use of a block does not concern the holders. -/
lemma noteUse_viewKernel (k : Kernel) (p : Ptr) :
    (viewKernel mutexes k).noteUse p = viewKernel mutexes (k.noteUse p) := by
  cases p with
  | null | zeroSize => rfl
  | block b => by_cases hmem : b ∈ k.live <;> simp [Kernel.noteUse, viewKernel, hmem]

/-- Stray writes do not concern the holders. -/
lemma scribble_viewKernel (hit : Hit) :
    (viewKernel mutexes k).scribble task hit = viewKernel mutexes (k.scribble task hit) := by
  cases hit with
  | nothing => rfl
  | byte b idx v =>
    rw [Kernel.scribble, Kernel.scribble]
    split <;> rfl
  | args b elem a =>
    rw [Kernel.scribble, Kernel.scribble]
    change (if b.task = task ∨ k.args b elem = none then _ else _) = _
    split <;> rfl

/-- Reading arguments does not concern the holders. -/
lemma findArgs_viewKernel (p : ArgsPtr) (x : Chance) :
    (viewKernel mutexes k).findArgs p x =
      (k.findArgs p x).map fun m => (m.1, viewKernel mutexes m.2) := by
  have hload : (viewKernel mutexes k).loadArgs p = k.loadArgs p := rfl
  unfold Kernel.findArgs
  rw [hload]
  cases k.loadArgs p with
  | some a => rfl
  | none => cases x <;> simp [noteUse_viewKernel]

/-- The XOR of a byte does not concern the holders. -/
lemma xorByte_viewKernel (dst : Ptr) (idx : ℕ) (src : Ptr) (jdx : ℕ) (x : Chance) :
    (viewKernel mutexes k).xorByte task dst idx src jdx x =
      (k.xorByte task dst idx src jdx x).map (viewKernel mutexes) := by
  have hbyte : (viewKernel mutexes k).byteAt = k.byteAt := rfl
  unfold Kernel.xorByte
  rw [hbyte]
  cases k.byteAt dst idx <;> cases k.byteAt src jdx <;> cases x <;>
    simp [storeByte_viewKernel, noteUse_viewKernel, scribble_viewKernel]

/-- A worker that uses its arguments does not look at the holders. -/
lemma workerStep_viewKernel {x : Chance} (hpc : w.pc.Accesses)
    (h : XorSyscalls.workerStep lock task i x k w = some (k', w')) :
    XorSyscalls.workerStep lock task i x (viewKernel mutexes k) w =
      some (viewKernel mutexes k', w') := by
  unfold XorSyscalls.workerStep at h ⊢
  cases hw : w.pc <;> simp only [hw, WorkerPc.Accesses] at hpc <;> simp only [hw] at h ⊢ <;>
    obtain ⟨⟨a, k₁⟩, hfind, h⟩ := Option.bind_eq_some_iff.mp h <;>
    simp only [findArgs_viewKernel, hfind, Option.map_some, Option.bind_eq_bind,
      Option.bind_some] at h ⊢
  case entered => cases h; rfl
  case testing =>
    split at h <;> rename_i hlt <;> simp only [hlt, if_true, if_false]
    · split at h <;> rename_i hstop <;> cases h <;> simp [hstop]
    · cases h
      rfl
  case xoring =>
    split at h <;> rename_i hkey <;> simp only [hkey, if_true, if_false]
    · cases h
      rfl
    · obtain ⟨k₂, hxor, h⟩ := Option.bind_eq_some_iff.mp h
      cases h
      rw [xorByte_viewKernel, hxor]
      rfl

/-- The moves outside of the code of the mutex do not concern the holders. -/
lemma workerMove_viewKernel (hpc : w.pc ≠ .locking) (hpc' : ∀ r, w.pc ≠ .unlocking r)
    (h : XorSyscalls.WorkerMove lock task i k w k' w') :
    XorSyscalls.WorkerMove lock task i (viewKernel mutexes k) w (viewKernel mutexes k') w' := by
  have hmissing : k.Missing w → (viewKernel mutexes k).Missing w := fun hmiss => hmiss
  cases h with
  | regular a ha hmove =>
    refine .regular a ha ?_
    cases hmove with
    | start hpc hstop => exact .start hpc hstop
    | startStopped hpc hstop => exact .startStopped hpc hstop
    | enter hpc => exact .enter hpc
    | test hpc hlt hstop => exact .test hpc hlt hstop
    | testStopped hpc hlt hstop => exact .testStopped hpc hlt hstop
    | testDone hpc hge => exact .testDone hpc hge
    | xor hpc hkey hu hv =>
      rw [← storeByte_viewKernel]
      exact .xor hpc hkey hu hv
    | oops hpc hkey => exact .oops hpc hkey
    | exit hpc => exact .exit hpc
    | lock hlock | interrupt hlock => exact absurd hlock hpc
    | unlock hunlock => exact absurd hunlock (hpc' _)
  | stray e hmiss hstep =>
    exact .stray e (hmissing hmiss) (workerStep_viewKernel hmiss.accesses hstep)
  | fault hmiss => exact .fault (hmissing hmiss)

/-- A step in `mutex_lock_interruptible` is seen when the worker takes the mutex or gives up. -/
lemma view_of_lockStep {choice : Choice} (h : (mutexes lock).WakeInv)
    (hfits : Fits w.pc ((mutexes lock).pc (task, i))) (hpc : w.pc = .locking)
    (hne : (mutexes lock).pc (task, i) ≠ .interrupted)
    (hstep : (mutexes lock).step (task, i) w.shouldStop choice = some M') :
    (viewKernel (Function.update mutexes lock M') k = viewKernel mutexes k ∧
        M'.view (task, i) w = (mutexes lock).view (task, i) w) ∨
      XorSyscalls.WorkerMove lock task i (viewKernel mutexes k) ((mutexes lock).view (task, i) w)
        (viewKernel (Function.update mutexes lock M') k) (M'.view (task, i) w) := by
  rw [hpc] at hfits
  have hmove := h.inv.move hstep
  have hgaveUp := hmove.gaveUp_cases hne
  cases h.inv.holder_step hmove with
  | keep hholder howns =>
    by_cases hself : (mutexes lock).holder = some (task, i)
    · exact .inl ⟨viewKernel_update_of_eq hholder k,
        by simp [MutexState.view, hpc, hholder, hself]⟩
    · rw [viewKernel_update_of_eq hholder]
      rcases hgaveUp with heq | ⟨hstop, hnot, hgave⟩
      · exact .inl ⟨rfl, by simp [MutexState.view, hpc, hholder, heq]⟩
      · -- the worker gives up
        right
        simp only [MutexState.view, hpc, hholder, hself, hnot, hgave, if_true, if_false,
          Bool.false_eq_true]
        exact .plain (by simp [hpc, WorkerPc.Accesses]) fun a => .interrupt hpc hstop
  | enter hfree hholder howns =>
    -- the worker takes the mutex
    have hnot : ((mutexes lock).pc (task, i)).gaveUp = false := by
      rcases hgaveUp with heq | ⟨-, hnot, -⟩
      · rw [← heq, howns.gaveUp_eq]
      · exact hnot
    right
    rw [viewKernel_update, hholder]
    simp only [MutexState.view, hpc, hfree, hholder, hnot, if_true, if_false, reduceCtorEq,
      Bool.false_eq_true]
    exact .plain (by simp [hpc, WorkerPc.Accesses]) fun a => .lock hpc hfree
  | leave hin hholder hout => exact absurd (hmove.owns_of_inLock hfits hin) hout

/-- A step in `mutex_unlock` is seen when the worker releases the mutex. -/
lemma view_of_unlockStep {choice : Choice} {r : ℤ} (h : (mutexes lock).WakeInv)
    (hfits : Fits w.pc ((mutexes lock).pc (task, i))) (hpc : w.pc = .unlocking r)
    (hstep : (mutexes lock).step (task, i) w.shouldStop choice = some M') :
    (viewKernel (Function.update mutexes lock M') k = viewKernel mutexes k ∧
        M'.view (task, i) w = (mutexes lock).view (task, i) w) ∨
      XorSyscalls.WorkerMove lock task i (viewKernel mutexes k) ((mutexes lock).view (task, i) w)
        (viewKernel (Function.update mutexes lock M') k) (M'.view (task, i) w) := by
  rw [hpc] at hfits
  have hiff := h.inv.holder_iff (task, i)
  have hmove := h.inv.move hstep
  cases h.inv.holder_step hmove with
  | keep hholder howns =>
    exact .inl ⟨viewKernel_update_of_eq hholder k, by simp [MutexState.view, hpc, hholder]⟩
  | enter hfree hholder howns =>
    have hnot : ¬((mutexes lock).pc (task, i)).Owns := by simp [← hiff, hfree]
    exact absurd howns (hmove.not_owns_of_inUnlock hfits hnot)
  | leave hin hholder hout =>
    -- the worker releases the mutex
    right
    rw [viewKernel_update, hholder]
    simp only [MutexState.view, hpc, hiff.mpr hin, hholder, if_true, if_false, reduceCtorEq]
    exact .plain (by simp [hpc, WorkerPc.Accesses]) fun a => .unlock hpc

/-- A worker that has moved outside of the code of the mutex is seen where it is. -/
lemma view_of_workerMove (h : (mutexes lock).WakeInv)
    (hfits : Fits w.pc ((mutexes lock).pc (task, i))) (hpc : w.pc ≠ .locking)
    (hpc' : ∀ r, w.pc ≠ .unlocking r) (hmove : XorSyscalls.WorkerMove lock task i k w k' w') :
    (mutexes lock).view (task, i) w' = w' := by
  have hiff := h.inv.holder_iff (task, i)
  have hcritical : w.pc.Accesses → w'.pc.Critical → (mutexes lock).view (task, i) w' = w' := by
    intro hacc hcrit
    refine MutexState.view_of_critical hcrit (hiff.mpr ?_)
    simp [hfits.eq_holding hacc, Pc.Owns]
  cases hmove with
  | regular a ha hmove =>
    cases hmove with
    | start hpc =>
      rw [hpc] at hfits
      have hidle : (mutexes lock).pc (task, i) = .idle := hfits
      simp [MutexState.view, hiff, hidle, Pc.Owns, Pc.gaveUp]
    | testStopped hpc | testDone hpc => exact hcritical (by rw [hpc]; trivial) trivial
    | lock hlock | interrupt hlock => exact absurd hlock hpc
    | unlock hunlock => exact absurd hunlock (hpc' _)
    | _ => rfl
  | stray e hmiss hstep => exact hcritical hmiss.accesses (worker_of_strayStep hmiss hstep).2.2
  | fault hmiss => rfl

/-- A move of a worker is seen from outside as a move or not at all. -/
lemma WorkerMove.view (h : (mutexes lock).WakeInv)
    (hfits : Fits w.pc ((mutexes lock).pc (task, i)))
    (hmove : WorkerMove lock task i k (mutexes lock) w k' M' w') :
    (viewKernel (Function.update mutexes lock M') k' = viewKernel mutexes k ∧
        M'.view (task, i) w' = (mutexes lock).view (task, i) w) ∨
      XorSyscalls.WorkerMove lock task i (viewKernel mutexes k) ((mutexes lock).view (task, i) w)
        (viewKernel (Function.update mutexes lock M') k') (M'.view (task, i) w') := by
  have hiff := h.inv.holder_iff (task, i)
  have hreturning : ∀ {M : MutexState (ℕ × ℕ)} {t} {r}, M.view t { w with pc := .returning r } =
      { w with pc := .returning r } := MutexState.view_eq_self (by simp) (by simp)
  cases hmove with
  | acquired hpc hmutex =>
    have hholder := hiff.mpr (by simp [hmutex, Pc.Owns])
    exact .inl ⟨viewKernel_update_of_eq rfl k, by simp [MutexState.view, hpc, hholder]⟩
  | interrupted hpc hmutex =>
    have hholder : ¬(mutexes lock).holder = some (task, i) := by simp [hiff, hmutex, Pc.Owns]
    refine .inl ⟨viewKernel_update_of_eq (M := (mutexes lock).goto _ _) rfl k, ?_⟩
    rw [hreturning]
    simp [MutexState.view, hpc, hholder, hmutex, Pc.gaveUp]
  | released hpc hmutex =>
    have hholder : ¬(mutexes lock).holder = some (task, i) := by simp [hiff, hmutex, Pc.Owns]
    refine .inl ⟨viewKernel_update_of_eq rfl k, ?_⟩
    rw [hreturning]
    simp [MutexState.view, hpc, hholder]
  | lock hpc hne hne' hstep => exact view_of_lockStep h hfits hpc hne' hstep
  | unlock hpc hne hstep => exact view_of_unlockStep h hfits hpc hstep
  | other hpc hpc' hmove =>
    right
    rw [viewKernel_update_of_eq rfl, MutexState.view_eq_self hpc hpc',
      view_of_workerMove h hfits hpc hpc' hmove]
    exact workerMove_viewKernel hpc hpc' hmove

end Worker

/-! ## Steps of the system -/

section System

variable {cs : Calls} {L : LinuxSystem} {j : ℕ} {d : Syscall} {c : Call} {p : Process}

/-- A call as it is seen from outside. -/
lemma getElem?_view (hcall : cs.list[j]? = some (d, c)) (hproc : L.system.procs[j]? = some p) :
    (L.view cs).procs[j]? = some ⟨p.caller,
      p.workers.mapIdx fun i => (L.mutexes d.lock).view (c.task, i)⟩ := by
  simp [LinuxSystem.view, List.getElem?_zipWith, hcall, hproc]

/-- The system seen from outside after a step of call `j`. -/
lemma view_put (hcall : cs.list[j]? = some (d, c)) (hproc : L.system.procs[j]? = some p)
    (mutexes : Mutex → MutexState (ℕ × ℕ))
    (hothers : ∀ m u w, u.1 ≠ c.task → (mutexes m).view u w = (L.mutexes m).view u w)
    (s : State) :
    LinuxSystem.view cs ⟨L.system.put j s, mutexes⟩ =
      (L.view cs).put j (viewState mutexes d c s) := by
  refine congrArg (System.mk _) (List.ext_getElem? fun i => ?_)
  rcases eq_or_ne j i with rfl | hne
  · have hlt := (List.getElem?_eq_some_iff.mp hproc).1
    have hlt' := (List.getElem?_eq_some_iff.mp (getElem?_view hcall hproc)).1
    rw [List.getElem?_set_self hlt', List.getElem?_zipWith, hcall, System.put,
      List.getElem?_set_self hlt]
    rfl
  · rw [List.getElem?_set_ne hne, LinuxSystem.view, List.getElem?_zipWith,
      List.getElem?_zipWith, System.put, List.getElem?_set_ne hne]
    cases hcall' : cs.list[i]? with
    | none => rfl
    | some x =>
      have htask : x.2.task ≠ c.task := fun h => hne (Calls.eq_of_task_eq hcall hcall' h.symm)
      cases L.system.procs[i]? with
      | none => rfl
      | some q =>
        have hworkers : (fun i => (mutexes x.1.lock).view (x.2.task, i)) =
            fun i => (L.mutexes x.1.lock).view (x.2.task, i) := by
          funext i w
          exact hothers _ _ w htask
        simp only [hworkers]

/-- A worker that moves is seen at its new place; the others are seen where they were. -/
lemma WorkerMove.view_of_ne (h : L.Inv cs) {t : ℕ × ℕ} {M' : MutexState (ℕ × ℕ)} {w : Worker}
    {k k' : Kernel} {w' : Worker} {lock : Mutex}
    (hmove : WorkerMove lock t.1 t.2 k (L.mutexes lock) w k' M' w') {u : ℕ × ℕ} (hu : u ≠ t)
    (m : Mutex) (v : Worker) :
    (Function.update L.mutexes lock M' m).view u v = (L.mutexes m).view u v := by
  rcases eq_or_ne m lock with rfl | hm
  · rw [Function.update_self]
    rcases hmove.mutex_cases (h.mutex m) with rfl | hmutex
    · rfl
    · have hpc := hmutex.pc_of_ne hu
      refine MutexState.view_congr hpc ?_
      rw [((h.mutex m).inv.of_move hmutex).holder_iff, (h.mutex m).inv.holder_iff, hpc]
  · rw [Function.update_of_ne hm]

/-- Every step is seen from outside as a step of the calls or not at all. -/
theorem view_step (h : L.Inv cs) {a : ℕ × LinuxAct} {L' : LinuxSystem}
    (hstep : step cs L a = some L') :
    L'.view cs = L.view cs ∨ ∃ a', cs.step (L.view cs) a' = some (L'.view cs) := by
  obtain ⟨j, a⟩ := a
  obtain ⟨d, c, p, hcall, hproc, ⟨s, hs, rfl⟩ | ⟨i, w, k', M', w', hw, hmove, rfl⟩⟩ :=
    step_cases hstep
  · refine .inr ⟨(j, .caller), Calls.step_eq_some_iff.mpr ?_⟩
    exact ⟨d, c, _, _, hcall, getElem?_view hcall hproc, step_viewState L.mutexes hs,
      view_put hcall hproc _ (fun _ _ _ _ => rfl) s⟩
  · have hview := view_put hcall hproc (Function.update L.mutexes d.lock M')
      (fun m u v hu => hmove.view_of_ne (t := (c.task, i)) h (by rintro rfl; exact hu rfl) m v)
      ⟨k', p.caller, p.workers.set i w'⟩
    have hset : ((p.workers.set i w').mapIdx fun i' =>
        (Function.update L.mutexes d.lock M' d.lock).view (c.task, i')) =
        (p.workers.mapIdx fun i' => (L.mutexes d.lock).view (c.task, i')).set i
          (M'.view (c.task, i) w') := by
      refine List.ext_getElem? fun i' => ?_
      rcases eq_or_ne i i' with rfl | hne
      · have hlt := (List.getElem?_eq_some_iff.mp hw).1
        rw [List.getElem?_set_self (by simpa using hlt), List.getElem?_mapIdx,
          List.getElem?_set_self hlt, Function.update_self]
        rfl
      · rw [List.getElem?_set_ne hne, List.getElem?_mapIdx, List.getElem?_mapIdx,
          List.getElem?_set_ne hne]
        cases p.workers[i']? with
        | none => rfl
        | some v =>
          exact congrArg some (hmove.view_of_ne (t := (c.task, i)) h
            (by rintro heq; exact hne (congrArg Prod.snd heq).symm) d.lock v)
    have hworker : (p.workers.mapIdx fun i' => (L.mutexes d.lock).view (c.task, i'))[i]? =
        some ((L.mutexes d.lock).view (c.task, i) w) := by
      rw [List.getElem?_mapIdx, hw, Option.map_some]
    replace hview := hview.trans (congrArg (fun ws => (L.view cs).put j ⟨_, p.caller, ws⟩) hset)
    have hfits := h.fits _ _ w ((workerAt_self hcall hproc).mpr ⟨rfl, hw⟩)
    rcases hmove.view (h.mutex _) hfits with ⟨hkernel, hself⟩ | hmove'
    · left
      rw [LinuxSystem.put, hview, hself]
      obtain ⟨hlt, heq⟩ := List.getElem?_eq_some_iff.mp hworker
      rw [← heq, List.set_getElem_self hlt]
      refine Eq.trans ?_ (System.put_view (getElem?_view hcall hproc))
      exact congrArg (fun k => (L.view cs).put j ⟨k, p.caller, _⟩) hkernel
    · obtain ⟨a', ha'⟩ := hmove'.exists_step
        (s := viewState L.mutexes d c (L.system.view p)) hworker
      refine .inr ⟨(j, a'), Calls.step_eq_some_iff.mpr ?_⟩
      exact ⟨d, c, _, _, hcall, getElem?_view hcall hproc, ha', hview⟩

end System

/-- The simulation: the system seen from outside. -/
lemma simulates (cs : Calls) :
    Simulates (step cs) cs.step fun L S => L.Inv cs ∧ S = L.view cs := by
  rintro L a L' S ⟨h, rfl⟩ hstep
  refine ⟨L'.view cs, ?_, h.step hstep, rfl⟩
  rcases view_step h hstep with heq | ⟨a', hstep'⟩
  · rw [heq]
    exact .refl _
  · exact .single a' hstep'

/-- The start is seen as the start. -/
lemma view_start (cs : Calls) {k : Kernel} (hfree : ∀ m, k.holder m = none) :
    (LinuxSystem.start cs k).view cs = System.start cs k := by
  have hkernel : viewKernel (fun _ => .init) k = k := by
    have hholder : k.holder = fun _ => none := funext hfree
    simp [viewKernel, MutexState.init, MutexState.holder, Owner.bare, ← hholder]
  simp only [LinuxSystem.view, LinuxSystem.start, System.start, hkernel, System.mk.injEq, true_and]
  refine List.ext_getElem? fun j => ?_
  rw [List.getElem?_zipWith, List.getElem?_map]
  cases cs.list[j]? <;> rfl

/-- Every run is seen from outside as a run of the calls. -/
lemma exists_run_view {cs : Calls} {k : Kernel} (hfree : ∀ m, k.holder m = none)
    {acts : List (ℕ × LinuxAct)} {L : LinuxSystem} (hrun : Run cs k acts L) :
    L.Inv cs ∧ ∃ acts', cs.Run k acts' (L.view cs) := by
  obtain ⟨S, ⟨acts', hS⟩, hinv, rfl⟩ :=
    (simulates cs).run ⟨.start cs k, (view_start cs hfree).symm⟩ hrun
  exact ⟨hinv, acts', hS⟩

/-- Every private state belongs to a call. -/
lemma LinuxSystem.Inv.exists_call {cs : Calls} {L : LinuxSystem} (h : L.Inv cs) {j : ℕ}
    {p : Process} (hproc : L.system.procs[j]? = some p) : ∃ d c, cs.list[j]? = some (d, c) := by
  have hlt := (List.getElem?_eq_some_iff.mp hproc).1
  rw [h.length] at hlt
  exact ⟨_, _, List.getElem?_eq_getElem hlt⟩

/-- The calling threads are seen where they are. -/
lemma map_caller_view {cs : Calls} {L : LinuxSystem} (h : L.Inv cs) :
    (L.view cs).procs.map Process.caller = L.system.procs.map Process.caller := by
  refine List.ext_getElem? fun j => ?_
  rw [List.getElem?_map, List.getElem?_map]
  cases hproc : L.system.procs[j]? with
  | none => simp [LinuxSystem.view, List.getElem?_zipWith, hproc]
  | some p =>
    obtain ⟨d, c, hcall⟩ := h.exists_call hproc
    rw [getElem?_view hcall hproc]
    rfl

/-- If everything has ended, this is seen from outside. -/
lemma finished_view {cs : Calls} {L : LinuxSystem} (hfinished : Calls.Finished L.system) :
    Calls.Finished (L.view cs) := by
  intro p hp
  obtain ⟨j, hj⟩ := List.mem_iff_getElem?.mp hp
  obtain ⟨⟨d, c⟩, q, -, hproc, rfl⟩ := List.getElem?_zipWith_eq_some.mp hj
  obtain ⟨hreturned, hexited⟩ := hfinished q (List.mem_of_getElem? hproc)
  refine ⟨hreturned, fun w hw => ?_⟩
  obtain ⟨i, hi⟩ := List.mem_iff_getElem?.mp hw
  rw [List.getElem?_mapIdx] at hi
  obtain ⟨v, hv, rfl⟩ := Option.map_eq_some_iff.mp hi
  obtain ⟨r, hr⟩ := hexited v (List.mem_of_getElem? hv)
  exact ⟨r, by rw [MutexState.view_eq_self (by simp [hr]) (by simp [hr]), hr]⟩

/-- The code of the Linux mutex refines the mutexes of the model.  Whatever any number of calls over
this code have done, the calls over the mutexes of the model can have done too, with the same files,
memory and log, with the same holders of the mutexes and with the calling threads at the same
program points; and if everything has ended, so has everything there. -/
theorem linux_mutex_refines {cs : Calls} {k : Kernel} (hfree : ∀ m, k.holder m = none)
    {acts : List (ℕ × LinuxAct)} {L : LinuxSystem} (hrun : Run cs k acts L) :
    ∃ acts' S, cs.Run k acts' S ∧ S.kernel = viewKernel L.mutexes L.system.kernel ∧
      S.procs.map Process.caller = L.system.procs.map Process.caller ∧
      (Calls.Finished L.system → Calls.Finished S) := by
  obtain ⟨hinv, acts', hS⟩ := exists_run_view hfree hrun
  exact ⟨acts', _, hS, rfl, map_caller_view hinv, finished_view⟩

/-- Two small calls, of which the first has created its two workers: one takes the mutex and gets to
its loop, the other finds it taken, stops spinning, joins the wait list and sleeps. -/
def sampleContention : List (ℕ × LinuxAct) :=
  (1, .caller) :: List.replicate 21 (0, .caller) ++ List.replicate 5 (0, .worker 0 .go) ++
    List.replicate 4 (0, .worker 1 .go) ++ (0, .worker 1 (.giveUp true)) ::
      List.replicate 8 (0, .worker 1 .go)

/-- The owner, the wait list and the waiter in this run; the waiter is blocked. -/
lemma sampleContention_mutex :
    ∃ L, Run (sampleCalls 2) (.idle sampleFiles) sampleContention L ∧
      (L.mutexes .syncLock).holder = some (1, 0) ∧ (L.mutexes .syncLock).waitList = [(1, 1)] ∧
      (L.mutexes .syncLock).pc (1, 1) = .schedule ∧
      step (sampleCalls 2) L (0, .worker 1 .go) = none := by
  have hresult : (run (step (sampleCalls 2)) (.start (sampleCalls 2) (.idle sampleFiles))
      sampleContention).map (fun L => ((L.mutexes .syncLock).holder,
        (L.mutexes .syncLock).waitList, (L.mutexes .syncLock).pc (1, 1),
        (step (sampleCalls 2) L (0, .worker 1 .go)).isNone)) =
      some (some (1, 0), [(1, 1)], .schedule, true) := by
    decide +kernel
  obtain ⟨L, hrun, hL⟩ := Option.map_eq_some_iff.mp hresult
  obtain ⟨hholder, hL⟩ := Prod.mk_inj.mp hL
  obtain ⟨hlist, hL⟩ := Prod.mk_inj.mp hL
  obtain ⟨hpc, hblocked⟩ := Prod.mk_inj.mp hL
  exact ⟨L, hrun, hholder, hlist, hpc, Option.isNone_iff_eq_none.mp hblocked⟩

/-- A run in which one worker holds the mutex and another one sleeps in its wait list. -/
theorem linux_mutex_refines_sample :
    ∃ L, Run (sampleCalls 2) (.idle sampleFiles) sampleContention L ∧
      (L.mutexes .syncLock).waitList = [(1, 1)] ∧
      (L.mutexes .syncLock).pc (1, 1) = .schedule ∧
      ∃ acts' S, (sampleCalls 2).Run (.idle sampleFiles) acts' S ∧
        S.kernel.holder .syncLock = some (1, 0) ∧
        S.kernel = viewKernel L.mutexes L.system.kernel ∧
        S.procs.map Process.caller = L.system.procs.map Process.caller ∧
        (Calls.Finished L.system → Calls.Finished S) := by
  obtain ⟨L, hrun, hholder, hlist, hpc, -⟩ := sampleContention_mutex
  obtain ⟨acts', S, hS, hkernel, hcallers, hfinished⟩ := linux_mutex_refines (fun _ => rfl) hrun
  exact ⟨L, hrun, hlist, hpc, acts', S, hS, by rw [hkernel]; exact hholder, hkernel, hcallers,
    hfinished⟩

end Linux

end XorSyscalls
