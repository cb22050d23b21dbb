import XorSyscalls.Syscall.OwnMemory
import XorSyscalls.Syscall.Partition
import XorSyscalls.Syscall.PrivateState

/-!
# Calls that keep to their memory

A worker is served if its arguments are in memory and lead to the buffers of its call.  Such a
worker makes regular moves only.  `State.Safe` is the invariant that all workers of a call are
served until they exit.  It is kept by every step of the call and by every change of another call
that keeps to its own memory, and a call with this invariant does so itself
(`Syscall.changes_of_step`).

The arguments are freed when the calling thread leaves.  So the invariant only holds if the calling
thread has waited for all workers by then, which it does unless the creation of a worker behind the
first one fails (`Call.KeepsWorkers`).
-/

namespace XorSyscalls

/-! ## Workers that find their memory -/

/-- The worker has its arguments `a` and the memory they lead to, and all of it is memory of the
call. -/
structure Worker.Served (c : Call) (k : Kernel) (a : WorkerArgs) (w : Worker) : Prop where
  provides : k.Provides w.params a
  inRange : w.InRange a
  params_eq : w.params.array = .block (c.blockAt .workerArgs)
  inputData_eq : a.inputData = .block (c.blockAt .data)
  cipherKey_eq : a.cipherKey = .block (c.blockAt .key)
  rangeEnd_le : a.rangeEnd ≤ maxFileSize

namespace Worker.Served

variable {c : Call} {k k' : Kernel} {a : WorkerArgs} {w w' : Worker} {lock : Mutex} {task i : ℕ}

/-- A worker that is served makes regular moves only. -/
lemma toRegular (h : w.Served c k a) (hm : WorkerMove lock task i k w k' w') :
    RegularMove lock task i a k w k' w' :=
  hm.toRegular h.provides.args (h.provides.not_missing h.inRange)

/-- It is not killed. -/
lemma ne_oops (h : w.Served c k a) : w.pc ≠ .oops := by
  intro hpc
  have hok := h.inRange.pc_ok
  simp only [PcOk, hpc] at hok

/-- Only the memory matters. -/
lemma of_mem_eq (h : w.Served c k a) (hmem : k'.mem = k.mem) (hargs : k'.args = k.args) :
    w.Served c k' a := by
  have hload : k'.loadArgs w.params = k.loadArgs w.params := by
    simp only [Kernel.loadArgs, hargs]
  have hbytes : ∀ p, k'.bytesAt p = k.bytesAt p := fun p => by
    cases p with
    | null | zeroSize => rfl
    | block b => exact congrFun hmem b
  exact ⟨⟨hload.trans h.provides.args, hbytes a.inputData ▸ h.provides.data,
    hbytes a.cipherKey ▸ h.provides.key, h.provides.key_pos⟩, h.inRange, h.params_eq,
    h.inputData_eq, h.cipherKey_eq, h.rangeEnd_le⟩

/-- If it cannot go on, it has exited or waits for a mutex that is held. -/
lemma of_workerStep_eq_none (h : w.Served c k a)
    (hstep : workerStep lock task i .usual k w = none) :
    (∃ r, w.pc = .exited r) ∨ w.pc = .locking ∧ k.holder lock ≠ none := by
  have hload := h.provides.args
  unfold workerStep at hstep
  cases hpc : w.pc with
  | exited r => exact Or.inl ⟨r, rfl⟩
  | oops => exact absurd hpc h.ne_oops
  | locking =>
    refine Or.inr ⟨rfl, fun hfree => ?_⟩
    simp [hpc, Kernel.mutexLockInterruptible, hfree] at hstep
  | xoring =>
    exfalso
    have hpos := h.provides.key_pos.ne'
    obtain ⟨⟨u, hu⟩, v, hv⟩ :=
      Kernel.exists_bytes hpc hload hpos (h.provides.not_missing h.inRange)
    simp [hpc, Kernel.findArgs_of_load hload, hpos, Kernel.xorByte_of_bytes hu hv] at hstep
  | _ =>
    simp only [hpc, Kernel.findArgs_of_load hload, Option.bind_eq_bind, Option.bind_some] at hstep
    exfalso
    repeat' split at hstep
    all_goals cases hstep

/-- Its range does not wrap around. -/
lemma rangeEnd_lt (h : w.Served c k a) : a.rangeEnd < sizeModulus :=
  h.rangeEnd_le.trans_lt (by norm_num [maxFileSize, sizeModulus])

/-- It keeps to its range. -/
lemma inRange_move (h : w.Served c k a) (hm : WorkerMove lock task i k w k' w') : w'.InRange a :=
  h.inRange.move h.rangeEnd_lt h.provides.key_pos.ne' (h.toRegular hm)

end Worker.Served

/-- A regular move does not make a block longer or shorter. -/
lemma RegularMove.length_mem {lock : Mutex} {task i : ℕ} {a : WorkerArgs} {k k' : Kernel}
    {w w' : Worker} (h : RegularMove lock task i a k w k' w') (b : Block) :
    (k'.mem b).length = (k.mem b).length := by
  cases h with
  | xor => exact k.length_storeByte _ _ _ b
  | _ => rfl

/-! ## The invariant -/

/-- In its loops the call has filled its buffers, and its workers have the chunks of the data and
have not been killed. -/
structure Equipped (c : Call) (q : Prepared) (s : State) : Prop where
  numThreads_pos : 0 < c.args.numThreads.toInt
  loaded : q.Loaded c s.kernel
  dealt : Dealt c q s
  ne_oops : ∀ w ∈ s.workers, w.pc ≠ .oops

/-- The workers of the call find their memory, and they have exited when it is freed. -/
def State.Safe (c : Call) (s : State) : Prop :=
  match s.caller with
  | .entry p => p.Relies c.exec c.Undisturbed c.OutcomeIn s.kernel
  | .segment q => q.Loaded c s.kernel
  | .create q _ _ _ => Equipped c q s
  | .stop q i | .wait q i => Equipped c q s ∧ ExitedBelow s.workers i
  | .save _ _ | .cleanup _ _ | .returned _ | .oops => ∀ w ∈ s.workers, ∃ r, w.pc = .exited r

section Safe

variable {d : Syscall} {c : Call} {q : Prepared} {s s' : State} {a : Act} {k : Kernel}

/-- The array of worker arguments is a block of the call. -/
lemma Prepared.Sound.workerArgs_block (h : q.Sound c) (hn : 0 < c.args.numThreads.toInt) :
    q.workerArgs = .block (c.blockAt .workerArgs) :=
  h.workerArgs_eq.trans (Call.Ready.arrayPtr_workerArgs ⟨h.arrays, hn⟩)

/-- The data is shorter than the modulus of `size_t`. -/
lemma Prepared.Sound.dataLen_lt (h : q.Sound c) : q.dataLen < sizeModulus :=
  h.dataLen_le.trans_lt (by norm_num [maxFileSize, sizeModulus])

namespace Equipped

/-- The workers are served. -/
lemma served (h : Equipped c q s) (hq : q.Sound c) (hloops : s.caller.Loops) {i : ℕ} {w : Worker}
    (hw : s.workers[i]? = some w) : w.Served c s.kernel (q.chunkArgs c.threads i) := by
  have hi := (List.getElem?_eq_some_iff.mp hw).1
  have hle : chunkEnd q.dataLen c.threads i ≤ q.dataLen := chunkEnd_le (h.dealt.lt_threads hw)
  have hparams := h.dealt.params i w hw
  have hargs := h.dealt.argsAt_of_loops hloops hi
  rw [State.argsAt, hw, Option.bind_some] at hargs
  refine ⟨⟨hargs, ?_, ?_, hq.keyLen_pos⟩, ?_, ?_, hq.fileData_eq, hq.keyData_eq,
    hle.trans hq.dataLen_le⟩
  · simp only [Prepared.chunkArgs, hq.fileData_eq]
    exact hle.trans h.loaded.data
  · simp only [Prepared.chunkArgs, hq.keyData_eq]
    exact h.loaded.key
  · refine (h.dealt.range i w hw ?_).resolve_left (h.ne_oops w (List.mem_of_getElem? hw))
    rw [← hparams, hargs]
    exact Option.some_ne_none _
  · rw [hparams]
    exact hq.workerArgs_block h.numThreads_pos

/-- Others do not disturb the call. -/
lemma of_undisturbed (h : Equipped c q s) (hq : q.Sound c) (hk : c.Undisturbed s.kernel k) :
    Equipped c q { s with kernel := k } := by
  have hsame : ∀ i, k.loadArgs (q.argsPtr i) = s.kernel.loadArgs (q.argsPtr i) := fun i => by
    simp only [Kernel.loadArgs, Prepared.argsPtr, hq.workerArgs_block h.numThreads_pos]
    rw [hk.args (c.blockAt .workerArgs) rfl]
  exact ⟨h.numThreads_pos, h.loaded.of_undisturbed hk,
    h.dealt.of_caller h.dealt.caller (fun i => Or.inl (hsame i)) fun hl => ⟨hl, hsame⟩, h.ne_oops⟩

/-- A move that keeps the buffers and kills no worker. -/
lemma step (h : Equipped c q s) (hq : q.Sound c) (hm : Move d c s a s')
    (hmem : ∀ b, (s'.kernel.mem b).length = (s.kernel.mem b).length)
    (hoops : ∀ w ∈ s'.workers, w.pc ≠ .oops) : Equipped c q s' where
  numThreads_pos := h.numThreads_pos
  loaded := ⟨h.loaded.data.trans_eq (hmem _).symm, h.loaded.key.trans_eq (hmem _).symm⟩
  dealt := h.dealt.step h.numThreads_pos hq.dataLen_lt hq.keyLen_pos
    (hq.workerArgs_block h.numThreads_pos) hm
  ne_oops := hoops

/-- A worker moves. -/
lemma move (h : Equipped c q s) (hq : q.Sound c) (hloops : s.caller.Loops) {i : ℕ} {w w' : Worker}
    {k' : Kernel} (hw : s.workers[i]? = some w)
    (hm : WorkerMove d.lock c.task i s.kernel w k' w') :
    Equipped c q { s with kernel := k', workers := s.workers.set i w' } := by
  have hserved := h.served hq hloops hw
  refine h.step (d := d) (a := .worker i) hq (.worker rfl hw hm)
    (hserved.toRegular hm).length_mem fun v hv => ?_
  rcases List.mem_or_eq_of_mem_set hv with hv | rfl
  · exact h.ne_oops v hv
  · intro hpc
    have hok := (hserved.inRange_move hm).pc_ok
    simp only [Worker.PcOk, hpc] at hok

end Equipped

namespace State.Safe

/-- The invariant holds at the entry. -/
lemma start (d : Syscall) (c : Call) (k : Kernel) : (State.start d c k).Safe c := by
  rw [State.start, d.prepares_eq]
  exact prepare_relies d c k

/-- Others do not disturb the call. -/
lemma of_undisturbed (h : s.Safe c) (hsound : s.Sound c) (hk : c.Undisturbed s.kernel k) :
    ({ s with kernel := k } : State).Safe c := by
  have hcaller := hsound.caller
  obtain ⟨kernel, caller, workers⟩ := s
  cases caller with
  | entry p => exact Program.Relies.of_rel h hk
  | segment q => exact Prepared.Loaded.of_undisturbed h hk
  | create q seg i off => exact Equipped.of_undisturbed h hcaller hk
  | stop q i | wait q i => exact ⟨h.1.of_undisturbed hcaller hk, h.2⟩
  | save | cleanup | returned | oops => exact h

/-- Every worker has exited or is served. -/
theorem served (h : s.Safe c) (hsound : s.Sound c) {i : ℕ} {w : Worker}
    (hw : s.workers[i]? = some w) :
    (∃ r, w.pc = .exited r) ∨ ∃ a, w.Served c s.kernel a := by
  have hcaller := hsound.caller
  have hcounts := hsound.counts
  obtain ⟨kernel, caller, workers⟩ := s
  cases caller with
  | entry p | segment q =>
    obtain rfl := List.length_eq_zero_iff.mp hcounts
    cases hw
  | create q seg j off => exact Or.inr ⟨_, Equipped.served h hcaller trivial hw⟩
  | stop q j | wait q j => exact Or.inr ⟨_, h.1.served hcaller trivial hw⟩
  | save | cleanup | returned | oops => exact Or.inl (h w (List.mem_of_getElem? hw))

/-- No worker is killed. -/
lemma ne_oops (h : s.Safe c) (hsound : s.Sound c) {i : ℕ} {w : Worker}
    (hw : s.workers[i]? = some w) : w.pc ≠ .oops := by
  rcases h.served hsound hw with ⟨r, hr⟩ | ⟨a, hserved⟩
  · simp [hr]
  · exact hserved.ne_oops

/-- A worker that moves is served. -/
lemma served_of_move (h : s.Safe c) (hsound : s.Sound c) {lock : Mutex} {task i : ℕ}
    {w w' : Worker} {k' : Kernel} (hw : s.workers[i]? = some w)
    (hm : WorkerMove lock task i s.kernel w k' w') : ∃ a, w.Served c s.kernel a := by
  rcases h.served hsound hw with ⟨r, hr⟩ | hserved
  · exact absurd hr (hm.not_exited r)
  · exact hserved

/-- The move of a worker keeps the invariant. -/
lemma move (h : s.Safe c) (hsound : s.Sound c) {i : ℕ} {w w' : Worker} {k' : Kernel}
    (hw : s.workers[i]? = some w) (hm : WorkerMove d.lock c.task i s.kernel w k' w') :
    ({ s with kernel := k', workers := s.workers.set i w' } : State).Safe c := by
  have hcaller := hsound.caller
  have hcounts := hsound.counts
  obtain ⟨kernel, caller, workers⟩ := s
  cases caller with
  | entry p | segment q =>
    obtain rfl := List.length_eq_zero_iff.mp hcounts
    cases hw
  | create q seg j off => exact Equipped.move h hcaller trivial hw hm
  | stop q j | wait q j => exact ⟨h.1.move hcaller trivial hw hm, h.2.move hw hm⟩
  | save | cleanup | returned | oops =>
    obtain ⟨r, hr⟩ := h w (List.mem_of_getElem? hw)
    exact absurd hr (hm.not_exited r)

/-- A creation that fails is the first one, so there are no workers yet. -/
lemma workers_eq_nil (hsound : s.Sound c) (hkeeps : c.KeepsWorkers) {i : ℕ}
    (hlt : (i : ℤ) < c.args.numThreads.toInt) {e : Errno}
    (hrun : c.env.threadError i = some e) : s.workers = [] := by
  by_contra hne
  have hfirst := hsound.created 0 (List.length_pos_iff.mpr hne)
  rw [hkeeps hfirst i (Call.natCast_lt_numThreads.mp hlt)] at hrun
  cases hrun

/-- Every step of a call that leaves no worker behind keeps the invariant. -/
theorem step (h : s.Safe c) (hsound : s.Sound c) (hkeeps : c.KeepsWorkers)
    (hstep : d.step c s a = some s') : s'.Safe c := by
  have hcaller := hsound.caller
  have hcounts := hsound.counts
  have hmove := Syscall.move_of_step hstep
  have hsafe := h
  unfold State.Safe at h
  cases hmove with
  | worker ha hw hm => exact hsafe.move hsound hw hm
  | entryCall hpc =>
    rw [hpc] at h
    exact h.perform
  | entryError hpc | divideError hpc =>
    rw [hpc] at hcounts
    simp [State.Safe, List.length_eq_zero_iff.mp hcounts]
  | entryDone hpc =>
    rw [hpc] at h
    exact h s.kernel (refl_of c.Undisturbed s.kernel) _ rfl
  | @divide q hpc hn =>
    rw [hpc] at h hcaller hcounts
    have hnil := List.length_eq_zero_iff.mp hcounts
    have hpos := Call.numThreads_pos hcaller.arrays hn
    have hs : s = ⟨s.kernel, .segment q, []⟩ := by
      rw [← hpc, ← hnil]
    have hdealt : Dealt c q s := hs ▸ Dealt.start c q s.kernel
    refine Equipped.step (d := d) ⟨hpos, h, hdealt, ?_⟩ hcaller (.divide hpc hn) (fun _ => rfl) ?_
    all_goals simp [hnil]
  | create hpc hlt hrun =>
    rw [hpc] at h hcaller
    refine h.step (d := d) hcaller (.create hpc hlt hrun) (fun _ => rfl) fun w hw => ?_
    rcases List.mem_append.mp hw with hw | hw
    · exact h.ne_oops w hw
    · rw [List.mem_singleton.mp hw]
      exact fun hpc' => by cases hpc'
  | createError hpc hlt hrun =>
    simp [State.Safe, workers_eq_nil hsound hkeeps hlt hrun]
  | createDone hpc hge =>
    rw [hpc] at h hcaller
    exact ⟨h.step (d := d) hcaller (.createDone hpc hge) (fun _ => rfl) h.ne_oops,
      fun i w _ hi => absurd hi (Nat.not_lt_zero i)⟩
  | stop hpc hlt =>
    rw [hpc] at h hcaller
    exact ⟨h.1.step (d := d) hcaller (.stop hpc hlt) (fun _ => rfl)
      (forall_mem_modify h.1.ne_oops fun _ hw => hw), h.2.stop⟩
  | stopDone hpc hge =>
    rw [hpc] at h hcounts
    intro w hw
    obtain ⟨j, hj⟩ := List.mem_iff_getElem?.mp hw
    refine h.2 j w hj ?_
    have hlt := (List.getElem?_eq_some_iff.mp hj).1
    have hle := Call.numThreads_le_natCast.mp hge
    exact (hlt.trans_eq hcounts).trans_le hle
  | wait hpc hw hexit =>
    rw [hpc] at h hcaller
    exact ⟨h.1.step (d := d) hcaller (.wait hpc hw hexit) (fun _ => rfl) h.1.ne_oops,
      h.2.wait hw hexit⟩
  | saveCall hpc | saveDone hpc | free hpc | finish hpc =>
    rw [hpc] at h
    exact h

end State.Safe

/-! ## What a step changes -/

/-- A step of a call touches no file but its output. -/
lemma Syscall.fs_of_step (hsound : s.Sound c) (hstep : d.step c s a = some s') {p : Path}
    (hp : c.destPath ≠ some p) : s'.kernel.fs p = s.kernel.fs p := by
  have hcaller := hsound.caller
  cases move_of_step hstep with
  | entryCall hpc =>
    rw [hpc] at hcaller
    exact (Call.exec_changes hcaller.1 _).fs p hp
  | saveCall hpc =>
    rw [hpc] at hcaller
    exact (Call.exec_changes hcaller.2.1 _).fs p hp
  | free => rw [Kernel.kfree_fs]
  | worker ha hw hmove => exact congrFun hmove.fs_eq p
  | _ => rfl

/-- A step of a call changes nothing but its output file and its memory. -/
theorem Syscall.changes_of_step (hsafe : s.Safe c) (hsound : s.Sound c)
    (hstep : d.step c s a = some s') : c.Changes s.kernel s'.kernel := by
  have hcaller := hsound.caller
  cases move_of_step hstep with
  | entryCall hpc =>
    rw [hpc] at hcaller
    exact Call.exec_changes hcaller.1 _
  | saveCall hpc =>
    rw [hpc] at hcaller
    exact Call.exec_changes hcaller.2.1 _
  | create hpc | createError hpc =>
    rw [hpc] at hcaller
    have howns : c.Owns _ := hcaller.workerArgs_eq ▸ Call.owns_arrayPtr _ _
    exact (Call.Changes.storeArgs (p := Prepared.argsPtr _ _) howns _).trans (.of_core rfl)
  | wait => exact Call.Changes.of_core rfl
  | free hpc =>
    rw [hpc] at hcaller
    exact Call.Changes.kfree (hcaller _ (List.mem_cons_self ..))
  | worker ha hw hmove =>
    obtain ⟨args, hserved⟩ := hsafe.served_of_move hsound hw hmove
    cases hserved.toRegular hmove with
    | xor => exact Call.Changes.storeByte (hserved.inputData_eq ▸ Call.owns_blockAt _) _ _
    | _ => exact ⟨fun _ _ => rfl, fun _ _ => rfl, fun _ _ => rfl⟩
  | _ => exact Call.Changes.refl _

end Safe

end XorSyscalls
