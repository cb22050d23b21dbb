import XorSyscalls.Concurrent.Exclusion

/-!
# Isolation of concurrent calls

A call looks at the files at its three paths, at its own memory and at its mutex, and as long as no
call leaves a worker behind it changes nothing but its output file and its own memory.  So if no
call writes a file that another one uses, a call cannot tell from the kernel state whether it runs
alone: `Call.Sees` relates the kernel state of a run of the call alone to the shared one, and
`Calls.solo_of_run` extracts from every run of concurrent calls a run of each call alone with the
same program points and the same workers.

Two such runs, one after the other, make a run of both calls in which the first one is complete
before the second one starts.  `Calls.serializable` says that it leaves the same files and the same
return values as the interleaved run.
-/

namespace XorSyscalls

open TransitionSystem

/-! ## What a call looks at -/

namespace Call

variable (c : Call)

/-- The paths of the files that the call works on. -/
def Uses (p : Path) : Prop := c.srcPath = some p ∨ c.keyPath = some p ∨ c.destPath = some p

/-- The call cannot tell `k` from `k'`, where other tasks may also hold the mutex in `k'`. -/
structure Sees (lock : Mutex) (k k' : Kernel) : Prop where
  fs : ∀ p, c.Uses p → k.fs p = k'.fs p
  mem : ∀ b : Block, b.task = c.task → k.mem b = k'.mem b
  args : ∀ b : Block, b.task = c.task → k.args b = k'.args b
  holder : k.holder lock = (k'.holder lock).filter fun x => x.1 = c.task

variable {c} {lock : Mutex} {k k' k'' k₁ k₁' : Kernel}

/-- A path copied from user memory is one of those the call works on. -/
lemma uses_pathAt {site : Site} {filename : List UInt8} (h : c.Copied site filename) :
    c.Uses (c.pathAt site filename) := by
  cases site with
  | data => exact Or.inl (congrArg _ h)
  | key => exact Or.inr (Or.inl (congrArg _ h))
  | out => exact Or.inr (Or.inr (congrArg _ h))
  | workers | workerArgs => exact h.elim

/-- So is the path of an open file. -/
lemma Opens.uses {file : OpenFile} (h : c.Opens file) : c.Uses file.path := by
  obtain ⟨filename, hcopied, hfile⟩ := h
  rw [hfile]
  exact uses_pathAt hcopied

namespace Sees

lemma of_core (h : c.Sees lock k k') (hk : k₁.core = k.core) (hk' : k₁'.core = k'.core) :
    c.Sees lock k₁ k₁' := by
  simp only [Kernel.core, Prod.mk.injEq] at hk hk'
  obtain ⟨hfs, hmem, hargs, hholder⟩ := hk
  obtain ⟨hfs', hmem', hargs', hholder'⟩ := hk'
  refine ⟨?_, ?_, ?_, ?_⟩
  · rw [hfs, hfs']
    exact h.fs
  · rw [hmem, hmem']
    exact h.mem
  · rw [hargs, hargs']
    exact h.args
  · rw [hholder, hholder']
    exact h.holder

lemma setFile (h : c.Sees lock k k') (p : Path) (f : File) :
    c.Sees lock (k.setFile p f) (k'.setFile p f) := by
  refine ⟨fun p' hp' => ?_, h.mem, h.args, h.holder⟩
  simp only [Kernel.setFile, Function.update_apply, h.fs p' hp']

lemma setMem (h : c.Sees lock k k') (b : Block) (x : List UInt8) :
    c.Sees lock (k.setMem b x) (k'.setMem b x) := by
  refine ⟨h.fs, fun b' hb' => ?_, h.args, h.holder⟩
  simp only [Kernel.setMem, Function.update_apply, h.mem b' hb']

lemma clear (h : c.Sees lock k k') (b : Block) : c.Sees lock (k.clear b) (k'.clear b) := by
  refine ⟨h.fs, fun b' hb' => ?_, fun b' hb' => ?_, h.holder⟩
  · simp only [Kernel.clear, Function.update_apply, h.mem b' hb']
  · simp only [Kernel.clear, Function.update_apply, h.args b' hb']

lemma withBlock (h : c.Sees lock k k') (b : Block) (x : List UInt8) :
    c.Sees lock (k.withBlock b x) (k'.withBlock b x) :=
  ⟨h.fs, (h.setMem b x).mem, (h.clear b).args, h.holder⟩

lemma kfree (h : c.Sees lock k k') (p : Ptr) : c.Sees lock (k.kfree p) (k'.kfree p) := by
  cases p with
  | null | zeroSize => exact h
  | block b => exact (h.clear b).of_core (k.core_kfree_block b) (k'.core_kfree_block b)

lemma storeArgs (h : c.Sees lock k k') (p : ArgsPtr) (a : WorkerArgs) :
    c.Sees lock (k.storeArgs p a) (k'.storeArgs p a) := by
  refine ⟨h.fs, h.mem, fun b hb => ?_, h.holder⟩
  simp only [Kernel.storeArgs, h.args b hb]

lemma loadArgs (h : c.Sees lock k k') {p : ArgsPtr} (hp : c.Owns p.array) :
    k.loadArgs p = k'.loadArgs p := by
  obtain ⟨array, elem⟩ := p
  cases array with
  | null | zeroSize => rfl
  | block b => exact congrFun (h.args b (hp b rfl)) elem

lemma contents (h : c.Sees lock k k') {p : Path} (hp : c.Uses p) :
    k.contents p = k'.contents p := by
  unfold Kernel.contents
  rw [h.fs p hp]

lemma bytesAt (h : c.Sees lock k k') {p : Ptr} (hp : c.Owns p) : k.bytesAt p = k'.bytesAt p := by
  cases p with
  | null | zeroSize => rfl
  | block b => exact h.mem b (hp b rfl)

lemma fill (h : c.Sees lock k k') {p : Ptr} (hp : c.Owns p) (x : List UInt8) :
    c.Sees lock (k.fill p x) (k'.fill p x) := by
  unfold Kernel.fill
  cases p with
  | null | zeroSize => exact h
  | block b =>
    dsimp only
    rw [h.mem b (hp b rfl)]
    exact h.setMem b _

lemma storeByte (h : c.Sees lock k k') {p : Ptr} (hp : c.Owns p) (idx : ℕ) (v : UInt8) :
    c.Sees lock (k.storeByte p idx v) (k'.storeByte p idx v) := by
  unfold Kernel.storeByte
  cases p with
  | null | zeroSize => exact h
  | block b =>
    dsimp only
    rw [h.mem b (hp b rfl)]
    exact h.setMem b _

/-- The changes of another call do not matter. -/
lemma of_changes (h : c.Sees lock k k') {c' : Call} (hchanges : c'.Changes k' k'')
    (htask : c.task ≠ c'.task) (hdest : ∀ p, c'.destPath = some p → ¬ c.Uses p)
    (hholder : (k''.holder lock).filter (fun x => x.1 = c.task) =
      (k'.holder lock).filter fun x => x.1 = c.task) : c.Sees lock k k'' := by
  have hundisturbed := hchanges.undisturbed htask
  refine ⟨fun p hp => ?_, fun b hb => ?_, fun b hb => ?_, ?_⟩
  · rw [hchanges.fs p fun hp' => hdest p hp' hp]
    exact h.fs p hp
  · rw [hundisturbed.mem b hb]
    exact h.mem b hb
  · rw [hundisturbed.args b hb]
    exact h.args b hb
  · rw [hholder]
    exact h.holder

end Sees

/-- The operations of a call have the same answers and the same effects, alone or not. -/
lemma exec_sees {op : Op} (hop : c.Allowed op) (h : c.Sees lock k k') :
    (c.exec op k).1 = (c.exec op k').1 ∧ c.Sees lock (c.exec op k).2 (c.exec op k').2 := by
  cases op with
  | copyFromUser => exact ⟨rfl, h⟩
  | printk e => exact ⟨rfl, h.of_core rfl rfl⟩
  | filpClose file => exact ⟨rfl, h.of_core (k.core_filpClose file) (k'.core_filpClose file)⟩
  | kfree p => exact ⟨rfl, h.kfree p⟩
  | filpOpen site filename mode =>
    simp only [exec, filpOpen]
    rw [h.fs _ (uses_pathAt hop.1)]
    split
    · exact ⟨rfl, h⟩
    · split
      · exact ⟨rfl, h.of_core rfl rfl⟩
      · exact ⟨rfl, h⟩
      · exact ⟨rfl, (h.setFile _ _).of_core rfl rfl⟩
  | iSizeRead file => exact ⟨congrArg List.length (h.contents hop.uses), h⟩
  | kmalloc site size =>
    simp only [exec, kmalloc]
    split
    · exact ⟨rfl, h⟩
    · split
      · exact ⟨rfl, h.withBlock _ _⟩
      · exact ⟨rfl, h⟩
  | kernelRead file buf count =>
    simp only [exec, kernelRead]
    rw [h.contents hop.1.uses]
    split
    · exact ⟨rfl, h⟩
    · exact ⟨rfl, h.fill hop.2 _⟩
  | kernelWrite file buf count =>
    simp only [exec, kernelWrite]
    rw [h.bytesAt hop.2.2, h.fs _ hop.1.uses]
    split
    · exact ⟨rfl, h⟩
    · split
      · exact ⟨rfl, h⟩
      · exact ⟨rfl, h.setFile _ _⟩
  | storeByte buf idx v => exact ⟨rfl, h.storeByte hop idx v⟩

end Call

/-! ## Steps -/

section Step

variable {d : Syscall} {c : Call} {k : Kernel} {s s' : State} {a : Act}

/-- A worker that is served moves alone as it does with others around. -/
lemma workerStep_of_sees {lock : Mutex} {i : ℕ} {x : Chance} {args : WorkerArgs} {k' k₁' : Kernel}
    {w w' : Worker} (hw : w.Served c k' args) (hsees : c.Sees lock k k')
    (hstep : workerStep lock c.task i x k' w = some (k₁', w')) :
    ∃ k₁, workerStep lock c.task i x k w = some (k₁, w') ∧ c.Sees lock k₁ k₁' := by
  have hload' := hw.provides.args
  have hload : k.loadArgs w.params = some args := by
    rw [hsees.loadArgs (hw.params_eq ▸ Call.owns_blockAt _), hload']
  have hdata : c.Owns args.inputData := hw.inputData_eq ▸ Call.owns_blockAt _
  have hkey : c.Owns args.cipherKey := hw.cipherKey_eq ▸ Call.owns_blockAt _
  have hmiss := hw.provides.not_missing hw.inRange
  unfold workerStep at hstep ⊢
  cases hpc : w.pc <;> simp only [hpc, Kernel.findArgs_of_load hload',
    Kernel.findArgs_of_load hload, Option.bind_eq_bind, Option.bind_some] at hstep ⊢
  case locking =>
    obtain ⟨⟨r, k₂⟩, hlock, hstep⟩ := Option.bind_eq_some_iff.mp hstep
    unfold Kernel.mutexLockInterruptible at hlock ⊢
    split at hlock <;> split at hlock <;> rename_i hguard <;> cases hlock
    · cases hstep
      exact ⟨k, by simp [hguard, Errno.ret_ne_zero], hsees⟩
    · cases hstep
      have hfree : k.holder lock = none := by rw [hsees.holder, hguard]; rfl
      refine ⟨k.setHolder lock (some (c.task, i)), by simp [hfree], hsees.fs, hsees.mem, hsees.args,
        ?_⟩
      simp [Kernel.setHolder, Option.filter]
  case xoring =>
    -- the bytes are there, and the same ones alone
    have hpos := hw.provides.key_pos.ne'
    obtain ⟨⟨u, hu'⟩, v, hv'⟩ := Kernel.exists_bytes hpc hload' hpos hmiss
    have hu : k.byteAt args.inputData w.idx = some u := by
      rw [Kernel.byteAt, hsees.bytesAt hdata]
      exact hu'
    have hv : k.byteAt args.cipherKey (w.idx % args.keyLength) = some v := by
      rw [Kernel.byteAt, hsees.bytesAt hkey]
      exact hv'
    rw [if_neg hpos, Kernel.xorByte_of_bytes hu' hv'] at hstep
    rw [if_neg hpos, Kernel.xorByte_of_bytes hu hv]
    cases hstep
    exact ⟨_, rfl, hsees.storeByte hdata _ _⟩
  case unlocking r =>
    cases hstep
    refine ⟨_, rfl, hsees.fs, hsees.mem, hsees.args, ?_⟩
    simp [Kernel.mutexUnlock, Kernel.setHolder]
  all_goals
    repeat' split at hstep
    all_goals cases hstep
    all_goals exact ⟨k, by simp_all, hsees⟩

/-- A call takes the same step alone as with others around. -/
lemma Syscall.step_of_sees (hsafe : s.Safe c) (hsound : s.Sound c)
    (hsees : c.Sees d.lock k s.kernel) (hstep : d.step c s a = some s') :
    ∃ k₁, d.step c { s with kernel := k } a = some { s' with kernel := k₁ } ∧
      c.Sees d.lock k₁ s'.kernel := by
  have hcaller := hsound.caller
  cases a with
  | worker i x =>
    obtain ⟨w, k', w', hw, hf, rfl⟩ := exists_of_moveWorker hstep
    rw [d.worker_eq] at hf
    obtain ⟨args, hserved⟩ := hsafe.served_of_move hsound hw (workerMove_of_workerStep hf)
    obtain ⟨k₁, hk₁, hsees₁⟩ := workerStep_of_sees hserved hsees hf
    exact ⟨k₁, by simp only [step, State.moveWorker, hw, d.worker_eq, hk₁, Option.map_some], hsees₁⟩
  | fault i =>
    obtain ⟨w, k', w', hw, hf, rfl⟩ := exists_of_moveWorker hstep
    have hm : WorkerMove d.lock c.task i s.kernel w k' w' := workerMove_of_faultStep hf
    obtain ⟨args, hserved⟩ := hsafe.served_of_move hsound hw hm
    rw [Kernel.faultStep, if_neg (hserved.provides.not_missing hserved.inRange)] at hf
    cases hf
  | caller =>
    have hmove := move_of_step hstep
    rw [Syscall.step, d.body_eq]
    cases hmove with
    | @entryCall op next hpc =>
      rw [hpc] at hcaller
      obtain ⟨hanswer, hsees₁⟩ := Call.exec_sees hcaller.1 hsees
      rw [← hanswer]
      exact ⟨_, (Move.entryCall (s := { s with kernel := k }) hpc).callerStep_eq, hsees₁⟩
    | @saveCall q op next hpc =>
      rw [hpc] at hcaller
      obtain ⟨hanswer, hsees₁⟩ := Call.exec_sees hcaller.2.1 hsees
      rw [← hanswer]
      exact ⟨_, (Move.saveCall (s := { s with kernel := k }) hpc).callerStep_eq, hsees₁⟩
    | entryError hpc | entryDone hpc | saveDone hpc | finish hpc =>
      exact ⟨k, by simp only [callerStep, hpc], hsees⟩
    | divideError hpc hn | divide hpc hn =>
      exact ⟨k, by simp only [callerStep, hpc, hn, if_true, if_false], hsees⟩
    | create hpc hlt hrun =>
      exact ⟨_, (Move.create (s := { s with kernel := k }) hpc hlt hrun).callerStep_eq,
        hsees.storeArgs _ _⟩
    | createError hpc hlt hrun =>
      exact ⟨_, (Move.createError (s := { s with kernel := k }) hpc hlt hrun).callerStep_eq,
        (hsees.storeArgs _ _).of_core rfl rfl⟩
    | createDone hpc hge | stopDone hpc hge =>
      exact ⟨k, by simp only [callerStep, hpc, not_lt.mpr hge, if_false], hsees⟩
    | stop hpc hlt => exact ⟨k, by simp only [callerStep, hpc, hlt, if_true], hsees⟩
    | wait hpc hw hexit =>
      exact ⟨_, (Move.wait (s := { s with kernel := k }) hpc hw hexit).callerStep_eq,
        hsees.of_core rfl rfl⟩
    | free hpc =>
      exact ⟨_, (Move.free (s := { s with kernel := k }) hpc).callerStep_eq, hsees.kfree _⟩
    | worker ha => cases ha

/-- A call runs from another kernel state as it does from one that it cannot tell from it. -/
lemma Syscall.run_of_sees {acts : List Act} (hrun : run (d.step c) s acts = some s')
    (hsafe : s.Safe c) (hsound : s.Sound c) (hkeeps : c.KeepsWorkers)
    (hsees : c.Sees d.lock k s.kernel) :
    ∃ k₁, run (d.step c) { s with kernel := k } acts = some { s' with kernel := k₁ } ∧
      c.Sees d.lock k₁ s'.kernel := by
  induction acts generalizing s k with
  | nil =>
    rw [run_nil, Option.some_inj] at hrun
    subst hrun
    exact ⟨k, rfl, hsees⟩
  | cons a acts ih =>
    obtain ⟨t, ht, hrun⟩ := Option.bind_eq_some_iff.mp hrun
    obtain ⟨k₁, hstep, hsees₁⟩ := step_of_sees hsafe hsound hsees ht
    rw [run_cons, hstep]
    exact ih hrun (hsafe.step hsound hkeeps ht) (hsound.step ht) hsees₁

/-- A run of a call alone changes nothing but its output file and its memory. -/
lemma Syscall.changes_of_run {acts : List Act} (hrun : run (d.step c) s acts = some s')
    (hsafe : s.Safe c) (hsound : s.Sound c) (hkeeps : c.KeepsWorkers) :
    c.Changes s.kernel s'.kernel := by
  have hall : s'.Safe c ∧ s'.Sound c ∧ c.Changes s.kernel s'.kernel := by
    refine run_invariant (I := fun t => t.Safe c ∧ t.Sound c ∧ c.Changes s.kernel t.kernel)
      ⟨hsafe, hsound, Call.Changes.refl _⟩ ?_ hrun
    rintro t a t' ⟨hsafe, hsound, hchanges⟩ hstep
    exact ⟨hsafe.step hsound hkeeps hstep, hsound.step hstep,
      hchanges.trans (changes_of_step hsafe hsound hstep)⟩
  exact hall.2.2

end Step

/-- Other tasks do not change whether a task holds a mutex. -/
lemma LockEffect.filter_holder {lock m : Mutex} {task task' : ℕ} {s s' : State}
    (h : LockEffect lock task' s s') (htask : task ≠ task')
    (hholder : ∀ i, CriticalAt s.workers i → s.kernel.holder lock = some (task', i)) :
    (s'.kernel.holder m).filter (fun x => x.1 = task) =
      (s.kernel.holder m).filter fun x => x.1 = task := by
  cases h with
  | none hsame => rw [hsame]
  | enter i hfree hset =>
    rw [hset]
    rcases eq_or_ne m lock with rfl | hm
    · simp [hfree, Option.filter, htask.symm]
    · rw [Function.update_of_ne hm]
  | leave i hin hset =>
    rw [hset]
    rcases eq_or_ne m lock with rfl | hm
    · simp [hholder i hin, Option.filter, htask.symm]
    · rw [Function.update_of_ne hm]

/-! ## Every call runs as if it were alone -/

/-- The kernel state with free mutexes. -/
def Kernel.unlocked (k : Kernel) : Kernel := { k with holder := fun _ => none }

/-- Free mutexes are as they are. -/
lemma Kernel.unlocked_of_free {k : Kernel} (h : ∀ m, k.holder m = none) : k.unlocked = k := by
  rw [Kernel.unlocked, ← funext h]

/-- A call that is over: it has returned and its workers have exited. -/
def Process.Done (p : Process) : Prop :=
  (∃ r, p.caller = .returned r) ∧ ∀ w ∈ p.workers, ∃ r, w.pc = .exited r

/-- A call that is over takes no step. -/
lemma Process.Done.step_eq_none {p : Process} (h : p.Done) (d : Syscall) (c : Call) (S : System)
    (a : Act) : d.step c (S.view p) a = none := by
  rw [Option.eq_none_iff_forall_ne_some]
  intro s' hs'
  obtain ⟨⟨r, hr⟩, hws⟩ := h
  have hcaller : (S.view p).caller = .returned r := hr
  cases Syscall.move_of_step hs' with
  | worker _ hw hmove =>
    obtain ⟨r', hr'⟩ := hws _ (List.mem_of_getElem? hw)
    exact hmove.not_exited r' hr'
  | _ => simp_all

namespace Calls

variable {cs : Calls} {k : Kernel} {acts : List (ℕ × Act)} {S : System}

/-- No call writes to a file that another call works on. -/
def Apart (cs : Calls) : Prop :=
  ∀ (i j : ℕ) x y, cs.list[i]? = some x → cs.list[j]? = some y → i ≠ j →
    ∀ p, x.2.destPath = some p → ¬ y.2.Uses p

/-- The actions of call `j` in a schedule. -/
def actsOf (j : ℕ) (acts : List (ℕ × Act)) : List Act :=
  acts.filterMap fun a => if a.1 = j then some a.2 else none

lemma actsOf_concat_self (j : ℕ) (acts : List (ℕ × Act)) (a : Act) :
    actsOf j (acts ++ [(j, a)]) = actsOf j acts ++ [a] := by
  simp [actsOf]

lemma actsOf_concat_of_ne {i j : ℕ} (h : i ≠ j) (acts : List (ℕ × Act)) (a : Act) :
    actsOf j (acts ++ [(i, a)]) = actsOf j acts := by
  simp [actsOf, h]

/-- A call that is over stays as it is. -/
lemma getElem?_of_done {S₀ : System} (hrun : run cs.step S₀ acts = some S) {i : ℕ} {p : Process}
    (hp : S₀.procs[i]? = some p) (hdone : p.Done) : S.procs[i]? = some p := by
  refine run_invariant (I := fun S : System => S.procs[i]? = some p) hp ?_ hrun
  rintro S ⟨j, a⟩ S' hS hstep
  obtain ⟨d, c, p', s', hcall, hproc, hs', rfl⟩ := step_eq_some_iff.mp hstep
  rcases eq_or_ne j i with rfl | hne
  · cases hS.symm.trans hproc
    rw [hdone.step_eq_none] at hs'
    cases hs'
  · rw [System.put, List.getElem?_set_ne hne, hS]

/-- From every run on from the state `S₀`, a call that is at its entry there can be extracted as a
run of the call alone, if no call that is still going on then writes to one of its files. -/
theorem solo_from {S₀ : System} {acts₀ : List (ℕ × Act)} (hkeep : cs.KeepWorkers)
    (hfree : ∀ m, k.holder m = none)
    (hS₀ : cs.Run k acts₀ S₀) {j : ℕ} {d : Syscall} {c : Call}
    (hcall : cs.list[j]? = some (d, c))
    (hentry : S₀.procs[j]? = some ⟨.entry (d.prepares c.args), []⟩)
    (hown : ∀ (i : ℕ) x, cs.list[i]? = some x → i ≠ j →
      (∃ p, S₀.procs[i]? = some p ∧ p.Done) ∨ ∀ p, x.2.destPath = some p → ¬ c.Uses p)
    (hrun : run cs.step S₀ acts = some S) {p : Process} (hproc : S.procs[j]? = some p) :
    ∃ k₁, d.Run c S₀.kernel.unlocked (actsOf j acts) ⟨k₁, p.caller, p.workers⟩ ∧
      c.Sees d.lock k₁ S.kernel := by
  refine run_induction (motive := fun acts S => ∀ {p : Process}, S.procs[j]? = some p →
      ∃ k₁, d.Run c S₀.kernel.unlocked (actsOf j acts) ⟨k₁, p.caller, p.workers⟩ ∧
        c.Sees d.lock k₁ S.kernel) ?_ (fun acts S a S' hS ih hstep => ?_) hrun hproc
  · intro p hproc
    cases hentry.symm.trans hproc
    refine ⟨S₀.kernel.unlocked, rfl, fun _ _ => rfl, fun _ _ => rfl, fun _ _ => rfl, ?_⟩
    -- a call without workers does not hold its mutex
    rw [Kernel.unlocked, eq_comm, Option.filter_eq_none_iff]
    rintro ⟨task, i⟩ hholder htask
    obtain rfl : task = c.task := by simpa using htask
    obtain ⟨-, w, hw, -⟩ := (inside_self hcall hproc).mp ((holder_iff hS₀ hfree _ _ _).mp hholder)
    cases hw
  · intro p hproc
    obtain ⟨i, a⟩ := a
    obtain ⟨d', c', p', s', hcall', hproc', hs', rfl⟩ := step_eq_some_iff.mp hstep
    have hS' : cs.Run k (acts₀ ++ acts) S := by
      rw [Calls.Run] at hS₀ ⊢
      rw [run_append, hS₀, Option.bind_some, hS]
    have hsafe' := safe_of_run hkeep hS' hcall' hproc'
    have hsound' := sound_of_run hS' hcall' hproc'
    rcases getElem?_put hproc' hproc with ⟨rfl, rfl⟩ | ⟨hne, hproc⟩
    · -- the call itself moves
      cases hcall.symm.trans hcall'
      obtain ⟨k₁, hsolo, hsees⟩ := ih hproc'
      obtain ⟨k₂, hstep₂, hsees₂⟩ := Syscall.step_of_sees hsafe' hsound' hsees hs'
      refine ⟨k₂, ?_, hsees₂⟩
      rw [Syscall.Run] at hsolo
      rw [Syscall.Run, actsOf_concat_self, run_concat, hsolo]
      exact hstep₂
    · -- another call moves
      obtain ⟨k₁, hsolo, hsees⟩ := ih hproc
      have htask : c.task ≠ c'.task := fun h => hne (eq_of_task_eq hcall hcall' h)
      have heffect := Syscall.lockEffect_of_step hs'
      have hholders := holder_iff hS' hfree
      have hdest : ∀ p, c'.destPath = some p → ¬ c.Uses p := by
        rcases hown i _ hcall' hne.symm with ⟨p₀, hp₀, hdone⟩ | hdest
        · cases hproc'.symm.trans (getElem?_of_done hS hp₀ hdone)
          rw [hdone.step_eq_none] at hs'
          cases hs'
        · exact hdest
      refine ⟨k₁, ?_, hsees.of_changes (Syscall.changes_of_step hsafe' hsound' hs') htask hdest
        (heffect.filter_holder htask fun i' hi' => ?_)⟩
      · rw [actsOf_concat_of_ne hne.symm]
        exact hsolo
      · exact (hholders _ _ _).mpr ((inside_self hcall' hproc').mpr ⟨rfl, hi'⟩)

/-- From every run each call can be extracted as a run of the call alone. -/
theorem solo_of_run (hkeep : cs.KeepWorkers) (hapart : cs.Apart)
    (hfree : ∀ m, k.holder m = none) (hrun : cs.Run k acts S)
    {j : ℕ} {d : Syscall} {c : Call} {p : Process} (hcall : cs.list[j]? = some (d, c))
    (hproc : S.procs[j]? = some p) :
    ∃ k₁, d.Run c k (actsOf j acts) ⟨k₁, p.caller, p.workers⟩ ∧ c.Sees d.lock k₁ S.kernel := by
  have hentry : (System.start cs k).procs[j]? = some ⟨.entry (d.prepares c.args), []⟩ := by
    simp [System.start, hcall]
  have hstart : cs.Run k [] (System.start cs k) := rfl
  have hsolo := solo_from hkeep hfree hstart hcall hentry
    (fun i x hx hne => .inr (hapart i j x _ hx hcall hne)) hrun hproc
  rwa [System.start, Kernel.unlocked_of_free hfree] at hsolo

/-- The files that no call writes stay as they are. -/
lemma fs_of_run (hrun : cs.Run k acts S) {p : Path} (hp : ∀ x ∈ cs.list, x.2.destPath ≠ some p) :
    S.kernel.fs p = k.fs p := by
  refine run_induction (motive := fun _ S => S.kernel.fs p = k.fs p) rfl
    (fun acts S a S' hS ih hstep => ?_) hrun
  obtain ⟨j, a⟩ := a
  obtain ⟨d, c, q, s', hcall, hproc, hs', rfl⟩ := step_eq_some_iff.mp hstep
  exact (Syscall.fs_of_step (sound_of_run hS hcall hproc) hs'
    (hp _ (List.mem_of_getElem? hcall))).trans ih

/-- When all workers of a system have exited, the mutexes are free. -/
lemma holder_eq_none (hrun : cs.Run k acts S) (hfree : ∀ m, k.holder m = none)
    (hexited : ∀ p ∈ S.procs, ∀ w ∈ p.workers, ∃ r, w.pc = .exited r) (m : Mutex) :
    S.kernel.holder m = none := by
  by_contra hheld
  obtain ⟨⟨task, i⟩, hholder⟩ := Option.ne_none_iff_exists'.mp hheld
  obtain ⟨j, d, c, p, -, -, -, hproc, w, hw, hcrit⟩ := (holder_iff hrun hfree _ _ _).mp hholder
  obtain ⟨r, hr⟩ := hexited p (List.mem_of_getElem? hproc) w (List.mem_of_getElem? hw)
  rw [hr] at hcrit
  exact hcrit

/-- Two calls that do not write to each other's files. -/
lemma apart_of_pair {d₁ d₂ : Syscall} {c₁ c₂ : Call} (hlist : cs.list = [(d₁, c₁), (d₂, c₂)])
    (h₁₂ : ∀ p, c₁.destPath = some p → ¬ c₂.Uses p)
    (h₂₁ : ∀ p, c₂.destPath = some p → ¬ c₁.Uses p) : cs.Apart := by
  intro i j x y hx hy hij
  have hi := (List.getElem?_eq_some_iff.mp hx).1
  have hj := (List.getElem?_eq_some_iff.mp hy).1
  simp only [hlist, List.length_cons, List.length_nil] at hi hj
  obtain ⟨rfl, rfl⟩ | ⟨rfl, rfl⟩ : (i = 0 ∧ j = 1) ∨ (i = 1 ∧ j = 0) := by omega
  · simp only [hlist, List.getElem?_cons_zero, List.getElem?_cons_succ, Option.some_inj] at hx hy
    subst hx hy
    exact h₁₂
  · simp only [hlist, List.getElem?_cons_zero, List.getElem?_cons_succ, Option.some_inj] at hx hy
    subst hx hy
    exact h₂₁

/-- The files after the calls `c₁` and `c₂` have run one after the other, from `k` to `k₁` and on to
`k₃`, are those after a run of both to `k'`, if neither call can tell the difference. -/
lemma fs_eq_of_sees {c₁ c₂ : Call} {lock₁ lock₂ : Mutex} {k k₁ k₂ k₃ k' : Kernel}
    (hchanges₁ : c₁.Changes k k₁) (hchanges₃ : c₂.Changes k₁ k₃) (hsees₁ : c₁.Sees lock₁ k₁ k')
    (hsees₂ : c₂.Sees lock₂ k₂ k') (hsees₃ : c₂.Sees lock₂ k₃ k₂)
    (hrest : ∀ p, c₁.destPath ≠ some p → c₂.destPath ≠ some p → k'.fs p = k.fs p) :
    k₃.fs = k'.fs := by
  funext p
  -- a file of the second call, one of the first call, or one that neither uses
  by_cases hp₂ : c₂.Uses p
  · exact (hsees₃.fs p hp₂).trans (hsees₂.fs p hp₂)
  · have hdest₂ : c₂.destPath ≠ some p := fun h => hp₂ (Or.inr (Or.inr h))
    rw [hchanges₃.fs p hdest₂]
    by_cases hp₁ : c₁.Uses p
    · exact hsees₁.fs p hp₁
    · have hdest₁ : c₁.destPath ≠ some p := fun h => hp₁ (Or.inr (Or.inr h))
      rw [hchanges₁.fs p hdest₁, hrest p hdest₁ hdest₂]

/-- Two calls that do not write to each other's files and can create their workers, or at least
leave none behind: every complete run has the same files and return values as a run in which the
first call is over, with all its workers, before the second one starts. -/
theorem serializable {d₁ d₂ : Syscall} {c₁ c₂ : Call} (hlist : cs.list = [(d₁, c₁), (d₂, c₂)])
    (hkeep₁ : c₁.KeepsWorkers) (hkeep₂ : c₂.KeepsWorkers)
    (h₁₂ : ∀ p, c₁.destPath = some p → ¬ c₂.Uses p)
    (h₂₁ : ∀ p, c₂.destPath = some p → ¬ c₁.Uses p) (hfree : ∀ m, k.holder m = none)
    (hrun : cs.Run k acts S) {r₁ r₂ : ℤ} {ws₁ ws₂ : List Worker}
    (hS : S.procs = [⟨.returned r₁, ws₁⟩, ⟨.returned r₂, ws₂⟩]) :
    ∃ (acts₁ acts₂ : List Act) (T₁ T₂ : System),
      cs.Run k (acts₁.map fun a => (0, a)) T₁ ∧
      T₁.procs = [⟨.returned r₁, ws₁⟩, ⟨.entry (d₂.prepares c₂.args), []⟩] ∧
      (∀ w ∈ ws₁, ∃ r, w.pc = .exited r) ∧
      run cs.step T₁ (acts₂.map fun a => (1, a)) = some T₂ ∧
      T₂.procs = [⟨.returned r₁, ws₁⟩, ⟨.returned r₂, ws₂⟩] ∧ T₂.kernel.fs = S.kernel.fs := by
  have hcall₁ : cs.list[0]? = some (d₁, c₁) := by simp [hlist]
  have hcall₂ : cs.list[1]? = some (d₂, c₂) := by simp [hlist]
  have hproc₁ : S.procs[0]? = some ⟨.returned r₁, ws₁⟩ := by simp [hS]
  have hproc₂ : S.procs[1]? = some ⟨.returned r₂, ws₂⟩ := by simp [hS]
  have htask : c₁.task ≠ c₂.task := fun h =>
    absurd (eq_of_task_eq hcall₁ hcall₂ h) (by decide)
  -- each call alone
  have hapart := apart_of_pair hlist h₁₂ h₂₁
  have hkeep : cs.KeepWorkers := by
    intro x hx
    rw [hlist, List.mem_pair] at hx
    rcases hx with rfl | rfl
    · exact hkeep₁
    · exact hkeep₂
  obtain ⟨k₁, hsolo₁, hsees₁⟩ := solo_of_run hkeep hapart hfree hrun hcall₁ hproc₁
  obtain ⟨k₂, hsolo₂, hsees₂⟩ := solo_of_run hkeep hapart hfree hrun hcall₂ hproc₂
  have hsafe₂ := State.Safe.start d₂ c₂ k
  have hsound₂ := State.Sound.start d₂ c₂ k
  have hchanges₁ : c₁.Changes k k₁ := Syscall.changes_of_run hsolo₁ (State.Safe.start d₁ c₁ k)
    (State.Sound.start d₁ c₁ k) hkeep₁
  have hexited : ∀ w ∈ ws₁, ∃ r, w.pc = .exited r := safe_of_run hkeep hrun hcall₁ hproc₁
  -- the first call in the system
  have hstart₁ : (System.start cs k).procs[0]? = some ⟨.entry (d₁.prepares c₁.args), []⟩ := by
    simp [System.start, hlist]
  have hT₁ := run_map_of_run hcall₁ hstart₁ hsolo₁
  have hprocs₁ : ((System.start cs k).put 0 ⟨k₁, .returned r₁, ws₁⟩).procs =
      [⟨.returned r₁, ws₁⟩, ⟨.entry (d₂.prepares c₂.args), []⟩] := by
    simp [System.start, System.put, hlist]
  have hmutex : ∀ m, k₁.holder m = none := by
    refine holder_eq_none hT₁ hfree fun p hp => ?_
    rw [hprocs₁, List.mem_pair] at hp
    rcases hp with rfl | rfl
    · exact hexited
    · exact fun w hw => by cases hw
  -- the second call after it
  have hsees : c₂.Sees d₂.lock k₁ k := by
    have hundisturbed := hchanges₁.undisturbed htask.symm
    refine ⟨fun p hp => hchanges₁.fs p fun h => h₁₂ p h hp, hundisturbed.mem, hundisturbed.args, ?_⟩
    simp [hmutex, hfree]
  obtain ⟨k₃, hsolo₃, hsees₃⟩ := Syscall.run_of_sees hsolo₂ hsafe₂ hsound₂ hkeep₂ hsees
  have hchanges₃ : c₂.Changes k₁ k₃ :=
    Syscall.changes_of_run hsolo₃ (State.Safe.start d₂ c₂ k₁) (hsound₂.of_kernel k₁) hkeep₂
  have hstart₂ : ((System.start cs k).put 0 ⟨k₁, .returned r₁, ws₁⟩).procs[1]? =
      some ⟨.entry (d₂.prepares c₂.args), []⟩ := by simp [hprocs₁]
  have hT₂ := run_map_of_run hcall₂ hstart₂ hsolo₃
  refine ⟨_, _, _, _, hT₁, hprocs₁, hexited, hT₂, ?_, ?_⟩
  · simp [System.put, System.start, hlist]
  · refine fs_eq_of_sees hchanges₁ hchanges₃ hsees₁ hsees₂ hsees₃ fun p hp₁ hp₂ => ?_
    refine fs_of_run hrun fun x hx => ?_
    rw [hlist, List.mem_pair] at hx
    rcases hx with rfl | rfl
    · exact hp₁
    · exact hp₂

/-- A schedule of the two small calls with one thread each, in which the worker of the second call
waits for the mutex while that of the first one works. -/
def sampleInterleaving : List (ℕ × Act) :=
  List.replicate 20 (0, .caller) ++ List.replicate 20 (1, .caller) ++
    List.replicate 4 (0, .worker 0) ++ [(1, .worker 0)] ++ List.replicate 8 (0, .worker 0) ++
    List.replicate 12 (0, .caller) ++ List.replicate 11 (1, .worker 0) ++
    List.replicate 12 (1, .caller)

/-- The two small calls, run in this way, have a serial run with the same files. -/
theorem serializable_sample :
    ∃ (S T₁ T₂ : System) (acts₁ acts₂ : List Act) (ws₁ ws₂ : List Worker),
      (sampleCalls 1).Run (.idle sampleFiles) sampleInterleaving S ∧
      S.procs = [⟨.returned 0, ws₁⟩, ⟨.returned 0, ws₂⟩] ∧
      (sampleCalls 1).Run (.idle sampleFiles) (acts₁.map fun a => (0, a)) T₁ ∧
      run (sampleCalls 1).step T₁ (acts₂.map fun a => (1, a)) = some T₂ ∧
      T₂.kernel.fs = S.kernel.fs := by
  have hresult : (run (sampleCalls 1).step (.start (sampleCalls 1) (.idle sampleFiles))
      sampleInterleaving).map (fun S => S.procs.map fun p => p.caller.result) =
        some [some 0, some 0] := by
    decide +kernel
  obtain ⟨S, hrun, hS⟩ := Option.map_eq_some_iff.mp hresult
  obtain ⟨⟨caller₁, ws₁⟩, l, hprocs, h₁, hl⟩ := List.map_eq_cons_iff.mp hS
  obtain ⟨⟨caller₂, ws₂⟩, l', rfl, h₂, hl'⟩ := List.map_eq_cons_iff.mp hl
  obtain rfl := Caller.eq_returned h₁
  obtain rfl := Caller.eq_returned h₂
  obtain rfl := List.map_eq_nil_iff.mp hl'
  have hnames₁ := sampleCall_names 1
  have hdest₂ : (secondCall 1).destPath = some [99] := by decide +kernel
  have hsrc₂ : (secondCall 1).srcPath = some [97] := by decide +kernel
  have hkey₂ : (secondCall 1).keyPath = some [107] := by decide +kernel
  have hlist : (sampleCalls 1).list = [(.encrypt, sampleCall 1), (.encrypt, secondCall 1)] := rfl
  obtain ⟨acts₁, acts₂, T₁, T₂, hT₁, -, -, hT₂, -, hfs⟩ :=
    serializable hlist (fun _ _ _ => rfl) (fun _ _ _ => rfl)
      (by simp [Call.Uses, hnames₁.destPath, hdest₂, hsrc₂, hkey₂])
      (by simp [Call.Uses, hnames₁.destPath, hnames₁.srcPath, hnames₁.keyPath, hdest₂])
      (fun _ => rfl) hrun hprocs
  exact ⟨S, T₁, T₂, acts₁, acts₂, ws₁, ws₂, hrun, hprocs, hT₁, hT₂, hfs⟩

end Calls

end XorSyscalls
