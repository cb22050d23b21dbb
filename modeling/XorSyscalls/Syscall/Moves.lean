import XorSyscalls.Syscall.Machine

/-!
# What one step can do

`RegularMove`, `WorkerMove` and `Move` list the moves of a worker and of the whole system, each with
its guard and its effect, and `Syscall.move_of_step` says that `step` does nothing else.  All
invariants are proved by a case analysis over these moves, never by unfolding the step functions
again.

A worker that finds its arguments and its bytes makes a regular move.  Otherwise it may be killed
by a fault, or go on with what it finds (`Kernel.Strayed`).
-/

namespace XorSyscalls

open TransitionSystem

/-! ## Workers -/

/-- Program points at which a worker uses its arguments. -/
def WorkerPc.Accesses : WorkerPc → Prop
  | .entered | .testing | .xoring => True
  | _ => False

/-- Program points between the lock and the unlock; a worker that was killed there stays. -/
def WorkerPc.Critical : WorkerPc → Prop
  | .entered | .testing | .xoring | .unlocking _ | .oops => True
  | _ => False

/-- The moves of worker `i` of a task for the mutex `lock`, with the arguments `a`. -/
inductive RegularMove (lock : Mutex) (task i : ℕ) (a : WorkerArgs) :
    Kernel → Worker → Kernel → Worker → Prop
  /-- The thread starts running and enters its function. -/
  | start {k w} (hpc : w.pc = .created) (hstop : w.shouldStop = false) :
    RegularMove lock task i a k w k { w with pc := .locking }
  /-- The thread starts running after it was stopped. -/
  | startStopped {k w} (hpc : w.pc = .created) (hstop : w.shouldStop = true) :
    RegularMove lock task i a k w k { w with pc := .returning Errno.eintr.ret }
  /-- The mutex is free and taken. -/
  | lock {k w} (hpc : w.pc = .locking) (hfree : k.holder lock = none) :
    RegularMove lock task i a k w (k.setHolder lock (some (task, i))) { w with pc := .entered }
  /-- The wait for the mutex is interrupted. -/
  | interrupt {k w} (hpc : w.pc = .locking) (hstop : w.shouldStop = true) :
    RegularMove lock task i a k w k { w with pc := .returning Errno.eintr.ret }
  /-- The loop begins at the start of the range. -/
  | enter {k w} (hpc : w.pc = .entered) :
    RegularMove lock task i a k w k { w with idx := a.rangeStart, pc := .testing }
  /-- There is a byte left and no stop request. -/
  | test {k w} (hpc : w.pc = .testing) (hlt : w.idx < a.rangeEnd)
      (hstop : w.shouldStop = false) : RegularMove lock task i a k w k { w with pc := .xoring }
  /-- There is a byte left and a stop request. -/
  | testStopped {k w} (hpc : w.pc = .testing) (hlt : w.idx < a.rangeEnd)
      (hstop : w.shouldStop = true) :
    RegularMove lock task i a k w k { w with pc := .unlocking Errno.eintr.ret }
  /-- The range is done. -/
  | testDone {k w} (hpc : w.pc = .testing) (hge : a.rangeEnd ≤ w.idx) :
    RegularMove lock task i a k w k { w with pc := .unlocking 0 }
  /-- One byte is XORed. -/
  | xor {k w u v} (hpc : w.pc = .xoring) (hkey : a.keyLength ≠ 0)
      (hu : k.byteAt a.inputData w.idx = some u)
      (hv : k.byteAt a.cipherKey (w.idx % a.keyLength) = some v) :
    RegularMove lock task i a k w (k.storeByte a.inputData w.idx (u ^^^ v))
      { w with idx := sizeAdd w.idx 1, pc := .testing }
  /-- The remainder by a zero key length is computed. -/
  | oops {k w} (hpc : w.pc = .xoring) (hkey : a.keyLength = 0) :
    RegularMove lock task i a k w k { w with pc := .oops }
  /-- The mutex is released. -/
  | unlock {k w r} (hpc : w.pc = .unlocking r) :
    RegularMove lock task i a k w (k.setHolder lock none) { w with pc := .returning r }
  /-- The thread ends. -/
  | exit {k w r} (hpc : w.pc = .returning r) :
    RegularMove lock task i a k w k { w with pc := .exited r }

/-- The moves of worker `i` of a task for the mutex `lock`. -/
inductive WorkerMove (lock : Mutex) (task i : ℕ) : Kernel → Worker → Kernel → Worker → Prop
  /-- A move with the arguments in memory. -/
  | regular {k w k' w'} (a : WorkerArgs) (ha : w.pc.Accesses → k.loadArgs w.params = some a)
      (hmove : RegularMove lock task i a k w k' w') : WorkerMove lock task i k w k' w'
  /-- A step that meets memory which is not there. -/
  | stray {k w k' w'} (e : Stray) (hmiss : k.Missing w)
      (hstep : workerStep lock task i (.stray e) k w = some (k', w')) :
    WorkerMove lock task i k w k' w'
  /-- The worker is killed by a fault. -/
  | fault {k w} (hmiss : k.Missing w) : WorkerMove lock task i k w k { w with pc := .oops }

section Workers

variable {lock : Mutex} {task i : ℕ} {k k' : Kernel} {w w' : Worker} {x : Chance} {a : WorkerArgs}

/-- Arguments that are stored are found, whatever happens. -/
lemma Kernel.findArgs_of_load (h : k.loadArgs w.params = some a) :
    k.findArgs w.params x = some (a, k) := by
  simp only [findArgs, h]

/-- Arguments that are gone are found by chance only. -/
lemma Kernel.findArgs_of_gone (h : k.loadArgs w.params = none) {m : WorkerArgs × Kernel}
    (hfind : k.findArgs w.params x = some m) : ∃ e, x = .stray e := by
  cases x with
  | stray e => exact ⟨e, rfl⟩
  | usual | signal => simp [findArgs, h] at hfind

/-- Bytes that are there are XORed, whatever happens. -/
lemma Kernel.xorByte_of_bytes {dst src : Ptr} {idx jdx : ℕ} {u v : UInt8}
    (hu : k.byteAt dst idx = some u) (hv : k.byteAt src jdx = some v) :
    k.xorByte task dst idx src jdx x = some (k.storeByte dst idx (u ^^^ v)) := by
  simp only [xorByte, hu, hv]

/-- A worker uses memory only at some of its program points. -/
lemma Kernel.Missing.accesses (h : k.Missing w) : w.pc.Accesses := by
  unfold Missing at h
  split at h <;> simp_all [WorkerPc.Accesses]

/-- Without its arguments a worker cannot use them. -/
lemma Kernel.missing_of_gone (hpc : w.pc.Accesses) (h : k.loadArgs w.params = none) :
    k.Missing w := by
  unfold Missing
  cases hw : w.pc <;> simp_all [WorkerPc.Accesses]

/-- A worker that finds its memory finds the two bytes that it XORs. -/
lemma Kernel.exists_bytes (hpc : w.pc = .xoring) (hload : k.loadArgs w.params = some a)
    (hkey : a.keyLength ≠ 0) (hmiss : ¬ k.Missing w) :
    (∃ u, k.byteAt a.inputData w.idx = some u) ∧
      ∃ v, k.byteAt a.cipherKey (w.idx % a.keyLength) = some v := by
  simpa only [Missing, hpc, hload, ne_eq, hkey, not_false_eq_true, true_and, not_or,
    ← Option.isSome_iff_ne_none, Option.isSome_iff_exists] using hmiss

/-- A move that does not use the arguments. -/
lemma WorkerMove.plain (hpc : ¬ w.pc.Accesses) (h : ∀ a, RegularMove lock task i a k w k' w') :
    WorkerMove lock task i k w k' w' :=
  .regular ⟨.null, .null, 0, 0, 0⟩ (fun hacc => (hpc hacc).elim) (h _)

/-- A step that uses the arguments when they are there. -/
lemma regularMove_of_workerStep (hload : k.loadArgs w.params = some a) (hpc : w.pc.Accesses)
    (hmiss : ¬ k.Missing w) (h : workerStep lock task i x k w = some (k', w')) :
    RegularMove lock task i a k w k' w' := by
  unfold workerStep at h
  cases hw : w.pc <;> simp only [hw, WorkerPc.Accesses] at hpc <;>
    simp only [hw, Kernel.findArgs_of_load hload, Option.bind_eq_bind, Option.bind_some] at h
  case entered => cases h; exact .enter hw
  case testing =>
    split at h <;> rename_i hlt
    · split at h <;> rename_i hstop <;> cases h
      · exact .testStopped hw hlt hstop
      · exact .test hw hlt (by simpa using hstop)
    · cases h
      exact .testDone hw (by omega)
  case xoring =>
    split at h <;> rename_i hkey
    · cases h; exact .oops hw hkey
    · obtain ⟨⟨u, hu⟩, v, hv⟩ := Kernel.exists_bytes hw hload hkey hmiss
      rw [Kernel.xorByte_of_bytes hu hv] at h
      cases h
      exact .xor hw hkey hu hv

/-- A step that meets memory which is not there does so by chance. -/
lemma stray_of_workerStep (hmiss : k.Missing w)
    (h : workerStep lock task i x k w = some (k', w')) : ∃ e, x = .stray e := by
  have hacc := hmiss.accesses
  unfold workerStep at h
  cases hload : k.loadArgs w.params with
  | none =>
    cases hw : w.pc <;> simp only [hw, WorkerPc.Accesses] at hacc <;>
      simp only [hw, Option.bind_eq_bind] at h <;>
      obtain ⟨m, hm, -⟩ := Option.bind_eq_some_iff.mp h <;>
      exact Kernel.findArgs_of_gone hload hm
  | some a =>
    unfold Kernel.Missing at hmiss
    cases hw : w.pc <;> simp only [hw, hload] at hmiss
    simp only [hw, Kernel.findArgs_of_load hload, Option.bind_eq_bind, Option.bind_some,
      hmiss.1, if_false] at h
    obtain ⟨m, hm, -⟩ := Option.bind_eq_some_iff.mp h
    cases x with
    | stray e => exact ⟨e, rfl⟩
    | usual | signal =>
      rcases hmiss.2 with hgone | hgone <;> simp [Kernel.xorByte, hgone] at hm

/-- Every step of a worker is one of its moves. -/
lemma workerMove_of_workerStep (h : workerStep lock task i x k w = some (k', w')) :
    WorkerMove lock task i k w k' w' := by
  by_cases hmiss : k.Missing w
  · obtain ⟨e, rfl⟩ := stray_of_workerStep hmiss h
    exact .stray e hmiss h
  by_cases hacc : w.pc.Accesses
  · cases hload : k.loadArgs w.params with
    | none => exact (hmiss (Kernel.missing_of_gone hacc hload)).elim
    | some a => exact .regular a (fun _ => hload) (regularMove_of_workerStep hload hacc hmiss h)
  refine .plain hacc fun a => ?_
  unfold workerStep at h
  cases hpc : w.pc <;> simp only [hpc] at h
  case created =>
    split at h <;> rename_i hstop <;> cases h
    · exact .startStopped hpc hstop
    · exact .start hpc (by simpa using hstop)
  case locking =>
    obtain ⟨⟨r, k₁⟩, hlock, h⟩ := Option.bind_eq_some_iff.mp h
    unfold Kernel.mutexLockInterruptible at hlock
    split at hlock <;> split at hlock <;> cases hlock
    · simp only [ne_eq, Errno.ret_ne_zero, not_false_eq_true, if_true] at h
      cases h
      exact .interrupt hpc ‹_›
    · cases h
      exact .lock hpc ‹_›
  case unlocking r => cases h; exact .unlock hpc
  case returning r => cases h; exact .exit hpc
  case exited r => cases h
  case oops => cases h
  all_goals exact (hacc (by rw [hpc]; trivial)).elim

/-- A fault is a move of the worker. -/
lemma workerMove_of_faultStep (h : k.faultStep w = some (k', w')) :
    WorkerMove lock task i k w k' w' := by
  unfold Kernel.faultStep at h
  split at h <;> rename_i hmiss <;> cases h
  exact .fault hmiss

/-- Every regular move is a step. -/
lemma RegularMove.exists_workerStep (h : RegularMove lock task i a k w k' w')
    (ha : w.pc.Accesses → k.loadArgs w.params = some a) :
    ∃ x, workerStep lock task i x k w = some (k', w') := by
  cases h with
  | interrupt hpc hstop =>
    exact ⟨.signal, by simp [workerStep, hpc, Kernel.mutexLockInterruptible, hstop,
      Errno.ret_ne_zero]⟩
  | start hpc hstop | startStopped hpc hstop =>
    exact ⟨.usual, by simp [workerStep, hpc, hstop]⟩
  | lock hpc hfree =>
    exact ⟨.usual, by simp [workerStep, hpc, Kernel.mutexLockInterruptible, hfree]⟩
  | enter hpc =>
    have hload := ha (by rw [hpc]; trivial)
    exact ⟨.usual, by simp [workerStep, hpc, Kernel.findArgs_of_load hload]⟩
  | test hpc h₁ h₂ | testStopped hpc h₁ h₂ =>
    have hload := ha (by rw [hpc]; trivial)
    exact ⟨.usual, by simp [workerStep, hpc, Kernel.findArgs_of_load hload, h₁, h₂]⟩
  | testDone hpc hge =>
    have hload := ha (by rw [hpc]; trivial)
    exact ⟨.usual, by simp [workerStep, hpc, Kernel.findArgs_of_load hload, not_lt.mpr hge]⟩
  | oops hpc hkey =>
    have hload := ha (by rw [hpc]; trivial)
    exact ⟨.usual, by simp [workerStep, hpc, Kernel.findArgs_of_load hload, hkey]⟩
  | xor hpc hkey hu hv =>
    have hload := ha (by rw [hpc]; trivial)
    exact ⟨.usual, by simp [workerStep, hpc, Kernel.findArgs_of_load hload, hkey,
      Kernel.xorByte_of_bytes hu hv]⟩
  | unlock hpc | exit hpc =>
    exact ⟨.usual, by simp [workerStep, hpc, Kernel.mutexUnlock]⟩

/-- The arguments matter only where they are used. -/
lemma RegularMove.congr_args {a' : WorkerArgs} (h : RegularMove lock task i a' k w k' w')
    (ha : w.pc.Accesses → a' = a) : RegularMove lock task i a k w k' w' := by
  by_cases hacc : w.pc.Accesses
  · exact ha hacc ▸ h
  · cases h with
    | start hpc hstop => exact .start hpc hstop
    | startStopped hpc hstop => exact .startStopped hpc hstop
    | lock hpc hfree => exact .lock hpc hfree
    | interrupt hpc hstop => exact .interrupt hpc hstop
    | unlock hpc => exact .unlock hpc
    | exit hpc => exact .exit hpc
    | enter hpc | test hpc | testStopped hpc | testDone hpc | xor hpc | oops hpc =>
      exact (hacc (by rw [hpc]; trivial)).elim

/-- A worker that finds its arguments and its bytes makes a regular move. -/
lemma WorkerMove.toRegular (h : WorkerMove lock task i k w k' w')
    (hload : k.loadArgs w.params = some a) (hmiss : ¬ k.Missing w) :
    RegularMove lock task i a k w k' w' := by
  cases h with
  | stray e hmiss' => exact (hmiss hmiss').elim
  | fault hmiss' => exact (hmiss hmiss').elim
  | regular a' ha hmove =>
    exact hmove.congr_args fun hacc => Option.some_inj.mp ((ha hacc).symm.trans hload)

end Workers

/-! ## Stray accesses -/

/-- What a stray access of a task can change: the memory of other calls and the record of
misuses. -/
structure Kernel.Strayed (task : ℕ) (k k' : Kernel) : Prop where
  fs : k'.fs = k.fs
  live : k'.live = k.live
  files : k'.files = k.files
  holder : k'.holder = k.holder
  log : k'.log = k.log
  mem : ∀ b : Block, b.task = task → k'.mem b = k.mem b
  args : ∀ b : Block, b.task = task → k'.args b = k.args b
  misuses : ∃ bs : List Block, k'.misuses = bs.map .useAfterFree ++ k.misuses

namespace Kernel

variable {task : ℕ} {k k' k'' : Kernel}

lemma Strayed.refl (task : ℕ) (k : Kernel) : k.Strayed task k :=
  ⟨rfl, rfl, rfl, rfl, rfl, fun _ _ => rfl, fun _ _ => rfl, [], rfl⟩

lemma Strayed.trans (h : k.Strayed task k') (h' : k'.Strayed task k'') : k.Strayed task k'' := by
  obtain ⟨bs, hbs⟩ := h.misuses
  obtain ⟨bs', hbs'⟩ := h'.misuses
  refine ⟨h'.fs.trans h.fs, h'.live.trans h.live, h'.files.trans h.files, h'.holder.trans h.holder,
    h'.log.trans h.log, fun b hb => (h'.mem b hb).trans (h.mem b hb),
    fun b hb => (h'.args b hb).trans (h.args b hb), bs' ++ bs, ?_⟩
  rw [hbs', hbs, List.map_append, List.append_assoc]

lemma strayed_noteUse (task : ℕ) (k : Kernel) (p : Ptr) : k.Strayed task (k.noteUse p) := by
  cases p with
  | null | zeroSize => exact .refl task k
  | block b =>
    unfold noteUse
    dsimp only
    split
    · exact .refl task k
    · exact ⟨rfl, rfl, rfl, rfl, rfl, fun _ _ => rfl, fun _ _ => rfl, [b], rfl⟩

lemma strayed_scribble (task : ℕ) (k : Kernel) (hit : Hit) :
    k.Strayed task (k.scribble task hit) := by
  cases hit with
  | nothing => exact .refl task k
  | byte b idx v =>
    rw [scribble]
    split
    · exact .refl task k
    · rename_i hb
      refine ⟨rfl, rfl, rfl, rfl, rfl, fun b' hb' => ?_, fun _ _ => rfl, [], rfl⟩
      exact Function.update_of_ne (by rintro rfl; exact hb hb') _ _
  | args b elem a =>
    rw [scribble]
    split
    · exact .refl task k
    · rename_i hb
      refine ⟨rfl, rfl, rfl, rfl, rfl, fun _ _ => rfl, fun b' hb' => ?_, [], rfl⟩
      have hne : b ≠ b' := by
        rintro rfl
        exact hb (Or.inl hb')
      simp [storeArgs, hne]

/-- Reading arguments leaves at most a record of the use of freed memory. -/
lemma strayed_of_findArgs {p : ArgsPtr} {x : Chance} {a : WorkerArgs}
    (h : k.findArgs p x = some (a, k')) : k.Strayed task k' := by
  unfold findArgs at h
  split at h <;> cases h
  · exact .refl task k
  · exact strayed_noteUse task k _

/-- A XOR of bytes that are not there. -/
lemma strayed_of_xorByte {dst src : Ptr} {idx jdx : ℕ} {e : Stray}
    (hmiss : k.byteAt dst idx = none ∨ k.byteAt src jdx = none)
    (h : k.xorByte task dst idx src jdx (.stray e) = some k') : k.Strayed task k' := by
  have hstray : k' = ((k.noteUse dst).noteUse src).scribble task e.hit := by
    rcases hmiss with hmiss | hmiss <;> simpa [xorByte, hmiss, eq_comm] using h
  subst hstray
  exact (strayed_noteUse task k dst).trans
    ((strayed_noteUse task _ src).trans (strayed_scribble task _ e.hit))

/-- Pointers found in place of the arguments lead nowhere. -/
lemma byteAt_found (e : Stray) (idx : ℕ) : k.byteAt e.found.inputData idx = none := rfl

end Kernel

/-- A worker that goes on without its memory only hits other calls. -/
lemma strayed_of_workerStep {lock : Mutex} {task i : ℕ} {k k' : Kernel} {w w' : Worker}
    {e : Stray} (hmiss : k.Missing w)
    (h : workerStep lock task i (.stray e) k w = some (k', w')) : k.Strayed task k' := by
  have hacc := hmiss.accesses
  unfold workerStep at h
  cases hw : w.pc <;> simp only [hw, WorkerPc.Accesses] at hacc <;> simp only [hw] at h <;>
    obtain ⟨⟨a, k₁⟩, hfind, h⟩ := Option.bind_eq_some_iff.mp h <;>
    have hk₁ : k.Strayed task k₁ := Kernel.strayed_of_findArgs hfind
  case entered => cases h; exact hk₁
  case testing =>
    dsimp only at h
    split at h
    · split at h <;> cases h <;> exact hk₁
    · cases h
      exact hk₁
  case xoring =>
    dsimp only at h
    split at h
    · cases h
      exact hk₁
    · rename_i hkey
      obtain ⟨k₂, hxor, h⟩ := Option.bind_eq_some_iff.mp h
      cases h
      refine hk₁.trans (Kernel.strayed_of_xorByte ?_ hxor)
      cases hload : k.loadArgs w.params with
      | none =>
        simp only [Kernel.findArgs, hload, Option.some_inj, Prod.mk.injEq] at hfind
        obtain ⟨rfl, -⟩ := hfind
        exact Or.inl (Kernel.byteAt_found e _)
      | some a' =>
        rw [Kernel.findArgs_of_load hload, Option.some_inj] at hfind
        cases hfind
        simp only [Kernel.Missing, hw, hload] at hmiss
        exact hmiss.2

/-- The worker itself keeps its parameter and its stop flag, and the mutex. -/
lemma worker_of_strayStep {lock : Mutex} {task i : ℕ} {k k' : Kernel} {w w' : Worker}
    {e : Stray} (hmiss : k.Missing w)
    (h : workerStep lock task i (.stray e) k w = some (k', w')) :
    w'.params = w.params ∧ w'.shouldStop = w.shouldStop ∧ w'.pc.Critical := by
  have hacc := hmiss.accesses
  unfold workerStep at h
  cases hw : w.pc <;> simp only [hw, WorkerPc.Accesses] at hacc <;> simp only [hw] at h <;>
    obtain ⟨⟨a, k₁⟩, hfind, h⟩ := Option.bind_eq_some_iff.mp h <;> dsimp only at h
  case entered => cases h; exact ⟨rfl, rfl, trivial⟩
  case testing =>
    split at h
    · split at h <;> cases h <;> exact ⟨rfl, rfl, trivial⟩
    · cases h
      exact ⟨rfl, rfl, trivial⟩
  case xoring =>
    split at h
    · cases h
      exact ⟨rfl, rfl, trivial⟩
    · obtain ⟨k₂, -, h⟩ := Option.bind_eq_some_iff.mp h
      cases h
      exact ⟨rfl, rfl, trivial⟩

/-- As long as its arguments are there, a worker only goes astray when it XORs a byte. -/
lemma worker_of_strayStep_of_load {lock : Mutex} {task i : ℕ} {k k' : Kernel} {w w' : Worker}
    {e : Stray} {a : WorkerArgs} (hload : k.loadArgs w.params = some a) (hmiss : k.Missing w)
    (h : workerStep lock task i (.stray e) k w = some (k', w')) :
    w.pc = .xoring ∧ w' = { w with idx := sizeAdd w.idx 1, pc := .testing } := by
  unfold Kernel.Missing at hmiss
  cases hw : w.pc <;> simp only [hw, hload] at hmiss
  unfold workerStep at h
  simp only [hw, Kernel.findArgs_of_load hload, Option.bind_eq_bind, Option.bind_some, hmiss.1,
    if_false] at h
  obtain ⟨k₁, -, h⟩ := Option.bind_eq_some_iff.mp h
  cases h
  exact ⟨rfl, rfl⟩

/-- A worker keeps its parameter. -/
lemma WorkerMove.params_eq {lock : Mutex} {task i : ℕ} {k k' : Kernel} {w w' : Worker}
    (h : WorkerMove lock task i k w k' w') : w'.params = w.params := by
  cases h with
  | regular a ha hmove => cases hmove <;> rfl
  | stray e hmiss hstep => exact (worker_of_strayStep hmiss hstep).1
  | fault hmiss => rfl

/-- A worker takes no arguments of its own call away. -/
lemma WorkerMove.args_eq {lock : Mutex} {task i : ℕ} {k k' : Kernel} {w w' : Worker}
    (h : WorkerMove lock task i k w k' w') {b : Block} (hb : b.task = task) :
    k'.args b = k.args b := by
  cases h with
  | regular a ha hmove =>
    cases hmove with
    | xor => rw [Kernel.storeByte_args]
    | _ => rfl
  | stray e hmiss hstep => exact (strayed_of_workerStep hmiss hstep).args b hb
  | fault hmiss => rfl

/-! ## The whole system -/

/-- The moves of a system call: those of the calling thread, and those of its workers. -/
inductive Move (d : Syscall) (c : Call) : State → Act → State → Prop
  /-- The code before the division performs an operation. -/
  | entryCall {s op next} (hpc : s.caller = .entry (.call op next)) :
    Move d c s .caller { s with
      kernel := (c.exec op s.kernel).2
      caller := .entry (next (c.exec op s.kernel).1) }
  /-- The system call returns early. -/
  | entryError {s r} (hpc : s.caller = .entry (.ret (.error r))) :
    Move d c s .caller { s with caller := .returned r }
  /-- The code before the division is done. -/
  | entryDone {s q} (hpc : s.caller = .entry (.ret (.ok q))) :
    Move d c s .caller { s with caller := .segment q }
  /-- The division by zero. -/
  | divideError {s q} (hpc : s.caller = .segment q)
      (hn : toSizeT c.args.numThreads.toInt = 0) : Move d c s .caller { s with caller := .oops }
  /-- The segment size is computed. -/
  | divide {s q} (hpc : s.caller = .segment q) (hn : toSizeT c.args.numThreads.toInt ≠ 0) :
    Move d c s .caller { s with
      caller := .create q (q.dataLen / toSizeT c.args.numThreads.toInt) 0 0 }
  /-- A worker is created. -/
  | create {s q seg} {i : ℕ} {off} (hpc : s.caller = .create q seg i off)
      (hlt : (i : ℤ) < c.args.numThreads.toInt) (hrun : c.env.threadError i = none) :
    Move d c s .caller { s with
      kernel := s.kernel.storeArgs (q.argsPtr i) (q.argsFor c.args.numThreads.toInt seg i off)
      workers := s.workers ++ [Worker.new (q.argsPtr i) off]
      caller := .create q seg (i + 1) (sizeAdd off seg) }
  /-- A worker cannot be created, and the system call jumps to `cleanup`. -/
  | createError {s q seg} {i : ℕ} {off e} (hpc : s.caller = .create q seg i off)
      (hlt : (i : ℤ) < c.args.numThreads.toInt) (hrun : c.env.threadError i = some e) :
    Move d c s .caller { s with
      kernel := (s.kernel.storeArgs (q.argsPtr i)
        (q.argsFor c.args.numThreads.toInt seg i off)).printk ⟨.kernErr, d.createFailed, [.int i]⟩
      caller := .cleanup q.frees e.ret }
  /-- All workers have been created. -/
  | createDone {s q seg} {i : ℕ} {off} (hpc : s.caller = .create q seg i off)
      (hge : c.args.numThreads.toInt ≤ (i : ℤ)) : Move d c s .caller { s with caller := .stop q 0 }
  /-- The stop flag of a worker is set. -/
  | stop {s q} {i : ℕ} (hpc : s.caller = .stop q i) (hlt : (i : ℤ) < c.args.numThreads.toInt) :
    Move d c s .caller { s with workers := s.workers.modify i Worker.stop, caller := .wait q i }
  /-- All workers have been stopped. -/
  | stopDone {s q} {i : ℕ} (hpc : s.caller = .stop q i) (hge : c.args.numThreads.toInt ≤ (i : ℤ)) :
    Move d c s .caller { s with caller := .save q (d.save q.destFile q.fileData q.dataLen) }
  /-- The worker waited for has exited. -/
  | wait {s q i w r} (hpc : s.caller = .wait q i) (hw : s.workers[i]? = some w)
      (hexit : w.pc = .exited r) :
    Move d c s .caller { s with
      kernel := s.kernel.printk (d.stopMessage i r), caller := .stop q (i + 1) }
  /-- The writer performs an operation. -/
  | saveCall {s q op next} (hpc : s.caller = .save q (.call op next)) :
    Move d c s .caller { s with
      kernel := (c.exec op s.kernel).2
      caller := .save q (next (c.exec op s.kernel).1) }
  /-- The writer returns. -/
  | saveDone {s q r} (hpc : s.caller = .save q (.ret r)) :
    Move d c s .caller { s with caller := .cleanup q.frees r }
  /-- A pointer is freed. -/
  | free {s p ps r} (hpc : s.caller = .cleanup (p :: ps) r) :
    Move d c s .caller { s with kernel := s.kernel.kfree p, caller := .cleanup ps r }
  /-- The system call returns. -/
  | finish {s r} (hpc : s.caller = .cleanup [] r) :
    Move d c s .caller { s with caller := .returned r }
  /-- A worker moves. -/
  | worker {s a i w k' w'} (ha : a.mover = some i) (hw : s.workers[i]? = some w)
      (hmove : WorkerMove d.lock c.task i s.kernel w k' w') :
    Move d c s a { s with kernel := k', workers := s.workers.set i w' }

/-- Every step of the calling thread is one of its moves. -/
lemma move_of_callerStep {d : Syscall} {c : Call} {s s' : State}
    (h : callerStep d c s = some s') : Move d c s .caller s' := by
  unfold callerStep at h
  dsimp only at h
  split at h
  case h_1 op next hpc => cases h; exact .entryCall hpc
  case h_2 r hpc => cases h; exact .entryError hpc
  case h_3 q hpc => cases h; exact .entryDone hpc
  case h_4 q hpc =>
    split at h <;> rename_i hn <;> cases h
    · exact .divideError hpc hn
    · exact .divide hpc hn
  case h_5 q seg i off hpc =>
    split at h <;> rename_i hlt
    · split at h <;> rename_i hrun <;> cases h
      · exact .createError hpc hlt hrun
      · exact .create hpc hlt hrun
    · cases h
      exact .createDone hpc (by omega)
  case h_6 q i hpc =>
    split at h <;> rename_i hlt <;> cases h
    · exact .stop hpc hlt
    · exact .stopDone hpc (by omega)
  case h_7 q i hpc =>
    split at h
    · rename_i r hexit
      cases h
      obtain ⟨w, hw, hwpc⟩ := Option.map_eq_some_iff.mp hexit
      exact .wait hpc hw hwpc
    · cases h
  case h_8 q op next hpc => cases h; exact .saveCall hpc
  case h_9 q r hpc => cases h; exact .saveDone hpc
  case h_10 p ps r hpc => cases h; exact .free hpc
  case h_11 r hpc => cases h; exact .finish hpc
  case h_12 => cases h
  case h_13 => cases h

/-- Every move of the calling thread is one of its steps. -/
lemma Move.callerStep_eq {d : Syscall} {c : Call} {s s' : State} (h : Move d c s .caller s') :
    callerStep d c s = some s' := by
  cases h with
  | entryCall hpc | entryError hpc | entryDone hpc | saveCall hpc | saveDone hpc | free hpc
  | finish hpc => simp only [callerStep, hpc]
  | divideError hpc hn | divide hpc hn => simp only [callerStep, hpc, hn, if_true, if_false]
  | create hpc hlt hrun | createError hpc hlt hrun =>
    simp only [callerStep, hpc, hlt, if_true, hrun]
  | createDone hpc hge | stopDone hpc hge =>
    simp only [callerStep, hpc, not_lt.mpr hge, if_false]
  | stop hpc hlt => simp only [callerStep, hpc, hlt, if_true]
  | wait hpc hw hexit => simp only [callerStep, hpc, hw, Option.map_some, hexit]
  | worker ha => cases ha

/-- A move of a worker inside the system. -/
lemma exists_of_moveWorker {s s' : State} {i : ℕ} {f : Kernel → Worker → Option (Kernel × Worker)}
    (h : s.moveWorker i f = some s') :
    ∃ w k' w', s.workers[i]? = some w ∧ f s.kernel w = some (k', w') ∧
      s' = { s with kernel := k', workers := s.workers.set i w' } := by
  unfold State.moveWorker at h
  split at h
  · cases h
  · rename_i w hw
    obtain ⟨⟨k', w'⟩, hf, rfl⟩ := Option.map_eq_some_iff.mp h
    exact ⟨w, k', w', hw, hf, rfl⟩

/-- Every step of the system is one of its moves. -/
theorem Syscall.move_of_step {d : Syscall} {c : Call} {s s' : State} {a : Act}
    (h : d.step c s a = some s') : Move d c s a s' := by
  cases a with
  | caller =>
    rw [Syscall.step, d.body_eq] at h
    exact move_of_callerStep h
  | worker i x =>
    obtain ⟨w, k', w', hw, hf, rfl⟩ := exists_of_moveWorker h
    rw [d.worker_eq] at hf
    exact .worker rfl hw (workerMove_of_workerStep hf)
  | fault i =>
    obtain ⟨w, k', w', hw, hf, rfl⟩ := exists_of_moveWorker h
    exact .worker rfl hw (workerMove_of_faultStep hf)

/-- Every move of a worker is one of its steps. -/
lemma WorkerMove.exists_step {d : Syscall} {c : Call} {s : State} {i : ℕ} {w w' : Worker}
    {k' : Kernel} (hw : s.workers[i]? = some w)
    (hmove : WorkerMove d.lock c.task i s.kernel w k' w') :
    ∃ a, d.step c s a = some { s with kernel := k', workers := s.workers.set i w' } := by
  cases hmove with
  | regular a ha hmove =>
    obtain ⟨x, hx⟩ := hmove.exists_workerStep ha
    exact ⟨.worker i x, by simp [Syscall.step, State.moveWorker, hw, d.worker_eq, hx]⟩
  | stray e hmiss hstep =>
    exact ⟨.worker i (.stray e), by simp [Syscall.step, State.moveWorker, hw, d.worker_eq, hstep]⟩
  | fault hmiss =>
    exact ⟨.fault i, by simp [Syscall.step, State.moveWorker, hw, Kernel.faultStep, hmiss]⟩

end XorSyscalls
