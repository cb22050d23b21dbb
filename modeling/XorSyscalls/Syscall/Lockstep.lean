import XorSyscalls.Syscall.Schedules
import XorSyscalls.Foundation.Bisimulation

/-!
# Encryption and decryption are the same transformation

`my_encrypt.c` and `my_decrypt.c` were written separately.  `encrypt_decrypt_lockstep` compares them
step by step: for the same arguments, the same answers of the kernel and the same schedule, the two
system calls run in lockstep.  They use different mutexes and log different messages, and
`save_data_to_file` of `my_encrypt.c` logs its failures where `save_data` of `my_decrypt.c` logs
nothing, so encryption may take additional steps that only write the log.
-/

namespace XorSyscalls

open TransitionSystem

/-! ## Programs without their log messages -/

/-- The answer to `printk` carries no information. -/
def Op.silent : (op : Op) → Option op.Res
  | .printk _ => some ()
  | _ => none

/-- Without its log messages the writer of `my_encrypt.c` is that of `my_decrypt.c`. -/
lemma erase_saveDataToFile (filename : List UInt8) (p : Ptr) (n : ℕ) :
    (saveDataToFile filename p n).erase Op.silent = saveData filename p n := by
  have hopen : Op.silent (.filpOpen .out filename .writeCreate) = none := rfl
  refine (Program.erase_call_of_none hopen _).trans ?_
  refine congrArg (Program.call _) (funext fun r => ?_)
  cases r with
  | error e => rfl
  | ok file =>
    have hwrite : Op.silent (.kernelWrite file p n) = none := rfl
    refine (Program.erase_call_of_none hwrite _).trans ?_
    refine congrArg (Program.call _) (funext fun written => ?_)
    simp only [Program.bind]
    split <;> rfl

/-- The code in front of the division is the same. -/
lemma prepareEncrypt_eq (a : Args) : prepareEncrypt a = prepareDecrypt a := rfl

/-! ## Related states -/

/-- Kernel states that differ in their logs and in which mutex the workers use. -/
structure Kernel.Alike (k k' : Kernel) : Prop where
  fs : k.fs = k'.fs
  mem : k.mem = k'.mem
  args : k.args = k'.args
  live : k.live = k'.live
  files : k.files = k'.files
  misuses : k.misuses = k'.misuses
  holder : k.holder .syncLock = k'.holder .decryptMutex

/-- The program point without the log messages of the writer. -/
def Caller.erase : Caller → Caller
  | .save q p => .save q (p.erase Op.silent)
  | caller => caller

/-- A state of `xor_encrypt_syscall` and the corresponding one of `xor_decrypt`. -/
structure State.Alike (s s' : State) : Prop where
  kernel : s.kernel.Alike s'.kernel
  caller : s.caller.erase = s'.caller
  workers : s.workers = s'.workers

/-- The calling thread is about to write the log in its writer. -/
def State.Quiet (s : State) (a : Act) : Prop :=
  a = .caller ∧ ∃ q e next, s.caller = .save q (.call (.printk e) next)

section Alike

variable {c : Call} {k k' : Kernel} {s s' : State}

/-- Log messages do not matter. -/
lemma Kernel.Alike.printk (h : k.Alike k') (e e' : LogEntry) :
    (k.printk e).Alike (k'.printk e') := ⟨h.fs, h.mem, h.args, h.live, h.files, h.misuses, h.holder⟩

lemma Kernel.Alike.printk_left (h : k.Alike k') (e : LogEntry) : (k.printk e).Alike k' :=
  ⟨h.fs, h.mem, h.args, h.live, h.files, h.misuses, h.holder⟩

/-- The kernel functions have the same answers and the same effects. -/
lemma Call.exec_alike (h : k.Alike k') (op : Op) :
    (c.exec op k).1 = (c.exec op k').1 ∧ (c.exec op k).2.Alike (c.exec op k').2 := by
  obtain ⟨fs, mem, args, live, files, holder, log, misuses⟩ := k
  obtain ⟨fs', mem', args', live', files', holder', log', misuses'⟩ := k'
  obtain ⟨rfl, rfl, rfl, rfl, rfl, rfl, hholder⟩ := h
  cases op with
  | copyFromUser | iSizeRead | printk => exact ⟨rfl, rfl, rfl, rfl, rfl, rfl, rfl, hholder⟩
  | filpOpen site filename mode =>
    simp only [exec, filpOpen]
    split
    · exact ⟨rfl, rfl, rfl, rfl, rfl, rfl, rfl, hholder⟩
    · split <;> exact ⟨rfl, rfl, rfl, rfl, rfl, rfl, rfl, hholder⟩
  | kmalloc site size =>
    simp only [exec, kmalloc]
    split
    · exact ⟨rfl, rfl, rfl, rfl, rfl, rfl, rfl, hholder⟩
    · split <;> exact ⟨rfl, rfl, rfl, rfl, rfl, rfl, rfl, hholder⟩
  | kernelRead file buf count =>
    simp only [exec, kernelRead]
    split
    · exact ⟨rfl, rfl, rfl, rfl, rfl, rfl, rfl, hholder⟩
    · cases buf <;> exact ⟨rfl, rfl, rfl, rfl, rfl, rfl, rfl, hholder⟩
  | kernelWrite file buf count =>
    simp only [exec, kernelWrite]
    split
    · exact ⟨rfl, rfl, rfl, rfl, rfl, rfl, rfl, hholder⟩
    · cases buf <;> split <;> exact ⟨rfl, rfl, rfl, rfl, rfl, rfl, rfl, hholder⟩
  | storeByte buf idx v => cases buf <;> exact ⟨rfl, rfl, rfl, rfl, rfl, rfl, rfl, hholder⟩
  | filpClose file =>
    refine ⟨rfl, ?_⟩
    simp only [exec, Kernel.filpClose]
    split <;> exact ⟨rfl, rfl, rfl, rfl, rfl, rfl, hholder⟩
  | kfree p =>
    cases p with
    | null | zeroSize => exact ⟨rfl, rfl, rfl, rfl, rfl, rfl, rfl, hholder⟩
    | block b =>
      refine ⟨rfl, ?_⟩
      simp only [exec, Kernel.kfree]
      split <;> exact ⟨rfl, rfl, rfl, rfl, rfl, rfl, hholder⟩

/-- The same byte is stored. -/
lemma Kernel.Alike.storeByte (h : k.Alike k') (p : Ptr) (idx : ℕ) (v : UInt8) :
    (k.storeByte p idx v).Alike (k'.storeByte p idx v) := by
  cases p with
  | null | zeroSize => exact h
  | block b =>
    refine ⟨h.fs, ?_, h.args, h.live, h.files, h.misuses, h.holder⟩
    simp only [Kernel.storeByte, Kernel.setMem, h.mem]

/-- The same byte is found. -/
lemma Kernel.Alike.byteAt (h : k.Alike k') (p : Ptr) (idx : ℕ) :
    k.byteAt p idx = k'.byteAt p idx := by
  cases p with
  | null | zeroSize => rfl
  | block b => simp only [Kernel.byteAt, Kernel.bytesAt, h.mem]

/-- The same arguments are stored. -/
lemma Kernel.Alike.storeArgs (h : k.Alike k') (p : ArgsPtr) (a : WorkerArgs) :
    (k.storeArgs p a).Alike (k'.storeArgs p a) := by
  refine ⟨h.fs, h.mem, ?_, h.live, h.files, h.misuses, h.holder⟩
  simp only [Kernel.storeArgs, h.args]

/-- The same misuse is recorded. -/
lemma Kernel.Alike.noteUse (h : k.Alike k') (p : Ptr) : (k.noteUse p).Alike (k'.noteUse p) := by
  cases p with
  | null | zeroSize => exact h
  | block b =>
    simp only [Kernel.noteUse, h.live]
    split
    · exact h
    · exact ⟨h.fs, h.mem, h.args, rfl, h.files, congrArg (_ :: ·) h.misuses, h.holder⟩

/-- A stray write hits the same memory. -/
lemma Kernel.Alike.scribble (h : k.Alike k') (task : ℕ) (hit : Hit) :
    (k.scribble task hit).Alike (k'.scribble task hit) := by
  cases hit with
  | nothing => exact h
  | byte b idx v =>
    rw [Kernel.scribble, Kernel.scribble, h.mem]
    split
    · exact h
    · refine ⟨h.fs, ?_, h.args, h.live, h.files, h.misuses, h.holder⟩
      simp only [Kernel.setMem, h.mem]
  | args b elem a =>
    rw [Kernel.scribble, Kernel.scribble, h.args]
    split
    · exact h
    · exact h.storeArgs _ _

/-- The same arguments are found. -/
lemma Kernel.Alike.findArgs (h : k.Alike k') (p : ArgsPtr) (x : Chance) :
    Option.Rel (fun m m' => m.1 = m'.1 ∧ m.2.Alike m'.2) (k.findArgs p x) (k'.findArgs p x) := by
  unfold Kernel.findArgs
  rw [Kernel.loadArgs_congr h.args]
  split
  · exact .some ⟨rfl, h⟩
  · exact .some ⟨rfl, h.noteUse _⟩
  · exact .none

/-- The same bytes are XORed. -/
lemma Kernel.Alike.xorByte (h : k.Alike k') (task : ℕ) (dst : Ptr) (idx : ℕ) (src : Ptr) (jdx : ℕ)
    (x : Chance) : Option.Rel Kernel.Alike (k.xorByte task dst idx src jdx x)
      (k'.xorByte task dst idx src jdx x) := by
  unfold Kernel.xorByte
  rw [h.byteAt, h.byteAt]
  split
  · exact .some (h.storeByte _ _ _)
  · exact .some (((h.noteUse dst).noteUse src).scribble task _)
  · exact .none

/-- The two mutexes are locked alike. -/
lemma Kernel.Alike.mutexLockInterruptible (h : k.Alike k') (self : ℕ × ℕ) (pending : Bool)
    (x : Chance) : Option.Rel (fun m m' => m.1 = m'.1 ∧ m.2.Alike m'.2)
      (k.mutexLockInterruptible .syncLock self pending x)
      (k'.mutexLockInterruptible .decryptMutex self pending x) := by
  unfold Kernel.mutexLockInterruptible
  rw [h.holder]
  split <;> split
  · exact .some ⟨rfl, h⟩
  · exact .none
  · refine .some ⟨rfl, h.fs, h.mem, h.args, h.live, h.files, h.misuses, ?_⟩
    simp [Kernel.setHolder]
  · exact .none

/-- `xor_encrypt_worker` and `xor_decrypt_worker` do the same. -/
lemma xorWorker_alike (h : k.Alike k') (self : ℕ × ℕ) (x : Chance) (w : Worker) :
    Option.Rel (fun m m' => m.1.Alike m'.1 ∧ m.2 = m'.2) (xorEncryptWorker self x k w)
      (xorDecryptWorker self x k' w) := by
  unfold xorEncryptWorker xorDecryptWorker
  cases w.pc with
  | locking =>
    refine rel_bind (h.mutexLockInterruptible self _ x) ?_
    rintro ⟨r, k⟩ ⟨-, k'⟩ ⟨rfl, hk⟩
    dsimp only
    split <;> exact .some ⟨hk, rfl⟩
  | entered =>
    refine rel_bind (h.findArgs _ x) ?_
    rintro ⟨a, k⟩ ⟨-, k'⟩ ⟨rfl, hk⟩
    exact .some ⟨hk, rfl⟩
  | testing =>
    refine rel_bind (h.findArgs _ x) ?_
    rintro ⟨a, k⟩ ⟨-, k'⟩ ⟨rfl, hk⟩
    dsimp only [DecryptThreadArgs.ofWords]
    split
    · split <;> exact .some ⟨hk, rfl⟩
    · exact .some ⟨hk, rfl⟩
  | xoring =>
    refine rel_bind (h.findArgs _ x) ?_
    rintro ⟨a, k⟩ ⟨-, k'⟩ ⟨rfl, hk⟩
    dsimp only [DecryptThreadArgs.ofWords]
    split
    · exact .some ⟨hk, rfl⟩
    · exact rel_bind (hk.xorByte _ _ _ _ _ x) fun _ _ hk => .some ⟨hk, rfl⟩
  | unlocking r =>
    refine .some ⟨⟨h.fs, h.mem, h.args, h.live, h.files, h.misuses, ?_⟩, rfl⟩
    simp [Kernel.mutexUnlock, Kernel.setHolder]
  | created | returning r | exited r | oops => exact .none

/-- So do the threads that run them. -/
lemma worker_alike (h : k.Alike k') (task i : ℕ) (x : Chance) (w : Worker) :
    Option.Rel (fun m m' => m.1.Alike m'.1 ∧ m.2 = m'.2) (Syscall.encrypt.worker task i x k w)
      (Syscall.decrypt.worker task i x k' w) := by
  have hfn := xorWorker_alike h (task, i) x w
  unfold Syscall.worker kthread
  cases w.pc with
  | created => dsimp only; split <;> exact .some ⟨h, rfl⟩
  | returning r => exact .some ⟨h, rfl⟩
  | exited r => exact .none
  | oops => exact .none
  | locking | entered | testing | xoring | unlocking r => exact hfn

/-- A fault is the same in both system calls. -/
lemma faultStep_alike (h : k.Alike k') (w : Worker) :
    Option.Rel (fun m m' => m.1.Alike m'.1 ∧ m.2 = m'.2) (k.faultStep w) (k'.faultStep w) := by
  have hmissing : k.Missing w ↔ k'.Missing w := by
    unfold Kernel.Missing
    simp only [Kernel.loadArgs_congr h.args, h.byteAt]
  unfold Kernel.faultStep
  simp only [hmissing]
  split
  · exact .some ⟨h, rfl⟩
  · exact .none

/-- A move of a worker that is the same in both system calls. -/
lemma State.Alike.moveWorker (h : s.Alike s') {i : ℕ}
    {f f' : Kernel → Worker → Option (Kernel × Worker)}
    (hf : ∀ w, Option.Rel (fun m m' => m.1.Alike m'.1 ∧ m.2 = m'.2) (f s.kernel w)
      (f' s'.kernel w)) :
    Option.Rel State.Alike (s.moveWorker i f) (s'.moveWorker i f') := by
  unfold State.moveWorker
  rw [← h.workers]
  cases s.workers[i]? with
  | none => exact .none
  | some w =>
    have hw := hf w
    dsimp only
    cases hm : f s.kernel w with
    | none =>
      rw [hm] at hw
      cases hm' : f' s'.kernel w with
      | none => exact .none
      | some m' =>
        rw [hm'] at hw
        cases hw
    | some m =>
      rw [hm] at hw
      obtain ⟨m', hm', hkernel, hworker⟩ := exists_of_rel_some hw
      rw [hm']
      refine .some ⟨hkernel, h.caller, ?_⟩
      dsimp only
      rw [hworker]

/-- The calling threads do the same in both system calls, unless that of encryption writes the log
in its writer. -/
lemma State.Alike.syscall (h : s.Alike s') (hquiet : ¬ s.Quiet .caller) :
    Option.Rel State.Alike (xorEncryptSyscall c s) (xorDecrypt c s') := by
  obtain ⟨k, caller, ws⟩ := s
  obtain ⟨k', caller', ws'⟩ := s'
  obtain ⟨hk, rfl, rfl⟩ := h
  cases caller with
  | entry p =>
    cases p with
    | ret r => cases r <;> exact .some ⟨hk, rfl, rfl⟩
    | call op next =>
      obtain ⟨hanswer, hkernel⟩ := c.exec_alike hk op
      refine .some ⟨hkernel, ?_, rfl⟩
      dsimp only [Caller.erase]
      rw [hanswer]
  | segment q =>
    simp only [xorEncryptSyscall, xorDecrypt, Caller.erase]
    split <;> exact .some ⟨hk, rfl, rfl⟩
  | create q seg i off =>
    simp only [xorEncryptSyscall, xorDecrypt, Caller.erase]
    split
    · cases c.env.threadError i with
      | some e => exact .some ⟨(hk.storeArgs _ _).printk _ _, rfl, rfl⟩
      | none => exact .some ⟨hk.storeArgs _ _, rfl, rfl⟩
    · exact .some ⟨hk, rfl, rfl⟩
  | stop q i =>
    simp only [xorEncryptSyscall, xorDecrypt, Caller.erase]
    split
    · exact .some ⟨hk, rfl, rfl⟩
    · refine .some ⟨hk, ?_, rfl⟩
      exact congrArg (Caller.save q) (erase_saveDataToFile _ _ _)
  | wait q i =>
    simp only [xorEncryptSyscall, xorDecrypt, Caller.erase]
    cases (ws[i]?).map Worker.pc with
    | none => exact .none
    | some pc =>
      cases pc with
      | exited r => exact .some ⟨hk.printk _ _, rfl, rfl⟩
      | _ => exact .none
  | save q p =>
    cases p with
    | ret r => exact .some ⟨hk, rfl, rfl⟩
    | call op next =>
      have hloud : op.silent = none := by
        cases op with
        | printk e => exact absurd ⟨rfl, q, e, next, rfl⟩ hquiet
        | _ => rfl
      obtain ⟨hanswer, hkernel⟩ := c.exec_alike hk op
      simp only [xorEncryptSyscall, xorDecrypt, Caller.erase, Program.erase_call_of_none hloud]
      refine .some ⟨hkernel, ?_, rfl⟩
      dsimp only [Caller.erase]
      rw [hanswer]
  | cleanup frees r =>
    cases frees with
    | nil => exact .some ⟨hk, rfl, rfl⟩
    | cons p ps => exact .some ⟨(c.exec_alike hk (.kfree p)).2, rfl, rfl⟩
  | returned r => exact .none
  | oops => exact .none

/-- A step of encryption that only writes the log. -/
lemma State.Alike.quietStep (h : s.Alike s') {q : Prepared} {e : LogEntry}
    {next : Unit → KProgram ℤ} (hpc : s.caller = .save q (.call (.printk e) next)) :
    ∃ t, Syscall.encrypt.step c s .caller = some t ∧ t.caller = .save q (next ()) ∧
      t.Alike s' := by
  refine ⟨⟨s.kernel.printk e, .save q (next ()), s.workers⟩, ?_, rfl, h.kernel.printk_left e, ?_,
    h.workers⟩
  · change xorEncryptSyscall c s = _
    simp only [xorEncryptSyscall, hpc]
    rfl
  · rw [← h.caller, hpc]
    have hsilent : Op.silent (.printk e) = some () := rfl
    exact congrArg (Caller.save q) (Program.erase_call_of_some hsilent next).symm

/-- Encryption gets past its log messages. -/
lemma State.Alike.wake (h : s.Alike s') : ∃ acts t, run (Syscall.encrypt.step c) s acts = some t ∧
    AllSteps (Syscall.encrypt.step c) State.Quiet s acts ∧ t.Alike s' ∧ ∀ a, ¬ t.Quiet a := by
  by_cases hsave : ∃ q p, s.caller = .save q p
  · obtain ⟨q, p, hpc⟩ := hsave
    induction p generalizing s with
    | ret r =>
      refine ⟨[], s, rfl, allSteps_nil s, h, ?_⟩
      rintro a ⟨-, q', e, next, hpc'⟩
      rw [hpc] at hpc'
      cases hpc'
    | call op next ih =>
      by_cases hop : ∃ e, op = .printk e
      · obtain ⟨e, rfl⟩ := hop
        obtain ⟨t, hstep, hpc', ht⟩ := h.quietStep (c := c) hpc
        obtain ⟨acts, u, hrun, hquiet, hu, hawake⟩ := ih () ht hpc'
        refine ⟨.caller :: acts, u, by rw [run_cons, hstep, Option.bind_some, hrun], ?_, hu, hawake⟩
        exact allSteps_cons hstep ⟨rfl, q, e, next, hpc⟩ hquiet
      · refine ⟨[], s, rfl, allSteps_nil s, h, ?_⟩
        rintro a ⟨-, q', e, next', hpc'⟩
        rw [hpc] at hpc'
        cases hpc'
        exact hop ⟨e, rfl⟩
  · refine ⟨[], s, rfl, allSteps_nil s, h, ?_⟩
    rintro a ⟨-, q, e, next, hpc⟩
    exact hsave ⟨q, _, hpc⟩

/-- Related states have returned the same value. -/
lemma State.Alike.returned_iff (h : s.Alike s') (r : ℤ) :
    s.caller = .returned r ↔ s'.caller = .returned r := by
  rw [← h.caller]
  cases s.caller with
  | save q p => exact iff_of_false (fun h => by cases h) (fun h => by cases h)
  | _ => exact Iff.rfl

end Alike

/-- The two system calls run in lockstep. -/
theorem lockstep (c : Call) :
    Lockstep (Syscall.encrypt.step c) (Syscall.decrypt.step c) State.Quiet State.Alike where
  loud := by
    intro s s' a h hquiet
    cases a with
    | caller => exact h.syscall hquiet
    | worker i x => exact h.moveWorker fun w => worker_alike h.kernel c.task i x w
    | fault i => exact h.moveWorker fun w => faultStep_alike h.kernel w
  hush := by
    rintro s s' a h ⟨rfl, q, e, next, hpc⟩
    obtain ⟨t, hstep, -, ht⟩ := h.quietStep (c := c) hpc
    exact ⟨t, hstep, ht⟩
  wake := fun s s' h => h.wake

/-- For the same arguments, the same answers of the kernel and the same schedule of the workers, the
runs of `xor_encrypt_syscall` and `xor_decrypt` correspond to each other, and end with the same
return value, the same files, and the same live blocks and open files. -/
theorem encrypt_decrypt_lockstep (c : Call) {k k' : Kernel} (hk : k.Alike k') :
    Lockstep (Syscall.encrypt.step c) (Syscall.decrypt.step c) State.Quiet State.Alike ∧
    (State.start .encrypt c k).Alike (State.start .decrypt c k') ∧
    (∀ acts s, Syscall.encrypt.Run c k acts s → ∃ acts' s', Syscall.decrypt.Run c k' acts' s' ∧
      acts'.filter (· ≠ .caller) = acts.filter (· ≠ .caller) ∧ s.Alike s') ∧
    (∀ acts' s', Syscall.decrypt.Run c k' acts' s' → ∃ acts s, Syscall.encrypt.Run c k acts s ∧
      acts.filter (· ≠ .caller) = acts'.filter (· ≠ .caller) ∧ s.Alike s') ∧
    ∀ s s' : State, s.Alike s' →
      (∀ r, s.caller = .returned r ↔ s'.caller = .returned r) ∧ s.kernel.fs = s'.kernel.fs ∧
        s.kernel.live = s'.kernel.live ∧ s.kernel.files = s'.kernel.files := by
  have hstep := lockstep c
  have hstart : (State.start .encrypt c k).Alike (State.start .decrypt c k') :=
    ⟨hk, congrArg Caller.entry (prepareEncrypt_eq c.args), rfl⟩
  have hquiet : ∀ (s : State) (a : Act), s.Quiet a → decide (a ≠ .caller) = false := by
    rintro s a ⟨rfl, -⟩
    rfl
  refine ⟨hstep, hstart, fun acts s hrun => ?_, fun acts' s' hrun => ?_, fun s s' h => ?_⟩
  · exact hstep.run_forth hquiet hstart hrun
  · exact hstep.run_back hquiet hstart hrun
  · exact ⟨h.returned_iff, h.kernel.fs, h.kernel.live, h.kernel.files⟩

/-- The two system calls for the small call, from a kernel at rest. -/
theorem encrypt_decrypt_lockstep_sample :
    (Kernel.idle sampleFiles).Alike (.idle sampleFiles) ∧
    ∃ s, Syscall.encrypt.Run (sampleCall 1) (.idle sampleFiles) sampleSchedule s ∧
      s.caller = .returned 0 ∧ ∃ acts' s', Syscall.decrypt.Run (sampleCall 1) (.idle sampleFiles)
        acts' s' ∧ s'.caller = .returned 0 ∧ s.kernel.fs = s'.kernel.fs := by
  have hk : (Kernel.idle sampleFiles).Alike (.idle sampleFiles) :=
    ⟨rfl, rfl, rfl, rfl, rfl, rfl, rfl⟩
  obtain ⟨s, hrun, hret, -, -⟩ := Syscall.exists_run_of_outcome sampleCall_outcome
  obtain ⟨-, -, hforth, -, hend⟩ := encrypt_decrypt_lockstep (sampleCall 1) hk
  obtain ⟨acts', s', hrun', -, halike⟩ := hforth _ s hrun
  obtain ⟨hreturned, hfs, -⟩ := hend s s' halike
  exact ⟨hk, s, hrun, hret, acts', s', hrun', (hreturned 0).mp hret, hfs⟩

end XorSyscalls
