import XorSyscalls.Syscall.Schedules

/-!
# Memory and open files at the return

A call acquires up to four blocks and opens three files.  `Kernel.held` is what it must leave as it
found it: the live blocks, the open files, and the blocks and files released twice so far.  At every
program point the pointers still to be freed are known, and freeing them would restore `held`
(`State.Owes`).

There is one exception.  If one of the two arrays can be allocated and the other cannot, the call
returns `-ENOMEM` without freeing the one it has, so the live blocks grow by it.
`releases_everything_iff` says that this is the only leak.
-/

namespace XorSyscalls

open TransitionSystem

/-! ## What a call must restore -/

/-- A block or a file was released twice. -/
def Misuse.isDoubleRelease : Misuse → Bool
  | .doubleFree _ | .doubleClose _ => true
  | .useAfterFree _ => false

namespace Kernel

/-- The live blocks, the open files and what was released twice. -/
def held (k : Kernel) : List Block × List OpenFile × List Misuse :=
  (k.live, k.files, k.misuses.filter Misuse.isDoubleRelease)

/-- Free several pointers. -/
def kfreeAll (k : Kernel) (ps : List Ptr) : Kernel := ps.foldl kfree k

variable {k k' : Kernel}

/-- Freeing memory depends on nothing else. -/
lemma held_kfree_congr (h : k.held = k'.held) (p : Ptr) : (k.kfree p).held = (k'.kfree p).held := by
  simp only [held, Prod.mk.injEq] at h
  obtain ⟨hlive, hfiles, hmisuses⟩ := h
  cases p with
  | null | zeroSize => simp only [kfree, held, hlive, hfiles, hmisuses]
  | block b =>
    simp only [kfree, hlive]
    split
    · simp only [held, clear, hfiles, hmisuses]
    · simp only [held, clear, List.filter_cons_of_pos (p := Misuse.isDoubleRelease)
        (a := .doubleFree b) rfl, hlive, hfiles, hmisuses]

lemma held_kfreeAll_congr (h : k.held = k'.held) (ps : List Ptr) :
    (k.kfreeAll ps).held = (k'.kfreeAll ps).held := by
  unfold kfreeAll
  induction ps generalizing k k' with
  | nil => exact h
  | cons p ps ih => exact ih (held_kfree_congr h p)

/-- Logging does not touch them. -/
lemma held_printk (k : Kernel) (e : LogEntry) : (k.printk e).held = k.held := rfl

/-- Storing arguments does not touch them. -/
lemma held_storeArgs (k : Kernel) (p : ArgsPtr) (a : WorkerArgs) :
    (k.storeArgs p a).held = k.held := rfl

/-- An access to freed memory is no release. -/
lemma Strayed.held_eq {task : ℕ} (h : k.Strayed task k') : k'.held = k.held := by
  obtain ⟨bs, hbs⟩ := h.misuses
  have hnone : (Misuse.isDoubleRelease ∘ Misuse.useAfterFree) = fun _ => false := rfl
  simp only [held, h.live, h.files, hbs, List.filter_append, List.filter_map, hnone,
    List.filter_false, List.map_nil, List.nil_append]

end Kernel

/-- Workers do not touch them. -/
lemma WorkerMove.held_eq {lock : Mutex} {task i : ℕ} {k k' : Kernel} {w w' : Worker}
    (h : WorkerMove lock task i k w k' w') : k'.held = k.held := by
  cases h with
  | regular a ha hmove =>
    cases hmove with
    | xor => rw [Kernel.storeByte_eq]; rfl
    | _ => rfl
  | stray e hmiss hstep => exact (strayed_of_workerStep hmiss hstep).held_eq
  | fault hmiss => rfl

/-- The writers close the file that they open. -/
lemma Syscall.held_eval_save (d : Syscall) (c : Call) (filename : List UInt8) (p : Ptr) (n : ℕ)
    (k : Kernel) : ((d.save filename p n).eval c.exec k).2.held = k.held := by
  obtain ⟨log, heval⟩ := d.eval_save c filename p n k
  rw [heval]
  rfl

/-! ## The code in front of the division -/

section Prepare

variable {c : Call} {k : Kernel}

/-- An array is refused, or it is empty, or it is a block of its own. -/
lemma Call.arrayPtr_cases (c : Call) (site : Site) (elem : ℕ) :
    c.arrayPtr site elem = .null ∨ (c.arraySize elem = 0 ∧ c.arrayPtr site elem = .zeroSize) ∨
      c.arrayPtr site elem = .block (c.blockAt site) := by
  unfold arrayPtr
  split
  · exact Or.inl rfl
  · split
    · rename_i hzero
      exact Or.inr (Or.inl ⟨hzero, rfl⟩)
    · split
      · exact Or.inr (Or.inr rfl)
      · exact Or.inl rfl

/-- An array that is refused is not empty, and then neither is the other one. -/
lemma Call.arrayPtr_eq_block {site site' : Site} {elem elem' : ℕ} (helem : 0 < elem')
    (h : c.arrayPtr site elem = .null) (h' : c.arrayPtr site' elem' ≠ .null) :
    c.arrayPtr site' elem' = .block (c.blockAt site') := by
  rcases c.arrayPtr_cases site' elem' with hnull | ⟨hzero, -⟩ | hblock
  · exact absurd hnull h'
  · have hn : toSizeT c.args.numThreads.toInt = 0 := by
      rcases Nat.mul_eq_zero.mp hzero with hn | hz
      · exact hn
      · omega
    have hsize : c.arraySize elem = 0 := by simp [arraySize, hn]
    simp [arrayPtr, hsize, sizeModulus] at h
  · exact hblock

/-- The blocks after the allocation of an array. -/
lemma Call.arrayKernel_eq (c : Call) (site : Site) (elem : ℕ) (k : Kernel) :
    ∃ mem args, c.arrayKernel site elem k =
      { k with mem, args, live := if c.arrayPtr site elem = .block (c.blockAt site)
        then c.blockAt site :: k.live else k.live } := by
  unfold arrayKernel
  rcases c.arrayPtr_cases site elem with h | ⟨-, h⟩ | h <;> rw [h]
  · exact ⟨k.mem, k.args, by simp⟩
  · exact ⟨k.mem, k.args, by simp⟩
  · exact ⟨_, _, by simp only [if_true]; rfl⟩

/-- The live blocks at the division. -/
lemma Inputs.kernel_eq (inp : Inputs c k.fs) :
    ∃ mem args, inp.kernel k = { k with mem, args, live :=
      (if c.arrayPtr .workerArgs workerArgsSize = .block (c.blockAt .workerArgs)
        then [c.blockAt .workerArgs] else []) ++
      (if c.arrayPtr .workers taskPtrSize = .block (c.blockAt .workers)
        then [c.blockAt .workers] else []) ++ c.blockAt .key :: c.blockAt .data :: k.live } := by
  unfold kernel
  obtain ⟨mem, args, h⟩ := c.arrayKernel_eq .workers taskPtrSize (inp.loadedKernel k)
  rw [h]
  obtain ⟨mem', args', h'⟩ := c.arrayKernel_eq .workerArgs workerArgsSize _
  refine ⟨mem', args', h'.trans ?_⟩
  split <;> split <;> rfl

/-- Freeing what the local variables point to restores everything. -/
lemma Inputs.held_kfreeAll (inp : Inputs c k.fs) (harr : c.ArraysAllocated) :
    ((inp.kernel k).kfreeAll inp.prepared.frees).held = k.held := by
  obtain ⟨mem, args, h⟩ := inp.kernel_eq
  rw [h]
  simp only [prepared, Prepared.frees]
  rcases c.arrayPtr_cases .workers taskPtrSize with hw | ⟨-, hw⟩ | hw
  · exact absurd hw harr.1
  all_goals
    rcases c.arrayPtr_cases .workerArgs workerArgsSize with ha | ⟨-, ha⟩ | ha
    · exact absurd ha harr.2
    all_goals simp [hw, ha, Kernel.kfreeAll, Kernel.kfree, Kernel.clear, Kernel.held, Call.blockAt]

/-- Without the arrays, freeing the two buffers restores everything. -/
lemma Inputs.held_kfree_buffers (inp : Inputs c k.fs)
    (hw : c.arrayPtr .workers taskPtrSize = .null)
    (ha : c.arrayPtr .workerArgs workerArgsSize = .null) :
    (((inp.kernel k).kfree (.block (c.blockAt .data))).kfree (.block (c.blockAt .key))).held =
      k.held := by
  obtain ⟨mem, args, h⟩ := inp.kernel_eq
  rw [h]
  simp [hw, ha, Kernel.kfree, Kernel.clear, Kernel.held, Call.blockAt]

/-- With only one of the arrays, freeing the two buffers leaves it. -/
lemma Inputs.live_kfree_buffers (inp : Inputs c k.fs)
    (h : ¬ (c.arrayPtr .workers taskPtrSize = .null ↔
      c.arrayPtr .workerArgs workerArgsSize = .null)) :
    ∃ b, (((inp.kernel k).kfree (.block (c.blockAt .data))).kfree
      (.block (c.blockAt .key))).live = b :: k.live := by
  obtain ⟨mem, args, hk⟩ := inp.kernel_eq
  rw [hk]
  by_cases hw : c.arrayPtr .workers taskPtrSize = .null
  · have ha : c.arrayPtr .workerArgs workerArgsSize ≠ .null := fun ha => h (iff_of_true hw ha)
    have hblock := Call.arrayPtr_eq_block (by decide : 0 < workerArgsSize) hw ha
    exact ⟨c.blockAt .workerArgs, by simp [hw, hblock, Kernel.kfree, Kernel.clear, Call.blockAt]⟩
  · have ha : c.arrayPtr .workerArgs workerArgsSize = .null := by
      by_contra ha
      exact h (iff_of_false hw ha)
    have hblock := Call.arrayPtr_eq_block (by decide : 0 < taskPtrSize) ha hw
    exact ⟨c.blockAt .workers, by simp [ha, hblock, Kernel.kfree, Kernel.clear, Call.blockAt]⟩

/-- An early return has released everything, if the arrays are refused together. -/
lemma held_of_eval_prepare_error (d : Syscall)
    (hboth : Nonempty (Inputs c k.fs) → (c.arrayPtr .workers taskPtrSize = .null ↔
      c.arrayPtr .workerArgs workerArgsSize = .null))
    {r : ℤ} {k' : Kernel} (h : (prepare d c.args).eval c.exec k = (.error r, k')) :
    k'.held = k.held := by
  by_cases hinp : Nonempty (Inputs c k.fs)
  · obtain ⟨inp⟩ := hinp
    have hiff := hboth ⟨inp⟩
    rw [eval_prepare_of_inputs d inp] at h
    split at h
    · rename_i hnull
      cases h
      rcases hnull with hw | ha
      · exact inp.held_kfree_buffers hw (hiff.mp hw)
      · exact inp.held_kfree_buffers (hiff.mpr ha) ha
    · cases h
  · obtain ⟨e, mem, args, heval⟩ := eval_prepare_of_no_inputs d fun inp => hinp ⟨inp⟩
    cases heval.symm.trans h
    rfl

end Prepare

/-! ## Along a run -/

/-- Freeing what the calling thread has still to free restores what there was in `k₀`. -/
def State.Owes (c : Call) (k₀ : Kernel) (s : State) : Prop :=
  match s.caller with
  | .entry _ | .oops => True
  | .segment q | .create q _ _ _ | .stop q _ | .wait q _ =>
    (s.kernel.kfreeAll q.frees).held = k₀.held
  | .save q p => ((p.eval c.exec s.kernel).2.kfreeAll q.frees).held = k₀.held
  | .cleanup frees _ => (s.kernel.kfreeAll frees).held = k₀.held
  | .returned _ => s.kernel.held = k₀.held

section Run

variable {d : Syscall} {c : Call} {k₀ : Kernel} {acts : List Act} {s s' : State}

/-- Steps that change nothing of it keep what is owed. -/
lemma State.Owes.of_held (h : s.Owes c k₀) (hsave : ∀ q p, s.caller ≠ .save q p)
    (hcaller : s'.caller = s.caller) (hheld : s'.kernel.held = s.kernel.held) : s'.Owes c k₀ := by
  unfold Owes at h ⊢
  rw [hcaller]
  cases hpc : s.caller with
  | entry | oops => trivial
  | segment q | create q | stop q | wait q | cleanup q =>
    rw [hpc] at h
    exact (Kernel.held_kfreeAll_congr hheld _).trans h
  | save q p => exact absurd hpc (hsave q p)
  | returned r =>
    rw [hpc] at h
    exact hheld.trans h

/-- Every step keeps what is owed, if the arrays are refused together. -/
lemma State.Owes.step (hboth : Nonempty (Inputs c k₀.fs) →
      (c.arrayPtr .workers taskPtrSize = .null ↔ c.arrayPtr .workerArgs workerArgsSize = .null))
    (hrun : d.Run c k₀ acts s) (h : s.Owes c k₀) {a : Act} (hstep : d.step c s a = some s') :
    s'.Owes c k₀ := by
  have hinv := Inv.of_run hrun
  cases Syscall.move_of_step hstep with
  | entryCall | divideError => trivial
  | entryError hpc =>
    obtain ⟨-, heval⟩ := hinv.at_entry hpc
    exact held_of_eval_prepare_error d hboth heval.symm
  | entryDone hpc =>
    obtain ⟨-, heval⟩ := hinv.at_entry hpc
    rcases eval_prepare d c k₀ with ⟨e, k', herr, -⟩ | ⟨inp, harr, hok⟩
    · cases heval.trans herr
    · obtain ⟨hq, hk⟩ := Prod.mk.inj (heval.trans hok)
      obtain rfl := Except.ok.inj hq
      change (s.kernel.kfreeAll inp.prepared.frees).held = k₀.held
      rw [hk]
      exact inp.held_kfreeAll harr
  | divide hpc | createDone hpc | stop hpc | saveCall hpc | saveDone hpc | free hpc
  | finish hpc =>
    simp only [Owes, hpc] at h
    exact h
  | create hpc =>
    simp only [Owes, hpc] at h
    exact (Kernel.held_kfreeAll_congr (s.kernel.held_storeArgs _ _) _).trans h
  | createError hpc =>
    simp only [Owes, hpc] at h
    exact (Kernel.held_kfreeAll_congr ((Kernel.held_printk _ _).trans
      (s.kernel.held_storeArgs _ _)) _).trans h
  | wait hpc =>
    simp only [Owes, hpc] at h
    exact (Kernel.held_kfreeAll_congr (s.kernel.held_printk _) _).trans h
  | stopDone hpc =>
    simp only [Owes, hpc] at h
    exact (Kernel.held_kfreeAll_congr (d.held_eval_save c _ _ _ _) _).trans h
  | worker ha hw hmove =>
    refine h.of_held (fun q p hpc => ?_) rfl hmove.held_eq
    -- the workers have exited before the writer starts
    obtain ⟨inp, k, -, -, -, hlen, -, hexit, -⟩ := hinv.at_save hpc
    obtain ⟨r, hr⟩ := hexit _ _ hw (hlen ▸ (List.getElem?_eq_some_iff.mp hw).1)
    exact hmove.not_exited r hr

/-- A run of a call that has only one of its arrays to the early return. -/
lemma exists_run_leak (d : Syscall) (inp : Inputs c k₀.fs)
    (h : ¬ (c.arrayPtr .workers taskPtrSize = .null ↔
      c.arrayPtr .workerArgs workerArgsSize = .null)) :
    ∃ acts s b, d.Run c k₀ acts s ∧ s.caller = .returned Errno.enomem.ret ∧
      s.kernel.live = b :: k₀.live := by
  have hnull : c.arrayPtr .workers taskPtrSize = .null ∨
      c.arrayPtr .workerArgs workerArgsSize = .null := by
    by_contra hno
    obtain ⟨hw, ha⟩ := not_or.mp hno
    exact h (iff_of_false hw ha)
  have hentry := reaches_entry (d := d) (c := c) (s := State.start d c k₀) _ rfl
  simp only [State.start, d.prepares_eq, eval_prepare_of_inputs d inp, if_pos hnull] at hentry
  rw [← d.prepares_eq] at hentry
  obtain ⟨acts, hacts⟩ := hentry.trans (Reaches.single .caller (d.step_caller c _))
  obtain ⟨b, hb⟩ := inp.live_kfree_buffers h
  exact ⟨acts, _, b, hacts, rfl, hb⟩

end Run

/-- A call leaves the live blocks and the open files as it found them and releases nothing twice, on
every path to its return, iff it does not get one of its two arrays without the other. -/
theorem releases_everything_iff (d : Syscall) (c : Call) (k₀ : Kernel) :
    (∀ acts s, d.Run c k₀ acts s → ∀ r, s.caller = .returned r →
      s.kernel.live = k₀.live ∧ s.kernel.files = k₀.files ∧
        s.kernel.misuses.filter Misuse.isDoubleRelease =
          k₀.misuses.filter Misuse.isDoubleRelease) ↔
      (Nonempty (Inputs c k₀.fs) → (c.arrayPtr .workers taskPtrSize = .null ↔
        c.arrayPtr .workerArgs workerArgsSize = .null)) := by
  constructor
  · rintro hall ⟨inp⟩
    by_contra hone
    obtain ⟨acts, s, b, hrun, hret, hlive⟩ := exists_run_leak d inp hone
    have hsame := (hall acts s hrun _ hret).1
    exact List.cons_ne_self b k₀.live (hlive.symm.trans hsame)
  · intro hboth acts s hrun r hret
    have howes : s.Owes c k₀ := run_induction (motive := fun _ s => s.Owes c k₀) trivial
      (fun _ _ _ _ ht hs hstep => hs.step hboth ht hstep) hrun
    simp only [State.Owes, hret, Kernel.held, Prod.mk.injEq] at howes
    exact howes

/-- The small call in a system that has no memory for the second array. -/
def failingSecondArray : Call :=
  { sampleCall 1 with env := { sampleEnv with allocates := fun site => site ≠ .workerArgs } }

/-- It returns `-ENOMEM` and keeps the first array. -/
theorem first_array_leaks :
    ∃ s, Syscall.encrypt.Run failingSecondArray (.idle sampleFiles) (List.replicate 19 .caller) s ∧
      s.caller = .returned Errno.enomem.ret ∧ (Kernel.idle sampleFiles).live = [] ∧
      s.kernel.live = [⟨1, .workers⟩] := by
  have hout : (run (Syscall.encrypt.step failingSecondArray)
      (.start .encrypt failingSecondArray (.idle sampleFiles)) (List.replicate 19 .caller)).map
        (fun s => (s.caller.result, s.kernel.live)) =
      some (some Errno.enomem.ret, [⟨1, .workers⟩]) := by
    decide +kernel
  obtain ⟨s, hrun, hs⟩ := Option.map_eq_some_iff.mp hout
  obtain ⟨hresult, hlive⟩ := Prod.mk.inj hs
  exact ⟨s, hrun, Caller.eq_returned hresult, rfl, hlive⟩

end XorSyscalls
