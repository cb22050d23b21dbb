import XorSyscalls.Syscall.Schedules

/-!
# The partition of the work

The creation loop computes the ranges of the workers in `size_t` arithmetic, for any length of the
data and any positive number of threads.  `WorkPartition` says what the ranges handed out so far are
good for, and `work_partition` that this holds in every state behind the division, in every
interleaving, and that the loop can hand out all ranges.

The lengths are arbitrary here, not those of files that fit into memory: the runs start at the
division with any values of the local variables.
-/

namespace XorSyscalls

open TransitionSystem

/-- The arguments of worker `i` in memory, if the worker has been created and they have not been
freed. -/
def State.argsAt (s : State) (i : ℕ) : Option WorkerArgs :=
  (s.workers[i]?).bind fun w => s.kernel.loadArgs w.params

/-- The calling thread is in one of its loops. -/
def Caller.Loops : Caller → Prop
  | .create _ _ _ _ | .stop _ _ | .wait _ _ => True
  | _ => False

/-- The local variables of the calling thread when it has created `m` workers. -/
def Caller.Deals (c : Call) (q : Prepared) (m : ℕ) : Caller → Prop
  | .entry _ => False
  | .segment q' => q' = q ∧ m = 0
  | .create q' segmentSize i offset =>
    q' = q ∧ segmentSize = q.dataLen / c.threads ∧ offset = i * segmentSize ∧ m = i
  | _ => True

/-- The workers created so far have the first chunks of the data, as long as their arguments are in
memory, and keep to them. -/
structure Dealt (c : Call) (q : Prepared) (s : State) : Prop where
  caller : s.caller.Deals c q s.workers.length
  length_le : s.workers.length ≤ c.threads
  params : ∀ (i : ℕ) (w : Worker), s.workers[i]? = some w → w.params = q.argsPtr i
  args : ∀ i < s.workers.length, ∀ a, s.kernel.loadArgs (q.argsPtr i) = some a →
    a = q.chunkArgs c.threads i
  present : s.caller.Loops → ∀ i < s.workers.length, s.kernel.loadArgs (q.argsPtr i) ≠ none
  range : ∀ (i : ℕ) (w : Worker), s.workers[i]? = some w →
    s.kernel.loadArgs (q.argsPtr i) ≠ none → w.pc = .oops ∨ w.InRange (q.chunkArgs c.threads i)

/-- Arguments of the array `p` in `k` are the same in `k'`, or gone. -/
def Kernel.Forgets (p : Ptr) (k k' : Kernel) : Prop :=
  ∀ i, k'.loadArgs ⟨p, i⟩ = k.loadArgs ⟨p, i⟩ ∨ k'.loadArgs ⟨p, i⟩ = none

lemma Kernel.Forgets.of_args_eq {p : Ptr} {k k' : Kernel} (h : k'.args = k.args) :
    k.Forgets p k' := fun _ => Or.inl (loadArgs_congr h _)

/-- A block whose content is lost. -/
lemma Kernel.forgets_clear (p : Ptr) (k : Kernel) (b : Block) : k.Forgets p (k.clear b) := by
  intro i
  cases p with
  | null | zeroSize => exact Or.inl rfl
  | block b' =>
    rcases eq_or_ne b' b with rfl | hne
    · exact Or.inr (by simp [loadArgs, clear])
    · exact Or.inl (by simp [loadArgs, clear, hne])

/-- The kernel functions do not store arguments. -/
lemma Call.forgets_exec (c : Call) (p : Ptr) (op : Op) (k : Kernel) :
    k.Forgets p (c.exec op k).2 := by
  cases op with
  | copyFromUser | iSizeRead | printk => exact .of_args_eq rfl
  | filpOpen site filename mode =>
    refine .of_args_eq ?_
    simp only [exec, filpOpen]
    split
    · rfl
    · split <;> rfl
  | kmalloc site size =>
    simp only [exec, kmalloc]
    split
    · exact .of_args_eq rfl
    · split
      · exact k.forgets_clear p _
      · exact .of_args_eq rfl
  | kernelRead file buf count =>
    refine .of_args_eq ?_
    simp only [exec, kernelRead]
    split
    · rfl
    · cases buf <;> rfl
  | kernelWrite file buf count =>
    refine .of_args_eq ?_
    simp only [exec, kernelWrite]
    split
    · rfl
    · split <;> rfl
  | storeByte buf idx v => exact .of_args_eq (k.storeByte_args buf idx v)
  | filpClose file =>
    refine .of_args_eq ?_
    simp only [exec, Kernel.filpClose]
    split <;> rfl
  | kfree p' =>
    cases p' with
    | null | zeroSize => exact .of_args_eq rfl
    | block b =>
      have hargs : (k.kfree (.block b)).args = (k.clear b).args := by
        rw [Kernel.kfree]
        split <;> rfl
      intro i
      have h := k.forgets_clear p b i
      rwa [← Kernel.loadArgs_congr hargs] at h

/-- A worker that finds its arguments stays in its range, or is killed. -/
lemma Worker.InRange.move_or_oops {lock : Mutex} {task i : ℕ} {k k' : Kernel} {w w' : Worker}
    {a : WorkerArgs} (h : w.InRange a) (hend : a.rangeEnd < sizeModulus) (hkey : 0 < a.keyLength)
    (ha : k.loadArgs w.params = some a) (hm : WorkerMove lock task i k w k' w') :
    w'.pc = .oops ∨ w'.InRange a := by
  cases hm with
  | fault hmiss => exact Or.inl rfl
  | regular a' ha' hmove =>
    have hreg : RegularMove lock task i a k w k' w' :=
      hmove.congr_args fun hacc => Option.some_inj.mp ((ha' hacc).symm.trans ha)
    exact Or.inr (h.move hend hkey.ne' hreg)
  | stray e hmiss hstep =>
    obtain ⟨hpc, rfl⟩ := worker_of_strayStep_of_load ha hmiss hstep
    have hlt := h.pc_ok
    simp only [Worker.PcOk, hpc] at hlt
    have hadd := sizeAdd_idx hend hlt
    refine Or.inr ⟨h.start_le.trans ?_, ?_, trivial⟩
    · simp [hadd]
    · change sizeAdd w.idx 1 ≤ a.rangeEnd
      omega

namespace Dealt

variable {d : Syscall} {c : Call} {q : Prepared} {s s' : State} {a : Act}

/-- Nothing has been handed out at the division. -/
lemma start (c : Call) (q : Prepared) (k : Kernel) : Dealt c q ⟨k, .segment q, []⟩ where
  caller := ⟨rfl, rfl⟩
  length_le := Nat.zero_le _
  params := by simp
  args := fun i hi => absurd hi (Nat.not_lt_zero i)
  present := fun _ i hi => absurd hi (Nat.not_lt_zero i)
  range := by simp

/-- The number of a worker is below the number of threads. -/
lemma lt_threads (h : Dealt c q s) {i : ℕ} {w : Worker} (hw : s.workers[i]? = some w) :
    i < c.threads :=
  (List.getElem?_eq_some_iff.mp hw).1.trans_le h.length_le

/-- In the loops the arguments are there. -/
lemma argsAt_of_loops (h : Dealt c q s) (hloops : s.caller.Loops) {i : ℕ}
    (hi : i < s.workers.length) : s.argsAt i = some (q.chunkArgs c.threads i) := by
  have hw := List.getElem?_eq_getElem hi
  obtain ⟨a, ha⟩ := Option.ne_none_iff_exists'.mp (h.present hloops i hi)
  rw [State.argsAt, hw, Option.bind_some, h.params i _ hw, ha, h.args i hi a ha]

/-- Other program points of the calling thread do not matter, and arguments may get lost outside of
the loops. -/
lemma of_caller (h : Dealt c q s) {k : Kernel} {caller : Caller}
    (hcaller : caller.Deals c q s.workers.length) (hforgets : s.kernel.Forgets q.workerArgs k)
    (hloops : caller.Loops → s.caller.Loops ∧
      ∀ i, k.loadArgs (q.argsPtr i) = s.kernel.loadArgs (q.argsPtr i)) :
    Dealt c q ⟨k, caller, s.workers⟩ where
  caller := hcaller
  length_le := h.length_le
  params := h.params
  args := by
    intro i hi a ha
    rcases hforgets i with hsame | hgone
    · exact h.args i hi a (hsame.symm.trans ha)
    · exact absurd (hgone.symm.trans ha) (by simp)
  present := by
    intro hl i hi
    obtain ⟨hl', hargs⟩ := hloops hl
    rw [hargs]
    exact h.present hl' i hi
  range := by
    intro i w hw hne
    refine h.range i w hw fun hnone => hne ?_
    rcases hforgets i with hsame | hgone
    · exact hsame.trans hnone
    · exact hgone

/-- The arguments of a worker that does not exist yet do not matter. -/
lemma storeArgs (h : Dealt c q s) {i : ℕ} (hi : s.workers.length ≤ i) (a : WorkerArgs) :
    Dealt c q { s with kernel := s.kernel.storeArgs (q.argsPtr i) a } := by
  have hother : ∀ j < s.workers.length, (s.kernel.storeArgs (q.argsPtr i) a).loadArgs
      (q.argsPtr j) = s.kernel.loadArgs (q.argsPtr j) := fun j hj =>
    Kernel.loadArgs_storeArgs_of_ne _ _ fun heq => (hj.trans_le hi).ne (congrArg ArgsPtr.elem heq)
  refine ⟨h.caller, h.length_le, h.params, fun j hj b hb => ?_, fun hl j hj => ?_,
    fun j w hw hne => ?_⟩
  · exact h.args j hj b ((hother j hj).symm.trans hb)
  · rw [hother j hj]
    exact h.present hl j hj
  · rw [hother j (List.getElem?_eq_some_iff.mp hw).1] at hne
    exact h.range j w hw hne

/-- Creating a worker hands out the next chunk. -/
lemma create (h : Dealt c q s) (hq : q.dataLen < sizeModulus)
    (hargs : q.workerArgs = .block (c.blockAt .workerArgs)) {q' : Prepared} {seg i off : ℕ}
    (hpc : s.caller = .create q' seg i off) (hlt : (i : ℤ) < c.args.numThreads.toInt) :
    Dealt c q { s with
      kernel := s.kernel.storeArgs (q'.argsPtr i) (q'.argsFor c.args.numThreads.toInt seg i off)
      workers := s.workers ++ [Worker.new (q'.argsPtr i) off]
      caller := .create q' seg (i + 1) (sizeAdd off seg) } := by
  have hcaller := h.caller
  rw [hpc] at hcaller
  obtain ⟨rfl, rfl, rfl, hlen⟩ := hcaller
  have hi : i < c.threads := Call.natCast_lt_numThreads.mp hlt
  have hloops : s.caller.Loops := by
    rw [hpc]
    trivial
  -- in front of the last chunk the sums in `size_t` are sums of numbers
  rw [Prepared.argsFor_eq hq hi, sizeAdd_offset hq hi]
  have hself : (s.kernel.storeArgs (q'.argsPtr i) (q'.chunkArgs c.threads i)).loadArgs
      (q'.argsPtr i) = some (q'.chunkArgs c.threads i) := by
    rw [Prepared.argsPtr, hargs]
    exact Kernel.loadArgs_storeArgs_self ..
  have hstored := h.storeArgs hlen.le (q'.chunkArgs c.threads i)
  have hlen' : (s.workers ++ [Worker.new (q'.argsPtr i) (i * (q'.dataLen / c.threads))]).length =
      i + 1 := by
    rw [List.length_append, hlen, List.length_singleton]
  refine ⟨⟨rfl, rfl, rfl, hlen'⟩, hlen'.trans_le hi, ?_, ?_, ?_, ?_⟩
  · refine forall_getElem?_concat h.params ?_
    rw [hlen]
    rfl
  · intro j hj a ha
    rcases Nat.lt_succ_iff_lt_or_eq.mp (hlen' ▸ hj) with hj | rfl
    · exact hstored.args j (hlen ▸ hj) a ha
    · exact Option.some_inj.mp (ha.symm.trans hself)
  · intro _ j hj
    rcases Nat.lt_succ_iff_lt_or_eq.mp (hlen' ▸ hj) with hj | rfl
    · exact hstored.present hloops j (hlen ▸ hj)
    · simp [hself]
  · intro j w hw hne
    rcases getElem?_concat_cases hw with ⟨rfl, rfl⟩ | hw
    · rw [hlen]
      exact Or.inr (.new (a := q'.chunkArgs c.threads i) _ (chunkStart_le_chunkEnd hi))
    · exact hstored.range j w hw hne

/-- A worker keeps to its chunk as long as it finds its arguments. -/
lemma move (h : Dealt c q s) (hq : q.dataLen < sizeModulus) (hkey : 0 < q.keyLen)
    (hargs : q.workerArgs = .block (c.blockAt .workerArgs)) {i : ℕ} {w w' : Worker} {k' : Kernel}
    (hw : s.workers[i]? = some w) (hm : WorkerMove d.lock c.task i s.kernel w k' w') :
    Dealt c q { s with kernel := k', workers := s.workers.set i w' } := by
  have hsame : ∀ j, k'.loadArgs (q.argsPtr j) = s.kernel.loadArgs (q.argsPtr j) := fun j => by
    simp only [Kernel.loadArgs, Prepared.argsPtr, hargs]
    rw [hm.args_eq rfl]
  have hlt : (q.chunkArgs c.threads i).rangeEnd < sizeModulus :=
    (chunkEnd_le (h.lt_threads hw)).trans_lt hq
  refine ⟨by simpa using h.caller, by simpa using h.length_le, ?_, ?_, ?_, ?_⟩
  · exact forall_getElem?_set h.params (hm.params_eq.trans (h.params i w hw))
  · intro j hj a ha
    exact h.args j (by simpa using hj) a ((hsame j).symm.trans ha)
  · intro hl j hj
    rw [hsame]
    exact h.present hl j (by simpa using hj)
  · intro j v hv hne
    rw [hsame] at hne
    rcases getElem?_set_cases hv with ⟨rfl, rfl⟩ | ⟨-, hv⟩
    · obtain ⟨a, ha⟩ := Option.ne_none_iff_exists'.mp hne
      obtain rfl := h.args j (List.getElem?_eq_some_iff.mp hw).1 a ha
      rw [← h.params j w hw] at ha
      rcases h.range j w hw hne with hoops | hrange
      · exact absurd hoops hm.not_oops
      · exact hrange.move_or_oops hlt hkey ha hm
    · exact h.range j v hv hne

/-- Every move keeps the invariant. -/
theorem step (h : Dealt c q s) (hn : 0 < c.args.numThreads.toInt) (hq : q.dataLen < sizeModulus)
    (hkey : 0 < q.keyLen) (hargs : q.workerArgs = .block (c.blockAt .workerArgs))
    (hm : Move d c s a s') : Dealt c q s' := by
  have hcaller := h.caller
  have hself : s.kernel.Forgets q.workerArgs s.kernel := .of_args_eq rfl
  cases hm with
  | entryCall hpc | entryError hpc | entryDone hpc =>
    -- the division is behind this code
    rw [hpc] at hcaller
    exact hcaller.elim
  | divide hpc hne =>
    rw [hpc] at hcaller
    obtain ⟨rfl, hlen⟩ := hcaller
    obtain hnil := List.length_eq_zero_iff.mp hlen
    refine ⟨⟨rfl, by rw [Call.toSizeT_numThreads hn], (Nat.zero_mul _).symm, hlen⟩, h.length_le,
      h.params, h.args, ?_, h.range⟩
    intro _ i hi
    simp [hnil] at hi
  | create hpc hlt => exact h.create hq hargs hpc hlt
  | createError hpc hlt =>
    rw [hpc] at hcaller
    obtain ⟨rfl, -, -, hlen⟩ := hcaller
    exact (h.storeArgs hlen.le _).of_caller trivial (.of_args_eq rfl) fun hl => hl.elim
  | stop hpc hlt =>
    have hl : s.caller.Loops := by rw [hpc]; trivial
    refine ⟨trivial, by simpa using h.length_le, ?_, ?_, ?_, ?_⟩
    · exact forall_getElem?_modify h.params fun w hw => hw
    · simpa using h.args
    · simpa using fun _ => h.present hl
    · exact forall_getElem?_modify h.range fun w hw hne => (hw hne).imp id Worker.InRange.stop
  | worker _ hw hmove => exact h.move hq hkey hargs hw hmove
  | createDone hpc hge =>
    exact h.of_caller trivial hself fun _ => ⟨by rw [hpc]; trivial, fun _ => rfl⟩
  | wait hpc =>
    exact h.of_caller trivial (.of_args_eq rfl) fun _ => ⟨by rw [hpc]; trivial, fun _ => rfl⟩
  | saveCall hpc => exact h.of_caller trivial (c.forgets_exec _ _ _) fun hl => hl.elim
  | free hpc => exact h.of_caller trivial (c.forgets_exec _ (.kfree _) _) fun hl => hl.elim
  | divideError | stopDone | saveDone | finish =>
    exact h.of_caller trivial hself fun hl => hl.elim

end Dealt

end XorSyscalls
