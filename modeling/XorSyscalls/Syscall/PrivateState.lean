import XorSyscalls.Syscall.Discipline
import XorSyscalls.Syscall.Workers

/-!
# The private state of a call

The program point of the calling thread and its workers are private to a call, the kernel state is
not.  `State.Sound` is an invariant of the private part alone: the rest of the sequential code keeps
to the operations of the call, and the loops count the workers.  `State.Sound.step` proves it for
steps from any kernel state, so it also holds when other calls run in between.
-/

namespace XorSyscalls

/-- The rest of the code of the calling thread keeps to the operations of the call. -/
def Caller.Sound (c : Call) : Caller → Prop
  | .entry p => p.Meets c.Allowed c.Answers c.Outcome
  | .segment q | .create q _ _ _ | .stop q _ | .wait q _ => q.Sound c
  | .save q p => q.Sound c ∧ p.Meets c.Allowed c.Answers fun _ => True
  | .cleanup frees _ => ∀ p ∈ frees, c.Owns p
  | .returned _ | .oops => True

/-- The loops of the calling thread count its workers; `m` is the number of workers so far. -/
def Caller.Counts (c : Call) (m : ℕ) : Caller → Prop
  | .entry _ | .segment _ => m = 0
  | .create _ _ i _ => m = i ∧ i ≤ c.threads
  | .stop _ _ => m = c.threads
  | .wait _ i => m = c.threads ∧ i < c.threads
  | .save _ _ | .cleanup _ _ | .returned _ | .oops => True

/-- The private state of a call is in order. -/
structure State.Sound (c : Call) (s : State) : Prop where
  caller : s.caller.Sound c
  counts : s.caller.Counts c s.workers.length
  created : ∀ i < s.workers.length, c.env.threadError i = none

namespace State.Sound

variable {d : Syscall} {c : Call} {s s' : State}

/-- The private state is in order at the entry. -/
lemma start (d : Syscall) (c : Call) (k : Kernel) : (State.start d c k).Sound c := by
  refine ⟨?_, rfl, fun i hi => absurd hi (Nat.not_lt_zero i)⟩
  rw [State.start, d.prepares_eq]
  exact prepare_meets d c

/-- The kernel state does not matter. -/
lemma of_kernel (h : s.Sound c) (k : Kernel) : ({ s with kernel := k } : State).Sound c :=
  ⟨h.caller, h.counts, h.created⟩

/-- The pointers freed behind `cleanup` are those of the call. -/
lemma owns_frees {q : Prepared} (hq : q.Sound c) : ∀ p ∈ q.frees, c.Owns p := by
  have hdata : c.Owns q.fileData := hq.fileData_eq ▸ Call.owns_blockAt _
  have hkey : c.Owns q.keyData := hq.keyData_eq ▸ Call.owns_blockAt _
  intro p hp
  simp only [Prepared.frees, List.mem_cons, List.not_mem_nil, or_false] at hp
  rcases hp with rfl | rfl | rfl | rfl
  · exact hdata
  · exact hkey
  · exact hq.workers_eq ▸ Call.owns_arrayPtr _ _
  · exact hq.workerArgs_eq ▸ Call.owns_arrayPtr _ _

/-- Every step keeps the private state in order. -/
theorem step (h : s.Sound c) {a : Act} (hstep : d.step c s a = some s') : s'.Sound c := by
  have hcaller := h.caller
  have hcounts := h.counts
  cases Syscall.move_of_step hstep with
  | entryCall hpc =>
    rw [hpc] at hcaller hcounts
    exact ⟨hcaller.2 _ (c.exec_answers _ _), hcounts, h.created⟩
  | entryError hpc => exact ⟨trivial, trivial, h.created⟩
  | entryDone hpc =>
    rw [hpc] at hcaller hcounts
    exact ⟨hcaller, hcounts, h.created⟩
  | divideError hpc hn => exact ⟨trivial, trivial, h.created⟩
  | divide hpc hn =>
    rw [hpc] at hcaller hcounts
    exact ⟨hcaller, ⟨hcounts, Nat.zero_le _⟩, h.created⟩
  | create hpc hlt hrun =>
    rw [hpc] at hcaller hcounts
    refine ⟨hcaller, ⟨by simpa using hcounts.1, Call.natCast_lt_numThreads.mp hlt⟩, fun i hi => ?_⟩
    rw [List.length_append, List.length_singleton, Nat.lt_succ_iff_lt_or_eq] at hi
    rcases hi with hi | rfl
    · exact h.created i hi
    · exact hcounts.1 ▸ hrun
  | createError hpc hlt hrun =>
    rw [hpc] at hcaller
    exact ⟨owns_frees hcaller, trivial, h.created⟩
  | createDone hpc hge =>
    rw [hpc] at hcaller hcounts
    have hle := Call.numThreads_le_natCast.mp hge
    exact ⟨hcaller, hcounts.1.trans (le_antisymm hcounts.2 hle), h.created⟩
  | stop hpc hlt =>
    rw [hpc] at hcaller hcounts
    exact ⟨hcaller, ⟨(List.length_modify ..).trans hcounts, Call.natCast_lt_numThreads.mp hlt⟩,
      by simpa using h.created⟩
  | stopDone hpc hge =>
    rw [hpc] at hcaller
    have hdata : c.Owns _ := hcaller.fileData_eq ▸ Call.owns_blockAt _
    exact ⟨⟨hcaller, d.save_meets _ hcaller.destFile_eq hdata⟩, trivial, h.created⟩
  | wait hpc hw hexit =>
    rw [hpc] at hcaller hcounts
    exact ⟨hcaller, hcounts.1, h.created⟩
  | saveCall hpc =>
    rw [hpc] at hcaller
    exact ⟨⟨hcaller.1, hcaller.2.2 _ (c.exec_answers _ _)⟩, trivial, h.created⟩
  | saveDone hpc =>
    rw [hpc] at hcaller
    exact ⟨owns_frees hcaller.1, trivial, h.created⟩
  | free hpc =>
    rw [hpc] at hcaller
    exact ⟨fun p hp => hcaller p (List.mem_cons_of_mem _ hp), trivial, h.created⟩
  | finish hpc => exact ⟨trivial, trivial, h.created⟩
  | worker ha hw hmove => exact ⟨hcaller, by simpa using hcounts, by simpa using h.created⟩

end State.Sound

end XorSyscalls
