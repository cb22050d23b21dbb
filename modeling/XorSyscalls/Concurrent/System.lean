import XorSyscalls.Syscall.Safety

/-!
# Concurrent calls

Any number of calls of `xor_encrypt_syscall` and `xor_decrypt` run at the same time, each by a task
of its own.  They share the kernel state, with the files and the two mutexes; the program points and
the workers of a call are private to it.  A schedule chooses at each step a call and an action of
it, so a schedule of one call is a special case, and the calls run one after the other if the
schedule is the concatenation of their schedules.
-/

namespace XorSyscalls

open TransitionSystem

/-- The private state of a call. -/
structure Process where
  caller : Caller
  workers : List Worker

/-- The shared kernel state and the private states of all calls. -/
structure System where
  kernel : Kernel
  procs : List Process

/-- The calls that run at the same time, by different tasks. -/
structure Calls where
  list : List (Syscall × Call)
  nodup : (list.map fun x => x.2.task).Nodup

namespace System

/-- All calls at their entry. -/
def start (cs : Calls) (k : Kernel) : System :=
  ⟨k, cs.list.map fun x => ⟨.entry (x.1.prepares x.2.args), []⟩⟩

/-- The state as the call with the private state `p` sees it. -/
def view (S : System) (p : Process) : State := ⟨S.kernel, p.caller, p.workers⟩

/-- The state after call `j` has got to the state `s`. -/
def put (S : System) (j : ℕ) (s : State) : System := ⟨s.kernel, S.procs.set j ⟨s.caller, s.workers⟩⟩

@[simp]
lemma view_kernel (S : System) (p : Process) : (S.view p).kernel = S.kernel := rfl

@[simp]
lemma view_workers (S : System) (p : Process) : (S.view p).workers = p.workers := rfl

@[simp]
lemma put_kernel (S : System) (j : ℕ) (s : State) : (S.put j s).kernel = s.kernel := rfl

/-- Putting back what a call sees. -/
lemma put_view {S : System} {j : ℕ} {p : Process} (hp : S.procs[j]? = some p) :
    S.put j (S.view p) = S := by
  obtain ⟨hj, rfl⟩ := List.getElem?_eq_some_iff.mp hp
  exact congrArg (System.mk S.kernel) (List.set_getElem_self hj)

end System

namespace Calls

variable (cs : Calls)

/-- One action of one of the calls. -/
def step (S : System) (a : ℕ × Act) : Option System :=
  match cs.list[a.1]?, S.procs[a.1]? with
  | some (d, c), some p => (d.step c (S.view p) a.2).map (S.put a.1)
  | _, _ => none

/-- The runs of the calls from their entries in the kernel state `k`. -/
def Run (k : Kernel) (acts : List (ℕ × Act)) (S : System) : Prop :=
  run cs.step (System.start cs k) acts = some S

variable {cs}

/-- At the start every call is at its entry and has no workers. -/
lemma eq_entry_of_start {k : Kernel} {j : ℕ} {d : Syscall} {c : Call} {p : Process}
    (hcall : cs.list[j]? = some (d, c)) (hproc : (System.start cs k).procs[j]? = some p) :
    p = ⟨.entry (d.prepares c.args), []⟩ := by
  simp only [System.start, List.getElem?_map, hcall, Option.map_some, Option.some_inj] at hproc
  exact hproc.symm

/-- A step of the system is a step of one call on the shared kernel state. -/
lemma step_eq_some_iff {S S' : System} {j : ℕ} {a : Act} :
    cs.step S (j, a) = some S' ↔ ∃ d c p s', cs.list[j]? = some (d, c) ∧ S.procs[j]? = some p ∧
      d.step c (S.view p) a = some s' ∧ S' = S.put j s' := by
  unfold step
  constructor
  · intro h
    split at h
    · rename_i d c p hcall hproc
      obtain ⟨s', hs', rfl⟩ := Option.map_eq_some_iff.mp h
      exact ⟨d, c, p, s', hcall, hproc, hs', rfl⟩
    · cases h
  · rintro ⟨d, c, p, s', hcall, hproc, hs', rfl⟩
    simp only [hcall, hproc, hs', Option.map_some]

/-- A call is given by its task. -/
lemma eq_of_task_eq {i j : ℕ} {x y : Syscall × Call} (hi : cs.list[i]? = some x)
    (hj : cs.list[j]? = some y) (h : x.2.task = y.2.task) : i = j := by
  have hi' : (cs.list.map fun x => x.2.task)[i]? = some x.2.task := by simp [hi]
  have hj' : (cs.list.map fun x => x.2.task)[j]? = some x.2.task := by simp [hj, h]
  have hlt := (List.getElem?_eq_some_iff.mp hi').1
  exact (List.getElem?_inj hlt cs.nodup).mp (hi'.trans hj'.symm)

/-- Every call has a private state. -/
lemma length_procs {k : Kernel} {acts : List (ℕ × Act)} {S : System} (hrun : cs.Run k acts S) :
    S.procs.length = cs.list.length := by
  refine run_invariant (I := fun S => S.procs.length = cs.list.length) ?_ ?_ hrun
  · simp [System.start]
  · rintro S ⟨j, a⟩ S' hS hstep
    obtain ⟨d, c, p, s', -, -, -, rfl⟩ := step_eq_some_iff.mp hstep
    simpa [System.put] using hS

/-- Every call has a private state, and every private state belongs to a call. -/
lemma exists_call {k : Kernel} {acts : List (ℕ × Act)} {S : System} (hrun : cs.Run k acts S)
    {j : ℕ} {p : Process} (hp : S.procs[j]? = some p) : ∃ x, cs.list[j]? = some x := by
  have hlt := (List.getElem?_eq_some_iff.mp hp).1
  rw [length_procs hrun] at hlt
  exact ⟨_, List.getElem?_eq_getElem hlt⟩

/-- The private state of call `j` after a step of call `i`. -/
lemma getElem?_put {S : System} {i j : ℕ} {p p' : Process} {s' : State}
    (hp : S.procs[i]? = some p) (hp' : (S.put i s').procs[j]? = some p') :
    (j = i ∧ p' = ⟨s'.caller, s'.workers⟩) ∨ (j ≠ i ∧ S.procs[j]? = some p') := by
  rcases eq_or_ne i j with rfl | hne
  · rw [System.put, List.getElem?_set_self (List.getElem?_eq_some_iff.mp hp).1] at hp'
    exact Or.inl ⟨rfl, (Option.some_inj.mp hp').symm⟩
  · rw [System.put, List.getElem?_set_ne hne] at hp'
    exact Or.inr ⟨hne.symm, hp'⟩

/-- A run of one call alone is a run of the system. -/
lemma run_map_of_run {S : System} {j : ℕ} {d : Syscall} {c : Call} {p : Process}
    {acts : List Act} {s : State} (hcall : cs.list[j]? = some (d, c)) (hproc : S.procs[j]? = some p)
    (hrun : run (d.step c) (S.view p) acts = some s) :
    run cs.step S (acts.map fun a => (j, a)) = some (S.put j s) := by
  have hlt := (List.getElem?_eq_some_iff.mp hproc).1
  induction acts generalizing S p with
  | nil =>
    rw [run_nil, Option.some_inj] at hrun
    subst hrun
    exact congrArg some (System.put_view hproc).symm
  | cons a acts ih =>
    obtain ⟨t, ht, hrun⟩ := Option.bind_eq_some_iff.mp hrun
    have hstep : cs.step S (j, a) = some (S.put j t) :=
      step_eq_some_iff.mpr ⟨d, c, p, t, hcall, hproc, ht, rfl⟩
    have hproc' : (S.put j t).procs[j]? = some ⟨t.caller, t.workers⟩ := List.getElem?_set_self hlt
    rw [List.map_cons, run_cons, hstep, Option.bind_some,
      ih hproc' hrun (by simpa [System.put] using hlt)]
    simp [System.put]

/-- What every call keeps in its private state, whatever the kernel state, holds in all runs. -/
theorem forall_procs_of_run {I : Syscall → Call → State → Prop}
    (hkernel : ∀ d c s k, I d c s → I d c { s with kernel := k })
    (hstart : ∀ x ∈ cs.list, ∀ k, I x.1 x.2 (State.start x.1 x.2 k))
    (hstep : ∀ d c s a s', I d c s → d.step c s a = some s' → I d c s') {k : Kernel}
    {acts : List (ℕ × Act)} {S : System} (hrun : cs.Run k acts S) :
    ∀ {j : ℕ} {d c p}, cs.list[j]? = some (d, c) → S.procs[j]? = some p → I d c (S.view p) := by
  refine run_invariant (I := fun S : System => ∀ {j : ℕ} {d c p}, cs.list[j]? = some (d, c) →
    S.procs[j]? = some p → I d c (S.view p)) ?_ ?_ hrun
  · intro j d c p hcall hproc
    obtain rfl := eq_entry_of_start hcall hproc
    exact hstart (d, c) (List.mem_of_getElem? hcall) k
  · rintro S ⟨i, a⟩ S' hS hst j d c p hcall hproc
    obtain ⟨d', c', p', s', hcall', hproc', hs', rfl⟩ := step_eq_some_iff.mp hst
    rcases getElem?_put hproc' hproc with ⟨rfl, rfl⟩ | ⟨-, hproc⟩
    · cases hcall.symm.trans hcall'
      exact hstep d c _ a s' (hS hcall hproc') hs'
    · exact hkernel d c _ s'.kernel (hS hcall hproc)

/-- The private states of all calls are in order. -/
lemma sound_of_run {k : Kernel} {acts : List (ℕ × Act)} {S : System} (hrun : cs.Run k acts S)
    {j : ℕ} {d : Syscall} {c : Call} {p : Process} (hcall : cs.list[j]? = some (d, c))
    (hproc : S.procs[j]? = some p) : (S.view p).Sound c :=
  forall_procs_of_run (I := fun _ c s => s.Sound c) (fun _ _ _ k h => h.of_kernel k)
    (fun x _ k => State.Sound.start x.1 x.2 k) (fun _ _ _ _ _ h hst => h.step hst) hrun hcall hproc

/-- No call leaves a worker behind. -/
def KeepWorkers (cs : Calls) : Prop := ∀ x ∈ cs.list, x.2.KeepsWorkers

/-- Then the workers of all calls find their memory: each call keeps to its own. -/
theorem safe_of_run {k : Kernel} {acts : List (ℕ × Act)} {S : System} (hkeep : cs.KeepWorkers)
    (hrun : cs.Run k acts S) {j : ℕ} {d : Syscall} {c : Call} {p : Process}
    (hcall : cs.list[j]? = some (d, c)) (hproc : S.procs[j]? = some p) : (S.view p).Safe c := by
  refine run_induction (motive := fun _ S => ∀ {j : ℕ} {d c p}, cs.list[j]? = some (d, c) →
    S.procs[j]? = some p → (S.view p).Safe c) ?_ (fun acts S a S' hS ih hstep => ?_)
    hrun hcall hproc
  · intro j d c p hcall hproc
    obtain rfl := eq_entry_of_start hcall hproc
    exact State.Safe.start d c k
  · intro j d c p hcall hproc
    obtain ⟨i, a⟩ := a
    obtain ⟨d', c', p', s', hcall', hproc', hs', rfl⟩ := step_eq_some_iff.mp hstep
    have hsafe := ih hcall' hproc'
    have hsound := sound_of_run hS hcall' hproc'
    rcases getElem?_put hproc' hproc with ⟨rfl, rfl⟩ | ⟨hne, hproc⟩
    · cases hcall.symm.trans hcall'
      exact hsafe.step hsound (hkeep _ (List.mem_of_getElem? hcall)) hs'
    · have htask : c.task ≠ c'.task := fun h => hne (eq_of_task_eq hcall hcall' h)
      exact (ih hcall hproc).of_undisturbed (sound_of_run hS hcall hproc)
        ((Syscall.changes_of_step hsafe hsound hs').undisturbed htask)

end Calls

/-- A second small call by another task, which works on `"a"` with the key `"k"` and writes
`"c"`. -/
def secondCall (n : Int32) : Call :=
  ⟨2, ⟨0, 256, n, 512⟩, { sampleEnv with
    userMem := fun addr => if addr = 256 then some 99 else sampleMem addr }⟩

/-- The two small calls as concurrent calls of `xor_encrypt_syscall`. -/
def sampleCalls (n : Int32) : Calls where
  list := [(.encrypt, sampleCall n), (.encrypt, secondCall n)]
  nodup := by
    change [1, 2].Nodup
    decide

/-- The two small calls can create their workers. -/
lemma sampleCalls_keep (n : Int32) : (sampleCalls n).KeepWorkers := by
  intro x hx _ i _
  simp only [sampleCalls, List.mem_cons, List.not_mem_nil, or_false] at hx
  rcases hx with rfl | rfl <;> rfl

end XorSyscalls
