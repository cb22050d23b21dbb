import XorSyscalls.Linux.KthreadCreateRequest
import XorSyscalls.Foundation.Pool
import Mathlib.Data.List.Nodup

/-!
# The creators and `kthreadd`

`Inv` is the invariant of all creators, `kthreadd` and the new threads, and it holds after every
run.  From it follows that every step is a `Move`, which has no case for a fault.
-/

namespace XorSyscalls

open TransitionSystem

namespace KthreadCreate

/-! ## Moves -/

/-- The moves of `kthreadd` between requests. -/
inductive LoopMove (s : CState) : CState → Prop
  | setInterruptible (hpc : s.daemon = .setInterruptible) :
    LoopMove s { s with running := false, daemon := .listEmpty }
  | empty (hpc : s.daemon = .listEmpty) (hlist : s.list = []) :
    LoopMove s { s with daemon := .schedule }
  | nonempty (hpc : s.daemon = .listEmpty) (hlist : s.list ≠ []) :
    LoopMove s { s with daemon := .setRunning }
  | schedule (hpc : s.daemon = .schedule) (hrunning : s.running = true) :
    LoopMove s { s with daemon := .setRunning }
  | setRunning (hpc : s.daemon = .setRunning) :
    LoopMove s { s with running := true, daemon := .take }
  | takeNone (hpc : s.daemon = .take) (hlist : s.list = []) :
    LoopMove s { s with daemon := .setInterruptible }

/-- The moves of the whole system. -/
inductive Move (s : CState) : CState → Prop
  | creator {r q q'} (hq : s.requests[r]? = some q) (hmove : CreatorMove q q') :
    Move s { s with requests := s.requests.set r q' }
  | listAddTail {r q} (hq : s.requests[r]? = some q) (hpc : q.pc = .listAddTail) :
    Move s { s with
      requests := s.requests.set r { q with pc := .wakeUpProcess }, list := s.list ++ [r] }
  | wakeUpProcess {r q} (hq : s.requests[r]? = some q) (hpc : q.pc = .wakeUpProcess) :
    Move s { s with requests := s.requests.set r { q with pc := .waitKillable }, running := true }
  | child {r q q'} {t : Child} {pc' : ChildPc} (hq : s.requests[r]? = some q)
      (ht : q.child = some t) (hmove : ChildMove t.tid q t.pc pc' q') :
    Move s { s with requests := s.requests.set r { q' with child := some ⟨t.tid, pc'⟩ } }
  | loop {s'} (hmove : LoopMove s s') : Move s s'
  | take {r list} (hpc : s.daemon = .take) (hlist : s.list = r :: list) :
    Move s { s with list := list, daemon := .fork r }
  | fork {r q} (hpc : s.daemon = .fork r) (hq : s.requests[r]? = some q) :
    Move s { s with
      requests := s.requests.set r { q with child := some ⟨s.nextTid, .copy⟩ }
      daemon := .take, nextTid := s.nextTid + 1 }
  | forkFails {r} {e : Errno} (hpc : s.daemon = .fork r) : Move s { s with daemon := .xchg r e }
  | fail {r q q'} {pc' : DaemonPc} (hq : s.requests[r]? = some q)
      (hmove : FailMove r q s.daemon pc' q') :
    Move s { s with requests := s.requests.set r q', daemon := pc' }

/-! ## The invariant -/

namespace CState

/-- How far request `r` has got without a thread of its own. -/
def serving (s : CState) (r : ℕ) : Stage :=
  match s.daemon.serves with
  | some (r', stage) => if r' = r then stage else if r ∈ s.list then .pending else .rest
  | none => if r ∈ s.list then .pending else .rest

/-- The stage of request `r`. -/
def stage (s : CState) (r : ℕ) (q : Request) : Stage :=
  match q.child with
  | some t => t.pc.stage
  | none => s.serving r

end CState

/-- Different requests have different threads. -/
structure Tids (requests : List Request) (nextTid : ℕ) : Prop where
  lt : ∀ (r : ℕ) q t, requests[r]? = some q → q.child = some t → t.tid < nextTid
  inj : ∀ (r r' : ℕ) q q' t t', requests[r]? = some q → requests[r']? = some q' →
    q.child = some t → q'.child = some t' → t.tid = t'.tid → r = r'

/-- Request `r` has no thread. -/
def CState.Unforked (s : CState) (r : ℕ) : Prop := ∃ q, s.requests[r]? = some q ∧ q.child = none

/-- Some creator is about to wake `kthreadd`. -/
def CState.Wakes (s : CState) : Prop :=
  ∃ (r : ℕ) (q : Request), s.requests[r]? = some q ∧ q.pc = .wakeUpProcess

/-- The invariant of all creators, `kthreadd` and the new threads. -/
structure Inv (s : CState) : Prop where
  requests : ∀ (r : ℕ) (q : Request), s.requests[r]? = some q → q.Ok (s.stage r q) ∧ q.Answers
  tids : Tids s.requests s.nextTid
  nodup : s.list.Nodup
  list : ∀ r ∈ s.list, s.Unforked r
  /-- The request that `kthreadd` serves is not on the list any more. -/
  serves : ∀ r stage, s.daemon.serves = some (r, stage) → r ∉ s.list ∧ s.Unforked r
  /-- No wake-up is lost. -/
  sleeps : s.daemon = .schedule → s.running = false → s.list = [] ∨ s.Wakes

section Inv

variable {s s' : CState}

/-! ## Every step is a move -/

/-- A request that can be changed is changed. -/
lemma CState.use_eq {r : ℕ} {q q' : Request} {f : Request → Option Request}
    {daemon : Request → DaemonPc} (hq : s.requests[r]? = some q) (hf : f q = some q') :
    s.use r f daemon =
      some { s with requests := s.requests.set r q', daemon := daemon q } := by
  simp [CState.use, hq, hf]

/-- A request on the list is pending. -/
lemma CState.serving_of_mem {r : ℕ} (hserves : ∀ stage, s.daemon.serves ≠ some (r, stage))
    (hmem : r ∈ s.list) : s.serving r = .pending := by
  unfold CState.serving
  split
  case h_1 r₀ stage h =>
    have hne : r₀ ≠ r := by
      rintro rfl
      exact hserves stage h
    rw [if_neg hne, if_pos hmem]
  case h_2 => exact if_pos hmem

/-- The stage of a request without a thread of its own. -/
lemma CState.stage_none {r : ℕ} {q : Request} (h : q.child = none) :
    s.stage r q = s.serving r := by
  simp [CState.stage, h]

/-- A request that is not freed can be accessed. -/
lemma CState.accessible_of_live {r : ℕ} {q : Request} (hq : s.requests[r]? = some q)
    (hlive : q.Live) : s.accessible r = true := by
  simp [CState.accessible, hq, hlive.access]

/-- A request on the list has not been freed. -/
lemma Inv.accessible_of_mem (h : Inv s) {r : ℕ} (hmem : r ∈ s.list) : s.accessible r = true := by
  obtain ⟨q, hq, hchild⟩ := h.list r hmem
  obtain ⟨hok, -⟩ := h.requests r q hq
  rw [CState.stage_none hchild, CState.serving_of_mem (fun stage hserves =>
    (h.serves r stage hserves).1 hmem) hmem] at hok
  exact CState.accessible_of_live hq hok.1

/-- The links of a request that can be accessed and of its neighbour on the list are written. -/
lemma Inv.link_eq (h : Inv s) {r : ℕ} (hr : s.accessible r = true) {neighbour : Option ℕ}
    (hmem : ∀ r' ∈ neighbour, r' ∈ s.list) (s' : CState) :
    s.link (r :: neighbour.toList) s' = s' := by
  refine if_pos (List.all_eq_true.mpr (List.forall_mem_cons.mpr ⟨hr, fun r' hr' => ?_⟩))
  exact h.accessible_of_mem (hmem r' (Option.mem_toList.mp hr'))

/-- A step of a creator is a move. -/
lemma Inv.move_of_creatorStep (h : Inv s) {r : ℕ} {ok : Bool}
    (hstep : s.creatorStep r ok = some s') : Move s s' := by
  unfold CState.creatorStep at hstep
  split at hstep
  case h_1 => cases hstep
  case h_2 q hq =>
    obtain ⟨hok, -⟩ := h.requests r q hq
    have hrest : ¬q.Waits → ¬q.Killed → q.Idle := fun hwaits hkilled => by
      rw [hok.stage_eq hwaits hkilled] at hok
      exact hok
    split at hstep
    case h_1 hpc =>
      split at hstep <;> cases hstep
      · exact .creator hq (.kmalloc hpc)
      · exact .creator hq (.kmallocFails hpc)
    case h_2 hpc =>
      have hidle := hrest (by simp [Request.Waits, hpc]) (by simp [Request.Killed, hpc])
      simp only [Request.Idle, hpc] at hidle
      cases ok with
      | true =>
        rw [CState.use_eq hq (hidle.1.access _)] at hstep
        cases hstep
        exact .creator hq (.kvasprintf hpc)
      | false =>
        rw [CState.use_eq hq (hidle.1.access _)] at hstep
        cases hstep
        exact .creator hq (.kvasprintfFails hpc)
    case h_3 hpc =>
      have hidle := hrest (by simp [Request.Waits, hpc]) (by simp [Request.Killed, hpc])
      simp only [Request.Idle, hpc] at hidle
      rw [h.link_eq (CState.accessible_of_live hq hidle.1) fun _ => List.mem_of_getLast?] at hstep
      cases hstep
      exact .listAddTail hq hpc
    case h_4 hpc =>
      cases hstep
      exact .wakeUpProcess hq hpc
    case h_5 hpc =>
      split at hstep <;> cases hstep
      exact .creator hq (.waited (.inl hpc) ‹_›)
    case h_6 hpc =>
      split at hstep <;> cases hstep
      exact .creator hq (.waited (.inr hpc) ‹_›)
    case h_7 hpc =>
      have hlive := hok.live_of_waits (.inr (.inr (.inl hpc)))
      rw [CState.use_eq hq (hlive.access _)] at hstep
      cases hstep
      exact .creator hq (.xchg hpc)
    case h_8 hpc =>
      have hidle := hrest (by simp [Request.Waits, hpc]) (by simp [Request.Killed, hpc])
      simp only [Request.Idle, hpc] at hidle
      obtain ⟨task, htask⟩ := Option.ne_none_iff_exists'.mp hidle.2.2
      rw [CState.use_eq hq ((hidle.1.access _).trans
        (Option.map_eq_some_iff.mpr ⟨task, htask, rfl⟩))] at hstep
      cases hstep
      exact .creator hq (.read hpc htask)
    case h_9 task hpc =>
      have hidle := hrest (by simp [Request.Waits, hpc]) (by simp [Request.Killed, hpc])
      simp only [Request.Idle, hpc] at hidle
      rw [CState.use_eq hq (hidle.1.access _)] at hstep
      cases hstep
      exact .creator hq (.freeCreate hpc)
    case h_10 => cases hstep

/-- To be killed is a move. -/
lemma move_of_kill {r : ℕ} (hstep : s.kill r = some s') : Move s s' := by
  unfold CState.kill at hstep
  split at hstep
  case h_1 => cases hstep
  case h_2 q hq =>
    split at hstep
    case h_1 hpc =>
      split at hstep <;> cases hstep
      exact .creator hq (.killed hpc ‹_›)
    case h_2 => cases hstep

/-- A step of a new thread is a move. -/
lemma Inv.move_of_childStep (h : Inv s) {r : ℕ} (hstep : s.childStep r = some s') :
    Move s s' := by
  unfold CState.childStep at hstep
  split at hstep
  case h_1 => cases hstep
  case h_2 t ht =>
    obtain ⟨q, hq, ht⟩ := Option.bind_eq_some_iff.mp ht
    obtain ⟨hok, -⟩ := h.requests r q hq
    have hstage : s.stage r q = t.pc.stage := by simp [CState.stage, ht]
    rw [hstage] at hok
    have hlive : t.pc.stage ≠ .rest → q.Live := hok.live
    obtain ⟨tid, pc⟩ := t
    cases pc with dsimp only at hstep
    | copy =>
      rw [CState.use_eq hq ((hlive (by simp [ChildPc.stage])).access _)] at hstep
      cases hstep
      exact .child hq ht .copy
    | xchg =>
      rw [CState.use_eq hq ((hlive (by simp [ChildPc.stage])).access _)] at hstep
      cases hstep
      exact .child hq ht .xchg
    | freeName =>
      have hname := Request.Ok.name_eq hok
      rw [CState.use_eq hq (((hlive (by simp [ChildPc.stage])).access _).trans
        (by rw [Request.kfreeName, if_pos hname]; rfl))] at hstep
      cases hstep
      exact .child hq ht .freeName
    | freeCreate =>
      rw [CState.use_eq hq ((hlive (by simp [ChildPc.stage])).access _)] at hstep
      cases hstep
      exact .child hq ht .freeCreate
    | takeName =>
      have hname := Request.Ok.name_eq hok
      rw [CState.use_eq hq (((hlive (by simp [ChildPc.stage])).access _).trans
        (if_pos hname))] at hstep
      cases hstep
      exact .child hq ht .takeName
    | setResult =>
      rw [CState.use_eq hq ((hlive (by simp [ChildPc.stage])).access _)] at hstep
      cases hstep
      exact .child hq ht .setResult
    | complete =>
      rw [CState.use_eq hq (by rw [Request.Ok.complete_eq hok]; rfl)] at hstep
      cases hstep
      exact .child hq ht .complete
    | parked | exited => cases hstep

/-- The request that `kthreadd` serves. -/
lemma Inv.exists_served (h : Inv s) {r : ℕ} {stage : Stage}
    (hserves : s.daemon.serves = some (r, stage)) :
    ∃ q, s.requests[r]? = some q ∧ q.child = none ∧ q.Ok stage ∧ q.Answers := by
  obtain ⟨-, q, hq, hchild⟩ := h.serves r stage hserves
  obtain ⟨hok, hanswers⟩ := h.requests r q hq
  have hstage : s.stage r q = stage := by simp [CState.stage, hchild, CState.serving, hserves]
  exact ⟨q, hq, hchild, hstage ▸ hok, hanswers⟩

/-- A step of `kthreadd` is a move. -/
lemma Inv.move_of_daemonStep (h : Inv s) {error : Option Errno}
    (hstep : s.daemonStep error = some s') : Move s s' := by
  have hserved := fun r stage (hserves : s.daemon.serves = some (r, stage)) =>
    h.exists_served hserves
  unfold CState.daemonStep at hstep
  cases hpc : s.daemon with
  | setInterruptible =>
    simp only [hpc] at hstep
    cases hstep
    exact .loop (.setInterruptible hpc)
  | listEmpty =>
    simp only [hpc] at hstep
    cases hstep
    split
    · exact .loop (.empty hpc ‹_›)
    · exact .loop (.nonempty hpc ‹_›)
  | schedule =>
    simp only [hpc] at hstep
    split at hstep <;> cases hstep
    exact .loop (.schedule hpc ‹_›)
  | setRunning =>
    simp only [hpc] at hstep
    cases hstep
    exact .loop (.setRunning hpc)
  | take =>
    simp only [hpc] at hstep
    split at hstep
    case h_1 hlist =>
      cases hstep
      exact .loop (.takeNone hpc hlist)
    case h_2 r list hlist =>
      have hr : r ∈ s.list := by rw [hlist]; exact List.mem_cons_self
      have hnext : ∀ r' ∈ list.head?, r' ∈ s.list := fun r' hr' => by
        rw [hlist]
        exact List.mem_cons_of_mem r (List.mem_of_head? hr')
      rw [h.link_eq (h.accessible_of_mem hr) hnext] at hstep
      cases hstep
      exact .take hpc hlist
  | fork r =>
    simp only [hpc] at hstep
    obtain ⟨q, hq, -, hok, -⟩ := hserved r .pending (by rw [hpc]; rfl)
    split at hstep
    · rw [CState.use_eq hq ((hok.1.access _).trans (if_pos hok.2.1))] at hstep
      cases hstep
      exact .fork hpc hq
    · rw [CState.use_eq hq (hok.1.access _)] at hstep
      cases hstep
      obtain ⟨hr, rfl⟩ := List.getElem?_eq_some_iff.mp hq
      rw [List.set_getElem_self]
      exact .forkFails hpc
  | xchg r e =>
    obtain ⟨q, hq, -, hok, -⟩ := hserved r .pending (by rw [hpc]; rfl)
    simp only [hpc] at hstep
    rw [CState.use_eq hq (hok.1.access _)] at hstep
    cases hstep
    exact .fail hq (hpc ▸ .xchg)
  | freeName r e done =>
    obtain ⟨q, hq, -, hok, -⟩ := hserved r (.name done) (by rw [hpc]; rfl)
    simp only [hpc] at hstep
    rw [CState.use_eq hq (((hok.live (by simp)).access _).trans (if_pos hok.name_eq))] at hstep
    cases hstep
    exact .fail hq (hpc ▸ .freeName)
  | freeCreate r =>
    obtain ⟨q, hq, -, hok, -⟩ := hserved r .free (by rw [hpc]; rfl)
    simp only [hpc] at hstep
    rw [CState.use_eq hq (hok.1.access _)] at hstep
    cases hstep
    exact .fail hq (hpc ▸ .freeCreate)
  | setResult r e =>
    obtain ⟨q, hq, -, hok, -⟩ := hserved r .result (by rw [hpc]; rfl)
    simp only [hpc] at hstep
    rw [CState.use_eq hq (hok.1.access _)] at hstep
    cases hstep
    exact .fail hq (hpc ▸ .setResult)
  | complete r =>
    obtain ⟨q, hq, -, hok, -⟩ := hserved r .complete (by rw [hpc]; rfl)
    simp only [hpc] at hstep
    rw [CState.use_eq hq hok.complete_eq] at hstep
    cases hstep
    exact .fail hq (hpc ▸ .complete)

/-- Every step is a move: nothing that has been freed is used. -/
lemma Inv.move_of_step (h : Inv s) {a : CAct} (hstep : step s a = some s') : Move s s' := by
  unfold step at hstep
  split at hstep
  · cases hstep
  · cases a with
    | creator r ok => exact h.move_of_creatorStep hstep
    | kill r => exact move_of_kill hstep
    | child r => exact h.move_of_childStep hstep
    | daemon error => exact h.move_of_daemonStep hstep

/-! ## Every move keeps the invariant -/

/-- A request that is not on the list and that `kthreadd` does not serve rests. -/
lemma CState.serving_of_ne {r r' : ℕ} (h : ∀ r₀ stage, s.daemon.serves = some (r₀, stage) → r₀ = r)
    (hne : r' ≠ r) : s.serving r' = if r' ∈ s.list then .pending else .rest := by
  unfold CState.serving
  split
  case h_1 r₀ stage hserves =>
    obtain rfl := h r₀ stage hserves
    rw [if_neg hne.symm]
  case h_2 => rfl

/-- The stage of a request with a thread of its own. -/
lemma CState.stage_some {r : ℕ} {q : Request} {t : Child} (h : q.child = some t) :
    s.stage r q = t.pc.stage := by
  simp [CState.stage, h]

/-- The stage of a request depends on the list and on `kthreadd`. -/
lemma CState.stage_congr {r : ℕ} {q : Request} (h : s'.serving r = s.serving r) :
    s'.stage r q = s.stage r q := by
  unfold CState.stage
  split
  · rfl
  · exact h

/-- Nobody serves a request whose creator is about to put it on the list. -/
lemma Inv.not_served (h : Inv s) {r : ℕ} {q : Request} (hq : s.requests[r]? = some q)
    (hpc : q.pc = .listAddTail) :
    r ∉ s.list ∧ ∀ stage, s.daemon.serves ≠ some (r, stage) := by
  obtain ⟨hok, hanswers⟩ := h.requests r q hq
  have hchild : q.child = none := hanswers.early (by rw [hpc]; trivial)
  have hrest := hok.stage_eq (by simp [Request.Waits, hpc]) (by simp [Request.Killed, hpc])
  have hserves : ∀ stage, s.daemon.serves ≠ some (r, stage) := by
    intro stage hserves
    obtain ⟨q', hq', -, hok', -⟩ := h.exists_served hserves
    obtain rfl : q = q' := Option.some.inj (hq.symm.trans hq')
    obtain rfl := hok'.stage_eq (by simp [Request.Waits, hpc]) (by simp [Request.Killed, hpc])
    cases hdaemon : s.daemon <;> rw [hdaemon] at hserves <;> cases hserves
  refine ⟨fun hmem => ?_, hserves⟩
  rw [CState.stage_none hchild, CState.serving_of_mem hserves hmem] at hrest
  cases hrest

/-- The requests after request `r` has changed. -/
lemma Inv.requests_set (h : Inv s) {r : ℕ} {q' : Request}
    (hrequests : s'.requests = s.requests.set r q')
    (hserving : ∀ r', r' ≠ r → s'.serving r' = s.serving r') (hok : q'.Ok (s'.stage r q'))
    (hanswers : q'.Answers) :
    ∀ (r : ℕ) q, s'.requests[r]? = some q → q.Ok (s'.stage r q) ∧ q.Answers := by
  intro r₀ q₀ hq₀
  rw [hrequests] at hq₀
  rcases getElem?_set_cases hq₀ with ⟨rfl, rfl⟩ | ⟨hne, hq₀⟩
  · exact ⟨hok, hanswers⟩
  · rw [CState.stage_congr (hserving r₀ hne)]
    exact h.requests r₀ q₀ hq₀

/-- A request changes, and its thread stays the same. -/
lemma Tids.set {requests : List Request} {n r : ℕ} {q q' : Request} (h : Tids requests n)
    (hq : requests[r]? = some q) (htid : q'.child.map Child.tid = q.child.map Child.tid) :
    Tids (requests.set r q') n := by
  have hthread : ∀ (r₀ : ℕ) q₀ t₀, (requests.set r q')[r₀]? = some q₀ → q₀.child = some t₀ →
      ∃ q t, requests[r₀]? = some q ∧ q.child = some t ∧ t.tid = t₀.tid := by
    intro r₀ q₀ t₀ hq₀ ht₀
    rcases getElem?_set_cases hq₀ with ⟨rfl, rfl⟩ | ⟨-, hq₀⟩
    · rw [ht₀] at htid
      obtain ⟨t, ht, htid⟩ := Option.map_eq_some_iff.mp htid.symm
      exact ⟨q, t, hq, ht, htid⟩
    · exact ⟨q₀, t₀, hq₀, ht₀, rfl⟩
  constructor
  · intro r₀ q₀ t₀ hq₀ ht₀
    obtain ⟨q, t, hq, ht, htid⟩ := hthread r₀ q₀ t₀ hq₀ ht₀
    exact htid ▸ h.lt r₀ q t hq ht
  · intro r₁ r₂ q₁ q₂ t₁ t₂ hq₁ hq₂ ht₁ ht₂ heq
    obtain ⟨_, _, hq₁, ht₁, htid₁⟩ := hthread r₁ q₁ t₁ hq₁ ht₁
    obtain ⟨_, _, hq₂, ht₂, htid₂⟩ := hthread r₂ q₂ t₂ hq₂ ht₂
    exact h.inj r₁ r₂ _ _ _ _ hq₁ hq₂ ht₁ ht₂ (by rw [htid₁, htid₂, heq])

/-- A request gets a thread. -/
lemma Tids.fork {requests : List Request} {n r : ℕ} {q' : Request} {t : Child}
    (h : Tids requests n) (ht : q'.child = some t) (htid : t.tid = n) :
    Tids (requests.set r q') (n + 1) := by
  constructor
  · intro r₀ q₀ t₀ hq₀ ht₀
    rcases getElem?_set_cases hq₀ with ⟨-, rfl⟩ | ⟨-, hq₀⟩
    · cases ht.symm.trans ht₀
      omega
    · exact Nat.lt_succ_of_lt (h.lt r₀ q₀ t₀ hq₀ ht₀)
  · intro r₁ r₂ q₁ q₂ t₁ t₂ hq₁ hq₂ ht₁ ht₂ heq
    rcases getElem?_set_cases hq₁ with ⟨hr₁, rfl⟩ | ⟨-, hold₁⟩ <;>
      rcases getElem?_set_cases hq₂ with ⟨hr₂, rfl⟩ | ⟨-, hold₂⟩
    · rw [hr₁, hr₂]
    · cases ht.symm.trans ht₁
      have := h.lt r₂ q₂ t₂ hold₂ ht₂
      omega
    · cases ht.symm.trans ht₂
      have := h.lt r₁ q₁ t₁ hold₁ ht₁
      omega
    · exact h.inj r₁ r₂ q₁ q₂ t₁ t₂ hold₁ hold₂ ht₁ ht₂ heq

/-- A request without a thread still has none. -/
lemma CState.Unforked.set {r r₀ : ℕ} {q q' : Request} (h : s.Unforked r₀)
    (hrequests : s'.requests = s.requests.set r q') (hq : s.requests[r]? = some q)
    (hchild : q.child = none → q'.child = none) : s'.Unforked r₀ := by
  unfold CState.Unforked
  rw [hrequests]
  exact exists_getElem?_set h hq hchild

/-- A creator that is about to wake `kthreadd` still is. -/
lemma CState.Wakes.set {r : ℕ} {q q' : Request} (h : s.Wakes)
    (hrequests : s'.requests = s.requests.set r q') (hq : s.requests[r]? = some q)
    (hpc : q.pc = .wakeUpProcess → q'.pc = .wakeUpProcess) : s'.Wakes := by
  obtain ⟨r₀, hr₀⟩ := h
  unfold CState.Wakes
  rw [hrequests]
  exact ⟨r₀, exists_getElem?_set hr₀ hq hpc⟩

/-- A request changes, and its thread stays the same. -/
lemma Inv.set_request (h : Inv s) {r : ℕ} {q q' : Request} (hq : s.requests[r]? = some q)
    (hok : q'.Ok (s.stage r q')) (hanswers : q'.Answers)
    (htid : q'.child.map Child.tid = q.child.map Child.tid)
    (hwakes : q.pc = .wakeUpProcess → q'.pc = .wakeUpProcess) :
    Inv { s with requests := s.requests.set r q' } := by
  have hchild : q.child = none → q'.child = none := fun hchild =>
    Option.map_eq_none_iff.mp (by rw [htid, hchild]; rfl)
  exact ⟨h.requests_set rfl (fun _ _ => rfl) hok hanswers, h.tids.set hq htid, h.nodup,
    fun r₀ hr₀ => (h.list r₀ hr₀).set rfl hq hchild,
    fun r₀ stage hserves => (h.serves r₀ stage hserves).imp id fun h => h.set rfl hq hchild,
    fun hschedule hrunning => (h.sleeps hschedule hrunning).imp id fun h => h.set rfl hq hwakes⟩

/-- The moves of a creator keep the invariant. -/
lemma Inv.creator (h : Inv s) {r : ℕ} {q q' : Request} (hq : s.requests[r]? = some q)
    (hmove : CreatorMove q q') : Inv { s with requests := s.requests.set r q' } := by
  obtain ⟨hok, hanswers⟩ := h.requests r q hq
  have hchild : q'.child = q.child := by cases hmove <;> rfl
  have hstage : s.stage r q' = s.stage r q := by simp [CState.stage, hchild]
  refine h.set_request hq (hstage ▸ hmove.ok hok)
    (hmove.answers hok hanswers fun t ht => (CState.stage_some ht).symm) (by rw [hchild])
    fun hpc => ?_
  cases hmove <;> simp_all

/-- The moves of a new thread keep the invariant. -/
lemma Inv.child (h : Inv s) {r : ℕ} {q q' : Request} {t : Child} {pc' : ChildPc}
    (hq : s.requests[r]? = some q) (ht : q.child = some t) (hmove : ChildMove t.tid q t.pc pc' q') :
    Inv { s with requests := s.requests.set r { q' with child := some ⟨t.tid, pc'⟩ } } := by
  obtain ⟨hok, hanswers⟩ := h.requests r q hq
  rw [CState.stage_some ht] at hok
  exact h.set_request hq ((hmove.ok hok).setChild _) (hmove.answers hok hanswers ht)
    (by rw [ht]; rfl) fun hpc => hmove.pc_eq.trans hpc

/-- A request is put on the list. -/
lemma Inv.listAddTail (h : Inv s) {r : ℕ} {q : Request} (hq : s.requests[r]? = some q)
    (hpc : q.pc = .listAddTail) :
    Inv { s with
      requests := s.requests.set r { q with pc := .wakeUpProcess }, list := s.list ++ [r] } := by
  obtain ⟨hok, hanswers⟩ := h.requests r q hq
  obtain ⟨hmem, hserves⟩ := h.not_served hq hpc
  have hchild : q.child = none := hanswers.early (by rw [hpc]; trivial)
  have hrest := hok.stage_eq (by simp [Request.Waits, hpc]) (by simp [Request.Killed, hpc])
  rw [hrest] at hok
  refine ⟨h.requests_set rfl (fun r' hne => ?_) ?_ (hanswers.setPc _ rfl (by rintro ⟨⟩)),
    h.tids.set hq rfl, ?_, fun r₀ hr₀ => ?_, fun r₀ stage hr₀ => ?_, fun _ _ => .inr ⟨r, ?_⟩⟩
  · simp [CState.serving, hne]
  · rw [CState.stage_none (by exact hchild), CState.serving_of_mem (by exact hserves) (by simp)]
    exact hok.listAddTail hpc
  · exact List.concat_eq_append ▸ List.Nodup.concat hmem h.nodup
  · rcases List.mem_append.mp hr₀ with hr₀ | hr₀
    · exact (h.list r₀ hr₀).set rfl hq id
    · obtain rfl := List.mem_singleton.mp hr₀
      exact CState.Unforked.set ⟨q, hq, hchild⟩ rfl hq id
  · obtain ⟨hr₀mem, hunforked⟩ := h.serves r₀ stage hr₀
    refine ⟨fun hr₀mem' => ?_, hunforked.set rfl hq id⟩
    rcases List.mem_append.mp hr₀mem' with hr₀mem' | hr₀mem'
    · exact hr₀mem hr₀mem'
    · obtain rfl := List.mem_singleton.mp hr₀mem'
      exact hserves stage hr₀
  · exact ⟨_, List.getElem?_set_self (List.getElem?_eq_some_iff.mp hq).1, rfl⟩

/-- A creator wakes `kthreadd`. -/
lemma Inv.wakeUpProcess (h : Inv s) {r : ℕ} {q : Request} (hq : s.requests[r]? = some q)
    (hpc : q.pc = .wakeUpProcess) :
    Inv { s with
      requests := s.requests.set r { q with pc := .waitKillable }, running := true } := by
  obtain ⟨hok, hanswers⟩ := h.requests r q hq
  exact ⟨h.requests_set rfl (fun _ _ => rfl) (hok.wakeUpProcess hpc)
      (hanswers.setPc _ rfl (by rintro ⟨⟩)), h.tids.set hq rfl, h.nodup,
    fun r₀ hr₀ => (h.list r₀ hr₀).set rfl hq id,
    fun r₀ stage hr₀ => (h.serves r₀ stage hr₀).imp id fun h => h.set rfl hq id,
    fun _ hrunning => by cases hrunning⟩

/-- The invariant of a state with the same requests, each in the same stage. -/
lemma Inv.congr (h : Inv s) (hrequests : s'.requests = s.requests) (hlist : s'.list = s.list)
    (hserves : s'.daemon.serves = s.daemon.serves) (htid : s'.nextTid = s.nextTid)
    (hsleeps : s'.daemon = .schedule → s'.running = false → s'.list = [] ∨ s'.Wakes) : Inv s' := by
  have hunforked : ∀ r, s.Unforked r → s'.Unforked r := fun r => by
    simp only [CState.Unforked, hrequests, imp_self]
  refine ⟨fun r q hq => ?_, by rw [hrequests, htid]; exact h.tids, by rw [hlist]; exact h.nodup,
    fun r hr => hunforked r (h.list r (hlist ▸ hr)), fun r stage hr => ?_, hsleeps⟩
  · have hserving : s'.serving r = s.serving r := by simp only [CState.serving, hserves, hlist]
    rw [CState.stage_congr hserving]
    exact h.requests r q (hrequests ▸ hq)
  · rw [hlist]
    exact (h.serves r stage (hserves ▸ hr)).imp id (hunforked r)

/-- `kthreadd` moves between requests. -/
lemma Inv.loop (h : Inv s) (hmove : LoopMove s s') : Inv s' := by
  cases hmove with
  | empty hpc hlist => exact h.congr rfl rfl (by rw [hpc]; rfl) rfl fun _ _ => .inl hlist
  | setInterruptible hpc | nonempty hpc | schedule hpc | setRunning hpc | takeNone hpc =>
    exact h.congr rfl rfl (by rw [hpc]; rfl) rfl (by rintro ⟨⟩)

/-- `kthreadd` takes a request off the list. -/
lemma Inv.take (h : Inv s) {r : ℕ} {list : List ℕ} (hpc : s.daemon = .take)
    (hlist : s.list = r :: list) : Inv { s with list := list, daemon := .fork r } := by
  have hnodup := h.nodup
  rw [hlist] at hnodup
  have hserving : ∀ r',
      CState.serving { s with list := list, daemon := .fork r } r' = s.serving r' := by
    intro r'
    rcases eq_or_ne r r' with rfl | hne
    · simp [CState.serving, hpc, hlist, DaemonPc.serves]
    · simp [CState.serving, hpc, hlist, DaemonPc.serves, hne, hne.symm]
  refine ⟨fun r₀ q₀ hq₀ => ?_, h.tids, hnodup.of_cons, fun r₀ hr₀ => ?_, ?_, by rintro ⟨⟩⟩
  · rw [CState.stage_congr (hserving r₀)]
    exact h.requests r₀ q₀ hq₀
  · exact h.list r₀ (hlist ▸ List.mem_cons_of_mem r hr₀)
  · rintro r₀ stage ⟨⟩
    exact ⟨(List.nodup_cons.mp hnodup).1, h.list r (hlist ▸ List.mem_cons_self)⟩

/-- `kthreadd` changes the request it serves. -/
lemma Inv.served (h : Inv s) {r n : ℕ} {stage : Stage} {q' : Request} {pc' : DaemonPc}
    (hserves : s.daemon.serves = some (r, stage)) (hr : r < s.requests.length)
    (hserves' : ∀ r₀ stage', pc'.serves = some (r₀, stage') → r₀ = r ∧ q'.child = none)
    (hschedule : pc' ≠ .schedule) (htids : Tids (s.requests.set r q') n)
    (hok : q'.Ok (CState.stage { s with daemon := pc' } r q')) (hanswers : q'.Answers) :
    Inv { s with requests := s.requests.set r q', daemon := pc', nextTid := n } := by
  have hmem := (h.serves r stage hserves).1
  refine ⟨h.requests_set rfl (fun r' hne => ?_) hok hanswers, htids, h.nodup, fun r₀ hr₀ => ?_,
    fun r₀ stage' hr₀ => ?_, fun h => absurd h hschedule⟩
  · rw [CState.serving_of_ne (fun r₀ stage' hr₀ => (hserves' r₀ stage' hr₀).1) hne,
      CState.serving_of_ne (fun r₀ stage' hr₀ => ?_) hne]
    cases hserves.symm.trans hr₀
    rfl
  · obtain ⟨q₀, hq₀, hchild⟩ := h.list r₀ hr₀
    have hne : r ≠ r₀ := by
      rintro rfl
      exact hmem hr₀
    exact ⟨q₀, by rwa [List.getElem?_set_ne hne], hchild⟩
  · obtain ⟨rfl, hchild⟩ := hserves' r₀ stage' hr₀
    exact ⟨hmem, q', List.getElem?_set_self hr, hchild⟩

/-- A thread is forked. -/
lemma Inv.fork (h : Inv s) {r : ℕ} {q : Request} (hpc : s.daemon = .fork r)
    (hq : s.requests[r]? = some q) :
    Inv { s with
      requests := s.requests.set r { q with child := some ⟨s.nextTid, .copy⟩ }
      daemon := .take, nextTid := s.nextTid + 1 } := by
  have hserves : s.daemon.serves = some (r, .pending) := by rw [hpc]; rfl
  obtain ⟨q₀, hq₀, -, hok, -⟩ := h.exists_served hserves
  obtain rfl : q = q₀ := Option.some.inj (hq.symm.trans hq₀)
  exact h.served hserves (List.getElem?_eq_some_iff.mp hq).1 (by rintro _ _ ⟨⟩) (by simp)
    (h.tids.fork rfl rfl) (hok.setChild _) (.of_fork hok _)

/-- `kthreadd` goes on after a failed fork. -/
lemma Inv.fail (h : Inv s) {r : ℕ} {q q' : Request} {pc' : DaemonPc} (hq : s.requests[r]? = some q)
    (hmove : FailMove r q s.daemon pc' q') :
    Inv { s with requests := s.requests.set r q', daemon := pc' } := by
  obtain ⟨stage, hserves⟩ : ∃ stage, s.daemon.serves = some (r, stage) := by
    cases hdaemon : s.daemon <;> rw [hdaemon] at hmove <;> cases hmove <;> exact ⟨_, rfl⟩
  obtain ⟨q₀, hq₀, hchild, hok, hanswers⟩ := h.exists_served hserves
  obtain rfl : q = q₀ := Option.some.inj (hq.symm.trans hq₀)
  have hchild' : q'.child = none := hmove.child_eq.trans hchild
  have hr := (List.getElem?_eq_some_iff.mp hq).1
  have htids : Tids (s.requests.set r q') s.nextTid := h.tids.set hq (by rw [hchild, hchild'])
  rcases hmove.ok hserves hok with ⟨stage', hserves', hok'⟩ | ⟨rfl, hok'⟩
  · refine h.served hserves hr (fun r₀ stage₀ hr₀ => ?_) ?_ htids ?_ (hmove.answers hanswers hchild)
    · cases hserves'.symm.trans hr₀
      exact ⟨rfl, hchild'⟩
    · rintro rfl
      cases hserves'
    · rw [CState.stage_none hchild']
      simpa [CState.serving, hserves'] using hok'
  · refine h.served hserves hr (by rintro _ _ ⟨⟩) (by simp) htids ?_ (hmove.answers hanswers hchild)
    rw [CState.stage_none hchild']
    simpa [CState.serving, DaemonPc.serves, (h.serves r stage hserves).1] using hok'

/-- Every move keeps the invariant. -/
lemma Inv.move (h : Inv s) (hmove : Move s s') : Inv s' := by
  cases hmove with
  | creator hq hmove => exact h.creator hq hmove
  | listAddTail hq hpc => exact h.listAddTail hq hpc
  | wakeUpProcess hq hpc => exact h.wakeUpProcess hq hpc
  | child hq ht hmove => exact h.child hq ht hmove
  | loop hmove => exact h.loop hmove
  | take hpc hlist => exact h.take hpc hlist
  | fork hpc hq => exact h.fork hpc hq
  | forkFails hpc => exact h.congr rfl rfl (by rw [hpc]; rfl) rfl (by rintro ⟨⟩)
  | fail hq hmove => exact h.fail hq hmove

/-- The invariant holds at the beginning. -/
lemma Inv.start (n : ℕ) : Inv (.start n) := by
  have hnew : ∀ (r : ℕ) q, (CState.start n).requests[r]? = some q → q = .new := fun r q hq =>
    List.eq_of_mem_replicate (List.mem_of_getElem? hq)
  refine ⟨fun r q hq => ?_, ⟨fun r q t hq ht => ?_, fun r r' q q' t t' hq _ ht => ?_⟩,
    List.nodup_nil, by simp [CState.start], by simp [CState.start, DaemonPc.serves],
    by simp [CState.start]⟩
  · obtain rfl := hnew r q hq
    exact ⟨⟨rfl, rfl, rfl, by simp [Request.new], rfl⟩,
      ⟨by simp [Request.new], by simp [Request.new], by simp [Request.new, CreatorPc.answer],
        by simp [Request.new], by simp [Request.new]⟩⟩
  · obtain rfl := hnew r q hq
    cases ht
  · obtain rfl := hnew r q hq
    cases ht

/-- A move is no fault. -/
lemma Move.fault_eq (h : Move s s') : s'.fault = s.fault := by
  cases h with
  | loop hmove => cases hmove <;> rfl
  | _ => rfl

/-- The invariant holds after every run, and there has been no fault. -/
lemma Inv.of_run {n : ℕ} {acts : List CAct} (h : Run n acts s) : Inv s ∧ s.fault = false := by
  refine run_invariant (I := fun s => Inv s ∧ s.fault = false) ⟨Inv.start n, rfl⟩ ?_ h
  rintro s a s' ⟨hinv, hfault⟩ hstep
  have hmove := hinv.move_of_step hstep
  exact ⟨hinv.move hmove, hmove.fault_eq.trans hfault⟩

end Inv

end KthreadCreate

end XorSyscalls
