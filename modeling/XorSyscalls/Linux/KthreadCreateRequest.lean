import XorSyscalls.Linux.KthreadCreate

/-!
# Who owns a request

`Stage` says how far a request has been served, by `kthreadd` or by the thread forked for it, and
`Request.Ok` what its creator may be doing meanwhile.  The exchange of `create->done` decides: if
the creator comes first, it returns and whoever serves the request frees it; if the server comes
first, the creator waits until it has been answered and frees the request itself.

`Request.Answers` says that the answer a creator gets is about the thread forked for its request.
Every move that concerns a request keeps both.
-/

namespace XorSyscalls

namespace KthreadCreate

/-! ## Moves -/

/-- The moves of a creator that concern nothing but its request. -/
inductive CreatorMove (q : Request) : Request → Prop
  | kmalloc (hpc : q.pc = .kmalloc) :
    CreatorMove q { q with allocated := true, pc := .kvasprintf }
  | kmallocFails (hpc : q.pc = .kmalloc) :
    CreatorMove q { q with pc := .returned (.error .enomem) }
  | kvasprintf (hpc : q.pc = .kvasprintf) :
    CreatorMove q { q with done := true, fullName := .held, pc := .listAddTail }
  | kvasprintfFails (hpc : q.pc = .kvasprintf) :
    CreatorMove q { q with done := true, pc := .freeCreate (.error .enomem) }
  | waited (hpc : q.pc = .waitKillable ∨ q.pc = .wait) (hdone : q.completion ≠ 0) :
    CreatorMove q { q with completion := q.completion - 1, pc := .read }
  | killed (hpc : q.pc = .waitKillable) (hdone : q.completion = 0) :
    CreatorMove q { q with pc := .xchg }
  | xchg (hpc : q.pc = .xchg) :
    CreatorMove q { q.xchg with pc := if q.done then .returned (.error .eintr) else .wait }
  | read {task : Answer} (hpc : q.pc = .read) (hresult : q.result = some task) :
    CreatorMove q { q with pc := .freeCreate task }
  | freeCreate {task : Answer} (hpc : q.pc = .freeCreate task) :
    CreatorMove q { q.kfree with pc := .returned task }

/-- The moves of the thread `tid` forked for a request. -/
inductive ChildMove (tid : ℕ) (q : Request) : ChildPc → ChildPc → Request → Prop
  | copy : ChildMove tid q .copy .xchg q
  | xchg : ChildMove tid q .xchg (if q.done then .takeName else .freeName) q.xchg
  | freeName : ChildMove tid q .freeName .freeCreate { q with fullName := .freed }
  | freeCreate : ChildMove tid q .freeCreate .exited q.kfree
  | takeName : ChildMove tid q .takeName .setResult { q with fullName := .taken }
  | setResult : ChildMove tid q .setResult .complete { q with result := some (.ok tid) }
  | complete : ChildMove tid q .complete .parked { q with completion := q.completion + 1 }

/-- The moves of `kthreadd` after a failed fork for request `r`. -/
inductive FailMove (r : ℕ) (q : Request) : DaemonPc → DaemonPc → Request → Prop
  | xchg {e : Errno} : FailMove r q (.xchg r e) (.freeName r e q.done) q.xchg
  | freeName {e : Errno} {done : Bool} : FailMove r q (.freeName r e done)
      (if done then .setResult r e else .freeCreate r) { q with fullName := .freed }
  | freeCreate : FailMove r q (.freeCreate r) .take q.kfree
  | setResult {e : Errno} : FailMove r q (.setResult r e) (.complete r)
      { q with result := some (.error e) }
  | complete : FailMove r q (.complete r) .take { q with completion := q.completion + 1 }

/-! ## Stages -/

/-- How far a request has been served. -/
inductive Stage
  /-- Nobody serves it, not yet or not any more. -/
  | rest
  /-- It is on its way to the exchange of `create->done`. -/
  | pending
  /-- The name is next; `done` says whether the creator waits. -/
  | name (done : Bool)
  /-- The result is next. -/
  | result
  /-- The completion is next. -/
  | complete
  /-- The creator is gone and the request is to be freed. -/
  | free

/-- The stage of a request whose thread is at a program point. -/
def ChildPc.stage : ChildPc → Stage
  | copy | xchg => .pending
  | freeName => .name false
  | freeCreate => .free
  | takeName => .name true
  | setResult => .result
  | complete => .complete
  | parked | exited => .rest

/-- The request that `kthreadd` serves. -/
def DaemonPc.serves : DaemonPc → Option (ℕ × Stage)
  | fork r | xchg r _ => some (r, .pending)
  | freeName r _ done => some (r, .name done)
  | freeCreate r => some (r, .free)
  | setResult r _ => some (r, .result)
  | complete r => some (r, .complete)
  | setInterruptible | listEmpty | schedule | setRunning | take => none

/-! ## One request -/

namespace Request

/-- The creator waits for its answer, or is about to. -/
def Waits (q : Request) : Prop :=
  q.pc = .wakeUpProcess ∨ q.pc = .waitKillable ∨ q.pc = .xchg ∨ q.pc = .wait

/-- The creator has returned because it was killed. -/
def Killed (q : Request) : Prop := q.pc = .returned (.error .eintr)

/-- The request is allocated and has not been freed. -/
def Live (q : Request) : Prop := q.allocated = true ∧ q.freed = false

/-- What the creator does while nobody serves its request. -/
def Idle (q : Request) : Prop :=
  match q.pc with
  | .kmalloc => q.allocated = false ∧ q.freed = false ∧ q.completion = 0 ∧ q.fullName ≠ .held ∧
      q.result = none
  | .kvasprintf => q.Live ∧ q.completion = 0 ∧ q.fullName ≠ .held ∧ q.result = none
  | .listAddTail =>
    q.Live ∧ q.completion = 0 ∧ q.fullName = .held ∧ q.result = none ∧ q.done = true
  | .wakeUpProcess | .waitKillable | .xchg | .wait =>
    q.Live ∧ q.completion = 1 ∧ q.fullName ≠ .held ∧ q.result ≠ none ∧ q.done = false
  | .read => q.Live ∧ q.fullName ≠ .held ∧ q.result ≠ none
  | .freeCreate _ => q.Live ∧ q.fullName ≠ .held
  | .returned _ => (q.allocated = true → q.freed = true) ∧ q.fullName ≠ .held

/-- The invariant of a request in a stage. -/
def Ok (q : Request) : Stage → Prop
  | .rest => q.Idle
  | .pending => q.Live ∧ q.fullName = .held ∧ q.result = none ∧ q.completion = 0 ∧
      (q.Waits ∧ q.pc ≠ .wait ∧ q.done = true ∨ q.Killed ∧ q.done = false)
  | .name true => q.Live ∧ q.fullName = .held ∧ q.completion = 0 ∧ q.Waits ∧ q.done = false
  | .name false => q.Live ∧ q.fullName = .held ∧ q.Killed
  | .result => q.Live ∧ q.fullName ≠ .held ∧ q.completion = 0 ∧ q.Waits ∧ q.done = false
  | .complete => q.Live ∧ q.fullName ≠ .held ∧ q.completion = 0 ∧ q.Waits ∧ q.done = false ∧
      q.result ≠ none
  | .free => q.Live ∧ q.fullName ≠ .held ∧ q.Killed

end Request

section Request

variable {q q' : Request} {stage : Stage}

/-- While a request is served, its creator waits or has been killed. -/
lemma Request.Ok.stage_eq (h : q.Ok stage) (hwaits : ¬q.Waits) (hkilled : ¬q.Killed) :
    stage = .rest := by
  rcases stage with _ | _ | (_ | _) | _ | _ | _ <;> simp_all [Request.Ok]

/-- While a request is served, the completion is not set. -/
lemma Request.Ok.stage_eq_of_completion (h : q.Ok stage) (hwaits : q.Waits)
    (hdone : q.completion ≠ 0) : stage = .rest := by
  have hkilled : ¬q.Killed := by
    rcases hwaits with hpc | hpc | hpc | hpc <;> simp [Request.Killed, hpc]
  rcases stage with _ | _ | (_ | _) | _ | _ | _ <;> simp_all [Request.Ok]

/-- A request that is being served is allocated. -/
lemma Request.Ok.live (h : q.Ok stage) (hstage : stage ≠ .rest) :
    q.Live := by
  rcases stage with _ | _ | (_ | _) | _ | _ | _ <;> first | exact absurd rfl hstage | exact h.1

/-- So it is while its creator waits. -/
lemma Request.Ok.live_of_waits (h : q.Ok stage) (hwaits : q.Waits) :
    q.Live := by
  rcases eq_or_ne stage .rest with rfl | hstage
  · rcases hwaits with hpc | hpc | hpc | hpc <;> simp only [Ok, Idle, hpc] at h <;> exact h.1
  · exact h.live hstage

/-- A request that is not freed can be accessed. -/
lemma Request.Live.access (h : q.Live) (f : Request → Option Request) :
    q.access f = f q := if_pos h

/-- Whoever completes does so while the creator waits. -/
lemma Request.Ok.complete_eq (h : q.Ok .complete) :
    q.complete = some { q with completion := q.completion + 1 } := by
  obtain ⟨-, -, -, hwaits, -⟩ := h
  rcases hwaits with hpc | hpc | hpc | hpc <;> simp [Request.complete, Request.gone, hpc]

/-- Whoever disposes of the name still has it. -/
lemma Request.Ok.name_eq {done : Bool} (h : q.Ok (.name done)) :
    q.fullName = .held := by
  cases done <;> exact h.2.1

/-- Every move of a creator keeps the invariant of its request. -/
lemma CreatorMove.ok (h : CreatorMove q q') (hok : q.Ok stage) : q'.Ok stage := by
  cases h with
  | kmalloc hpc | kmallocFails hpc | kvasprintf hpc | kvasprintfFails hpc | read hpc
  | freeCreate hpc =>
    obtain rfl := hok.stage_eq (by simp [Request.Waits, hpc]) (by simp [Request.Killed, hpc])
    simp_all [Request.Ok, Request.Idle, Request.Live, Request.kfree]
  | waited hpc hdone =>
    rcases hpc with hpc | hpc <;>
      obtain rfl := hok.stage_eq_of_completion (by simp [Request.Waits, hpc]) hdone <;>
      simp_all [Request.Ok, Request.Idle, Request.Live]
  | killed hpc hdone =>
    rcases stage with _ | _ | (_ | _) | _ | _ | _ <;>
      simp_all [Request.Ok, Request.Idle, Request.Waits, Request.Killed, Request.Live]
  | xchg hpc =>
    -- the creator returns only if nobody has begun to answer
    rcases stage with _ | _ | (_ | _) | _ | _ | _ <;>
      simp_all [Request.Ok, Request.Idle, Request.Waits, Request.Killed, Request.Live, Request.xchg]

/-- The creator puts its request on the list. -/
lemma Request.Ok.listAddTail (h : q.Ok .rest) (hpc : q.pc = .listAddTail) :
    ({ q with pc := .wakeUpProcess } : Request).Ok .pending := by
  simp only [Request.Ok, Request.Idle, hpc] at h
  obtain ⟨hlive, hcompletion, hname, hresult, hdone⟩ := h
  exact ⟨hlive, hname, hresult, hcompletion, .inl ⟨.inl rfl, by simp, hdone⟩⟩

/-- The creator goes on from waking `kthreadd` to waiting. -/
lemma Request.Ok.wakeUpProcess (h : q.Ok stage) (hpc : q.pc = .wakeUpProcess) :
    ({ q with pc := .waitKillable } : Request).Ok stage := by
  rcases stage with _ | _ | (_ | _) | _ | _ | _ <;>
    simp_all [Request.Ok, Request.Idle, Request.Waits, Request.Killed, Request.Live]

/-- The exchange of whoever serves the request. -/
lemma Request.Ok.xchg (h : q.Ok .pending) : q.xchg.Ok (.name q.done) := by
  obtain ⟨hlive, hname, -, hcompletion, ⟨hwaits, -, hdone⟩ | ⟨hkilled, hdone⟩⟩ := h
  · rw [hdone]
    exact ⟨hlive, hname, hcompletion, hwaits, rfl⟩
  · rw [hdone]
    exact ⟨hlive, hname, hkilled⟩

/-- The name is disposed of. -/
lemma Request.Ok.setName {done : Bool} (h : q.Ok (.name done)) (name : Name)
    (hname : name ≠ .held) :
    ({ q with fullName := name } : Request).Ok (if done then .result else .free) := by
  cases done with
  | true =>
    obtain ⟨hlive, -, hcompletion, hwaits, hdone⟩ := h
    exact ⟨hlive, hname, hcompletion, hwaits, hdone⟩
  | false =>
    obtain ⟨hlive, -, hkilled⟩ := h
    exact ⟨hlive, hname, hkilled⟩

/-- The result is stored. -/
lemma Request.Ok.setResult (h : q.Ok .result) (task : Answer) :
    ({ q with result := some task } : Request).Ok .complete := by
  obtain ⟨hlive, hname, hcompletion, hwaits, hdone⟩ := h
  exact ⟨hlive, hname, hcompletion, hwaits, hdone, by simp⟩

/-- The creator is told. -/
lemma Request.Ok.complete (h : q.Ok .complete) :
    ({ q with completion := q.completion + 1 } : Request).Ok .rest := by
  obtain ⟨hlive, hname, hcompletion, hwaits, hdone, hresult⟩ := h
  rcases hwaits with hpc | hpc | hpc | hpc <;>
    simp_all [Request.Ok, Request.Idle, Request.Live]

/-- The request of a creator that has been killed is freed. -/
lemma Request.Ok.kfree (h : q.Ok .free) : q.kfree.Ok .rest := by
  obtain ⟨-, hname, hkilled⟩ := h
  simp_all [Request.Ok, Request.Idle, Request.Killed, Request.kfree]

/-- The invariant does not depend on where the thread is. -/
lemma Request.Ok.setChild (h : q.Ok stage) (child : Option Child) :
    ({ q with child := child } : Request).Ok stage := by
  rcases stage with _ | _ | (_ | _) | _ | _ | _ <;> exact h

/-- A new thread does not move its creator. -/
lemma ChildMove.pc_eq {tid : ℕ} {pc pc' : ChildPc} (h : ChildMove tid q pc pc' q') :
    q'.pc = q.pc := by
  cases h <;> rfl

/-- Every move of a new thread keeps the invariant of its request. -/
lemma ChildMove.ok {tid : ℕ} {pc pc' : ChildPc} (h : ChildMove tid q pc pc' q')
    (hok : q.Ok pc.stage) : q'.Ok pc'.stage := by
  cases h with
  | copy => exact hok
  | xchg =>
    have hxchg := Request.Ok.xchg hok
    cases hdone : q.done <;> rw [hdone] at hxchg <;> exact hxchg
  | freeName => exact Request.Ok.setName hok _ (by simp)
  | freeCreate => exact Request.Ok.kfree hok
  | takeName => exact Request.Ok.setName hok _ (by simp)
  | setResult => exact Request.Ok.setResult hok _
  | complete => exact Request.Ok.complete hok

/-- Every move of `kthreadd` after a failed fork keeps the invariant of the request. -/
lemma FailMove.ok {r : ℕ} {pc pc' : DaemonPc} (h : FailMove r q pc pc' q') {stage : Stage}
    (hserves : pc.serves = some (r, stage)) (hok : q.Ok stage) :
    (∃ stage', pc'.serves = some (r, stage') ∧ q'.Ok stage') ∨ pc' = .take ∧ q'.Ok .rest := by
  cases h with
  | xchg =>
    cases hserves
    exact .inl ⟨_, rfl, hok.xchg⟩
  | @freeName e done =>
    cases hserves
    have hname := hok.setName .freed (by simp)
    cases done <;> exact .inl ⟨_, rfl, hname⟩
  | freeCreate =>
    cases hserves
    exact .inr ⟨rfl, hok.kfree⟩
  | setResult =>
    cases hserves
    exact .inl ⟨_, rfl, hok.setResult _⟩
  | complete =>
    cases hserves
    exact .inr ⟨rfl, hok.complete⟩

/-! ## Answers -/

/-- The thread will not run its function, because the creator has been killed. -/
def ChildPc.Lost : ChildPc → Prop
  | copy | xchg | freeName | freeCreate | exited => True
  | takeName | setResult | complete | parked => False

/-- The creator has not put its request on the list. -/
def CreatorPc.Early : CreatorPc → Prop
  | kmalloc | kvasprintf | listAddTail => True
  | _ => False

/-- What the creator returns, or is about to return. -/
def CreatorPc.answer : CreatorPc → Option Answer
  | freeCreate task | returned task => some task
  | _ => none

/-- The creator is answered with the thread forked for its request. -/
structure Request.Answers (q : Request) : Prop where
  result_ok : ∀ tid, q.result = some (.ok tid) →
    q.child = some ⟨tid, .complete⟩ ∨ q.child = some ⟨tid, .parked⟩
  result_error : ∀ e, q.result = some (.error e) → q.child = none
  answer_ok : ∀ tid, q.pc.answer = some (.ok tid) → q.child = some ⟨tid, .parked⟩
  answer_error : ∀ e t, q.pc.answer = some (.error e) → q.child = some t → t.pc.Lost
  early : q.pc.Early → q.child = none

/-- Every move of a creator keeps this. -/
lemma CreatorMove.answers (h : CreatorMove q q') (hok : q.Ok stage) (hanswers : q.Answers)
    (hchild : ∀ t, q.child = some t → t.pc.stage = stage) : q'.Answers := by
  obtain ⟨hresult, herror, hanswer, hanswer', hearly⟩ := hanswers
  cases h with
  | kmalloc hpc | kvasprintf hpc =>
    exact ⟨hresult, herror, by simp [CreatorPc.answer], by simp [CreatorPc.answer],
      fun _ => hearly (by rw [hpc]; trivial)⟩
  | kmallocFails hpc | kvasprintfFails hpc =>
    refine ⟨hresult, herror, by simp [CreatorPc.answer], fun e t _ ht => ?_,
      fun h => (by cases h)⟩
    simp [hearly (by rw [hpc]; trivial)] at ht
  | waited | killed =>
    exact ⟨hresult, herror, by simp [CreatorPc.answer], by simp [CreatorPc.answer],
      fun h => (by cases h)⟩
  | xchg hpc =>
    cases hdone : q.done with
    | false =>
      exact ⟨hresult, herror, by simp [CreatorPc.answer], by simp [CreatorPc.answer],
        fun h => (by cases h)⟩
    | true =>
      refine ⟨hresult, herror, by simp [CreatorPc.answer], fun e t _ ht => ?_,
        fun h => (by cases h)⟩
      -- the thread has not got to its exchange
      have hpending : stage = .pending := by
        rcases stage with _ | _ | (_ | _) | _ | _ | _ <;>
          simp_all [Request.Ok, Request.Idle, Request.Killed]
      have hstage := (hchild t ht).trans hpending
      cases htpc : t.pc <;> simp_all [ChildPc.stage, ChildPc.Lost]
  | @read task hpc htask =>
    have hrest : stage = .rest :=
      hok.stage_eq (by simp [Request.Waits, hpc]) (by simp [Request.Killed, hpc])
    refine ⟨hresult, herror, fun tid htid => ?_, fun e t he ht => ?_, fun h => (by cases h)⟩
    · obtain rfl : task = .ok tid := by simpa [CreatorPc.answer] using htid
      refine (hresult tid htask).resolve_left fun hcomplete => ?_
      cases (hchild _ hcomplete).trans hrest
    · obtain rfl : task = .error e := by simpa [CreatorPc.answer] using he
      rw [herror e htask] at ht
      cases ht
  | freeCreate hpc =>
    rw [hpc] at hanswer hanswer'
    exact ⟨hresult, herror, hanswer, hanswer', fun h => (by cases h)⟩

/-- A creator that has no answer and goes on without one keeps this. -/
lemma Request.Answers.setPc (h : q.Answers) (pc : CreatorPc) (hanswer : pc.answer = none)
    (hearly : ¬pc.Early) : ({ q with pc := pc } : Request).Answers where
  result_ok := h.result_ok
  result_error := h.result_error
  answer_ok := fun tid htid => by cases hanswer.symm.trans htid
  answer_error := fun e t he => by cases hanswer.symm.trans he
  early := fun h => absurd h hearly

/-- A thread that is not parked has answered at most its request, and its creator has at most been
killed. -/
lemma Request.Answers.of_child {tid : ℕ} {pc : ChildPc}
    (hresult : q.result = none ∨ q.result = some (.ok tid) ∧ (pc = .complete ∨ pc = .parked))
    (hanswer : ∀ task, q.pc.answer = some task → (∃ e, task = .error e) ∧ pc.Lost)
    (hlate : ¬q.pc.Early) : ({ q with child := some ⟨tid, pc⟩ } : Request).Answers where
  result_ok := fun tid' h => by
    rcases hresult with hnone | ⟨hok, rfl | rfl⟩
    · exact absurd (hnone.symm.trans h) (by simp)
    · cases hok.symm.trans h
      exact .inl rfl
    · cases hok.symm.trans h
      exact .inr rfl
  result_error := fun e h => by
    rcases hresult with hnone | ⟨hok, -⟩
    · exact absurd (hnone.symm.trans h) (by simp)
    · exact absurd (hok.symm.trans h) (by simp)
  answer_ok := fun tid' h => by
    obtain ⟨e, he⟩ := (hanswer _ h).1
    cases he
  answer_error := fun e t h ht => by
    cases ht
    exact (hanswer _ h).2
  early := fun h => absurd h hlate

/-- A thread that has just been forked has answered nothing. -/
lemma Request.Answers.of_fork (hok : q.Ok .pending) (tid : ℕ) :
    ({ q with child := some ⟨tid, .copy⟩ } : Request).Answers := by
  obtain ⟨-, -, hresult, -, hpc⟩ := hok
  refine .of_child (.inl hresult) (fun task h => ?_) fun hearly => ?_
  · obtain ⟨hpc | hpc | hpc | hpc, -⟩ | ⟨hkilled, -⟩ := hpc
    all_goals first | rw [hpc] at h; cases h | rw [hkilled] at h; cases h
    exact ⟨⟨.eintr, rfl⟩, trivial⟩
  · obtain ⟨hpc | hpc | hpc | hpc, -⟩ | ⟨hkilled, -⟩ := hpc
    all_goals first | rw [hpc] at hearly; cases hearly | rw [hkilled] at hearly; cases hearly

/-- Every move of a new thread keeps this. -/
lemma ChildMove.answers {t : Child} {pc' : ChildPc} (h : ChildMove t.tid q t.pc pc' q')
    (hok : q.Ok t.pc.stage) (hanswers : q.Answers) (ht : q.child = some t) :
    ({ q' with child := some ⟨t.tid, pc'⟩ } : Request).Answers := by
  obtain ⟨tid, pc⟩ := t
  obtain ⟨hresult, herror, hanswer, hanswer', hearly⟩ := hanswers
  have hlate : ¬q.pc.Early := fun h => by simp [hearly h] at ht
  have herror' : ∀ e, q.result ≠ some (.error e) := fun e he => by simp [herror e he] at ht
  -- before its answer the thread has not stored anything
  have hnone : pc ≠ .complete → pc ≠ .parked → q.result = none := fun hc hp => by
    rcases hres : q.result with _ | (e | tid')
    · rfl
    · exact absurd hres (herror' e)
    · rcases hresult tid' hres with h | h <;> simp_all
  have hlost : pc ≠ .parked → ∀ task, q.pc.answer = some task →
      (∃ e, task = .error e) ∧ pc.Lost := by
    rintro hp (e | tid') h
    · exact ⟨⟨e, rfl⟩, hanswer' e _ h ht⟩
    · rw [hanswer tid' h] at ht
      cases ht
      exact absurd rfl hp
  cases h with
  | copy | freeName | freeCreate =>
    exact .of_child (.inl (hnone (by simp) (by simp))) (hlost (by simp)) hlate
  | xchg =>
    refine .of_child (.inl (hnone (by simp) (by simp))) (fun task h => ?_) hlate
    replace h : q.pc.answer = some task := h
    obtain ⟨he, -⟩ := hlost (by simp) task h
    refine ⟨he, ?_⟩
    obtain ⟨-, -, -, -, ⟨hwaits, -⟩ | ⟨-, hdone⟩⟩ := hok
    · -- a creator that waits has no answer yet
      rcases hwaits with hpc | hpc | hpc | hpc <;> simp [hpc, CreatorPc.answer] at h
    · simp [hdone, ChildPc.Lost]
  | takeName =>
    exact .of_child (.inl (hnone (by simp) (by simp)))
      (fun task h => (hlost (by simp) task h).2.elim) hlate
  | setResult =>
    exact .of_child (.inr ⟨rfl, .inl rfl⟩) (fun task h => (hlost (by simp) task h).2.elim) hlate
  | complete =>
    refine .of_child (.inr ⟨?_, .inr rfl⟩) (fun task h => (hlost (by simp) task h).2.elim) hlate
    obtain ⟨-, -, -, -, -, hsome⟩ := hok
    rcases hres : q.result with _ | (e | tid')
    · exact absurd hres hsome
    · exact absurd hres (herror' e)
    · rcases hresult tid' hres with h | h <;> rw [ht] at h <;> cases h
      rfl

/-- After a failed fork there is no thread. -/
lemma FailMove.child_eq {r : ℕ} {pc pc' : DaemonPc} (h : FailMove r q pc pc' q') :
    q'.child = q.child := by
  cases h <;> rfl

/-- Every move of `kthreadd` after a failed fork keeps this. -/
lemma FailMove.answers {r : ℕ} {pc pc' : DaemonPc} (h : FailMove r q pc pc' q')
    (hanswers : q.Answers) (hchild : q.child = none) : q'.Answers := by
  obtain ⟨hresult, herror, hanswer, hanswer', hearly⟩ := hanswers
  cases h with
  | setResult => exact ⟨by simp, fun _ _ => hchild, hanswer, hanswer', hearly⟩
  | _ => exact ⟨hresult, herror, hanswer, hanswer', hearly⟩

end Request

end KthreadCreate

end XorSyscalls
