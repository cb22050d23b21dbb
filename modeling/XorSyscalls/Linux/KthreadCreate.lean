import XorSyscalls.Kernel.State
import XorSyscalls.Foundation.TransitionSystem

/-!
# Creating kernel threads

`kthread_run` does not create a thread itself.  `__kthread_create_on_node` puts a request, a
`struct kthread_create_info`, on a list, wakes the thread `kthreadd` and waits for a completion on
its own stack.  `kthreadd` takes the requests off the list and forks; the new thread, or `kthreadd`
if the fork fails, stores its answer in the request and completes.

The creator may be killed while it waits.  Then it and the other side settle by an exchange of
`create->done` who has to clean up: who finds the pointer cleared leaves it to the other one or
waits for it.

This module has any number of creators, `kthreadd` and the new threads, in steps of single accesses
to what they share.

* Spin locks are not modelled: what is done under `kthread_create_lock` is one step.
* `create->threadfn`, `create->data` and the settings of the new thread are left out.
* A use of a freed request, of a freed name or of the completion of a creator that has returned is a
  fault, and nothing happens after it.
-/

namespace XorSyscalls

open TransitionSystem

namespace KthreadCreate

/-- What `__kthread_create_on_node` returns: a pointer to the new thread, or an error. -/
abbrev Answer := Except Errno ℕ

/-! ## Requests -/

/-- Where a creator is in `__kthread_create_on_node`. -/
inductive CreatorPc
  /-- `kmalloc` of the request -/
  | kmalloc
  /-- `kvasprintf` of `full_name` -/
  | kvasprintf
  /-- `list_add_tail` -/
  | listAddTail
  /-- `wake_up_process(kthreadd_task)` -/
  | wakeUpProcess
  /-- `wait_for_completion_killable` -/
  | waitKillable
  /-- `xchg(&create->done, NULL)` of a creator that has been killed -/
  | xchg
  /-- `wait_for_completion` -/
  | wait
  /-- `task = create->result` -/
  | read
  /-- `free_create` -/
  | freeCreate (task : Answer)
  | returned (task : Answer)
  deriving DecidableEq

/-- Where a new thread is in `kthread`. -/
inductive ChildPc
  /-- Copying from the request. -/
  | copy
  /-- `xchg(&create->done, NULL)` -/
  | xchg
  /-- `kfree(create->full_name)`, the creator having been killed -/
  | freeName
  /-- `kfree(create)` -/
  | freeCreate
  /-- `self->full_name = create->full_name` -/
  | takeName
  /-- `create->result = current` -/
  | setResult
  /-- `complete(done)` -/
  | complete
  /-- In `schedule`, until it is woken for the first time. -/
  | parked
  /-- Behind `kthread_exit(-EINTR)`. -/
  | exited
  deriving DecidableEq

/-- A new thread. -/
structure Child where
  tid : ℕ
  pc : ChildPc
  deriving DecidableEq

/-- The memory of `full_name`. -/
inductive Name
  | unallocated
  /-- Allocated, and only known from the request. -/
  | held
  /-- Handed over to the new thread. -/
  | taken
  | freed
  deriving DecidableEq

/-- A request: its creator, the `struct kthread_create_info` and the thread forked for it. -/
structure Request where
  pc : CreatorPc
  /-- `done.done`, on the stack of the creator -/
  completion : ℕ
  allocated : Bool
  freed : Bool
  /-- `create->done` is not `NULL`. -/
  done : Bool
  /-- `create->result` -/
  result : Option Answer
  fullName : Name
  child : Option Child

namespace Request

/-- A creator that has not begun. -/
def new : Request := ⟨.kmalloc, 0, false, false, false, none, .unallocated, none⟩

/-- An access to the `struct kthread_create_info`. -/
def access (q : Request) (f : Request → Option Request) : Option Request :=
  if q.allocated = true ∧ q.freed = false then f q else none

/-- `xchg(&create->done, NULL)` -/
def xchg (q : Request) : Request := { q with done := false }

/-- `kfree(create->full_name)` -/
def kfreeName (q : Request) : Option Request :=
  if q.fullName = .held then some { q with fullName := .freed } else none

/-- `kfree(create)` -/
def kfree (q : Request) : Request := { q with freed := true }

/-- The creator has returned, so its stack is gone. -/
def gone (q : Request) : Bool :=
  match q.pc with
  | .returned _ => true
  | _ => false

/-- `complete(done)` -/
def complete (q : Request) : Option Request :=
  if q.gone then none else some { q with completion := q.completion + 1 }

end Request

/-! ## The parties -/

/-- Where `kthreadd` is. -/
inductive DaemonPc
  /-- `set_current_state(TASK_INTERRUPTIBLE)` -/
  | setInterruptible
  /-- `list_empty` -/
  | listEmpty
  | schedule
  /-- `__set_current_state(TASK_RUNNING)` -/
  | setRunning
  /-- The inner loop, which takes a request off the list. -/
  | take
  /-- `kernel_thread` -/
  | fork (r : ℕ)
  /-- `xchg(&create->done, NULL)` after a failed fork -/
  | xchg (r : ℕ) (e : Errno)
  /-- `kfree(create->full_name)`, where `done` says whether the creator waits -/
  | freeName (r : ℕ) (e : Errno) (done : Bool)
  /-- `kfree(create)` -/
  | freeCreate (r : ℕ)
  /-- `create->result = ERR_PTR(pid)` -/
  | setResult (r : ℕ) (e : Errno)
  /-- `complete(done)` -/
  | complete (r : ℕ)

/-- The state of all creators, `kthreadd` and the new threads. -/
structure CState where
  requests : List Request
  /-- `kthread_create_list` -/
  list : List ℕ
  daemon : DaemonPc
  /-- The state of `kthreadd` is `TASK_RUNNING`. -/
  running : Bool
  nextTid : ℕ
  fault : Bool

namespace CState

/-- `n` creators that have not begun, and `kthreadd` in front of its loop. -/
def start (n : ℕ) : CState := ⟨List.replicate n .new, [], .setInterruptible, true, 0, false⟩

/-- Change the request `r` by `f`; it is a fault if this is not possible. -/
def use (s : CState) (r : ℕ) (f : Request → Option Request) (daemon : Request → DaemonPc) :
    Option CState :=
  (s.requests[r]?).map fun q =>
    match f q with
    | some q' => { s with requests := s.requests.set r q', daemon := daemon q }
    | none => { s with fault := true }

/-- The `struct kthread_create_info` of request `r` can be accessed. -/
def accessible (s : CState) (r : ℕ) : Bool :=
  (s.requests[r]?).any fun q => (q.access some).isSome

/-- `__list_add` and `__list_del` write to the links of the requests `rs`; it is a fault if one of
them is gone. -/
def link (s : CState) (rs : List ℕ) (s' : CState) : CState :=
  if rs.all s.accessible then s' else { s with fault := true }

/-- One step of creator `r`; `ok` is the outcome of an allocation. -/
def creatorStep (s : CState) (r : ℕ) (ok : Bool) : Option CState :=
  match s.requests[r]? with
  | none => none
  | some q =>
    let goto q' := some { s with requests := s.requests.set r q' }
    match q.pc with
    | .kmalloc =>
      if ok then goto { q with allocated := true, pc := .kvasprintf }
      else goto { q with pc := .returned (.error .enomem) }
    | .kvasprintf =>
      s.use r (fun q => q.access fun q =>
        if ok then some { q with done := true, fullName := .held, pc := .listAddTail }
        else some { q with done := true, pc := .freeCreate (.error .enomem) }) fun _ => s.daemon
    | .listAddTail =>
      some (s.link (r :: s.list.getLast?.toList) { s with
        requests := s.requests.set r { q with pc := .wakeUpProcess }
        list := s.list ++ [r] })
    | .wakeUpProcess =>
      some { s with requests := s.requests.set r { q with pc := .waitKillable }, running := true }
    | .waitKillable | .wait =>
      if q.completion = 0 then none
      else goto { q with completion := q.completion - 1, pc := .read }
    | .xchg =>
      s.use r (fun q => q.access fun q => some
        { q.xchg with pc := if q.done then .returned (.error .eintr) else .wait }) fun _ => s.daemon
    | .read =>
      -- to read a result that was never stored is a fault, too
      s.use r (fun q => q.access fun q => q.result.map fun task =>
        { q with pc := .freeCreate task }) fun _ => s.daemon
    | .freeCreate task =>
      s.use r (fun q => q.access fun q => some { q.kfree with pc := .returned task })
        fun _ => s.daemon
    | .returned _ => none

/-- A fatal signal ends `wait_for_completion_killable` of creator `r`. -/
def kill (s : CState) (r : ℕ) : Option CState :=
  match s.requests[r]? with
  | none => none
  | some q =>
    match q.pc with
    | .waitKillable =>
      if q.completion = 0 then some { s with requests := s.requests.set r { q with pc := .xchg } }
      else none
    | _ => none

/-- One step of the thread forked for request `r`. -/
def childStep (s : CState) (r : ℕ) : Option CState :=
  match (s.requests[r]?).bind Request.child with
  | none => none
  | some t =>
    let goto (pc : ChildPc) (q : Request) : Request := { q with child := some { t with pc := pc } }
    let use f := s.use r f fun _ => s.daemon
    match t.pc with
    | .copy => use fun q => q.access fun q => some (goto .xchg q)
    | .xchg => use fun q => q.access fun q =>
        some (goto (if q.done then .takeName else .freeName) q.xchg)
    | .freeName => use fun q => q.access fun q => q.kfreeName.map (goto .freeCreate)
    | .freeCreate => use fun q => q.access fun q => some (goto .exited q.kfree)
    | .takeName => use fun q => q.access fun q =>
        if q.fullName = .held then some (goto .setResult { q with fullName := .taken }) else none
    | .setResult => use fun q => q.access fun q =>
        some (goto .complete { q with result := some (.ok t.tid) })
    | .complete => use fun q => q.complete.map (goto .parked)
    | .parked | .exited => none

/-- One step of `kthreadd`; `error` is the outcome of a fork. -/
def daemonStep (s : CState) (error : Option Errno) : Option CState :=
  match s.daemon with
  | .setInterruptible => some { s with running := false, daemon := .listEmpty }
  | .listEmpty => some { s with daemon := if s.list = [] then .schedule else .setRunning }
  | .schedule => if s.running then some { s with daemon := .setRunning } else none
  | .setRunning => some { s with running := true, daemon := .take }
  | .take =>
    match s.list with
    | [] => some { s with daemon := .setInterruptible }
    | r :: list =>
      -- `list_del_init`
      some (s.link (r :: list.head?.toList) { s with list := list, daemon := .fork r })
  | .fork r =>
    match error with
    | none =>
      -- the fork copies the name
      (s.use r (fun q => q.access fun q =>
        if q.fullName = .held then some { q with child := some ⟨s.nextTid, .copy⟩ } else none)
        fun _ => .take).map fun s' => { s' with nextTid := s.nextTid + 1 }
    | some e => s.use r (fun q => q.access some) fun _ => .xchg r e
  | .xchg r e => s.use r (fun q => q.access fun q => some q.xchg) fun q => .freeName r e q.done
  | .freeName r e done =>
    s.use r (fun q => q.access Request.kfreeName)
      fun _ => if done then .setResult r e else .freeCreate r
  | .freeCreate r => s.use r (fun q => q.access fun q => some q.kfree) fun _ => .take
  | .setResult r e =>
    s.use r (fun q => q.access fun q => some { q with result := some (.error e) })
      fun _ => .complete r
  | .complete r => s.use r Request.complete fun _ => .take

end CState

/-! ## Schedules -/

/-- The actions a scheduler can choose. -/
inductive CAct
  /-- Creator `r` takes a step; an allocation succeeds if `ok`. -/
  | creator (r : ℕ) (ok : Bool)
  /-- Creator `r` is killed. -/
  | kill (r : ℕ)
  /-- The thread forked for request `r` takes a step. -/
  | child (r : ℕ)
  /-- `kthreadd` takes a step; a fork fails with `error`, if any. -/
  | daemon (error : Option Errno)

/-- One step; there is none after a fault. -/
def step (s : CState) (a : CAct) : Option CState :=
  if s.fault then none
  else
    match a with
    | .creator r ok => s.creatorStep r ok
    | .kill r => s.kill r
    | .child r => s.childStep r
    | .daemon error => s.daemonStep error

/-- The runs of `n` creators. -/
def Run (n : ℕ) (acts : List CAct) (s : CState) : Prop := run step (.start n) acts = some s

end KthreadCreate

end XorSyscalls
