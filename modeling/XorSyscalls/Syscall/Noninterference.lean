import XorSyscalls.Foundation.Bisimulation
import XorSyscalls.Syscall.Transfers

/-!
# Fresh kernel memory and the output

Two runs of a call with the same schedule that differ only in what freshly allocated memory holds
proceed in lockstep: `SameShape` says that their states agree in everything but the bytes of the
heap and of the files, and `SameShape.step` that every step keeps this.  So control flow and return
value never depend on fresh memory.  `noninterference_iff` says when the output does not either:
iff every byte that is written was computed from bytes that the reads have filled.
-/

namespace XorSyscalls

open TransitionSystem

/-! ## States that agree in everything but bytes -/

/-- The kernel states agree in everything but the bytes of blocks and files. -/
structure Kernel.SameShape (k₁ k₂ : Kernel) : Prop where
  size_eq : ∀ p, (k₁.fs p).map File.size = (k₂.fs p).map File.size
  length_eq : ∀ b, (k₁.mem b).length = (k₂.mem b).length
  args_eq : k₁.args = k₂.args
  live_eq : k₁.live = k₂.live
  files_eq : k₁.files = k₂.files
  holder_eq : k₁.holder = k₂.holder
  log_eq : k₁.log = k₂.log
  misuses_eq : k₁.misuses = k₂.misuses

namespace Kernel.SameShape

variable {k₁ k₂ : Kernel}

lemma refl (k : Kernel) : k.SameShape k :=
  ⟨fun _ => rfl, fun _ => rfl, rfl, rfl, rfl, rfl, rfl, rfl⟩

/-- Replacing a block by bytes of the same number. -/
lemma setMem (h : k₁.SameShape k₂) (b : Block) {x y : List UInt8} (hlen : x.length = y.length) :
    (k₁.setMem b x).SameShape (k₂.setMem b y) := by
  refine { h with length_eq := fun b' => ?_ }
  rcases eq_or_ne b' b with rfl | hne
  · simpa [Kernel.setMem] using hlen
  · simpa [Kernel.setMem, hne] using h.length_eq b'

/-- Replacing a file by one of the same size. -/
lemma setFile (h : k₁.SameShape k₂) (p : Path) {f g : File} (hsize : f.size = g.size) :
    (k₁.setFile p f).SameShape (k₂.setFile p g) := by
  refine { h with size_eq := fun p' => ?_ }
  rcases eq_or_ne p' p with rfl | hne
  · simpa [Kernel.setFile] using hsize
  · simpa [Kernel.setFile, hne] using h.size_eq p'

lemma setHolder (h : k₁.SameShape k₂) (m : Mutex) (o : Option (ℕ × ℕ)) :
    (k₁.setHolder m o).SameShape (k₂.setHolder m o) := by
  refine { h with holder_eq := ?_ }
  simp only [Kernel.setHolder, h.holder_eq]

lemma printk (h : k₁.SameShape k₂) (e : LogEntry) : (k₁.printk e).SameShape (k₂.printk e) := by
  refine { h with log_eq := ?_ }
  simp only [Kernel.printk, h.log_eq]

lemma opened (h : k₁.SameShape k₂) (f : OpenFile) : (k₁.opened f).SameShape (k₂.opened f) := by
  refine { h with files_eq := ?_ }
  simp only [Kernel.opened, h.files_eq]

lemma filpClose (h : k₁.SameShape k₂) (f : OpenFile) :
    (k₁.filpClose f).SameShape (k₂.filpClose f) := by
  unfold Kernel.filpClose
  rw [h.files_eq]
  split
  · exact { h with files_eq := rfl }
  · exact { h with files_eq := rfl, misuses_eq := by rw [h.misuses_eq] }

lemma clear (h : k₁.SameShape k₂) (b : Block) : (k₁.clear b).SameShape (k₂.clear b) := by
  refine { h.setMem b (x := []) (y := []) rfl with args_eq := ?_ }
  simp only [Kernel.clear, h.args_eq]

lemma kfree (h : k₁.SameShape k₂) (p : Ptr) : (k₁.kfree p).SameShape (k₂.kfree p) := by
  cases p with
  | null => exact h
  | zeroSize => exact h
  | block b =>
    rw [Kernel.kfree, Kernel.kfree, h.live_eq]
    split
    · exact { h.clear b with live_eq := rfl }
    · exact { h.clear b with misuses_eq := by rw [h.misuses_eq] }

lemma withBlock (h : k₁.SameShape k₂) (b : Block) {x y : List UInt8}
    (hlen : x.length = y.length) : (k₁.withBlock b x).SameShape (k₂.withBlock b y) := by
  refine { h.setMem b hlen with args_eq := (h.clear b).args_eq, live_eq := ?_ }
  simp only [Kernel.withBlock, h.live_eq]

lemma storeArgs (h : k₁.SameShape k₂) (p : ArgsPtr) (a : WorkerArgs) :
    (k₁.storeArgs p a).SameShape (k₂.storeArgs p a) := by
  refine { h with args_eq := ?_ }
  simp only [Kernel.storeArgs, h.args_eq]

/-- Storing equally many bytes at the start of a block. -/
lemma fill (h : k₁.SameShape k₂) (p : Ptr) {x y : List UInt8} (hlen : x.length = y.length) :
    (k₁.fill p x).SameShape (k₂.fill p y) := by
  cases p with
  | null => exact h
  | zeroSize => exact h
  | block b =>
    refine h.setMem b ?_
    rw [List.length_append, List.length_append, List.length_drop, List.length_drop, hlen,
      h.length_eq b]

lemma storeByte (h : k₁.SameShape k₂) (p : Ptr) (j : ℕ) (v v' : UInt8) :
    (k₁.storeByte p j v).SameShape (k₂.storeByte p j v') := by
  cases p with
  | null => exact h
  | zeroSize => exact h
  | block b =>
    refine h.setMem b ?_
    rw [List.length_set, List.length_set, h.length_eq b]

/-- The bytes that a pointer leads to are equally many. -/
lemma length_bytesAt (h : k₁.SameShape k₂) (p : Ptr) :
    (k₁.bytesAt p).length = (k₂.bytesAt p).length := by
  cases p with
  | null => rfl
  | zeroSize => rfl
  | block b => exact h.length_eq b

/-- The same bytes are there. -/
lemma byteAt_eq_none_iff (h : k₁.SameShape k₂) (p : Ptr) (j : ℕ) :
    k₁.byteAt p j = none ↔ k₂.byteAt p j = none := by
  rw [Kernel.byteAt, Kernel.byteAt, List.getElem?_eq_none_iff, List.getElem?_eq_none_iff,
    h.length_bytesAt]

lemma noteUse (h : k₁.SameShape k₂) (p : Ptr) : (k₁.noteUse p).SameShape (k₂.noteUse p) := by
  cases p with
  | null => exact h
  | zeroSize => exact h
  | block b =>
    simp only [Kernel.noteUse, h.live_eq]
    split
    · exact h
    · exact { h with live_eq := rfl, misuses_eq := by rw [h.misuses_eq] }

lemma scribble (h : k₁.SameShape k₂) (task : ℕ) (hit : Hit) :
    (k₁.scribble task hit).SameShape (k₂.scribble task hit) := by
  cases hit with
  | nothing => exact h
  | byte b j v =>
    rw [Kernel.scribble, Kernel.scribble]
    split
    · exact h
    · exact h.setMem b (by rw [List.length_set, List.length_set, h.length_eq b])
  | args b elem a =>
    rw [Kernel.scribble, Kernel.scribble, h.args_eq]
    split
    · exact h
    · exact h.storeArgs _ _

/-- The same arguments are found. -/
lemma findArgs (h : k₁.SameShape k₂) (p : ArgsPtr) (x : Chance) :
    Option.Rel (fun m m' => m.1 = m'.1 ∧ m.2.SameShape m'.2) (k₁.findArgs p x)
      (k₂.findArgs p x) := by
  unfold Kernel.findArgs
  rw [Kernel.loadArgs_congr h.args_eq]
  split
  · exact .some ⟨rfl, h⟩
  · exact .some ⟨rfl, h.noteUse _⟩
  · exact .none

/-- A byte is XORed in both states or in neither. -/
lemma xorByte (h : k₁.SameShape k₂) (task : ℕ) (dst : Ptr) (idx : ℕ) (src : Ptr) (jdx : ℕ)
    (x : Chance) : Option.Rel Kernel.SameShape (k₁.xorByte task dst idx src jdx x)
      (k₂.xorByte task dst idx src jdx x) := by
  have hdst := h.byteAt_eq_none_iff dst idx
  have hsrc := h.byteAt_eq_none_iff src jdx
  have hstray : ∀ e : Stray, Option.Rel Kernel.SameShape
      (some (((k₁.noteUse dst).noteUse src).scribble task e.hit))
      (some (((k₂.noteUse dst).noteUse src).scribble task e.hit)) :=
    fun e => .some (((h.noteUse dst).noteUse src).scribble task e.hit)
  unfold Kernel.xorByte
  cases h₁ : k₁.byteAt dst idx <;> cases h₂ : k₂.byteAt dst idx <;>
    simp only [h₁, h₂, reduceCtorEq, iff_true, iff_false, not_true] at hdst
  · cases x with
    | stray e => exact hstray e
    | usual | signal => exact .none
  · cases h₁' : k₁.byteAt src jdx <;> cases h₂' : k₂.byteAt src jdx <;>
      simp only [h₁', h₂', reduceCtorEq, iff_true, iff_false, not_true] at hsrc
    · cases x with
      | stray e => exact hstray e
      | usual | signal => exact .none
    · exact .some (h.storeByte dst idx _ _)

/-- The mutex is locked alike. -/
lemma mutexLockInterruptible (h : k₁.SameShape k₂) (m : Mutex) (self : ℕ × ℕ) (pending : Bool)
    (x : Chance) : Option.Rel (fun m m' => m.1 = m'.1 ∧ m.2.SameShape m'.2)
      (k₁.mutexLockInterruptible m self pending x)
      (k₂.mutexLockInterruptible m self pending x) := by
  unfold Kernel.mutexLockInterruptible
  rw [h.holder_eq]
  split <;> split
  · exact .some ⟨rfl, h⟩
  · exact .none
  · exact .some ⟨rfl, h.setHolder _ _⟩
  · exact .none

/-- The bytes of a file are equally many. -/
lemma length_contents (h : k₁.SameShape k₂) (p : Path) :
    (k₁.contents p).length = (k₂.contents p).length := by
  have hsize := h.size_eq p
  unfold Kernel.contents
  cases h₁ : k₁.fs p <;> cases h₂ : k₂.fs p <;> simp_all [File.size]

/-- The same files exist. -/
lemma fs_eq_none_iff (h : k₁.SameShape k₂) (p : Path) : k₁.fs p = none ↔ k₂.fs p = none := by
  have hsize := h.size_eq p
  cases h₁ : k₁.fs p <;> cases h₂ : k₂.fs p <;> simp_all

end Kernel.SameShape

/-- Files of the same size stay so when equally many bytes are written to them. -/
lemma File.size_overwrite_congr {f g : File} (hsize : f.size = g.size) {x y : List UInt8}
    (hlen : x.length = y.length) : (f.overwrite x).size = (g.overwrite y).size := by
  simp only [File.size, File.overwrite, List.length_take, List.length_append, List.length_drop]
    at hsize ⊢
  rw [hlen, hsize]

/-! ## Lockstep -/

/-- Two answers of the kernel agree, and so do the states left behind in everything but bytes. -/
def AnswersAlike {α : Type} (r₁ r₂ : α × Kernel) : Prop := r₁.1 = r₂.1 ∧ r₁.2.SameShape r₂.2

section Exec

variable (c : Call) (junk₁ junk₂ : Site → ℕ → UInt8) {k₁ k₂ : Kernel}

/-- Opening a file answers the same. -/
lemma filpOpen_sameShape (h : k₁.SameShape k₂) (site : Site) (filename : List UInt8)
    (mode : OpenMode) :
    AnswersAlike ((c.withJunk junk₁).filpOpen site filename mode k₁)
      ((c.withJunk junk₂).filpOpen site filename mode k₂) := by
  have hpath : ∀ junk, (c.withJunk junk).pathAt site filename = c.pathAt site filename :=
    fun _ => rfl
  have hnone := h.fs_eq_none_iff (c.pathAt site filename)
  simp only [AnswersAlike, Call.filpOpen, hpath]
  cases herr : c.env.openError site with
  | some e => simp [Call.withJunk, herr, h]
  | none =>
    cases h₁ : k₁.fs (c.pathAt site filename) <;>
      cases h₂ : k₂.fs (c.pathAt site filename) <;> simp [h₁, h₂] at hnone
    · cases mode with
      | readOnly => simp [Call.withJunk, herr, h]
      | writeCreate => simp [Call.withJunk, herr, (h.setFile _ rfl).opened]
    · simp [Call.withJunk, herr, h.opened]

/-- Allocating memory answers the same. -/
lemma kmalloc_sameShape (h : k₁.SameShape k₂) (site : Site) (size : ℕ) :
    AnswersAlike ((c.withJunk junk₁).kmalloc site size k₁)
      ((c.withJunk junk₂).kmalloc site size k₂) := by
  unfold AnswersAlike Call.kmalloc
  by_cases hsize : size = 0
  · simp [hsize, h]
  · by_cases halloc : c.env.allocates site = true
    · simp only [hsize, if_false, Call.withJunk, halloc, if_true]
      exact ⟨rfl, h.withBlock _ (by simp)⟩
    · simp [hsize, Call.withJunk, halloc, h]

/-- Reading a file transfers equally many bytes. -/
lemma kernelRead_sameShape (h : k₁.SameShape k₂) (file : OpenFile) (buf : Ptr) (count : ℕ) :
    AnswersAlike ((c.withJunk junk₁).kernelRead file buf count k₁)
      ((c.withJunk junk₂).kernelRead file buf count k₂) := by
  unfold AnswersAlike Call.kernelRead
  cases hread : c.env.readResult file.site with
  | error e => simp [Call.withJunk, hread, h]
  | ok m =>
    have hlen : ((k₁.contents file.path).take (min m count)).length =
        ((k₂.contents file.path).take (min m count)).length := by
      rw [List.length_take, List.length_take, h.length_contents]
    simp only [Call.withJunk, hread]
    exact ⟨by rw [hlen], h.fill buf hlen⟩

/-- Writing a file transfers equally many bytes. -/
lemma kernelWrite_sameShape (h : k₁.SameShape k₂) (file : OpenFile) (buf : Ptr) (count : ℕ) :
    AnswersAlike ((c.withJunk junk₁).kernelWrite file buf count k₁)
      ((c.withJunk junk₂).kernelWrite file buf count k₂) := by
  unfold AnswersAlike Call.kernelWrite
  cases hwrite : c.env.writeResult with
  | error e => simp [Call.withJunk, hwrite, h]
  | ok m =>
    have hlen : ((k₁.bytesAt buf).take (min m count)).length =
        ((k₂.bytesAt buf).take (min m count)).length := by
      rw [List.length_take, List.length_take, h.length_bytesAt]
    have hsize := h.size_eq file.path
    simp only [Call.withJunk, hwrite]
    cases h₁ : k₁.fs file.path <;> cases h₂ : k₂.fs file.path <;> simp [h₁, h₂] at hsize
    · exact ⟨by rw [hlen], h⟩
    · exact ⟨by rw [hlen], h.setFile _ (File.size_overwrite_congr hsize hlen)⟩

/-- Every kernel function answers the same and keeps the shape. -/
lemma exec_sameShape (h : k₁.SameShape k₂) (op : Op) :
    AnswersAlike ((c.withJunk junk₁).exec op k₁) ((c.withJunk junk₂).exec op k₂) := by
  cases op with
  | copyFromUser src n => exact ⟨rfl, h⟩
  | filpOpen site filename mode => exact filpOpen_sameShape c junk₁ junk₂ h site filename mode
  | iSizeRead file => exact ⟨h.length_contents file.path, h⟩
  | kmalloc site size => exact kmalloc_sameShape c junk₁ junk₂ h site size
  | kernelRead file buf count => exact kernelRead_sameShape c junk₁ junk₂ h file buf count
  | kernelWrite file buf count => exact kernelWrite_sameShape c junk₁ junk₂ h file buf count
  | storeByte buf idx v => exact ⟨rfl, h.storeByte buf idx v v⟩
  | filpClose file => exact ⟨rfl, h.filpClose file⟩
  | kfree p => exact ⟨rfl, h.kfree p⟩
  | printk e => exact ⟨rfl, h.printk e⟩

end Exec

/-- The states agree in everything but the bytes of blocks and files. -/
structure State.SameShape (s₁ s₂ : State) : Prop where
  kernel : s₁.kernel.SameShape s₂.kernel
  caller_eq : s₁.caller = s₂.caller
  workers_eq : s₁.workers = s₂.workers

/-- The same step of a worker. -/
lemma workerStep_sameShape {k₁ k₂ : Kernel} (h : k₁.SameShape k₂) (lock : Mutex) (task i : ℕ)
    (x : Chance) (w : Worker) :
    Option.Rel (fun m m' => m.1.SameShape m'.1 ∧ m.2 = m'.2) (workerStep lock task i x k₁ w)
      (workerStep lock task i x k₂ w) := by
  unfold workerStep
  cases w.pc with
  | created => dsimp only; split <;> exact .some ⟨h, rfl⟩
  | locking =>
    refine rel_bind (h.mutexLockInterruptible lock _ _ x) ?_
    rintro ⟨r, k₁⟩ ⟨-, k₂⟩ ⟨rfl, hk⟩
    dsimp only
    split <;> exact .some ⟨hk, rfl⟩
  | entered =>
    refine rel_bind (h.findArgs _ x) ?_
    rintro ⟨a, k₁⟩ ⟨-, k₂⟩ ⟨rfl, hk⟩
    exact .some ⟨hk, rfl⟩
  | testing =>
    refine rel_bind (h.findArgs _ x) ?_
    rintro ⟨a, k₁⟩ ⟨-, k₂⟩ ⟨rfl, hk⟩
    dsimp only
    split
    · split <;> exact .some ⟨hk, rfl⟩
    · exact .some ⟨hk, rfl⟩
  | xoring =>
    refine rel_bind (h.findArgs _ x) ?_
    rintro ⟨a, k₁⟩ ⟨-, k₂⟩ ⟨rfl, hk⟩
    dsimp only
    split
    · exact .some ⟨hk, rfl⟩
    · exact rel_bind (hk.xorByte _ _ _ _ _ x) fun _ _ hk => .some ⟨hk, rfl⟩
  | unlocking r => exact .some ⟨h.setHolder _ _, rfl⟩
  | returning r => exact .some ⟨h, rfl⟩
  | exited r => exact .none
  | oops => exact .none

/-- The same fault. -/
lemma faultStep_sameShape {k₁ k₂ : Kernel} (h : k₁.SameShape k₂) (w : Worker) :
    Option.Rel (fun m m' => m.1.SameShape m'.1 ∧ m.2 = m'.2) (k₁.faultStep w)
      (k₂.faultStep w) := by
  have hmissing : k₁.Missing w ↔ k₂.Missing w := by
    unfold Kernel.Missing
    simp only [Kernel.loadArgs_congr h.args_eq, h.byteAt_eq_none_iff]
  unfold Kernel.faultStep
  simp only [hmissing]
  split
  · exact .some ⟨h, rfl⟩
  · exact .none

section Lockstep

variable {d : Syscall} {c : Call} {junk₁ junk₂ : Site → ℕ → UInt8} {s₁ s₂ s₁' : State}

/-- The same step of the calling thread. -/
lemma callerStep_sameShape (h : s₁.SameShape s₂)
    (hstep : callerStep d (c.withJunk junk₁) s₁ = some s₁') :
    ∃ s₂', callerStep d (c.withJunk junk₂) s₂ = some s₂' ∧ s₁'.SameShape s₂' := by
  obtain ⟨k₂, caller, ws⟩ := s₂
  obtain ⟨hk, rfl, rfl⟩ := h
  -- it is enough to give the same move
  have hmove : ∀ {s₂' : State},
      Move d (c.withJunk junk₂) ⟨k₂, s₁.caller, s₁.workers⟩ .caller s₂' → s₁'.SameShape s₂' →
      ∃ s₂', callerStep d (c.withJunk junk₂) ⟨k₂, s₁.caller, s₁.workers⟩ = some s₂' ∧
        s₁'.SameShape s₂' := fun hm hs => ⟨_, hm.callerStep_eq, hs⟩
  cases move_of_callerStep hstep with
  | entryCall hpc =>
    obtain ⟨hres, hshape⟩ := exec_sameShape c junk₁ junk₂ hk _
    exact hmove (.entryCall hpc) ⟨hshape, by rw [hres], rfl⟩
  | entryError hpc => exact hmove (.entryError hpc) ⟨hk, rfl, rfl⟩
  | entryDone hpc => exact hmove (.entryDone hpc) ⟨hk, rfl, rfl⟩
  | divideError hpc hn => exact hmove (.divideError hpc hn) ⟨hk, rfl, rfl⟩
  | divide hpc hn => exact hmove (.divide hpc hn) ⟨hk, rfl, rfl⟩
  | create hpc hlt hrun => exact hmove (.create hpc hlt hrun) ⟨hk.storeArgs _ _, rfl, rfl⟩
  | createError hpc hlt herr =>
    exact hmove (.createError hpc hlt herr) ⟨(hk.storeArgs _ _).printk _, rfl, rfl⟩
  | createDone hpc hge => exact hmove (.createDone hpc hge) ⟨hk, rfl, rfl⟩
  | stop hpc hlt => exact hmove (.stop hpc hlt) ⟨hk, rfl, rfl⟩
  | stopDone hpc hge => exact hmove (.stopDone hpc hge) ⟨hk, rfl, rfl⟩
  | wait hpc hw hexit => exact hmove (.wait hpc hw hexit) ⟨hk.printk _, rfl, rfl⟩
  | saveCall hpc =>
    obtain ⟨hres, hshape⟩ := exec_sameShape c junk₁ junk₂ hk _
    exact hmove (.saveCall hpc) ⟨hshape, by rw [hres], rfl⟩
  | saveDone hpc => exact hmove (.saveDone hpc) ⟨hk, rfl, rfl⟩
  | free hpc => exact hmove (.free hpc) ⟨hk.kfree _, rfl, rfl⟩
  | finish hpc => exact hmove (.finish hpc) ⟨hk, rfl, rfl⟩
  | worker ha => cases ha

/-- The same step of a worker inside the system. -/
lemma moveWorker_sameShape (h : s₁.SameShape s₂) {i : ℕ}
    {f : Kernel → Worker → Option (Kernel × Worker)}
    (hf : ∀ w, Option.Rel (fun m m' => m.1.SameShape m'.1 ∧ m.2 = m'.2) (f s₁.kernel w)
      (f s₂.kernel w))
    (hstep : s₁.moveWorker i f = some s₁') :
    ∃ s₂', s₂.moveWorker i f = some s₂' ∧ s₁'.SameShape s₂' := by
  obtain ⟨w, k₁', w', hw, hfw, rfl⟩ := exists_of_moveWorker hstep
  obtain ⟨⟨k₂', -⟩, hfw', hshape, rfl⟩ := exists_of_rel_some (hfw ▸ hf w)
  rw [h.workers_eq] at hw
  refine ⟨{ s₂ with kernel := k₂', workers := s₂.workers.set i w' }, ?_, hshape, h.caller_eq,
    by rw [h.workers_eq]⟩
  rw [State.moveWorker, hw]
  simp only [hfw', Option.map_some]

/-- The same step in a state of the same shape. -/
theorem State.SameShape.step (h : s₁.SameShape s₂) {a : Act}
    (hstep : d.step (c.withJunk junk₁) s₁ a = some s₁') :
    ∃ s₂', d.step (c.withJunk junk₂) s₂ a = some s₂' ∧ s₁'.SameShape s₂' := by
  cases a with
  | caller =>
    rw [d.step_caller] at hstep ⊢
    exact callerStep_sameShape h hstep
  | worker i x =>
    refine moveWorker_sameShape h (fun w => ?_) hstep
    rw [d.worker_eq]
    exact workerStep_sameShape h.kernel d.lock c.task i x w
  | fault i => exact moveWorker_sameShape h (faultStep_sameShape h.kernel) hstep

/-- The same schedule leads to a state of the same shape, whatever fresh memory holds. -/
theorem exists_run_sameShape {k₀ : Kernel} {acts : List Act}
    (hrun : d.Run (c.withJunk junk₁) k₀ acts s₁) (junk₂ : Site → ℕ → UInt8) :
    ∃ s₂, d.Run (c.withJunk junk₂) k₀ acts s₂ ∧ s₁.SameShape s₂ := by
  refine run_induction (motive := fun acts s₁ =>
    ∃ s₂, d.Run (c.withJunk junk₂) k₀ acts s₂ ∧ s₁.SameShape s₂) ?_
    (fun acts t₁ a t₁' _ ih hstep => ?_) hrun
  · exact ⟨_, rfl, .refl k₀, rfl, rfl⟩
  · obtain ⟨t₂, hrun₂, hshape⟩ := ih
    obtain ⟨t₂', hstep₂, hshape'⟩ := hshape.step hstep
    refine ⟨t₂', ?_, hshape'⟩
    rw [Syscall.Run, run_concat, show run _ _ acts = some t₂ from hrun₂, Option.bind_some, hstep₂]

end Lockstep

/-! ## The output -/

/-- Only the part of the buffer that is written matters for the writer. -/
lemma Call.saveResult_congr (c : Call) {filename x y : List UInt8} {count : ℕ} (fs : FileSystem)
    (h : c.env.openError .out = none → x.take (c.written count) = y.take (c.written count)) :
    c.saveResult filename x count fs = c.saveResult filename y count fs := by
  unfold saveResult
  unfold written at h
  cases herr : c.env.openError .out with
  | some e => rfl
  | none =>
    have htake := h herr
    cases hw : c.env.writeResult with
    | error e => rfl
    | ok m =>
      rw [hw] at htake
      simp only [htake]

section Output

variable {c : Call} {fs : FileSystem} (inp : Inputs c fs) (ws : List Worker)

/-- A position of the buffer whose data and key were read holds the same, whatever fresh memory
holds. -/
lemma getElem?_buffer_congr (junk₁ junk₂ : Site → ℕ → UInt8) {j : ℕ}
    (hdata : j < c.transferred .data inp.data.size)
    (hkey : j % inp.key.size < c.transferred .key inp.key.size) :
    ((inp.withJunk junk₁).buffer ws)[j]? = ((inp.withJunk junk₂).buffer ws)[j]? := by
  have hread : ∀ junk, (inp.withJunk junk).dataBuffer[j]? = inp.data.bytes[j]? := fun junk =>
    (c.withJunk junk).getElem?_loaded_of_lt .data inp.data hdata
  have hxor : ∀ junk v, xorAt (inp.withJunk junk).keyBuffer j v =
      v ^^^ (inp.key.bytes[j % inp.key.size]?).getD 0 := by
    intro junk v
    rw [xorAt, Inputs.length_keyBuffer, List.getD_eq_getElem?_getD]
    congr 2
    exact (c.withJunk junk).getElem?_loaded_of_lt .key inp.key hkey
  unfold Inputs.buffer
  have htouched : ∀ junk, touched (inp.withJunk junk) ws = touched inp ws := fun _ => rfl
  rw [htouched, htouched]
  by_cases hmem : j ∈ touched inp ws
  · rw [getElem?_maskMap_of_mem hmem, getElem?_maskMap_of_mem hmem, hread, hread,
      funext (hxor junk₁), funext (hxor junk₂)]
  · rw [getElem?_maskMap_of_not_mem hmem, getElem?_maskMap_of_not_mem hmem, hread, hread]

end Output

/-- A written byte of the destination of a call that returned `0` with all its workers done is the
XOR of what its buffers held. -/
lemma Saved.getElem?_destination {c : Call} {fs : FileSystem} {inp : Inputs c fs} {s : State}
    (h : Saved inp s 0) (hzero : ∀ w ∈ s.workers, w.pc = .exited 0) {j : ℕ}
    (hj : j < c.written inp.data.size) :
    ((s.kernel.fs (c.pathAt .out inp.destFile)).map fun f => f.bytes[j]?) =
      some (inp.dataBuffer[j]?.map (xorAt inp.keyBuffer j)) := by
  have hlen : ((inp.buffer s.workers).take (c.written inp.data.size)).length =
      c.written inp.data.size := by
    rw [List.length_take, length_buffer]
    exact Nat.min_eq_left (c.written_le _)
  have hle := (c.written_le inp.data.size).trans inp.data.size_le
  rw [h.fs_eq, Function.update_self, Option.map_some, File.bytes_overwrite _ (hlen.trans_le hle),
    List.getElem?_append_left (hlen.symm ▸ hj), List.getElem?_take_of_lt hj,
    buffer_eq_xorCipher h.worker_ok h.ready.threads_pos h.length_eq hzero, getElem?_xorCipher]

section Interference

variable {d : Syscall} {c : Call} {k₀ : Kernel} {junk₁ junk₂ : Site → ℕ → UInt8}
  {acts : List Act} {s₁ s₂ : State}

/-- If everything that is written was computed from bytes that were read, two calls that return
leave the same files. -/
lemma fs_eq_of_sameShape (hrun₁ : d.Run (c.withJunk junk₁) k₀ acts s₁)
    (hrun₂ : d.Run (c.withJunk junk₂) k₀ acts s₂) (hshape : s₁.SameShape s₂) {r : ℤ}
    (hret : s₁.caller = .returned r)
    (hread : ∀ inp : Inputs c k₀.fs, c.StartsWorkers → c.env.openError .out = none →
      ∀ j < c.written inp.data.size, j < c.transferred .data inp.data.size ∧
        j % inp.key.size < c.transferred .key inp.key.size) :
    s₂.kernel.fs = s₁.kernel.fs := by
  have hret₂ : s₂.caller = .returned r := hshape.caller_eq ▸ hret
  have hinv₁ := Inv.of_run hrun₁
  have hinv₂ := Inv.of_run hrun₂
  by_cases hall : s₁.workers.length = c.threads ∧ 0 < c.threads
  · -- both calls have written their output
    obtain ⟨inp₁, hsaved₁⟩ := hinv₁.saved_of_length hret hall.1 hall.2
    obtain ⟨inp₂, hsaved₂⟩ :=
      hinv₂.saved_of_length hret₂ (hshape.workers_eq ▸ hall.1) hall.2
    obtain ⟨inp, rfl⟩ : ∃ inp : Inputs c k₀.fs, inp₁ = inp.withJunk junk₁ :=
      ⟨inp₁.ofWithJunk, Subsingleton.elim _ _⟩
    obtain rfl : inp₂ = inp.withJunk junk₂ := Subsingleton.elim _ _
    have hthreads := threadError_of_run hrun₁
    rw [hall.1] at hthreads
    have hstart : c.StartsWorkers :=
      ⟨⟨hsaved₁.ready.arrays, hsaved₁.ready.numThreads_pos⟩, hthreads⟩
    have hbuffer : c.saveResult inp.destFile ((inp.withJunk junk₁).buffer s₁.workers)
        inp.data.size k₀.fs = c.saveResult inp.destFile ((inp.withJunk junk₂).buffer s₁.workers)
        inp.data.size k₀.fs := by
      refine c.saveResult_congr k₀.fs fun hopen => List.ext_getElem? fun j => ?_
      rw [List.getElem?_take, List.getElem?_take]
      split
      · rename_i hj
        obtain ⟨hdata, hkey⟩ := hread inp hstart hopen j hj
        exact getElem?_buffer_congr inp s₁.workers junk₁ junk₂ hdata hkey
      · rfl
    have hresult₁ : c.saveResult inp.destFile ((inp.withJunk junk₁).buffer s₁.workers)
        inp.data.size k₀.fs = (r, s₁.kernel.fs) := hsaved₁.result
    have hresult₂ : c.saveResult inp.destFile ((inp.withJunk junk₂).buffer s₁.workers)
        inp.data.size k₀.fs = (r, s₂.kernel.fs) := hshape.workers_eq ▸ hsaved₂.result
    rw [hbuffer, hresult₂] at hresult₁
    exact (Prod.mk.inj hresult₁).2
  · -- neither has
    have hfail : ∀ {junk : Site → ℕ → UInt8} {s : State}, Inv d (c.withJunk junk) k₀ s →
        s.caller = .returned r → s.workers = s₁.workers → s.kernel.fs = k₀.fs := by
      intro junk s hinv hpc hws
      rcases hinv.of_returned hpc with ⟨e, -, hfs⟩ | ⟨inp, hsaved⟩
      · exact hfs
      · exact absurd ⟨hws ▸ hsaved.length_eq, hsaved.ready.threads_pos⟩ hall
    rw [hfail hinv₂ hret₂ hshape.workers_eq.symm, hfail hinv₁ hret rfl]

/-- If fresh memory does not influence the files, it does not influence a written byte either. -/
lemma byte_eq_of_noninterference (hfree : k₀.holder d.lock = none)
    (hall : ∀ junk₁ junk₂ acts s₁ s₂ r, d.Run (c.withJunk junk₁) k₀ acts s₁ →
      d.Run (c.withJunk junk₂) k₀ acts s₂ → s₁.caller = .returned r →
      s₂.caller = .returned r ∧ s₂.kernel.fs = s₁.kernel.fs)
    (hc : c.Completes k₀.fs) (inp : Inputs c k₀.fs) {j : ℕ} (hj : j < c.written inp.data.size)
    (junk₁ junk₂ : Site → ℕ → UInt8) :
    (inp.withJunk junk₁).dataBuffer[j]?.map (xorAt (inp.withJunk junk₁).keyBuffer j) =
      (inp.withJunk junk₂).dataBuffer[j]?.map (xorAt (inp.withJunk junk₂).keyBuffer j) := by
  obtain ⟨acts, s₁, hrun₁, hret₁, hzero₁⟩ :=
    (Call.completes_withJunk.mpr hc : (c.withJunk junk₁).Completes k₀.fs).exists_run hfree
  obtain ⟨s₂, hrun₂, hshape⟩ := exists_run_sameShape hrun₁ junk₂
  obtain ⟨hret₂, hfs⟩ := hall junk₁ junk₂ acts s₁ s₂ 0 hrun₁ hrun₂ hret₁
  obtain ⟨inp₁, hsaved₁⟩ := (Inv.of_run hrun₁).saved_of_zero hret₁
  obtain ⟨inp₂, hsaved₂⟩ := (Inv.of_run hrun₂).saved_of_zero hret₂
  obtain rfl : inp₁ = inp.withJunk junk₁ := Subsingleton.elim _ _
  obtain rfl : inp₂ = inp.withJunk junk₂ := Subsingleton.elim _ _
  have hbyte₁ := hsaved₁.getElem?_destination hzero₁ hj
  have hbyte₂ := hsaved₂.getElem?_destination (hshape.workers_eq ▸ hzero₁) hj
  rw [hfs] at hbyte₂
  exact Option.some_inj.mp (hbyte₁.symm.trans hbyte₂)

end Interference

/-- Two runs of a call with the same schedule return the same value and leave the same files,
whatever fresh memory holds in each of them, iff in a call that gets to its output every byte that
is written was read before, and so was the byte of the key for it. -/
theorem noninterference_iff (d : Syscall) {c : Call} {k₀ : Kernel}
    (hfree : k₀.holder d.lock = none) :
    (∀ junk₁ junk₂ acts s₁ s₂ r, d.Run (c.withJunk junk₁) k₀ acts s₁ →
        d.Run (c.withJunk junk₂) k₀ acts s₂ → s₁.caller = .returned r →
        s₂.caller = .returned r ∧ s₂.kernel.fs = s₁.kernel.fs) ↔
      ∀ inp : Inputs c k₀.fs, c.StartsWorkers → c.env.openError .out = none →
        ∀ j < c.written inp.data.size, j < c.transferred .data inp.data.size ∧
          j % inp.key.size < c.transferred .key inp.key.size := by
  constructor
  · intro hall inp hstart hopens j hj
    have hwrites : ∃ m, c.env.writeResult = .ok m := by
      unfold Call.written at hj
      cases hw : c.env.writeResult with
      | error e => simp [hw] at hj
      | ok m => exact ⟨m, rfl⟩
    have hsame := byte_eq_of_noninterference hfree hall ⟨⟨inp⟩, hstart, hopens, hwrites⟩ inp hj
    have hlt : j < inp.data.size := hj.trans_le (c.written_le _)
    constructor
    · by_contra hnot
      -- only the data block differs
      have hbyte := hsame (fun _ _ => 0) (fun site _ => if site = .data then 1 else 0)
      have hdata : ∀ junk, (inp.withJunk junk).dataBuffer[j]? = some (junk .data j) := fun junk =>
        (c.withJunk junk).getElem?_loaded_of_le .data inp.data (not_lt.mp hnot) hlt
      have hkey : (inp.withJunk fun site _ => if site = .data then 1 else 0).keyBuffer =
          (inp.withJunk fun _ _ => 0).keyBuffer := rfl
      rw [hdata, hdata, hkey, Option.map_some, Option.map_some, Option.some_inj,
        xorAt_left_inj] at hbyte
      exact absurd hbyte (by decide)
    · by_contra hnot
      -- only the key block differs
      have hbyte := hsame (fun _ _ => 0) (fun site _ => if site = .key then 1 else 0)
      have hkey : ∀ junk, (inp.withJunk junk).keyBuffer.getD (j % inp.key.size) 0 =
          junk .key (j % inp.key.size) := by
        intro junk
        rw [List.getD_eq_getElem?_getD]
        exact congrArg (Option.getD · 0) ((c.withJunk junk).getElem?_loaded_of_le .key inp.key
          (not_lt.mp hnot) (Nat.mod_lt _ inp.key_pos))
      have hdata : (inp.withJunk fun site _ => if site = .key then 1 else 0).dataBuffer =
          (inp.withJunk fun _ _ => 0).dataBuffer := rfl
      obtain ⟨v, hv⟩ : ∃ v, (inp.withJunk fun _ _ => 0).dataBuffer[j]? = some v :=
        ⟨_, List.getElem?_eq_getElem (by rw [Inputs.length_dataBuffer]; exact hlt)⟩
      rw [hdata, hv, Option.map_some, Option.map_some, Option.some_inj, xorAt_right_inj,
        Inputs.length_keyBuffer, Inputs.length_keyBuffer] at hbyte
      exact absurd ((hkey _).symm.trans (hbyte.trans (hkey _))) (by simp)
  · intro hread junk₁ junk₂ acts s₁ s₂ r hrun₁ hrun₂ hret
    obtain ⟨s₂', hrun₂', hshape⟩ := exists_run_sameShape hrun₁ junk₂
    obtain rfl : s₂' = s₂ := Option.some_inj.mp (hrun₂'.symm.trans hrun₂)
    exact ⟨hshape.caller_eq ▸ hret, fs_eq_of_sameShape hrun₁ hrun₂ hshape hret hread⟩

/-- Everything that the small call writes was read before, so zeros and sevens in fresh memory lead
to the same files. -/
theorem noninterference_sample :
    ∃ s₁ s₂, Syscall.encrypt.Run ((sampleCall 1).withJunk fun _ _ => 0) (.idle sampleFiles)
        sampleSchedule s₁ ∧
      Syscall.encrypt.Run ((sampleCall 1).withJunk fun _ _ => 7) (.idle sampleFiles)
        sampleSchedule s₂ ∧
      s₂.caller = .returned 0 ∧ s₂.kernel.fs = s₁.kernel.fs := by
  have hfree : (Kernel.idle sampleFiles).holder Syscall.encrypt.lock = none := rfl
  have hout₁ : Syscall.encrypt.outcome ((sampleCall 1).withJunk fun _ _ => 0) (.idle sampleFiles)
      sampleSchedule [98] = some (some 0, [.exited 0], some [4, 7, 6]) := by
    decide +kernel
  have hout₂ : Syscall.encrypt.outcome ((sampleCall 1).withJunk fun _ _ => 7) (.idle sampleFiles)
      sampleSchedule [98] = some (some 0, [.exited 0], some [4, 7, 6]) := by
    decide +kernel
  obtain ⟨s₁, hrun₁, hret₁, -, -⟩ := Syscall.exists_run_of_outcome hout₁
  obtain ⟨s₂, hrun₂, -, -, -⟩ := Syscall.exists_run_of_outcome hout₂
  have hread : ∀ inp : Inputs (sampleCall 1) (Kernel.idle sampleFiles).fs,
      ∀ j < (sampleCall 1).written inp.data.size,
        j < (sampleCall 1).transferred .data inp.data.size ∧
          j % inp.key.size < (sampleCall 1).transferred .key inp.key.size := by
    intro inp
    obtain rfl := Subsingleton.elim inp (sampleInputs 1)
    decide
  exact ⟨s₁, s₂, hrun₁, hrun₂, (noninterference_iff .encrypt hfree).mpr
    (fun inp _ _ => hread inp) _ _ _ s₁ s₂ 0 hrun₁ hrun₂ hret₁⟩

/-- After a short read the output shows two bytes of fresh memory. -/
theorem short_read_discloses_memory :
    ∃ s₁ s₂, Syscall.encrypt.Run (shortRead.withJunk fun _ _ => 0) (.idle sampleFiles)
        sampleSchedule s₁ ∧
      Syscall.encrypt.Run (shortRead.withJunk fun _ _ => 7) (.idle sampleFiles)
        sampleSchedule s₂ ∧
      s₁.caller = .returned 0 ∧ s₂.caller = .returned 0 ∧
      (s₁.kernel.fs [98]).map File.bytes = some [4, 5, 5] ∧
      (s₂.kernel.fs [98]).map File.bytes = some [4, 2, 2] := by
  have hout₁ : Syscall.encrypt.outcome (shortRead.withJunk fun _ _ => 0) (.idle sampleFiles)
      sampleSchedule [98] = some (some 0, [.exited 0], some [4, 5, 5]) := by
    decide +kernel
  have hout₂ : Syscall.encrypt.outcome (shortRead.withJunk fun _ _ => 7) (.idle sampleFiles)
      sampleSchedule [98] = some (some 0, [.exited 0], some [4, 2, 2]) := by
    decide +kernel
  obtain ⟨s₁, hrun₁, hret₁, -, hfile₁⟩ := Syscall.exists_run_of_outcome hout₁
  obtain ⟨s₂, hrun₂, hret₂, -, hfile₂⟩ := Syscall.exists_run_of_outcome hout₂
  exact ⟨s₁, s₂, hrun₁, hrun₂, hret₁, hret₂, hfile₁, hfile₂⟩

end XorSyscalls
