import XorSyscalls.Syscall.Discipline

/-!
# The memory of a call

The blocks of a call are its own.  `Call.Changes` says that a call has changed nothing but its
output file and its own memory, and `Call.Undisturbed` is the view of another call on such a change:
the memory of this call is as it was.  The sequential code changes nothing else
(`Call.exec_changes`).

`Prepared.Loaded` says that the buffers are as long as the local variables of the call say.  The
code in front of the division establishes it, whatever other calls do meanwhile, as long as they
keep to their own memory (`prepare_relies`).
-/

namespace XorSyscalls

/-- The memory of the call is as it was. -/
structure Call.Undisturbed (c : Call) (k k' : Kernel) : Prop where
  mem : ∀ b : Block, b.task = c.task → k'.mem b = k.mem b
  args : ∀ b : Block, b.task = c.task → k'.args b = k.args b

instance (c : Call) : Std.Refl c.Undisturbed := ⟨fun _ => ⟨fun _ _ => rfl, fun _ _ => rfl⟩⟩

instance (c : Call) : IsTrans Kernel c.Undisturbed :=
  ⟨fun _ _ _ h h' => ⟨fun b hb => (h'.mem b hb).trans (h.mem b hb),
    fun b hb => (h'.args b hb).trans (h.args b hb)⟩⟩

/-! ## What a call changes -/

/-- From `k` to `k'` only the output file and the memory of the call have changed. -/
structure Call.Changes (c : Call) (k k' : Kernel) : Prop where
  fs : ∀ p, c.destPath ≠ some p → k'.fs p = k.fs p
  mem : ∀ b : Block, b.task ≠ c.task → k'.mem b = k.mem b
  args : ∀ b : Block, b.task ≠ c.task → k'.args b = k.args b

namespace Call

variable {c : Call} {k k' k'' : Kernel}

namespace Changes

lemma refl (k : Kernel) : c.Changes k k := ⟨fun _ _ => rfl, fun _ _ => rfl, fun _ _ => rfl⟩

lemma trans (h : c.Changes k k') (h' : c.Changes k' k'') : c.Changes k k'' :=
  ⟨fun p hp => (h'.fs p hp).trans (h.fs p hp), fun b hb => (h'.mem b hb).trans (h.mem b hb),
    fun b hb => (h'.args b hb).trans (h.args b hb)⟩

lemma of_core (h : k'.core = k.core) : c.Changes k k' :=
  ⟨fun p _ => congrFun (congrArg Prod.fst h) p,
    fun b _ => congrFun (congrArg (fun x => x.2.1) h) b,
    fun b _ => congrFun (congrArg (fun x => x.2.2.1) h) b⟩

lemma setMem {b : Block} (hb : b.task = c.task) (x : List UInt8) : c.Changes k (k.setMem b x) :=
  ⟨fun _ _ => rfl, fun _ hb' => Function.update_of_ne (fun h => hb' ((congrArg _ h).trans hb)) _ _,
    fun _ _ => rfl⟩

lemma setFile {p : Path} (hp : c.destPath = some p) (f : File) : c.Changes k (k.setFile p f) :=
  ⟨fun _ hp' => Function.update_of_ne (by rintro rfl; exact hp' hp) _ _, fun _ _ => rfl,
    fun _ _ => rfl⟩

lemma clear {b : Block} (hb : b.task = c.task) : c.Changes k (k.clear b) :=
  ⟨fun _ _ => rfl, fun _ hb' => Function.update_of_ne (fun h => hb' ((congrArg _ h).trans hb)) _ _,
    fun _ hb' => Function.update_of_ne (fun h => hb' ((congrArg _ h).trans hb)) _ _⟩

lemma withBlock {b : Block} (hb : b.task = c.task) (x : List UInt8) :
    c.Changes k (k.withBlock b x) :=
  ⟨fun _ _ => rfl, (setMem (k := k) hb x).mem, (clear (k := k) hb).args⟩

lemma kfree {p : Ptr} (hp : c.Owns p) : c.Changes k (k.kfree p) := by
  cases p with
  | null | zeroSize => exact refl k
  | block b => exact (clear (hp b rfl)).trans (of_core (k.core_kfree_block b))

lemma storeByte {p : Ptr} (hp : c.Owns p) (idx : ℕ) (v : UInt8) :
    c.Changes k (k.storeByte p idx v) := by
  cases p with
  | null | zeroSize => exact refl k
  | block b => exact setMem (hp b rfl) _

lemma storeArgs {p : ArgsPtr} (hp : c.Owns p.array) (a : WorkerArgs) :
    c.Changes k (k.storeArgs p a) := by
  refine ⟨fun _ _ => rfl, fun _ _ => rfl, fun b hb => ?_⟩
  have hne : p.array ≠ .block b := fun h => hb (hp b h)
  simp [Kernel.storeArgs, hne]

/-- Another call is not disturbed. -/
lemma undisturbed (h : c.Changes k k') {c' : Call} (htask : c'.task ≠ c.task) :
    c'.Undisturbed k k' :=
  ⟨fun b hb => h.mem b fun hb' => htask (hb.symm.trans hb'),
    fun b hb => h.args b fun hb' => htask (hb.symm.trans hb')⟩

end Changes

/-- The operations of a call change nothing else. -/
lemma exec_changes {op : Op} (hop : c.Allowed op) (k : Kernel) :
    c.Changes k (c.exec op k).2 := by
  cases op with
  | copyFromUser | iSizeRead => exact Changes.refl k
  | printk => exact Changes.of_core rfl
  | filpClose file => exact Changes.of_core (k.core_filpClose file)
  | kfree p => exact Changes.kfree hop
  | filpOpen site filename mode =>
    simp only [exec, filpOpen]
    split
    · exact Changes.refl k
    · split
      · exact Changes.of_core rfl
      · exact Changes.refl k
      · obtain ⟨hcopied, hout⟩ := hop
        obtain rfl := hout rfl
        have hdest : c.destPath = some (c.pathAt .out filename) := congrArg _ hcopied
        exact (Changes.setFile hdest .empty).trans (Changes.of_core rfl)
  | kmalloc site size =>
    simp only [exec, kmalloc]
    split
    · exact Changes.refl k
    · split
      · exact Changes.withBlock rfl _
      · exact Changes.refl k
  | kernelRead file buf count =>
    simp only [exec, kernelRead]
    split
    · exact Changes.refl k
    · unfold Kernel.fill
      split
      · exact Changes.setMem (hop.2 _ rfl) _
      · exact Changes.refl k
  | kernelWrite file buf count =>
    simp only [exec, kernelWrite]
    split
    · exact Changes.refl k
    · split
      · exact Changes.refl k
      · exact Changes.setFile (hop.1.destPath_eq hop.2.1) _
  | storeByte buf idx v => exact Changes.storeByte hop idx v

end Call

/-! ## The buffers -/

/-- The buffers of the call hold as many bytes as its local variables say. -/
structure Prepared.Loaded (c : Call) (q : Prepared) (k : Kernel) : Prop where
  data : q.dataLen ≤ (k.mem (c.blockAt .data)).length
  key : q.keyLen ≤ (k.mem (c.blockAt .key)).length

lemma Prepared.Loaded.of_undisturbed {c : Call} {q : Prepared} {k k' : Kernel} (h : q.Loaded c k)
    (hk : c.Undisturbed k k') : q.Loaded c k' := by
  constructor
  · rw [hk.mem (c.blockAt .data) rfl]
    exact h.data
  · rw [hk.mem (c.blockAt .key) rfl]
    exact h.key

/-! ## The sequential code -/

/-- The operation leaves the block of a site alone, or only fills it. -/
def Op.Spares (c : Call) (site : Site) : Op → Prop
  | .kmalloc site' _ => site' ≠ site
  | .kfree p => p ≠ .block (c.blockAt site)
  | _ => True

section Sequential

variable {c : Call} {site : Site} {n : ℕ}

/-- No other operation makes the block shorter. -/
lemma Op.Spares.length_le {op : Op} (h : op.Spares c site) (k : Kernel) :
    (k.mem (c.blockAt site)).length ≤ ((c.exec op k).2.mem (c.blockAt site)).length := by
  cases op with
  | copyFromUser | iSizeRead | printk => exact le_rfl
  | filpOpen site' filename mode =>
    simp only [Call.exec, Call.filpOpen]
    split
    · exact le_rfl
    · split <;> exact le_rfl
  | kmalloc site' size =>
    have hne : c.blockAt site ≠ c.blockAt site' := fun heq => h (congrArg Block.site heq).symm
    simp only [Call.exec, Call.kmalloc]
    split
    · exact le_rfl
    · split
      · simp [Kernel.withBlock, hne]
      · exact le_rfl
  | kernelRead file buf count =>
    simp only [Call.exec, Call.kernelRead]
    split
    · exact le_rfl
    · cases buf with
      | null | zeroSize => exact le_rfl
      | block b =>
        rcases eq_or_ne (c.blockAt site) b with rfl | hne
        · simp only [Kernel.fill, Kernel.setMem_mem_self, List.length_append, List.length_drop]
          omega
        · simp [Kernel.fill, Kernel.setMem, hne]
  | kernelWrite file buf count =>
    simp only [Call.exec, Call.kernelWrite]
    split
    · exact le_rfl
    · split <;> exact le_rfl
  | storeByte buf idx v => exact (k.length_storeByte buf idx v _).ge
  | filpClose file =>
    exact (congrArg (fun x => (x.2.1 (c.blockAt site)).length) (k.core_filpClose file)).ge
  | kfree p =>
    cases p with
    | null | zeroSize => exact le_rfl
    | block b =>
      have hne : c.blockAt site ≠ b := fun heq => h (congrArg Ptr.block heq.symm)
      refine (congrArg (fun x => (x.2.1 (c.blockAt site)).length)
        (k.core_kfree_block b)).ge.trans' ?_
      simp [Kernel.core, Kernel.clear, hne]

/-- Code that spares a block keeps its length, if the others do not disturb it. -/
lemma relies_of_spares {α : Type} {P : α → Prop} {p : KProgram α} {k : Kernel}
    (hp : p.Meets (Op.Spares c site) c.Answers P) (hn : n ≤ (k.mem (c.blockAt site)).length) :
    p.Relies c.exec c.Undisturbed (fun r k => P r ∧ n ≤ (k.mem (c.blockAt site)).length) k := by
  refine hp.relies c.exec_answers (fun op k hop hk => hk.trans (hop.length_le k)) ?_ hn
  intro k k' hk hn
  rwa [hk.mem (c.blockAt site) rfl]

/-- A reader that succeeds leaves a buffer for all bytes of the file. -/
def Call.Filled (c : Call) (site : Site) (r : Option (Ptr × ℕ)) (k : Kernel) : Prop :=
  ∀ p n, r = some (p, n) → n ≤ (k.mem (c.blockAt site)).length

lemma filled_none (k : Kernel) : c.Filled site none k := fun _ _ h => by cases h

/-- The beginning of the readers, if the rest only fills the buffer. -/
lemma openInput_relies {filename : List UInt8} {bufferSize : ℕ → ℕ}
    (hbuffer : ∀ n, n ≤ bufferSize n) {fill : OpenFile → Ptr → ℕ → KProgram (Option (Ptr × ℕ))}
    (hfill : ∀ file p n, (fill file p n).Meets (Op.Spares c site) c.Answers (· = some (p, n)))
    (k : Kernel) :
    (openInput site filename bufferSize fill).Relies c.exec c.Undisturbed (c.Filled site) k := by
  refine Program.relies_perform_bind.mpr fun k _ => ?_
  split
  · exact fun k _ => filled_none k
  · rename_i file _
    refine Program.relies_perform_bind.mpr fun k _ => ?_
    generalize (c.exec (.iSizeRead file) k).1 = n
    split
    · exact fun _ _ k _ => filled_none k
    · rename_i hpos
      refine Program.relies_perform_bind.mpr fun k _ => ?_
      split
      · exact fun _ _ k _ => filled_none k
      · rename_i hnull
        -- the block has just been allocated
        have hlen : n ≤ ((c.kmalloc site (bufferSize n) k).2.mem (c.blockAt site)).length := by
          have hne : bufferSize n ≠ 0 := ((not_le.mp hpos).trans_le (hbuffer n)).ne'
          simp only [Call.exec, Call.kmalloc, if_neg hne] at hnull ⊢
          split at hnull
          · rename_i halloc
            simpa [halloc] using hbuffer n
          · exact absurd rfl hnull
        refine (relies_of_spares (hfill _ _ n) hlen).mono ?_
        rintro r k ⟨rfl, hle⟩ p m hr
        cases hr
        exact hle

/-- The beginning of a reader spares the buffer of another one, if the rest does. -/
lemma openInput_spares {site' : Site} (hsite : site ≠ site') {filename : List UInt8}
    {bufferSize : ℕ → ℕ} {fill : OpenFile → Ptr → ℕ → KProgram (Option (Ptr × ℕ))}
    (hfill : ∀ file p n, (fill file p n).Meets (Op.Spares c site') c.Answers fun _ => True) :
    (openInput site filename bufferSize fill).Meets (Op.Spares c site') c.Answers
      fun _ => True := by
  refine Program.meets_perform_bind.mpr ⟨trivial, fun r _ => ?_⟩
  cases r with
  | error e => trivial
  | ok file =>
    refine Program.meets_perform_bind.mpr ⟨trivial, fun n _ => ?_⟩
    split
    · exact Program.meets_perform_bind.mpr ⟨trivial, fun _ _ => trivial⟩
    · refine Program.meets_perform_bind.mpr ⟨hsite, fun p _ => ?_⟩
      split
      · exact Program.meets_perform_bind.mpr ⟨trivial, fun _ _ => trivial⟩
      · exact hfill file p n

lemma readWhole_relies (filename : List UInt8) (k : Kernel) :
    (readWhole filename).Relies c.exec c.Undisturbed (c.Filled .data) k := by
  rw [readWhole]
  refine openInput_relies (fun _ => le_rfl) (fun _ _ _ => ?_) k
  exact ⟨trivial, fun _ _ => ⟨trivial, fun _ _ => rfl⟩⟩

lemma readKey_relies (filename : List UInt8) (k : Kernel) :
    (readKey filename).Relies c.exec c.Undisturbed (c.Filled .key) k := by
  rw [readKey]
  refine openInput_relies (fun _ => Nat.le_succ _) (fun _ _ _ => ?_) k
  exact ⟨trivial, fun _ _ => ⟨trivial, fun _ _ => ⟨trivial, fun _ _ => rfl⟩⟩⟩

lemma readKey_spares (filename : List UInt8) :
    (readKey filename).Meets (Op.Spares c .data) c.Answers fun _ => True :=
  openInput_spares (by decide) fun _ _ _ =>
    ⟨trivial, fun _ _ => ⟨trivial, fun _ _ => ⟨trivial, fun _ _ => trivial⟩⟩⟩

lemma kmallocArray_spares {site' : Site} (hsite : site ≠ site') (n size : ℕ) :
    (kmallocArray site n size).Meets (Op.Spares c site') c.Answers fun _ => True := by
  unfold kmallocArray
  split
  · trivial
  · exact ⟨hsite, fun _ _ => trivial⟩

/-- `kmalloc_array` leaves the two buffers alone. -/
lemma kmallocArray_relies (hdata : site ≠ .data) (hkey : site ≠ .key) (count size : ℕ) {m : ℕ}
    {k : Kernel} (hn : n ≤ (k.mem (c.blockAt .data)).length)
    (hm : m ≤ (k.mem (c.blockAt .key)).length) :
    (kmallocArray site count size).Relies c.exec c.Undisturbed (fun _ k =>
      n ≤ (k.mem (c.blockAt .data)).length ∧ m ≤ (k.mem (c.blockAt .key)).length) k :=
  ((relies_of_spares (kmallocArray_spares hdata count size) hn).and
    (relies_of_spares (kmallocArray_spares hkey count size) hm)).mono
      fun _ _ h => ⟨h.1.2, h.2.2⟩

/-- The outcome of the code in front of the division with the memory it leaves. -/
def Call.OutcomeIn (c : Call) (r : Except ℤ Prepared) (k : Kernel) : Prop :=
  ∀ q, r = .ok q → q.Loaded c k

/-- The code in front of the division fills the buffers, whatever other calls do to theirs. -/
theorem prepare_relies (d : Syscall) (c : Call) (k : Kernel) :
    (prepare d c.args).Relies c.exec c.Undisturbed c.OutcomeIn k := by
  have herror : ∀ (e : ℤ) (k : Kernel), c.OutcomeIn (.error e) k := fun _ _ _ h => by cases h
  unfold prepare
  rw [d.readInput_eq, d.readKeyFile_eq]
  refine Program.relies_perform_bind.mpr fun k _ => ?_
  split
  case h_2 => exact fun k _ => herror _ k
  refine Program.relies_perform_bind.mpr fun k _ => ?_
  split
  case h_2 => exact fun k _ => herror _ k
  refine Program.relies_perform_bind.mpr fun k _ => ?_
  split
  case h_2 => exact fun k _ => herror _ k
  refine (readWhole_relies _ _).bind fun data k hdata => ?_
  split
  case h_2 => exact fun k _ => herror _ k
  rename_i fileData dataLen
  have hlen := hdata fileData dataLen rfl
  refine ((relies_of_spares (readKey_spares _) hlen).and (readKey_relies _ _)).bind
    fun keyData k hkey => ?_
  obtain ⟨⟨-, hlen⟩, hkey⟩ := hkey
  split
  case h_1 => exact fun _ _ k _ => herror _ k
  rename_i keyData keyLen
  refine (kmallocArray_relies (by decide) (by decide) _ _ hlen (hkey _ _ rfl)).bind
    fun workers k hk => ?_
  refine (kmallocArray_relies (by decide) (by decide) _ _ hk.1 hk.2).bind fun workerArgs k hk => ?_
  split
  · exact fun _ _ _ _ k _ => herror _ k
  · intro k' hk' q hq
    cases hq
    exact Prepared.Loaded.of_undisturbed ⟨hk.1, hk.2⟩ hk'

end Sequential

end XorSyscalls
