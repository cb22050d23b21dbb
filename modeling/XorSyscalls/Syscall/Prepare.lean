import XorSyscalls.Syscall.Machine

/-!
# The code in front of the creation loop

`prepare` copies the three paths, reads the input and the key and allocates the two arrays.
`Inputs` collects what it must find for that: readable paths that lead to non-empty files which
open and whose buffers can be allocated.  `eval_prepare` is its specification: either it returns a
negative error number and leaves all files alone, or it ends in the state `Inputs.kernel` with the
local variables `Inputs.prepared`.
-/

namespace XorSyscalls

namespace Call

variable (c : Call)

/-- The path of the input file, if its user pointer is readable. -/
def srcPath : Option Path := (c.userBytes c.args.srcFile 256).map (c.pathAt .data)

/-- The path of the output file, if its user pointer is readable. -/
def destPath : Option Path := (c.userBytes c.args.destFile 256).map (c.pathAt .out)

/-- The path of the key file, if its user pointer is readable. -/
def keyPath : Option Path := (c.userBytes c.args.keyFilepath 256).map (c.pathAt .key)

/-- The paths that the user pointers of a call lead to. -/
structure Names (src dest key : Path) : Prop where
  srcPath : c.srcPath = some src
  destPath : c.destPath = some dest
  keyPath : c.keyPath = some key

/-- The size of an array with one element of the given size for each thread. -/
def arraySize (elem : ℕ) : ℕ := toSizeT c.args.numThreads.toInt * elem

/-- The pointer that `kmalloc_array` returns for such an array. -/
def arrayPtr (site : Site) (elem : ℕ) : Ptr :=
  if sizeModulus ≤ c.arraySize elem then .null
  else if c.arraySize elem = 0 then .zeroSize
  else if c.env.allocates site then .block (c.blockAt site)
  else .null

/-- The kernel state after `kmalloc_array`. -/
def arrayKernel (site : Site) (elem : ℕ) (k : Kernel) : Kernel :=
  match c.arrayPtr site elem with
  | .block b => k.withBlock b ((List.range (c.arraySize elem)).map (c.env.junk site))
  | _ => k

/-- `kmalloc_array` of one element for each thread. -/
lemma eval_kmallocArray (site : Site) (elem : ℕ) (k : Kernel) :
    (kmallocArray site (toSizeT c.args.numThreads.toInt) elem).eval c.exec k =
      (c.arrayPtr site elem, c.arrayKernel site elem k) := by
  unfold kmallocArray arrayKernel arrayPtr arraySize
  split
  · rfl
  · rw [eval_kmalloc, Call.kmalloc]
    split
    · rfl
    · split <;> rfl

@[simp] lemma arrayKernel_fs (site : Site) (elem : ℕ) (k : Kernel) :
    (c.arrayKernel site elem k).fs = k.fs := by
  unfold arrayKernel
  split <;> rfl

@[simp] lemma arrayKernel_holder (site : Site) (elem : ℕ) (k : Kernel) :
    (c.arrayKernel site elem k).holder = k.holder := by
  unfold arrayKernel
  split <;> rfl

/-- An array is a block of its own. -/
lemma arrayKernel_mem (site : Site) (elem : ℕ) (k : Kernel) {site' : Site} (h : site' ≠ site) :
    (c.arrayKernel site elem k).mem (c.blockAt site') = k.mem (c.blockAt site') := by
  have hne : c.blockAt site' ≠ c.blockAt site := by simpa [blockAt] using h
  unfold arrayKernel arrayPtr
  split
  · rename_i b hb
    have : b = c.blockAt site := by
      split at hb
      · cases hb
      · split at hb
        · cases hb
        · split at hb <;> cases hb
          rfl
    subst this
    simp [Kernel.withBlock, hne]
  · rfl

end Call

/-- What the code in front of the creation loop needs: three readable paths, and an input and a key
that open, are not empty and fit into memory. -/
structure Inputs (c : Call) (fs : FileSystem) where
  srcFile : List UInt8
  destFile : List UInt8
  keyFile : List UInt8
  data : File
  key : File
  srcFile_eq : c.userBytes c.args.srcFile 256 = some srcFile
  destFile_eq : c.userBytes c.args.destFile 256 = some destFile
  keyFile_eq : c.userBytes c.args.keyFilepath 256 = some keyFile
  data_eq : c.inputFile .data srcFile fs = some data
  key_eq : c.inputFile .key keyFile fs = some key

/-- The inputs of a call are determined by the user memory and the files. -/
instance (c : Call) (fs : FileSystem) : Subsingleton (Inputs c fs) where
  allEq := by
    rintro ⟨s₁, d₁, k₁, f₁, g₁, hs₁, hd₁, hk₁, hf₁, hg₁⟩
      ⟨s₂, d₂, k₂, f₂, g₂, hs₂, hd₂, hk₂, hf₂, hg₂⟩
    obtain rfl := Option.some_inj.mp (hs₁.symm.trans hs₂)
    obtain rfl := Option.some_inj.mp (hd₁.symm.trans hd₂)
    obtain rfl := Option.some_inj.mp (hk₁.symm.trans hk₂)
    obtain rfl := Option.some_inj.mp (hf₁.symm.trans hf₂)
    obtain rfl := Option.some_inj.mp (hg₁.symm.trans hg₂)
    rfl

namespace Inputs

variable {c : Call} {fs : FileSystem} (inp : Inputs c fs)

/-- The inputs are the files at the paths of the call. -/
lemma eq_of_names {src dest key : Path} {D K : File} (hnames : c.Names src dest key)
    (hD : fs src = some D) (hK : fs key = some K) :
    inp.data = D ∧ inp.key = K ∧ c.pathAt .out inp.destFile = dest := by
  have hsrc := hnames.srcPath
  have hdest := hnames.destPath
  have hkey := hnames.keyPath
  rw [Call.srcPath, inp.srcFile_eq, Option.map_some, Option.some_inj] at hsrc
  rw [Call.destPath, inp.destFile_eq, Option.map_some, Option.some_inj] at hdest
  rw [Call.keyPath, inp.keyFile_eq, Option.map_some, Option.some_inj] at hkey
  have hdata' := (Call.inputFile_eq_some_iff.mp inp.data_eq).2.1
  have hkey' := (Call.inputFile_eq_some_iff.mp inp.key_eq).2.1
  rw [hsrc, hD, Option.some_inj] at hdata'
  rw [hkey, hK, Option.some_inj] at hkey'
  exact ⟨hdata'.symm, hkey'.symm, hdest⟩

/-- The local variables set by the code in front of the creation loop. -/
def prepared : Prepared where
  destFile := inp.destFile
  fileData := .block (c.blockAt .data)
  dataLen := inp.data.size
  keyData := .block (c.blockAt .key)
  keyLen := inp.key.size
  workers := c.arrayPtr .workers taskPtrSize
  workerArgs := c.arrayPtr .workerArgs workerArgsSize

/-- The kernel state with both files read. -/
def loadedKernel (k : Kernel) : Kernel :=
  (k.withBlock (c.blockAt .data) (c.loaded .data inp.data)).withBlock (c.blockAt .key)
    (c.loaded .key inp.key ++ [0])

/-- The kernel state at the division. -/
def kernel (k : Kernel) : Kernel :=
  c.arrayKernel .workerArgs workerArgsSize
    (c.arrayKernel .workers taskPtrSize (inp.loadedKernel k))

@[simp] lemma kernel_fs (k : Kernel) : (inp.kernel k).fs = k.fs := by
  simp only [kernel, Call.arrayKernel_fs]
  rfl

@[simp] lemma kernel_holder (k : Kernel) : (inp.kernel k).holder = k.holder := by
  simp only [kernel, Call.arrayKernel_holder]
  rfl

/-- The input buffer. -/
lemma kernel_mem_data (k : Kernel) :
    (inp.kernel k).mem (c.blockAt .data) = c.loaded .data inp.data := by
  rw [kernel, c.arrayKernel_mem _ _ _ (by decide), c.arrayKernel_mem _ _ _ (by decide)]
  simp [loadedKernel, Kernel.withBlock, Kernel.clear, Call.blockAt]

/-- The key buffer. -/
lemma kernel_mem_key (k : Kernel) :
    (inp.kernel k).mem (c.blockAt .key) = c.loaded .key inp.key ++ [0] := by
  rw [kernel, c.arrayKernel_mem _ _ _ (by decide), c.arrayKernel_mem _ _ _ (by decide)]
  simp [loadedKernel, Kernel.withBlock, Kernel.clear, Call.blockAt]

end Inputs

/-- Both arrays of a call can be allocated. -/
def Call.ArraysAllocated (c : Call) : Prop :=
  c.arrayPtr .workers taskPtrSize ≠ .null ∧ c.arrayPtr .workerArgs workerArgsSize ≠ .null

instance (c : Call) : Decidable c.ArraysAllocated := inferInstanceAs (Decidable (_ ∧ _))

/-- With its inputs at hand, the code in front of the creation loop succeeds iff both arrays can be
allocated. -/
lemma eval_prepare_of_inputs (d : Syscall) {c : Call} {k : Kernel} (inp : Inputs c k.fs) :
    (prepare d c.args).eval c.exec k =
      if c.arrayPtr .workers taskPtrSize = .null ∨ c.arrayPtr .workerArgs workerArgsSize = .null
      then (.error Errno.enomem.ret,
        ((inp.kernel k).kfree (.block (c.blockAt .data))).kfree (.block (c.blockAt .key)))
      else (.ok inp.prepared, inp.kernel k) := by
  have hkey : (readKey inp.keyFile).eval c.exec
      (k.withBlock (c.blockAt .data) (c.loaded .data inp.data)) =
        (some (.block (c.blockAt .key), inp.key.size), inp.loadedKernel k) := by
    have hin : c.inputFile .key inp.keyFile
        (k.withBlock (c.blockAt .data) (c.loaded .data inp.data)).fs = some inp.key := inp.key_eq
    rw [eval_readKey, hin]
    rfl
  simp only [prepare, d.readInput_eq, d.readKeyFile_eq, Program.eval_bind, eval_copyFromUser,
    inp.srcFile_eq, inp.destFile_eq, inp.keyFile_eq, eval_readWhole, inp.data_eq, hkey,
    c.eval_kmallocArray]
  split <;> rfl

/-- Without its inputs the code in front of the creation loop returns an error, and leaves at most a
trace in freed memory. -/
lemma eval_prepare_of_no_inputs (d : Syscall) {c : Call} {k : Kernel}
    (h : Inputs c k.fs → False) :
    ∃ e : Errno, ∃ mem args,
      (prepare d c.args).eval c.exec k = (.error e.ret, { k with mem, args }) := by
  simp only [prepare, d.readInput_eq, d.readKeyFile_eq, Program.eval_bind, eval_copyFromUser]
  cases hsrc : c.userBytes c.args.srcFile 256 with
  | none => exact ⟨.efault, k.mem, k.args, rfl⟩
  | some srcFile =>
    simp only [Program.eval_bind, eval_copyFromUser]
    cases hdest : c.userBytes c.args.destFile 256 with
    | none => exact ⟨.efault, k.mem, k.args, rfl⟩
    | some destFile =>
      simp only [Program.eval_bind, eval_copyFromUser]
      cases hkeyFile : c.userBytes c.args.keyFilepath 256 with
      | none => exact ⟨.efault, k.mem, k.args, rfl⟩
      | some keyFile =>
        simp only [Program.eval_bind, eval_readWhole]
        cases hdata : c.inputFile .data srcFile k.fs with
        | none => exact ⟨.eio, k.mem, k.args, rfl⟩
        | some data =>
          simp only [Program.eval_bind, eval_readKey]
          cases hkey : c.inputFile .key keyFile k.fs with
          | none =>
            have hkey' : c.inputFile .key keyFile
                (k.withBlock (c.blockAt .data) (c.loaded .data data)).fs = none := hkey
            rw [hkey']
            exact ⟨.eio, _, _, congrArg (Prod.mk _) (k.kfree_withBlock _ _)⟩
          | some key =>
            exact (h ⟨srcFile, destFile, keyFile, data, key, hsrc, hdest, hkeyFile, hdata,
              hkey⟩).elim

/-- The code in front of the creation loop either returns a negative error number with all files as
they were, or finds its inputs and ends with its local variables set. -/
theorem eval_prepare (d : Syscall) (c : Call) (k : Kernel) :
    (∃ e : Errno, ∃ k', (prepare d c.args).eval c.exec k = (.error e.ret, k') ∧ k'.fs = k.fs) ∨
      ∃ inp : Inputs c k.fs, c.ArraysAllocated ∧
        (prepare d c.args).eval c.exec k = (.ok inp.prepared, inp.kernel k) := by
  by_cases h : Nonempty (Inputs c k.fs)
  · obtain ⟨inp⟩ := h
    have heval := eval_prepare_of_inputs d inp
    split at heval
    · exact Or.inl ⟨.enomem, _, heval, by simp⟩
    · rename_i harr
      exact Or.inr ⟨inp, not_or.mp harr, heval⟩
  · obtain ⟨e, mem, args, heval⟩ := eval_prepare_of_no_inputs d fun inp => h ⟨inp⟩
    exact Or.inl ⟨e, _, heval, rfl⟩

end XorSyscalls
