import XorSyscalls.Syscall.Prepare

/-!
# What a call does whatever happens around it

Other calls may change the kernel state between any two steps of a call.  What can still be said of
a call relies on the answers of the kernel functions alone: it opens only the files whose paths it
has copied from user memory, writes only to its output file and uses only the blocks it has
allocated itself.  `Call.Allowed` lists the operations of this kind, `Call.Answers` what is known of
the answers, and `prepare_meets` and `Syscall.save_meets` say that the sequential code keeps to
them.
-/

namespace XorSyscalls

namespace Call

variable (c : Call)

/-- `filename` was copied from user memory for the file opened at `site`. -/
def Copied (site : Site) (filename : List UInt8) : Prop :=
  match site with
  | .data => c.userBytes c.args.srcFile 256 = some filename
  | .key => c.userBytes c.args.keyFilepath 256 = some filename
  | .out => c.userBytes c.args.destFile 256 = some filename
  | .workers | .workerArgs => False

/-- The file that the call opens at `site` under a name that it has copied. -/
def fileAt (site : Site) (filename : List UInt8) : OpenFile :=
  ⟨c.task, site, c.pathAt site filename⟩

/-- The call has opened this file. -/
def Opens (file : OpenFile) : Prop := ∃ filename, c.Copied file.site filename ∧
  file = c.fileAt file.site filename

/-- The pointer leads to a block of the call, if it leads anywhere. -/
def Owns (p : Ptr) : Prop := ∀ b, p = .block b → b.task = c.task

/-- The operations of a call: names come from user memory, only the output file is created and
written, and all blocks are the call's own. -/
def Allowed : Op → Prop
  | .filpOpen site filename mode => c.Copied site filename ∧ (mode = .writeCreate → site = .out)
  | .iSizeRead file => c.Opens file
  | .kernelRead file buf _ => c.Opens file ∧ c.Owns buf
  | .kernelWrite file buf _ => c.Opens file ∧ file.site = .out ∧ c.Owns buf
  | .storeByte buf _ _ => c.Owns buf
  | .kfree p => c.Owns p
  | .copyFromUser _ _ | .kmalloc _ _ | .filpClose _ | .printk _ => True

/-- What is known of the answers, whatever the kernel state. -/
def Answers : (op : Op) → op.Res → Prop
  | .copyFromUser src n, r => r = c.userBytes src n
  | .filpOpen site filename _, r => ∀ file, r = .ok file → file = c.fileAt site filename
  | .iSizeRead _, r => r ≤ maxFileSize
  | .kmalloc site size, r =>
    r = if size = 0 then .zeroSize
      else if c.env.allocates site then .block (c.blockAt site) else .null
  | .kernelRead _ _ _, _ | .kernelWrite _ _ _, _ | .storeByte _ _ _, _ | .filpClose _, _
  | .kfree _, _ | .printk _, _ => True

/-- The kernel functions answer like this. -/
lemma exec_answers (op : Op) (k : Kernel) : c.Answers op (c.exec op k).1 := by
  cases op with
  | copyFromUser src n => rfl
  | filpOpen site filename mode =>
    intro file hfile
    simp only [exec, filpOpen] at hfile
    split at hfile
    · cases hfile
    · split at hfile <;> cases hfile <;> rfl
  | iSizeRead file =>
    change (k.contents file.path).length ≤ maxFileSize
    unfold Kernel.contents
    split
    · exact Nat.zero_le _
    · rename_i f _
      exact f.size_le
  | kmalloc site size =>
    simp only [Answers, exec, kmalloc]
    split
    · rfl
    · split <;> rfl
  | kernelRead | kernelWrite | storeByte | filpClose | kfree | printk => trivial

variable {c}

/-- The output file lies at the destination. -/
lemma Opens.destPath_eq {file : OpenFile} (h : c.Opens file) (hsite : file.site = .out) :
    c.destPath = some file.path := by
  obtain ⟨filename, hcopied, hfile⟩ := h
  rw [hsite] at hcopied hfile
  rw [hfile, destPath, show c.userBytes c.args.destFile 256 = some filename from hcopied]
  rfl

lemma owns_blockAt (site : Site) : c.Owns (.block (c.blockAt site)) := by
  intro b hb
  cases hb
  rfl

/-- An array is a block of the call, if it is one. -/
lemma owns_arrayPtr (site : Site) (elem : ℕ) : c.Owns (c.arrayPtr site elem) := by
  intro b hb
  unfold arrayPtr at hb
  split at hb
  · cases hb
  · split at hb
    · cases hb
    · split at hb <;> cases hb
      rfl

end Call

/-! ## The sequential code -/

/-- The local variables of the call at the creation loop. -/
structure Prepared.Sound (c : Call) (q : Prepared) : Prop where
  destFile_eq : c.Copied .out q.destFile
  fileData_eq : q.fileData = .block (c.blockAt .data)
  keyData_eq : q.keyData = .block (c.blockAt .key)
  dataLen_le : q.dataLen ≤ maxFileSize
  keyLen_pos : 0 < q.keyLen
  workers_eq : q.workers = c.arrayPtr .workers taskPtrSize
  workerArgs_eq : q.workerArgs = c.arrayPtr .workerArgs workerArgsSize
  arrays : c.ArraysAllocated

/-- What the code in front of the division returns: `-EFAULT` only if a path cannot be copied, or
the local variables of the call. -/
def Call.Outcome (c : Call) : Except ℤ Prepared → Prop
  | .error r => r = Errno.efault.ret → c.userBytes c.args.srcFile 256 = none ∨
      c.userBytes c.args.destFile 256 = none ∨ c.userBytes c.args.keyFilepath 256 = none
  | .ok q => q.Sound c

section Sequential

variable {c : Call}

/-- A reader fails or returns the block that it has allocated and the size of the file. -/
def Call.Loaded (c : Call) (site : Site) : Option (Ptr × ℕ) → Prop
  | none => True
  | some (p, n) => p = .block (c.blockAt site) ∧ 0 < n ∧ n ≤ maxFileSize

/-- The beginning of the readers keeps to the operations of the call. -/
lemma openInput_meets {site : Site} {filename : List UInt8} (hcopied : c.Copied site filename)
    {bufferSize : ℕ → ℕ} (hbuffer : ∀ n, n ≤ bufferSize n)
    {fill : OpenFile → Ptr → ℕ → KProgram (Option (Ptr × ℕ))}
    (hfill : ∀ n, 0 < n → n ≤ maxFileSize →
      (fill (c.fileAt site filename) (.block (c.blockAt site)) n).Meets c.Allowed c.Answers
        (c.Loaded site)) :
    (openInput site filename bufferSize fill).Meets c.Allowed c.Answers (c.Loaded site) := by
  refine Program.meets_perform_bind.mpr ⟨⟨hcopied, fun h => by cases h⟩, fun r hr => ?_⟩
  cases r with
  | error e => trivial
  | ok file =>
    obtain rfl := hr file rfl
    refine Program.meets_perform_bind.mpr ⟨⟨filename, hcopied, rfl⟩, fun n hn => ?_⟩
    split
    · exact Program.meets_perform_bind.mpr ⟨trivial, fun _ _ => trivial⟩
    · rename_i hpos
      refine Program.meets_perform_bind.mpr ⟨trivial, fun p hp => ?_⟩
      split
      · exact Program.meets_perform_bind.mpr ⟨trivial, fun _ _ => trivial⟩
      · rename_i hnull
        have hpos' : 0 < n := not_le.mp hpos
        have hne : bufferSize n ≠ 0 := (hpos'.trans_le (hbuffer n)).ne'
        have hblock : p = .block (c.blockAt site) := by
          simp only [Call.Answers, if_neg hne] at hp
          split at hp
          · exact hp
          · exact absurd hp hnull
        exact hblock ▸ hfill n hpos' hn

/-- The input reader keeps to the operations of the call. -/
lemma readWhole_meets {filename : List UInt8} (hcopied : c.Copied .data filename) :
    (readWhole filename).Meets c.Allowed c.Answers (c.Loaded .data) := by
  rw [readWhole]
  refine openInput_meets hcopied (fun _ => le_rfl) fun n hpos hn => ?_
  refine Program.meets_perform_bind.mpr
    ⟨⟨⟨filename, hcopied, rfl⟩, Call.owns_blockAt _⟩, fun _ _ => ?_⟩
  exact Program.meets_perform_bind.mpr ⟨trivial, fun _ _ => ⟨rfl, hpos, hn⟩⟩

/-- The key reader keeps to the operations of the call. -/
lemma readKey_meets {filename : List UInt8} (hcopied : c.Copied .key filename) :
    (readKey filename).Meets c.Allowed c.Answers (c.Loaded .key) := by
  rw [readKey]
  refine openInput_meets hcopied (fun _ => Nat.le_succ _) fun n hpos hn => ?_
  refine Program.meets_perform_bind.mpr
    ⟨⟨⟨filename, hcopied, rfl⟩, Call.owns_blockAt _⟩, fun _ _ => ?_⟩
  refine Program.meets_perform_bind.mpr ⟨Call.owns_blockAt _, fun _ _ => ?_⟩
  exact Program.meets_perform_bind.mpr ⟨trivial, fun _ _ => ⟨rfl, hpos, hn⟩⟩

/-- `kmalloc_array` returns the pointer to the array. -/
lemma kmallocArray_meets (site : Site) (elem : ℕ) :
    (kmallocArray site (toSizeT c.args.numThreads.toInt) elem).Meets c.Allowed c.Answers
      (· = c.arrayPtr site elem) := by
  unfold kmallocArray Call.arrayPtr Call.arraySize
  split
  · rfl
  · exact Program.meets_perform.mpr ⟨trivial, fun _ hp => hp⟩

/-- The code in front of the division keeps to the operations of the call. -/
theorem prepare_meets (d : Syscall) (c : Call) :
    (prepare d c.args).Meets c.Allowed c.Answers c.Outcome := by
  unfold prepare
  rw [d.readInput_eq, d.readKeyFile_eq]
  refine Program.meets_perform_bind.mpr ⟨trivial, fun src hsrc => ?_⟩
  cases src with
  | none => exact fun _ => Or.inl hsrc.symm
  | some srcFile =>
  refine Program.meets_perform_bind.mpr ⟨trivial, fun dest hdest => ?_⟩
  cases dest with
  | none => exact fun _ => Or.inr (Or.inl hdest.symm)
  | some destFile =>
  refine Program.meets_perform_bind.mpr ⟨trivial, fun key hkey => ?_⟩
  cases key with
  | none => exact fun _ => Or.inr (Or.inr hkey.symm)
  | some keyFile =>
  have heio : c.Outcome (.error Errno.eio.ret) := fun h => absurd h (by decide)
  have henomem : c.Outcome (.error Errno.enomem.ret) := fun h => absurd h (by decide)
  refine (readWhole_meets (c := c) hsrc.symm).bind fun data hdata => ?_
  cases data with
  | none => exact heio
  | some data =>
  obtain ⟨fileData, dataLen⟩ := data
  obtain ⟨rfl, -, hlen⟩ := hdata
  refine (readKey_meets (c := c) hkey.symm).bind fun keyData hkeyData => ?_
  cases keyData with
  | none => exact Program.meets_perform_bind.mpr ⟨Call.owns_blockAt _, fun _ _ => heio⟩
  | some keyData =>
  obtain ⟨keyData, keyLen⟩ := keyData
  obtain ⟨rfl, hpos, -⟩ := hkeyData
  refine (kmallocArray_meets _ _).bind fun workers hworkers => ?_
  refine (kmallocArray_meets _ _).bind fun workerArgs hworkerArgs => ?_
  split
  · refine Program.meets_perform_bind.mpr ⟨Call.owns_blockAt _, fun _ _ => ?_⟩
    exact Program.meets_perform_bind.mpr ⟨Call.owns_blockAt _, fun _ _ => henomem⟩
  · rename_i hnull
    rw [hworkers, hworkerArgs, not_or] at hnull
    exact ⟨hdest.symm, rfl, rfl, hlen, hpos, hworkers, hworkerArgs, hnull⟩

/-- The writers keep to the operations of the call. -/
theorem Syscall.save_meets (d : Syscall) {c : Call} {filename : List UInt8} {p : Ptr} (count : ℕ)
    (hcopied : c.Copied .out filename) (hp : c.Owns p) :
    (d.save filename p count).Meets c.Allowed c.Answers fun _ => True := by
  have hfile : c.Opens (c.fileAt .out filename) := ⟨filename, hcopied, rfl⟩
  cases d with
  | encrypt =>
    refine Program.meets_perform_bind.mpr ⟨⟨hcopied, fun _ => rfl⟩, fun r hr => ?_⟩
    cases r with
    | error e => exact Program.meets_perform_bind.mpr ⟨trivial, fun _ _ => trivial⟩
    | ok file =>
      obtain rfl := hr file rfl
      refine Program.meets_perform_bind.mpr ⟨⟨hfile, rfl, hp⟩, fun written _ => ?_⟩
      split
      · refine Program.meets_perform_bind.mpr ⟨trivial, fun _ _ => ?_⟩
        exact Program.meets_perform_bind.mpr ⟨trivial, fun _ _ => trivial⟩
      · exact Program.meets_perform_bind.mpr ⟨trivial, fun _ _ => trivial⟩
  | decrypt =>
    refine Program.meets_perform_bind.mpr ⟨⟨hcopied, fun _ => rfl⟩, fun r hr => ?_⟩
    cases r with
    | error e => trivial
    | ok file =>
      obtain rfl := hr file rfl
      refine Program.meets_perform_bind.mpr ⟨⟨hfile, rfl, hp⟩, fun written _ => ?_⟩
      split
      · exact Program.meets_perform_bind.mpr ⟨trivial, fun _ _ => trivial⟩
      · exact Program.meets_perform_bind.mpr ⟨trivial, fun _ _ => trivial⟩

end Sequential

end XorSyscalls
