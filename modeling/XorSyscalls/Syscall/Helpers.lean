import XorSyscalls.Syscall.Encrypt
import XorSyscalls.Syscall.Decrypt

/-!
# The file helpers of the two system calls

`my_encrypt.c` and `my_decrypt.c` each have three helpers: one reads the whole input file, one
reads the whole key file and terminates it with a `NUL`, and one writes the output file.  The
readers of the two files turn out to be the same programs, `readWhole` and `readKey`.  The writers
differ, since only `save_data_to_file` reports its failures in the log.

`eval_readWhole`, `eval_readKey` and the lemmas on the writers say what the helpers do: a reader
that fails leaves the kernel as it found it, and one that succeeds leaves one more block, filled as
far as the read went.
-/

namespace XorSyscalls

/-- The two system calls, `xor_encrypt_syscall` and `xor_decrypt`. -/
inductive Syscall
  | encrypt
  | decrypt
  deriving DecidableEq

namespace Syscall

/-- The reader of the input file. -/
def readInput : Syscall → List UInt8 → KProgram (Option (Ptr × ℕ))
  | encrypt => readDataFromFile
  | decrypt => loadData

/-- The reader of the key file. -/
def readKeyFile : Syscall → List UInt8 → KProgram (Option (Ptr × ℕ))
  | encrypt => loadKeyFromFile
  | decrypt => loadKey

/-- The writer of the output file. -/
def save : Syscall → List UInt8 → Ptr → ℕ → KProgram ℤ
  | encrypt => saveDataToFile
  | decrypt => saveData

end Syscall

/-! ## The readers -/

/-- The beginning that the two readers share: the file is opened, its size is read, and a buffer of
`bufferSize` bytes is allocated for it.  Then `fill` takes over. -/
def openInput (site : Site) (filename : List UInt8) (bufferSize : ℕ → ℕ)
    (fill : OpenFile → Ptr → ℕ → KProgram (Option (Ptr × ℕ))) : KProgram (Option (Ptr × ℕ)) := do
  match ← filpOpen site filename .readOnly with
  | .error _ => return none
  | .ok file =>
    let size ← iSizeRead file
    if size ≤ 0 then
      filpClose file
      return none
    else
      let buffer ← kmalloc site (bufferSize size)
      if buffer = .null then
        filpClose file
        return none
      else fill file buffer size

/-- Reading the input, into a buffer of the size of the file. -/
def readWhole (filename : List UInt8) : KProgram (Option (Ptr × ℕ)) :=
  openInput .data filename id fun file buffer size => do
    let _ ← kernelRead file buffer size
    filpClose file
    return some (buffer, size)

/-- Reading the key, into a buffer with one more byte for the terminator. -/
def readKey (filename : List UInt8) : KProgram (Option (Ptr × ℕ)) :=
  openInput .key filename (· + 1) fun file buffer size => do
    let _ ← kernelRead file buffer size
    storeByte buffer size 0
    filpClose file
    return some (buffer, size)

/-- `read_data_from_file` and `load_data` are the same program. -/
lemma Syscall.readInput_eq (d : Syscall) : d.readInput = readWhole := by
  cases d <;> rfl

/-- `load_key_from_file` and `load_key` are the same program. -/
lemma Syscall.readKeyFile_eq (d : Syscall) : d.readKeyFile = readKey := by
  cases d <;> rfl

/-! ## What the readers do -/

/-- The file that a reader gets hold of: the one at the path, if it opens, is not empty and its
buffer can be allocated. -/
def Call.inputFile (c : Call) (site : Site) (filename : List UInt8) (fs : FileSystem) :
    Option File :=
  match c.env.openError site, fs (c.pathAt site filename) with
  | none, some f => if 0 < f.size ∧ c.env.allocates site = true then some f else none
  | _, _ => none

/-- The number of bytes that a read of `count` bytes transfers. -/
def Call.transferred (c : Call) (site : Site) (count : ℕ) : ℕ :=
  match c.env.readResult site with
  | .error _ => 0
  | .ok m => min m count

/-- The buffer that a reader fills: the transferred part of the file, and behind it the bytes that
the fresh memory happened to hold. -/
def Call.loaded (c : Call) (site : Site) (f : File) : List UInt8 :=
  f.bytes.take (c.transferred site f.size) ++
    ((List.range f.size).map (c.env.junk site)).drop (c.transferred site f.size)

/-- At most the bytes asked for are transferred. -/
lemma Call.transferred_le (c : Call) (site : Site) (count : ℕ) :
    c.transferred site count ≤ count := by
  unfold transferred
  split
  · exact Nat.zero_le _
  · exact Nat.min_le_right _ _

/-- The buffer has the size of the file. -/
lemma Call.length_loaded (c : Call) (site : Site) (f : File) :
    (c.loaded site f).length = f.size := by
  have := c.transferred_le site f.size
  simp only [loaded, File.size, List.length_append, List.length_take, List.length_drop,
    List.length_map, List.length_range] at this ⊢
  omega

/-- The transferred part of the buffer. -/
lemma Call.getElem?_loaded_of_lt (c : Call) (site : Site) (f : File) {j : ℕ}
    (hj : j < c.transferred site f.size) : (c.loaded site f)[j]? = f.bytes[j]? := by
  have hle : c.transferred site f.size ≤ f.bytes.length := c.transferred_le site f.size
  rw [loaded, List.getElem?_append_left (by rw [List.length_take]; omega),
    List.getElem?_take_of_lt hj]

/-- The part of the buffer that keeps what the memory held. -/
lemma Call.getElem?_loaded_of_le (c : Call) (site : Site) (f : File) {j : ℕ}
    (hle : c.transferred site f.size ≤ j) (hj : j < f.size) :
    (c.loaded site f)[j]? = some (c.env.junk site j) := by
  have hlen : (f.bytes.take (c.transferred site f.size)).length = c.transferred site f.size := by
    rw [List.length_take]
    exact Nat.min_eq_left (c.transferred_le site f.size)
  rw [loaded, List.getElem?_append_right (hlen.trans_le hle), hlen, List.getElem?_drop,
    Nat.add_sub_of_le hle, List.getElem?_map, List.getElem?_range hj, Option.map_some]

/-- A complete read fills the buffer with the file. -/
lemma Call.loaded_of_transferred (c : Call) (site : Site) (f : File)
    (h : c.transferred site f.size = f.size) : c.loaded site f = f.bytes := by
  unfold loaded
  rw [h, List.drop_of_length_le (by simp), List.append_nil, File.size, List.take_length]

/-- Reading into a buffer stores the transferred bytes at its start. -/
lemma Call.kernelRead_snd (c : Call) (file : OpenFile) (b : Block) (k : Kernel) (f : File)
    (hf : k.fs file.path = some f) :
    (c.kernelRead file (.block b) f.size k).2 =
      k.setMem b (f.bytes.take (c.transferred file.site f.size) ++
        (k.mem b).drop (c.transferred file.site f.size)) := by
  unfold kernelRead transferred
  cases c.env.readResult file.site with
  | error e => simp [Kernel.setMem]
  | ok m =>
    have hlen : (f.bytes.take (min m f.size)).length = min m f.size := by
      simp [File.size]
    simp only [Kernel.contents, hf, Kernel.fill, hlen]

/-- Opening an existing file for reading. -/
lemma Call.filpOpen_readOnly_some (c : Call) (site : Site) (filename : List UInt8) (k : Kernel)
    {f : File} (herr : c.env.openError site = none)
    (hf : k.fs (c.pathAt site filename) = some f) :
    c.filpOpen site filename .readOnly k =
      (.ok ⟨c.task, site, c.pathAt site filename⟩,
        k.opened ⟨c.task, site, c.pathAt site filename⟩) := by
  simp [filpOpen, herr, hf]

/-- A file that is refused or missing cannot be opened for reading. -/
lemma Call.filpOpen_readOnly_error (c : Call) (site : Site) (filename : List UInt8) (k : Kernel)
    (h : c.env.openError site = none → k.fs (c.pathAt site filename) = none) :
    ∃ e, c.filpOpen site filename .readOnly k = (.error e, k) := by
  unfold filpOpen
  cases herr : c.env.openError site with
  | some e => exact ⟨e, rfl⟩
  | none => exact ⟨.enoent, by simp [h herr]⟩

/-- A file that is refused or missing is no input. -/
lemma Call.inputFile_eq_none (c : Call) (site : Site) (filename : List UInt8) (fs : FileSystem)
    (h : c.env.openError site = none → fs (c.pathAt site filename) = none) :
    c.inputFile site filename fs = none := by
  unfold inputFile
  cases herr : c.env.openError site with
  | some e => rfl
  | none => rw [h herr]

/-- A file that opens is an input iff it is not empty and its buffer can be allocated. -/
lemma Call.inputFile_eq_ite (c : Call) (site : Site) (filename : List UInt8) {fs : FileSystem}
    {f : File} (herr : c.env.openError site = none) (hf : fs (c.pathAt site filename) = some f) :
    c.inputFile site filename fs =
      if 0 < f.size ∧ c.env.allocates site = true then some f else none := by
  simp only [inputFile, herr, hf]

/-- The input files are the ones that exist and open, are not empty and fit into memory. -/
lemma Call.inputFile_eq_some_iff {c : Call} {site : Site} {filename : List UInt8}
    {fs : FileSystem} {f : File} :
    c.inputFile site filename fs = some f ↔
      c.env.openError site = none ∧ fs (c.pathAt site filename) = some f ∧ 0 < f.size ∧
        c.env.allocates site = true := by
  unfold inputFile
  split
  · rename_i g herr hg
    simp only [herr, hg, Option.some_inj, Option.ite_none_right_eq_some, true_and]
    constructor
    · rintro ⟨h, rfl⟩
      exact ⟨rfl, h⟩
    · rintro ⟨rfl, h⟩
      exact ⟨h, rfl⟩
  · rename_i hno
    constructor
    · intro h
      cases h
    · rintro ⟨herr, hf, -⟩
      exact (hno f herr hf).elim

/-- The beginning of a reader fails without a trace, or hands over the open file and a fresh
block. -/
lemma eval_openInput (c : Call) (site : Site) (filename : List UInt8) (bufferSize : ℕ → ℕ)
    (fill : OpenFile → Ptr → ℕ → KProgram (Option (Ptr × ℕ))) (k : Kernel)
    (hbuffer : ∀ n, n ≤ bufferSize n) :
    (openInput site filename bufferSize fill).eval c.exec k =
      match c.inputFile site filename k.fs with
      | none => (none, k)
      | some f =>
        let file : OpenFile := ⟨c.task, site, c.pathAt site filename⟩
        (fill file (.block (c.blockAt site)) f.size).eval c.exec
          ((k.opened file).withBlock (c.blockAt site)
            ((List.range (bufferSize f.size)).map (c.env.junk site))) := by
  unfold openInput
  rw [Program.eval_bind, eval_filpOpen]
  by_cases hopen : c.env.openError site = none → k.fs (c.pathAt site filename) = none
  · obtain ⟨e, he⟩ := c.filpOpen_readOnly_error site filename k hopen
    rw [he, c.inputFile_eq_none site filename k.fs hopen]
    rfl
  · obtain ⟨herr, hne⟩ := Classical.not_imp.mp hopen
    obtain ⟨f, hf⟩ := Option.ne_none_iff_exists'.mp hne
    have hin := c.inputFile_eq_ite site filename herr hf
    rw [c.filpOpen_readOnly_some site filename k herr hf]
    generalize hfile : (⟨c.task, site, c.pathAt site filename⟩ : OpenFile) = file
    have hpath : (k.opened file).fs file.path = some f := by rw [← hfile]; exact hf
    have hsize : ((k.opened file).contents file.path).length = f.size := by
      simp [Kernel.contents, hpath, File.size]
    simp only [Program.eval_bind, eval_iSizeRead, hsize]
    by_cases hpos : 0 < f.size
    · have hpos' : 0 < bufferSize f.size := hpos.trans_le (hbuffer _)
      rw [if_neg (by omega), Program.eval_bind, eval_kmalloc]
      by_cases halloc : c.env.allocates site = true
      · rw [if_pos ⟨hpos, halloc⟩] at hin
        rw [hin, c.kmalloc_of_allocates _ hpos' halloc]
        simp only [reduceCtorEq, if_false]
      · rw [if_neg (fun h => halloc h.2)] at hin
        rw [hin, c.kmalloc_of_not_allocates _ hpos' halloc]
        simp
    · rw [if_neg (fun h => hpos h.1)] at hin
      rw [hin, if_pos (by omega)]
      simp

/-- `read_data_from_file` and `load_data` fail without a trace, or leave a block that is filled as
far as the read went. -/
theorem eval_readWhole (c : Call) (filename : List UInt8) (k : Kernel) :
    (readWhole filename).eval c.exec k =
      match c.inputFile .data filename k.fs with
      | none => (none, k)
      | some f => (some (.block (c.blockAt .data), f.size),
          k.withBlock (c.blockAt .data) (c.loaded .data f)) := by
  rw [readWhole, eval_openInput c .data filename id _ k fun _ => le_rfl]
  cases hin : c.inputFile .data filename k.fs with
  | none => rfl
  | some f =>
    obtain ⟨-, hf, -⟩ := Call.inputFile_eq_some_iff.mp hin
    simp only [Program.eval_bind, eval_kernelRead, eval_filpClose, Program.eval_pure]
    rw [c.kernelRead_snd ⟨c.task, .data, c.pathAt .data filename⟩ _ ((k.opened _).withBlock _ _) f
      hf, Kernel.setMem_withBlock, Kernel.withBlock_mem_self, Kernel.withBlock_opened,
      Kernel.filpClose_opened]
    rfl

/-- Terminating a key buffer puts a `NUL` behind the part that the key fills. -/
lemma Call.loaded_terminated (c : Call) (site : Site) (f : File) :
    (f.bytes.take (c.transferred site f.size) ++
      ((List.range (f.size + 1)).map (c.env.junk site)).drop (c.transferred site f.size)).set
        f.size 0 = c.loaded site f ++ [0] := by
  have hle := c.transferred_le site f.size
  have hlen := c.length_loaded site f
  rw [List.range_succ, List.map_append, List.drop_append_of_le_length (by simpa using hle),
    ← List.append_assoc]
  change (c.loaded site f ++ _).set f.size 0 = _
  rw [List.set_append_right _ _ hlen.le, hlen, Nat.sub_self]
  rfl

/-- `load_key_from_file` and `load_key` fail without a trace, or leave a block that holds the key
as far as the read went and a terminator. -/
theorem eval_readKey (c : Call) (filename : List UInt8) (k : Kernel) :
    (readKey filename).eval c.exec k =
      match c.inputFile .key filename k.fs with
      | none => (none, k)
      | some f => (some (.block (c.blockAt .key), f.size),
          k.withBlock (c.blockAt .key) (c.loaded .key f ++ [0])) := by
  rw [readKey, eval_openInput c .key filename (· + 1) _ k fun _ => Nat.le_succ _]
  cases hin : c.inputFile .key filename k.fs with
  | none => rfl
  | some f =>
    obtain ⟨-, hf, -⟩ := Call.inputFile_eq_some_iff.mp hin
    simp only [Program.eval_bind, eval_kernelRead, eval_storeByte, eval_filpClose,
      Program.eval_pure]
    rw [c.kernelRead_snd ⟨c.task, .key, c.pathAt .key filename⟩ _ ((k.opened _).withBlock _ _) f hf,
      Kernel.setMem_withBlock, Kernel.withBlock_mem_self]
    simp only [Kernel.storeByte, Kernel.withBlock_mem_self, Kernel.setMem_withBlock]
    rw [c.loaded_terminated, Kernel.withBlock_opened, Kernel.filpClose_opened]

/-! ## What the writers do -/

/-- The return value of a writer and the file system it leaves, when the buffer holds `bytes`. -/
def Call.saveResult (c : Call) (filename : List UInt8) (bytes : List UInt8) (count : ℕ)
    (fs : FileSystem) : ℤ × FileSystem :=
  let path := c.pathAt .out filename
  let file := (fs path).getD .empty
  match c.env.openError .out with
  | some e => (e.ret, fs)
  | none =>
    match c.env.writeResult with
    | .error e => (e.ret, Function.update fs path (some file))
    | .ok m => (0, Function.update fs path (some (file.overwrite (bytes.take (min m count)))))

/-- The number of bytes that a write of `count` bytes transfers. -/
def Call.written (c : Call) (count : ℕ) : ℕ :=
  match c.env.writeResult with
  | .error _ => 0
  | .ok m => min m count

/-- A writer returns `0` iff the output opens and is written without an error; the bytes
transferred then replace the start of the output. -/
lemma Call.saveResult_eq_zero_iff (c : Call) (filename bytes : List UInt8) (count : ℕ)
    (fs fs' : FileSystem) :
    c.saveResult filename bytes count fs = (0, fs') ↔
      c.env.openError .out = none ∧ (∃ m, c.env.writeResult = .ok m) ∧
        fs' = Function.update fs (c.pathAt .out filename)
          (some (((fs (c.pathAt .out filename)).getD .empty).overwrite
            (bytes.take (c.written count)))) := by
  unfold saveResult written
  cases herr : c.env.openError .out with
  | some e => simp [e.ret_ne_zero]
  | none =>
    cases hw : c.env.writeResult with
    | error e => simp [e.ret_ne_zero]
    | ok m => simp [eq_comm]

/-- Opening the output file: it exists afterwards, with its old content or empty. -/
lemma Call.filpOpen_writeCreate (c : Call) (filename : List UInt8) (k : Kernel)
    (herr : c.env.openError .out = none) :
    c.filpOpen .out filename .writeCreate k =
      (.ok ⟨c.task, .out, c.pathAt .out filename⟩,
        (k.setFile (c.pathAt .out filename) ((k.fs (c.pathAt .out filename)).getD .empty)).opened
          ⟨c.task, .out, c.pathAt .out filename⟩) := by
  cases hf : k.fs (c.pathAt .out filename) with
  | none => simp [filpOpen, herr, hf]
  | some f =>
    have hsame : Function.update k.fs (c.pathAt .out filename) (some f) = k.fs := by
      rw [← hf, Function.update_eq_self]
    simp [filpOpen, herr, hf, Kernel.setFile, hsame]

/-- Writing the buffer to the output file that was just opened. -/
lemma Call.kernelWrite_opened (c : Call) (file : OpenFile) (f : File) (p : Ptr) (count : ℕ)
    (k : Kernel) {m : ℕ} (h : c.env.writeResult = .ok m) :
    c.kernelWrite file p count ((k.setFile file.path f).opened file) =
      ((((k.bytesAt p).take (min m count)).length : ℤ),
        (k.setFile file.path (f.overwrite ((k.bytesAt p).take (min m count)))).opened file) := by
  have hbytes : ((k.setFile file.path f).opened file).bytesAt p = k.bytesAt p := by
    cases p <;> rfl
  have hfs : ((k.setFile file.path f).opened file).fs file.path = some f := k.setFile_fs_self _ _
  simp only [kernelWrite, h, hbytes, hfs, Kernel.setFile_opened, Kernel.setFile_setFile]

/-- Both writers open the output file, write the buffer to it and close it; they touch nothing but
the output file and the log. -/
theorem Syscall.eval_save (d : Syscall) (c : Call) (filename : List UInt8) (p : Ptr) (count : ℕ)
    (k : Kernel) :
    ∃ log, (d.save filename p count).eval c.exec k =
      ((c.saveResult filename (k.bytesAt p) count k.fs).1,
        { k with fs := (c.saveResult filename (k.bytesAt p) count k.fs).2, log := log }) := by
  cases herr : c.env.openError .out with
  | some e =>
    have hopen : c.filpOpen .out filename .writeCreate k = (.error e, k) := by
      simp [Call.filpOpen, herr]
    cases d <;>
      simp only [save, saveDataToFile, saveData, Call.saveResult, herr, hopen,
        Program.eval_bind, eval_filpOpen, eval_printk, Program.eval_pure] <;>
      exact ⟨_, rfl⟩
  | none =>
    have hopen := c.filpOpen_writeCreate filename k herr
    cases hw : c.env.writeResult with
    | error e =>
      have hneg := e.ret_neg
      cases d <;>
        simp only [save, saveDataToFile, saveData, Call.saveResult, herr, hopen, hw,
          Program.eval_bind, eval_filpOpen, eval_kernelWrite, Call.kernelWrite, hneg, if_true,
          eval_printk, eval_filpClose, Program.eval_pure, Kernel.printk_opened,
          Kernel.filpClose_opened] <;>
        exact ⟨_, rfl⟩
    | ok m =>
      have hwrite := c.kernelWrite_opened ⟨c.task, .out, c.pathAt .out filename⟩
        ((k.fs (c.pathAt .out filename)).getD .empty) p count k hw
      cases d <;>
        simp only [save, saveDataToFile, saveData, Call.saveResult, herr, hopen, hw, hwrite,
          Program.eval_bind, eval_filpOpen, eval_kernelWrite,
          if_neg (Int.natCast_nonneg _).not_gt, eval_filpClose, Program.eval_pure,
          Kernel.filpClose_opened] <;>
        exact ⟨_, rfl⟩

end XorSyscalls
