import XorSyscalls.Kernel.State
import XorSyscalls.Foundation.Program

/-!
# The kernel functions called by the system calls

`Op` lists the kernel functions that `my_encrypt.c` and `my_decrypt.c` call in their sequential
parts, and `Call.exec` gives them their meaning on the kernel state.  How such a function answers
is up to the rest of the system: a file may fail to open, an allocation may be refused, a read or
a write may transfer fewer bytes than asked for, and fresh memory holds whatever was left in it.
One value of `Env` fixes all these answers for one call, so a statement about every outcome is a
statement about every `Env`.

`filp_open` without `O_TRUNC` keeps the content of an existing file, and with `O_CREAT` it creates
an empty file at a path where there is none.  `kernel_read` and `kernel_write` work at offset `0`.
-/

namespace XorSyscalls

/-- The modulus of `size_t` arithmetic. -/
def sizeModulus : ℕ := 2 ^ 64

/-- The conversion of a C integer to `size_t`. -/
def toSizeT (z : ℤ) : ℕ := (z % (sizeModulus : ℤ)).toNat

/-- Addition of two `size_t` values. -/
def sizeAdd (a b : ℕ) : ℕ := (a + b) % sizeModulus

/-- The arguments of the system call: three user addresses and the number of threads. -/
structure Args where
  srcFile : ℕ
  destFile : ℕ
  numThreads : Int32
  keyFilepath : ℕ

/-- The answers of the rest of the system to one call. -/
structure Env where
  /-- The user address space; unreadable addresses are `none`. -/
  userMem : ℕ → Option UInt8
  /-- The bytes that follow the path buffers on the kernel stack. -/
  stack : Site → List UInt8
  /-- The error with which opening a file fails, whether or not the file exists. -/
  openError : Site → Option Errno
  /-- Whether the allocation of a non-empty block succeeds. -/
  allocates : Site → Bool
  /-- The bytes found in freshly allocated memory. -/
  junk : Site → ℕ → UInt8
  /-- The result of reading a file: an error or a limit on the bytes transferred. -/
  readResult : Site → Except Errno ℕ
  /-- The result of writing the output: an error or a limit on the bytes transferred. -/
  writeResult : Except Errno ℕ
  /-- The error with which creating the worker of a given number fails. -/
  threadError : ℕ → Option Errno

/-- One invocation of a system call. -/
structure Call where
  /-- The calling task. -/
  task : ℕ
  args : Args
  env : Env

/-- How a file is opened. -/
inductive OpenMode
  /-- `O_RDONLY` -/
  | readOnly
  /-- `O_WRONLY | O_CREAT` with mode `0644` -/
  | writeCreate
  deriving DecidableEq

/-- The C string at the start of some memory: the bytes before the first `NUL`. -/
def cString (bytes : List UInt8) : List UInt8 := bytes.takeWhile (· ≠ 0)

/-! ## Operations -/

/-- The kernel functions used by the sequential code, with their arguments. -/
inductive Op
  | copyFromUser (src n : ℕ)
  | filpOpen (site : Site) (filename : List UInt8) (mode : OpenMode)
  | iSizeRead (file : OpenFile)
  | kmalloc (site : Site) (size : ℕ)
  | kernelRead (file : OpenFile) (buf : Ptr) (count : ℕ)
  | kernelWrite (file : OpenFile) (buf : Ptr) (count : ℕ)
  | storeByte (buf : Ptr) (idx : ℕ) (v : UInt8)
  | filpClose (file : OpenFile)
  | kfree (p : Ptr)
  | printk (e : LogEntry)

/-- The answers to the operations. -/
@[reducible] def Op.Res : Op → Type
  | .copyFromUser _ _ => Option (List UInt8)
  | .filpOpen _ _ _ => Except Errno OpenFile
  | .iSizeRead _ => ℕ
  | .kmalloc _ _ => Ptr
  | .kernelRead _ _ _ => ℤ
  | .kernelWrite _ _ _ => ℤ
  | .storeByte _ _ _ => Unit
  | .filpClose _ => Unit
  | .kfree _ => Unit
  | .printk _ => Unit

/-- Sequential kernel code. -/
abbrev KProgram := Program Op Op.Res

/-- `copy_from_user`; `none` stands for a nonzero result, some byte could not be copied. -/
def copyFromUser (src n : ℕ) : KProgram (Option (List UInt8)) := .perform (Op.copyFromUser src n)

/-- `filp_open` -/
def filpOpen (site : Site) (filename : List UInt8) (mode : OpenMode) :
    KProgram (Except Errno OpenFile) :=
  .perform (Op.filpOpen site filename mode)

/-- `i_size_read(file_inode(file))` -/
def iSizeRead (file : OpenFile) : KProgram ℕ := .perform (Op.iSizeRead file)

/-- `kmalloc` -/
def kmalloc (site : Site) (size : ℕ) : KProgram Ptr := .perform (Op.kmalloc site size)

/-- `kernel_read` at offset `0` -/
def kernelRead (file : OpenFile) (buf : Ptr) (count : ℕ) : KProgram ℤ :=
  .perform (Op.kernelRead file buf count)

/-- `kernel_write` at offset `0` -/
def kernelWrite (file : OpenFile) (buf : Ptr) (count : ℕ) : KProgram ℤ :=
  .perform (Op.kernelWrite file buf count)

/-- The assignment `buf[idx] = v`. -/
def storeByte (buf : Ptr) (idx : ℕ) (v : UInt8) : KProgram Unit := .perform (Op.storeByte buf idx v)

/-- `filp_close` -/
def filpClose (file : OpenFile) : KProgram Unit := .perform (Op.filpClose file)

/-- `kfree` -/
def kfree (p : Ptr) : KProgram Unit := .perform (Op.kfree p)

/-- `printk` -/
def printk (e : LogEntry) : KProgram Unit := .perform (Op.printk e)

/-- `kmalloc_array` of `slab.h`: a product that overflows `size_t` is refused. -/
def kmallocArray (site : Site) (n size : ℕ) : KProgram Ptr :=
  if sizeModulus ≤ n * size then pure .null else kmalloc site (n * size)

/-! ## Their meaning -/

namespace Kernel

/-- The bytes a pointer leads to. -/
def bytesAt (k : Kernel) : Ptr → List UInt8
  | .block b => k.mem b
  | _ => []

/-- The byte at an index of the block a pointer leads to, if there is one. -/
def byteAt (k : Kernel) (p : Ptr) (idx : ℕ) : Option UInt8 := (k.bytesAt p)[idx]?

/-- The worker arguments a pointer leads to, if they have been stored and not been freed. -/
def loadArgs (k : Kernel) (p : ArgsPtr) : Option WorkerArgs :=
  match p.array with
  | .block b => k.args b p.elem
  | _ => none

/-- Arguments in a block that has been freed are gone. -/
lemma loadArgs_kfree (k : Kernel) (p : Ptr) (i : ℕ) : (k.kfree p).loadArgs ⟨p, i⟩ = none := by
  cases p with
  | null | zeroSize => rfl
  | block b => exact congrFun (k.kfree_args b) i

/-- Store worker arguments. -/
def storeArgs (k : Kernel) (p : ArgsPtr) (a : WorkerArgs) : Kernel :=
  { k with
    args := fun b i => if p.array = .block b ∧ p.elem = i then some a else k.args b i }

/-- Arguments are read back. -/
lemma loadArgs_storeArgs_self (k : Kernel) (b : Block) (i : ℕ) (a : WorkerArgs) :
    (k.storeArgs ⟨.block b, i⟩ a).loadArgs ⟨.block b, i⟩ = some a := by
  simp [loadArgs, storeArgs]

/-- The other arguments stay. -/
lemma loadArgs_storeArgs_of_ne (k : Kernel) {p p' : ArgsPtr} (a : WorkerArgs) (h : p' ≠ p) :
    (k.storeArgs p a).loadArgs p' = k.loadArgs p' := by
  obtain ⟨array, elem⟩ := p
  obtain ⟨array', elem'⟩ := p'
  cases array' with
  | null | zeroSize => rfl
  | block b =>
    have hne : ¬ (array = .block b ∧ elem = elem') := by
      rintro ⟨rfl, rfl⟩
      exact h rfl
    simp only [loadArgs, storeArgs, if_neg hne]

/-- Only the memory for arguments matters when they are read. -/
lemma loadArgs_congr {k k' : Kernel} (h : k'.args = k.args) (p : ArgsPtr) :
    k'.loadArgs p = k.loadArgs p := by
  simp only [loadArgs, h]

/-- One more live block with the given bytes, in which no worker arguments have been stored. -/
def withBlock (k : Kernel) (b : Block) (bytes : List UInt8) : Kernel :=
  { k.clear b with mem := Function.update k.mem b bytes, live := b :: k.live }

@[simp] lemma withBlock_mem_self (k : Kernel) (b : Block) (x : List UInt8) :
    (k.withBlock b x).mem b = x := by
  simp [withBlock]

/-- Filling a new block replaces its first bytes. -/
@[simp] lemma setMem_withBlock (k : Kernel) (b : Block) (x y : List UInt8) :
    (k.withBlock b x).setMem b y = k.withBlock b y := by
  simp [withBlock, setMem]

/-- Freeing a block that was just allocated restores the live blocks. -/
@[simp] lemma kfree_withBlock (k : Kernel) (b : Block) (x : List UInt8) :
    (k.withBlock b x).kfree (.block b) = k.clear b := by
  simp [kfree, withBlock, clear]

/-- Opening a file and allocating a block do not interfere. -/
lemma withBlock_opened (k : Kernel) (f : OpenFile) (b : Block) (x : List UInt8) :
    (k.opened f).withBlock b x = (k.withBlock b x).opened f := rfl

/-- Store bytes at the start of the block a pointer leads to. -/
def fill (k : Kernel) (p : Ptr) (bytes : List UInt8) : Kernel :=
  match p with
  | .block b => k.setMem b (bytes ++ (k.mem b).drop bytes.length)
  | _ => k

/-- Store one byte. -/
def storeByte (k : Kernel) (p : Ptr) (idx : ℕ) (v : UInt8) : Kernel :=
  match p with
  | .block b => k.setMem b ((k.mem b).set idx v)
  | _ => k

/-- Storing a byte changes nothing but bytes. -/
lemma storeByte_eq (k : Kernel) (p : Ptr) (idx : ℕ) (v : UInt8) :
    k.storeByte p idx v = { k with mem := (k.storeByte p idx v).mem } := by
  cases p <;> rfl

/-- Storing a byte keeps the sizes of the blocks. -/
lemma length_storeByte (k : Kernel) (p : Ptr) (idx : ℕ) (v : UInt8) (b : Block) :
    ((k.storeByte p idx v).mem b).length = (k.mem b).length := by
  cases p with
  | null | zeroSize => rfl
  | block b' =>
    rcases eq_or_ne b b' with rfl | hne
    · simp [storeByte, setMem]
    · simp [storeByte, setMem, hne]

lemma storeByte_fs (k : Kernel) (p : Ptr) (idx : ℕ) (v : UInt8) :
    (k.storeByte p idx v).fs = k.fs := by
  rw [storeByte_eq]

lemma storeByte_args (k : Kernel) (p : Ptr) (idx : ℕ) (v : UInt8) :
    (k.storeByte p idx v).args = k.args := by
  rw [storeByte_eq]

lemma storeByte_holder (k : Kernel) (p : Ptr) (idx : ℕ) (v : UInt8) :
    (k.storeByte p idx v).holder = k.holder := by
  rw [storeByte_eq]

/-- The content of the file at a path. -/
def contents (k : Kernel) (p : Path) : List UInt8 :=
  match k.fs p with
  | none => []
  | some f => f.bytes

end Kernel

namespace Call

variable (c : Call)

/-- `n` bytes of user memory, if all of them are readable. -/
def userBytes (src n : ℕ) : Option (List UInt8) :=
  (List.range n).mapM fun i => c.env.userMem (src + i)

/-- The path in a buffer on the kernel stack; an unterminated one runs on behind the buffer. -/
def pathAt (site : Site) (filename : List UInt8) : Path :=
  cString (filename ++ c.env.stack site)

/-- The block that the call allocates at a site. -/
def blockAt (site : Site) : Block := ⟨c.task, site⟩

/-- Opening a file. -/
def filpOpen (site : Site) (filename : List UInt8) (mode : OpenMode) (k : Kernel) :
    Except Errno OpenFile × Kernel :=
  let path := c.pathAt site filename
  let file : OpenFile := ⟨c.task, site, path⟩
  match c.env.openError site with
  | some e => (.error e, k)
  | none =>
    match k.fs path, mode with
    | some _, _ => (.ok file, k.opened file)
    | none, .readOnly => (.error .enoent, k)
    | none, .writeCreate => (.ok file, (k.setFile path .empty).opened file)

/-- Allocating memory. -/
def kmalloc (site : Site) (size : ℕ) (k : Kernel) : Ptr × Kernel :=
  if size = 0 then (.zeroSize, k)
  else if c.env.allocates site then
    (.block (c.blockAt site),
      k.withBlock (c.blockAt site) ((List.range size).map (c.env.junk site)))
  else (.null, k)

/-- Reading the start of a file into a buffer. -/
def kernelRead (file : OpenFile) (buf : Ptr) (count : ℕ) (k : Kernel) : ℤ × Kernel :=
  match c.env.readResult file.site with
  | .error e => (e.ret, k)
  | .ok m =>
    let got := (k.contents file.path).take (min m count)
    (got.length, k.fill buf got)

/-- Writing a buffer to the start of a file. -/
def kernelWrite (file : OpenFile) (buf : Ptr) (count : ℕ) (k : Kernel) : ℤ × Kernel :=
  match c.env.writeResult with
  | .error e => (e.ret, k)
  | .ok m =>
    let put := (k.bytesAt buf).take (min m count)
    match k.fs file.path with
    | none => (put.length, k)
    | some f => (put.length, k.setFile file.path (f.overwrite put))

/-- The handler of the kernel functions. -/
def exec : Handler Op Op.Res Kernel
  | .copyFromUser src n, k => (c.userBytes src n, k)
  | .filpOpen site filename mode, k => c.filpOpen site filename mode k
  | .iSizeRead file, k => ((k.contents file.path).length, k)
  | .kmalloc site size, k => c.kmalloc site size k
  | .kernelRead file buf count, k => c.kernelRead file buf count k
  | .kernelWrite file buf count, k => c.kernelWrite file buf count k
  | .storeByte buf idx v, k => ((), k.storeByte buf idx v)
  | .filpClose file, k => ((), k.filpClose file)
  | .kfree p, k => ((), k.kfree p)
  | .printk e, k => ((), k.printk e)

end Call

/-- A request that is granted yields a block of junk. -/
lemma Call.kmalloc_of_allocates (c : Call) {site : Site} {size : ℕ} (k : Kernel)
    (hsize : 0 < size) (h : c.env.allocates site = true) :
    c.kmalloc site size k = (.block (c.blockAt site),
      k.withBlock (c.blockAt site) ((List.range size).map (c.env.junk site))) := by
  rw [kmalloc, if_neg hsize.ne', if_pos h]

/-- A request that is refused yields `NULL`. -/
lemma Call.kmalloc_of_not_allocates (c : Call) {site : Site} {size : ℕ} (k : Kernel)
    (hsize : 0 < size) (h : ¬ c.env.allocates site = true) :
    c.kmalloc site size k = (.null, k) := by
  rw [kmalloc, if_neg hsize.ne', if_neg h]

/-! ## Evaluation of single operations -/

section Eval

variable (c : Call) (k : Kernel)

@[simp] lemma eval_copyFromUser (src n : ℕ) :
    (copyFromUser src n).eval c.exec k = (c.userBytes src n, k) := rfl

@[simp] lemma eval_filpOpen (site : Site) (filename : List UInt8) (mode : OpenMode) :
    (filpOpen site filename mode).eval c.exec k = c.filpOpen site filename mode k := rfl

@[simp] lemma eval_iSizeRead (file : OpenFile) :
    (iSizeRead file).eval c.exec k = ((k.contents file.path).length, k) := rfl

@[simp] lemma eval_kmalloc (site : Site) (size : ℕ) :
    (kmalloc site size).eval c.exec k = c.kmalloc site size k := rfl

@[simp] lemma eval_kernelRead (file : OpenFile) (buf : Ptr) (count : ℕ) :
    (kernelRead file buf count).eval c.exec k = c.kernelRead file buf count k := rfl

@[simp] lemma eval_kernelWrite (file : OpenFile) (buf : Ptr) (count : ℕ) :
    (kernelWrite file buf count).eval c.exec k = c.kernelWrite file buf count k := rfl

@[simp] lemma eval_storeByte (buf : Ptr) (idx : ℕ) (v : UInt8) :
    (storeByte buf idx v).eval c.exec k = ((), k.storeByte buf idx v) := rfl

@[simp] lemma eval_filpClose (file : OpenFile) :
    (filpClose file).eval c.exec k = ((), k.filpClose file) := rfl

@[simp] lemma eval_kfree (p : Ptr) : (kfree p).eval c.exec k = ((), k.kfree p) := rfl

@[simp] lemma eval_printk (e : LogEntry) : (printk e).eval c.exec k = ((), k.printk e) := rfl

end Eval

end XorSyscalls
