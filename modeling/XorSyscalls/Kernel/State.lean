import Mathlib.Logic.Function.Basic
import Mathlib.Data.Int.Notation
import Mathlib.Tactic.Linarith

/-!
# The kernel state seen by the XOR system calls

The part of the Linux kernel that `my_encrypt.c` and `my_decrypt.c` work on: the files with their
contents, the `kmalloc` heap, the open `struct file`s, the two global mutexes and the kernel log.

Files are byte strings whose length fits a non-negative `loff_t`; the bound is a field of `File`,
so every size read from an inode is a valid `size_t`.  A heap block is named by the task of the
call that allocated it and by the place in the code of the allocation (`Site`).  Each of these
places is passed at most once in a call, so the name is unambiguous and does not depend on what
other calls allocate meanwhile.

A block holds bytes, and the array of worker arguments also holds records (`WorkerArgs`).  What a
freed block held is gone: its memory may be given to anybody, and who still uses it finds anything
there.
-/

namespace XorSyscalls

/-- A kernel error number, between `1` and `MAX_ERRNO`. -/
structure Errno where
  /-- The number itself, without sign. -/
  code : ℕ
  code_pos : 0 < code
  code_le : code ≤ 4095
  deriving DecidableEq

namespace Errno

/-- `ENOENT` -/
def enoent : Errno := ⟨2, by decide, by decide⟩

/-- `EINTR` -/
def eintr : Errno := ⟨4, by decide, by decide⟩

/-- `EIO` -/
def eio : Errno := ⟨5, by decide, by decide⟩

/-- `ENOMEM` -/
def enomem : Errno := ⟨12, by decide, by decide⟩

/-- `EFAULT` -/
def efault : Errno := ⟨14, by decide, by decide⟩

/-- The value `-errno` that a kernel function returns. -/
def ret (e : Errno) : ℤ := -(e.code : ℤ)

/-- An error is returned as a negative number. -/
lemma ret_neg (e : Errno) : e.ret < 0 := by
  have := e.code_pos
  unfold ret
  omega

/-- An error is never the success value `0`. -/
lemma ret_ne_zero (e : Errno) : e.ret ≠ 0 := e.ret_neg.ne

end Errno

/-! ## Files -/

/-- A path as `filp_open` sees it: the bytes of a C string without its terminator. -/
abbrev Path := List UInt8

/-- The largest size of a file, `MAX_LFS_FILESIZE`. -/
def maxFileSize : ℕ := 2 ^ 63 - 1

/-- A regular file. -/
@[ext] structure File where
  /-- The content. -/
  bytes : List UInt8
  size_le : bytes.length ≤ maxFileSize
  deriving DecidableEq

/-- The size kept in the inode. -/
def File.size (f : File) : ℕ := f.bytes.length

/-- A new file. -/
def File.empty : File := ⟨[], Nat.zero_le _⟩

/-- Writing `b` at offset `0`: the bytes behind the written ones stay, and the file does not grow
beyond the largest size. -/
def File.overwrite (f : File) (b : List UInt8) : File :=
  ⟨(b ++ f.bytes.drop b.length).take maxFileSize, List.length_take_le _ _⟩

/-- Below the size limit an overwritten file starts with the new bytes and keeps its old tail. -/
lemma File.bytes_overwrite (f : File) {b : List UInt8} (hb : b.length ≤ maxFileSize) :
    (f.overwrite b).bytes = b ++ f.bytes.drop b.length := by
  refine List.take_of_length_le ?_
  have := f.size_le
  rw [List.length_append, List.length_drop]
  omega

/-- The old bytes are all gone iff there were no more of them than new ones. -/
lemma File.bytes_overwrite_eq_iff (f : File) {b : List UInt8} (hb : b.length ≤ maxFileSize) :
    (f.overwrite b).bytes = b ↔ f.size ≤ b.length := by
  rw [f.bytes_overwrite hb, List.append_right_eq_self, List.drop_eq_nil_iff]
  rfl

/-- A file system maps the existing paths to their files. -/
abbrev FileSystem := Path → Option File

/-! ## Heap, open files, mutexes and log -/

/-- The places in the code of a call where it opens a file or allocates memory. -/
inductive Site
  /-- The input file and its buffer. -/
  | data
  /-- The key file and its buffer. -/
  | key
  /-- The output file. -/
  | out
  /-- The array of `struct task_struct *`. -/
  | workers
  /-- The array of worker arguments. -/
  | workerArgs
  deriving DecidableEq

/-- A heap block: the calling task and the place of the allocation. -/
structure Block where
  task : ℕ
  site : Site
  deriving DecidableEq

/-- A pointer returned by `kmalloc`. -/
inductive Ptr
  /-- `NULL` -/
  | null
  /-- `ZERO_SIZE_PTR`, the answer to a request for no bytes. -/
  | zeroSize
  /-- The address of a block. -/
  | block (b : Block)
  deriving DecidableEq

/-- `worker_args_t` of `my_encrypt.c`. -/
structure WorkerArgs where
  inputData : Ptr
  cipherKey : Ptr
  rangeStart : ℕ
  rangeEnd : ℕ
  keyLength : ℕ
  deriving DecidableEq

/-- The address of an element of an array of worker arguments, `&worker_args[i]`. -/
structure ArgsPtr where
  array : Ptr
  elem : ℕ
  deriving DecidableEq

/-- An open `struct file`. -/
structure OpenFile where
  task : ℕ
  site : Site
  path : Path
  deriving DecidableEq

/-- The global mutexes, `sync_lock` of `my_encrypt.c` and `decrypt_mutex` of `my_decrypt.c`. -/
inductive Mutex
  | syncLock
  | decryptMutex
  deriving DecidableEq

/-- The severity of a log message. -/
inductive LogLevel
  | kernErr
  | kernInfo
  deriving DecidableEq

/-- An argument of a log message. -/
inductive LogArg
  | int (z : ℤ)
  | str (s : List UInt8)
  deriving DecidableEq

/-- A call of `printk`: the severity, the format and its arguments. -/
structure LogEntry where
  level : LogLevel
  format : String
  args : List LogArg
  deriving DecidableEq

/-- A misuse of memory or of an open file. -/
inductive Misuse
  | doubleFree (b : Block)
  | doubleClose (f : OpenFile)
  | useAfterFree (b : Block)
  deriving DecidableEq

/-- The kernel state. -/
structure Kernel where
  /-- The files. -/
  fs : FileSystem
  /-- The bytes of the heap blocks. -/
  mem : Block → List UInt8
  /-- The elements of the arrays of worker arguments, `none` where nothing was stored. -/
  args : Block → ℕ → Option WorkerArgs
  /-- The allocated blocks. -/
  live : List Block
  /-- The open files. -/
  files : List OpenFile
  /-- The holder of each mutex: a task and the number of one of its workers. -/
  holder : Mutex → Option (ℕ × ℕ)
  /-- The kernel log, latest message first. -/
  log : List LogEntry
  /-- The misuses so far, latest first. -/
  misuses : List Misuse

namespace Kernel

/-- A kernel at rest with the files `fs`: nothing allocated or open, both mutexes free. -/
def idle (fs : FileSystem) : Kernel :=
  { fs, mem := fun _ => [], args := fun _ _ => none, live := [], files := [],
    holder := fun _ => none, log := [], misuses := [] }

/-- Replace the bytes of a block. -/
def setMem (k : Kernel) (b : Block) (bytes : List UInt8) : Kernel :=
  { k with mem := Function.update k.mem b bytes }

/-- Replace the file at a path. -/
def setFile (k : Kernel) (p : Path) (f : File) : Kernel :=
  { k with fs := Function.update k.fs p (some f) }

/-- Set or clear the holder of a mutex. -/
def setHolder (k : Kernel) (m : Mutex) (o : Option (ℕ × ℕ)) : Kernel :=
  { k with holder := Function.update k.holder m o }

/-- `printk` -/
def printk (k : Kernel) (e : LogEntry) : Kernel := { k with log := e :: k.log }

/-- The content of a block is lost. -/
def clear (k : Kernel) (b : Block) : Kernel :=
  { k with
    mem := Function.update k.mem b []
    args := Function.update k.args b fun _ => none }

/-- `kfree`: `NULL` and `ZERO_SIZE_PTR` are ignored, a block that is not live is a misuse. -/
def kfree (k : Kernel) : Ptr → Kernel
  | .null => k
  | .zeroSize => k
  | .block b =>
    if b ∈ k.live then { k.clear b with live := k.live.erase b }
    else { k.clear b with misuses := .doubleFree b :: k.misuses }

/-- One more open file. -/
def opened (k : Kernel) (f : OpenFile) : Kernel := { k with files := f :: k.files }

/-- `filp_close` -/
def filpClose (k : Kernel) (f : OpenFile) : Kernel :=
  if f ∈ k.files then { k with files := k.files.erase f }
  else { k with misuses := .doubleClose f :: k.misuses }

/-- The part of the kernel state without the records of what is allocated, open and logged. -/
def core (k : Kernel) :
    FileSystem × (Block → List UInt8) × (Block → ℕ → Option WorkerArgs) ×
      (Mutex → Option (ℕ × ℕ)) :=
  (k.fs, k.mem, k.args, k.holder)

/-- Apart from the records `kfree` only touches the content of the block. -/
lemma core_kfree_block (k : Kernel) (b : Block) : (k.kfree (.block b)).core = (k.clear b).core := by
  rw [kfree]
  split <;> rfl

/-- Closing a file only changes the records. -/
lemma core_filpClose (k : Kernel) (f : OpenFile) : (k.filpClose f).core = k.core := by
  rw [filpClose]
  split <;> rfl

@[simp] lemma kfree_fs (k : Kernel) (p : Ptr) : (k.kfree p).fs = k.fs := by
  cases p with
  | null | zeroSize => rfl
  | block b => exact congrArg Prod.fst (k.core_kfree_block b)

lemma kfree_holder (k : Kernel) (p : Ptr) : (k.kfree p).holder = k.holder := by
  cases p with
  | null | zeroSize => rfl
  | block b => exact congrArg (fun x => x.2.2.2) (k.core_kfree_block b)

/-- Worker arguments in a block that has been freed are gone. -/
lemma kfree_args (k : Kernel) (b : Block) : (k.kfree (.block b)).args b = fun _ => none := by
  have hargs : (k.kfree (.block b)).args = (k.clear b).args :=
    congrArg (fun x => x.2.2.1) (k.core_kfree_block b)
  rw [hargs]
  exact Function.update_self ..

/-- Closing a file that was just opened restores the open files. -/
@[simp] lemma filpClose_opened (k : Kernel) (f : OpenFile) : (k.opened f).filpClose f = k := by
  simp [filpClose, opened]

/-- Logging does not touch the open files. -/
lemma printk_opened (k : Kernel) (f : OpenFile) (e : LogEntry) :
    (k.opened f).printk e = (k.printk e).opened f := rfl

/-- Writing a file does not touch the open files. -/
lemma setFile_opened (k : Kernel) (f : OpenFile) (p : Path) (g : File) :
    (k.opened f).setFile p g = (k.setFile p g).opened f := rfl

/-- A later version of a file replaces an earlier one. -/
@[simp] lemma setFile_setFile (k : Kernel) (p : Path) (f g : File) :
    (k.setFile p f).setFile p g = k.setFile p g := by
  simp [setFile]

@[simp] lemma setFile_fs_self (k : Kernel) (p : Path) (f : File) :
    (k.setFile p f).fs p = some f := by
  simp [setFile]

@[simp] lemma setMem_mem_self (k : Kernel) (b : Block) (x : List UInt8) :
    (k.setMem b x).mem b = x := by
  simp [setMem]

end Kernel

end XorSyscalls
