import XorSyscalls.Syscall.PrivateState
import XorSyscalls.Syscall.ThreadCount

/-!
# The path arguments

The system calls copy 256 bytes from each of their three path pointers, whatever the length of the
string there.  So a string that is followed by unreadable memory is refused although it could be
read, and 256 readable bytes without a `NUL` are accepted as a path although it does not end in the
buffer.  `decodes_paths_iff` says that nothing else can go wrong: the paths are decoded faithfully
iff the three strings are readable exactly when all three times 256 bytes are.
-/

namespace XorSyscalls

open TransitionSystem

/-! ## Strings in user memory -/

/-- If every element of a list has an image, so has the list. -/
lemma exists_mapM_eq_some {α β : Type} {f : α → Option β} {l : List α}
    (h : ∀ a ∈ l, ∃ b, f a = some b) : ∃ l', l.mapM f = some l' := by
  induction l with
  | nil => exact ⟨[], rfl⟩
  | cons a l ih =>
    obtain ⟨b, hb⟩ := h a (List.mem_cons_self ..)
    obtain ⟨l', hl'⟩ := ih fun a' ha' => h a' (List.mem_cons_of_mem _ ha')
    exact ⟨b :: l', by simp [List.mapM_cons, hb, hl']⟩

/-- The images stand in the places of the elements. -/
lemma getElem?_of_mapM {α β : Type} {f : α → Option β} {l : List α} {l' : List β}
    (h : l.mapM f = some l') : l'.length = l.length ∧ ∀ i : ℕ, l'[i]? = (l[i]?).bind f := by
  induction l generalizing l' with
  | nil =>
    cases h
    exact ⟨rfl, fun _ => rfl⟩
  | cons a l ih =>
    rw [List.mapM_cons] at h
    obtain ⟨b, hb, h⟩ := Option.bind_eq_some_iff.mp h
    obtain ⟨l₁, hl₁, h⟩ := Option.bind_eq_some_iff.mp h
    obtain rfl := Option.some_inj.mp h
    obtain ⟨hlen, hget⟩ := ih hl₁
    refine ⟨congrArg Nat.succ hlen, fun i => ?_⟩
    cases i with
    | zero => exact hb.symm
    | succ i => exact hget i

namespace Call

variable (c : Call)

/-- The pointers to the three paths. -/
def pathArgs : List ℕ := [c.args.srcFile, c.args.destFile, c.args.keyFilepath]

/-- The pointer to the path of the file opened at a site. -/
def pathPtr : Site → Option ℕ
  | .data => some c.args.srcFile
  | .key => some c.args.keyFilepath
  | .out => some c.args.destFile
  | .workers | .workerArgs => none

/-- The pointer `src` leads to the string `str`: its bytes and the `NUL` behind it are readable and
number at most 256. -/
structure StringAt (src : ℕ) (str : List UInt8) : Prop where
  length_lt : str.length < 256
  ne_zero : 0 ∉ str
  bytes : ∀ i < str.length, c.env.userMem (src + i) = str[i]?
  terminated : c.env.userMem (src + str.length) = some 0

/-- All of the 256 bytes at `src` are readable. -/
def Readable (src : ℕ) : Prop := ∀ i < 256, c.env.userMem (src + i) ≠ none

/-- None of the 256 bytes at `src` is `NUL`. -/
def Unterminated (src : ℕ) : Prop := ∀ i < 256, c.env.userMem (src + i) ≠ some 0

variable {c} {src : ℕ} {bytes str : List UInt8}

/-- The bytes copied from user memory. -/
lemma getElem?_userBytes {n : ℕ} (h : c.userBytes src n = some bytes) {i : ℕ} (hi : i < n) :
    bytes[i]? = c.env.userMem (src + i) := by
  rw [(getElem?_of_mapM h).2, List.getElem?_range hi, Option.bind_some]

lemma length_userBytes {n : ℕ} (h : c.userBytes src n = some bytes) : bytes.length = n :=
  (getElem?_of_mapM h).1.trans List.length_range

/-- Exactly readable bytes can be copied. -/
lemma exists_userBytes_iff : (∃ bytes, c.userBytes src 256 = some bytes) ↔ c.Readable src := by
  constructor
  · rintro ⟨bytes, h⟩ i hi
    have hlen := length_userBytes h
    rw [← getElem?_userBytes h hi, List.getElem?_eq_getElem (by omega)]
    simp
  · intro h
    apply exists_mapM_eq_some
    intro i hi
    exact Option.ne_none_iff_exists'.mp (h i (List.mem_range.mp hi))

/-- Copied bytes with a `NUL` among them are a string followed by the `NUL`. -/
lemma stringAt_of_userBytes (h : c.userBytes src 256 = some bytes) (hmem : 0 ∈ bytes)
    (rest : List UInt8) : c.StringAt src (cString (bytes ++ rest)) := by
  have hlen := length_userBytes h
  obtain ⟨str, tail, rfl, hstr⟩ := List.eq_append_cons_of_mem hmem
  have hstring : cString (str ++ 0 :: tail ++ rest) = str := by
    rw [cString, List.append_assoc, List.takeWhile_append_of_pos]
    · simp
    · intro b hb
      simpa using fun hzero : b = 0 => hstr (hzero ▸ hb)
  rw [List.length_append, List.length_cons] at hlen
  rw [hstring]
  refine ⟨by omega, hstr, fun i hi => ?_, ?_⟩
  · rw [← getElem?_userBytes h (by omega), List.getElem?_append_left hi]
  · rw [← getElem?_userBytes h (by omega), List.getElem?_append_right le_rfl]
    simp

/-- The `NUL` of a string is among the bytes copied. -/
lemma StringAt.zero_mem (hstr : c.StringAt src str) (h : c.userBytes src 256 = some bytes) :
    0 ∈ bytes := by
  have hzero := hstr.terminated
  rw [← getElem?_userBytes h hstr.length_lt] at hzero
  exact List.mem_of_getElem? hzero

/-- A string is terminated. -/
lemma StringAt.not_unterminated (hstr : c.StringAt src str) : ¬ c.Unterminated src :=
  fun h => h str.length hstr.length_lt hstr.terminated

/-- Readable memory with a `NUL` holds a string. -/
lemma exists_stringAt (hread : c.Readable src) (h : ¬ c.Unterminated src) :
    ∃ str, c.StringAt src str := by
  obtain ⟨bytes, hbytes⟩ := exists_userBytes_iff.mpr hread
  simp only [Unterminated, not_forall, not_not] at h
  obtain ⟨i, hi, hzero⟩ := h
  rw [← getElem?_userBytes hbytes hi] at hzero
  exact ⟨_, stringAt_of_userBytes hbytes (List.mem_of_getElem? hzero) []⟩

/-- The name opened at a site was copied from its pointer. -/
lemma Copied.exists_pathPtr {site : Site} {filename : List UInt8} (h : c.Copied site filename) :
    ∃ src ∈ c.pathArgs, c.pathPtr site = some src ∧ c.userBytes src 256 = some filename := by
  cases site with
  | data => exact ⟨c.args.srcFile, by simp [pathArgs], rfl, h⟩
  | key => exact ⟨c.args.keyFilepath, by simp [pathArgs], rfl, h⟩
  | out => exact ⟨c.args.destFile, by simp [pathArgs], rfl, h⟩
  | workers | workerArgs => exact h.elim

end Call

/-! ## Opening files -/

/-- The call is about to open the file with the given name. -/
def Caller.OpensNext (caller : Caller) (site : Site) (filename : List UInt8) : Prop :=
  (∃ mode next, caller = .entry (.call (.filpOpen site filename mode) next)) ∨
    ∃ q mode next, caller = .save q (.call (.filpOpen site filename mode) next)

/-- Only names copied from user memory are opened. -/
lemma State.Sound.copied {c : Call} {s : State} (h : s.Sound c) {site : Site}
    {filename : List UInt8} (hopen : s.caller.OpensNext site filename) :
    c.Copied site filename := by
  have hcaller := h.caller
  rcases hopen with ⟨mode, next, hpc⟩ | ⟨q, mode, next, hpc⟩
  · rw [hpc] at hcaller
    exact hcaller.1.1
  · rw [hpc] at hcaller
    exact hcaller.2.1.1

/-- The operation is `copy_from_user`. -/
def Op.IsCopy : Op → Prop
  | .copyFromUser _ _ => True
  | _ => False

/-- The call copies its paths and then returns `-EFAULT`. -/
def State.Copying (c : Call) (s : State) : Prop :=
  s.workers = [] ∧ ((∃ p, s.caller = .entry p ∧
    p.Meets Op.IsCopy c.Answers (· = .error Errno.efault.ret)) ∨
      s.caller = .returned Errno.efault.ret)

section Run

variable {d : Syscall} {c : Call} {k₀ : Kernel} {acts : List Act} {s s' : State}

/-- All states of a run are in order. -/
lemma Syscall.sound_of_run (hrun : d.Run c k₀ acts s) : s.Sound c :=
  run_invariant (State.Sound.start d c k₀) (fun _ _ _ h hstep => h.step hstep) hrun

/-- If a path cannot be copied, the code in front of the division does nothing else. -/
lemma prepare_meets_of_unreadable (d : Syscall) (h : ¬ ∀ src ∈ c.pathArgs, c.Readable src) :
    (prepare d c.args).Meets Op.IsCopy c.Answers (· = .error Errno.efault.ret) := by
  have hnone : ∀ {src}, (∃ bytes, c.userBytes src 256 = some bytes) → c.Readable src :=
    Call.exists_userBytes_iff.mp
  refine Program.meets_perform_bind.mpr ⟨trivial, fun src hsrc => ?_⟩
  cases src with
  | none => exact rfl
  | some srcFile =>
  refine Program.meets_perform_bind.mpr ⟨trivial, fun dest hdest => ?_⟩
  cases dest with
  | none => exact rfl
  | some destFile =>
  refine Program.meets_perform_bind.mpr ⟨trivial, fun key hkey => ?_⟩
  cases key with
  | none => exact rfl
  | some keyFile =>
  exfalso
  apply h
  simp only [Call.pathArgs, List.forall_mem_cons, List.not_mem_nil, false_imp_iff, implies_true,
    and_true]
  exact ⟨hnone ⟨_, hsrc.symm⟩, hnone ⟨_, hdest.symm⟩, hnone ⟨_, hkey.symm⟩⟩

/-- Every step keeps to this. -/
lemma State.Copying.step (h : s.Copying c) {a : Act} (hstep : d.step c s a = some s') :
    s'.Copying c := by
  obtain ⟨hws, hcaller⟩ := h
  cases Syscall.move_of_step hstep with
  | worker ha hw hmove => simp [hws] at hw
  | entryCall hpc =>
    rcases hcaller with ⟨p, hpc', hp⟩ | hpc'
    · cases hpc.symm.trans hpc'
      exact ⟨hws, Or.inl ⟨_, rfl, hp.2 _ (c.exec_answers _ _)⟩⟩
    · cases hpc.symm.trans hpc'
  | entryError hpc =>
    rcases hcaller with ⟨p, hpc', hp⟩ | hpc'
    · cases hpc.symm.trans hpc'
      obtain rfl := Except.error.inj hp
      exact ⟨hws, Or.inr rfl⟩
    · cases hpc.symm.trans hpc'
  | entryDone hpc =>
    rcases hcaller with ⟨p, hpc', hp⟩ | hpc'
    · cases hpc.symm.trans hpc'
      cases hp
    · cases hpc.symm.trans hpc'
  | divideError hpc | divide hpc | create hpc | createError hpc | createDone hpc | stop hpc
  | stopDone hpc | wait hpc | saveCall hpc | saveDone hpc | free hpc | finish hpc =>
    rcases hcaller with ⟨p, hpc', -⟩ | hpc' <;> cases hpc.symm.trans hpc'

/-- So the whole run keeps to this. -/
lemma copying_of_run (h : ¬ ∀ src ∈ c.pathArgs, c.Readable src) (hrun : d.Run c k₀ acts s) :
    s.Copying c :=
  run_invariant (I := State.Copying c)
    ⟨rfl, Or.inl ⟨_, State.start_caller d c k₀, prepare_meets_of_unreadable d h⟩⟩
    (fun _ _ _ h hstep => h.step hstep) hrun

/-- Then no file is opened. -/
lemma State.Copying.not_opensNext (h : s.Copying c) (site : Site) (filename : List UInt8) :
    ¬ s.caller.OpensNext site filename := by
  obtain ⟨-, hcaller⟩ := h
  rintro (⟨mode, next, hpc⟩ | ⟨q, mode, next, hpc⟩)
  · rcases hcaller with ⟨p, hpc', hp⟩ | hpc'
    · cases hpc.symm.trans hpc'
      exact hp.1
    · cases hpc.symm.trans hpc'
  · rcases hcaller with ⟨p, hpc', hp⟩ | hpc' <;> cases hpc.symm.trans hpc'

/-- The code in front of the division returns `-EFAULT` if a path cannot be copied. -/
lemma eval_prepare_of_unreadable (d : Syscall) (h : ¬ ∀ src ∈ c.pathArgs, c.Readable src)
    (k : Kernel) : ((prepare d c.args).eval c.exec k).1 = .error Errno.efault.ret :=
  (prepare_meets_of_unreadable d h).eval c.exec_answers k

/-- Such a call fails. -/
lemma fails_of_unreadable (d : Syscall) (h : ¬ ∀ src ∈ c.pathArgs, c.Readable src) :
    d.Fails c k₀ := by
  have heval := eval_prepare_of_unreadable d h k₀
  rcases eval_prepare d c k₀ with ⟨e, k, herr, hfs⟩ | ⟨inp, -, hok⟩
  · exact fails_of_eval_prepare (fun _ _ hrun => (copying_of_run h hrun).1) herr hfs
  · rw [hok] at heval
    cases heval

/-- It can get to the point where it returns `-EFAULT`. -/
lemma exists_run_efault (d : Syscall) (k₀ : Kernel) (h : ¬ ∀ src ∈ c.pathArgs, c.Readable src) :
    ∃ acts s, d.Run c k₀ acts s ∧ s.caller = .entry (.ret (.error Errno.efault.ret)) := by
  obtain ⟨acts, hacts⟩ := reaches_entry (d := d) _ (State.start_caller d c k₀)
  exact ⟨acts, _, hacts, congrArg (fun r => Caller.entry (.ret r))
    (eval_prepare_of_unreadable d h k₀)⟩

/-- Copying readable bytes. -/
lemma reaches_copy {src n : ℕ} {bytes : List UInt8}
    {next : Option (List UInt8) → KProgram (Except ℤ Prepared)}
    (hpc : s.caller = .entry (.call (.copyFromUser src n) next))
    (h : c.userBytes src n = some bytes) :
    Reaches (d.step c) s { s with caller := .entry (next (some bytes)) } := by
  refine Reaches.single .caller ?_
  rw [d.step_caller, callerStep, hpc]
  simp only [Call.exec, h]

/-- If all paths can be copied, the input file is opened. -/
lemma exists_run_opensNext (d : Syscall) (k₀ : Kernel) (h : ∀ src ∈ c.pathArgs, c.Readable src) :
    ∃ acts s filename, d.Run c k₀ acts s ∧ s.caller.OpensNext .data filename := by
  obtain ⟨srcFile, hsrc⟩ :=
    Call.exists_userBytes_iff.mpr (h c.args.srcFile (by simp [Call.pathArgs]))
  obtain ⟨destFile, hdest⟩ :=
    Call.exists_userBytes_iff.mpr (h c.args.destFile (by simp [Call.pathArgs]))
  obtain ⟨keyFile, hkey⟩ :=
    Call.exists_userBytes_iff.mpr (h c.args.keyFilepath (by simp [Call.pathArgs]))
  have hcopies := (reaches_copy (d := d) (State.start_caller d c k₀) hsrc).trans
    ((reaches_copy rfl hdest).trans (reaches_copy rfl hkey))
  obtain ⟨acts, hacts⟩ := hcopies
  refine ⟨acts, _, srcFile, hacts, Or.inl ⟨.readOnly, ?_⟩⟩
  cases d <;> exact ⟨_, rfl⟩

end Run

/-- The paths are decoded faithfully.  If each of the three pointers leads to a string, the call
does not return `-EFAULT` in front of the division, and each `filp_open` is given the string of its
pointer.  If one of them does not lead to a `NUL` within 256 bytes, the call fails and opens no
file. -/
structure Syscall.DecodesPaths (d : Syscall) (c : Call) (k₀ : Kernel) : Prop where
  accepts : (∀ src ∈ c.pathArgs, ∃ str, c.StringAt src str) → ∀ acts s, d.Run c k₀ acts s →
    s.caller ≠ .entry (.ret (.error Errno.efault.ret)) ∧
      ∀ site filename, s.caller.OpensNext site filename →
        ∃ src, c.pathPtr site = some src ∧ c.StringAt src (c.pathAt site filename)
  refuses : (∃ src ∈ c.pathArgs, c.Unterminated src) → d.Fails c k₀ ∧
    ∀ acts s, d.Run c k₀ acts s → ∀ site filename, ¬ s.caller.OpensNext site filename

/-- The paths are decoded faithfully iff the three pointers lead to strings exactly if all of the
three times 256 bytes are readable. -/
theorem decodes_paths_iff (d : Syscall) (c : Call) (k₀ : Kernel) :
    d.DecodesPaths c k₀ ↔
      ((∀ src ∈ c.pathArgs, ∃ str, c.StringAt src str) ↔ ∀ src ∈ c.pathArgs, c.Readable src) := by
  constructor
  · intro h
    constructor
    · intro hstrings
      by_contra hread
      obtain ⟨acts, s, hrun, hpc⟩ := exists_run_efault d k₀ hread
      exact (h.accepts hstrings acts s hrun).1 hpc
    · intro hread src hsrc
      by_contra hstring
      have hunterminated : c.Unterminated src := by
        by_contra hno
        exact hstring (Call.exists_stringAt (hread src hsrc) hno)
      obtain ⟨acts, s, filename, hrun, hopen⟩ := exists_run_opensNext d k₀ hread
      exact (h.refuses ⟨src, hsrc, hunterminated⟩).2 acts s hrun .data filename hopen
  · intro hiff
    constructor
    · intro hstrings acts s hrun
      have hsound := Syscall.sound_of_run hrun
      constructor
      · intro hpc
        have houtcome := hsound.caller
        rw [hpc] at houtcome
        have hread : ∀ src ∈ c.pathArgs, c.userBytes src 256 ≠ none := fun src hsrc => by
          obtain ⟨bytes, hbytes⟩ := Call.exists_userBytes_iff.mpr (hiff.mp hstrings src hsrc)
          simp [hbytes]
        rcases houtcome rfl with hnone | hnone | hnone
        · exact hread _ (by simp [Call.pathArgs]) hnone
        · exact hread _ (by simp [Call.pathArgs]) hnone
        · exact hread _ (by simp [Call.pathArgs]) hnone
      · intro site filename hopen
        obtain ⟨src, hsrc, hptr, hbytes⟩ := (hsound.copied hopen).exists_pathPtr
        obtain ⟨str, hstr⟩ := hstrings src hsrc
        exact ⟨src, hptr, Call.stringAt_of_userBytes hbytes (hstr.zero_mem hbytes) _⟩
    · rintro ⟨src, hsrc, hunterminated⟩
      have hread : ¬ ∀ src ∈ c.pathArgs, c.Readable src := by
        intro hread
        obtain ⟨str, hstr⟩ := hiff.mpr hread src hsrc
        exact hstr.not_unterminated hunterminated
      exact ⟨fails_of_unreadable d hread, fun acts s hrun site filename =>
        (copying_of_run hread hrun).not_opensNext site filename⟩

/-- The small call in an address space that ends behind the path of the key. -/
def keyAtEnd : Call :=
  { sampleCall 1 with env :=
    { sampleEnv with userMem := fun addr => if addr < 514 then sampleMem addr else none } }

/-- Its three strings are readable, and it returns `-EFAULT`. -/
theorem readable_path_refused :
    keyAtEnd.StringAt 0 [97] ∧ keyAtEnd.StringAt 256 [98] ∧ keyAtEnd.StringAt 512 [107] ∧
      keyAtEnd.pathArgs = [0, 256, 512] ∧
      ∃ s, Syscall.encrypt.Run keyAtEnd (.idle sampleFiles) (List.replicate 4 .caller) s ∧
        s.caller = .returned Errno.efault.ret := by
  have hout : (run (Syscall.encrypt.step keyAtEnd)
      (.start .encrypt keyAtEnd (.idle sampleFiles)) (List.replicate 4 .caller)).map
        (fun s => s.caller.result) = some (some Errno.efault.ret) := by
    decide +kernel
  obtain ⟨s, hrun, hs⟩ := Option.map_eq_some_iff.mp hout
  exact ⟨⟨by decide, by decide, by decide, rfl⟩, ⟨by decide, by decide, by decide, rfl⟩,
    ⟨by decide, by decide, by decide, rfl⟩, rfl, s, hrun, Caller.eq_returned hs⟩

end XorSyscalls
