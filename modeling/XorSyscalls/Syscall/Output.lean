import XorSyscalls.Syscall.Buffer

/-!
# What a system call leaves in the file system

A call that returns `0` has written its buffer over the start of the destination and has touched no
other file (`Saved.fs_eq`).  From this follow three results on whole runs.

* `output_exact_iff`: the destination is exactly the cipher of the source iff it was not longer
  than the source before.  It is opened without `O_TRUNC`, so a longer one keeps its tail.
* `round_trip`: encrypting and then decrypting restores the source, also when paths coincide.
* `fs_of_error`: a call that fails leaves all files alone, except that a failed write leaves behind
  the empty destination that it created.
-/

namespace XorSyscalls

open TransitionSystem

/-- All bytes of the data `D`, of the key `K` and of the output are transferred. -/
structure Call.TransfersAll (c : Call) (D K : File) : Prop where
  data : c.transferred .data D.size = D.size
  key : c.transferred .key K.size = K.size
  out : c.written D.size = D.size

section Saved

variable {c : Call} {fs : FileSystem} {inp : Inputs c fs} {s : State}

/-- The buffer keeps the size of the data. -/
lemma length_buffer (inp : Inputs c fs) (ws : List Worker) :
    (inp.buffer ws).length = inp.data.size := by
  rw [Inputs.buffer, length_maskMap, inp.length_dataBuffer]

/-- A call that returned `0` has written the transferred part of its buffer over the start of the
destination. -/
lemma Saved.fs_eq (h : Saved inp s 0) :
    s.kernel.fs = Function.update fs (c.pathAt .out inp.destFile)
      (some (((fs (c.pathAt .out inp.destFile)).getD .empty).overwrite
        ((inp.buffer s.workers).take (c.written inp.data.size)))) :=
  ((c.saveResult_eq_zero_iff _ _ _ _ _).mp h.result).2.2

variable {src dest key : Path} {D K : File}

/-- With complete transfers the whole buffer is written. -/
lemma Saved.fs_eq_of_transfersAll (h : Saved inp s 0) (hnames : c.Names src dest key)
    (hD : fs src = some D) (hK : fs key = some K) (hall : c.TransfersAll D K) :
    s.kernel.fs = Function.update fs dest
      (some (((fs dest).getD .empty).overwrite (inp.buffer s.workers))) := by
  obtain ⟨rfl, rfl, rfl⟩ := inp.eq_of_names hnames hD hK
  have hfs := h.fs_eq
  rwa [hall.out, List.take_of_length_le (length_buffer inp s.workers).le] at hfs

/-- With complete transfers, and if all workers returned `0`, the buffer is the cipher of the
source. -/
lemma Saved.buffer_eq (h : Saved inp s 0) (hzero : ∀ w ∈ s.workers, w.pc = .exited 0)
    (hnames : c.Names src dest key) (hD : fs src = some D) (hK : fs key = some K)
    (hall : c.TransfersAll D K) : inp.buffer s.workers = xorCipher D.bytes K.bytes := by
  obtain ⟨rfl, rfl, rfl⟩ := inp.eq_of_names hnames hD hK
  rw [buffer_eq_xorCipher h.worker_ok h.ready.threads_pos h.length_eq hzero, Inputs.dataBuffer,
    Inputs.keyBuffer, c.loaded_of_transferred _ _ hall.data, c.loaded_of_transferred _ _ hall.key]

end Saved

/-- The cipher of a file is not longer than a file can be. -/
lemma length_xorCipher_le (D : File) (K : List UInt8) :
    (xorCipher D.bytes K).length ≤ maxFileSize := by
  rw [length_xorCipher]
  exact D.size_le

section Exact

variable {d : Syscall} {c : Call} {k₀ : Kernel} {acts : List Act} {s : State}
  {src dest key : Path} {D K : File}

/-- The file system after a complete run of a call: the cipher is written over the start of the
destination. -/
theorem fs_of_complete_run (hrun : d.Run c k₀ acts s) (hret : s.caller = .returned 0)
    (hzero : ∀ w ∈ s.workers, w.pc = .exited 0) (hnames : c.Names src dest key)
    (hD : k₀.fs src = some D) (hK : k₀.fs key = some K) (hall : c.TransfersAll D K) :
    s.kernel.fs = Function.update k₀.fs dest
      (some (((k₀.fs dest).getD .empty).overwrite (xorCipher D.bytes K.bytes))) := by
  obtain ⟨inp, hsaved⟩ := (Inv.of_run hrun).saved_of_zero hret
  rw [hsaved.fs_eq_of_transfersAll hnames hD hK hall, hsaved.buffer_eq hzero hnames hD hK hall]

/-- The destination ends up as exactly the cipher of the source, with all other files unchanged, iff
it was absent or not longer than the source before. -/
theorem output_exact_iff (hrun : d.Run c k₀ acts s) (hret : s.caller = .returned 0)
    (hzero : ∀ w ∈ s.workers, w.pc = .exited 0) (hnames : c.Names src dest key)
    (hD : k₀.fs src = some D) (hK : k₀.fs key = some K) (hall : c.TransfersAll D K) :
    ((∃ f, s.kernel.fs dest = some f ∧ f.bytes = xorCipher D.bytes K.bytes) ∧
        ∀ p, p ≠ dest → s.kernel.fs p = k₀.fs p) ↔
      ∀ f, k₀.fs dest = some f → f.size ≤ D.size := by
  have hfs := fs_of_complete_run hrun hret hzero hnames hD hK hall
  have hlen := length_xorCipher_le D K.bytes
  have hother : ∀ p, p ≠ dest → s.kernel.fs p = k₀.fs p := by
    intro p hp
    rw [hfs, Function.update_of_ne hp]
  have hexact : (∃ f, s.kernel.fs dest = some f ∧ f.bytes = xorCipher D.bytes K.bytes) ↔
      ((k₀.fs dest).getD .empty).size ≤ D.size := by
    rw [hfs, Function.update_self]
    simp only [Option.some_inj, exists_eq_left']
    rw [File.bytes_overwrite_eq_iff _ hlen, length_xorCipher]
    rfl
  rw [and_iff_left hother, hexact]
  cases hdest : k₀.fs dest with
  | none =>
    refine iff_of_true (Nat.zero_le _) fun f hf => ?_
    cases hf
  | some f => simp

end Exact

/-- The small call transfers everything. -/
lemma sampleCall_transfersAll (n : Int32) :
    (sampleCall n).TransfersAll ⟨[1, 2, 3], by decide⟩ ⟨[5], by decide⟩ :=
  ⟨rfl, rfl, rfl⟩

/-- The files of the small call with a destination of five bytes. -/
def longDestination : FileSystem :=
  Function.update sampleFiles [98] (some ⟨[9, 9, 9, 9, 9], by decide⟩)

/-- A destination longer than the source keeps its tail. -/
theorem output_keeps_tail :
    ∃ s, Syscall.encrypt.Run (sampleCall 1) (.idle longDestination) sampleSchedule s ∧
      s.caller = .returned 0 ∧ (∀ w ∈ s.workers, w.pc = .exited 0) ∧
      (sampleCall 1).Names [97] [98] [107] ∧
      (sampleCall 1).TransfersAll ⟨[1, 2, 3], by decide⟩ ⟨[5], by decide⟩ ∧
      (s.kernel.fs [98]).map File.bytes = some [4, 7, 6, 9, 9] ∧
      xorCipher [1, 2, 3] [5] = [4, 7, 6] := by
  have hout : Syscall.encrypt.outcome (sampleCall 1) (.idle longDestination) sampleSchedule [98] =
      some (some 0, [.exited 0], some [4, 7, 6, 9, 9]) := by
    decide +kernel
  obtain ⟨s, hrun, hret, hpcs, hfile⟩ := Syscall.exists_run_of_outcome hout
  exact ⟨s, hrun, hret, exited_zero_of_map_pc hpcs, sampleCall_names 1, sampleCall_transfersAll 1,
    hfile, by decide⟩

/-- A new destination is exactly the cipher. -/
theorem output_exact_sample :
    ∃ s, Syscall.encrypt.Run (sampleCall 1) (.idle sampleFiles) sampleSchedule s ∧
      ∃ f, s.kernel.fs [98] = some f ∧ f.bytes = xorCipher [1, 2, 3] [5] := by
  obtain ⟨s, hrun, hret, hpcs, -⟩ := Syscall.exists_run_of_outcome sampleCall_outcome
  have habsent : ∀ f, sampleFiles [98] = some f → f.size ≤ 3 := by
    intro f hf
    cases hf
  exact ⟨s, hrun, ((output_exact_iff hrun hret (exited_zero_of_map_pc hpcs) (sampleCall_names 1)
    rfl rfl (sampleCall_transfersAll 1)).mpr habsent).1⟩

/-! ## Encrypting and decrypting -/

/-- A destination that was not longer than the source is exactly the cipher afterwards. -/
lemma exists_destination {d : Syscall} {c : Call} {k₀ : Kernel} {acts : List Act} {s : State}
    {src dest key : Path} {D K : File} (hrun : d.Run c k₀ acts s) (hret : s.caller = .returned 0)
    (hzero : ∀ w ∈ s.workers, w.pc = .exited 0) (hnames : c.Names src dest key)
    (hD : k₀.fs src = some D) (hK : k₀.fs key = some K) (hall : c.TransfersAll D K)
    (hsize : ∀ f, k₀.fs dest = some f → f.size ≤ D.size) :
    ∃ f, f.bytes = xorCipher D.bytes K.bytes ∧
      s.kernel.fs = Function.update k₀.fs dest (some f) := by
  refine ⟨_, ?_, fs_of_complete_run hrun hret hzero hnames hD hK hall⟩
  rw [File.bytes_overwrite_eq_iff _ (length_xorCipher_le D K.bytes), length_xorCipher]
  cases hdest : k₀.fs dest with
  | none => exact Nat.zero_le _
  | some f => exact hsize f hdest

/-- Encrypting a file to `mid` and decrypting it from there to `out` restores it, for all coinciding
paths but `mid = key`. -/
theorem round_trip {c₁ c₂ : Call} {k₁ k₂ : Kernel} {acts₁ acts₂ : List Act} {s₁ s₂ : State}
    {src mid out key : Path} {D K : File}
    (hrun₁ : Syscall.encrypt.Run c₁ k₁ acts₁ s₁) (hret₁ : s₁.caller = .returned 0)
    (hzero₁ : ∀ w ∈ s₁.workers, w.pc = .exited 0)
    (hrun₂ : Syscall.decrypt.Run c₂ k₂ acts₂ s₂) (hret₂ : s₂.caller = .returned 0)
    (hzero₂ : ∀ w ∈ s₂.workers, w.pc = .exited 0) (hfs : k₂.fs = s₁.kernel.fs)
    (hnames₁ : c₁.Names src mid key) (hnames₂ : c₂.Names mid out key)
    (hD : k₁.fs src = some D) (hK : k₁.fs key = some K) (hmid : mid ≠ key)
    (hmidSize : ∀ f, k₁.fs mid = some f → f.size ≤ D.size)
    (houtSize : ∀ f, k₁.fs out = some f → f.size ≤ D.size)
    (hall₁ : c₁.TransfersAll D K) (hall₂ : c₂.TransfersAll D K) : s₂.kernel.fs out = some D := by
  obtain ⟨E, hE, hfs₁⟩ :=
    exists_destination hrun₁ hret₁ hzero₁ hnames₁ hD hK hall₁ hmidSize
  rw [hfs₁] at hfs
  have hsize : E.size = D.size := by
    rw [File.size, hE, length_xorCipher]
    rfl
  have hE₂ : k₂.fs mid = some E := by rw [hfs, Function.update_self]
  have hK₂ : k₂.fs key = some K := by rw [hfs, Function.update_of_ne hmid.symm, hK]
  have hout₂ : ∀ f, k₂.fs out = some f → f.size ≤ E.size := by
    intro f hf
    rcases eq_or_ne out mid with rfl | hne
    · obtain rfl := Option.some_inj.mp (hE₂.symm.trans hf)
      exact le_rfl
    · rw [hfs, Function.update_of_ne hne] at hf
      exact hsize ▸ houtSize f hf
  have hall₂' : c₂.TransfersAll E K :=
    ⟨by rw [hsize, hall₂.data], hall₂.key, by rw [hsize, hall₂.out]⟩
  obtain ⟨F, hF, hfs₂⟩ :=
    exists_destination hrun₂ hret₂ hzero₂ hnames₂ hE₂ hK₂ hall₂' hout₂
  rw [hE, xorCipher_xorCipher] at hF
  rw [hfs₂, Function.update_self, File.ext hF]

/-- A call that works on `"b"` with the key `"k"` and writes `"a"`. -/
def sampleBack : Call := { sampleCall 1 with args := ⟨256, 0, 1, 512⟩ }

/-- Encrypting `"a"` to `"b"` and decrypting it back in place. -/
theorem round_trip_sample :
    ∃ s₁ s₂, Syscall.encrypt.Run (sampleCall 1) (.idle sampleFiles) sampleSchedule s₁ ∧
      Syscall.decrypt.Run sampleBack s₁.kernel sampleSchedule s₂ ∧
      s₂.kernel.fs [97] = sampleFiles [97] := by
  have hout₁ : Syscall.encrypt.outcome (sampleCall 1) (.idle sampleFiles) sampleSchedule [98] =
      some (some 0, [.exited 0], some [4, 7, 6]) := by
    decide +kernel
  have hout₂ : (run (Syscall.encrypt.step (sampleCall 1))
      (State.start .encrypt (sampleCall 1) (.idle sampleFiles)) sampleSchedule).bind (fun s₁ =>
        Syscall.decrypt.outcome sampleBack s₁.kernel sampleSchedule [97]) =
      some (some 0, [.exited 0], some [1, 2, 3]) := by
    decide +kernel
  obtain ⟨s₁, hrun₁, hret₁, hpcs₁, -⟩ := Syscall.exists_run_of_outcome hout₁
  rw [hrun₁, Option.bind_some] at hout₂
  obtain ⟨s₂, hrun₂, hret₂, hpcs₂, -⟩ := Syscall.exists_run_of_outcome hout₂
  have hnames : sampleBack.Names [98] [97] [107] :=
    ⟨by decide +kernel, by decide +kernel, by decide +kernel⟩
  refine ⟨s₁, s₂, hrun₁, hrun₂, round_trip hrun₁ hret₁ (exited_zero_of_map_pc hpcs₁) hrun₂ hret₂
    (exited_zero_of_map_pc hpcs₂) rfl (sampleCall_names 1) hnames rfl rfl (by decide) ?_ ?_
    (sampleCall_transfersAll 1) ⟨rfl, rfl, rfl⟩⟩
  · intro f hf
    cases hf
  · intro f hf
    cases hf
    exact le_rfl

/-! ## Errors -/

/-- A call that returns an error leaves all files as they were; only a failed write to a new
destination leaves it behind, empty. -/
theorem fs_of_error {d : Syscall} {c : Call} {k₀ : Kernel} {acts : List Act} {s : State} {r : ℤ}
    (hrun : d.Run c k₀ acts s) (hret : s.caller = .returned r) (hr : r ≠ 0) :
    s.kernel.fs = k₀.fs ∨
      ∃ dest e, c.destPath = some dest ∧ k₀.fs dest = none ∧ c.env.writeResult = .error e ∧
        r = e.ret ∧ s.kernel.fs = Function.update k₀.fs dest (some .empty) := by
  rcases (Inv.of_run hrun).of_returned hret with ⟨e, -, hfs⟩ | ⟨inp, hsaved⟩
  · exact Or.inl hfs
  · have hdest : c.destPath = some (c.pathAt .out inp.destFile) := by
      rw [Call.destPath, inp.destFile_eq, Option.map_some]
    have hresult := hsaved.result
    unfold Call.saveResult at hresult
    cases herr : c.env.openError .out with
    | some e =>
      simp only [herr, Prod.mk.injEq] at hresult
      exact Or.inl hresult.2.symm
    | none =>
      cases hw : c.env.writeResult with
      | ok m =>
        simp only [herr, hw, Prod.mk.injEq] at hresult
        exact absurd hresult.1.symm hr
      | error e =>
        simp only [herr, hw, Prod.mk.injEq] at hresult
        cases hold : k₀.fs (c.pathAt .out inp.destFile) with
        | none =>
          rw [hold, Option.getD_none] at hresult
          exact Or.inr ⟨_, e, hdest, hold, rfl, hresult.1.symm, hresult.2.symm⟩
        | some f =>
          rw [hold, Option.getD_some, ← hold, Function.update_eq_self] at hresult
          exact Or.inl hresult.2.symm

/-- The small call in a system that fails to write the output. -/
def failingWrite : Call :=
  { sampleCall 1 with env := { sampleEnv with writeResult := .error .eio } }

/-- A failed write leaves an empty destination behind. -/
theorem failed_write_creates_destination :
    ∃ s, Syscall.decrypt.Run failingWrite (.idle sampleFiles) sampleSchedule s ∧
      s.caller = .returned Errno.eio.ret ∧ sampleFiles [98] = none ∧
      (s.kernel.fs [98]).map File.bytes = some [] := by
  have hout : Syscall.decrypt.outcome failingWrite (.idle sampleFiles) sampleSchedule [98] =
      some (some Errno.eio.ret, [.exited 0], some []) := by
    decide +kernel
  obtain ⟨s, hrun, hret, -, hfile⟩ := Syscall.exists_run_of_outcome hout
  exact ⟨s, hrun, hret, rfl, hfile⟩

/-- The small call in a system that cannot create its thread. -/
def failingThread : Call :=
  { sampleCall 1 with env := { sampleEnv with threadError := fun _ => some .enomem } }

/-- A call that cannot create its thread. -/
theorem fs_of_error_sample :
    ∃ s, Syscall.encrypt.Run failingThread (.idle sampleFiles) (List.replicate 24 .caller) s ∧
      s.kernel.fs = sampleFiles := by
  have hout : Syscall.encrypt.outcome failingThread (.idle sampleFiles)
      (List.replicate 24 .caller) [98] = some (some Errno.enomem.ret, [], none) := by
    decide +kernel
  obtain ⟨s, hrun, hret, -, -⟩ := Syscall.exists_run_of_outcome hout
  refine ⟨s, hrun, ?_⟩
  rcases fs_of_error hrun hret Errno.enomem.ret_ne_zero with hfs | ⟨dest, e, -, -, hw, -⟩
  · exact hfs
  · cases hw

end XorSyscalls
