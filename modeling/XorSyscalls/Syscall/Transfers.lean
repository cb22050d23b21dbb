import XorSyscalls.Syscall.Output

/-!
# Incomplete transfers

The system calls ignore how many bytes `kernel_read` and `kernel_write` have transferred: the sizes
they go on with are those of the files.  `output_complete_iff` says which incomplete transfers
surface as success: all of them, except that the part of the key behind the size of the data is
never needed.  What is missing of the data and the key is taken from the bytes that were left in the
freshly allocated buffers, so the statement is about all contents of this memory.
-/

namespace XorSyscalls

open TransitionSystem

/-! ## Calls that differ in the contents of fresh memory -/

/-- The same call with other bytes in freshly allocated memory. -/
def Call.withJunk (c : Call) (junk : Site → ℕ → UInt8) : Call :=
  { c with env := { c.env with junk } }

/-- What a call finds does not depend on fresh memory. -/
def Inputs.withJunk {c : Call} {fs : FileSystem} (inp : Inputs c fs) (junk : Site → ℕ → UInt8) :
    Inputs (c.withJunk junk) fs :=
  ⟨inp.srcFile, inp.destFile, inp.keyFile, inp.data, inp.key, inp.srcFile_eq, inp.destFile_eq,
    inp.keyFile_eq, inp.data_eq, inp.key_eq⟩

/-- The same, back again. -/
def Inputs.ofWithJunk {c : Call} {fs : FileSystem} {junk : Site → ℕ → UInt8}
    (inp : Inputs (c.withJunk junk) fs) : Inputs c fs :=
  ⟨inp.srcFile, inp.destFile, inp.keyFile, inp.data, inp.key, inp.srcFile_eq, inp.destFile_eq,
    inp.keyFile_eq, inp.data_eq, inp.key_eq⟩

/-! ## Calls that return `0` -/

/-- Nothing but a transfer goes wrong in the call, and the write reports no error. -/
structure Call.Completes (c : Call) (fs : FileSystem) : Prop where
  inputs : Nonempty (Inputs c fs)
  starts : c.StartsWorkers
  opens : c.env.openError .out = none
  writes : ∃ m, c.env.writeResult = .ok m

/-- Whether a call completes does not depend on fresh memory. -/
lemma Call.completes_withJunk {c : Call} {fs : FileSystem} {junk : Site → ℕ → UInt8} :
    (c.withJunk junk).Completes fs ↔ c.Completes fs := by
  constructor
  · rintro ⟨⟨inp⟩, ⟨⟨harr, hn⟩, hthreads⟩, hopens, hwrites⟩
    exact ⟨⟨inp.ofWithJunk⟩, ⟨⟨harr, hn⟩, hthreads⟩, hopens, hwrites⟩
  · rintro ⟨⟨inp⟩, ⟨⟨harr, hn⟩, hthreads⟩, hopens, hwrites⟩
    exact ⟨⟨inp.withJunk junk⟩, ⟨⟨harr, hn⟩, hthreads⟩, hopens, hwrites⟩

section Completes

variable {d : Syscall} {c : Call} {k₀ : Kernel} {acts : List Act} {s : State}

/-- Only such calls return `0`. -/
lemma completes_of_returned (hrun : d.Run c k₀ acts s) (hret : s.caller = .returned 0) :
    c.Completes k₀.fs := by
  obtain ⟨inp, hsaved⟩ := (Inv.of_run hrun).saved_of_zero hret
  obtain ⟨hopens, hwrites, -⟩ := (c.saveResult_eq_zero_iff _ _ _ _ _).mp hsaved.result
  have hthreads := threadError_of_run hrun
  rw [hsaved.length_eq] at hthreads
  exact ⟨⟨inp⟩, ⟨hsaved.ready, hthreads⟩, hopens, hwrites⟩

/-- Such a call can return `0` with all its workers done. -/
lemma Call.Completes.exists_run (h : c.Completes k₀.fs) (hfree : k₀.holder d.lock = none) :
    ∃ acts s, d.Run c k₀ acts s ∧ s.caller = .returned 0 ∧ ∀ w ∈ s.workers, w.pc = .exited 0 := by
  obtain ⟨inp⟩ := h.inputs
  obtain ⟨m, hm⟩ := h.writes
  obtain ⟨acts, k, r, hrun, hsaved⟩ := exists_run_returned d inp h.starts hfree inp.chunkLength
    fun i hi => (inp.chunkStart_add_chunkLength hi).le
  have hr : r = 0 := by
    have hresult := congrArg Prod.fst hsaved.result
    simp only [Call.saveResult, h.opens, hm] at hresult
    exact hresult.symm
  subst hr
  exact ⟨acts, _, hrun, rfl, fun w hw => inp.exited_zero_of_mem_workersAt hw⟩

variable {src dest key : Path} {D K : File}

/-- The new destination of a call that returned `0` with all its workers done: the cipher of what
was read, as far as it was written. -/
lemma exists_new_destination (hrun : d.Run c k₀ acts s) (hret : s.caller = .returned 0)
    (hzero : ∀ w ∈ s.workers, w.pc = .exited 0) (hnames : c.Names src dest key)
    (hD : k₀.fs src = some D) (hK : k₀.fs key = some K) (hdest : k₀.fs dest = none) :
    ∃ f, s.kernel.fs dest = some f ∧
      f.bytes = (xorCipher (c.loaded .data D) (c.loaded .key K)).take (c.written D.size) := by
  obtain ⟨inp, hsaved⟩ := (Inv.of_run hrun).saved_of_zero hret
  have hfs := hsaved.fs_eq
  obtain ⟨rfl, rfl, rfl⟩ := inp.eq_of_names hnames hD hK
  rw [buffer_eq_xorCipher hsaved.worker_ok hsaved.ready.threads_pos hsaved.length_eq hzero,
    hdest, Option.getD_none] at hfs
  refine ⟨_, by rw [hfs, Function.update_self]; rfl,
    (File.bytes_overwrite_eq_iff .empty ?_).mpr (Nat.zero_le _)⟩
  rw [List.length_take, length_xorCipher, c.length_loaded]
  exact (Nat.min_le_right _ _).trans inp.data.size_le

end Completes

/-! ## Which transfers are needed -/

/-- At most the bytes asked for are written. -/
lemma Call.written_le (c : Call) (count : ℕ) : c.written count ≤ count := by
  unfold written
  split
  · exact Nat.zero_le _
  · exact Nat.min_le_right _ _

/-- A byte inside a list. -/
lemma getElem?_eq_some_getD {l : List UInt8} {j : ℕ} (hj : j < l.length) :
    l[j]? = some (l.getD j 0) := by
  rw [List.getD_eq_getElem?_getD, List.getElem?_eq_getElem hj, Option.getD_some]

/-- A buffer filled to the end by the file and by fitting bytes of fresh memory. -/
lemma Call.loaded_eq_of_junk (c : Call) (site : Site) (f : File)
    (h : ∀ j < f.size, c.env.junk site j = f.bytes.getD j 0) : c.loaded site f = f.bytes := by
  refine List.ext_getElem? fun j => ?_
  rcases lt_or_ge j (c.transferred site f.size) with hj | hj
  · exact c.getElem?_loaded_of_lt site f hj
  · rcases lt_or_ge j f.size with hlt | hge
    · rw [c.getElem?_loaded_of_le site f hj hlt, h j hlt, getElem?_eq_some_getD hlt]
    · rw [List.getElem?_eq_none (by rwa [c.length_loaded]), List.getElem?_eq_none hge]

/-- Only the part of the key that the data can reach matters. -/
lemma xorCipher_congr_key {D K K' : List UInt8} (hlen : K'.length = K.length) (hpos : 0 < K.length)
    (h : ∀ i < min K.length D.length, K'[i]? = K[i]?) : xorCipher D K' = xorCipher D K := by
  refine List.ext_getElem? fun j => ?_
  rw [getElem?_xorCipher, getElem?_xorCipher]
  rcases lt_or_ge j D.length with hj | hj
  · have hkey : K'.getD (j % K'.length) 0 = K.getD (j % K.length) 0 := by
      have hmod := Nat.mod_lt j hpos
      have hle := Nat.mod_le j K.length
      rw [hlen, List.getD_eq_getElem?_getD, List.getD_eq_getElem?_getD,
        h _ (lt_min hmod (hle.trans_lt hj))]
    have hfun : xorAt K' j = xorAt K j := by
      funext v
      rw [xorAt, xorAt, hkey]
    rw [hfun]
  · rw [List.getElem?_eq_none hj]
    rfl

/-- The cipher determines the data. -/
lemma xorCipher_left_injective {D D' K : List UInt8} (h : xorCipher D K = xorCipher D' K) :
    D = D' := by
  rw [← xorCipher_xorCipher D K, h, xorCipher_xorCipher]

section Needed

variable {c : Call} {D K : File}

/-- If the written part of the cipher is complete whatever fresh memory holds, everything was
written. -/
lemma written_of_complete
    (h : (xorCipher (c.loaded .data D) (c.loaded .key K)).take (c.written D.size) =
      xorCipher D.bytes K.bytes) : c.written D.size = D.size := by
  have hlen := congrArg List.length h
  rw [List.length_take, length_xorCipher, length_xorCipher, c.length_loaded] at hlen
  exact le_antisymm (c.written_le _) (hlen.symm.trans_le (Nat.min_le_left _ _))

/-- With a complete write the cipher of what was read is the cipher of the files. -/
lemma xorCipher_of_complete
    (h : (xorCipher (c.loaded .data D) (c.loaded .key K)).take (c.written D.size) =
      xorCipher D.bytes K.bytes) :
    xorCipher (c.loaded .data D) (c.loaded .key K) = xorCipher D.bytes K.bytes := by
  rw [written_of_complete h, List.take_of_length_le] at h
  · exact h
  · rw [length_xorCipher, c.length_loaded]

/-- Fresh memory that holds the right bytes everywhere except in the block at `site`, where all are
wrong. -/
def spoiledJunk (D K : File) (site : Site) : Site → ℕ → UInt8
  | .data, j => if site = .data then D.bytes.getD j 0 ^^^ 1 else D.bytes.getD j 0
  | .key, j => if site = .key then K.bytes.getD j 0 ^^^ 1 else K.bytes.getD j 0
  | _, _ => 0

/-- Flipping a bit changes a byte. -/
lemma xor_one_ne (v : UInt8) : v ^^^ 1 ≠ v := by
  intro h
  rw [← UInt8.xor_zero (a := v), UInt8.xor_assoc, UInt8.xor_right_inj] at h
  exact absurd h (by decide)

/-- The same call with wrong bytes in the fresh block at `site`. -/
def Call.spoiled (c : Call) (D K : File) (site : Site) : Call := c.withJunk (spoiledJunk D K site)

/-- The output is complete whatever fresh memory holds, so it is also complete with wrong bytes in
it. -/
lemma xorCipher_spoiled (h : ∀ junk, (xorCipher ((c.withJunk junk).loaded .data D)
      ((c.withJunk junk).loaded .key K)).take (c.written D.size) = xorCipher D.bytes K.bytes)
    (site : Site) :
    xorCipher ((c.spoiled D K site).loaded .data D) ((c.spoiled D K site).loaded .key K) =
      xorCipher D.bytes K.bytes :=
  xorCipher_of_complete (c := c.spoiled D K site) (h _)

/-- If the output is complete whatever fresh memory holds, the data was read completely. -/
lemma transferred_data_of_complete
    (h : ∀ junk, (xorCipher ((c.withJunk junk).loaded .data D)
      ((c.withJunk junk).loaded .key K)).take (c.written D.size) = xorCipher D.bytes K.bytes) :
    c.transferred .data D.size = D.size := by
  by_contra hne
  have hlt : c.transferred .data D.size < D.size := lt_of_le_of_ne (c.transferred_le _ _) hne
  have hcipher := xorCipher_spoiled h .data
  rw [(c.spoiled D K .data).loaded_eq_of_junk .key K fun _ _ => rfl] at hcipher
  have hbyte : ((c.spoiled D K .data).loaded .data D)[c.transferred .data D.size]? =
      some (D.bytes.getD (c.transferred .data D.size) 0 ^^^ 1) :=
    (c.spoiled D K .data).getElem?_loaded_of_le .data D le_rfl hlt
  rw [xorCipher_left_injective hcipher, getElem?_eq_some_getD hlt, Option.some_inj] at hbyte
  exact xor_one_ne _ hbyte.symm

/-- If the output is complete whatever fresh memory holds, the key was read as far as the data can
reach it. -/
lemma transferred_key_of_complete
    (h : ∀ junk, (xorCipher ((c.withJunk junk).loaded .data D)
      ((c.withJunk junk).loaded .key K)).take (c.written D.size) = xorCipher D.bytes K.bytes) :
    min K.size D.size ≤ c.transferred .key K.size := by
  by_contra hlt
  obtain ⟨hltK, hltD⟩ := lt_min_iff.mp (not_le.mp hlt)
  have hcipher := xorCipher_spoiled h .key
  rw [(c.spoiled D K .key).loaded_eq_of_junk .data D fun _ _ => rfl] at hcipher
  -- the output at the first position of the key that was not read
  have hbyte := congrArg (fun l : List UInt8 => l[c.transferred .key K.size]?) hcipher
  have hkey : ((c.spoiled D K .key).loaded .key K)[c.transferred .key K.size]? =
      some (K.bytes.getD (c.transferred .key K.size) 0 ^^^ 1) :=
    (c.spoiled D K .key).getElem?_loaded_of_le .key K le_rfl hltK
  simp only [getElem?_xorCipher, getElem?_eq_some_getD hltD, Option.map_some, Option.some_inj,
    xorAt, Call.length_loaded, UInt8.xor_right_inj] at hbyte
  rw [show K.bytes.length = K.size from rfl, Nat.mod_eq_of_lt hltK,
    List.getD_eq_getElem?_getD, hkey, Option.getD_some] at hbyte
  exact xor_one_ne _ hbyte

end Needed

/-- If the transfers that are needed are complete, so is the cipher, whatever fresh memory holds. -/
lemma complete_of_transferred {c : Call} {D K : File} (hpos : 0 < K.size)
    (hout : c.written D.size = D.size) (hdata : c.transferred .data D.size = D.size)
    (hkey : min K.size D.size ≤ c.transferred .key K.size) :
    (xorCipher (c.loaded .data D) (c.loaded .key K)).take (c.written D.size) =
      xorCipher D.bytes K.bytes := by
  rw [c.loaded_of_transferred .data D hdata,
    xorCipher_congr_key (c.length_loaded .key K) hpos fun i hi =>
      c.getElem?_loaded_of_lt .key K (hi.trans_le hkey), hout]
  exact List.take_of_length_le (length_xorCipher _ _).le

/-- Returning `0` with all workers done means a complete output, whatever fresh memory holds, iff
every call that gets that far has written all of the output, read all of the data and read the key
as far as the data can reach it. -/
theorem output_complete_iff (d : Syscall) {c : Call} {k₀ : Kernel} {src dest key : Path}
    {D K : File} (hnames : c.Names src dest key) (hD : k₀.fs src = some D)
    (hK : k₀.fs key = some K) (hdest : k₀.fs dest = none) (hfree : k₀.holder d.lock = none) :
    (∀ junk acts s, d.Run (c.withJunk junk) k₀ acts s → s.caller = .returned 0 →
        (∀ w ∈ s.workers, w.pc = .exited 0) →
        ∃ f, s.kernel.fs dest = some f ∧ f.bytes = xorCipher D.bytes K.bytes) ↔
      (c.Completes k₀.fs → c.written D.size = D.size ∧ c.transferred .data D.size = D.size ∧
        min K.size D.size ≤ c.transferred .key K.size) := by
  have hnames' : ∀ junk, (c.withJunk junk).Names src dest key := fun _ =>
    ⟨hnames.srcPath, hnames.destPath, hnames.keyPath⟩
  constructor
  · intro hall hc
    have hcomplete : ∀ junk, (xorCipher ((c.withJunk junk).loaded .data D)
        ((c.withJunk junk).loaded .key K)).take (c.written D.size) =
          xorCipher D.bytes K.bytes := by
      intro junk
      obtain ⟨acts, s, hrun, hret, hzero⟩ :=
        (Call.completes_withJunk.mpr hc : (c.withJunk junk).Completes k₀.fs).exists_run hfree
      obtain ⟨f, hf, hbytes⟩ :=
        exists_new_destination hrun hret hzero (hnames' junk) hD hK hdest
      obtain ⟨g, hg, hgbytes⟩ := hall junk acts s hrun hret hzero
      obtain rfl := Option.some_inj.mp (hf.symm.trans hg)
      exact hbytes.symm.trans hgbytes
    exact ⟨written_of_complete (c := c.withJunk c.env.junk) (hcomplete _),
      transferred_data_of_complete hcomplete, transferred_key_of_complete hcomplete⟩
  · intro hcond junk acts s hrun hret hzero
    have hc' := completes_of_returned hrun hret
    obtain ⟨inp⟩ := hc'.inputs
    have hpos : 0 < K.size := by
      obtain ⟨-, rfl, -⟩ := inp.eq_of_names (hnames' junk) hD hK
      exact inp.key_pos
    obtain ⟨hout, hdata, hkey⟩ := hcond (Call.completes_withJunk.mp hc')
    obtain ⟨f, hf, hbytes⟩ := exists_new_destination hrun hret hzero (hnames' junk) hD hK hdest
    have hcomplete := complete_of_transferred (c := c.withJunk junk) hpos hout hdata hkey
    exact ⟨f, hf, hbytes.trans hcomplete⟩

/-- The transfers of the small call are complete, so sevens in fresh memory do not show. -/
theorem output_complete_sample :
    ∃ s, Syscall.decrypt.Run ((sampleCall 1).withJunk fun _ _ => 7) (.idle sampleFiles)
        sampleSchedule s ∧
      ∃ f, s.kernel.fs [98] = some f ∧ f.bytes = xorCipher [1, 2, 3] [5] := by
  have hfree : (Kernel.idle sampleFiles).holder Syscall.decrypt.lock = none := rfl
  have hout : Syscall.decrypt.outcome ((sampleCall 1).withJunk fun _ _ => 7) (.idle sampleFiles)
      sampleSchedule [98] = some (some 0, [.exited 0], some [4, 7, 6]) := by
    decide +kernel
  obtain ⟨s, hrun, hret, hpcs, -⟩ := Syscall.exists_run_of_outcome hout
  have hcomplete := (output_complete_iff .decrypt (sampleCall_names 1) rfl rfl rfl hfree).mpr
    fun _ => by decide
  exact ⟨s, hrun, hcomplete _ _ s hrun hret (exited_zero_of_map_pc hpcs)⟩

/-- The small call in a system that transfers one byte at most when it reads. -/
def shortRead : Call := { sampleCall 1 with env := { sampleEnv with readResult := fun _ => .ok 1 } }

/-- Two of three bytes of the data are missing, and the call returns `0`. -/
theorem short_read_returns_zero :
    ∃ s, Syscall.encrypt.Run shortRead (.idle sampleFiles) sampleSchedule s ∧
      s.caller = .returned 0 ∧ (∀ w ∈ s.workers, w.pc = .exited 0) ∧ sampleFiles [98] = none ∧
      (s.kernel.fs [98]).map File.bytes = some [4, 5, 5] ∧
      xorCipher [1, 2, 3] [5] = [4, 7, 6] := by
  have hout : Syscall.encrypt.outcome shortRead (.idle sampleFiles) sampleSchedule [98] =
      some (some 0, [.exited 0], some [4, 5, 5]) := by
    decide +kernel
  obtain ⟨s, hrun, hret, hpcs, hfile⟩ := Syscall.exists_run_of_outcome hout
  exact ⟨s, hrun, hret, exited_zero_of_map_pc hpcs, rfl, hfile, by decide⟩

end XorSyscalls
