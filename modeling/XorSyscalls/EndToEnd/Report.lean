import XorSyscalls.EndToEnd.Commands
import XorSyscalls.Syscall.Output

/-!
# What a report of success means

A front end reports success when its system call returns `0`.  The files that the call has read are
those at the moment of the command, and the call may have run together with any others.  As long as
none of these has written to one of the three files of the command, and no call leaves a worker
behind, the output file starts with the bytes of the input file, each XORed with its byte of the key
or, where the worker of its chunk was stopped before it got there, left as it was
(`success_report`).
-/

namespace XorSyscalls

open TransitionSystem

/-! ## One call -/

/-- What a call with `n` threads and complete transfers leaves at the start of its output file `f`:
the data `D` in chunks, one for each worker. -/
structure Ciphered (n : ℕ) (ws : List Worker) (D K f : File) : Prop where
  length_eq : ws.length = n
  /-- A worker has returned `0` at the end of its chunk, or was stopped somewhere in it. -/
  worker : ∀ (i : ℕ) w, ws[i]? = some w → chunkStart D.size n i ≤ w.idx ∧
    ((w.pc = .exited 0 ∧ w.idx = chunkEnd D.size n i) ∨
      (w.pc = .exited Errno.eintr.ret ∧ w.shouldStop = true ∧ w.idx ≤ chunkEnd D.size n i))
  /-- A byte of its chunk is XORed with its byte of the key if the worker has passed it, and left as
  it was otherwise. -/
  byte : ∀ (i : ℕ) w, ws[i]? = some w → ∀ j, chunkStart D.size n i ≤ j →
    j < chunkEnd D.size n i →
      f.bytes[j]? = if j < w.idx then (xorCipher D.bytes K.bytes)[j]? else D.bytes[j]?
  /-- If all workers have returned `0`, all bytes are XORed. -/
  complete : (∀ w ∈ ws, w.pc = .exited 0) → f.bytes.take D.size = xorCipher D.bytes K.bytes

section Call

variable {c : Call} {q : Solicitud}

/-- The files that a call works on are those of its request. -/
lemma Call.Pide.eq_of_uses (h : c.Pide q) {p : Path} (hp : c.Uses p) :
    p = q.archivoEntrada ∨ p = q.archivoClave ∨ p = q.archivoSalida :=
  hp.imp h.srcFile.path_eq (Or.imp h.keyFilepath.path_eq h.destFile.path_eq)

/-- The paths of the inputs of a call are those of its request. -/
lemma Call.Pide.names (h : c.Pide q) {fs : FileSystem} (inp : Inputs c fs) :
    c.Names q.archivoEntrada q.archivoSalida q.archivoClave := by
  have hsrc : c.srcPath = some (c.pathAt .data inp.srcFile) := by rw [srcPath, inp.srcFile_eq]; rfl
  have hdest : c.destPath = some (c.pathAt .out inp.destFile) := by
    rw [destPath, inp.destFile_eq]
    rfl
  have hkey : c.keyPath = some (c.pathAt .key inp.keyFile) := by rw [keyPath, inp.keyFile_eq]; rfl
  refine ⟨hsrc.trans ?_, hdest.trans ?_, hkey.trans ?_⟩
  · rw [h.srcFile.path_eq hsrc]
  · rw [h.destFile.path_eq hdest]
  · rw [h.keyFilepath.path_eq hkey]

/-- The buffer of a call that has read its files completely. -/
lemma Saved.ciphered {fs : FileSystem} {inp : Inputs c fs} {s : State} (h : Saved inp s 0)
    (hall : c.TransfersAll inp.data inp.key) (f : File) :
    Ciphered c.threads s.workers inp.data inp.key (f.overwrite (inp.buffer s.workers)) := by
  have hlen := length_buffer inp s.workers
  have hbytes := f.bytes_overwrite (hlen.trans_le inp.data.size_le)
  have hD : inp.dataBuffer = inp.data.bytes := c.loaded_of_transferred .data inp.data hall.data
  have hK : inp.keyBuffer = inp.key.bytes := c.loaded_of_transferred .key inp.key hall.key
  refine ⟨h.length_eq, fun i w hw => ?_, fun i w hw j hstart hend => ?_, fun hzero => ?_⟩
  · have hok := h.worker_ok i w hw
    obtain ⟨r, hr⟩ := h.exited i w hw (h.length_eq ▸ (List.getElem?_eq_some_iff.mp hw).1)
    have hpc := hok.pc_ok
    simp only [Worker.PcOk, hr] at hpc
    refine ⟨hok.start_le, ?_⟩
    rcases hpc with ⟨rfl, hidx⟩ | ⟨rfl, hstop⟩
    · exact .inl ⟨hr, hidx⟩
    · exact .inr ⟨hr, hstop, hok.le_end⟩
  · have hj : j < (inp.buffer s.workers).length := by
      have hi : i < c.threads := h.length_eq ▸ (List.getElem?_eq_some_iff.mp hw).1
      exact hlen.symm ▸ hend.trans_le (chunkEnd_le hi)
    rw [hbytes, List.getElem?_append_left hj, Inputs.buffer, hD, hK]
    split
    · rename_i hidx
      have hmem : j ∈ touched inp s.workers := ⟨i, w, hw, hstart, hidx⟩
      rw [getElem?_maskMap_of_mem hmem, xorCipher, List.getElem?_mapIdx]
    · rename_i hidx
      exact getElem?_maskMap_of_not_mem
        (h.worker_ok.not_mem_touched h.length_eq.le hw (not_lt.mp hidx) hend)
  · -- all positions have been passed
    rw [hbytes, List.take_append_of_le_length hlen.ge, List.take_of_length_le hlen.le,
      buffer_eq_xorCipher h.worker_ok h.ready.threads_pos h.length_eq hzero, hD, hK]

/-- A call that has returned `0` found its input and key, and has written its output. -/
lemma exists_output {d : Syscall} {k₀ : Kernel} {acts : List Act} {s : State}
    (hrun : d.Run c k₀ acts s) (hret : s.caller = .returned 0) (hpide : c.Pide q) :
    ∃ D K f, k₀.fs q.archivoEntrada = some D ∧ k₀.fs q.archivoClave = some K ∧
      c.Uses q.archivoSalida ∧ s.kernel.fs q.archivoSalida = some f ∧
      (c.TransfersAll D K → Ciphered c.threads s.workers D K f) := by
  obtain ⟨inp, hsaved⟩ := (Inv.of_run hrun).saved_of_zero hret
  have hnames := hpide.names inp
  have hD : k₀.fs q.archivoEntrada = some inp.data := by
    have := (Call.inputFile_eq_some_iff.mp inp.data_eq).2.1
    rwa [Option.some_inj.mp ((congrArg (Option.map _) inp.srcFile_eq).symm.trans
      hnames.srcPath)] at this
  have hK : k₀.fs q.archivoClave = some inp.key := by
    have := (Call.inputFile_eq_some_iff.mp inp.key_eq).2.1
    rwa [Option.some_inj.mp ((congrArg (Option.map _) inp.keyFile_eq).symm.trans
      hnames.keyPath)] at this
  have hout := Option.some_inj.mp ((congrArg (Option.map _) inp.destFile_eq).symm.trans
      hnames.destPath)
  have hfs := congrFun hsaved.fs_eq q.archivoSalida
  rw [hout, Function.update_self] at hfs
  refine ⟨inp.data, inp.key, _, hD, hK, .inr (.inr hnames.destPath), hfs, fun hall => ?_⟩
  rw [hall.out, List.take_of_length_le (length_buffer inp s.workers).le]
  exact hsaved.ciphered hall _

end Call

/-! ## All front ends -/

/-- The C library reports `0` iff the system call has returned it. -/
lemma eq_zero_of_resultadoLibc {r : ℤ} (h : 0 = resultadoLibc r) : r = 0 := by
  unfold resultadoLibc at h
  split at h
  · cases h
  · exact h.symm

namespace World

variable {fes : List FrontEnd} {atoi : Cadena → Int32} {k : Kernel}
  {inputs : List (Buffer × List UInt8)} {acts : List WorldAct} {W₀ W : World}

/-- Of the calls in `W` that were not over in `W₀`, none but call `i` writes to a file of the
request `q`. -/
def Undisturbed (W₀ W : World) (i : ℕ) (q : Solicitud) : Prop :=
  ∀ (i' : ℕ) x, W.calls[i']? = some x → i' ≠ i →
    (∃ p, W₀.system.procs[i']? = some p ∧ p.Done) ∨ ∀ p, x.2.destPath = some p →
      p ≠ q.archivoEntrada ∧ p ≠ q.archivoClave ∧ p ≠ q.archivoSalida

/-- An undisturbed call, extracted as a run of the call alone with the files of the moment when it
was made. -/
lemma exists_solo (hnul : ∀ x ∈ inputs, 0 ∈ x.1.bytes ∨ x.2 ≠ []) (hfree : ∀ m, k.holder m = none)
    (hkeep : W.KeepsWorkers) {acts₀ : List WorldAct}
    (hrun₀ : World.Run fes atoi k inputs acts₀ W₀) (hrun : World.Run fes atoi k inputs acts W)
    {i j : ℕ} {fe : FrontEnd} {c : Call} {q : Solicitud} (hmakes : World.MakesIn fes atoi W₀ i j W)
    (hmade : W.Made fes atoi i j fe c q) (hund : Undisturbed W₀ W i q) {p : Process}
    (hproc : W.system.procs[i]? = some p) :
    ∃ acts' k₁, fe.d.Run c W₀.system.kernel.unlocked acts' ⟨k₁, p.caller, p.workers⟩ ∧
      c.Sees fe.d.lock k₁ W.system.kernel := by
  have hinv := Inv.of_run hnul hrun
  have hinv₀ := Inv.of_run hnul hrun₀
  obtain ⟨hi, env, d, t, c', acts₁, -, hlater⟩ := hmakes
  obtain ⟨rest, acts', hcalls, hsystem⟩ := World.run_system hlater
  obtain ⟨-, -, hcall, hpide, -⟩ := hmade
  have hlist : hinv.cs.list = W₀.calls ++ (d, c') :: rest := by
    rw [List.append_cons]
    exact hcalls
  -- the call made in `W₀` is the call of the request
  have hsame : (d, c') = (fe.d, c) := by
    have hnew : hinv.cs.list[i]? = some (d, c') := by
      rw [hlist, ← hi, List.getElem?_append_right le_rfl, Nat.sub_self]
      rfl
    exact Option.some_inj.mp (hnew.symm.trans hcall)
  cases hsame
  obtain ⟨acts₂, hstart⟩ := World.exists_run hrun₀ hlist
  have hlast := hsystem hinv.cs [] (List.append_nil _).symm
  rw [World.call, System.extend_extend, List.append_nil] at hlast
  have hlen := hinv₀.length_procs
  have hentry : (W₀.system.extend ((fe.d, c) :: rest)).procs[i]? =
      some ⟨.entry (fe.d.prepares c.args), []⟩ := by
    rw [System.extend, ← hi, ← hlen, List.getElem?_append_right le_rfl, Nat.sub_self]
    rfl
  have hown : ∀ (i' : ℕ) x, hinv.cs.list[i']? = some x → i' ≠ i →
      (∃ p, (W₀.system.extend ((fe.d, c) :: rest)).procs[i']? = some p ∧ p.Done) ∨
        ∀ p, x.2.destPath = some p → ¬ c.Uses p := by
    intro i' x hx hne
    rcases hund i' x hx hne with ⟨p', hp', hdone⟩ | hfiles
    · refine .inl ⟨p', ?_, hdone⟩
      rw [System.extend, List.getElem?_append_left (List.getElem?_eq_some_iff.mp hp').1, hp']
    · refine .inr fun path hpath huses => ?_
      obtain ⟨hentrada, hclave, hsalida⟩ := hfiles path hpath
      rcases hpide.eq_of_uses huses with h | h | h
      · exact hentrada h
      · exact hclave h
      · exact hsalida h
  obtain ⟨k₁, hsolo, hsees⟩ := Calls.solo_from (hkeep.cs hinv) hfree hstart hcall hentry hown hlast
    (by simpa [System.extend] using hproc)
  exact ⟨_, k₁, hsolo, hsees⟩

/-- Whenever a front end has reported success for a command, in a run of any number of front ends,
the system call of the command has read the input and the key that were there when the command was
given, and the output file holds what `Ciphered` says, unless a call that was not over at that
moment writes to one of the files of the command, or some call leaves a worker behind. -/
theorem success_report (hnul : ∀ x ∈ inputs, 0 ∈ x.1.bytes ∨ x.2 ≠ [])
    (hfree : ∀ m, k.holder m = none) (hkeep : W.KeepsWorkers)
    (hrun : World.Run fes atoi k inputs acts W) {j : ℕ} {t : Terminal}
    (ht : W.terminals[j]? = some t) {n : ℕ} {q : Solicitud}
    (hmem : .llamada n q 0 ∈ t.estado.eventos) :
    ∃ (i : ℕ) (acts₀ : List WorldAct) (W₀ : World) (fe : FrontEnd) (c : Call) (p : Process),
      acts₀ <+: acts ∧ World.Run fes atoi k inputs acts₀ W₀ ∧
      World.MakesIn fes atoi W₀ i j W ∧ W.Made fes atoi i j fe c q ∧
      W.system.procs[i]? = some p ∧ (Undisturbed W₀ W i q →
        ∃ D K f, W₀.system.kernel.fs q.archivoEntrada = some D ∧
          W₀.system.kernel.fs q.archivoClave = some K ∧
          W.system.kernel.fs q.archivoSalida = some f ∧
          (c.TransfersAll D K → Ciphered c.threads p.workers D K f)) := by
  obtain ⟨i, fe, c, r, hmade, ⟨p, hproc, hpc⟩, hr⟩ := (Inv.of_run hnul hrun).seen j t ht n q 0 hmem
  obtain rfl := eq_zero_of_resultadoLibc hr
  obtain ⟨acts₀, W₀, hpre, hrun₀, hmakes⟩ := exists_makesIn hrun hmade.1
  refine ⟨i, acts₀, W₀, fe, c, p, hpre, hrun₀, hmakes, hmade, hproc, fun hund => ?_⟩
  obtain ⟨acts', k₁, hsolo, hsees⟩ :=
    exists_solo hnul hfree hkeep hrun₀ hrun hmakes hmade hund hproc
  obtain ⟨D, K, f, hD, hK, huses, hf, hciphered⟩ := exists_output hsolo hpc hmade.2.2.2.1
  exact ⟨D, K, f, hD, hK, (hsees.fs _ huses).symm.trans hf, hciphered⟩

/-- In a world without calls the files are those of the start. -/
lemma fs_of_no_calls (hnul : ∀ x ∈ inputs, 0 ∈ x.1.bytes ∨ x.2 ≠ [])
    (hrun : World.Run fes atoi k inputs acts W) (h : W.calls = []) :
    W.system.kernel.fs = k.fs := by
  obtain ⟨acts', hsystem⟩ := (Inv.of_run hnul hrun).exists_run hrun
  refine funext fun p => Calls.fs_of_run hsystem fun x hx => ?_
  have hx : x ∈ W.calls := hx
  rw [h] at hx
  cases hx

/-- In the session of one command the file `"b"` holds the cipher of the file `"a"` with the key in
the file `"k"`. -/
theorem success_report_sample :
    ∃ W t, World.Run [⟨.encrypt, 0⟩] atoiDecimal (.idle sampleFiles)
        [sampleInput [(.t, [49])]] sampleSession W ∧ W.KeepsWorkers ∧ W.terminals[0]? = some t ∧
      .llamada 548 ⟨[97], [98], 1, [107]⟩ 0 ∈ t.estado.eventos ∧
      ∃ p f, W.system.procs[0]? = some p ∧ W.system.kernel.fs [98] = some f ∧
        Ciphered 1 p.workers ⟨[1, 2, 3], by decide⟩ ⟨[5], by decide⟩ f := by
  have hresult : (run (World.step [⟨.encrypt, 0⟩] atoiDecimal)
      (World.start (.idle sampleFiles) [sampleInput [(.t, [49])]]) sampleSession).map
        (fun W => (decide (W.KeepsWorkers ∧ ∀ x ∈ W.calls, x.2.threads = 1 ∧
            x.2.transferred .data 3 = 3 ∧ x.2.transferred .key 1 = 1 ∧ x.2.written 3 = 3),
          W.calls.length, W.terminals[0]?.map fun t =>
            decide (.llamada 548 ⟨[97], [98], 1, [107]⟩ 0 ∈ t.estado.eventos))) =
      some (true, 1, some true) := by
    decide +kernel
  obtain ⟨W, hrun, hW⟩ := Option.map_eq_some_iff.mp hresult
  obtain ⟨hcalls, hW⟩ := Prod.mk_inj.mp hW
  obtain ⟨hlen, hevents⟩ := Prod.mk_inj.mp hW
  obtain ⟨t, ht, hmem⟩ := Option.map_eq_some_iff.mp hevents
  have hmem := of_decide_eq_true hmem
  obtain ⟨hkeep, hcalls⟩ := of_decide_eq_true hcalls
  obtain ⟨i, acts₀, W₀, fe, c, p, -, hrun₀, hmakes, hmade, hproc, hreport⟩ :=
    success_report (sampleInput_nul _) (fun _ => rfl) hkeep hrun ht hmem
  -- there is only one call
  have honly : ∀ {i : ℕ} {x}, W.calls[i]? = some x → i = 0 := fun hx => by
    have := (List.getElem?_eq_some_iff.mp hx).1
    omega
  obtain rfl := honly hmade.2.2.1
  obtain ⟨D, K, f, hD, hK, hf, hciphered⟩ := hreport fun i' x hx hne => absurd (honly hx) hne
  -- and it was made when the files were still those of the start
  rw [fs_of_no_calls (sampleInput_nul _) hrun₀ (List.length_eq_zero_iff.mp hmakes.1)] at hD hK
  cases hD
  cases hK
  obtain ⟨hthreads, hdata, hkey, hout⟩ := hcalls _ (List.mem_of_getElem? hmade.2.2.1)
  exact ⟨W, t, hrun, hkeep, ht, hmem, p, f, hproc, hf, hthreads ▸ hciphered ⟨hdata, hkey, hout⟩⟩

end World

end XorSyscalls
