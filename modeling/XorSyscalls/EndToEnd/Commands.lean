import XorSyscalls.EndToEnd.World
import XorSyscalls.Apps.CommandLine

/-!
# What commands can do

Three results on any number of front ends, whatever their input is and however their commands
overlap.

* A file changes only if it is the output of a command that a front end has accepted
  (`only_outputs_change`).
* A system call is killed by a division by zero only for a command of `encrypt_app` without the
  option `-t` (`killed_only_without_threads`).
* Every other command is answered: as long as a front end waits for a call that was not killed, the
  kernel can go on or the call returns to it, and this takes finitely many steps
  (`commands_answered`).

The results on workers are about calls that leave none behind (`World.KeepsWorkers`).
-/

namespace XorSyscalls

open TransitionSystem

namespace World

variable {fes : List FrontEnd} {atoi : Cadena → Int32} {k : Kernel}
  {inputs : List (Buffer × List UInt8)} {acts : List WorldAct} {W : World}

/-- No call has left or will leave a worker behind. -/
def KeepsWorkers (W : World) : Prop := ∀ x ∈ W.calls, x.2.KeepsWorkers

instance (W : World) : Decidable W.KeepsWorkers := List.decidableBAll _ _

/-- The calls that have been made so far. -/
def Inv.cs (h : W.Inv fes atoi) : Calls := ⟨W.calls, nodup_of_task_eq h.task_eq⟩

/-- They leave no worker behind. -/
lemma KeepsWorkers.cs (hkeep : W.KeepsWorkers) (h : W.Inv fes atoi) : h.cs.KeepWorkers := hkeep

/-- They run from the kernel state at the start. -/
lemma Inv.exists_run (h : W.Inv fes atoi) (hrun : World.Run fes atoi k inputs acts W) :
    ∃ acts', h.cs.Run k acts' W.system := by
  have hlist : h.cs.list = W.calls ++ [] := (List.append_nil W.calls).symm
  simpa [System.extend] using World.exists_run hrun hlist

/-- The output path of a call is that of its request. -/
lemma Made.archivoSalida_eq {i j : ℕ} {fe : FrontEnd} {c : Call} {q : Solicitud}
    (h : W.Made fes atoi i j fe c q) {p : Path} (hp : c.destPath = some p) :
    q.archivoSalida = p :=
  (h.2.2.2.1.destFile.path_eq hp).symm

/-- In every run of any number of front ends, a file that differs from what it was at the start is
the output file of a command that a front end has had executed or waits for. -/
theorem only_outputs_change (hnul : ∀ x ∈ inputs, 0 ∈ x.1.bytes ∨ x.2 ≠ [])
    (hrun : World.Run fes atoi k inputs acts W) {p : Path}
    (hp : W.system.kernel.fs p ≠ k.fs p) :
    ∃ (i j : ℕ) (fe : FrontEnd) (t : Terminal) (q : Solicitud), fes[j]? = some fe ∧
      W.terminals[j]? = some t ∧ W.Asked atoi i fe t q ∧ q.archivoSalida = p := by
  have hinv := Inv.of_run hnul hrun
  obtain ⟨acts', hsystem⟩ := hinv.exists_run hrun
  by_contra hcon
  refine hp (Calls.fs_of_run hsystem fun x hx hdest => hcon ?_)
  obtain ⟨i, hi⟩ := List.mem_iff_getElem?.mp hx
  obtain ⟨j, fe, c, q, t, hmade, ht, hasked⟩ :=
    hinv.asked i (List.getElem?_eq_some_iff.mp hi).1
  cases hi.symm.trans hmade.2.2.1
  exact ⟨i, j, fe, t, q, hmade.2.1, ht, hasked, hmade.archivoSalida_eq hdest⟩

/-- The input with the line `-p a -o b -k k`, followed by the options given. -/
def sampleInput (opciones : List (Opcion × Cadena)) : Buffer × List UInt8 :=
  (⟨List.replicate 256 32, List.length_replicate⟩,
    lineaDe (aplanar ([(.p, [97]), (.o, [98]), (.k, [107])] ++ opciones)) ++ [salto])

/-- An `encrypt_app` performs its first command, with one worker that runs to its end. -/
def sampleSession : List WorldAct :=
  .comando 0 sampleEnv :: List.replicate 20 (.kernel 0 .caller) ++
    List.replicate 12 (.kernel 0 (.worker 0)) ++ List.replicate 12 (.kernel 0 .caller) ++
    [.retorno 0]

lemma sampleInput_nul (opciones : List (Opcion × Cadena)) :
    ∀ x ∈ [sampleInput opciones], 0 ∈ x.1.bytes ∨ x.2 ≠ [] := by
  intro x hx
  obtain rfl := List.mem_singleton.mp hx
  exact .inr (List.append_ne_nil_of_right_ne_nil _ (List.cons_ne_nil _ _))

/-- In this session the file `"b"` is created, which the command has asked for. -/
theorem only_outputs_change_sample :
    ∃ W, World.Run [⟨.encrypt, 0⟩] atoiDecimal (.idle sampleFiles) [sampleInput [(.t, [49])]]
        sampleSession W ∧
      W.system.kernel.fs [98] ≠ (Kernel.idle sampleFiles).fs [98] ∧
      ∃ (i j : ℕ) (fe : FrontEnd) (t : Terminal) (q : Solicitud),
        [(⟨.encrypt, 0⟩ : FrontEnd)][j]? = some fe ∧ W.terminals[j]? = some t ∧
          W.Asked atoiDecimal i fe t q ∧ q.archivoSalida = [98] := by
  have hresult : (run (World.step [⟨.encrypt, 0⟩] atoiDecimal)
      (World.start (.idle sampleFiles) [sampleInput [(.t, [49])]]) sampleSession).map
        (fun W => (W.system.kernel.fs [98]).map File.bytes) = some (some [4, 7, 6]) := by
    decide +kernel
  obtain ⟨W, hrun, hW⟩ := Option.map_eq_some_iff.mp hresult
  have hchanged : W.system.kernel.fs [98] ≠ (Kernel.idle sampleFiles).fs [98] := by
    intro heq
    rw [heq] at hW
    cases hW
  exact ⟨W, hrun, hchanged, only_outputs_change (sampleInput_nul _) hrun hchanged⟩

end World

/-! ## Division by zero -/

/-- A front end asks for at least one thread, except `encrypt_app` for a command without `-t`. -/
lemma numHilos_cases {d : Syscall} {atoi : Cadena → Int32} {tokens : List Cadena} {q : Solicitud}
    (h : (d.interpretar atoi tokens).solicitud = some q) :
    0 < q.numHilos ∨ d = .encrypt ∧
      ∃ opciones, tokens = aplanar opciones ∧ ∀ v, (.t, v) ∉ opciones := by
  cases d with
  | decrypt => exact .inl (solicitud_decrypt_iff.mp h).2
  | encrypt =>
    obtain ⟨opciones, htokens, hhilos, hq⟩ := solicitud_encrypt_iff.mp h
    cases hlast : lastValue .t opciones with
    | none =>
      exact .inr ⟨rfl, opciones, htokens, fun v hv => lastValue_eq_none_iff.mp hlast _ hv rfl⟩
    | some v =>
      refine .inl ?_
      rw [← hq.numHilos, hlast]
      exact hhilos v (mem_of_lastValue hlast)

namespace World

variable {fes : List FrontEnd} {atoi : Cadena → Int32} {k : Kernel}
  {inputs : List (Buffer × List UInt8)} {acts : List WorldAct} {W : World}

/-- In every run of any number of front ends, no worker is killed unless a call leaves some behind,
and a calling thread only if it is that of an `encrypt_app` whose command has no option `-t`. -/
theorem killed_only_without_threads (hnul : ∀ x ∈ inputs, 0 ∈ x.1.bytes ∨ x.2 ≠ [])
    (hrun : World.Run fes atoi k inputs acts W) {i : ℕ} {p : Process}
    (hproc : W.system.procs[i]? = some p) :
    (W.KeepsWorkers → ∀ w ∈ p.workers, w.pc ≠ .oops) ∧ (p.caller = .oops →
      ∃ (j : ℕ) (fe : FrontEnd) (t : Terminal) (opciones : List (Opcion × Cadena)),
        fes[j]? = some fe ∧ fe.d = .encrypt ∧ W.terminals[j]? = some t ∧ t.inCall = some i ∧
          t.estado.tokens = aplanar opciones ∧ ∀ v, (.t, v) ∉ opciones) := by
  have hinv := Inv.of_run hnul hrun
  obtain ⟨acts', hsystem⟩ := hinv.exists_run hrun
  obtain ⟨j, fe, c, q, t, hmade, ht, hasked⟩ :=
    hinv.asked i (hinv.length_procs ▸ (List.getElem?_eq_some_iff.mp hproc).1)
  have hcall : hinv.cs.list[i]? = some (fe.d, c) := hmade.2.2.1
  constructor
  · intro hkeep w hw
    obtain ⟨i', hi'⟩ := List.mem_iff_getElem?.mp hw
    exact (Calls.safe_of_run (hkeep.cs hinv) hsystem hcall hproc).ne_oops
      (Calls.sound_of_run hsystem hcall hproc) hi'
  · intro hoops
    rcases hasked with ⟨-, r, p', hproc', hpc'⟩ | ⟨hwaits, hq⟩
    · cases hproc.symm.trans hproc'
      rw [hoops] at hpc'
      cases hpc'
    rcases numHilos_cases hq with hpos | ⟨hd, opciones, htokens, hsin⟩
    · -- a positive number of threads is no zero divisor
      refine absurd hoops (Calls.forall_procs_of_run
        (I := fun _ c s => 1 ≤ c.args.numThreads.toInt → s.caller ≠ .oops) (fun _ _ _ _ h => h)
        (fun _ _ _ _ h => by cases h) (fun d c s a s' h hstep hn =>
          Syscall.caller_ne_oops_of_step hn (h hn) hstep) hsystem hcall hproc ?_)
      rw [hmade.2.2.2.1.numThreads]
      exact one_le_toInt_iff.mpr hpos
    · exact ⟨j, fe, t, opciones, hmade.2.1, hd, ht, hwaits, htokens, hsin⟩

/-- For the line `-p a -o b -k k` the calling thread of an `encrypt_app` is killed, and with
`-t 1` the worker is not. -/
theorem killed_without_threads_sample :
    (∃ W p, World.Run [⟨.encrypt, 0⟩] atoiDecimal (.idle sampleFiles) [sampleInput []]
        (.comando 0 sampleEnv :: List.replicate 18 (.kernel 0 .caller)) W ∧
      W.system.procs[0]? = some p ∧ p.caller = .oops ∧
      ∃ (j : ℕ) (fe : FrontEnd) (t : Terminal) (opciones : List (Opcion × Cadena)),
        [(⟨.encrypt, 0⟩ : FrontEnd)][j]? = some fe ∧ fe.d = .encrypt ∧
          W.terminals[j]? = some t ∧ t.inCall = some 0 ∧ t.estado.tokens = aplanar opciones ∧
            ∀ v, (.t, v) ∉ opciones) ∧
    ∃ W p, World.Run [⟨.encrypt, 0⟩] atoiDecimal (.idle sampleFiles) [sampleInput [(.t, [49])]]
        sampleSession W ∧ W.KeepsWorkers ∧ W.system.procs[0]? = some p ∧ p.workers.length = 1 ∧
      ∀ w ∈ p.workers, w.pc ≠ .oops := by
  constructor
  · have hresult : (run (World.step [⟨.encrypt, 0⟩] atoiDecimal)
        (World.start (.idle sampleFiles) [sampleInput []])
          (.comando 0 sampleEnv :: List.replicate 18 (.kernel 0 .caller))).map
          (fun W => W.system.procs[0]?.map fun p => p.caller matches .oops) = some (some true) := by
      decide +kernel
    obtain ⟨W, hrun, hW⟩ := Option.map_eq_some_iff.mp hresult
    obtain ⟨p, hproc, hp⟩ := Option.map_eq_some_iff.mp hW
    have hoops : p.caller = .oops := by
      cases hpc : p.caller <;> simp [hpc] at hp ⊢
    exact ⟨W, p, hrun, hproc, hoops,
      (killed_only_without_threads (sampleInput_nul _) hrun hproc).2 hoops⟩
  · have hresult : (run (World.step [⟨.encrypt, 0⟩] atoiDecimal)
        (World.start (.idle sampleFiles) [sampleInput [(.t, [49])]]) sampleSession).map
          (fun W => (decide W.KeepsWorkers, W.system.procs[0]?.map fun p => p.workers.length)) =
        some (true, some 1) := by
      decide +kernel
    obtain ⟨W, hrun, hW⟩ := Option.map_eq_some_iff.mp hresult
    obtain ⟨hkeep, hW⟩ := Prod.mk_inj.mp hW
    obtain ⟨p, hproc, hlen⟩ := Option.map_eq_some_iff.mp hW
    have hkeep := of_decide_eq_true hkeep
    exact ⟨W, p, hrun, hkeep, hproc, hlen,
      (killed_only_without_threads (sampleInput_nul _) hrun hproc).1 hkeep⟩

end World

/-! ## Answers -/

/-- The actions that bring the answer to a command closer: all but reading the next one. -/
def WorldAct.Answers : WorldAct → Bool
  | .comando _ _ => false
  | .kernel _ _ | .retorno _ => true

namespace World

variable {fes : List FrontEnd} {atoi : Cadena → Int32} {k : Kernel}
  {inputs : List (Buffer × List UInt8)} {acts : List WorldAct} {W W' : World}

/-- One action that is not a new command. -/
def answer (fes : List FrontEnd) (atoi : Cadena → Int32) (W : World) (a : WorldAct) :
    Option World :=
  if a.Answers then W.step fes atoi a else none

/-- The number of front ends that wait for a system call. -/
def waiting (W : World) : ℕ := W.terminals.countP fun t => t.inCall.isSome

/-- A front end that goes on waits no more. -/
lemma waiting_advance {j i : ℕ} {t : Terminal} (ht : W.terminals[j]? = some t)
    (hi : t.inCall = some i) (e : Estado) : (W.advance j e).waiting < W.waiting := by
  obtain ⟨hlt, rfl⟩ := List.getElem?_eq_some_iff.mp ht
  have hpos : 0 < W.waiting :=
    List.countP_pos_iff.mpr ⟨_, List.getElem_mem hlt, by rw [hi]; rfl⟩
  rw [waiting, advance, List.countP_set hlt, hi]
  simpa [waiting] using hpos

/-- What an answer leaves as it is, and what it makes smaller. -/
lemma rank_lt_of_answer (hinv : W.Inv fes atoi) (hkeep : W.KeepsWorkers)
    (hrun : World.Run fes atoi k inputs acts W)
    {a : WorldAct} (h : W.answer fes atoi a = some W') : W'.calls = W.calls ∧
      (hinv.cs.rank W'.system < hinv.cs.rank W.system ∨
        W'.system = W.system ∧ W'.waiting < W.waiting) := by
  unfold answer at h
  split at h
  case isFalse => cases h
  case isTrue ha =>
    cases move_of_step h with
    | call | iterate => cases ha
    | @kernel i d c p a s hcall hproc hs =>
      obtain ⟨acts', hsystem⟩ := hinv.exists_run hrun
      refine ⟨rfl, .inl (Calls.rank_lt_of_step (hkeep.cs hinv) hsystem (a := (i, a)) ?_)⟩
      exact Calls.step_eq_some_iff.mpr ⟨d, c, p, s, hcall, hproc, hs, rfl⟩
    | finish hfe ht hcall => exact ⟨rfl, .inr ⟨rfl, waiting_advance ht hcall _⟩⟩

/-- The answers to the commands given so far are finitely many steps away. -/
lemma terminates_answer (hnul : ∀ x ∈ inputs, 0 ∈ x.1.bytes ∨ x.2 ≠ []) (hkeep : W.KeepsWorkers)
    (hrun : World.Run fes atoi k inputs acts W) : Terminates (World.answer fes atoi) W := by
  have hinv := Inv.of_run hnul hrun
  refine terminates_of_rank
    (I := fun W' => W'.calls = W.calls ∧ ∃ acts', World.Run fes atoi k inputs acts' W')
    (fun W' => toLex (hinv.cs.rank W'.system, W'.waiting)) ?_ ⟨rfl, acts, hrun⟩
  rintro W₁ a W₂ ⟨hcalls, acts', hrun₁⟩ hstep
  have hinv₁ := Inv.of_run hnul hrun₁
  have hcs : hinv₁.cs = hinv.cs := by simp only [Inv.cs, hcalls]
  have hkeep₁ : W₁.KeepsWorkers := by rwa [KeepsWorkers, hcalls]
  obtain ⟨hcalls₂, hlt⟩ := rank_lt_of_answer hinv₁ hkeep₁ hrun₁ hstep
  refine ⟨⟨hcalls₂.trans hcalls, acts' ++ [a], ?_⟩, ?_⟩
  · rw [answer] at hstep
    split at hstep
    · rw [World.Run] at hrun₁ ⊢
      rw [run_concat, hrun₁]
      exact hstep
    · cases hstep
  · rw [hcs] at hlt
    rw [Prod.Lex.toLex_lt_toLex]
    exact hlt.imp_right fun h => ⟨by rw [h.1], h.2⟩

/-- In every run of any number of front ends whose calls leave no worker behind: a front end that
waits for a system call can be brought closer to its answer, by a step of the kernel or the return
of a call, unless the call was killed by a division by zero; and no more than finitely many such
steps can follow each other. -/
theorem commands_answered (hnul : ∀ x ∈ inputs, 0 ∈ x.1.bytes ∨ x.2 ≠ [])
    (hfree : ∀ m, k.holder m = none) (hkeep : W.KeepsWorkers)
    (hrun : World.Run fes atoi k inputs acts W) :
    ((∃ a W', World.answer fes atoi W a = some W') ∨
      ∀ t ∈ W.terminals, ∀ i, t.inCall = some i →
        ∃ p, W.system.procs[i]? = some p ∧ p.caller = .oops) ∧
    Terminates (World.answer fes atoi) W := by
  refine ⟨?_, terminates_answer hnul hkeep hrun⟩
  by_contra hcon
  obtain ⟨hstuck, hcon⟩ := not_or.mp hcon
  refine hcon fun t ht i hi => ?_
  obtain ⟨j, ht⟩ := List.mem_iff_getElem?.mp ht
  have hstuck : ∀ a, World.answer fes atoi W a = none := fun a =>
    Option.eq_none_iff_forall_ne_some.mpr fun W' hW' => hstuck ⟨a, W', hW'⟩
  have hinv := Inv.of_run hnul hrun
  obtain ⟨acts', hsystem⟩ := hinv.exists_run hrun
  obtain ⟨hgoing, fe, c, q, hmade, -⟩ := hinv.waits j t ht i hi
  have hcall : hinv.cs.list[i]? = some (fe.d, c) := hmade.2.2.1
  have hlt : i < W.system.procs.length :=
    hinv.length_procs ▸ (List.getElem?_eq_some_iff.mp hcall).1
  have hproc := List.getElem?_eq_getElem hlt
  generalize W.system.procs[i] = p at hproc
  refine ⟨p, hproc, ?_⟩
  by_contra hoops
  -- no step of the kernel
  have hnone : ∀ a, hinv.cs.step W.system a = none := by
    rintro ⟨i', a⟩
    refine Option.eq_none_iff_forall_ne_some.mpr fun S hS => ?_
    obtain ⟨d', c', p', s, hcall', hproc', hs, rfl⟩ := Calls.step_eq_some_iff.mp hS
    have hcall' : W.calls[i']? = some (d', c') := hcall'
    have hanswer := hstuck (.kernel i' a)
    simp only [answer, WorldAct.Answers, if_true, World.step, hcall', hproc', hs] at hanswer
    cases hanswer
  rcases Syscall.caller_blocked (Calls.sound_of_run hsystem hcall hproc) hoops
    (Calls.step_eq_none hcall hproc (hnone _)) with ⟨r, hr⟩ | ⟨-, i', w, -, hw, hexit⟩
  · -- the call has returned, so the front end can go on
    have hr : p.caller = .returned r := hr
    obtain ⟨e, he⟩ := exists_iterar hgoing fe.d atoi (resultadoLibc r)
    have hanswer := hstuck (.retorno j)
    simp only [answer, WorldAct.Answers, if_true, World.step, hmade.2.1, ht, hi, Option.bind_some,
      hproc, Option.map_some, hr, he] at hanswer
    cases hanswer
  · obtain ⟨r, hr⟩ := Calls.exited_of_stuck (hkeep.cs hinv) hsystem hfree hnone hproc
      (List.mem_of_getElem? hw)
    exact hexit r hr

/-- An `encrypt_app` that has just given a command to the kernel is not stuck. -/
theorem commands_answered_sample :
    ∃ W, World.Run [⟨.encrypt, 0⟩] atoiDecimal (.idle sampleFiles) [sampleInput [(.t, [49])]]
        (sampleSession.take 1) W ∧ W.KeepsWorkers ∧
      (∃ t ∈ W.terminals, t.inCall = some 0) ∧
      (∃ a W', World.answer [⟨.encrypt, 0⟩] atoiDecimal W a = some W') ∧
      Terminates (World.answer [⟨.encrypt, 0⟩] atoiDecimal) W := by
  have hresult : (run (World.step [⟨.encrypt, 0⟩] atoiDecimal)
      (World.start (.idle sampleFiles) [sampleInput [(.t, [49])]]) (sampleSession.take 1)).map
        (fun W => (decide W.KeepsWorkers, W.terminals.map Terminal.inCall,
          W.system.procs[0]?.map fun p => p.caller matches .oops)) =
      some (true, [some 0], some false) := by
    decide +kernel
  obtain ⟨W, hrun, hW⟩ := Option.map_eq_some_iff.mp hresult
  obtain ⟨hkeep, hW⟩ := Prod.mk_inj.mp hW
  obtain ⟨hcalls, hprocs⟩ := Prod.mk_inj.mp hW
  have hkeep := of_decide_eq_true hkeep
  have ht : ∃ t ∈ W.terminals, t.inCall = some 0 := by
    simpa [hcalls] using List.mem_map (f := Terminal.inCall) (b := some 0) (l := W.terminals)
  refine ⟨W, hrun, hkeep, ht, ?_⟩
  refine (commands_answered (sampleInput_nul _) (fun _ => rfl) hkeep hrun).imp_left fun h => ?_
  refine h.resolve_right fun hkilled => ?_
  obtain ⟨t, ht, hcall⟩ := ht
  obtain ⟨p, hproc, hoops⟩ := hkilled t ht 0 hcall
  simp [hproc, hoops] at hprocs

end World

end XorSyscalls
