import XorSyscalls.Apps.Punteros
import XorSyscalls.Apps.Session
import XorSyscalls.Concurrent.Isolation
import XorSyscalls.Concurrent.Progress

/-!
# Front ends and system calls together

Any number of front ends run at the same time over one kernel.  Each of them reads its own input,
and each command that it accepts is a new system call, with the pointers into its array `comando`.
The front end waits until the call has returned; the C library turns an error number into `-1`.
Workers that a call leaves behind go on, whatever the front end does next.

`World.Inv` connects the two sides: the system calls made so far are a run of `Calls.step`, every
call was made for a command that a front end has accepted, and what a front end has seen of a call
is what the call has returned.
-/

namespace XorSyscalls

open TransitionSystem

/-- A front end: `encrypt_app` or `decrypt_app`, with the address of its array `comando`. -/
structure FrontEnd where
  d : Syscall
  comando : ℕ

/-- The state of a front end, and the number of the system call that it waits for. -/
structure Terminal where
  estado : Estado
  inCall : Option ℕ

/-- The kernel with the system calls made so far, the front ends that have made them, and the states
of the front ends. -/
structure World where
  system : System
  calls : List (Syscall × Call)
  makers : List ℕ
  terminals : List Terminal

/-- The actions a scheduler can choose. -/
inductive WorldAct
  /-- Front end `j` reads a command and interprets it.  If it makes a system call, `env` gives the
  answers of the rest of the system to it. -/
  | comando (j : ℕ) (env : Env)
  /-- A step of system call `i`. -/
  | kernel (i : ℕ) (a : Act)
  /-- The system call of front end `j` returns to it. -/
  | retorno (j : ℕ)

/-- More calls at their entries. -/
def System.extend (S : System) (calls : List (Syscall × Call)) : System :=
  ⟨S.kernel, S.procs ++ calls.map fun x => ⟨.entry (x.1.prepares x.2.args), []⟩⟩

/-- The value that `syscall` of the C library returns. -/
def resultadoLibc (r : ℤ) : ℤ := if -4095 ≤ r ∧ r ≤ -1 then -1 else r

namespace World

/-- The front ends before their first command, each with its array `comando` and its input. -/
def start (k : Kernel) (inputs : List (Buffer × List UInt8)) : World :=
  ⟨⟨k, []⟩, [], [], inputs.map fun x => ⟨.inicio x.1 x.2, none⟩⟩

/-- The world after a front end has made the system call `c`. -/
def call (W : World) (j : ℕ) (t : Terminal) (d : Syscall) (c : Call) : World :=
  ⟨W.system.extend [(d, c)], W.calls ++ [(d, c)], W.makers ++ [j],
    W.terminals.set j { t with inCall := some W.calls.length }⟩

/-- The world after front end `j` has got to the state `e`. -/
def advance (W : World) (j : ℕ) (e : Estado) : World :=
  { W with terminals := W.terminals.set j ⟨e, none⟩ }

variable (fes : List FrontEnd) (atoi : Cadena → Int32)

/-- One action. -/
def step (W : World) : WorldAct → Option World
  | .comando j env =>
    match fes[j]?, W.terminals[j]? with
    | some fe, some t =>
      if t.inCall.isSome ∨ t.estado.terminado then none
      else
        match fe.d.llamada atoi fe.comando t.estado W.calls.length env with
        | some c => some (W.call j t fe.d c)
        | none => (fe.d.iterar atoi t.estado 0).map (W.advance j)
    | _, _ => none
  | .kernel i a =>
    match W.calls[i]?, W.system.procs[i]? with
    | some (d, c), some p =>
      (d.step c (W.system.view p) a).map fun s => { W with system := W.system.put i s }
    | _, _ => none
  | .retorno j =>
    match fes[j]?, W.terminals[j]? with
    | some fe, some t =>
      match t.inCall.bind fun i => W.system.procs[i]?.map Process.caller with
      | some (.returned r) => (fe.d.iterar atoi t.estado (resultadoLibc r)).map (W.advance j)
      | _ => none
    | _, _ => none

/-- The runs of the front ends from their start with the kernel state `k`. -/
def Run (k : Kernel) (inputs : List (Buffer × List UInt8)) (acts : List WorldAct) (W : World) :
    Prop :=
  run (step fes atoi) (start k inputs) acts = some W

/-- What one action does. -/
inductive Move (W : World) : WorldAct → World → Prop
  /-- A front end makes a system call. -/
  | call {j : ℕ} {fe t env c} (hfe : fes[j]? = some fe) (ht : W.terminals[j]? = some t)
      (hfree : t.inCall = none) (hgoing : t.estado.terminado = false)
      (hc : fe.d.llamada atoi fe.comando t.estado W.calls.length env = some c) :
    Move W (.comando j env) (W.call j t fe.d c)
  /-- A front end finishes an iteration in which it makes no system call. -/
  | iterate {j : ℕ} {fe t env e} (hfe : fes[j]? = some fe) (ht : W.terminals[j]? = some t)
      (hfree : t.inCall = none)
      (hc : fe.d.llamada atoi fe.comando t.estado W.calls.length env = none)
      (he : fe.d.iterar atoi t.estado 0 = some e) : Move W (.comando j env) (W.advance j e)
  /-- A system call takes a step. -/
  | kernel {i : ℕ} {d c p a s} (hcall : W.calls[i]? = some (d, c))
      (hproc : W.system.procs[i]? = some p) (hs : d.step c (W.system.view p) a = some s) :
    Move W (.kernel i a) { W with system := W.system.put i s }
  /-- A front end finishes an iteration with the result of its system call. -/
  | finish {j : ℕ} {fe t} {i : ℕ} {p r e} (hfe : fes[j]? = some fe) (ht : W.terminals[j]? = some t)
      (hcall : t.inCall = some i) (hproc : W.system.procs[i]? = some p)
      (hpc : p.caller = .returned r)
      (he : fe.d.iterar atoi t.estado (resultadoLibc r) = some e) :
    Move W (.retorno j) (W.advance j e)

variable {fes atoi}

/-- Every action is one of the moves. -/
lemma move_of_step {W W' : World} {a : WorldAct} (h : W.step fes atoi a = some W') :
    W.Move fes atoi a W' := by
  cases a with
  | comando j env =>
    simp only [step] at h
    split at h
    · rename_i fe t hfe ht
      split at h
      · cases h
      · rename_i hready
        rw [not_or, Option.not_isSome_iff_eq_none, Bool.not_eq_true] at hready
        split at h
        · rename_i c hc
          cases h
          exact .call hfe ht hready.1 hready.2 hc
        · rename_i hc
          obtain ⟨e, he, rfl⟩ := Option.map_eq_some_iff.mp h
          exact .iterate hfe ht hready.1 hc he
    · cases h
  | kernel i a' =>
    simp only [step] at h
    split at h
    · rename_i d c p hcall hproc
      obtain ⟨s, hs, rfl⟩ := Option.map_eq_some_iff.mp h
      exact .kernel hcall hproc hs
    · cases h
  | retorno j =>
    simp only [step] at h
    split at h
    · rename_i fe t hfe ht
      split at h
      · rename_i r hr
        obtain ⟨e, he, rfl⟩ := Option.map_eq_some_iff.mp h
        obtain ⟨i, hi, hp⟩ := Option.bind_eq_some_iff.mp hr
        obtain ⟨p, hp, hpc⟩ := Option.map_eq_some_iff.mp hp
        exact .finish hfe ht hi hp hpc he
      · cases h
    · cases h

end World

/-! ## The system calls made so far -/

/-- Calls that have not begun yet do not change what the others do. -/
lemma Calls.step_extend {cs : Calls} {S : System} {i : ℕ} {d : Syscall} {c : Call} {p : Process}
    {a : Act} {s : State} (later : List (Syscall × Call)) (hcall : cs.list[i]? = some (d, c))
    (hproc : S.procs[i]? = some p) (hs : d.step c (S.view p) a = some s) :
    cs.step (S.extend later) (i, a) = some ((S.put i s).extend later) := by
  have hlt := (List.getElem?_eq_some_iff.mp hproc).1
  refine step_eq_some_iff.mpr ⟨d, c, p, s, hcall, ?_, hs, ?_⟩
  · rw [System.extend, List.getElem?_append_left hlt, hproc]
  · simp only [System.put, System.extend, List.set_append_left _ _ hlt]

/-- The calls that are made later come after the others. -/
lemma System.extend_extend (S : System) (l l' : List (Syscall × Call)) :
    (S.extend l).extend l' = S.extend (l ++ l') := by
  simp [System.extend]

/-- A run of the world is a run of the system calls, in which the calls that are still to come wait
at their entries. -/
theorem World.run_system {fes : List FrontEnd} {atoi : Cadena → Int32} {W₀ W : World}
    {acts : List WorldAct} (hrun : run (World.step fes atoi) W₀ acts = some W) :
    ∃ rest acts', W.calls = W₀.calls ++ rest ∧
      ∀ (cs : Calls) (later : List (Syscall × Call)), cs.list = W.calls ++ later →
        run cs.step (W₀.system.extend (rest ++ later)) acts' = some (W.system.extend later) := by
  refine run_invariant (I := fun W : World => ∃ rest acts', W.calls = W₀.calls ++ rest ∧
    ∀ (cs : Calls) (later : List (Syscall × Call)), cs.list = W.calls ++ later →
      run cs.step (W₀.system.extend (rest ++ later)) acts' = some (W.system.extend later))
    ⟨[], [], ?_⟩ ?_ hrun
  · simp
  · rintro W a W' ⟨rest, acts', hcalls, hsystem⟩ hstep
    cases move_of_step hstep with
    | @call j fe t env c =>
      refine ⟨rest ++ [(fe.d, c)], acts', ?_, fun cs later hcs => ?_⟩
      · rw [World.call, hcalls, List.append_assoc]
      · rw [World.call, List.append_assoc] at hcs
        rw [World.call, System.extend_extend, List.append_assoc]
        exact hsystem cs _ hcs
    | iterate => exact ⟨rest, acts', hcalls, hsystem⟩
    | @kernel i d c p a s hcall hproc hs =>
      refine ⟨rest, acts' ++ [(i, a)], hcalls, fun cs later hcs => ?_⟩
      rw [run_concat, hsystem cs later hcs, Option.bind_some]
      refine Calls.step_extend later ?_ hproc hs
      rw [hcs, List.getElem?_append_left (List.getElem?_eq_some_iff.mp hcall).1, hcall]
    | finish => exact ⟨rest, acts', hcalls, hsystem⟩

/-- The system calls of a world from its start. -/
lemma World.exists_run {fes : List FrontEnd} {atoi : Cadena → Int32} {k : Kernel}
    {inputs : List (Buffer × List UInt8)} {acts : List WorldAct} {W : World}
    (hrun : World.Run fes atoi k inputs acts W) {cs : Calls} {later : List (Syscall × Call)}
    (hcs : cs.list = W.calls ++ later) : ∃ acts', cs.Run k acts' (W.system.extend later) := by
  obtain ⟨rest, acts', hcalls, hsystem⟩ := World.run_system hrun
  obtain rfl : W.calls = rest := hcalls
  have hstart : (World.start k inputs).system.extend (W.calls ++ later) = System.start cs k := by
    simp [World.start, System.extend, System.start, hcs]
  have hsystem := hsystem cs later hcs
  rw [hstart] at hsystem
  exact ⟨acts', hsystem⟩

/-- Front end `j` makes call `i` in the world `W₀`, and `W` is what comes of it later. -/
def World.MakesIn (fes : List FrontEnd) (atoi : Cadena → Int32) (W₀ : World) (i j : ℕ)
    (W : World) : Prop :=
  W₀.calls.length = i ∧ ∃ env d t c acts,
    W₀.Move fes atoi (.comando j env) (W₀.call j t d c) ∧
      run (World.step fes atoi) (W₀.call j t d c) acts = some W

/-- Every call was made by its front end in some world that the run has passed. -/
theorem World.exists_makesIn {fes : List FrontEnd} {atoi : Cadena → Int32} {k : Kernel}
    {inputs : List (Buffer × List UInt8)} {acts : List WorldAct} {W : World}
    (hrun : World.Run fes atoi k inputs acts W) {i j : ℕ} (hj : W.makers[i]? = some j) :
    ∃ acts₀ W₀, acts₀ <+: acts ∧ World.Run fes atoi k inputs acts₀ W₀ ∧
      World.MakesIn fes atoi W₀ i j W := by
  have hboth : W.makers.length = W.calls.length ∧ ∀ {i j : ℕ}, W.makers[i]? = some j →
      ∃ acts₀ W₀, acts₀ <+: acts ∧ World.Run fes atoi k inputs acts₀ W₀ ∧
        World.MakesIn fes atoi W₀ i j W := by
    refine run_induction (motive := fun acts W => W.makers.length = W.calls.length ∧
      ∀ {i j : ℕ}, W.makers[i]? = some j → ∃ acts₀ W₀, acts₀ <+: acts ∧
        World.Run fes atoi k inputs acts₀ W₀ ∧ World.MakesIn fes atoi W₀ i j W) ?_ ?_ hrun
    · exact ⟨rfl, fun hj => by simp [World.start] at hj⟩
    · rintro acts W a W' hW ⟨hlen, ih⟩ hstep
      have hold : ∀ {i j : ℕ}, W.makers[i]? = some j → ∃ acts₀ W₀, acts₀ <+: acts ++ [a] ∧
          World.Run fes atoi k inputs acts₀ W₀ ∧ World.MakesIn fes atoi W₀ i j W' := by
        intro i j hj
        obtain ⟨acts₀, W₀, hpre, hW₀, hi, env, d, t, c, acts₁, hmove, hlater⟩ := ih hj
        refine ⟨acts₀, W₀, hpre.trans ⟨[a], rfl⟩, hW₀, hi, env, d, t, c,
          acts₁ ++ [a], hmove, ?_⟩
        rw [run_concat, hlater]
        exact hstep
      cases move_of_step hstep with
      | @call j fe t env c hfe ht hfree hgoing hc =>
        refine ⟨by simp [World.call, hlen], fun {i j'} hj' => ?_⟩
        rcases getElem?_concat_cases hj' with ⟨rfl, rfl⟩ | hj'
        · exact ⟨acts, W, ⟨_, rfl⟩, hW, hlen.symm, env, fe.d, t, c, [],
            .call hfe ht hfree hgoing hc, rfl⟩
        · exact hold hj'
      | iterate => exact ⟨hlen, hold⟩
      | kernel => exact ⟨hlen, hold⟩
      | finish => exact ⟨hlen, hold⟩
  exact hboth.2 hj

/-! ## What an iteration leaves behind -/

section Iterar

variable {d : Syscall} {atoi : Cadena → Int32} {e e' : Estado} {r : ℤ}

/-- The array holds a string after every iteration. -/
lemma zero_mem_of_iterar (hnul : 0 ∈ e.comando.bytes ∨ e.stdin ≠ [])
    (h : d.iterar atoi e r = some e') : 0 ∈ e'.comando.bytes := by
  have hleido := Buffer.zero_mem_leerComando hnul
  unfold Syscall.iterar at h
  split at h
  · cases h
  · dsimp only at h
    split at h
    · cases h
      exact hleido
    · cases h
      exact (zero_mem_separar 10 0 hleido).1 0 hleido

/-- The end of an iteration shows the system call of the iteration. -/
lemma eq_of_mem_ejecutar {x : Parametros Cadena} {n : ℕ} {q : Solicitud} {r' : ℤ}
    (hmem : .llamada n q r' ∈ d.ejecutar x r) : r' = r ∧ x.solicitud = some q := by
  unfold Syscall.ejecutar at hmem
  split at hmem
  · simp at hmem
  · rename_i q' hq'
    by_cases hr : r = 0
    · simp_all
    · simp_all

/-- The system calls that a front end has seen: those before, and the one of the iteration. -/
lemma mem_eventos_of_iterar (h : d.iterar atoi e r = some e') {n : ℕ} {q : Solicitud} {r' : ℤ}
    (hmem : .llamada n q r' ∈ e'.eventos) :
    .llamada n q r' ∈ e.eventos ∨
      (leerComando e.comando e.stdin).1.cadena ≠ salir ∧ r' = r ∧
        (d.interpretar atoi e.tokens).solicitud = some q := by
  unfold Syscall.iterar at h
  split at h
  · cases h
  · dsimp only at h
    split at h
    · cases h
      exact .inl (by simpa using hmem)
    · rename_i hsalir
      cases h
      simp only [List.mem_append, List.mem_cons, List.mem_map, reduceCtorEq, and_false,
        exists_false, false_or] at hmem
      exact hmem.imp_right fun hmem => ⟨hsalir, eq_of_mem_ejecutar hmem⟩

/-- An iteration adds the system call that its tokens ask for. -/
lemma llamadas_of_iterar (h : d.iterar atoi e r = some e') :
    e'.llamadas = e.llamadas ++ (d.interpretar atoi e.tokens).solicitud.toList := by
  obtain ⟨-, -, ⟨hsalir, -, -, heq⟩ | ⟨-, -, -, heq⟩⟩ := iterar_cases h
  · have htokens : e.tokens = [salir] := by
      rw [Estado.tokens, argumentos_eq_take_words, hsalir]
      rfl
    rw [heq, htokens, solicitud_singleton, Option.toList_none, List.append_nil]
  · exact heq

end Iterar

/-- A call that has returned stays so. -/
lemma Syscall.returned_of_step {d : Syscall} {c : Call} {s s' : State} {a : Act} {r : ℤ}
    (hpc : s.caller = .returned r) (h : d.step c s a = some s') : s'.caller = .returned r := by
  cases Syscall.move_of_step h with
  | worker => exact hpc
  | _ => simp_all

/-! ## The invariant -/

namespace World

variable {fes : List FrontEnd} {atoi : Cadena → Int32} {k : Kernel} {W W' : World}

/-- Call `i` is the call `c` that front end `j`, which is `fe`, has made for the request `q`. -/
def Made (W : World) (fes : List FrontEnd) (atoi : Cadena → Int32) (i j : ℕ) (fe : FrontEnd)
    (c : Call) (q : Solicitud) : Prop :=
  W.makers[i]? = some j ∧ fes[j]? = some fe ∧ W.calls[i]? = some (fe.d, c) ∧ c.Pide q ∧
    ∃ tokens, (fe.d.interpretar atoi tokens).solicitud = some q

/-- Call `i` has returned the value `r`. -/
def Returned (W : World) (i : ℕ) (r : ℤ) : Prop :=
  ∃ p, W.system.procs[i]? = some p ∧ p.caller = .returned r

/-- The request `q` of call `i` in the state of its front end: the call has returned, or the front
end waits for it. -/
def Asked (W : World) (atoi : Cadena → Int32) (i : ℕ) (fe : FrontEnd) (t : Terminal)
    (q : Solicitud) : Prop :=
  (q ∈ t.estado.llamadas ∧ ∃ r, W.Returned i r) ∨
    (t.inCall = some i ∧ (fe.d.interpretar atoi t.estado.tokens).solicitud = some q)

/-- The front end has seen the value `r` as the result of its request `q`. -/
def Seen (W : World) (fes : List FrontEnd) (atoi : Cadena → Int32) (j : ℕ) (q : Solicitud) (r : ℤ) :
    Prop :=
  ∃ i fe c r', W.Made fes atoi i j fe c q ∧ W.Returned i r' ∧ r = resultadoLibc r'

/-- The invariant of the front ends and their system calls. -/
structure Inv (fes : List FrontEnd) (atoi : Cadena → Int32) (W : World) : Prop where
  /-- The task of a call is its number. -/
  task_eq : ∀ (i : ℕ) x, W.calls[i]? = some x → x.2.task = i
  /-- Every call was made by a front end. -/
  length_makers : W.makers.length = W.calls.length
  /-- Every call has a private state. -/
  length_procs : W.system.procs.length = W.calls.length
  /-- The arrays hold strings. -/
  nul : ∀ (j : ℕ) t, W.terminals[j]? = some t →
    0 ∈ t.estado.comando.bytes ∨ t.estado.stdin ≠ []
  /-- Every call was made for a request of a front end. -/
  asked : ∀ i < W.calls.length, ∃ j fe c q t, W.Made fes atoi i j fe c q ∧
    W.terminals[j]? = some t ∧ W.Asked atoi i fe t q
  /-- A front end in a call waits for the call of its command. -/
  waits : ∀ (j : ℕ) t, W.terminals[j]? = some t → ∀ i, t.inCall = some i →
    t.estado.terminado = false ∧ ∃ fe c q, W.Made fes atoi i j fe c q ∧
      (fe.d.interpretar atoi t.estado.tokens).solicitud = some q
  /-- What a front end has seen of its calls. -/
  seen : ∀ (j : ℕ) t, W.terminals[j]? = some t → ∀ n q r, .llamada n q r ∈ t.estado.eventos →
    W.Seen fes atoi j q r

/-- Calls whose tasks are their numbers are made by different tasks. -/
lemma nodup_of_task_eq {l : List (Syscall × Call)}
    (h : ∀ (i : ℕ) x, l[i]? = some x → x.2.task = i) : (l.map fun x => x.2.task).Nodup := by
  have hrange : (l.map fun x => x.2.task) = List.range l.length := by
    refine List.ext_getElem (by simp) fun i hi _ => ?_
    rw [List.getElem_map, List.getElem_range]
    exact h i _ (List.getElem?_eq_getElem (by simpa using hi))
  exact hrange ▸ List.nodup_range

/-! ### What stays when a call is added -/

section Call

variable {i j : ℕ} {t : Terminal} {d : Syscall} {c : Call}

lemma Made.call {j' : ℕ} {fe : FrontEnd} {c' : Call} {q : Solicitud}
    (h : W.Made fes atoi i j' fe c' q) : (W.call j t d c).Made fes atoi i j' fe c' q := by
  obtain ⟨hmaker, hfe, hcall, hrest⟩ := h
  refine ⟨?_, hfe, ?_, hrest⟩
  · exact (List.getElem?_append_left (List.getElem?_eq_some_iff.mp hmaker).1).trans hmaker
  · exact (List.getElem?_append_left (List.getElem?_eq_some_iff.mp hcall).1).trans hcall

lemma Returned.call {r : ℤ} (h : W.Returned i r) : (W.call j t d c).Returned i r := by
  obtain ⟨p, hproc, hpc⟩ := h
  exact ⟨p, (List.getElem?_append_left (List.getElem?_eq_some_iff.mp hproc).1).trans hproc, hpc⟩

lemma Seen.call {j' : ℕ} {q : Solicitud} {r : ℤ} (h : W.Seen fes atoi j' q r) :
    (W.call j t d c).Seen fes atoi j' q r := by
  obtain ⟨i, fe, c', r', hmade, hr', hr⟩ := h
  exact ⟨i, fe, c', r', hmade.call, hr'.call, hr⟩

lemma Asked.call {fe : FrontEnd} {t' : Terminal} {q : Solicitud} (h : W.Asked atoi i fe t' q) :
    (W.call j t d c).Asked atoi i fe t' q :=
  h.imp_left fun ⟨hmem, r, hr⟩ => ⟨hmem, r, hr.call⟩

end Call

/-! ### What stays when a call takes a step -/

section Kernel

variable {i j : ℕ} {d : Syscall} {c : Call} {p : Process} {a : Act} {s : State}

lemma Returned.kernel {r : ℤ} (h : W.Returned i r) (hproc : W.system.procs[j]? = some p)
    (hs : d.step c (W.system.view p) a = some s) :
    Returned { W with system := W.system.put j s } i r := by
  obtain ⟨p', hproc', hpc⟩ := h
  rcases eq_or_ne j i with rfl | hne
  · obtain rfl := Option.some_inj.mp (hproc.symm.trans hproc')
    exact ⟨_, List.getElem?_set_self (List.getElem?_eq_some_iff.mp hproc).1,
      Syscall.returned_of_step (s := W.system.view p) hpc hs⟩
  · exact ⟨p', (List.getElem?_set_ne hne).trans hproc', hpc⟩

lemma Seen.kernel {j' : ℕ} {q : Solicitud} {r : ℤ} (h : W.Seen fes atoi j' q r)
    (hproc : W.system.procs[j]? = some p) (hs : d.step c (W.system.view p) a = some s) :
    Seen { W with system := W.system.put j s } fes atoi j' q r := by
  obtain ⟨i, fe, c', r', hmade, hr', hr⟩ := h
  exact ⟨i, fe, c', r', hmade, hr'.kernel hproc hs, hr⟩

lemma Asked.kernel {fe : FrontEnd} {t : Terminal} {q : Solicitud} (h : W.Asked atoi i fe t q)
    (hproc : W.system.procs[j]? = some p) (hs : d.step c (W.system.view p) a = some s) :
    Asked { W with system := W.system.put j s } atoi i fe t q :=
  h.imp_left fun ⟨hmem, r, hr⟩ => ⟨hmem, r, hr.kernel hproc hs⟩

end Kernel

/-! ### Every action keeps the invariant -/

namespace Inv

/-- The invariant holds before the first command. -/
lemma start {inputs : List (Buffer × List UInt8)} (h : ∀ x ∈ inputs, 0 ∈ x.1.bytes ∨ x.2 ≠ []) :
    (start k inputs).Inv fes atoi where
  task_eq := fun i x hx => by simp [World.start] at hx
  length_makers := rfl
  length_procs := rfl
  nul := fun j t ht => by
    simp only [World.start, List.getElem?_map] at ht
    obtain ⟨x, hx, rfl⟩ := Option.map_eq_some_iff.mp ht
    exact h x (List.mem_of_getElem? hx)
  asked := fun i hi => absurd hi (Nat.not_lt_zero i)
  waits := fun j t ht i hi => by
    simp only [World.start, List.getElem?_map] at ht
    obtain ⟨x, -, rfl⟩ := Option.map_eq_some_iff.mp ht
    cases hi
  seen := fun j t ht n q r hmem => by
    simp only [World.start, List.getElem?_map] at ht
    obtain ⟨x, -, rfl⟩ := Option.map_eq_some_iff.mp ht
    cases hmem

/-- A front end makes a system call. -/
lemma call (h : W.Inv fes atoi) {j : ℕ} {fe : FrontEnd} {t : Terminal} {env : Env} {c : Call}
    (hfe : fes[j]? = some fe) (ht : W.terminals[j]? = some t) (hfree : t.inCall = none)
    (hgoing : t.estado.terminado = false)
    (hc : fe.d.llamada atoi fe.comando t.estado W.calls.length env = some c) :
    (W.call j t fe.d c).Inv fes atoi := by
  obtain ⟨htask, q, hq, hpide⟩ := pide_of_llamada (h.nul j t ht) hc
  have hself : (W.call j t fe.d c).terminals[j]? = some { t with inCall := some W.calls.length } :=
    List.getElem?_set_self (List.getElem?_eq_some_iff.mp ht).1
  have hmade : (W.call j t fe.d c).Made fes atoi W.calls.length j fe c q :=
    ⟨by simp [World.call, ← h.length_makers], hfe, by simp [World.call], hpide, _, hq⟩
  refine ⟨forall_getElem?_concat h.task_eq htask, ?_, ?_, forall_getElem?_set h.nul (h.nul j t ht),
    ?_, ?_, ?_⟩
  · simp [World.call, h.length_makers]
  · simp [World.call, System.extend, h.length_procs]
  · intro i hi
    rw [World.call, List.length_append, List.length_singleton, Nat.lt_succ_iff_lt_or_eq] at hi
    rcases hi with hi | rfl
    · obtain ⟨j', fe', c', q', t', hmade', ht', hasked⟩ := h.asked i hi
      rcases eq_or_ne j j' with rfl | hne
      · -- the front end has not waited for call `i`
        obtain rfl := Option.some_inj.mp (ht.symm.trans ht')
        refine ⟨j, fe', c', q', _, hmade'.call, hself, hasked.call.imp_right ?_⟩
        rintro ⟨hcall, -⟩
        rw [hfree] at hcall
        cases hcall
      · exact ⟨j', fe', c', q', t', hmade'.call, (List.getElem?_set_ne hne).trans ht', hasked.call⟩
    · exact ⟨j, fe, c, q, _, hmade, hself, .inr ⟨rfl, hq⟩⟩
  · refine forall_getElem?_set (fun j' t' ht' i hi => ?_) fun i hi => ?_
    · obtain ⟨hgoing', fe', c', q', hmade', hq'⟩ := h.waits j' t' ht' i hi
      exact ⟨hgoing', fe', c', q', hmade'.call, hq'⟩
    · obtain rfl := Option.some_inj.mp hi
      exact ⟨hgoing, fe, c, q, hmade, hq⟩
  · exact forall_getElem?_set (fun j' t' ht' n q' r hmem => (h.seen j' t' ht' n q' r hmem).call)
      fun n q' r hmem => (h.seen j t ht n q' r hmem).call

/-- A front end finishes an iteration, after its system call has returned if it has made one. -/
lemma advance (h : W.Inv fes atoi) {j : ℕ} {fe : FrontEnd} {t : Terminal} {r : ℤ} {e : Estado}
    (ht : W.terminals[j]? = some t) (hfe : fes[j]? = some fe)
    (he : fe.d.iterar atoi t.estado r = some e)
    (hret : ∀ i, t.inCall = some i → ∃ r', W.Returned i r')
    (hnew : ∀ q, (leerComando t.estado.comando t.estado.stdin).1.cadena ≠ salir →
      (fe.d.interpretar atoi t.estado.tokens).solicitud = some q → W.Seen fes atoi j q r) :
    (W.advance j e).Inv fes atoi where
  task_eq := h.task_eq
  length_makers := h.length_makers
  length_procs := h.length_procs
  nul := forall_getElem?_set h.nul (.inl (zero_mem_of_iterar (h.nul j t ht) he))
  asked := by
    intro i hi
    obtain ⟨j', fe', c, q, t', hmade, ht', hasked⟩ := h.asked i hi
    rcases eq_or_ne j j' with rfl | hne
    · obtain rfl := Option.some_inj.mp (ht.symm.trans ht')
      obtain rfl := Option.some_inj.mp (hfe.symm.trans hmade.2.1)
      refine ⟨j, fe, c, q, ⟨e, none⟩, hmade,
        List.getElem?_set_self (List.getElem?_eq_some_iff.mp ht).1, .inl ?_⟩
      rw [llamadas_of_iterar he]
      rcases hasked with ⟨hmem, hr⟩ | ⟨hi, hq⟩
      · exact ⟨List.mem_append_left _ hmem, hr⟩
      · exact ⟨List.mem_append_right _ (by simp [hq]), hret i hi⟩
    · exact ⟨j', fe', c, q, t', hmade, (List.getElem?_set_ne hne).trans ht', hasked⟩
  waits := forall_getElem?_set h.waits fun i hi => by cases hi
  seen := by
    refine forall_getElem?_set h.seen fun n q r' hmem => ?_
    rcases mem_eventos_of_iterar he hmem with hmem | ⟨hsalir, rfl, hq⟩
    · exact h.seen j t ht n q r' hmem
    · exact hnew q hsalir hq

/-- A system call takes a step. -/
lemma kernel (h : W.Inv fes atoi) {i : ℕ} {d : Syscall} {c : Call} {p : Process} {a : Act}
    {s : State} (hproc : W.system.procs[i]? = some p)
    (hs : d.step c (W.system.view p) a = some s) :
    Inv fes atoi { W with system := W.system.put i s } where
  task_eq := h.task_eq
  length_makers := h.length_makers
  length_procs := by simpa [System.put] using h.length_procs
  nul := h.nul
  asked := by
    intro i' hi'
    obtain ⟨j, fe, c', q, t, hmade, ht, hasked⟩ := h.asked i' hi'
    exact ⟨j, fe, c', q, t, hmade, ht, hasked.kernel hproc hs⟩
  waits := h.waits
  seen := fun j t ht n q r hmem => (h.seen j t ht n q r hmem).kernel hproc hs

/-- Every action keeps the invariant. -/
lemma move (h : W.Inv fes atoi) {a : WorldAct} (hmove : W.Move fes atoi a W') :
    W'.Inv fes atoi := by
  cases hmove with
  | call hfe ht hfree hgoing hc => exact h.call hfe ht hfree hgoing hc
  | iterate hfe ht hfree hc he =>
    refine h.advance ht hfe he (fun i hi => ?_) fun q hsalir hq => ?_
    · rw [hfree] at hi
      cases hi
    · rcases llamada_eq_none_iff.mp hc with heq | hnone
      · exact absurd heq hsalir
      · rw [hq] at hnone
        cases hnone
  | kernel _ hproc hs => exact h.kernel hproc hs
  | @finish j fe t i p r e hfe ht hcall hproc hpc he =>
    have hr : W.Returned i r := ⟨p, hproc, hpc⟩
    refine h.advance ht hfe he (fun i' hi' => ?_) fun q _ hq => ?_
    · cases hcall.symm.trans hi'
      exact ⟨r, hr⟩
    · obtain ⟨-, fe', c, q', hmade, hq'⟩ := h.waits j t ht i hcall
      obtain rfl := Option.some_inj.mp (hfe.symm.trans hmade.2.1)
      obtain rfl := Option.some_inj.mp (hq.symm.trans hq')
      exact ⟨i, fe, c, r, hmade, hr, rfl⟩

/-- The invariant holds in every run. -/
theorem of_run {inputs : List (Buffer × List UInt8)} {acts : List WorldAct}
    (hnul : ∀ x ∈ inputs, 0 ∈ x.1.bytes ∨ x.2 ≠ []) (hrun : World.Run fes atoi k inputs acts W) :
    W.Inv fes atoi :=
  run_invariant (I := Inv fes atoi) (.start hnul) (fun _ _ _ h hstep => h.move (move_of_step hstep))
    hrun

end Inv

end World

end XorSyscalls
