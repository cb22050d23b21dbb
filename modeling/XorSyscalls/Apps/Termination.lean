import XorSyscalls.Apps.Main

/-!
# The end of the command loop

The loop does not test whether `fgets` has read something.  At the end of the input the array keeps
what the splitting of the last command has left there, its first word, and this word is taken for
the next command, over and over.

`command_loop_terminates_iff` says for which inputs the loop ends, and `llamadas_of_run_eof` that an
endless loop performs no system call once its input is used up.
-/

namespace XorSyscalls

open TransitionSystem

/-- The commands that the calls of `fgets` deliver, up to the call that uses up the input. -/
def ordenes (b : Buffer) (stdin : List UInt8) : List Cadena :=
  (leerComando b stdin).1.cadena ::
    if h : (leerComando b stdin).2 = [] then []
    else
      have := length_resto_leerComando_lt h
      ordenes b (leerComando b stdin).2
termination_by stdin.length

/-- The command of the next iteration. -/
def Estado.orden (e : Estado) : Cadena := (leerComando e.comando e.stdin).1.cadena

section Ordenes

variable {b : Buffer} {stdin : List UInt8}

lemma ordenes_of_resto_eq_nil (h : (leerComando b stdin).2 = []) :
    ordenes b stdin = [(leerComando b stdin).1.cadena] := by
  rw [ordenes, dif_pos h]

lemma ordenes_of_resto_ne_nil (h : (leerComando b stdin).2 ≠ []) :
    ordenes b stdin = (leerComando b stdin).1.cadena :: ordenes b (leerComando b stdin).2 := by
  conv_lhs => rw [ordenes, dif_neg h]

lemma ordenes_ne_nil (b : Buffer) (stdin : List UInt8) : ordenes b stdin ≠ [] := by
  rw [ordenes]
  exact List.cons_ne_nil _ _

/-- While there is input the old content of the array does not matter. -/
lemma ordenes_congr (b b' : Buffer) (h : stdin ≠ []) : ordenes b stdin = ordenes b' stdin := by
  induction hn : stdin.length using Nat.strongRecOn generalizing stdin with
  | ind n ih =>
    obtain ⟨hcadena, hresto⟩ := leerComando_congr b b' h
    by_cases hend : (leerComando b' stdin).2 = []
    · rw [ordenes_of_resto_eq_nil (hresto.trans hend), ordenes_of_resto_eq_nil hend, hcadena]
    · have hlt := length_resto_leerComando_lt hend
      rw [ordenes_of_resto_ne_nil (hresto ▸ hend), ordenes_of_resto_ne_nil hend, hcadena, hresto,
        ih _ (hn ▸ hlt) hend rfl]

end Ordenes

section Iteration

variable {d : Syscall} {atoi : Cadena → Int32} {e e' : Estado} {r : ℤ}

/-- An iteration that interprets a command leaves its first word in the array. -/
lemma cadena_iterar (h : d.iterar atoi e r = some e') (hsalir : e.orden ≠ salir) :
    e'.comando.cadena = cortada e.orden := by
  have hcurso := (iterar_cases h).1
  unfold Estado.orden at hsalir
  unfold Syscall.iterar at h
  rw [hcurso, if_neg Bool.false_ne_true] at h
  dsimp only at h
  rw [if_neg hsalir, Option.some_inj] at h
  rw [← h]
  exact cadena_separar 9 _

/-- At the end of the input the next command is what the array holds. -/
lemma orden_eof (hstdin : e.stdin = []) : e.orden = e.comando.cadena.takeWhile (· ≠ salto) := by
  rw [Estado.orden, hstdin, cadena_leerComando_nil]

/-- No command has a newline. -/
lemma salto_not_mem_orden (e : Estado) : salto ∉ e.orden := by
  intro h
  by_cases hstdin : e.stdin = []
  · rw [orden_eof hstdin] at h
    simpa using List.mem_takeWhile_imp h
  · rw [Estado.orden, cadena_leerComando _ hstdin] at h
    simpa using List.mem_takeWhile_imp h

/-- When the input is used up, the first word of a command is the next command. -/
lemma orden_iterar (h : d.iterar atoi e r = some e') (hsalir : e.orden ≠ salir)
    (hstdin : e'.stdin = []) : e'.orden = cortada e.orden := by
  rw [orden_eof hstdin, cadena_iterar h hsalir, List.takeWhile_eq_self_iff]
  intro a ha
  rw [decide_eq_true_iff]
  rintro rfl
  exact salto_not_mem_orden e (mem_of_mem_cortada ha)

/-- What is left of the input at its end. -/
lemma stdin_iterar_eof (h : d.iterar atoi e r = some e') (hstdin : e.stdin = []) :
    e'.stdin = [] := by
  rw [(iterar_cases h).2.1, hstdin]
  rfl

end Iteration

/-! ## Termination -/

section Terminates

variable {d : Syscall} {atoi : Cadena → Int32} {e : Estado}

/-- A command is cut down to `salir` iff it is `salir` or goes on with a separator. -/
lemma cortada_eq_salir_iff {c : Cadena} :
    cortada c = salir ↔ c = salir ∨ ∃ resto, c = salir ++ espacio :: resto :=
  cortada_eq_iff (by decide) (by decide)

/-- The loop ends at `salir`. -/
lemma terminates_of_orden_eq (hsalir : e.orden = salir) : Terminates (d.iterar atoi) e := by
  rw [terminates_iff_next]
  intro r e' h
  obtain ⟨-, -, ⟨-, hfin, -⟩ | ⟨hne, -⟩⟩ := iterar_cases h
  · rw [terminates_iff_next]
    intro r' e'' h'
    rw [(iterar_cases h').1] at hfin
    cases hfin
  · exact absurd hsalir hne

/-- Another command does not decide whether the loop ends. -/
lemma terminates_iff_of_orden_ne {P : Prop} (hcurso : e.terminado = false)
    (hsalir : e.orden ≠ salir)
    (h : ∀ r e', d.iterar atoi e r = some e' → e'.terminado = false →
      (Terminates (d.iterar atoi) e' ↔ P)) :
    Terminates (d.iterar atoi) e ↔ P := by
  have hnext : ∀ r e', d.iterar atoi e r = some e' → (Terminates (d.iterar atoi) e' ↔ P) := by
    intro r e' hiterar
    obtain ⟨-, -, ⟨heq, -⟩ | ⟨-, hcurso', -⟩⟩ := iterar_cases hiterar
    · exact absurd heq hsalir
    · exact h r e' hiterar hcurso'
  rw [terminates_iff_next]
  constructor
  · intro hall
    obtain ⟨e', hiterar⟩ := exists_iterar hcurso d atoi 0
    exact (hnext 0 e' hiterar).mp (hall 0 e' hiterar)
  · intro hP r e' hiterar
    exact (hnext r e' hiterar).mpr hP

/-- At the end of the input only the first word of the command counts. -/
lemma terminates_eof_iff (hcurso : e.terminado = false) (hstdin : e.stdin = []) :
    Terminates (d.iterar atoi) e ↔ cortada e.orden = salir := by
  constructor
  · -- any other word is read again in every iteration
    contrapose!
    intro hne
    refine not_terminates_of_invariant (I := fun s : Estado =>
      s.terminado = false ∧ s.stdin = [] ∧ cortada s.orden ≠ salir) ?_ ⟨hcurso, hstdin, hne⟩
    rintro s r ⟨hs, hs', hne⟩
    have hsalir : s.orden ≠ salir := fun h => hne (cortada_eq_salir_iff.mpr (.inl h))
    obtain ⟨s', h⟩ := exists_iterar hs d atoi r
    have hstdin' := stdin_iterar_eof h hs'
    obtain ⟨-, -, ⟨heq, -⟩ | ⟨-, hcurso', -⟩⟩ := iterar_cases h
    · exact absurd heq hsalir
    · exact ⟨s', h, hcurso', hstdin', by rwa [orden_iterar h hsalir hstdin', cortada_cortada]⟩
  · intro hcortada
    by_cases hsalir : e.orden = salir
    · exact terminates_of_orden_eq hsalir
    · rw [terminates_iff_next]
      intro r e' h
      exact terminates_of_orden_eq
        ((orden_iterar h hsalir (stdin_iterar_eof h hstdin)).trans hcortada)

/-- A running loop ends iff one of the commands of the rest of its input is `salir`, or the last one
begins with `salir` and a space. -/
lemma terminates_iff_ordenes (hcurso : e.terminado = false) :
    Terminates (d.iterar atoi) e ↔ salir ∈ ordenes e.comando e.stdin ∨
      ∃ resto, (ordenes e.comando e.stdin).getLast? = some (salir ++ espacio :: resto) := by
  -- the induction is on the length of the input that is left
  induction hn : e.stdin.length using Nat.strongRecOn generalizing e with
  | ind n ih =>
    by_cases hsalir : e.orden = salir
    · refine iff_of_true (terminates_of_orden_eq hsalir) (.inl ?_)
      rw [ordenes]
      exact hsalir ▸ List.mem_cons_self
    refine terminates_iff_of_orden_ne hcurso hsalir fun r e' hiterar hcurso' => ?_
    have hresto := (iterar_cases hiterar).2.1
    by_cases hend : (leerComando e.comando e.stdin).2 = []
    · rw [terminates_eof_iff hcurso' (hresto.trans hend),
        orden_iterar hiterar hsalir (hresto.trans hend), cortada_cortada, cortada_eq_salir_iff,
        ordenes_of_resto_eq_nil hend, List.mem_singleton, List.getLast?_singleton]
      simp only [Option.some_inj]
      exact or_congr_left eq_comm
    · have hlt := length_resto_leerComando_lt hend
      have hne : salir ≠ (leerComando e.comando e.stdin).1.cadena := Ne.symm hsalir
      obtain ⟨c, cs, hcs⟩ := List.exists_cons_of_ne_nil
        (ordenes_ne_nil e.comando (leerComando e.comando e.stdin).2)
      rw [ih _ (hn ▸ hresto ▸ hlt) hcurso' rfl, hresto, ordenes_congr _ e.comando hend,
        ordenes_of_resto_ne_nil hend, hcs, List.mem_cons (b := (leerComando _ _).1.cadena),
        List.getLast?_cons_cons, or_iff_right hne]

/-- For every input the loop ends iff one of the commands is `salir`, or the last one begins with
`salir` and a space: then the splitting leaves `salir` in the array, and it is read again. -/
theorem command_loop_terminates_iff (d : Syscall) (atoi : Cadena → Int32) (b : Buffer)
    (stdin : List UInt8) :
    Terminates (d.iterar atoi) (Estado.inicio b stdin) ↔ salir ∈ ordenes b stdin ∨
      ∃ resto, (ordenes b stdin).getLast? = some (salir ++ espacio :: resto) :=
  terminates_iff_ordenes rfl

/-- The line `a` alone keeps both front ends busy forever. -/
theorem command_loop_endless :
    (Estado.conLinea [97]).stdin = [97, salto] ∧
      ¬Terminates (Syscall.encrypt.iterar atoiDecimal) (Estado.conLinea [97]) ∧
      ¬Terminates (Syscall.decrypt.iterar atoiDecimal) (Estado.conLinea [97]) := by
  have hordenes : ordenes (Estado.conLinea [97]).comando (Estado.conLinea [97]).stdin = [[97]] := by
    rw [ordenes_of_resto_eq_nil (by decide +kernel)]
    decide +kernel
  have hfalse : ¬(salir ∈ [([97] : Cadena)] ∨
      ∃ resto, [([97] : Cadena)].getLast? = some (salir ++ espacio :: resto)) := by
    simp [salir]
  refine ⟨rfl, ?_, ?_⟩
  · rwa [terminates_iff_ordenes rfl, hordenes]
  · rwa [terminates_iff_ordenes rfl, hordenes]

end Terminates

/-! ## System calls after the end of the input -/

section Eof

variable {d : Syscall} {atoi : Cadena → Int32} {e e' : Estado} {r : ℤ}

/-- If the input is used up, the command has been cut down to its first word. -/
def Estado.Cortado (e : Estado) : Prop :=
  e.terminado = false → e.stdin = [] → cortada e.orden = e.orden

/-- Every iteration cuts its command. -/
lemma cortado_iterar (h : d.iterar atoi e r = some e') : e'.Cortado := by
  intro hcurso' hstdin'
  obtain ⟨-, -, ⟨-, hfin, -⟩ | ⟨hsalir, -⟩⟩ := iterar_cases h
  · rw [hcurso'] at hfin
    cases hfin
  · rw [orden_iterar h hsalir hstdin', cortada_cortada]

/-- A single word asks for no system call. -/
lemma llamadas_iterar_eof (hcortado : e.Cortado) (hstdin : e.stdin = [])
    (h : d.iterar atoi e r = some e') : e'.llamadas = e.llamadas := by
  obtain ⟨hcurso, -, ⟨-, -, -, heq⟩ | ⟨-, -, -, heq⟩⟩ := iterar_cases h
  · exact heq
  · have htokens : e.tokens = (words espacio (cortada e.orden)).take 10 := by
      rw [hcortado hcurso hstdin]
      exact argumentos_eq_take_words _
    have hnone : (d.interpretar atoi e.tokens).solicitud = none := by
      obtain hnil | ⟨w, hw⟩ := words_cortada e.orden
      · rw [htokens, hnil]
        cases d <;> rfl
      · rw [htokens, hw]
        exact solicitud_singleton d atoi w
    rw [heq, hnone, Option.toList_none, List.append_nil]

/-- Once the input of a front end is used up, it performs no further system call, however long it
goes on. -/
theorem llamadas_of_run_eof {b : Buffer} {stdin : List UInt8} (hne : stdin ≠ []) {rs rs' : List ℤ}
    (h : run (d.iterar atoi) (Estado.inicio b stdin) rs = some e) (hstdin : e.stdin = [])
    (h' : run (d.iterar atoi) e rs' = some e') : e'.llamadas = e.llamadas := by
  have hcortado : e.Cortado :=
    run_invariant (I := Estado.Cortado) (fun _ heof => absurd heof hne)
      (fun _ _ _ _ hiterar => cortado_iterar hiterar) h
  have hall : e'.Cortado ∧ e'.stdin = [] ∧ e'.llamadas = e.llamadas := by
    refine run_invariant (I := fun s => s.Cortado ∧ s.stdin = [] ∧ s.llamadas = e.llamadas)
      ⟨hcortado, hstdin, rfl⟩ ?_ h'
    rintro s r s' ⟨hs, heof, hllamadas⟩ hiterar
    exact ⟨cortado_iterar hiterar, stdin_iterar_eof hiterar heof,
      (llamadas_iterar_eof hs heof hiterar).trans hllamadas⟩
  exact hall.2.2

end Eof

end XorSyscalls
