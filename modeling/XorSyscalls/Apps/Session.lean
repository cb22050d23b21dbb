import XorSyscalls.Apps.CommandLine

/-!
# Whole sessions

A session reads lines up to the line `salir`.  `fgets` takes at most 255 bytes at a time, so a
longer line is interpreted piece by piece, each piece as a command of its own, and of a line of
exactly 255 bytes the newline is left over and read as an empty command.

`one_line_one_command_iff` says that the commands interpreted are the lines in front of `salir` iff
these lines have fewer than 255 bytes and no `NUL`.
-/

namespace XorSyscalls

open TransitionSystem

namespace Estado

/-- Whatever the system calls return, the loop interprets the commands `cs`, with at most one system
call for each, and then ends. -/
def Interpreta (e : Estado) (d : Syscall) (atoi : Cadena → Int32) (cs : List Cadena) : Prop :=
  ∀ rs : List ℤ, rs.length = cs.length + 1 → ∃ e', run (d.iterar atoi) e rs = some e' ∧
    e'.terminado = true ∧ e'.comandos = e.comandos ++ cs ∧
    e'.llamadas.length ≤ e.llamadas.length + cs.length

/-- The loop can end after it has interpreted the commands `cs`. -/
def Termina (e : Estado) (d : Syscall) (atoi : Cadena → Int32) (cs : List Cadena) : Prop :=
  ∃ rs e', run (d.iterar atoi) e rs = some e' ∧ e'.terminado = true ∧ e'.comandos = e.comandos ++ cs

end Estado

section Session

variable {d : Syscall} {atoi : Cadena → Int32} {e e' : Estado} {cs : List Cadena}

lemma Estado.Interpreta.termina (h : e.Interpreta d atoi cs) : e.Termina d atoi cs := by
  obtain ⟨e', hrun, hfin, hcomandos, -⟩ :=
    h (List.replicate (cs.length + 1) 0) (List.length_replicate ..)
  exact ⟨_, e', hrun, hfin, hcomandos⟩

/-! ## One iteration -/

/-- After `salir` there is no further iteration. -/
lemma eq_of_run_of_terminado (h : e.terminado = true) {rs : List ℤ}
    (hrun : run (d.iterar atoi) e rs = some e') : e' = e := by
  cases rs with
  | nil => exact (Option.some_inj.mp hrun).symm
  | cons r rs =>
    obtain ⟨e₁, hiterar, -⟩ := Option.bind_eq_some_iff.mp hrun
    have hfin := (iterar_cases hiterar).1
    rw [h] at hfin
    cases hfin

/-- Commands are only added. -/
lemma comandos_of_run {rs : List ℤ} (hrun : run (d.iterar atoi) e rs = some e') :
    e.comandos <+: e'.comandos := by
  refine run_invariant (I := fun s => e.comandos <+: s.comandos) (List.prefix_refl _) ?_ hrun
  intro s r s' hs hiterar
  obtain ⟨-, -, ⟨-, -, hcomandos, -⟩ | ⟨-, -, hcomandos, -⟩⟩ := iterar_cases hiterar
  · rwa [hcomandos]
  · rw [hcomandos]
    exact hs.trans (List.prefix_append ..)

/-- A loop that ends starts with an iteration that ends it, or that interprets the first command. -/
lemma Estado.Termina.cases (h : e.Termina d atoi cs) (hcurso : e.terminado = false) :
    (leerComando e.comando e.stdin).1.cadena = salir ∧ cs = [] ∨
    ∃ (cs' : List Cadena) (e₁ : Estado), cs = (leerComando e.comando e.stdin).1.cadena :: cs' ∧
      e₁.terminado = false ∧ e₁.stdin = (leerComando e.comando e.stdin).2 ∧
      e₁.Termina d atoi cs' := by
  obtain ⟨rs, e', hrun, hfin, hcomandos⟩ := h
  cases rs with
  | nil =>
    rw [run_nil, Option.some_inj] at hrun
    rw [← hrun, hcurso] at hfin
    cases hfin
  | cons r rs =>
    obtain ⟨e₁, hiterar, hrun⟩ := Option.bind_eq_some_iff.mp hrun
    obtain ⟨-, hstdin, ⟨hsalir, hfin₁, heq, -⟩ | ⟨-, hcurso₁, heq, -⟩⟩ := iterar_cases hiterar
    · left
      rw [eq_of_run_of_terminado hfin₁ hrun, heq] at hcomandos
      exact ⟨hsalir, List.self_eq_append_right.mp hcomandos⟩
    · right
      obtain ⟨cs', hcs'⟩ := comandos_of_run hrun
      rw [← hcs', heq, List.append_assoc, List.append_cancel_left_eq] at hcomandos
      exact ⟨cs', e₁, hcomandos.symm, hcurso₁, hstdin, rs, e', hrun, hfin, hcs'.symm⟩

/-- At `salir` the loop ends. -/
lemma interpreta_nil (hcurso : e.terminado = false)
    (hsalir : (leerComando e.comando e.stdin).1.cadena = salir) : e.Interpreta d atoi [] := by
  intro rs hlength
  obtain ⟨r, rfl⟩ := List.length_eq_one_iff.mp hlength
  obtain ⟨e', hiterar⟩ := exists_iterar hcurso d atoi r
  obtain ⟨-, -, ⟨-, hfin, hcomandos, hllamadas⟩ | ⟨hne, -⟩⟩ := iterar_cases hiterar
  · refine ⟨e', by simp [hiterar], hfin, by simp [hcomandos], by simp [hllamadas]⟩
  · exact absurd hsalir hne

/-- Another command is interpreted, with at most one system call, and the loop goes on with the rest
of the input. -/
lemma interpreta_cons (hcurso : e.terminado = false)
    (hsalir : (leerComando e.comando e.stdin).1.cadena ≠ salir)
    (h : ∀ e₁ : Estado, e₁.terminado = false → e₁.stdin = (leerComando e.comando e.stdin).2 →
      e₁.Interpreta d atoi cs) :
    e.Interpreta d atoi ((leerComando e.comando e.stdin).1.cadena :: cs) := by
  intro rs hlength
  cases rs with
  | nil => simp at hlength
  | cons r rs =>
    obtain ⟨e₁, hiterar⟩ := exists_iterar hcurso d atoi r
    obtain ⟨-, hstdin, ⟨heq, -⟩ | ⟨-, hcurso₁, hcomandos₁, hllamadas₁⟩⟩ := iterar_cases hiterar
    · exact absurd heq hsalir
    obtain ⟨e', hrun, hfin, hcomandos, hllamadas⟩ := h e₁ hcurso₁ hstdin rs (by simpa using hlength)
    refine ⟨e', by simp [hiterar, hrun], hfin, by simp [hcomandos, hcomandos₁], ?_⟩
    have hone : e₁.llamadas.length ≤ e.llamadas.length + 1 := by
      rw [hllamadas₁, List.length_append]
      exact Nat.add_le_add_left Option.length_toList_le _
    rw [List.length_cons]
    omega

/-! ## Lines and commands -/

/-- The lines in front of the rest `s` of the input. -/
def entrada (lineas : List (List UInt8)) (s : List UInt8) : List UInt8 :=
  lineas.flatMap (· ++ [salto]) ++ s

lemma entrada_cons (l : List UInt8) (lineas : List (List UInt8)) (s : List UInt8) :
    entrada (l :: lineas) s = l ++ salto :: entrada lineas s := by
  simp [entrada]

/-- A command is a whole line iff the line has at most 255 bytes and no `NUL`. -/
lemma cString_take_eq_iff {l : List UInt8} : cString (l.take 255) = l ↔ l.length ≤ 255 ∧ 0 ∉ l := by
  constructor
  · intro h
    have hlength : (cString (l.take 255)).length ≤ 255 :=
      (List.takeWhile_sublist _).length_le.trans (List.length_take_le ..)
    rw [h] at hlength
    exact ⟨hlength, h ▸ zero_not_mem_cString _⟩
  · rintro ⟨hlength, hzero⟩
    rw [List.take_of_length_le hlength, cString_eq_self hzero]

/-- If the loop ends with the commands `cs`, the first of them is read from the first line. -/
lemma Estado.Termina.linea {l rest : List UInt8} (h : e.Termina d atoi cs) (hne : cs ≠ [])
    (hcurso : e.terminado = false) (hl : salto ∉ l) (hstdin : e.stdin = l ++ salto :: rest) :
    ∃ (cs' : List Cadena) (e₁ : Estado), cs = cString (l.take 255) :: cs' ∧
      e₁.terminado = false ∧ e₁.stdin = (l ++ salto :: rest).drop (min 255 (l.length + 1)) ∧
      e₁.Termina d atoi cs' := by
  obtain ⟨-, hnil⟩ | hcons := h.cases hcurso
  · exact absurd hnil hne
  · rwa [hstdin, cadena_leerComando_line hl, resto_leerComando_line hl] at hcons

section Lineas

variable {s : List UInt8} {lineas : List (List UInt8)}

/-- After a newline that is left over, too many commands are interpreted. -/
lemma not_termina_of_salto (hcurso : e.terminado = false)
    (hstdin : e.stdin = salto :: entrada lineas s) : ¬e.Termina d atoi lineas := by
  intro h
  induction lineas generalizing e with
  | nil =>
    obtain ⟨hsalir, -⟩ | ⟨cs', e₁, hcons, -⟩ := h.cases hcurso
    · rw [hstdin] at hsalir
      have hcadena := cadena_leerComando_line (l := []) (by simp) e.comando (entrada [] s)
      exact absurd (hcadena.symm.trans hsalir) (by decide)
    · cases hcons
  | cons l lineas ih =>
    -- the empty command stands for the first line, so the newline of that line is left over
    obtain ⟨cs', e₁, hcons, hcurso₁, hstdin₁, h₁⟩ :=
      h.linea (l := []) (by simp) hcurso (by simp) hstdin
    obtain ⟨rfl, rfl⟩ := List.cons_eq_cons.mp hcons
    exact ih hcurso₁ (hstdin₁.trans (entrada_cons ..)) h₁

/-- If every line is interpreted as one command, the lines are short and have no `NUL`. -/
lemma lineas_of_termina (hsalto : ∀ l ∈ lineas, salto ∉ l) (hcurso : e.terminado = false)
    (hstdin : e.stdin = entrada lineas s) (h : e.Termina d atoi lineas) :
    ∀ l ∈ lineas, l.length < 255 ∧ 0 ∉ l := by
  induction lineas generalizing e with
  | nil => simp
  | cons l lineas ih =>
    obtain ⟨hl, hsalto⟩ := List.forall_mem_cons.mp hsalto
    rw [entrada_cons] at hstdin
    obtain ⟨cs', e₁, hcons, hcurso₁, hstdin₁, h₁⟩ := h.linea (by simp) hcurso hl hstdin
    obtain ⟨hcadena, rfl⟩ := List.cons_eq_cons.mp hcons
    obtain ⟨hlength, hzero⟩ := cString_take_eq_iff.mp hcadena.symm
    obtain hlt | heq := Nat.lt_or_eq_of_le hlength
    · rw [Nat.min_eq_right (by omega), ← List.drop_drop, List.drop_left] at hstdin₁
      exact List.forall_mem_cons.mpr ⟨⟨hlt, hzero⟩, ih hsalto hcurso₁ hstdin₁ h₁⟩
    · rw [Nat.min_eq_left (by omega), ← heq, List.drop_left] at hstdin₁
      exact absurd h₁ (not_termina_of_salto hcurso₁ hstdin₁)

variable (hs : s = salir ∨ ∃ rest, s = salir ++ salto :: rest)
include hs

/-- Short lines without `NUL` are interpreted one by one. -/
lemma interpreta_lineas (hsalto : ∀ l ∈ lineas, salto ∉ l) (hsalir : ∀ l ∈ lineas, l ≠ salir)
    (h : ∀ l ∈ lineas, l.length < 255 ∧ 0 ∉ l) (hcurso : e.terminado = false)
    (hstdin : e.stdin = entrada lineas s) : e.Interpreta d atoi lineas := by
  induction lineas generalizing e with
  | nil =>
    have hlee : e.Lee salir := by
      refine ⟨hcurso, by decide, by decide, ?_⟩
      rw [hstdin]
      exact hs.symm.imp id fun hs => ⟨hs, by decide⟩
    exact interpreta_nil hcurso hlee.cadena_eq
  | cons l lineas ih =>
    obtain ⟨hl, hsalto⟩ := List.forall_mem_cons.mp hsalto
    obtain ⟨hne, hsalir⟩ := List.forall_mem_cons.mp hsalir
    obtain ⟨⟨hlength, hzero⟩, h⟩ := List.forall_mem_cons.mp h
    rw [entrada_cons] at hstdin
    have hcadena : (leerComando e.comando e.stdin).1.cadena = l := by
      rw [hstdin, cadena_leerComando_line hl]
      exact cString_take_eq_iff.mpr ⟨hlength.le, hzero⟩
    have hinterpreta := interpreta_cons (d := d) hcurso (hcadena.trans_ne hne)
      fun e₁ hcurso₁ hstdin₁ => ih hsalto hsalir h hcurso₁ (by
        rw [hstdin₁, hstdin, resto_leerComando_line hl, Nat.min_eq_right (by omega),
          ← List.drop_drop, List.drop_left]
        rfl)
    rwa [hcadena] at hinterpreta

end Lineas

/-- The commands interpreted are the lines in front of the first line `salir`, each as a whole, iff
these lines have fewer than 255 bytes and no `NUL`. -/
theorem one_line_one_command_iff (b : Buffer) {stdin : List UInt8}
    (h : salir ∈ stdin.splitOn salto) :
    (Estado.inicio b stdin).Interpreta d atoi ((stdin.splitOn salto).takeWhile (· ≠ salir)) ↔
      ∀ l ∈ (stdin.splitOn salto).takeWhile (· ≠ salir), l.length < 255 ∧ 0 ∉ l := by
  obtain ⟨hsalto, s, hstdin, hs⟩ := exists_of_mem_splitOn stdin h
  constructor
  · intro hinterpreta
    exact lineas_of_termina hsalto rfl hstdin hinterpreta.termina
  · intro hlineas
    refine interpreta_lineas hs hsalto (fun l hl => ?_) hlineas rfl hstdin
    simpa using List.mem_takeWhile_imp hl

/-- A session with the lines `a` and `salir` interprets the command `a`. -/
theorem one_line_one_command_sample :
    (Estado.conLinea ([97] ++ salto :: salir)).Interpreta .encrypt atoiDecimal [[97]] := by
  have hlineas : (([97] ++ salto :: salir ++ [salto]).splitOn salto).takeWhile (· ≠ salir) =
      [[97]] := by decide +kernel
  rw [← hlineas]
  refine (one_line_one_command_iff _ (by decide +kernel)).mpr ?_
  rw [hlineas]
  decide

/-- A line of 269 bytes: `-p a -o b -k c`, spaces up to 255 bytes, and `-p a -o b -k c` again. -/
def lineaDoble : List UInt8 :=
  let l := lineaDe (aplanar sampleRutas)
  l ++ List.replicate (255 - l.length) espacio ++ l

/-- The line of 269 bytes leads to two system calls. -/
theorem one_line_two_calls :
    (((lineaDoble ++ salto :: salir ++ [salto]).splitOn salto).takeWhile (· ≠ salir)).length = 1 ∧
      (run (Syscall.encrypt.iterar atoiDecimal) (.conLinea (lineaDoble ++ salto :: salir))
        [0, 0, 0]).map (fun e => (e.terminado, e.llamadas.length)) = some (true, 2) := by
  constructor
  · decide +kernel
  · decide +kernel

end Session

end XorSyscalls
