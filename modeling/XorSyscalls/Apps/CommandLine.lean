import XorSyscalls.Apps.Main

/-!
# The command language of the front ends

Which commands lead to a system call, and with which arguments.  `Acepta` gives the languages of the
two front ends in terms of the options read from the tokens; `emite_iff_acepta` connects it to the
command loop.

* `encrypt_app` accepts exactly the lists of options with values in which every thread count is at
  least one (`encrypt_language`).
* It also accepts commands without `-t` and then asks for zero threads, which `decrypt_app` never
  does (`numHilos_pos_iff`).
* `decrypt_app` accepts commands with words that are not options, and tests only the last thread
  count, so the two languages differ (`same_language_iff`).
* Both look at the first ten words only (`nothing_ignored_iff`).
-/

namespace XorSyscalls

/-! ## The two languages -/

/-- Every path is given by some option. -/
def Rutas (opciones : List (Opcion × Cadena)) : Prop :=
  ∀ opcion ≠ Opcion.t, ∃ v, (opcion, v) ∈ opciones

/-- The tokens that a front end accepts.  `encrypt_app` wants no token left over and tests every
thread count; `decrypt_app` tests the last one, which counts as zero if there is none. -/
def Syscall.Acepta (d : Syscall) (atoi : Cadena → Int32) (tokens : List Cadena) : Prop :=
  Rutas (leerOpciones tokens).1 ∧
    match d with
    | .encrypt => (leerOpciones tokens).2 = [] ∧ ∀ v, (.t, v) ∈ (leerOpciones tokens).1 → 0 < atoi v
    | .decrypt => 0 < (lastValue .t (leerOpciones tokens).1).elim 0 atoi

section Languages

variable {d : Syscall} {atoi : Cadena → Int32} {e : Estado} {q q' : Solicitud}
  {opciones : List (Opcion × Cadena)}

/-- An option that occurs has a last value. -/
lemma exists_lastValue {opcion : Opcion} (h : ∃ v, (opcion, v) ∈ opciones) :
    ∃ v, lastValue opcion opciones = some v := by
  obtain ⟨v, hv⟩ := h
  refine Option.ne_none_iff_exists'.mp fun hnone => ?_
  exact lastValue_eq_none_iff.mp hnone _ hv rfl

/-- The arguments exist iff every path is given. -/
lemma exists_ultimos_iff (atoi : Cadena → Int32) (opciones : List (Opcion × Cadena)) :
    (∃ q : Solicitud, q.Ultimos atoi opciones) ↔ Rutas opciones := by
  constructor
  · rintro ⟨q, hp, ho, hk, -⟩ opcion hne
    cases opcion with
    | p => exact ⟨_, mem_of_lastValue hp⟩
    | o => exact ⟨_, mem_of_lastValue ho⟩
    | t => exact absurd rfl hne
    | k => exact ⟨_, mem_of_lastValue hk⟩
  · intro h
    obtain ⟨entrada, hp⟩ := exists_lastValue (h .p (by decide))
    obtain ⟨salida, ho⟩ := exists_lastValue (h .o (by decide))
    obtain ⟨clave, hk⟩ := exists_lastValue (h .k (by decide))
    exact ⟨⟨entrada, salida, _, clave⟩, hp, ho, hk, rfl⟩

/-- The next iteration performs a system call iff the tokens are accepted, with the last values of
the options as its arguments. -/
theorem emite_iff_acepta (h : e.terminado = false) :
    e.Emite d atoi q ↔ d.Acepta atoi e.tokens ∧ q.Ultimos atoi (leerOpciones e.tokens).1 := by
  rw [emite_iff h]
  cases d with
  | encrypt =>
    rw [solicitud_encrypt_iff]
    constructor
    · rintro ⟨opciones, htokens, hhilos, hq⟩
      rw [Syscall.Acepta, htokens, leerOpciones_aplanar]
      exact ⟨⟨(exists_ultimos_iff atoi _).mp ⟨q, hq⟩, rfl, hhilos⟩, hq⟩
    · rintro ⟨⟨-, hsobra, hhilos⟩, hq⟩
      exact ⟨_, eq_aplanar_of_sobrantes hsobra, hhilos, hq⟩
  | decrypt =>
    rw [solicitud_decrypt_iff]
    constructor
    · rintro ⟨hq, hpos⟩
      exact ⟨⟨(exists_ultimos_iff atoi _).mp ⟨q, hq⟩, hq.numHilos ▸ hpos⟩, hq⟩
    · rintro ⟨⟨-, hpos⟩, hq⟩
      exact ⟨hq, hq.numHilos ▸ hpos⟩

/-- The next iteration performs some system call iff the tokens are accepted. -/
lemma exists_emite_iff (h : e.terminado = false) :
    (∃ q, e.Emite d atoi q) ↔ d.Acepta atoi e.tokens := by
  constructor
  · rintro ⟨q, hq⟩
    exact ((emite_iff_acepta h).mp hq).1
  · intro hacepta
    obtain ⟨q, hq⟩ := (exists_ultimos_iff atoi _).mpr hacepta.1
    exact ⟨q, (emite_iff_acepta h).mpr ⟨hacepta, hq⟩⟩

end Languages

/-! ## Sample lines -/

/-- A line with single spaces between its words. -/
def lineaDe (tokens : List Cadena) : List UInt8 := [espacio].intercalate tokens

/-- The options `-p a -o b -k c`. -/
def sampleRutas : List (Opcion × Cadena) := [(.p, [97]), (.o, [98]), (.k, [99])]

/-- The options `-p a -o b -k c -t 2`. -/
def sampleOpciones : List (Opcion × Cadena) := sampleRutas ++ [(.t, [50])]

lemma rutas_sampleOpciones : Rutas sampleOpciones := by
  intro opcion hne
  cases opcion <;> simp [sampleOpciones, sampleRutas] at hne ⊢

lemma hilos_sampleOpciones (v : Cadena) (hv : (.t, v) ∈ sampleOpciones) : 0 < atoiDecimal v := by
  obtain rfl : v = [50] := by simpa [sampleOpciones, sampleRutas] using hv
  decide

/-- A front end at the line with the options `opciones`. -/
def Estado.conOpciones (opciones : List (Opcion × Cadena)) : Estado :=
  .conLinea (lineaDe (aplanar opciones))

lemma lee_sampleOpciones :
    (Estado.conOpciones sampleOpciones).Lee (lineaDe (aplanar sampleOpciones)) :=
  Estado.lee_conLinea (by decide) (by decide)

/-! ## The thread count -/

section ThreadCount

variable {d : Syscall} {atoi : Cadena → Int32} {e : Estado}

lemma one_le_toInt_iff {n : Int32} : 1 ≤ n.toInt ↔ 0 < n := by
  rw [Int32.lt_iff_toInt_lt]
  exact Iff.rfl

/-- A front end never asks for fewer than one thread, except `encrypt_app` when the options of a
command give the paths but no thread count. -/
theorem numHilos_pos_iff (h : e.terminado = false) :
    (∀ q, e.Emite d atoi q → 1 ≤ q.numHilos.toInt) ↔
      d = .decrypt ∨
        ¬∃ opciones, e.tokens = aplanar opciones ∧ Rutas opciones ∧ ∀ v, (.t, v) ∉ opciones := by
  simp only [one_le_toInt_iff]
  constructor
  · intro hpos
    by_contra hcon
    obtain ⟨hd, opciones, htokens, hrutas, hsin⟩ := not_or.mp hcon |>.imp_right not_not.mp
    obtain rfl : d = .encrypt := by
      cases d with
      | encrypt => rfl
      | decrypt => exact absurd rfl hd
    -- such a command asks for zero threads
    obtain ⟨q, hq⟩ := (exists_ultimos_iff atoi opciones).mpr hrutas
    have hnone : lastValue .t opciones = none := by
      refine lastValue_eq_none_iff.mpr ?_
      rintro ⟨opcion, v⟩ hmem rfl
      exact hsin v hmem
    have hemite : e.Emite .encrypt atoi q := by
      rw [emite_iff h, solicitud_encrypt_iff]
      exact ⟨opciones, htokens, fun v hv => absurd hv (hsin v), hq⟩
    have hzero := hpos q hemite
    rw [← hq.numHilos, hnone] at hzero
    exact Int32.lt_irrefl hzero
  · intro hcond q hemite
    rw [emite_iff h] at hemite
    cases d with
    | decrypt => exact (solicitud_decrypt_iff.mp hemite).2
    | encrypt =>
      obtain ⟨opciones, htokens, hhilos, hq⟩ := solicitud_encrypt_iff.mp hemite
      have hcond := hcond.resolve_left (by decide)
      cases hlast : lastValue .t opciones with
      | none =>
        have hrutas := (exists_ultimos_iff atoi opciones).mp ⟨q, hq⟩
        refine absurd ⟨opciones, htokens, hrutas, fun v hv => ?_⟩ hcond
        exact lastValue_eq_none_iff.mp hlast _ hv rfl
      | some v =>
        rw [← hq.numHilos, hlast]
        exact hhilos v (mem_of_lastValue hlast)

/-- The line `-p a -o b -k c -t 2` leads to a system call with at least one thread. -/
theorem numHilos_pos_sample :
    (∃ q, (Estado.conOpciones sampleOpciones).Emite .encrypt atoiDecimal q) ∧
      ∀ q, (Estado.conOpciones sampleOpciones).Emite .encrypt atoiDecimal q →
        1 ≤ q.numHilos.toInt := by
  have htokens : (Estado.conOpciones sampleOpciones).tokens = aplanar sampleOpciones := by
    decide +kernel
  constructor
  · refine ⟨⟨[97], [98], 2, [99]⟩, (emite_iff rfl).mpr ?_⟩
    rw [htokens]
    rfl
  · refine (numHilos_pos_iff rfl).mpr (.inr ?_)
    rintro ⟨opciones, heq, -, hsin⟩
    have hlectura := leerOpciones_aplanar opciones
    rw [← heq, htokens, leerOpciones_aplanar, Prod.mk.injEq] at hlectura
    exact hsin [50] (by rw [← hlectura.1]; decide)

/-- `encrypt_app` passes zero threads to the kernel for the line `-p a -o b -k c`. -/
theorem zero_threads_requested :
    ∃ q, (Estado.conOpciones sampleRutas).Emite .encrypt atoiDecimal q ∧
      ¬1 ≤ q.numHilos.toInt := by
  refine ⟨⟨[97], [98], 0, [99]⟩, (emite_iff rfl).mpr ?_, by decide⟩
  decide +kernel

end ThreadCount

/-! ## Comparing the languages -/

section Comparison

variable {atoi : Cadena → Int32} {e e₁ e₂ : Estado} {l : List UInt8}

/-- The front ends perform the same system calls iff they accept the same tokens. -/
lemma emite_iff_emite_iff (h₁ : e₁.terminado = false) (h₂ : e₂.terminado = false)
    (htokens : e₁.tokens = e₂.tokens) :
    (∀ q, e₁.Emite .encrypt atoi q ↔ e₂.Emite .decrypt atoi q) ↔
      (Syscall.encrypt.Acepta atoi e₂.tokens ↔ Syscall.decrypt.Acepta atoi e₂.tokens) := by
  constructor
  · intro h
    have hencrypt : _ ↔ Syscall.encrypt.Acepta atoi e₁.tokens := exists_emite_iff h₁
    have hdecrypt : _ ↔ Syscall.decrypt.Acepta atoi e₂.tokens := exists_emite_iff h₂
    rw [← hdecrypt, ← htokens, ← hencrypt]
    exact exists_congr h
  · intro h q
    rw [emite_iff_acepta h₁, emite_iff_acepta h₂, htokens, h]

/-- The front ends treat a line alike iff a path is missing, or there is no thread count and a word
is left over, or the last thread count is below one, or no word is left over and all thread counts
are at least one. -/
theorem same_language_iff (h₁ : e₁.Lee l) (h₂ : e₂.Lee l) :
    (∀ q, e₁.Emite .encrypt atoi q ↔ e₂.Emite .decrypt atoi q) ↔
      let lectura := leerOpciones ((words espacio (cString l)).take 10)
      ¬Rutas lectura.1 ∨
      lastValue .t lectura.1 = none ∧ lectura.2 ≠ [] ∨
      (∃ v, lastValue .t lectura.1 = some v ∧ atoi v ≤ 0) ∨
      lastValue .t lectura.1 ≠ none ∧ lectura.2 = [] ∧ ∀ v, (.t, v) ∈ lectura.1 → 0 < atoi v := by
  rw [emite_iff_emite_iff h₁.terminado h₂.terminado (h₁.tokens_eq.trans h₂.tokens_eq.symm),
    h₂.tokens_eq, Syscall.Acepta, Syscall.Acepta]
  dsimp only
  generalize leerOpciones ((words espacio (cString l)).take 10) = lectura
  by_cases hrutas : Rutas lectura.1
  · cases hlast : lastValue .t lectura.1 with
    | none =>
      have hsin : ∀ v, (.t, v) ∉ lectura.1 :=
        fun v hv => lastValue_eq_none_iff.mp hlast _ hv rfl
      simp [hrutas, hsin]
    | some v =>
      by_cases hv : atoi v ≤ 0
      · have hnot : ¬∀ v, (.t, v) ∈ lectura.1 → 0 < atoi v :=
          fun h => Int32.not_lt.mpr hv (h v (mem_of_lastValue hlast))
        simp [hrutas, hv, hnot]
      · have hpos := Int32.not_le.mp hv
        simp [hrutas, hv, hpos]
  · simp [hrutas]

/-- On the line `-p a -o b -k c -t 2` the front ends perform the same system call. -/
theorem same_language_sample :
    (Estado.conOpciones sampleOpciones).terminado = false ∧
      ∀ q, (Estado.conOpciones sampleOpciones).Emite .encrypt atoiDecimal q ↔
        (Estado.conOpciones sampleOpciones).Emite .decrypt atoiDecimal q := by
  have htokens : (words espacio (cString (lineaDe (aplanar sampleOpciones)))).take 10 =
      aplanar sampleOpciones := by decide +kernel
  refine ⟨rfl, (same_language_iff lee_sampleOpciones lee_sampleOpciones).mpr ?_⟩
  rw [htokens, leerOpciones_aplanar]
  exact .inr (.inr (.inr ⟨by decide, rfl, hilos_sampleOpciones⟩))

/-- For the line `-p a -o b -k c` only `encrypt_app` performs its system call. -/
theorem front_ends_disagree :
    ∃ q, (Estado.conOpciones sampleRutas).Emite .encrypt atoiDecimal q ∧
      ¬(Estado.conOpciones sampleRutas).Emite .decrypt atoiDecimal q := by
  refine ⟨⟨[97], [98], 0, [99]⟩, ?_, ?_⟩
  · rw [emite_iff rfl]
    decide +kernel
  · rw [emite_iff rfl]
    decide +kernel

end Comparison

/-! ## The language of `encrypt_app` -/

section Grammar

variable {atoi : Cadena → Int32} {e : Estado} {l : List UInt8}

/-- `encrypt_app` performs its system call iff the first ten words of a line are options with values
that give every path, with thread counts of at least one.  The arguments are the last values. -/
theorem encrypt_language (h : e.Lee l) (hzero : 0 ∉ l) :
    ((∃ q, e.Emite .encrypt atoi q) ↔
      ∃ opciones, (words espacio l).take 10 = aplanar opciones ∧ Rutas opciones ∧
        ∀ v, (.t, v) ∈ opciones → 0 < atoi v) ∧
    ∀ q opciones, e.Emite .encrypt atoi q → (words espacio l).take 10 = aplanar opciones →
      lastValue .p opciones = some q.archivoEntrada ∧
      lastValue .o opciones = some q.archivoSalida ∧
      lastValue .k opciones = some q.archivoClave ∧
      q.numHilos = (lastValue .t opciones).elim 0 atoi := by
  have htokens : e.tokens = (words espacio l).take 10 := by
    rw [h.tokens_eq, cString_eq_self hzero]
  constructor
  · rw [exists_emite_iff h.terminado, htokens, Syscall.Acepta]
    constructor
    · rintro ⟨hrutas, hsobra, hhilos⟩
      exact ⟨_, eq_aplanar_of_sobrantes hsobra, hrutas, hhilos⟩
    · rintro ⟨opciones, heq, hrutas, hhilos⟩
      rw [heq, leerOpciones_aplanar]
      exact ⟨hrutas, rfl, hhilos⟩
  · intro q opciones hemite heq
    obtain ⟨-, hq⟩ := (emite_iff_acepta h.terminado).mp hemite
    rw [htokens, heq, leerOpciones_aplanar] at hq
    exact ⟨hq.archivoEntrada, hq.archivoSalida, hq.archivoClave, hq.numHilos.symm⟩

/-- `encrypt_app` accepts the line `-p a -o b -k c -t 2`. -/
theorem encrypt_language_sample :
    ∃ q, (Estado.conOpciones sampleOpciones).Emite .encrypt atoiDecimal q := by
  refine (encrypt_language lee_sampleOpciones (by decide)).1.mpr ⟨sampleOpciones, ?_, ?_⟩
  · decide +kernel
  · exact ⟨rutas_sampleOpciones, hilos_sampleOpciones⟩

end Grammar

/-! ## Ignored words -/

section Ignored

variable {d : Syscall} {atoi : Cadena → Int32} {e : Estado} {l : List UInt8}

/-- If all words of a line are consumed, it has no `NUL` and at most ten words, so that all of them
are tokens. -/
lemma tokens_eq_words_of_aplanar (h : e.Lee l)
    (heq : words espacio l = aplanar (leerOpciones e.tokens).1) :
    0 ∉ l ∧ (words espacio l).length ≤ 10 ∧ e.tokens = words espacio l := by
  have hsub := aplanar_sublist e.tokens
  rw [← heq, h.tokens_eq] at hsub
  have hne : (0 : UInt8) ≠ espacio := by decide
  have hzero : 0 ∉ l := by
    intro hmem
    obtain ⟨w, hw, hwzero⟩ := (exists_mem_words_iff hne).mpr hmem
    -- the word with the `NUL` would be a word of the part in front of the `NUL`
    have hw' := List.mem_of_mem_take (hsub.subset hw)
    exact zero_not_mem_cString l ((exists_mem_words_iff hne).mp ⟨w, hw', hwzero⟩)
  have hlength := hsub.length_le.trans (List.length_take_le ..)
  refine ⟨hzero, hlength, ?_⟩
  rw [h.tokens_eq, cString_eq_self hzero, List.take_of_length_le hlength]

/-- Every word of a line that leads to a system call is consumed, as an option or as its value, and
the arguments are the last values in the line, iff the accepted lines have no `NUL`, at most ten
words, no word left over and a thread count. -/
theorem nothing_ignored_iff (h : e.Lee l) :
    (∀ q, e.Emite d atoi q →
      words espacio l = aplanar (leerOpciones e.tokens).1 ∧
      lastValue .p (leerOpciones (words espacio l)).1 = some q.archivoEntrada ∧
      lastValue .o (leerOpciones (words espacio l)).1 = some q.archivoSalida ∧
      lastValue .k (leerOpciones (words espacio l)).1 = some q.archivoClave ∧
      (lastValue .t (leerOpciones (words espacio l)).1).map atoi = some q.numHilos) ↔
    (d.Acepta atoi ((words espacio (cString l)).take 10) →
      0 ∉ l ∧ (words espacio l).length ≤ 10 ∧ (leerOpciones (words espacio l)).2 = [] ∧
      ∃ v, (.t, v) ∈ (leerOpciones (words espacio l)).1) := by
  rw [← h.tokens_eq]
  constructor
  · intro hall hacepta
    obtain ⟨q, hq⟩ := (exists_emite_iff h.terminado).mpr hacepta
    obtain ⟨heq, -, -, -, hhilos⟩ := hall q hq
    obtain ⟨hzero, hlength, htokens⟩ := tokens_eq_words_of_aplanar h heq
    obtain ⟨v, hv, -⟩ := Option.map_eq_some_iff.mp hhilos
    rw [htokens] at heq
    exact ⟨hzero, hlength, sobrantes_eq_nil_iff.mpr ⟨_, heq⟩, v, mem_of_lastValue hv⟩
  · intro hcond q hemite
    obtain ⟨hacepta, hq⟩ := (emite_iff_acepta h.terminado).mp hemite
    obtain ⟨hzero, hlength, hsobra, hhilos⟩ := hcond hacepta
    have htokens : e.tokens = words espacio l := by
      rw [h.tokens_eq, cString_eq_self hzero, List.take_of_length_le hlength]
    rw [htokens] at hq ⊢
    obtain ⟨v, hv⟩ := exists_lastValue hhilos
    refine ⟨eq_aplanar_of_sobrantes hsobra, hq.archivoEntrada, hq.archivoSalida,
      hq.archivoClave, ?_⟩
    rw [← hq.numHilos, hv]
    rfl

/-- Every word of the line `-p a -o b -k c -t 2` is consumed. -/
theorem nothing_ignored_sample :
    (Estado.conOpciones sampleOpciones).terminado = false ∧
      ∀ q, (Estado.conOpciones sampleOpciones).Emite .decrypt atoiDecimal q →
        words espacio (lineaDe (aplanar sampleOpciones)) =
          aplanar (leerOpciones (Estado.conOpciones sampleOpciones).tokens).1 := by
  have hwords : words espacio (lineaDe (aplanar sampleOpciones)) = aplanar sampleOpciones := by
    decide +kernel
  refine ⟨rfl, fun q hq => ((nothing_ignored_iff lee_sampleOpciones).mpr (fun _ => ?_) q hq).1⟩
  rw [hwords, leerOpciones_aplanar]
  exact ⟨by decide, by decide, rfl, [50], by decide⟩

/-- The options `-p a -o b -k c -t 2 -t 3 -o d`. -/
def sampleLarga : List (Opcion × Cadena) := sampleOpciones ++ [(.t, [51]), (.o, [100])]

/-- With `-p a -o b -k c -t 2 -t 3 -o d` the file `b` is written, although the last `-o` of the line
says `d`: the last two of the twelve words are ignored. -/
theorem last_words_ignored :
    ∃ q, (Estado.conOpciones sampleLarga).Emite .encrypt atoiDecimal q ∧
      q.archivoSalida = [98] ∧
      lastValue .o (leerOpciones (words espacio (lineaDe (aplanar sampleLarga)))).1 =
        some [100] := by
  refine ⟨⟨[97], [98], 3, [99]⟩, (emite_iff rfl).mpr ?_, rfl, ?_⟩
  · decide +kernel
  · decide +kernel

end Ignored

end XorSyscalls
