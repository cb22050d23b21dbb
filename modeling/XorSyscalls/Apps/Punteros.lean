import XorSyscalls.Apps.Main
import XorSyscalls.Syscall.Paths

/-!
# The pointers given to the system calls

The paths that a front end hands over are pointers into the array `comando`: `archivo_entrada`,
`archivo_salida` and `archivo_clave` point at tokens that `strtok` has left there.  Here the options
are processed with these pointers, as offsets into the array.

`map_interpretarTokens` says that reading the strings behind the pointers gives what
`Syscall.interpretar` computes from the strings of the tokens, and `stringAt_of_zero_mem` that
each token is a string that ends inside of the array, so that the system call finds it there.
-/

namespace XorSyscalls

/-! ## The strings behind the pointers -/

/-- The variables with every token replaced by its value under `f`. -/
def Parametros.map {ρ σ : Type} (f : ρ → σ) (x : Parametros ρ) : Parametros σ :=
  ⟨x.archivoEntrada.map f, x.archivoSalida.map f, x.archivoClave.map f, x.numHilos,
    x.errorParametros, x.mensajes⟩

section Map

variable {ρ σ : Type} {atoi : Cadena → Int32} {f : ρ → σ} {texto : σ → Cadena}

/-- The assignment of an option's value. -/
lemma Parametros.map_asignar (x : Parametros ρ) (opcion : Opcion) (valor : ρ) :
    (x.asignar atoi (texto ∘ f) opcion valor).map f =
      (x.map f).asignar atoi texto opcion (f valor) := by
  cases opcion <;> rfl

/-- The assignment in `encrypt_app`. -/
lemma map_encryptAsignar (x : Parametros ρ) (opcion : Opcion) (valor : ρ) :
    (encryptAsignar atoi (texto ∘ f) x opcion valor).map f =
      encryptAsignar atoi texto (x.map f) opcion (f valor) := by
  unfold encryptAsignar
  rw [← Parametros.map_asignar]
  dsimp only
  split
  · rename_i h
    rw [if_pos (by exact h)]
    rfl
  · rename_i h
    rw [if_neg (by exact h)]

/-- The loop of `encrypt_app`. -/
lemma map_encryptProcesar (argumentos : List ρ) (x : Parametros ρ) :
    (encryptProcesar atoi (texto ∘ f) argumentos x).map f =
      encryptProcesar atoi texto (argumentos.map f) (x.map f) := by
  fun_induction encryptProcesar atoi (texto ∘ f) argumentos x with
  | case1 x => rfl
  | case2 token x => rfl
  | case3 token valor resto x opcion hopcion ih =>
    rw [Function.comp_apply] at hopcion
    rw [ih, map_encryptAsignar, List.map_cons, List.map_cons, encryptProcesar, hopcion]
  | case4 token valor resto x hopcion =>
    rw [Function.comp_apply] at hopcion
    rw [List.map_cons, List.map_cons, encryptProcesar, hopcion]
    rfl

/-- The loop of `decrypt_app`. -/
lemma map_decryptProcesar (argumentos : List ρ) (x : Parametros ρ) :
    (decryptProcesar atoi (texto ∘ f) argumentos x).map f =
      decryptProcesar atoi texto (argumentos.map f) (x.map f) := by
  fun_induction decryptProcesar atoi (texto ∘ f) argumentos x with
  | case1 x => rfl
  | case2 token x => rfl
  | case3 token valor resto x opcion hopcion ih =>
    rw [Function.comp_apply] at hopcion
    rw [ih, Parametros.map_asignar, List.map_cons, List.map_cons, decryptProcesar, hopcion]
  | case4 token valor resto x hopcion ih =>
    rw [Function.comp_apply] at hopcion
    rw [ih]
    simp only [List.map_cons, decryptProcesar, hopcion]
    rfl

/-- The tests of `encrypt_app` behind the loop. -/
lemma map_encryptVerificar (x : Parametros ρ) :
    (encryptVerificar x).map f = encryptVerificar (x.map f) := by
  simp only [encryptVerificar, Parametros.exigir_eq, Parametros.map, Option.isSome_map]

/-- The tests of `decrypt_app` behind the loop. -/
lemma map_decryptVerificar (x : Parametros ρ) :
    (decryptVerificar x).map f = decryptVerificar (x.map f) := by
  simp only [decryptVerificar, Parametros.exigir_eq, Parametros.map, Option.isSome_map]

/-- The front ends look at the strings of the tokens only, so they can as well work with these. -/
theorem map_interpretarTokens (d : Syscall) (argumentos : List ρ) :
    (d.interpretarTokens atoi (texto ∘ f) argumentos).map f =
      d.interpretarTokens atoi texto (argumentos.map f) := by
  cases d with
  | encrypt =>
    rw [Syscall.interpretarTokens, map_encryptVerificar, map_encryptProcesar]
    rfl
  | decrypt =>
    rw [Syscall.interpretarTokens, map_decryptVerificar, map_decryptProcesar]
    rfl

/-- The strings behind pointers into the array `b`. -/
lemma map_cadenaEn_interpretarTokens (d : Syscall) (b : Buffer) (argumentos : List ℕ) :
    (d.interpretarTokens atoi b.cadenaEn argumentos).map b.cadenaEn =
      d.interpretar atoi (argumentos.map b.cadenaEn) :=
  @map_interpretarTokens _ _ atoi b.cadenaEn id d argumentos

end Map

/-! ## Where the pointers lead -/

/-- The paths are among the given tokens. -/
def Parametros.Entre {ρ : Type} (x : Parametros ρ) (s : List ρ) : Prop :=
  ∀ v, x.archivoEntrada = some v ∨ x.archivoSalida = some v ∨ x.archivoClave = some v → v ∈ s

section Entre

variable {ρ : Type} {atoi : Cadena → Int32} {texto : ρ → Cadena} {s : List ρ}

/-- A test does not change the paths. -/
lemma Parametros.Entre.exigir {x : Parametros ρ} (h : x.Entre s) (presente : Bool)
    (formato : String) : (x.exigir presente formato).Entre s := by
  cases presente <;> exact h

/-- An assignment adds its value. -/
lemma Parametros.Entre.asignar {x : Parametros ρ} (h : x.Entre s) (opcion : Opcion) {valor : ρ}
    (hvalor : valor ∈ s) : (x.asignar atoi texto opcion valor).Entre s := by
  intro v hv
  cases opcion with
  | t => exact h v hv
  | p =>
    rcases hv with hv | hv
    · exact Option.some_inj.mp hv ▸ hvalor
    · exact h v (.inr hv)
  | o =>
    rcases hv with hv | hv | hv
    · exact h v (.inl hv)
    · exact Option.some_inj.mp hv ▸ hvalor
    · exact h v (.inr (.inr hv))
  | k =>
    rcases hv with hv | hv | hv
    · exact h v (.inl hv)
    · exact h v (.inr (.inl hv))
    · exact Option.some_inj.mp hv ▸ hvalor

/-- The assignment in `encrypt_app`. -/
lemma Parametros.Entre.encryptAsignar {x : Parametros ρ} (h : x.Entre s) (opcion : Opcion)
    {valor : ρ} (hvalor : valor ∈ s) : (encryptAsignar atoi texto x opcion valor).Entre s := by
  unfold XorSyscalls.encryptAsignar
  dsimp only
  split
  · exact (h.asignar opcion hvalor).exigir false _
  · exact h.asignar opcion hvalor

/-- The paths are tokens of the command. -/
lemma entre_interpretarTokens (d : Syscall) (argumentos : List ρ) :
    (d.interpretarTokens atoi texto argumentos).Entre argumentos := by
  have hinicial : Parametros.inicial.Entre argumentos := fun v hv => by
    simp [Parametros.inicial] at hv
  cases d with
  | encrypt =>
    have hloop : ∀ {s} (toks : List ρ) x, x.Entre s → toks ⊆ s →
        (encryptProcesar atoi texto toks x).Entre s := by
      intro s toks x h hsub
      fun_induction encryptProcesar atoi texto toks x with
      | case1 x => exact h
      | case2 token x => exact h
      | case3 token valor resto x opcion hopcion ih =>
        simp only [List.cons_subset] at hsub
        exact ih (h.encryptAsignar opcion hsub.2.1) hsub.2.2
      | case4 token valor resto x hopcion => exact h
    exact ((hloop _ _ hinicial (List.Subset.refl _)).exigir _ _).exigir _ _ |>.exigir _ _
  | decrypt =>
    have hloop : ∀ {s} (toks : List ρ) x, x.Entre s → toks ⊆ s →
        (decryptProcesar atoi texto toks x).Entre s := by
      intro s toks x h hsub
      fun_induction decryptProcesar atoi texto toks x with
      | case1 x => exact h
      | case2 token x => exact h
      | case3 token valor resto x opcion hopcion ih =>
        simp only [List.cons_subset] at hsub
        exact ih (h.asignar opcion hsub.2.1) hsub.2.2
      | case4 token valor resto x hopcion ih => exact ih h (List.cons_subset.mp hsub).2
    exact (((hloop _ _ hinicial (List.Subset.refl _)).exigir _ _).exigir _ _).exigir _ _
      |>.exigir _ _

end Entre

/-! ## The tokens end inside of the array -/

namespace Buffer

/-- A `NUL` written into the array leaves the strings that end in it. -/
lemma zero_mem_drop_set {b : Buffer} (off : ℕ) (h : 0 ∈ b.bytes.drop off) (j : ℕ) :
    0 ∈ (b.set j 0).bytes.drop off := by
  obtain ⟨i, hi⟩ := List.mem_iff_getElem?.mp h
  rw [List.getElem?_drop] at hi
  refine List.mem_iff_getElem?.mpr ⟨i, ?_⟩
  rw [set, List.getElem?_drop]
  rcases eq_or_ne j (off + i) with rfl | hne
  · exact List.getElem?_set_self (List.getElem?_eq_some_iff.mp hi).1
  · rw [List.getElem?_set_ne hne, hi]

/-- The array after a line was read holds a string. -/
lemma zero_mem_leerComando {b : Buffer} {stdin : List UInt8} (h : 0 ∈ b.bytes ∨ stdin ≠ []) :
    0 ∈ (leerComando b stdin).1.bytes := by
  have hfgets : 0 ∈ (fgets b stdin).1.bytes := by
    unfold fgets
    split
    · exact h.resolve_right (not_not.mpr ‹_›)
    · simp
  exact zero_mem_drop_set 0 hfgets _

end Buffer

/-- `strtok` keeps the strings that end in the array; the token and what is behind it end there if
the string does. -/
lemma zero_mem_strtok {b : Buffer} {pos : ℕ} (h : 0 ∈ b.bytes.drop pos) :
    (∀ off, 0 ∈ b.bytes.drop off → 0 ∈ (strtok b pos).2.1.bytes.drop off) ∧
      ∀ off, (strtok b pos).1 = some off → 0 ∈ (strtok b pos).2.1.bytes.drop off ∧
        0 ∈ (strtok b pos).2.1.bytes.drop (strtok b pos).2.2 := by
  obtain ⟨e, w, s, htoken, hcases⟩ := strtok_spec b pos
  have he : 0 ∉ e := fun h0 => absurd (htoken.eq_espacio 0 h0) (by decide)
  have hs : 0 ∈ s := by
    rw [htoken.drop_eq] at h
    simpa [he, htoken.zero_not_mem] using h
  have hinicio : 0 ∈ b.bytes.drop (pos + e.length) := by
    rw [htoken.drop_inicio]
    exact List.mem_append_right w hs
  rcases hcases with ⟨-, -, pos', hstr⟩ | ⟨-, -, hstr⟩ | ⟨-, t, rfl, hstr⟩ <;> rw [hstr]
  · exact ⟨fun _ hoff => hoff, fun _ hoff => by cases hoff⟩
  · refine ⟨fun _ hoff => hoff, fun off hoff => ?_⟩
    obtain rfl := Option.some_inj.mp hoff
    exact ⟨hinicio, by rwa [htoken.drop_fin]⟩
  · refine ⟨fun _ hoff => Buffer.zero_mem_drop_set _ hoff _, fun off hoff => ?_⟩
    obtain rfl := Option.some_inj.mp hoff
    refine ⟨Buffer.zero_mem_drop_set _ hinicio _, ?_⟩
    rw [← List.drop_drop, htoken.cortar.drop_fin, List.drop_one, List.tail_cons]
    simpa [espacio] using hs

/-- The tokens end in the array, and so does every string that did before. -/
lemma zero_mem_separar (n pos : ℕ) {b : Buffer} (h : 0 ∈ b.bytes.drop pos) :
    (∀ off, 0 ∈ b.bytes.drop off → 0 ∈ (separar n (strtok b pos)).2.bytes.drop off) ∧
      ∀ off ∈ (separar n (strtok b pos)).1, 0 ∈ (separar n (strtok b pos)).2.bytes.drop off := by
  induction n generalizing b pos with
  | zero => exact ⟨(zero_mem_strtok h).1, fun off hoff => by cases hoff⟩
  | succ n ih =>
    obtain ⟨hkeep, htoken⟩ := zero_mem_strtok h
    generalize strtok b pos = r at hkeep htoken
    obtain ⟨off | off, b', pos'⟩ := r
    · exact ⟨hkeep, fun off hoff => by cases hoff⟩
    · obtain ⟨hoff, hpos⟩ := htoken off rfl
      obtain ⟨hkeep', htokens⟩ := ih _ hpos
      refine ⟨fun v hv => hkeep' v (hkeep v hv), fun v hv => ?_⟩
      rcases List.mem_cons.mp hv with rfl | hv
      · exact hkeep' v hoff
      · exact htokens v hv

/-! ## The strings that the system call finds -/

/-- The user memory of a front end with the array `b` at the address `base`; the rest of it is
given by `mem`. -/
def Buffer.enMemoria (b : Buffer) (base : ℕ) (mem : ℕ → Option UInt8) (addr : ℕ) : Option UInt8 :=
  if base ≤ addr ∧ addr < base + 256 then b.bytes[addr - base]? else mem addr

/-- A string that ends in the array is found behind a pointer to it. -/
lemma stringAt_of_zero_mem {c : Call} {b : Buffer} {base off : ℕ} {mem : ℕ → Option UInt8}
    (hmem : c.env.userMem = b.enMemoria base mem) (h : 0 ∈ b.bytes.drop off) :
    c.StringAt (base + off) (b.cadenaEn off) := by
  have hlength := b.length_eq
  obtain ⟨str, tail, hdrop, hstr⟩ := List.eq_append_cons_of_mem h
  have hcadena : b.cadenaEn off = str := by
    rw [Buffer.cadenaEn, hdrop, cString_append hstr, cString_cons, if_pos rfl, List.append_nil]
  have hlen : off + str.length < 256 := by
    have := congrArg List.length hdrop
    rw [List.length_drop, List.length_append, List.length_cons] at this
    omega
  have hbyte : ∀ i, off + i < 256 → c.env.userMem (base + off + i) = (str ++ 0 :: tail)[i]? := by
    intro i hi
    rw [hmem, Buffer.enMemoria, if_pos (by omega), ← hdrop, List.getElem?_drop]
    congr 1
    omega
  rw [hcadena]
  refine ⟨by omega, hstr, fun i hi => ?_, ?_⟩
  · rw [hbyte i (by omega), List.getElem?_append_left hi]
  · rw [hbyte _ hlen, List.getElem?_append_right le_rfl]
    simp

/-- A pointer leads to one string. -/
lemma Call.StringAt.eq {c : Call} {src : ℕ} {str str' : List UInt8} (h : c.StringAt src str)
    (h' : c.StringAt src str') : str = str' := by
  have hle : ∀ {s s' : List UInt8}, c.StringAt src s → c.StringAt src s' →
      s.length ≤ s'.length := by
    intro s s' hs hs'
    by_contra! hlt
    have hbyte := hs.bytes _ hlt
    rw [hs'.terminated] at hbyte
    exact hs.ne_zero (List.mem_of_getElem? hbyte.symm)
  have hlen := le_antisymm (hle h h') (hle h' h)
  refine List.ext_getElem? fun i => ?_
  by_cases hi : i < str.length
  · rw [← h.bytes i hi, h'.bytes i (hlen ▸ hi)]
  · rw [List.getElem?_eq_none (by omega), List.getElem?_eq_none (by omega)]

/-- The path copied from a pointer to a string is this string. -/
lemma Call.StringAt.path_eq {c : Call} {src : ℕ} {str : List UInt8} (h : c.StringAt src str)
    {site : Site} {p : Path} (hp : (c.userBytes src 256).map (c.pathAt site) = some p) :
    p = str := by
  obtain ⟨bytes, hbytes, rfl⟩ := Option.map_eq_some_iff.mp hp
  exact (Call.stringAt_of_userBytes hbytes (h.zero_mem hbytes) _).eq h

/-! ## The system call of a command -/

/-- The pointers of the call `c` lead to the strings of the request `q`. -/
structure Call.Pide (c : Call) (q : Solicitud) : Prop where
  srcFile : c.StringAt c.args.srcFile q.archivoEntrada
  destFile : c.StringAt c.args.destFile q.archivoSalida
  keyFilepath : c.StringAt c.args.keyFilepath q.archivoClave
  numThreads : c.args.numThreads = q.numHilos

/-- The arguments of the system call for the array at the address `base`, unless there was an
error. -/
def Parametros.args (base : ℕ) (x : Parametros ℕ) : Option Args :=
  if x.errorParametros then none
  else
    match x.archivoEntrada, x.archivoSalida, x.archivoClave with
    | some entrada, some salida, some clave =>
      some ⟨base + entrada, base + salida, x.numHilos, base + clave⟩
    | _, _, _ => none

/-- The call that the next iteration of a front end makes, if it makes one: the array `comando` is
at the address `base`, the task is `task`, and `env` gives the answers of the rest of the system. -/
def Syscall.llamada (d : Syscall) (atoi : Cadena → Int32) (base : ℕ) (e : Estado) (task : ℕ)
    (env : Env) : Option Call :=
  let leido := leerComando e.comando e.stdin
  if leido.1.cadena = salir then none
  else
    let partes := separar 10 (strtok leido.1 0)
    ((d.interpretarTokens atoi partes.2.cadenaEn partes.1).args base).map fun args =>
      ⟨task, args, { env with userMem := partes.2.enMemoria base env.userMem }⟩

section Llamada

variable {d : Syscall} {atoi : Cadena → Int32} {base task : ℕ} {e : Estado} {env : Env}

/-- The arguments are the pointers to the paths, which are all set. -/
lemma Parametros.args_eq_some_iff {x : Parametros ℕ} {args : Args} :
    x.args base = some args ↔ x.errorParametros = false ∧ ∃ entrada salida clave,
      x.archivoEntrada = some entrada ∧ x.archivoSalida = some salida ∧
        x.archivoClave = some clave ∧
        args = ⟨base + entrada, base + salida, x.numHilos, base + clave⟩ := by
  obtain ⟨entrada, salida, clave, hilos, error, mensajes⟩ := x
  cases error <;> cases entrada <;> cases salida <;> cases clave <;>
    simp [Parametros.args, eq_comm]

/-- A front end finds an error in the pointers iff it finds one in the strings. -/
lemma args_isSome_iff (base : ℕ) {x : Parametros ℕ} {b : Buffer} :
    (x.args base).isSome ↔ (x.map b.cadenaEn).solicitud.isSome := by
  obtain ⟨entrada, salida, clave, hilos, error, mensajes⟩ := x
  cases error <;> cases entrada <;> cases salida <;> cases clave <;>
    simp [Parametros.args, Parametros.map, Parametros.solicitud]

/-- The call has the arguments that the iteration asks for. -/
theorem pide_of_llamada (hnul : 0 ∈ e.comando.bytes ∨ e.stdin ≠ []) {c : Call}
    (h : d.llamada atoi base e task env = some c) :
    c.task = task ∧ ∃ q, (d.interpretar atoi e.tokens).solicitud = some q ∧ c.Pide q := by
  unfold Syscall.llamada at h
  dsimp only at h
  split at h
  · cases h
  · obtain ⟨args, hargs, rfl⟩ := Option.map_eq_some_iff.mp h
    have hend := (zero_mem_separar 10 0 (Buffer.zero_mem_leerComando hnul)).2
    have htokens : e.tokens = (separar 10 (strtok (leerComando e.comando e.stdin).1 0)).1.map
      (separar 10 (strtok (leerComando e.comando e.stdin).1 0)).2.cadenaEn := rfl
    rw [htokens, ← map_cadenaEn_interpretarTokens]
    clear h htokens
    generalize separar 10 (strtok (leerComando e.comando e.stdin).1 0) = partes at *
    have hentre : (d.interpretarTokens atoi partes.2.cadenaEn partes.1).Entre partes.1 :=
      entre_interpretarTokens d partes.1
    obtain ⟨herror, entrada, salida, clave, hentrada, hsalida, hclave, rfl⟩ :=
      Parametros.args_eq_some_iff.mp hargs
    refine ⟨rfl, ⟨partes.2.cadenaEn entrada, partes.2.cadenaEn salida,
      (d.interpretarTokens atoi partes.2.cadenaEn partes.1).numHilos,
      partes.2.cadenaEn clave⟩, ?_, ?_⟩
    · rw [Parametros.solicitud_eq_some_iff]
      exact ⟨herror, by simp [Parametros.map, hentrada], by simp [Parametros.map, hsalida],
        by simp [Parametros.map, hclave], rfl⟩
    · exact ⟨stringAt_of_zero_mem rfl (hend _ (hentre _ (.inl hentrada))),
        stringAt_of_zero_mem rfl (hend _ (hentre _ (.inr (.inl hsalida)))),
        stringAt_of_zero_mem rfl (hend _ (hentre _ (.inr (.inr hclave)))), rfl⟩

/-- The iteration makes a call iff its tokens are a request. -/
lemma llamada_eq_none_iff : d.llamada atoi base e task env = none ↔
    (leerComando e.comando e.stdin).1.cadena = salir ∨
      (d.interpretar atoi e.tokens).solicitud = none := by
  have htokens : e.tokens = (separar 10 (strtok (leerComando e.comando e.stdin).1 0)).1.map
    (separar 10 (strtok (leerComando e.comando e.stdin).1 0)).2.cadenaEn := rfl
  rw [htokens, ← map_cadenaEn_interpretarTokens,
    ← Option.not_isSome_iff_eq_none (o := Parametros.solicitud _), ← args_isSome_iff base,
    Option.not_isSome_iff_eq_none]
  unfold Syscall.llamada
  dsimp only
  split
  · simp_all
  · simp_all

end Llamada

end XorSyscalls
