import XorSyscalls.Apps.CLibrary
import XorSyscalls.Syscall.Helpers
import XorSyscalls.Foundation.LastValue

/-!
# The options of a command

The front ends go through the tokens of a command from left to right.  A token that is one of `-p`,
`-o`, `-t` and `-k` takes the next token as its value.  `encrypt_app` stops with an error at any
other token and tests the value of every `-t` at once; `decrypt_app` prints the usage, goes on
behind the token, and tests the thread count after the loop.

`leerOpciones` reads the tokens as pairs of an option and its value and tokens that are left over.
`solicitud_encrypt_iff` and `solicitud_decrypt_iff` say in these terms when a command leads to a
system call, and with which arguments.
-/

namespace XorSyscalls

/-! ## Messages -/

/-- The stream of a message. -/
inductive Flujo
  | stdout
  | stderr
  deriving DecidableEq

/-- A call of `printf` or `fprintf`. -/
structure Mensaje where
  flujo : Flujo
  formato : String
  args : List LogArg
  deriving DecidableEq

/-- The messages of `mostrar_uso`. -/
def mostrarUso : List Mensaje :=
  [⟨.stderr, "Ingresa: -p <archivo_entrada> -o <archivo_salida> -t <num_hilos> -k <archivo_clave>\n"
      ++ "Ingresa: 'salir' si deseas terminar el programa.\n", []⟩,
   ⟨.stdout, "\n", []⟩]

/-! ## The variables of the command loop -/

/-- The options. -/
inductive Opcion
  | p
  | o
  | t
  | k
  deriving DecidableEq

/-- The token that stands for an option. -/
def Opcion.bandera : Opcion → Cadena
  | .p => [45, 112]
  | .o => [45, 111]
  | .t => [45, 116]
  | .k => [45, 107]

/-- The option a token stands for. -/
def opcionDe (token : Cadena) : Option Opcion :=
  if token = Opcion.bandera .p then some .p
  else if token = Opcion.bandera .o then some .o
  else if token = Opcion.bandera .t then some .t
  else if token = Opcion.bandera .k then some .k
  else none

/-- The variables that are reset for every command, and what has been printed about it.  The paths
are tokens of the command, given by values of the type `ρ`: pointers, or the strings they lead
to. -/
structure Parametros (ρ : Type) where
  archivoEntrada : Option ρ
  archivoSalida : Option ρ
  archivoClave : Option ρ
  numHilos : Int32
  errorParametros : Bool
  mensajes : List Mensaje
  deriving DecidableEq

/-- The arguments of the system call. -/
structure Solicitud where
  archivoEntrada : Cadena
  archivoSalida : Cadena
  numHilos : Int32
  archivoClave : Cadena
  deriving DecidableEq

namespace Parametros

variable {ρ : Type}

/-- The values at the start of a command. -/
def inicial : Parametros ρ := ⟨none, none, none, 0, false, []⟩

/-- The call of `mostrar_uso`. -/
def uso (x : Parametros ρ) : Parametros ρ := { x with mensajes := x.mensajes ++ mostrarUso }

/-- An error message, after which `error_parametros` is set. -/
def fallar (x : Parametros ρ) (formato : String) : Parametros ρ :=
  { x with errorParametros := true, mensajes := x.mensajes ++ [⟨.stderr, formato, []⟩] }

/-- The test of a parameter behind the loop. -/
def exigir (x : Parametros ρ) (presente : Bool) (formato : String) : Parametros ρ :=
  if presente then x else x.fallar formato

/-- The assignment of an option's value; `texto` gives the string of a token. -/
def asignar (atoi : Cadena → Int32) (texto : ρ → Cadena) (x : Parametros ρ) (opcion : Opcion)
    (valor : ρ) : Parametros ρ :=
  match opcion with
  | .p => { x with archivoEntrada := some valor }
  | .o => { x with archivoSalida := some valor }
  | .t => { x with numHilos := atoi (texto valor) }
  | .k => { x with archivoClave := some valor }

/-- The arguments of the system call, unless there was an error.  The paths are set then. -/
def solicitud (x : Parametros Cadena) : Option Solicitud :=
  if x.errorParametros then none
  else
    match x.archivoEntrada, x.archivoSalida, x.archivoClave with
    | some entrada, some salida, some clave => some ⟨entrada, salida, x.numHilos, clave⟩
    | _, _, _ => none

end Parametros

/-! ## The loop over the tokens -/

section Procesar

variable {ρ : Type} (atoi : Cadena → Int32) (texto : ρ → Cadena)

/-- The assignment in `encrypt_app`, which tests the thread count at once. -/
def encryptAsignar (x : Parametros ρ) (opcion : Opcion) (valor : ρ) : Parametros ρ :=
  let y := x.asignar atoi texto opcion valor
  if opcion = .t ∧ y.numHilos ≤ 0 then
    y.fallar <| "Error: El parámetro -t para el número de hilos es inválido o falta "
      ++ "(debe ser mayor que 0)\n"
  else y

/-- The loop of `encrypt_app`: a token that is not an option, or an option without a value, is an
error and ends the loop. -/
def encryptProcesar : List ρ → Parametros ρ → Parametros ρ
  | [], x => x
  | [_], x => { x.uso with errorParametros := true }
  | token :: valor :: resto, x =>
    match opcionDe (texto token) with
    | some opcion => encryptProcesar resto (encryptAsignar atoi texto x opcion valor)
    | none => { x.uso with errorParametros := true }

/-- The loop of `decrypt_app`: the usage is printed at such a token and the loop goes on. -/
def decryptProcesar : List ρ → Parametros ρ → Parametros ρ
  | [], x => x
  | [_], x => x.uso
  | token :: valor :: resto, x =>
    match opcionDe (texto token) with
    | some opcion => decryptProcesar resto (x.asignar atoi texto opcion valor)
    | none => decryptProcesar (valor :: resto) x.uso

/-- The tests of `encrypt_app` behind the loop. -/
def encryptVerificar (x : Parametros ρ) : Parametros ρ :=
  let x := x.exigir x.archivoEntrada.isSome
    "Error: Falta el parámetro -p para el archivo de entrada\n"
  let x := x.exigir x.archivoSalida.isSome
    "Error: Falta el parámetro -o para el archivo de salida\n"
  x.exigir x.archivoClave.isSome
    "Error: Falta el parámetro -k para el archivo de clave\n"

/-- The tests of `decrypt_app` behind the loop. -/
def decryptVerificar (x : Parametros ρ) : Parametros ρ :=
  let x := x.exigir x.archivoEntrada.isSome
    "Error: Falta el parámetro -p para especificar el archivo de entrada\n"
  let x := x.exigir x.archivoSalida.isSome
    "Error: Falta el parámetro -o para el archivo de salida\n"
  let x := x.exigir (0 < x.numHilos)
    "Error: El número de hilos especificado con -t es inválido o falta (debe ser mayor a 0)\n"
  x.exigir x.archivoClave.isSome
    "Error: Falta el archivo de clave, use -k para especificarlo\n"

/-- The variables after the tokens of a command were processed and tested. -/
def Syscall.interpretarTokens (d : Syscall) (tokens : List ρ) : Parametros ρ :=
  match d with
  | .encrypt => encryptVerificar (encryptProcesar atoi texto tokens .inicial)
  | .decrypt => decryptVerificar (decryptProcesar atoi texto tokens .inicial)

/-- The same with the strings of the tokens. -/
def Syscall.interpretar (d : Syscall) (tokens : List Cadena) : Parametros Cadena :=
  d.interpretarTokens atoi id tokens

end Procesar

/-! ## Reading tokens as options -/

/-- The tokens as options with their values, read from left to right, and the tokens left over. -/
def leerOpciones : List Cadena → List (Opcion × Cadena) × List Cadena
  | [] => ([], [])
  | [token] => ([], [token])
  | token :: valor :: resto =>
    match opcionDe token with
    | some opcion => ((opcion, valor) :: (leerOpciones resto).1, (leerOpciones resto).2)
    | none => ((leerOpciones (valor :: resto)).1, token :: (leerOpciones (valor :: resto)).2)

/-- The tokens of a list of options. -/
def aplanar (opciones : List (Opcion × Cadena)) : List Cadena :=
  opciones.flatMap fun x => [x.1.bandera, x.2]

@[simp] lemma aplanar_cons (x : Opcion × Cadena) (opciones : List (Opcion × Cadena)) :
    aplanar (x :: opciones) = x.1.bandera :: x.2 :: aplanar opciones := rfl

/-- The comparisons find exactly the option of a token. -/
lemma opcionDe_eq_some_iff {token : Cadena} {opcion : Opcion} :
    opcionDe token = some opcion ↔ token = opcion.bandera := by
  constructor
  · intro h
    unfold opcionDe at h
    split_ifs at h with hp ho ht hk
    all_goals
      obtain rfl := Option.some_inj.mp h
      assumption
  · rintro rfl
    cases opcion <;> rfl

@[simp] lemma opcionDe_bandera (opcion : Opcion) : opcionDe opcion.bandera = some opcion :=
  opcionDe_eq_some_iff.mpr rfl

/-- The tokens of options are read as these options. -/
lemma leerOpciones_aplanar (opciones : List (Opcion × Cadena)) :
    leerOpciones (aplanar opciones) = (opciones, []) := by
  induction opciones with
  | nil => rfl
  | cons x opciones ih => simp [leerOpciones, ih]

/-- If no token is left over, the tokens are those of the options read. -/
lemma eq_aplanar_of_sobrantes {tokens : List Cadena} (h : (leerOpciones tokens).2 = []) :
    tokens = aplanar (leerOpciones tokens).1 := by
  fun_induction leerOpciones tokens with
  | case1 => rfl
  | case2 => simp at h
  | case3 token valor resto opcion hopcion ih =>
    rw [aplanar_cons, ← ih h, ← opcionDe_eq_some_iff.mp hopcion]
  | case4 => simp at h

/-- No token is left over iff the tokens are those of some options. -/
lemma sobrantes_eq_nil_iff {tokens : List Cadena} :
    (leerOpciones tokens).2 = [] ↔ ∃ opciones, tokens = aplanar opciones := by
  constructor
  · intro h
    exact ⟨_, eq_aplanar_of_sobrantes h⟩
  · rintro ⟨opciones, rfl⟩
    rw [leerOpciones_aplanar]

/-- The options read are tokens of the command, in order. -/
lemma aplanar_sublist (tokens : List Cadena) :
    (aplanar (leerOpciones tokens).1).Sublist tokens := by
  fun_induction leerOpciones tokens with
  | case1 => exact List.Sublist.refl _
  | case2 => exact List.nil_sublist _
  | case3 token valor resto opcion hopcion ih =>
    rw [aplanar_cons, ← opcionDe_eq_some_iff.mp hopcion]
    exact (ih.cons_cons valor).cons_cons token
  | case4 token valor resto hopcion ih => exact ih.cons token

/-! ## When a command leads to a system call -/

namespace Parametros

variable {x : Parametros Cadena} {q : Solicitud}

/-- A test changes the error flag and the messages only. -/
lemma exigir_eq {ρ : Type} (x : Parametros ρ) (presente : Bool) (formato : String) :
    x.exigir presente formato = { x with
      errorParametros := x.errorParametros || !presente
      mensajes := if presente then x.mensajes else x.mensajes ++ [⟨.stderr, formato, []⟩] } := by
  cases presente <;> simp [exigir, fallar]

/-- The arguments are the values of the variables, which are all set. -/
lemma solicitud_eq_some_iff :
    x.solicitud = some q ↔ x.errorParametros = false ∧ x.archivoEntrada = some q.archivoEntrada ∧
      x.archivoSalida = some q.archivoSalida ∧ x.archivoClave = some q.archivoClave ∧
      x.numHilos = q.numHilos := by
  obtain ⟨entrada, salida, clave, hilos, error, mensajes⟩ := x
  obtain ⟨qEntrada, qSalida, qHilos, qClave⟩ := q
  cases error <;> cases entrada <;> cases salida <;> cases clave <;> simp [solicitud]
  tauto

/-- The tests of `encrypt_app` behind the loop only refuse what lacks an argument. -/
lemma solicitud_encryptVerificar : (encryptVerificar x).solicitud = some q ↔
    x.solicitud = some q := by
  simp only [solicitud_eq_some_iff, encryptVerificar, exigir_eq]
  constructor
  · rintro ⟨herror, hvalores⟩
    simp only [Bool.or_eq_false_iff] at herror
    exact ⟨herror.1.1.1, hvalores⟩
  · rintro ⟨herror, hentrada, hsalida, hclave, hhilos⟩
    simp [herror, hentrada, hsalida, hclave, hhilos]

/-- The tests of `decrypt_app` behind the loop also refuse a thread count below one. -/
lemma solicitud_decryptVerificar : (decryptVerificar x).solicitud = some q ↔
    x.solicitud = some q ∧ 0 < q.numHilos := by
  simp only [solicitud_eq_some_iff, decryptVerificar, exigir_eq]
  constructor
  · rintro ⟨herror, hentrada, hsalida, hclave, hhilos⟩
    simp only [Bool.or_eq_false_iff] at herror
    refine ⟨⟨herror.1.1.1.1, hentrada, hsalida, hclave, hhilos⟩, ?_⟩
    simpa [hhilos] using herror.1.2
  · rintro ⟨⟨herror, hentrada, hsalida, hclave, hhilos⟩, hpos⟩
    simp [herror, hentrada, hsalida, hclave, hhilos, hpos]

end Parametros

section Spec

variable {atoi : Cadena → Int32} {β : Type*} {f : Parametros Cadena → β} {opcion : Opcion}
  {g : Cadena → β}

/-- The loop of `encrypt_app` over the tokens of options performs the assignments in order. -/
lemma encryptProcesar_aplanar (opciones : List (Opcion × Cadena)) (x : Parametros Cadena) :
    encryptProcesar atoi id (aplanar opciones) x =
      opciones.foldl (fun y z => encryptAsignar atoi id y z.1 z.2) x := by
  induction opciones generalizing x with
  | nil => rfl
  | cons z opciones ih =>
    rw [aplanar_cons, encryptProcesar, id_eq, opcionDe_bandera, List.foldl_cons]
    exact ih _

/-- A token left over is an error in `encrypt_app`. -/
lemma encryptProcesar_error {tokens : List Cadena} (x : Parametros Cadena)
    (h : (leerOpciones tokens).2 ≠ []) :
    (encryptProcesar atoi id tokens x).errorParametros = true := by
  fun_induction encryptProcesar atoi id tokens x with
  | case1 x => exact absurd rfl h
  | case2 => rfl
  | case3 token valor resto x opcion hopcion ih =>
    rw [id_eq] at hopcion
    rw [leerOpciones, hopcion] at h
    exact ih h
  | case4 => rfl

/-- The loop of `decrypt_app` ends with the last value of an option. -/
lemma decryptProcesar_campo
    (h : ∀ x op v, f (x.asignar atoi id op v) = if op = opcion then g v else f x)
    (huso : ∀ x : Parametros Cadena, f x.uso = f x) (tokens : List Cadena) (x : Parametros Cadena) :
    f (decryptProcesar atoi id tokens x) =
      (lastValue opcion (leerOpciones tokens).1).elim (f x) g := by
  fun_induction decryptProcesar atoi id tokens x with
  | case1 x => rfl
  | case2 token x => exact huso x
  | case3 token valor resto x op hop ih =>
    rw [id_eq] at hop
    rw [ih, leerOpciones, hop, lastValue_cons_elim, h]
  | case4 token valor resto x hop ih =>
    rw [id_eq] at hop
    rw [ih, huso, leerOpciones, hop]

/-- The loop of `encrypt_app` over the tokens of options ends with the last value of an option. -/
lemma encryptProcesar_campo
    (h : ∀ x op v, f (x.asignar atoi id op v) = if op = opcion then g v else f x)
    (hfallar : ∀ (x : Parametros Cadena) m, f (x.fallar m) = f x)
    (opciones : List (Opcion × Cadena)) (x : Parametros Cadena) :
    f (encryptProcesar atoi id (aplanar opciones) x) =
      (lastValue opcion opciones).elim (f x) g := by
  rw [encryptProcesar_aplanar]
  refine foldl_lastValue (fun y op v => ?_) opciones x
  unfold encryptAsignar
  dsimp only
  split
  · rw [hfallar, h]
  · rw [h]

/-- `encrypt_app` finds an error in a thread count below one. -/
lemma encryptAsignar_error (x : Parametros Cadena) (op : Opcion) (v : Cadena) :
    (encryptAsignar atoi id x op v).errorParametros = false ↔
      x.errorParametros = false ∧ (op = .t → 0 < atoi v) := by
  cases op with
  | t =>
    by_cases hv : atoi v ≤ 0
    · simp [encryptAsignar, Parametros.asignar, Parametros.fallar, hv]
    · simp [encryptAsignar, Parametros.asignar, hv, Int32.not_le.mp hv]
  | p => simp [encryptAsignar, Parametros.asignar]
  | o => simp [encryptAsignar, Parametros.asignar]
  | k => simp [encryptAsignar, Parametros.asignar]

/-- The loop of `encrypt_app` tests every thread count. -/
lemma encryptProcesar_error_iff (opciones : List (Opcion × Cadena)) (x : Parametros Cadena) :
    (encryptProcesar atoi id (aplanar opciones) x).errorParametros = false ↔
      x.errorParametros = false ∧ ∀ v, (.t, v) ∈ opciones → 0 < atoi v := by
  rw [encryptProcesar_aplanar]
  induction opciones generalizing x with
  | nil => simp
  | cons z opciones ih =>
    obtain ⟨op, valor⟩ := z
    rw [List.foldl_cons, ih, encryptAsignar_error, and_assoc]
    refine and_congr_right fun _ => ?_
    simp only [List.mem_cons, Prod.mk.injEq]
    constructor
    · rintro ⟨hfirst, hrest⟩ v (⟨rfl, rfl⟩ | hv)
      · exact hfirst rfl
      · exact hrest v hv
    · intro h
      exact ⟨fun hop => h valor (.inl ⟨hop.symm, rfl⟩), fun v hv => h v (.inr hv)⟩

/-- The arguments of a system call are the last values of the options; without `-t` the thread count
is zero. -/
structure Solicitud.Ultimos (atoi : Cadena → Int32) (opciones : List (Opcion × Cadena))
    (q : Solicitud) : Prop where
  archivoEntrada : lastValue .p opciones = some q.archivoEntrada
  archivoSalida : lastValue .o opciones = some q.archivoSalida
  archivoClave : lastValue .k opciones = some q.archivoClave
  numHilos : (lastValue .t opciones).elim 0 atoi = q.numHilos

/-- Variables that hold the last values of options. -/
lemma solicitud_iff_ultimos (atoi : Cadena → Int32) (opciones : List (Opcion × Cadena))
    {x : Parametros Cadena} {q : Solicitud}
    (hentrada : x.archivoEntrada = (lastValue .p opciones).elim none some)
    (hsalida : x.archivoSalida = (lastValue .o opciones).elim none some)
    (hclave : x.archivoClave = (lastValue .k opciones).elim none some)
    (hhilos : x.numHilos = (lastValue .t opciones).elim 0 atoi) :
    x.solicitud = some q ↔ x.errorParametros = false ∧ q.Ultimos atoi opciones := by
  have helim (v : Option Cadena) : v.elim none some = v := by cases v <;> rfl
  rw [helim] at hentrada hsalida hclave
  rw [Parametros.solicitud_eq_some_iff, hentrada, hsalida, hclave, hhilos]
  constructor
  · rintro ⟨herror, hp, ho, hk, ht⟩
    exact ⟨herror, hp, ho, hk, ht⟩
  · rintro ⟨herror, hp, ho, hk, ht⟩
    exact ⟨herror, hp, ho, hk, ht⟩

/-- The loop of `decrypt_app` sets no error. -/
lemma decryptProcesar_error (tokens : List Cadena) (x : Parametros Cadena) :
    (decryptProcesar atoi id tokens x).errorParametros = x.errorParametros := by
  fun_induction decryptProcesar atoi id tokens x with
  | case1 => rfl
  | case2 => rfl
  | case3 token valor resto x op hop ih => rw [ih]; cases op <;> rfl
  | case4 token valor resto x hop ih => exact ih

/-- `encrypt_app` accepts a command iff its tokens are options with values and every thread count is
at least one.  The arguments are the last values. -/
theorem solicitud_encrypt_iff {tokens : List Cadena} {q : Solicitud} :
    (Syscall.encrypt.interpretar atoi tokens).solicitud = some q ↔
      ∃ opciones, tokens = aplanar opciones ∧ (∀ v, (.t, v) ∈ opciones → 0 < atoi v) ∧
        q.Ultimos atoi opciones := by
  have hspec (opciones : List (Opcion × Cadena)) :
      (encryptProcesar atoi id (aplanar opciones) .inicial).solicitud = some q ↔
        (∀ v, (.t, v) ∈ opciones → 0 < atoi v) ∧ q.Ultimos atoi opciones := by
    rw [solicitud_iff_ultimos atoi opciones, encryptProcesar_error_iff]
    · exact ⟨fun h => ⟨h.1.2, h.2⟩, fun h => ⟨⟨rfl, h.1⟩, h.2⟩⟩
    all_goals
      refine encryptProcesar_campo (fun x op v => ?_) (fun _ _ => rfl) opciones .inicial
      cases op <;> rfl
  rw [Syscall.interpretar, Syscall.interpretarTokens, Parametros.solicitud_encryptVerificar]
  constructor
  · intro h
    have hsobra : (leerOpciones tokens).2 = [] := by
      by_contra hsobra
      rw [Parametros.solicitud_eq_some_iff, encryptProcesar_error _ hsobra] at h
      exact absurd h.1 (by decide)
    rw [eq_aplanar_of_sobrantes hsobra, hspec] at h
    exact ⟨_, eq_aplanar_of_sobrantes hsobra, h⟩
  · rintro ⟨opciones, rfl, h⟩
    exact (hspec opciones).mpr h

/-- `decrypt_app` accepts a command iff the options among its tokens give all paths and a thread
count of at least one.  Other tokens do not matter. -/
theorem solicitud_decrypt_iff {tokens : List Cadena} {q : Solicitud} :
    (Syscall.decrypt.interpretar atoi tokens).solicitud = some q ↔
      q.Ultimos atoi (leerOpciones tokens).1 ∧ 0 < q.numHilos := by
  rw [Syscall.interpretar, Syscall.interpretarTokens, Parametros.solicitud_decryptVerificar]
  refine and_congr_left fun _ => ?_
  rw [solicitud_iff_ultimos atoi (leerOpciones tokens).1,
    decryptProcesar_error]
  · exact ⟨fun h => h.2, fun h => ⟨rfl, h⟩⟩
  all_goals
    refine decryptProcesar_campo (fun x op v => ?_) (fun _ => rfl) tokens .inicial
    cases op <;> rfl

end Spec

end XorSyscalls
