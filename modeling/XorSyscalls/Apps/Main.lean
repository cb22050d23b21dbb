import XorSyscalls.Apps.Options
import XorSyscalls.Foundation.TransitionSystem

/-!
# The command loop of the front ends

`encrypt_app` and `decrypt_app` read one command after the other from the standard input and perform
the system call it asks for, until the command is `salir`.  One iteration of the loop is one step of
a transition system whose action is the value that the system call of the iteration returns, if it
performs one.

`emite_iff` reduces the question which system call an iteration performs to the reading of the
tokens of its command.
-/

namespace XorSyscalls

open TransitionSystem

/-! ## The loop -/

/-- What the outside sees of a front end. -/
inductive Evento
  | mensaje (m : Mensaje)
  | perror (texto : String)
  | llamada (numero : ℕ) (solicitud : Solicitud) (resultado : ℤ)
  deriving DecidableEq

/-- The state between two iterations.  `comandos` records the commands that were interpreted. -/
structure Estado where
  comando : Buffer
  stdin : List UInt8
  eventos : List Evento
  comandos : List Cadena
  terminado : Bool

/-- The command that ends the program. -/
def salir : Cadena := [115, 97, 108, 105, 114]

namespace Syscall

/-- `MY_ENCRYPT_SYSCALL` and `MY_DECRYPT_SYSCALL`. -/
def numero : Syscall → ℕ
  | encrypt => 548
  | decrypt => 549

/-- The message at the end of the program. -/
def despedida : Syscall → Mensaje
  | encrypt => ⟨.stdout, "Terminando el programa.\n", []⟩
  | decrypt => ⟨.stdout, "Saliendo del programa.\n", []⟩

/-- The messages in front of the system call. -/
def anuncio (d : Syscall) (q : Solicitud) : List Mensaje :=
  match d with
  | encrypt =>
    [⟨.stdout, "Iniciando encriptación...\n", []⟩,
     ⟨.stdout, "Archivo de entrada: %s\n", [.str q.archivoEntrada]⟩,
     ⟨.stdout, "Archivo de salida: %s\n", [.str q.archivoSalida]⟩,
     ⟨.stdout, "Número de hilos: %d\n", [.int q.numHilos.toInt]⟩,
     ⟨.stdout, "Archivo de clave: %s\n", [.str q.archivoClave]⟩]
  | decrypt =>
    [⟨.stdout, "Iniciando proceso de desencriptación...\n", []⟩,
     ⟨.stdout, "Archivo de entrada: %s\n", [.str q.archivoEntrada]⟩,
     ⟨.stdout, "Archivo de salida: %s\n", [.str q.archivoSalida]⟩,
     ⟨.stdout, "Hilos utilizados: %d\n", [.int q.numHilos.toInt]⟩,
     ⟨.stdout, "Archivo clave: %s\n", [.str q.archivoClave]⟩]

/-- The text given to `perror`. -/
def fallo : Syscall → String
  | encrypt => "Error: Fallo en my_encrypt"
  | decrypt => "Error al ejecutar my_decrypt"

/-- The message after a successful system call. -/
def exito (d : Syscall) (q : Solicitud) : Mensaje :=
  match d with
  | encrypt =>
    ⟨.stdout, "Encriptación completada exitosamente. Archivo de salida: %s\n",
      [.str q.archivoSalida]⟩
  | decrypt => ⟨.stdout, "Desencriptación completada exitosamente\n", []⟩

/-- The end of an iteration: the usage after an error, otherwise the system call. -/
def ejecutar (d : Syscall) (x : Parametros Cadena) (resultado : ℤ) : List Evento :=
  match x.solicitud with
  | none => mostrarUso.map .mensaje
  | some q =>
    (d.anuncio q).map .mensaje ++ .llamada d.numero q resultado ::
      [if resultado ≠ 0 then .perror d.fallo else .mensaje (d.exito q),
       .mensaje ⟨.stdout, "\n", []⟩]

/-- One iteration of the command loop. -/
def iterar (d : Syscall) (atoi : Cadena → Int32) (e : Estado) (resultado : ℤ) : Option Estado :=
  if e.terminado then none
  else
    let leido := leerComando e.comando e.stdin
    let indicador := Evento.mensaje ⟨.stdout, "> ", []⟩
    if leido.1.cadena = salir then
      some { e with
        comando := leido.1
        stdin := leido.2
        eventos := e.eventos ++ [indicador, .mensaje d.despedida]
        terminado := true }
    else
      let partes := separar 10 (strtok leido.1 0)
      let x := d.interpretar atoi (partes.1.map partes.2.cadenaEn)
      some { e with
        comando := partes.2
        stdin := leido.2
        eventos := e.eventos ++ indicador :: (x.mensajes.map .mensaje ++ d.ejecutar x resultado)
        comandos := e.comandos ++ [leido.1.cadena] }

end Syscall

/-! ## System calls -/

/-- The arguments of a system call. -/
def Evento.solicitud : Evento → Option Solicitud
  | .llamada _ q _ => some q
  | _ => none

namespace Estado

/-- The start of the loop, with the array and the input as they are. -/
def inicio (comando : Buffer) (stdin : List UInt8) : Estado := ⟨comando, stdin, [], [], false⟩

/-- The system calls performed so far. -/
def llamadas (e : Estado) : List Solicitud := e.eventos.filterMap Evento.solicitud

/-- The tokens of the next command. -/
def tokens (e : Estado) : List Cadena := argumentos (leerComando e.comando e.stdin).1

/-- The next iteration performs a system call with the arguments `q`. -/
def Emite (e : Estado) (d : Syscall) (atoi : Cadena → Int32) (q : Solicitud) : Prop :=
  ∃ resultado e', d.iterar atoi e resultado = some e' ∧ e'.llamadas = e.llamadas ++ [q]

end Estado

section Emite

variable {d : Syscall} {atoi : Cadena → Int32} {e e' : Estado} {r : ℤ} {q : Solicitud}

/-- Messages are not system calls. -/
@[simp] lemma filterMap_mensaje (ms : List Mensaje) :
    (ms.map Evento.mensaje).filterMap Evento.solicitud = [] := by
  simp [List.filterMap_map, Function.comp_def, Evento.solicitud]

/-- The end of an iteration performs the system call that the parameters ask for. -/
lemma filterMap_ejecutar (x : Parametros Cadena) (r : ℤ) :
    (d.ejecutar x r).filterMap Evento.solicitud = x.solicitud.toList := by
  unfold Syscall.ejecutar
  cases x.solicitud with
  | none => exact filterMap_mensaje _
  | some q =>
    by_cases hr : r = 0 <;> simp [List.filterMap_cons, Evento.solicitud, hr]

/-- What an iteration does: it ends the program, or interprets a command. -/
lemma iterar_cases (h : d.iterar atoi e r = some e') :
    e.terminado = false ∧ e'.stdin = (leerComando e.comando e.stdin).2 ∧
    (((leerComando e.comando e.stdin).1.cadena = salir ∧ e'.terminado = true ∧
        e'.comandos = e.comandos ∧ e'.llamadas = e.llamadas) ∨
      ((leerComando e.comando e.stdin).1.cadena ≠ salir ∧ e'.terminado = false ∧
        e'.comandos = e.comandos ++ [(leerComando e.comando e.stdin).1.cadena] ∧
        e'.llamadas = e.llamadas ++ (d.interpretar atoi e.tokens).solicitud.toList)) := by
  unfold Syscall.iterar at h
  cases hfin : e.terminado with
  | true => simp [hfin] at h
  | false =>
    rw [hfin, if_neg Bool.false_ne_true] at h
    by_cases hsalir : (leerComando e.comando e.stdin).1.cadena = salir
    · rw [if_pos hsalir, Option.some_inj] at h
      subst h
      refine ⟨rfl, rfl, .inl ⟨hsalir, rfl, rfl, ?_⟩⟩
      simp [Estado.llamadas, Evento.solicitud]
    · rw [if_neg hsalir, Option.some_inj] at h
      subst h
      refine ⟨rfl, rfl, .inr ⟨hsalir, rfl, rfl, ?_⟩⟩
      rw [Estado.llamadas, List.filterMap_append, List.filterMap_cons_none rfl,
        List.filterMap_append, filterMap_mensaje, filterMap_ejecutar]
      rfl

/-- The loop goes on until the program has ended. -/
lemma exists_iterar (h : e.terminado = false) (d : Syscall) (atoi : Cadena → Int32) (r : ℤ) :
    ∃ e', d.iterar atoi e r = some e' := by
  unfold Syscall.iterar
  rw [h, if_neg Bool.false_ne_true]
  dsimp only
  split
  · exact ⟨_, rfl⟩
  · exact ⟨_, rfl⟩

/-- No front end takes a single word for a request. -/
lemma solicitud_singleton (d : Syscall) (atoi : Cadena → Int32) (w : Cadena) :
    (d.interpretar atoi [w]).solicitud = none := by
  cases d <;> rfl

/-- An iteration performs the system call that its tokens ask for. -/
theorem emite_iff (h : e.terminado = false) :
    e.Emite d atoi q ↔ (d.interpretar atoi e.tokens).solicitud = some q := by
  constructor
  · rintro ⟨r, e', hiterar, hllamadas⟩
    obtain ⟨-, -, ⟨-, -, -, heq⟩ | ⟨-, -, -, heq⟩⟩ := iterar_cases hiterar
    · simp [heq] at hllamadas
    · rw [heq, List.append_cancel_left_eq] at hllamadas
      exact Option.toList_eq_singleton_iff.mp hllamadas
  · intro hq
    obtain ⟨e', hiterar⟩ := exists_iterar h d atoi 0
    obtain ⟨-, -, ⟨hsalir, -⟩ | ⟨-, -, -, heq⟩⟩ := iterar_cases hiterar
    · -- the tokens of `salir` are no request
      have htokens : e.tokens = [salir] := by
        rw [Estado.tokens, argumentos_eq_take_words, hsalir]
        rfl
      rw [htokens, solicitud_singleton] at hq
      cases hq
    · exact ⟨0, e', hiterar, by rw [heq, hq]; rfl⟩

end Emite

/-! ## Lines -/

namespace Estado

/-- The next line of the input is `l`, and it fits into the array.  The last line may lack its
newline. -/
structure Lee (e : Estado) (l : List UInt8) : Prop where
  terminado : e.terminado = false
  length_lt : l.length < 255
  salto_not_mem : salto ∉ l
  stdin : (∃ rest, e.stdin = l ++ salto :: rest) ∨ e.stdin = l ∧ l ≠ []

variable {e : Estado} {l : List UInt8}

/-- The command is the part of the line in front of the first `NUL`. -/
lemma Lee.cadena_eq (h : e.Lee l) : (leerComando e.comando e.stdin).1.cadena = cString l := by
  obtain ⟨rest, hstdin⟩ | ⟨hstdin, hne⟩ := h.stdin
  · rw [hstdin, cadena_leerComando_line h.salto_not_mem, List.take_of_length_le h.length_lt.le]
  · rw [hstdin, cadena_leerComando _ hne, linea_eq_take h.salto_not_mem,
      List.take_of_length_le h.length_lt.le, takeWhile_eq_cString h.salto_not_mem]

/-- The tokens are the first ten words of this part. -/
lemma Lee.tokens_eq (h : e.Lee l) : e.tokens = (words espacio (cString l)).take 10 := by
  rw [tokens, argumentos_eq_take_words, h.cadena_eq]

/-- A front end that has just been started with one line of input. -/
def conLinea (l : List UInt8) : Estado :=
  inicio ⟨List.replicate 256 0, List.length_replicate⟩ (l ++ [salto])

lemma lee_conLinea (hlen : l.length < 255) (hl : salto ∉ l) : (conLinea l).Lee l :=
  ⟨rfl, hlen, hl, .inl ⟨[], rfl⟩⟩

end Estado

end XorSyscalls
