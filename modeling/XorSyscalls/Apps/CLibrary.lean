import XorSyscalls.Kernel.Calls
import XorSyscalls.Foundation.Words
import Mathlib.Data.List.TakeWhile

/-!
# The C library functions of the front ends

`encrypt_app` and `decrypt_app` keep the command line in the array `comando` of 256 bytes.  `fgets`
fills it, `strcspn` finds the newline to cut off, and `strtok` splits it into tokens in place: it
writes a `NUL` behind every token and remembers where to go on.  The tokens are pointers into the
array, here offsets.

`cadena_leerComando` says which string is in the array after a line was read, and
`argumentos_eq_take_words` says that the tokens are the first ten words of this string.  What the
splitting leaves at the start of the array is the string up to the end of its first word, by
`cadena_separar`; all of this rests on `strtok_spec`, the one place where `strtok` is unfolded.
-/

namespace XorSyscalls

/-- The content of a C string, without its terminator. -/
abbrev Cadena := List UInt8

/-- The newline. -/
def salto : UInt8 := 10

/-- The separator of the tokens. -/
def espacio : UInt8 := 32

/-! ## C strings -/

section CString

variable {l : List UInt8}

lemma cString_cons (a : UInt8) (l : List UInt8) :
    cString (a :: l) = if a = 0 then [] else a :: cString l := by
  by_cases ha : a = 0 <;> simp [cString, ha]

/-- A C string has no `NUL` inside. -/
lemma zero_not_mem_cString (l : List UInt8) : 0 ∉ cString l := by
  intro h
  simpa using List.mem_takeWhile_imp h

/-- A string that starts with its terminator is empty. -/
lemma cString_eq_nil (h : l.headD 0 = 0) : cString l = [] := by
  cases l with
  | nil => rfl
  | cons a l => exact (cString_cons a l).trans (if_pos h)

/-- Bytes other than `NUL` in front belong to the string. -/
lemma cString_append (h : 0 ∉ l) (rest : List UInt8) :
    cString (l ++ rest) = l ++ cString rest := by
  unfold cString
  refine List.takeWhile_append_of_pos fun a ha => ?_
  simpa using fun hzero : a = 0 => h (hzero ▸ ha)

/-- A string without `NUL` is its own C string. -/
lemma cString_eq_self (h : 0 ∉ l) : cString l = l := by
  have happend := cString_append h []
  rwa [List.append_nil, show cString [] = [] from rfl, List.append_nil] at happend

/-- Cutting a string off in front of the first byte that fails a test which `NUL` fails. -/
lemma cString_set_takeWhile {p : UInt8 → Bool} (hp : p 0 = false) :
    cString (l.set (l.takeWhile p).length 0) = l.takeWhile p := by
  induction l with
  | nil => rfl
  | cons a l ih =>
    cases ha : p a with
    | false => simp [List.takeWhile_cons_of_neg, ha, cString_cons]
    | true =>
      have hne : a ≠ 0 := by
        rintro rfl
        simp [hp] at ha
      rw [List.takeWhile_cons_of_pos ha, List.length_cons, List.set_cons_succ, cString_cons,
        if_neg hne, ih]

/-- Writing behind the terminator does not change the string. -/
lemma cString_set {j : ℕ} (h : (cString l).length < j) (v : UInt8) :
    cString (l.set j v) = cString l := by
  induction l generalizing j with
  | nil => rfl
  | cons a l ih =>
    cases j with
    | zero => exact absurd h (Nat.not_lt_zero _)
    | succ j =>
      rw [List.set_cons_succ, cString_cons, cString_cons]
      split
      · rfl
      · rename_i ha
        rw [cString_cons, if_neg ha, List.length_cons] at h
        rw [ih (by omega)]

end CString

/-! ## The command buffer -/

/-- The array `char comando[256]`. -/
structure Buffer where
  bytes : List UInt8
  length_eq : bytes.length = 256

namespace Buffer

/-- The string at the start of the array. -/
def cadena (b : Buffer) : Cadena := cString b.bytes

/-- The assignment `comando[i] = v`. -/
def set (b : Buffer) (i : ℕ) (v : UInt8) : Buffer :=
  ⟨b.bytes.set i v, (List.length_set ..).trans b.length_eq⟩

/-- The string at an offset. -/
def cadenaEn (b : Buffer) (off : ℕ) : Cadena := cString (b.bytes.drop off)

/-- Writing behind a string does not change it. -/
lemma cadenaEn_set {b : Buffer} {off j : ℕ} (h : off + (b.cadenaEn off).length < j) (v : UInt8) :
    (b.set j v).cadenaEn off = b.cadenaEn off := by
  unfold cadenaEn set at *
  rw [List.drop_set, if_neg (by omega)]
  exact cString_set (by omega) v

end Buffer

/-! ## Reading a line -/

/-- At most `n` bytes, up to and including the first newline. -/
def linea : ℕ → List UInt8 → List UInt8
  | 0, _ => []
  | _ + 1, [] => []
  | n + 1, c :: s => if c = salto then [c] else c :: linea n s

lemma length_linea_le (n : ℕ) (s : List UInt8) : (linea n s).length ≤ n := by
  induction n generalizing s with
  | zero => exact le_rfl
  | succ n ih =>
    cases s with
    | nil => exact Nat.zero_le _
    | cons c s =>
      rw [linea]
      split
      · simp
      · exact Nat.succ_le_succ (ih s)

/-- `fgets(comando, sizeof(comando), stdin)`.  At the end of the input it returns `NULL` and leaves
the array as it was. -/
def fgets (b : Buffer) (stdin : List UInt8) : Buffer × List UInt8 :=
  if stdin = [] then (b, stdin)
  else
    (⟨linea 255 stdin ++ 0 :: b.bytes.drop ((linea 255 stdin).length + 1), by
      have := length_linea_le 255 stdin
      have := b.length_eq
      simp only [List.length_append, List.length_cons, List.length_drop]
      omega⟩, stdin.drop (linea 255 stdin).length)

/-- `strcspn`: the length of the part of the string at an offset in front of the byte `c`. -/
def strcspn (b : Buffer) (off : ℕ) (c : UInt8) : ℕ :=
  ((b.bytes.drop off).takeWhile fun a => a ≠ c ∧ a ≠ 0).length

/-- The beginning of the command loop: a line is read and its newline is cut off. -/
def leerComando (b : Buffer) (stdin : List UInt8) : Buffer × List UInt8 :=
  ((fgets b stdin).1.set (strcspn (fgets b stdin).1 0 salto) 0, (fgets b stdin).2)

/-- The string read: the bytes in front of the newline and of the first `NUL`. -/
theorem cadena_leerComando (b : Buffer) {stdin : List UInt8} (h : stdin ≠ []) :
    (leerComando b stdin).1.cadena = (linea 255 stdin).takeWhile fun a => a ≠ salto ∧ a ≠ 0 := by
  have hp : decide ((0 : UInt8) ≠ salto ∧ (0 : UInt8) ≠ 0) = false := rfl
  simp only [leerComando, fgets, if_neg h, strcspn, Buffer.set, Buffer.cadena, List.drop_zero]
  rw [cString_set_takeWhile hp]
  -- the terminator behind the bytes read ends the test
  rw [List.takeWhile_append]
  split
  · rename_i hall
    rw [List.takeWhile_cons_of_neg (by simp), List.append_nil]
    exact (List.IsPrefix.eq_of_length ( List.takeWhile_prefix _) hall).symm
  · rfl

/-- At the end of the input the string in the array is delivered again. -/
theorem cadena_leerComando_nil (b : Buffer) :
    (leerComando b []).1.cadena = b.cadena.takeWhile (· ≠ salto) := by
  have hp : decide ((0 : UInt8) ≠ salto ∧ (0 : UInt8) ≠ 0) = false := rfl
  simp only [leerComando, fgets, if_pos, strcspn, Buffer.set, Buffer.cadena, List.drop_zero]
  rw [cString_set_takeWhile hp, cString, List.takeWhile_takeWhile]
  simp

/-- Every call that leaves input has taken some. -/
lemma length_resto_leerComando_lt {b : Buffer} {stdin : List UInt8}
    (h : (leerComando b stdin).2 ≠ []) : (leerComando b stdin).2.length < stdin.length := by
  cases stdin with
  | nil => exact absurd rfl h
  | cons c s =>
    have hpos : 0 < (linea 255 (c :: s)).length := by
      rw [linea]
      split <;> simp
    simp only [leerComando, fgets, if_neg (List.cons_ne_nil c s), List.length_drop]
    exact Nat.sub_lt (Nat.succ_pos _) hpos

/-- While there is input the old content of the array does not matter. -/
lemma leerComando_congr (b b' : Buffer) {stdin : List UInt8} (h : stdin ≠ []) :
    (leerComando b stdin).1.cadena = (leerComando b' stdin).1.cadena ∧
      (leerComando b stdin).2 = (leerComando b' stdin).2 := by
  refine ⟨by rw [cadena_leerComando _ h, cadena_leerComando _ h], ?_⟩
  simp only [leerComando, fgets, if_neg h]

section Lines

variable {l : List UInt8} (hl : salto ∉ l)
include hl

/-- The part of the input that `fgets` reads from a line. -/
lemma linea_append_salto (n : ℕ) (rest : List UInt8) :
    linea n (l ++ salto :: rest) = (l ++ [salto]).take n := by
  induction l generalizing n with
  | nil => cases n <;> simp [linea]
  | cons a l ih =>
    rw [List.mem_cons, not_or] at hl
    cases n with
    | zero => rfl
    | succ n =>
      rw [List.cons_append, linea, if_neg (Ne.symm hl.1), ih hl.2]
      rfl

/-- The part of the input that `fgets` reads from a last line without a newline. -/
lemma linea_eq_take (n : ℕ) : linea n l = l.take n := by
  induction l generalizing n with
  | nil => cases n <;> rfl
  | cons a l ih =>
    rw [List.mem_cons, not_or] at hl
    cases n with
    | zero => rfl
    | succ n => rw [linea, if_neg (Ne.symm hl.1), ih hl.2, List.take_succ_cons]

/-- Without a newline only a `NUL` ends the command. -/
lemma takeWhile_eq_cString : (l.takeWhile fun a => a ≠ salto ∧ a ≠ 0) = cString l := by
  induction l with
  | nil => rfl
  | cons a l ih =>
    rw [List.mem_cons, not_or] at hl
    by_cases ha : a = 0
    · simp [ha, cString_cons]
    · simp [ha, Ne.symm hl.1, cString_cons, ← ih hl.2]

/-- The newline of the line is not part of the command. -/
lemma takeWhile_take_salto (n : ℕ) :
    (((l ++ [salto]).take n).takeWhile fun a => a ≠ salto ∧ a ≠ 0) = cString (l.take n) := by
  induction l generalizing n with
  | nil => cases n <;> simp [cString]
  | cons a l ih =>
    rw [List.mem_cons, not_or] at hl
    cases n with
    | zero => rfl
    | succ n =>
      rw [List.cons_append, List.take_succ_cons, List.take_succ_cons, cString_cons, ← ih hl.2]
      by_cases ha : a = 0
      · simp [ha]
      · simp [ha, Ne.symm hl.1]

/-- The command read from a line: its first 255 bytes, up to the first `NUL`. -/
theorem cadena_leerComando_line (b : Buffer) (rest : List UInt8) :
    (leerComando b (l ++ salto :: rest)).1.cadena = cString (l.take 255) := by
  rw [cadena_leerComando _ (by simp), linea_append_salto hl, takeWhile_take_salto hl]

/-- The input that is left: a line of fewer than 255 bytes is read with its newline. -/
theorem resto_leerComando_line (b : Buffer) (rest : List UInt8) :
    (leerComando b (l ++ salto :: rest)).2 =
      (l ++ salto :: rest).drop (min 255 (l.length + 1)) := by
  simp [leerComando, fgets, linea_append_salto hl]

end Lines

/-! ## Splitting the command -/

/-- `strspn`: the number of bytes `c` at the start of the string at an offset. -/
def strspn (b : Buffer) (off : ℕ) (c : UInt8) : ℕ :=
  ((b.bytes.drop off).takeWhile (· = c)).length

/-- `strtok(NULL, " ")` with the saved pointer `pos`: the offset of the next token, if there is one,
the array and the new saved pointer.  The byte behind the token is overwritten unless the string
ends there. -/
def strtok (b : Buffer) (pos : ℕ) : Option ℕ × Buffer × ℕ :=
  let inicio := pos + strspn b pos espacio
  if b.bytes.getD inicio 0 = 0 then (none, b, inicio)
  else
    let fin := inicio + strcspn b inicio espacio
    if b.bytes.getD fin 0 = 0 then (some inicio, b, fin)
    else (some inicio, b.set fin 0, fin + 1)

/-- The loop that fills `argumentos`: the offsets of at most `n` further tokens.  `strtok` has been
called once more than tokens are stored. -/
def separar : ℕ → Option ℕ × Buffer × ℕ → List ℕ × Buffer
  | 0, (_, b, _) => ([], b)
  | _ + 1, (none, b, _) => ([], b)
  | n + 1, (some off, b, pos) =>
    let resto := separar n (strtok b pos)
    (off :: resto.1, resto.2)

/-- The strings in `char *argumentos[10]`, read from the array after the splitting. -/
def argumentos (b : Buffer) : List Cadena :=
  let partes := separar 10 (strtok b 0)
  partes.1.map partes.2.cadenaEn

/-- The first byte of a tail of the array. -/
lemma getD_eq_headD_drop (l : List UInt8) (i : ℕ) : l.getD i 0 = (l.drop i).headD 0 := by
  simp [List.getD_eq_getElem?_getD, List.head?_drop, List.headD_eq_head?_getD]

/-- Dropping the bytes counted by a test. -/
lemma drop_add_length_takeWhile (l : List UInt8) (i : ℕ) (p : UInt8 → Bool) :
    l.drop (i + ((l.drop i).takeWhile p).length) = (l.drop i).dropWhile p := by
  rw [← List.drop_drop]
  generalize l.drop i = m
  induction m with
  | nil => rfl
  | cons a m ih =>
    cases ha : p a with
    | false => simp [ha]
    | true => simpa [ha] using ih

/-- A test that `NUL` fails is failed where the counting stops. -/
lemma headD_dropWhile {p : UInt8 → Bool} (hp : p 0 = false) (l : List UInt8) :
    p ((l.dropWhile p).headD 0) = false := by
  induction l with
  | nil => exact hp
  | cons a l ih =>
    cases ha : p a with
    | false => simp [ha]
    | true => simpa [ha] using ih

/-- The bytes skipped are separators. -/
lemma eq_of_mem_takeWhile {l : List UInt8} : ∀ a ∈ l.takeWhile (· = espacio), a = espacio := by
  intro a ha
  simpa using List.mem_takeWhile_imp ha

/-- The bytes of a word are not. -/
lemma espacio_not_mem_takeWhile {l : List UInt8} : espacio ∉ l.takeWhile (· ≠ espacio) := by
  intro h
  simpa using List.mem_takeWhile_imp h

/-- What `strtok` sees at an offset: separators, a token and the rest. -/
structure Token (b : Buffer) (pos : ℕ) (e w s : List UInt8) : Prop where
  drop_eq : b.bytes.drop pos = e ++ (w ++ s)
  eq_espacio : ∀ a ∈ e, a = espacio
  espacio_not_mem : espacio ∉ w
  zero_not_mem : 0 ∉ w

namespace Token

variable {b : Buffer} {pos : ℕ} {e w s t : List UInt8}

lemma drop_inicio (h : Token b pos e w s) : b.bytes.drop (pos + e.length) = w ++ s := by
  rw [← List.drop_drop, h.drop_eq, List.drop_left]

lemma drop_fin (h : Token b pos e w s) : b.bytes.drop (pos + e.length + w.length) = s := by
  rw [← List.drop_drop, h.drop_inicio, List.drop_left]

/-- The string at the offset goes through the separators and the token. -/
lemma cadenaEn_eq (h : Token b pos e w s) : b.cadenaEn pos = e ++ (w ++ cString s) := by
  have hzero : 0 ∉ e := fun h0 => absurd (h.eq_espacio 0 h0) (by decide)
  rw [Buffer.cadenaEn, h.drop_eq, cString_append hzero, cString_append h.zero_not_mem]

/-- The separators in front are no part of a word. -/
lemma words_eq (h : Token b pos e w s) :
    words espacio (b.cadenaEn pos) = words espacio (w ++ cString s) := by
  rw [h.cadenaEn_eq, words_append_of_forall_eq h.eq_espacio]

/-- The token as the string at its offset. -/
lemma cadenaEn_inicio (h : Token b pos e w s) :
    b.cadenaEn (pos + e.length) = w ++ cString s := by
  rw [Buffer.cadenaEn, h.drop_inicio, cString_append h.zero_not_mem]

/-- The array after the token has been cut off. -/
lemma cortar (h : Token b pos e w (espacio :: t)) :
    Token (b.set (pos + e.length + w.length) 0) pos e w (0 :: t) := by
  refine ⟨?_, h.eq_espacio, h.espacio_not_mem, h.zero_not_mem⟩
  have hlength : pos + e.length + w.length - pos - e.length - w.length = 0 := by omega
  rw [Buffer.set, List.drop_set, if_neg (by omega), h.drop_eq,
    List.set_append_right _ _ (by omega), List.set_append_right _ _ (by omega), hlength,
    List.set_cons_zero]

end Token

/-- The token that `strspn` and `strcspn` find: it does not begin with a separator, and a separator
or a `NUL` follows. -/
lemma exists_token (b : Buffer) (pos : ℕ) :
    ∃ e w s, Token b pos e w s ∧ strspn b pos espacio = e.length ∧
      strcspn b (pos + e.length) espacio = w.length ∧ (w ++ s).headD 0 ≠ espacio ∧
      (s.headD 0 = espacio ∨ s.headD 0 = 0) := by
  have hinicio := drop_add_length_takeWhile b.bytes pos (· = espacio)
  have hsplit := List.takeWhile_append_dropWhile (p := (· = espacio)) (l := b.bytes.drop pos)
  have hhead := headD_dropWhile (p := (· = espacio)) rfl (b.bytes.drop pos)
  have hesp : ∀ a ∈ (b.bytes.drop pos).takeWhile (· = espacio), a = espacio := eq_of_mem_takeWhile
  generalize (b.bytes.drop pos).dropWhile (· = espacio) = r at hinicio hsplit hhead
  have hword := List.takeWhile_append_dropWhile (p := fun a => a ≠ espacio ∧ a ≠ 0) (l := r)
  refine ⟨_, r.takeWhile fun a => a ≠ espacio ∧ a ≠ 0, r.dropWhile fun a => a ≠ espacio ∧ a ≠ 0,
    ⟨?_, hesp, ?_, ?_⟩, rfl, ?_, ?_, ?_⟩
  · rw [hword, hsplit]
  · intro h
    simpa using List.mem_takeWhile_imp h
  · intro h
    simpa using List.mem_takeWhile_imp h
  · rw [strcspn, hinicio]
  · rw [hword]
    simpa using hhead
  · have hstop := headD_dropWhile (p := fun a => a ≠ espacio ∧ a ≠ 0) rfl r
    rw [decide_eq_false_iff_not] at hstop
    tauto

/-- What `strtok` does: the array is as before if the string ends with the token, otherwise the
token is cut off. -/
theorem strtok_spec (b : Buffer) (pos : ℕ) :
    ∃ e w s, Token b pos e w s ∧
      (w = [] ∧ s.headD 0 = 0 ∧ (∃ pos', strtok b pos = (none, b, pos')) ∨
        w ≠ [] ∧ s.headD 0 = 0 ∧
          strtok b pos = (some (pos + e.length), b, pos + e.length + w.length) ∨
        w ≠ [] ∧ ∃ t, s = espacio :: t ∧ strtok b pos = (some (pos + e.length),
          b.set (pos + e.length + w.length) 0, pos + e.length + w.length + 1)) := by
  obtain ⟨e, w, s, htoken, hspn, hcspn, hhead, hstop⟩ := exists_token b pos
  refine ⟨e, w, s, htoken, ?_⟩
  unfold strtok
  simp only [hspn, hcspn, getD_eq_headD_drop, htoken.drop_inicio, htoken.drop_fin]
  cases w with
  | nil =>
    have hnul : s.headD 0 = 0 := hstop.resolve_left hhead
    exact .inl ⟨rfl, hnul, _, if_pos hnul⟩
  | cons a w =>
    have ha : a ≠ 0 := fun h => htoken.zero_not_mem (h ▸ List.mem_cons_self)
    rw [List.cons_append, List.headD_cons, if_neg ha]
    by_cases hend : s.headD 0 = 0
    · rw [if_pos hend]
      exact .inr (.inl ⟨List.cons_ne_nil _ _, hend, rfl⟩)
    · rw [if_neg hend]
      refine .inr (.inr ⟨List.cons_ne_nil _ _, s.tail, ?_, rfl⟩)
      cases s with
      | nil => exact absurd rfl hend
      | cons c t => rw [← hstop.resolve_right hend, List.headD_cons, List.tail_cons]

/-- What `strtok` does, on the words of the string at the saved pointer.  Strings that end at the
saved pointer or in front of it are not changed. -/
theorem strtok_cases (b : Buffer) (pos : ℕ) :
    (words espacio (b.cadenaEn pos) = [] ∧ ∃ pos', strtok b pos = (none, b, pos')) ∨
    ∃ off b' pos', strtok b pos = (some off, b', pos') ∧ pos ≤ pos' ∧
      words espacio (b.cadenaEn pos) = b'.cadenaEn off :: words espacio (b'.cadenaEn pos') ∧
      off + (b'.cadenaEn off).length ≤ pos' ∧
      ∀ ant, ant + (b.cadenaEn ant).length ≤ pos → b'.cadenaEn ant = b.cadenaEn ant := by
  obtain ⟨e, w, s, htoken, ⟨rfl, hend, hstr⟩ | ⟨hne, hend, hstr⟩ | ⟨hne, t, rfl, hstr⟩⟩ :=
    strtok_spec b pos
  · left
    rw [htoken.words_eq, cString_eq_nil hend]
    exact ⟨words_nil, hstr⟩
  · right
    have hcadena := htoken.cadenaEn_inicio
    rw [cString_eq_nil hend, List.append_nil] at hcadena
    refine ⟨_, _, _, hstr, by omega, ?_, by rw [hcadena], fun _ _ => rfl⟩
    rw [htoken.words_eq, hcadena, Buffer.cadenaEn, htoken.drop_fin, cString_eq_nil hend,
      List.append_nil, words_nil, words_of_not_mem htoken.espacio_not_mem hne]
  · right
    have hcadena : (b.set (pos + e.length + w.length) 0).cadenaEn (pos + e.length) = w :=
      htoken.cortar.cadenaEn_inicio.trans (List.append_nil w)
    have hresto : (b.set (pos + e.length + w.length) 0).cadenaEn (pos + e.length + w.length + 1) =
        cString t := by
      rw [Buffer.cadenaEn, ← List.drop_drop, htoken.cortar.drop_fin, List.drop_one, List.tail_cons]
    refine ⟨_, _, _, hstr, by omega, ?_, by rw [hcadena]; omega, fun ant hant => ?_⟩
    · rw [htoken.words_eq, hcadena, hresto, cString_cons, if_neg (by decide),
        words_append_cons htoken.espacio_not_mem hne]
    · refine Buffer.cadenaEn_set ?_ 0
      have := List.length_pos_of_ne_nil hne
      omega

/-- The loop stores the first words, and strings in front of the saved pointer are kept. -/
lemma separar_spec (n : ℕ) (b : Buffer) (pos : ℕ) :
    (separar n (strtok b pos)).1.map (separar n (strtok b pos)).2.cadenaEn =
        (words espacio (b.cadenaEn pos)).take n ∧
      ∀ ant, ant + (b.cadenaEn ant).length ≤ pos →
        (separar n (strtok b pos)).2.cadenaEn ant = b.cadenaEn ant := by
  induction n generalizing b pos with
  | zero =>
    refine ⟨rfl, fun ant hant => ?_⟩
    obtain ⟨-, pos', hstr⟩ | ⟨off, b', pos', hstr, -, -, -, hframe⟩ := strtok_cases b pos
    · rw [hstr, separar]
    · rw [hstr, separar]
      exact hframe ant hant
  | succ n ih =>
    obtain ⟨hwords, pos', hstr⟩ | ⟨off, b', pos', hstr, hle, hwords, hoff, hframe⟩ :=
      strtok_cases b pos
    · rw [hstr, separar, hwords]
      exact ⟨rfl, fun _ _ => rfl⟩
    · obtain ⟨htokens, hkeep⟩ := ih b' pos'
      rw [hstr, separar, hwords]
      refine ⟨?_, fun ant hant => ?_⟩
      · rw [List.map_cons, htokens, hkeep off hoff, List.take_succ_cons]
      · rw [hkeep ant (by rw [hframe ant hant]; omega), hframe ant hant]

/-- The tokens are the first ten words of the command. -/
theorem argumentos_eq_take_words (b : Buffer) :
    argumentos b = (words espacio b.cadena).take 10 :=
  (separar_spec 10 b 0).1

/-! ## What the splitting leaves in the array -/

/-- A string up to the end of its first word. -/
def cortada (c : Cadena) : Cadena :=
  c.takeWhile (· = espacio) ++ (c.dropWhile (· = espacio)).takeWhile (· ≠ espacio)

section Cortada

variable {c e w t : Cadena}

/-- Separators, a word, and nothing or a separator behind it. -/
lemma cortada_append (he : ∀ a ∈ e, a = espacio) (hw : espacio ∉ w)
    (ht : t = [] ∨ w ≠ [] ∧ ∃ t', t = espacio :: t') : cortada (e ++ (w ++ t)) = e ++ w := by
  have he' : ∀ a ∈ e, decide (a = espacio) = true := by simpa using he
  have hw' : ∀ a ∈ w, decide (a ≠ espacio) = true := by
    intro a ha
    rw [decide_eq_true_iff]
    rintro rfl
    exact hw ha
  have hword : (w ++ t).takeWhile (· = espacio) = [] ∧
      (w ++ t).dropWhile (· = espacio) = w ++ t := by
    cases w with
    | nil => simp [ht.resolve_right (by simp)]
    | cons a w =>
      have ha : a ≠ espacio := by simpa using hw' a List.mem_cons_self
      exact ⟨List.takeWhile_cons_of_neg (by simpa), List.dropWhile_cons_of_neg (by simpa)⟩
  have hrest : t.takeWhile (· ≠ espacio) = [] := by
    obtain rfl | ⟨-, t', rfl⟩ := ht
    · rfl
    · exact List.takeWhile_cons_of_neg (by simp)
  rw [cortada, List.takeWhile_append_of_pos he', List.dropWhile_append_of_pos he', hword.1, hword.2,
    List.takeWhile_append_of_pos hw', hrest, List.append_nil, List.append_nil]

/-- Cutting twice is cutting once. -/
lemma cortada_cortada (c : Cadena) : cortada (cortada c) = cortada c := by
  conv_lhs => rw [cortada.eq_1 c, ← List.append_nil (List.takeWhile _ (List.dropWhile _ _))]
  exact cortada_append eq_of_mem_takeWhile espacio_not_mem_takeWhile (.inl rfl)

/-- At most one word is left. -/
lemma words_cortada (c : Cadena) :
    words espacio (cortada c) = [] ∨ ∃ w, words espacio (cortada c) = [w] := by
  rw [cortada, words_append_of_forall_eq eq_of_mem_takeWhile]
  by_cases hnil : (c.dropWhile (· = espacio)).takeWhile (· ≠ espacio) = []
  · exact .inl (by rw [hnil, words_nil])
  · exact .inr ⟨_, words_of_not_mem espacio_not_mem_takeWhile hnil⟩

/-- The bytes of the string that is left are bytes of the string. -/
lemma mem_of_mem_cortada {a : UInt8} (h : a ∈ cortada c) : a ∈ c := by
  obtain h | h := List.mem_append.mp h
  · exact List.IsPrefix.mem h ( List.takeWhile_prefix _)
  · exact (List.dropWhile_sublist _).mem (List.IsPrefix.mem h ( List.takeWhile_prefix _))

/-- A word without separators is left of itself, and of the strings in which a separator follows. -/
lemma cortada_eq_iff (hne : w ≠ []) (hw : espacio ∉ w) :
    cortada c = w ↔ c = w ∨ ∃ r, c = w ++ espacio :: r := by
  constructor
  · intro h
    have hsplit : c = cortada c ++ (c.dropWhile (· = espacio)).dropWhile (· ≠ espacio) := by
      rw [cortada, List.append_assoc, List.takeWhile_append_dropWhile,
        List.takeWhile_append_dropWhile]
    rw [h] at hsplit
    cases hr : (c.dropWhile (· = espacio)).dropWhile (· ≠ espacio) with
    | nil => exact .inl (by rw [hsplit, hr, List.append_nil])
    | cons a r =>
      have ha := List.head?_dropWhile_not (· ≠ espacio) (c.dropWhile (· = espacio))
      rw [hr] at ha
      obtain rfl : a = espacio := by simpa using ha
      exact .inr ⟨r, by rw [← hr, ← hsplit]⟩
  · rintro (rfl | ⟨r, rfl⟩)
    · simpa using cortada_append (e := []) (t := []) (by simp) hw (.inl rfl)
    · exact cortada_append (e := []) (by simp) hw (.inr ⟨hne, r, rfl⟩)

/-- The string in the array after the splitting. -/
theorem cadena_separar (n : ℕ) (b : Buffer) :
    (separar (n + 1) (strtok b 0)).2.cadena = cortada b.cadena := by
  change (separar (n + 1) (strtok b 0)).2.cadenaEn 0 = cortada (b.cadenaEn 0)
  -- the further tokens lie behind the first one
  have hkeep : ∀ b' pos', (b'.cadenaEn 0).length ≤ pos' →
      (separar n (strtok b' pos')).2.cadenaEn 0 = b'.cadenaEn 0 := by
    intro b' pos' h
    exact (separar_spec n b' pos').2 0 (by omega)
  obtain ⟨e, w, s, htoken, ⟨rfl, hend, pos', hstr⟩ | ⟨hne, hend, hstr⟩ | ⟨hne, t, rfl, hstr⟩⟩ :=
    strtok_spec b 0
  · rw [hstr, separar, htoken.cadenaEn_eq, cString_eq_nil hend]
    exact (cortada_append htoken.eq_espacio htoken.espacio_not_mem (.inl rfl)).symm
  · have hcadena := htoken.cadenaEn_eq
    rw [cString_eq_nil hend] at hcadena
    rw [hstr, separar, hkeep _ _ (by rw [hcadena]; simp), hcadena,
      cortada_append htoken.eq_espacio htoken.espacio_not_mem (.inl rfl), List.append_nil]
  · have hcadena := htoken.cortar.cadenaEn_eq
    rw [cString_eq_nil rfl, List.append_nil] at hcadena
    rw [hstr, separar, hkeep _ _ (by rw [hcadena, List.length_append]; omega), hcadena,
      htoken.cadenaEn_eq, cString_cons, if_neg (by decide),
      cortada_append htoken.eq_espacio htoken.espacio_not_mem (.inr ⟨hne, _, rfl⟩)]

end Cortada

/-! ## Numbers -/

/-- `isspace`. -/
def isspace (c : UInt8) : Bool := c = espacio || 9 ≤ c && c ≤ 13

/-- `isdigit`. -/
def isdigit (c : UInt8) : Bool := 48 ≤ c && c ≤ 57

/-- The value of the digits at the start of a string. -/
def digitos (s : Cadena) : ℤ :=
  (s.takeWhile isdigit).foldl (fun n c => 10 * n + (c.toNat - 48 : ℤ)) 0

/-- `atoi` of the C library: white space, a sign and digits, read as a `long` that saturates and is
then converted to `int`. -/
def atoiDecimal (s : Cadena) : Int32 :=
  let valor : ℤ :=
    match s.dropWhile isspace with
    | 45 :: t => -digitos t
    | 43 :: t => digitos t
    | t => digitos t
  Int32.ofInt (max (-2 ^ 63) (min valor (2 ^ 63 - 1)))

end XorSyscalls
