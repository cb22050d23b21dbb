import Mathlib.Order.Lattice.Nat
import Mathlib.Tactic.Common

/-!
# Sequential programs over an interface of operations

A `Program Op Res α` issues operations from `Op`, receives for each operation `op` an answer of
type `Res op`, and finally returns a value of type `α`.  Programs form a monad, so straight-line
code with early returns is written in `do` notation, while its operations stay visible one by
one: a scheduler can perform a single operation of a program and put the rest aside.

A *handler* gives the operations a meaning on states.  `Program.eval` runs a whole program under a
handler, and `eval_bind` evaluates a sequential composition part by part.

Where other programs run in between, the state at each operation is unknown and only the answers
can be relied on.  `Program.Meets` is a specification of this kind: every operation issued has a
given property, and so has the value returned, as long as the answers are as expected.
`Program.Meets.bind` composes such specifications.  `Program.Relies` is the stronger one for
programs that own a part of the state: the others change the state within a relation `R`, and the
value returned meets its postcondition together with the state.

`Program.Within` bounds the number of operations of a program, again for all answers, and
`Program.cost` is the least bound, which every operation performed makes smaller.  `Program.erase`
leaves out operations whose answers carry no information, for example those that only write a log.
-/

/-- Programs over the operations `Op` with answers `Res`, returning a value of type `α`. -/
inductive Program (Op : Type) (Res : Op → Type) (α : Type) : Type
  /-- The program is over and returns `a`. -/
  | ret (a : α)
  /-- The program issues `op` and continues with its answer. -/
  | call (op : Op) (next : Res op → Program Op Res α)

/-- A handler: the answer to an operation and the state after it. -/
abbrev Handler (Op : Type) (Res : Op → Type) (σ : Type) := (op : Op) → σ → Res op × σ

namespace Program

variable {Op : Type} {Res : Op → Type} {σ α β : Type}

/-- Sequential composition. -/
def bind : Program Op Res α → (α → Program Op Res β) → Program Op Res β
  | ret a, f => f a
  | call op next, f => call op fun r => (next r).bind f

instance : Monad (Program Op Res) where
  pure := ret
  bind := bind

/-- The program that issues one operation and returns its answer. -/
def perform (op : Op) : Program Op Res (Res op) := call op ret

/-- The value returned by a program and the state it leaves when it runs alone. -/
def eval (h : Handler Op Res σ) : Program Op Res α → σ → α × σ
  | ret a, s => (a, s)
  | call op next, s => eval h (next (h op s).1) (h op s).2

variable {h : Handler Op Res σ}

@[simp] lemma eval_ret (a : α) (s : σ) : eval h (ret a) s = (a, s) := rfl

@[simp] lemma eval_pure (a : α) (s : σ) :
    eval h (pure a : Program Op Res α) s = (a, s) := rfl

/-- Sequential composition is evaluated part by part. -/
@[simp] lemma eval_bind (p : Program Op Res α) (f : α → Program Op Res β) (s : σ) :
    eval h (p >>= f) s = eval h (f (eval h p s).1) (eval h p s).2 := by
  change eval h (p.bind f) s = _
  induction p generalizing s with
  | ret a => rfl
  | call op next ih => exact ih (h op s).1 (h op s).2

/-! ## Specifications that rely on the answers only -/

/-- As long as all answers meet `post`, every operation issued meets `pre` and the value returned
meets `Q`. -/
def Meets (pre : Op → Prop) (post : (op : Op) → Res op → Prop) (Q : α → Prop) :
    Program Op Res α → Prop
  | ret a => Q a
  | call op next => pre op ∧ ∀ r, post op r → (next r).Meets pre post Q

section Meets

variable {pre : Op → Prop} {post : (op : Op) → Res op → Prop} {Q : α → Prop} {R : β → Prop}

@[simp] lemma meets_pure (a : α) : (pure a : Program Op Res α).Meets pre post Q ↔ Q a := Iff.rfl

@[simp] lemma meets_perform {op : Op} {Q : Res op → Prop} :
    (perform op : Program Op Res (Res op)).Meets pre post Q ↔
      pre op ∧ ∀ r, post op r → Q r := Iff.rfl

/-- Specifications of the parts give one of the sequential composition. -/
lemma Meets.bind {p : Program Op Res α} {f : α → Program Op Res β} (hp : p.Meets pre post Q)
    (hf : ∀ a, Q a → (f a).Meets pre post R) : (p >>= f).Meets pre post R := by
  change (p.bind f).Meets pre post R
  induction p with
  | ret a => exact hf a hp
  | call op next ih => exact ⟨hp.1, fun r hr => ih r (hp.2 r hr)⟩

/-- A program that runs alone under a handler with such answers returns such a value. -/
lemma Meets.eval {p : Program Op Res α} (hp : p.Meets pre post Q)
    (hpost : ∀ op s, post op (h op s).1) (s : σ) : Q (p.eval h s).1 := by
  induction p generalizing s with
  | ret a => exact hp
  | call op next ih => exact ih _ (hp.2 _ (hpost op s)) _

/-- A sequential composition that starts with one operation. -/
lemma meets_perform_bind {op : Op} {f : Res op → Program Op Res β} :
    (perform op >>= f).Meets pre post R ↔ pre op ∧ ∀ r, post op r → (f r).Meets pre post R :=
  Iff.rfl

end Meets

/-! ## Specifications that rely on what others do -/

/-- Whatever others do to the state in front of each operation and at the end, as long as it is
within `R`, the value returned and the state meet `Q`. -/
def Relies (h : Handler Op Res σ) (R : σ → σ → Prop) (Q : α → σ → Prop) :
    Program Op Res α → σ → Prop
  | ret a, s => ∀ s', R s s' → Q a s'
  | call op next, s => ∀ s', R s s' → (next (h op s').1).Relies h R Q (h op s').2

section Relies

variable {R : σ → σ → Prop} {Q : α → σ → Prop} {Q' : β → σ → Prop} {s s' : σ}

/-- Others may change the state. -/
lemma Relies.of_rel [IsTrans σ R] {p : Program Op Res α} (hp : p.Relies h R Q s) (hs : R s s') :
    p.Relies h R Q s' := by
  cases p with
  | ret a => exact fun t ht => hp t (trans_of R hs ht)
  | call op next => exact fun t ht => hp t (trans_of R hs ht)

/-- The program performs its next operation. -/
lemma Relies.perform [Std.Refl R] {op : Op} {next : Res op → Program Op Res α}
    (hp : (call op next).Relies h R Q s) : (next (h op s).1).Relies h R Q (h op s).2 :=
  hp s (refl_of R s)

/-- Specifications of the parts give one of the sequential composition. -/
lemma Relies.bind [Std.Refl R] {p : Program Op Res α} {f : α → Program Op Res β}
    (hp : p.Relies h R Q s) (hf : ∀ a t, Q a t → (f a).Relies h R Q' t) :
    (p >>= f).Relies h R Q' s := by
  change (p.bind f).Relies h R Q' s
  induction p generalizing s with
  | ret a => exact hf a s (hp s (refl_of R s))
  | call op next ih => exact fun t ht => ih _ (hp t ht)

/-- A sequential composition that starts with one operation. -/
lemma relies_perform_bind {op : Op} {f : Res op → Program Op Res β} :
    (perform op >>= f).Relies h R Q' s ↔ ∀ t, R s t → (f (h op t).1).Relies h R Q' (h op t).2 :=
  Iff.rfl

/-- A weaker postcondition. -/
lemma Relies.mono {Q₁ : α → σ → Prop} {p : Program Op Res α} (hp : p.Relies h R Q s)
    (hQ : ∀ a t, Q a t → Q₁ a t) : p.Relies h R Q₁ s := by
  induction p generalizing s with
  | ret a => exact fun t ht => hQ a t (hp t ht)
  | call op next ih => exact fun t ht => ih _ (hp t ht)

/-- Two specifications at once. -/
lemma Relies.and {Q₁ : α → σ → Prop} {p : Program Op Res α} (hp : p.Relies h R Q s)
    (hp₁ : p.Relies h R Q₁ s) : p.Relies h R (fun a t => Q a t ∧ Q₁ a t) s := by
  induction p generalizing s with
  | ret a => exact fun t ht => ⟨hp t ht, hp₁ t ht⟩
  | call op next ih => exact fun t ht => ih _ (hp t ht) (hp₁ t ht)

/-- What the operations of a program keep, and the others too, holds when it returns. -/
lemma Meets.relies {pre : Op → Prop} {post : (op : Op) → Res op → Prop} {P : α → Prop}
    {I : σ → Prop} {p : Program Op Res α} (hp : p.Meets pre post P)
    (hpost : ∀ op s, post op (h op s).1) (hstep : ∀ op s, pre op → I s → I (h op s).2)
    (hrel : ∀ s t, R s t → I s → I t) (hs : I s) : p.Relies h R (fun a t => P a ∧ I t) s := by
  induction p generalizing s with
  | ret a => exact fun t ht => ⟨hp, hrel s t ht hs⟩
  | call op next ih =>
    exact fun t ht => ih _ (hp.2 _ (hpost op t)) (hstep op t hp.1 (hrel s t ht hs))

end Relies

/-! ## The number of operations -/

/-- The program issues at most `n` operations, whatever the answers. -/
def Within : Program Op Res α → ℕ → Prop
  | ret _, _ => True
  | call _ _, 0 => False
  | call _ next, n + 1 => ∀ r, (next r).Within n

/-- The least such bound. -/
noncomputable def cost (p : Program Op Res α) : ℕ := sInf {n | p.Within n}

section Within

variable {p : Program Op Res α} {f : α → Program Op Res β} {m n : ℕ}

lemma within_pure (a : α) (n : ℕ) : (pure a : Program Op Res α).Within n := trivial

lemma within_perform (op : Op) (n : ℕ) :
    (perform op : Program Op Res (Res op)).Within (n + 1) := fun _ => trivial

/-- A larger number is a bound too. -/
lemma Within.mono (hp : p.Within m) (h : m ≤ n) : p.Within n := by
  induction p generalizing m n with
  | ret a => trivial
  | call op next ih =>
    cases m with
    | zero => exact hp.elim
    | succ m =>
      cases n with
      | zero => exact absurd h (Nat.not_succ_le_zero m)
      | succ n => exact fun r => ih r (hp r) (Nat.le_of_succ_le_succ h)

/-- The bounds of the parts add up. -/
lemma Within.bind (hp : p.Within m) (hf : ∀ a, (f a).Within n) : (p >>= f).Within (n + m) := by
  change (p.bind f).Within (n + m)
  induction p generalizing m with
  | ret a => exact (hf a).mono (Nat.le_add_right n m)
  | call op next ih =>
    cases m with
    | zero => exact hp.elim
    | succ m => exact fun r => ih r (hp r)

/-- A sequential composition that starts with one operation. -/
lemma within_perform_bind {op : Op} {f : Res op → Program Op Res β}
    (hf : ∀ r, (f r).Within n) : (perform op >>= f).Within (n + 1) := hf

/-- The cost is a bound, if there is one. -/
lemma Within.within_cost (hp : p.Within n) : p.Within p.cost := Nat.sInf_mem ⟨n, hp⟩

/-- The cost is the least bound. -/
lemma Within.cost_le (hp : p.Within n) : p.cost ≤ n := Nat.sInf_le hp

/-- An operation performed makes the cost smaller. -/
lemma Within.cost_lt {op : Op} {next : Res op → Program Op Res α}
    (hp : (call op next).Within n) (r : Res op) : (next r).cost < (call op next).cost := by
  have hcost := hp.within_cost
  cases h : (call op next).cost with
  | zero =>
    rw [h] at hcost
    exact hcost.elim
  | succ m =>
    rw [h] at hcost
    exact Nat.lt_succ_of_le (Within.cost_le (hcost r))

end Within

/-! ## Leaving out operations -/

/-- Leave out the operations for which `silent` knows the answer. -/
def erase (silent : (op : Op) → Option (Res op)) : Program Op Res α → Program Op Res α
  | ret a => ret a
  | call op next =>
    match silent op with
    | some r => (next r).erase silent
    | none => call op fun r => (next r).erase silent

section Erase

variable {silent : (op : Op) → Option (Res op)}

lemma erase_call_of_some {op : Op} {r : Res op} (h : silent op = some r)
    (next : Res op → Program Op Res α) :
    (call op next).erase silent = (next r).erase silent := by
  rw [erase, h]

lemma erase_call_of_none {op : Op} (h : silent op = none) (next : Res op → Program Op Res α) :
    (call op next).erase silent = call op fun r => (next r).erase silent := by
  rw [erase, h]

end Erase

end Program
