import Mathlib.Logic.Basic

/-!
# Programs that can be cut off

A program asks its surroundings for one operation at a time and goes on with what
the operation answers or raises.  What an operation does is up to a `Semantics`:
a `Chance` picks one of the things it can do to the state, and another what is left
of it when the process dies in the middle.

`wpc` says what holds after a program, on return and on exception, and what holds
wherever it is cut off.  It is computed along the program by the rules below, one for
each construct, so what survives a death at every point and a failure of every
operation becomes a case analysis in program order.

* `Program`, `Program.tryCatch`, `Program.defer`: the programs.
* `wpc_bind`, `wpc_tryCatch`, `wpc_defer`: one rule for each construct.
* `wpc_advance`: one operation of the program keeps what `wpc` says of the rest.
-/

namespace AI2Apps.Programs

/-- A program returns, raises, or asks for an operation and goes on with its answer. -/
inductive Program (Op : Type) (Answer : Op → Type) (ε α : Type) where
  | pure (a : α)
  | throw (e : ε)
  | call (op : Op) (next : Except ε (Answer op) → Program Op Answer ε α)

namespace Program

variable {Op : Type} {Answer : Op → Type} {ε α β : Type}

/-- What the program's value is, or what it raises. -/
def ofExcept : Except ε α → Program Op Answer ε α
  | .ok a => .pure a
  | .error e => .throw e

/-- One operation. -/
def perform (op : Op) : Program Op Answer ε (Answer op) := .call op ofExcept

def bind : Program Op Answer ε α → (α → Program Op Answer ε β) → Program Op Answer ε β
  | .pure a, f => f a
  | .throw e, _ => .throw e
  | .call op next, f => .call op fun r => (next r).bind f

instance : Monad (Program Op Answer ε) where
  pure := .pure
  bind := bind

/-- `do x catch h`. -/
def tryCatch : Program Op Answer ε α → (ε → Program Op Answer ε α) → Program Op Answer ε α
  | .pure a, _ => .pure a
  | .throw e, h => h e
  | .call op next, h => .call op fun r => (next r).tryCatch h

/-- `try? x`: what it raises is forgotten. -/
def attempt (x : Program Op Answer ε Unit) : Program Op Answer ε Unit :=
  x.tryCatch fun _ => .pure ()

/-- `defer cleanup` in front of `x`: it runs when `x` returns and when it raises. -/
def defer (cleanup : Program Op Answer ε Unit) : Program Op Answer ε α → Program Op Answer ε α
  | .pure a => cleanup.attempt.bind fun _ => .pure a
  | .throw e => cleanup.attempt.bind fun _ => .throw e
  | .call op next => .call op fun r => defer cleanup (next r)

/-- `guard condition else throw e`. -/
def ensure (condition : Bool) (e : ε) : Program Op Answer ε Unit :=
  if condition then .pure () else .throw e

end Program

/-! ## What an operation does -/

/-- The operations of a program on a state: what one does is a matter of chance, and so
is what is left of it when the process dies in the middle. -/
structure Semantics (Op : Type) (Answer : Op → Type) (ε σ : Type) where
  Chance : Type
  perform : (op : Op) → Chance → σ → Except ε (Answer op) × σ
  cut : Op → Chance → σ → σ

section Logic

variable {Op : Type} {Answer : Op → Type} {ε σ α β : Type} (m : Semantics Op Answer ε σ)

/-- `Q` holds when the program returns, `E` when it raises, and `C` wherever it is cut
off. -/
def wpc (Q : α → σ → Prop) (E : ε → σ → Prop) (C : σ → Prop) :
    Program Op Answer ε α → σ → Prop
  | .pure a, s => Q a s
  | .throw e, s => E e s
  | .call op next, s => (C s ∧ ∀ c, C (m.cut op c s)) ∧
      ∀ c, wpc Q E C (next (m.perform op c s).1) (m.perform op c s).2

variable {m} {Q : α → σ → Prop} {E : ε → σ → Prop} {C : σ → Prop} {s : σ}

@[simp] theorem wpc_pure (a : α) : wpc m Q E C (pure a) s ↔ Q a s := Iff.rfl

@[simp] theorem wpc_throw (e : ε) : wpc m Q E C (.throw e) s ↔ E e s := Iff.rfl

@[simp] theorem wpc_bind (x : Program Op Answer ε β) (f : β → Program Op Answer ε α) :
    wpc m Q E C (x >>= f) s ↔ wpc m (fun b => wpc m Q E C (f b)) E C x s := by
  show wpc m Q E C (x.bind f) s ↔ _
  induction x generalizing s with
  | pure b => exact Iff.rfl
  | throw e => exact Iff.rfl
  | call op next ih => exact and_congr_right fun _ => forall_congr' fun c => ih _

@[simp] theorem wpc_tryCatch (x : Program Op Answer ε α) (h : ε → Program Op Answer ε α) :
    wpc m Q E C (x.tryCatch h) s ↔ wpc m Q (fun e => wpc m Q E C (h e)) C x s := by
  induction x generalizing s with
  | pure a => exact Iff.rfl
  | throw e => exact Iff.rfl
  | call op next ih => exact and_congr_right fun _ => forall_congr' fun c => ih _

@[simp] theorem wpc_attempt {Q : Unit → σ → Prop} (x : Program Op Answer ε Unit) :
    wpc m Q E C x.attempt s ↔ wpc m Q (fun _ => Q ()) C x s := wpc_tryCatch x _

/-- The cleanup runs on return and on exception, and does not run where the process dies. -/
@[simp] theorem wpc_defer (cleanup : Program Op Answer ε Unit) (x : Program Op Answer ε α) :
    wpc m Q E C (.defer cleanup x) s ↔
      wpc m (fun a => wpc m (fun _ => Q a) (fun _ => Q a) C cleanup)
        (fun e => wpc m (fun _ => E e) (fun _ => E e) C cleanup) C x s := by
  induction x generalizing s with
  | pure a => exact (wpc_bind cleanup.attempt _).trans (wpc_attempt cleanup)
  | throw e => exact (wpc_bind cleanup.attempt _).trans (wpc_attempt cleanup)
  | call op next ih => exact and_congr_right fun _ => forall_congr' fun c => ih _

@[simp] theorem wpc_ensure {Q : Unit → σ → Prop} (condition : Bool) (e : ε) :
    wpc m Q E C (.ensure condition e) s ↔
      (condition = true → Q () s) ∧ (condition = false → E e s) := by
  cases condition <;> simp [Program.ensure, wpc]

/-- One operation: it can answer, raise, or be cut off. -/
theorem wpc_perform {op : Op} {Q : Answer op → σ → Prop}
    (hcut : C s ∧ ∀ c, C (m.cut op c s))
    (hok : ∀ c a, (m.perform op c s).1 = .ok a → Q a (m.perform op c s).2)
    (herror : ∀ c e, (m.perform op c s).1 = .error e → E e (m.perform op c s).2) :
    wpc m Q E C (.perform op) s := by
  refine ⟨hcut, fun c => ?_⟩
  cases h : (m.perform op c s).1 with
  | ok a => exact hok c a h
  | error e => exact herror c e h

/-- What follows from what holds, holds. -/
theorem wpc_mono {x : Program Op Answer ε α} {Q' : α → σ → Prop} {E' : ε → σ → Prop}
    {C' : σ → Prop} (h : wpc m Q E C x s) (hQ : ∀ a t, Q a t → Q' a t)
    (hE : ∀ e t, E e t → E' e t) (hC : ∀ t, C t → C' t) : wpc m Q' E' C' x s := by
  induction x generalizing s with
  | pure a => exact hQ a s h
  | throw e => exact hE e s h
  | call op next ih =>
    obtain ⟨⟨hs, hcut⟩, hnext⟩ := h
    exact ⟨⟨hC s hs, fun c => hC _ (hcut c)⟩, fun c => ih _ (hnext c)⟩

/-! ## One operation at a time -/

variable (m) in
/-- The program after its next operation, and the state. -/
def advance (c : m.Chance) : Program Op Answer ε α → σ → Program Op Answer ε α × σ
  | .call op next, s => (next (m.perform op c s).1, (m.perform op c s).2)
  | x, s => (x, s)

variable (m) in
/-- What is left of the state when the process dies in the middle of the next operation. -/
def cutOff (c : m.Chance) : Program Op Answer ε α → σ → σ
  | .call op _, s => m.cut op c s
  | _, s => s

theorem wpc_advance {x : Program Op Answer ε α} (c : m.Chance) (h : wpc m Q E C x s) :
    wpc m Q E C (advance m c x s).1 (advance m c x s).2 := by
  cases x with
  | pure a => exact h
  | throw e => exact h
  | call op next => exact h.2 c

/-- A program in the middle of its run can be cut off. -/
theorem wpc_cutOff {op : Op} {next : Except ε (Answer op) → Program Op Answer ε α} (c : m.Chance)
    (h : wpc m Q E C (.call op next) s) : C s ∧ C (cutOff m c (.call op next) s) :=
  ⟨h.1.1, h.1.2 c⟩

end Logic

end AI2Apps.Programs
