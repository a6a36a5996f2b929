import Mathlib.Tactic.Common

/-! # Reading with errors

A program that reads from a source may fail, and what it has read by then stays read.
-/

namespace Sara.Lib

set_option autoImplicit false

def Reading (σ ε α : Type) := σ → Except ε α × σ

namespace Reading

variable {σ ε α β : Type}

instance : Monad (Reading σ ε) where
  pure a := fun s => (.ok a, s)
  bind m f := fun s =>
    match m s with
    | (.ok a, t) => f a t
    | (.error e, t) => (.error e, t)

def fail (e : ε) : Reading σ ε α := fun s => (.error e, s)

def state : Reading σ ε σ := fun s => (.ok s, s)

def modify (f : σ → σ) : Reading σ ε Unit := fun s => (.ok (), f s)

/-- The error, if there is one, is the result. -/
def attempt (m : Reading σ ε α) : Reading σ ε (Except ε α) := fun s => (.ok (m s).1, (m s).2)

def repeatedly (m : Reading σ ε Unit) : Nat → Reading σ ε Unit
  | 0 => pure ()
  | n + 1 => do
    m
    repeatedly m n

variable {m : Reading σ ε α} {f : α → Reading σ ε β} {s t : σ} {a : α} {e : ε}

theorem pure_apply (a : α) (s : σ) : (pure a : Reading σ ε α) s = (.ok a, s) := rfl

theorem bind_ok (h : m s = (.ok a, t)) : (m >>= f) s = f a t := by
  change (match m s with | (.ok a, t) => f a t | (.error e, t) => (.error e, t)) = f a t
  rw [h]

theorem bind_error (h : m s = (.error e, t)) : (m >>= f) s = (.error e, t) := by
  change (match m s with | (.ok a, t) => f a t | (.error e, t) => (.error e, t)) = (.error e, t)
  rw [h]

theorem state_bind (f : σ → Reading σ ε β) (s : σ) : (state >>= f) s = f s s := rfl

theorem modify_bind (g : σ → σ) (f : Unit → Reading σ ε β) (s : σ) : (modify g >>= f) s = f () (g s) := rfl

theorem attempt_bind (f : Except ε α → Reading σ ε β) : (attempt m >>= f) s = f (m s).1 (m s).2 := rfl

theorem bind_assoc {γ : Type} (m : Reading σ ε α) (f : α → Reading σ ε β) (g : β → Reading σ ε γ) :
    m >>= f >>= g = m >>= fun a => f a >>= g := by
  funext s
  cases h : m s with
  | mk r t =>
    cases r with
    | ok a =>
      rw [bind_ok h]
      change (match (m >>= f) s with | (.ok b, t) => g b t | (.error e, t) => (.error e, t)) = (f a >>= g) t
      rw [bind_ok h]
      rfl
    | error e => rw [bind_error h, bind_error (bind_error h)]

/-- What begins alike goes on alike. -/
theorem bind_congr_start (h : m s = m t) : (m >>= f) s = (m >>= f) t := by
  change (match m s with | (.ok a, t) => f a t | (.error e, t) => (.error e, t)) = _
  rw [h]
  rfl

end Reading

end Sara.Lib
