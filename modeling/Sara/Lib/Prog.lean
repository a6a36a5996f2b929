import Mathlib.Tactic.Common

/-! # Programs that may panic

A program changes a state and either returns or panics. A panic keeps the
changes made so far, and `recover` turns it into a normal return. `Keeps R`
says that a program relates the state it starts in to the state it leaves,
whichever way it ends, `Commutes f` that it does not see what `f` changes,
`Returns` that it does not panic, and `Ends` that it does not from one state, with a
postcondition.
-/

namespace Sara.Lib

set_option autoImplicit false

inductive Outcome (σ α : Type) where
  | done (a : α) (s : σ)
  | panic (s : σ)

variable {σ α β ε : Type}

def Outcome.state : Outcome σ α → σ
  | .done _ s | .panic s => s

def Outcome.panicked : Outcome σ α → Bool
  | .done _ _ => false
  | .panic _ => true

def Outcome.mapState (f : σ → σ) : Outcome σ α → Outcome σ α
  | .done a s => .done a (f s)
  | .panic s => .panic (f s)

@[simp] theorem Outcome.state_done (a : α) (s : σ) : (Outcome.done a s).state = s := rfl

@[simp] theorem Outcome.state_panic (s : σ) : (Outcome.panic s : Outcome σ α).state = s := rfl

def Prog (σ α : Type) := σ → Outcome σ α

namespace Prog

instance : Monad (Prog σ) where
  pure a := fun s => .done a s
  bind m f := fun s =>
    match m s with
    | .done a t => f a t
    | .panic t => .panic t

def read (f : σ → α) : Prog σ α := fun s => .done (f s) s

def modify (f : σ → σ) : Prog σ Unit := fun s => .done () (f s)

/-- The use of a pointer that an error left unset. -/
def deref (r : Except ε α) : Prog σ α := fun s =>
  match r with
  | .ok a => .done a s
  | .error _ => .panic s

def recover (m : Prog σ Unit) : Prog σ Unit := fun s => .done () (m s).state

@[simp] theorem pure_apply (a : α) (s : σ) : (pure a : Prog σ α) s = .done a s := rfl

@[simp] theorem read_apply (f : σ → α) (s : σ) : read f s = .done (f s) s := rfl

@[simp] theorem modify_apply (f : σ → σ) (s : σ) : modify f s = .done () (f s) := rfl

@[simp] theorem deref_ok (a : α) (s : σ) : deref (.ok a : Except ε α) s = .done a s := rfl

@[simp] theorem deref_error (e : ε) (s : σ) :
    (deref (.error e : Except ε α) : Prog σ α) s = .panic s := rfl

theorem bind_apply (m : Prog σ α) (f : α → Prog σ β) (s : σ) :
    (m >>= f) s = match m s with
      | .done a t => f a t
      | .panic t => .panic t := rfl

theorem bind_done {m : Prog σ α} {s t : σ} {a : α} (h : m s = .done a t) (f : α → Prog σ β) :
    (m >>= f) s = f a t := by
  rw [bind_apply, h]

theorem bind_panic {m : Prog σ α} {s t : σ} (h : m s = .panic t) (f : α → Prog σ β) :
    (m >>= f) s = .panic t := by
  rw [bind_apply, h]

theorem bind_eq_done_iff {m : Prog σ α} {f : α → Prog σ β} {s t : σ} {b : β} :
    (m >>= f) s = .done b t ↔ ∃ a u, m s = .done a u ∧ f a u = .done b t := by
  rw [bind_apply]
  cases m s with
  | done a u => simp
  | panic u => simp

@[simp] theorem state_bind_pure (m : Prog σ α) (f : α → β) (s : σ) :
    ((m >>= fun a => pure (f a)) s).state = (m s).state := by
  rw [bind_apply]
  cases m s with
  | done a t => rfl
  | panic t => rfl

theorem read_eq_done_iff {f : σ → α} {s t : σ} {a : α} : read f s = .done a t ↔ a = f s ∧ t = s := by
  simp [eq_comm]

theorem deref_eq_done_iff {r : Except ε α} {s t : σ} {a : α} :
    (deref r : Prog σ α) s = .done a t ↔ r = .ok a ∧ t = s := by
  cases r with
  | ok b => simp [eq_comm]
  | error e => simp

theorem toOption_eq_some_iff {r : Except ε α} {a : α} : r.toOption = some a ↔ r = .ok a := by
  cases r with
  | ok b => simp [Except.toOption]
  | error e => simp [Except.toOption]

theorem bind_pure_unit (m : Prog σ α) : (m >>= fun a => pure a) = m := by
  funext s
  rw [bind_apply]
  cases m s with
  | done a t => rfl
  | panic t => rfl

theorem bind_bind {γ : Type} (m : Prog σ α) (f : α → Prog σ β) (g : β → Prog σ γ) :
    (m >>= f >>= g) = m >>= fun a => f a >>= g := by
  funext s
  simp only [bind_apply]
  cases m s with
  | done a t => rfl
  | panic t => rfl

instance : LawfulMonad (Prog σ) := LawfulMonad.mk' _ bind_pure_unit (fun _ _ => rfl) bind_bind

def Keeps (R : σ → σ → Prop) (m : Prog σ α) : Prop := ∀ s, R s (m s).state

section Keeps

variable {R : σ → σ → Prop}

theorem Keeps.pure [Std.Refl R] (a : α) : Keeps R (pure a : Prog σ α) := fun s => Std.Refl.refl s

theorem Keeps.read [Std.Refl R] (f : σ → α) : Keeps R (read f) := fun s => Std.Refl.refl s

theorem Keeps.deref [Std.Refl R] (r : Except ε α) : Keeps R (deref r) := by
  intro s
  cases r with
  | ok a => exact Std.Refl.refl s
  | error e => exact Std.Refl.refl s

/-- One program after the other, each related to the state it finds. -/
theorem rel_bind [IsTrans σ R] {m : Prog σ α} {f : α → Prog σ β} {s : σ} (hm : R s (m s).state)
    (hf : ∀ a t, m s = .done a t → R t (f a t).state) : R s ((m >>= f) s).state := by
  rw [bind_apply]
  cases hResult : m s with
  | done a t =>
    rw [hResult] at hm
    exact IsTrans.trans _ _ _ hm (hf a t hResult)
  | panic t =>
    rw [hResult] at hm
    exact hm

theorem Keeps.bind [IsTrans σ R] {m : Prog σ α} {f : α → Prog σ β} (hm : Keeps R m)
    (hf : ∀ a, Keeps R (f a)) : Keeps R (m >>= f) :=
  fun s => rel_bind (hm s) fun a t _ => hf a t

theorem Keeps.recover {m : Prog σ Unit} (hm : Keeps R m) : Keeps R (recover m) := hm

theorem Keeps.forM [Std.Refl R] [IsTrans σ R] {f : α → Prog σ PUnit} {l : List α}
    (hf : ∀ a ∈ l, Keeps R (f a)) : Keeps R (l.forM f) := by
  induction l with
  | nil => exact Keeps.pure _
  | cons a l ih =>
    refine Keeps.bind (hf a List.mem_cons_self) ?_
    intro _
    exact ih fun b hb => hf b (List.mem_cons_of_mem a hb)

end Keeps

/-- The program does the same in a state that `f` has changed, and leaves the change in place. -/
def Commutes (f : σ → σ) (m : Prog σ α) : Prop := ∀ s, m (f s) = (m s).mapState f

section Commutes

variable {f : σ → σ}

theorem Commutes.pure (a : α) : Commutes f (pure a : Prog σ α) := fun _ => rfl

theorem Commutes.read {g : σ → α} (hg : ∀ s, g (f s) = g s) : Commutes f (read g) := by
  intro s
  rw [read_apply, hg]
  rfl

theorem Commutes.modify {g : σ → σ} (hg : ∀ s, g (f s) = f (g s)) : Commutes f (modify g) := by
  intro s
  rw [modify_apply, hg]
  rfl

theorem Commutes.deref (r : Except ε α) : Commutes f (deref r) := by
  intro s
  cases r with
  | ok a => rfl
  | error e => rfl

theorem Commutes.bind {m : Prog σ α} {g : α → Prog σ β} (hm : Commutes f m)
    (hg : ∀ a, Commutes f (g a)) : Commutes f (m >>= g) := by
  intro s
  rw [bind_apply, bind_apply, hm s]
  cases m s with
  | done a t => exact hg a t
  | panic t => rfl

theorem Commutes.forM {g : α → Prog σ PUnit} (hg : ∀ a, Commutes f (g a)) (l : List α) :
    Commutes f (l.forM g) := by
  induction l with
  | nil => exact Commutes.pure _
  | cons a l ih => exact (hg a).bind fun _ => ih

theorem Commutes.state {m : Prog σ α} (hm : Commutes f m) (s : σ) :
    (m (f s)).state = f (m s).state := by
  rw [hm s]
  cases m s with
  | done a t => rfl
  | panic t => rfl

end Commutes

/-- The program does not panic, whatever state it starts in. -/
def Returns (m : Prog σ α) : Prop := ∀ s, ∃ a t, m s = .done a t

section Returns

theorem Returns.pure (a : α) : Returns (pure a : Prog σ α) := fun s => ⟨a, s, rfl⟩

theorem Returns.read (f : σ → α) : Returns (read f) := fun s => ⟨f s, s, rfl⟩

theorem Returns.modify (f : σ → σ) : Returns (modify f) := fun s => ⟨(), f s, rfl⟩

theorem Returns.bind {m : Prog σ α} {f : α → Prog σ β} (hm : Returns m) (hf : ∀ a, Returns (f a)) :
    Returns (m >>= f) := by
  intro s
  obtain ⟨a, t, hDone⟩ := hm s
  rw [bind_done hDone]
  exact hf a t

theorem Returns.forM {f : α → Prog σ PUnit} {l : List α} (hf : ∀ a ∈ l, Returns (f a)) :
    Returns (l.forM f) := by
  induction l with
  | nil => exact Returns.pure _
  | cons a l ih =>
    refine Returns.bind (hf a List.mem_cons_self) ?_
    intro _
    exact ih fun b hb => hf b (List.mem_cons_of_mem a hb)

end Returns

/-- From `s` the program returns, with `Q`. -/
def Ends (m : Prog σ α) (Q : α → σ → Prop) (s : σ) : Prop := ∃ a t, m s = .done a t ∧ Q a t

section Ends

variable {s : σ}

theorem Ends.pure {Q : α → σ → Prop} {a : α} (h : Q a s) : Ends (pure a) Q s := ⟨a, s, rfl, h⟩

theorem Ends.bind {m : Prog σ α} {f : α → Prog σ β} {Q : α → σ → Prop} {Q' : β → σ → Prop}
    (hm : Ends m Q s) (hf : ∀ a t, Q a t → Ends (f a) Q' t) : Ends (m >>= f) Q' s := by
  obtain ⟨a, t, hDone, hQ⟩ := hm
  obtain ⟨b, u, hDone', hQ'⟩ := hf a t hQ
  exact ⟨b, u, (bind_done hDone f).trans hDone', hQ'⟩

theorem Ends.state {m : Prog σ α} {P : σ → Prop} (h : Ends m (fun _ => P) s) : P (m s).state := by
  obtain ⟨a, t, hDone, hP⟩ := h
  rw [hDone]
  exact hP

end Ends

end Prog

end Sara.Lib
