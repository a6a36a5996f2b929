import Sara.Lib.Prog
import Mathlib.Data.List.Infix

/-! # Work that arrives in batches

A list of inputs is handled one after the other, but handed over in batches. A batch
is run by a program that stops at a panic and is recovered as a whole; once the state
is shut no batch is handed over any more. The cut into batches shows exactly if what
stands behind a panic, or behind an input that shuts the state, leaves a trace. Where it
is known which inputs leave one, this is a condition on the inputs alone.
-/

namespace Sara.Lib.Batch

open Prog

set_option autoImplicit false

variable {σ α β : Type} (f : α → Prog σ PUnit) (shut : σ → Bool) (obs : σ → β)

def batch (s : σ) (b : List α) : σ := (b.forM f s).state

def read (s : σ) (b : List α) : σ := if shut s then s else batch f s b

def readAll (s : σ) (bs : List (List α)) : σ := bs.foldl (read f shut) s

/-- What is seen does not depend on the batches the rest of the inputs comes in. -/
def Independent : σ → List α → Prop
  | _, [] => True
  | s, a :: rest =>
    match f a s with
    | .panic t => ∀ later, later <:+ rest → ∀ bs : List (List α), bs.flatten = later →
        obs (readAll f shut t bs) = obs t
    | .done _ t =>
      if shut t then ∀ first, first <+: rest → obs (batch f t first) = obs t else Independent t rest

variable {f shut obs} {s t : σ} {a : α} {b rest : List α} {bs : List (List α)}

@[simp] theorem batch_nil (s : σ) : batch f s [] = s := rfl

theorem batch_cons_done {u : PUnit} (h : f a s = .done u t) : batch f s (a :: b) = batch f t b :=
  congrArg Outcome.state (bind_done h fun _ => b.forM f)

theorem batch_cons_panic (h : f a s = .panic t) : batch f s (a :: b) = t :=
  congrArg Outcome.state (bind_panic h fun _ => b.forM f)

theorem read_shut (h : shut s = true) (b : List α) : read f shut s b = s := if_pos h

theorem read_open (h : shut s = false) (b : List α) : read f shut s b = batch f s b :=
  if_neg (Bool.eq_false_iff.mp h)

theorem readAll_cons (s : σ) (b : List α) (bs : List (List α)) :
    readAll f shut s (b :: bs) = readAll f shut (read f shut s b) bs := rfl

theorem readAll_shut (h : shut s = true) (bs : List (List α)) : readAll f shut s bs = s := by
  induction bs with
  | nil => rfl
  | cons b bs ih => rw [readAll_cons, read_shut h, ih]

theorem readAll_open (h : shut s = false) (b : List α) (bs : List (List α)) :
    readAll f shut s (b :: bs) = readAll f shut (batch f s b) bs := by
  rw [readAll_cons, read_open h]

/-- Empty batches in front change nothing: the first input comes with a batch of its own. -/
theorem exists_first (h : shut s = false) (hFlat : bs.flatten = a :: rest) :
    ∃ b bs', b ++ bs'.flatten = rest ∧ readAll f shut s bs = readAll f shut s ((a :: b) :: bs') := by
  induction bs with
  | nil => cases hFlat
  | cons b bs ih =>
    cases b with
    | nil =>
      obtain ⟨b, bs', hRest, hEq⟩ := ih hFlat
      refine ⟨b, bs', hRest, ?_⟩
      rw [readAll_open h, batch_nil, hEq]
    | cons a' b =>
      cases hFlat
      exact ⟨b, bs, rfl, rfl⟩

theorem batch_induction {P : σ → Prop} (hStep : ∀ a s, P s → P (f a s).state) (h : P s) (b : List α) :
    P (batch f s b) := by
  induction b generalizing s with
  | nil => exact h
  | cons a b ih =>
    have hNext := hStep a s h
    cases hResult : f a s with
    | panic t =>
      rw [batch_cons_panic hResult]
      rwa [hResult] at hNext
    | done u t =>
      rw [batch_cons_done hResult]
      rw [hResult] at hNext
      exact ih hNext

theorem read_induction {P : σ → Prop} (hStep : ∀ a s, P s → P (f a s).state) (h : P s) (b : List α) :
    P (read f shut s b) := by
  unfold read
  split
  · exact h
  · exact batch_induction hStep h b

theorem readAll_induction {P : σ → Prop} (hStep : ∀ a s, P s → P (f a s).state) (h : P s)
    (bs : List (List α)) : P (readAll f shut s bs) := by
  induction bs generalizing s with
  | nil => exact h
  | cons b bs ih => exact ih (read_induction hStep h b)

/-! ## Inputs that leave no trace -/

/-- No input leaves a trace, up to one that panics. -/
def SilentUntil (drops silent : α → Prop) : List α → Prop
  | [] => True
  | a :: l => drops a ∨ silent a ∧ SilentUntil drops silent l

theorem silentUntil_congr {drops drops' silent silent' : α → Prop} (hDrops : ∀ a, drops a ↔ drops' a)
    (hSilent : ∀ a, silent a ↔ silent' a) (l : List α) :
    SilentUntil drops silent l ↔ SilentUntil drops' silent' l := by
  induction l with
  | nil => exact Iff.rfl
  | cons a l ih => simp only [SilentUntil, hDrops, hSilent, ih]

theorem forall_prefix_iff {drops silent : α → Prop} (hDrops : ∀ a, drops a → f a s = .panic s)
    (hSilent : ∀ a, ¬ drops a → silent a → f a s = .done ⟨⟩ s)
    (hHeard : ∀ a, ¬ drops a → ¬ silent a → obs (f a s).state ≠ obs s) (l : List α) :
    (∀ first, first <+: l → obs (batch f s first) = obs s) ↔ SilentUntil drops silent l := by
  induction l with
  | nil =>
    refine iff_of_true ?_ trivial
    intro first hFirst
    rw [List.prefix_nil.mp hFirst, batch_nil]
  | cons a l ih =>
    unfold SilentUntil
    by_cases hDrop : drops a
    · refine iff_of_true ?_ (.inl hDrop)
      intro first hFirst
      rcases List.prefix_cons_iff.mp hFirst with rfl | ⟨first, rfl, _⟩
      · rw [batch_nil]
      · rw [batch_cons_panic (hDrops a hDrop)]
    by_cases hQuiet : silent a
    · have hDone := hSilent a hDrop hQuiet
      rw [← ih]
      constructor
      · intro h
        refine .inr ⟨hQuiet, fun first hFirst => ?_⟩
        have hCons := h (a :: first) (List.prefix_cons_inj a |>.mpr hFirst)
        rwa [batch_cons_done hDone] at hCons
      · rintro (hAbsurd | ⟨_, h⟩) first hFirst
        · exact absurd hAbsurd hDrop
        rcases List.prefix_cons_iff.mp hFirst with rfl | ⟨first, rfl, hRest⟩
        · rw [batch_nil]
        · rw [batch_cons_done hDone]
          exact h first hRest
    · refine iff_of_false (fun h => ?_) (fun h => h.elim hDrop fun h => hQuiet h.1)
      have hOne := h [a] (List.prefix_cons_inj a |>.mpr (List.nil_prefix))
      refine hHeard a hDrop hQuiet ?_
      rw [← hOne]
      cases hResult : f a s with
      | panic t => rw [batch_cons_panic hResult, Outcome.state_panic]
      | done u t => rw [batch_cons_done hResult, batch_nil, Outcome.state_done]

theorem read_silent {silent : α → Prop} (hSilent : ∀ a, silent a → (f a s).state = s)
    (hAll : ∀ a ∈ b, silent a) : read f shut s b = s := by
  unfold read
  split
  · rfl
  induction b with
  | nil => rfl
  | cons a b ih =>
    have hSame := hSilent a (hAll a List.mem_cons_self)
    cases hResult : f a s with
    | panic t =>
      rw [batch_cons_panic hResult]
      rwa [hResult] at hSame
    | done u t =>
      rw [hResult, Outcome.state_done] at hSame
      rw [batch_cons_done hResult, hSame]
      exact ih fun a ha => hAll a (List.mem_cons_of_mem _ ha)

theorem readAll_silent {silent : α → Prop} (hSilent : ∀ a, silent a → (f a s).state = s)
    (hAll : ∀ a ∈ bs.flatten, silent a) : readAll f shut s bs = s := by
  induction bs with
  | nil => rfl
  | cons b bs ih =>
    rw [readAll_cons, read_silent hSilent fun a ha => hAll a (List.mem_append_left _ ha)]
    exact ih fun a ha => hAll a (List.mem_append_right _ ha)

/-- An input that leaves a trace is asked to show it before inputs that leave none. -/
theorem forall_suffix_iff {silent : α → Prop} (hOpen : shut s = false)
    (hSilent : ∀ a, silent a → (f a s).state = s)
    (hHeard : ∀ a, ¬ silent a → ∀ later : List α, (∀ a ∈ later, silent a) →
      obs (read f shut (f a s).state later) ≠ obs s) (l : List α) :
    (∀ later, later <:+ l → ∀ bs : List (List α), bs.flatten = later → obs (readAll f shut s bs) = obs s) ↔
      ∀ a ∈ l, silent a := by
  constructor
  · intro h
    induction l with
    | nil => exact fun a ha => absurd ha List.not_mem_nil
    | cons a l ih =>
      have hRest := ih fun later hLater => h later (hLater.trans (List.suffix_cons a l))
      refine List.forall_mem_cons.mpr ⟨?_, hRest⟩
      by_contra hLoud
      have hCut := h (a :: l) List.suffix_rfl [[a], l] (by simp)
      have hBatch : batch f s [a] = (f a s).state := by
        cases hResult : f a s with
        | panic t => rw [batch_cons_panic hResult, Outcome.state_panic]
        | done u t => rw [batch_cons_done hResult, batch_nil, Outcome.state_done]
      rw [readAll_open hOpen, hBatch] at hCut
      exact hHeard a hLoud l hRest hCut
  · intro h later hLater bs hFlat
    rw [readAll_silent hSilent]
    intro a ha
    exact h a (hLater.subset (hFlat ▸ ha))

/-! ## A record of what the inputs hand on -/

section Logged

variable {γ : Type} (log : α → σ → List γ)

def logged (f : α → Prog σ PUnit) (a : α) : Prog (σ × List γ) PUnit := fun s =>
  match f a s.1 with
  | .done u t => .done u (t, s.2 ++ log a s.1)
  | .panic t => .panic (t, s.2 ++ log a s.1)

variable {log} {s : σ × List γ}

theorem logged_done {t : σ} {u : PUnit} (h : f a s.1 = .done u t) :
    logged log f a s = .done u (t, s.2 ++ log a s.1) := by
  unfold logged
  rw [h]

theorem logged_panic {t : σ} (h : f a s.1 = .panic t) :
    logged log f a s = .panic (t, s.2 ++ log a s.1) := by
  unfold logged
  rw [h]

theorem logged_state (a : α) (s : σ × List γ) :
    (logged log f a s).state = ((f a s.1).state, s.2 ++ log a s.1) := by
  unfold logged
  cases f a s.1 with
  | done u t => rfl
  | panic t => rfl

theorem batch_logged (s : σ × List γ) (b : List α) : (batch (logged log f) s b).1 = batch f s.1 b := by
  induction b generalizing s with
  | nil => rfl
  | cons a b ih =>
    cases hResult : f a s.1 with
    | panic t => rw [batch_cons_panic (logged_panic hResult), batch_cons_panic hResult]
    | done u t => rw [batch_cons_done (logged_done hResult), batch_cons_done hResult, ih]

variable (log) in
theorem readAll_logged (s : σ × List γ) (bs : List (List α)) :
    (readAll (logged log f) (fun s => shut s.1) s bs).1 = readAll f shut s.1 bs := by
  induction bs generalizing s with
  | nil => rfl
  | cons b bs ih =>
    have hRead : (read (logged log f) (fun s => shut s.1) s b).1 = read f shut s.1 b := by
      unfold read
      split
      · rfl
      · exact batch_logged s b
    rw [readAll_cons, ih, hRead, readAll_cons]

end Logged

/-! ## All ways to cut -/

section Stays

variable (hStays : ∀ a, Keeps (fun s t => shut s = true → shut t = true) (f a))
include hStays

theorem shut_batch (h : shut s = true) (b : List α) : shut (batch f s b) = true :=
  batch_induction (P := fun s => shut s = true) (fun a s => hStays a s) h b

theorem independent_of_forall (hOpen : shut s = false) {l : List α}
    (h : ∀ bs bs' : List (List α), bs.flatten = l → bs'.flatten = l →
      obs (readAll f shut s bs) = obs (readAll f shut s bs')) : Independent f shut obs s l := by
  induction l generalizing s with
  | nil => trivial
  | cons a rest ih =>
    unfold Independent
    cases hResult : f a s with
    | panic t =>
      rintro later ⟨dropped, rfl⟩ bs hFlat
      -- the panic drops what shares its batch; compare with all of the rest in it
      have hCut := h ((a :: dropped) :: bs) [a :: (dropped ++ later)] (by simp [hFlat]) (by simp)
      rw [readAll_open hOpen, readAll_open hOpen, batch_cons_panic hResult, batch_cons_panic hResult] at hCut
      exact hCut
    | done u t =>
      simp only
      split
      · rename_i hShut
        rintro first ⟨later, rfl⟩
        have hCut := h [a :: first, later] [[a], first ++ later] (by simp) (by simp)
        rw [readAll_open hOpen, readAll_open hOpen, batch_cons_done hResult, batch_cons_done hResult,
          batch_nil, readAll_shut hShut, readAll_shut (shut_batch hStays hShut first)] at hCut
        exact hCut
      · rename_i hShut
        refine ih (Bool.eq_false_iff.mpr hShut) ?_
        intro bs bs' hFlat hFlat'
        have hCut := h ([a] :: bs) ([a] :: bs') (by simp [hFlat]) (by simp [hFlat'])
        rw [readAll_open hOpen, readAll_open hOpen, batch_cons_done hResult, batch_nil] at hCut
        exact hCut

theorem exists_seen_of_independent (hOpen : shut s = false) {l : List α}
    (h : Independent f shut obs s l) :
    ∃ seen, ∀ bs : List (List α), bs.flatten = l → obs (readAll f shut s bs) = seen := by
  induction l generalizing s with
  | nil =>
    refine ⟨obs s, fun bs hFlat => ?_⟩
    have hEmpty : readAll f shut s bs = s := by
      induction bs with
      | nil => rfl
      | cons b bs ih =>
        obtain ⟨rfl, hFlat⟩ := List.append_eq_nil_iff.mp hFlat
        rw [readAll_open hOpen, batch_nil, ih hFlat]
    rw [hEmpty]
  | cons a rest ih =>
    unfold Independent at h
    cases hResult : f a s with
    | panic t =>
      rw [hResult] at h
      refine ⟨obs t, fun bs hFlat => ?_⟩
      obtain ⟨b, bs', hRest, hEq⟩ := exists_first (f := f) hOpen hFlat
      rw [hEq, readAll_open hOpen, batch_cons_panic hResult]
      exact h bs'.flatten ⟨b, hRest⟩ bs' rfl
    | done u t =>
      simp only [hResult] at h
      split at h
      · rename_i hShut
        refine ⟨obs t, fun bs hFlat => ?_⟩
        obtain ⟨b, bs', hRest, hEq⟩ := exists_first (f := f) hOpen hFlat
        rw [hEq, readAll_open hOpen, batch_cons_done hResult,
          readAll_shut (shut_batch hStays hShut b)]
        exact h b ⟨bs'.flatten, hRest⟩
      · rename_i hShut
        have hOpen' : shut t = false := Bool.eq_false_iff.mpr hShut
        obtain ⟨seen, hSeen⟩ := ih hOpen' h
        refine ⟨seen, fun bs hFlat => ?_⟩
        obtain ⟨b, bs', hRest, hEq⟩ := exists_first (f := f) hOpen hFlat
        rw [hEq, readAll_open hOpen, batch_cons_done hResult, ← readAll_open hOpen']
        exact hSeen (b :: bs') hRest

variable (obs) in
theorem forall_readAll_iff (s : σ) (l : List α) :
    (∀ bs bs' : List (List α), bs.flatten = l → bs'.flatten = l →
      obs (readAll f shut s bs) = obs (readAll f shut s bs')) ↔
    shut s = true ∨ Independent f shut obs s l := by
  cases hShut : shut s with
  | true =>
    refine ⟨fun _ => .inl rfl, fun _ bs bs' _ _ => ?_⟩
    rw [readAll_shut hShut, readAll_shut hShut]
  | false =>
    constructor
    · intro h
      exact .inr (independent_of_forall hStays hShut h)
    · rintro (hAbsurd | h)
      · cases hAbsurd
      obtain ⟨seen, hSeen⟩ := exists_seen_of_independent hStays hShut h
      intro bs bs' hFlat hFlat'
      rw [hSeen bs hFlat, hSeen bs' hFlat']

end Stays

end Sara.Lib.Batch
