import Mathlib.Tactic.Common
import Mathlib.Data.List.Induction

/-! # Runs of a labelled transition function

A system takes one labelled step at a time; a label that is not enabled has no
successor. Guards speak about the state a step is taken from, histories about
the steps already taken. Invariants may use both.
-/

namespace Sara.Lib.Transition

set_option autoImplicit false

variable {σ α : Type*} {step : σ → α → Option σ}

def run (step : σ → α → Option σ) (s : σ) (as : List α) : Option σ := as.foldlM step s

/-- Every step of the run meets the guard in the state it is taken from. -/
def Guarded (step : σ → α → Option σ) (G : σ → α → Prop) : σ → List α → Prop
  | _, [] => True
  | s, a :: as => G s a ∧ ∀ t, step s a = some t → Guarded step G t as

instance Guarded.decidable (step : σ → α → Option σ) (G : σ → α → Prop)
    [∀ s a, Decidable (G s a)] : (s : σ) → (as : List α) → Decidable (Guarded step G s as)
  | _, [] => isTrue trivial
  | s, a :: as =>
    match h : step s a with
    | none => decidable_of_iff (G s a) (by simp [Guarded, h])
    | some t =>
      have := Guarded.decidable step G t as
      decidable_of_iff (G s a ∧ Guarded step G t as) (by simp [Guarded, h])

/-- What the steps of a run contribute, in order. -/
def collect {β : Type*} (step : σ → α → Option σ) (f : σ → α → List β) : σ → List α → List β
  | _, [] => []
  | s, a :: as => f s a ++ ((step s a).map fun t => collect step f t as).getD []

@[simp] theorem run_nil (s : σ) : run step s [] = some s := rfl

theorem run_cons (s : σ) (a : α) (as : List α) :
    run step s (a :: as) = (step s a).bind fun t => run step t as := rfl

theorem run_cons_iff {s u : σ} {a : α} {as : List α} :
    run step s (a :: as) = some u ↔ ∃ t, step s a = some t ∧ run step t as = some u := by
  rw [run_cons, Option.bind_eq_some_iff]

/-- A run evaluated to a state with a decidable property. -/
theorem exists_run {p : σ → Prop} [DecidablePred p] {s : σ} {as : List α}
    (h : (run step s as).any (fun t => decide (p t)) = true) : ∃ t, run step s as = some t ∧ p t := by
  simpa [Option.any_eq_true] using h

theorem run_append (s : σ) (as bs : List α) :
    run step s (as ++ bs) = (run step s as).bind fun t => run step t bs := by
  rw [run, List.foldlM_append]
  rfl

theorem run_snoc_iff {s u : σ} {as : List α} {a : α} :
    run step s (as ++ [a]) = some u ↔ ∃ t, run step s as = some t ∧ step t a = some u := by
  rw [run_append, Option.bind_eq_some_iff]
  simp [run_cons]

theorem guarded_snoc_iff {G : σ → α → Prop} {s t : σ} {as : List α} {a : α}
    (h : run step s as = some t) :
    Guarded step G s (as ++ [a]) ↔ Guarded step G s as ∧ G t a := by
  induction as generalizing s with
  | nil =>
    cases h
    simp [Guarded]
  | cons b as ih =>
    obtain ⟨u, hu, hRest⟩ := run_cons_iff.mp h
    simp only [List.cons_append, Guarded, hu, Option.some.injEq, forall_eq']
    rw [ih hRest, and_assoc]

theorem collect_snoc {β : Type*} {f : σ → α → List β} {s t : σ} {as : List α} {a : α}
    (h : run step s as = some t) :
    collect step f s (as ++ [a]) = collect step f s as ++ f t a := by
  induction as generalizing s with
  | nil =>
    cases h
    cases hStep : step t a <;> simp [collect, hStep]
  | cons b as ih =>
    obtain ⟨u, hu, hRest⟩ := run_cons_iff.mp h
    simp [collect, hu, ih hRest]

theorem mem_collect_of_step {β : Type*} {f : σ → α → List β} {s t : σ} {as bs : List α} {a : α}
    (hPre : bs ++ [a] <+: as) (hRun : run step s bs = some t) {b : β} (hb : b ∈ f t a) :
    b ∈ collect step f s as := by
  obtain ⟨cs, rfl⟩ := hPre
  induction bs generalizing s with
  | nil =>
    cases hRun
    exact List.mem_append_left _ hb
  | cons c bs ih =>
    obtain ⟨u, hu, hRest⟩ := run_cons_iff.mp hRun
    simp only [List.cons_append, collect, hu]
    exact List.mem_append_right _ (ih hRest)

/-- A property of histories and states that every step preserves holds along
every run. -/
theorem run_induction {P : List α → σ → Prop} {s : σ} (start : P [] s)
    (next : ∀ as t a u, run step s as = some t → P as t → step t a = some u → P (as ++ [a]) u)
    {as : List α} {t : σ} (h : run step s as = some t) : P as t := by
  induction as using List.reverseRecOn generalizing t with
  | nil =>
    cases h
    exact start
  | append_singleton as a ih =>
    obtain ⟨u, hu, ha⟩ := run_snoc_iff.mp h
    exact next as u a t hu (ih hu) ha

/-- The same, for runs whose steps all meet a guard. -/
theorem guarded_induction {G : σ → α → Prop} {P : List α → σ → Prop} {s : σ} (start : P [] s)
    (next : ∀ as t a u, run step s as = some t → Guarded step G s as → P as t → G t a →
      step t a = some u → P (as ++ [a]) u)
    {as : List α} {t : σ} (h : run step s as = some t) (hG : Guarded step G s as) : P as t := by
  refine run_induction (P := fun as t => Guarded step G s as → P as t)
    (fun _ => start) ?_ h hG
  intro as t a u hRun ih hStep hG
  obtain ⟨hG, ha⟩ := (guarded_snoc_iff hRun).mp hG
  exact next as t a u hRun hG (ih hG) ha hStep

/-- Where a guard says which steps keep a property, a run whose steps all meet it is one
that never leaves the property. -/
theorem guarded_iff_forall_run {G : σ → α → Prop} {P : σ → Prop}
    (hStep : ∀ s a t, P s → step s a = some t → (P t ↔ G s a)) {s t : σ} {as : List α}
    (hs : P s) (h : run step s as = some t) :
    Guarded step G s as ↔ ∀ bs u, bs <+: as → run step s bs = some u → P u := by
  induction as generalizing s with
  | nil =>
    constructor
    · intro _ bs u hPre hRun
      rw [List.prefix_nil.mp hPre] at hRun
      cases hRun
      exact hs
    · intro _
      trivial
  | cons a as ih =>
    obtain ⟨u, hu, hRest⟩ := run_cons_iff.mp h
    constructor
    · rintro ⟨hGuard, hGuarded⟩ bs v hPre hRun
      have hNext : P u := (hStep s a u hs hu).mpr hGuard
      cases bs with
      | nil =>
        cases hRun
        exact hs
      | cons b bs =>
        obtain ⟨rfl, hBefore⟩ := List.cons_prefix_cons.mp hPre
        obtain ⟨u', hu', hRun⟩ := run_cons_iff.mp hRun
        cases hu.symm.trans hu'
        exact (ih hNext hRest).mp (hGuarded u hu) bs v hBefore hRun
    · intro hAll
      have hNext : P u := hAll [a] u (List.prefix_append [a] as) (by rw [run_cons, hu]; rfl)
      refine ⟨(hStep s a u hs hu).mp hNext, ?_⟩
      intro u' hu'
      cases hu.symm.trans hu'
      apply (ih hNext hRest).mpr
      intro bs v hPre hRun
      exact hAll (a :: bs) v (List.cons_prefix_cons.mpr ⟨rfl, hPre⟩) (run_cons_iff.mpr ⟨u, hu, hRun⟩)

/-- A guard may be traded for one that is as strong in the states the run goes through. -/
theorem guarded_of_run {G G' : σ → α → Prop} {s : σ} {as : List α} (h : Guarded step G s as)
    (hImp : ∀ bs a t, bs ++ [a] <+: as → run step s bs = some t → G t a → G' t a) :
    Guarded step G' s as := by
  induction as generalizing s with
  | nil => trivial
  | cons a as ih =>
    refine ⟨hImp [] a s ⟨as, rfl⟩ rfl h.1, ?_⟩
    intro t ht
    refine ih (h.2 t ht) ?_
    rintro bs b u ⟨cs, hcs⟩ hRun
    exact hImp (a :: bs) b u ⟨cs, congrArg (a :: ·) hcs⟩ (run_cons_iff.mpr ⟨t, ht, hRun⟩)

/-- A run of one system is matched by a run of another if each of its steps is, by as many
steps as that takes. -/
theorem exists_run_of_simulates {τ β : Type*} {step' : τ → β → Option τ} {G : σ → α → Prop}
    {R : σ → τ → Prop}
    (hStep : ∀ s a s' t, G s a → R s t → step s a = some s' →
      ∃ bs t', run step' t bs = some t' ∧ R s' t')
    {s s' : σ} {t : τ} {as : List α} (hR : R s t) (hRun : run step s as = some s')
    (hG : Guarded step G s as) : ∃ bs t', run step' t bs = some t' ∧ R s' t' := by
  induction as generalizing s t with
  | nil =>
    cases hRun
    exact ⟨[], t, rfl, hR⟩
  | cons a as ih =>
    obtain ⟨u, hu, hRest⟩ := run_cons_iff.mp hRun
    obtain ⟨bs, v, hv, hRel⟩ := hStep s a u t hG.1 hR hu
    obtain ⟨cs, t', ht', hEnd⟩ := ih hRel hRest (hG.2 u hu)
    refine ⟨bs ++ cs, t', ?_, hEnd⟩
    rw [run_append, hv]
    exact ht'

end Sara.Lib.Transition
