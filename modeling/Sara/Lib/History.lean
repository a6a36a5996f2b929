import Mathlib.Data.List.Induction

/-! # Histories

The order in which events stand in a list that grows at its end.
-/

namespace Sara.Lib.History

set_option autoImplicit false

variable {α β : Type*} {log : List α} {a b e : α}

/-- The event has not happened, or its causes have, in this order and before it. -/
def Caused (log causes : List α) (e : α) : Prop :=
  e ∈ log → (causes ++ [e]).Sublist log

theorem Caused.concat {causes : List α} (h : Caused log causes a) (hNew : a = e → causes.Sublist log) :
    Caused (log ++ [e]) causes a := by
  intro hMem
  rcases List.mem_append.mp hMem with hOld | hLast
  · exact (h hOld).trans (List.sublist_append_left log [e])
  · have hEq : a = e := List.mem_singleton.mp hLast
    rw [hEq]
    exact (hNew hEq).append (List.Sublist.refl [e])

theorem pair_concat_iff : [a, b].Sublist (log ++ [e]) ↔ [a, b].Sublist log ∨ a ∈ log ∧ b = e := by
  constructor
  · intro h
    obtain ⟨l₁, l₂, hEq, h₁, h₂⟩ := List.sublist_append_iff.mp h
    cases l₂ with
    | nil =>
      rw [List.append_nil] at hEq
      exact .inl (hEq ▸ h₁)
    | cons x rest =>
      obtain ⟨rfl, rfl⟩ : rest = [] ∧ x = e := by
        have hLength := h₂.length_le
        have hRest : rest = [] := by
          cases rest with
          | nil => rfl
          | cons y ys => simp at hLength
        exact ⟨hRest, List.mem_singleton.mp (h₂.subset List.mem_cons_self)⟩
      obtain ⟨rfl, rfl⟩ : l₁ = [a] ∧ x = b := by
        have hConcat : [a] ++ [b] = l₁ ++ [x] := hEq
        obtain ⟨hLeft, hRight⟩ := List.append_inj' hConcat rfl
        exact ⟨hLeft.symm, (List.singleton_inj.mp hRight).symm⟩
      exact .inr ⟨List.singleton_sublist.mp h₁, rfl⟩
  · rintro (h | ⟨ha, rfl⟩)
    · exact h.trans (List.sublist_append_left log [e])
    · exact (List.singleton_sublist.mpr ha).append (List.Sublist.refl [b])

/-- What stands before something in the first part stands there too. -/
theorem pair_left_of_notMem {rest : List α} (h : [a, b].Sublist (log ++ rest)) (hb : b ∉ rest) :
    [a, b].Sublist log := by
  induction rest using List.reverseRecOn with
  | nil => simpa using h
  | append_singleton rest e ih =>
    rw [← List.append_assoc] at h
    rcases pair_concat_iff.mp h with hOld | ⟨_, rfl⟩
    · exact ih hOld fun hMem => hb (List.mem_append_left _ hMem)
    · exact absurd (List.mem_append_right rest (List.mem_singleton_self b)) hb

theorem pair_of_filterMap {f : α → Option β} {x y : β} (h : [x, y].Sublist (log.filterMap f)) :
    ∃ a b, f a = some x ∧ f b = some y ∧ [a, b].Sublist log := by
  induction log using List.reverseRecOn with
  | nil => cases h
  | append_singleton log e ih =>
    rw [List.filterMap_append, List.filterMap_cons, List.filterMap_nil] at h
    cases he : f e with
    | none =>
      rw [he] at h
      obtain ⟨a, b, ha, hb, hPair⟩ := ih (by simpa using h)
      exact ⟨a, b, ha, hb, pair_concat_iff.mpr (.inl hPair)⟩
    | some z =>
      rw [he] at h
      rcases pair_concat_iff.mp h with hOld | ⟨hx, rfl⟩
      · obtain ⟨a, b, ha, hb, hPair⟩ := ih hOld
        exact ⟨a, b, ha, hb, pair_concat_iff.mpr (.inl hPair)⟩
      · obtain ⟨a, ha, hfa⟩ := List.mem_filterMap.mp hx
        exact ⟨a, e, hfa, he, pair_concat_iff.mpr (.inr ⟨ha, rfl⟩)⟩

end Sara.Lib.History
