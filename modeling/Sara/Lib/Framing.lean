import Mathlib.Tactic.Common
import Mathlib.Data.List.Basic
import Mathlib.Algebra.BigOperators.Group.List.Basic
import Mathlib.Algebra.GroupWithZero.Nat

/-! # Streams cut at a delimiter

A stream is read as the segments that a delimiter ends, followed by an open
remainder. Empty segments carry nothing and are not reported.
-/

namespace Sara.Lib.Framing

set_option autoImplicit false

variable {α : Type*} [DecidableEq α]

/-- The non-empty segments ended by `sep`, and what follows the last `sep`. -/
def cut (sep : α) (s : List α) : List (List α) × List α :=
  ((s.splitOn sep).dropLast.filter (· ≠ []), (s.splitOn sep).getLast (List.splitOn_ne_nil sep s))

theorem cut_of_not_mem {sep : α} {s : List α} (h : sep ∉ s) : cut sep s = ([], s) := by
  simp only [cut, List.splitOn_eq_singleton h]
  rfl

theorem cut_append_sep (sep : α) (s t : List α) :
    cut sep (s ++ sep :: t) =
      ((s.splitOn sep).filter (· ≠ []) ++ (cut sep t).1, (cut sep t).2) := by
  have ht : t.splitOn sep ≠ [] := List.splitOn_ne_nil sep t
  simp only [cut, List.splitOn_append_cons_self, List.dropLast_append_of_ne_nil ht,
    List.filter_append, List.getLast_append_of_ne_nil _ ht]

theorem cut_segment (sep : α) {s : List α} (h : sep ∉ s) (t : List α) :
    cut sep (s ++ sep :: t) = ([s].filter (· ≠ []) ++ (cut sep t).1, (cut sep t).2) := by
  rw [cut_append_sep, List.splitOn_eq_singleton h]

theorem mem_of_mem_splitOn {sep a : α} {s piece : List α} (h : piece ∈ s.splitOn sep)
    (ha : a ∈ piece) : a ≠ sep ∧ a ∈ s := by
  induction s generalizing piece with
  | nil =>
    rw [List.splitOn_nil, List.mem_singleton] at h
    exact absurd ha (h ▸ List.not_mem_nil)
  | cons x s ih =>
    obtain ⟨hd, tl, hSplit⟩ := List.exists_cons_of_ne_nil (List.splitOn_ne_nil sep s)
    rw [List.splitOn_cons_eq_if_modifyHead, hSplit] at h
    by_cases hx : x = sep
    · rw [if_pos (by simpa using hx), List.mem_cons] at h
      obtain rfl | h := h
      · exact absurd ha List.not_mem_nil
      · obtain ⟨hne, hmem⟩ := ih (hSplit ▸ h) ha
        exact ⟨hne, List.mem_cons_of_mem x hmem⟩
    · rw [if_neg (by simpa using hx), List.modifyHead_cons, List.mem_cons] at h
      obtain rfl | h := h
      · rcases List.mem_cons.mp ha with rfl | ha
        · exact ⟨hx, List.mem_cons_self⟩
        · obtain ⟨hne, hmem⟩ := ih (hSplit ▸ List.mem_cons_self) ha
          exact ⟨hne, List.mem_cons_of_mem x hmem⟩
      · obtain ⟨hne, hmem⟩ := ih (hSplit ▸ List.mem_cons_of_mem hd h) ha
        exact ⟨hne, List.mem_cons_of_mem x hmem⟩

theorem segment_cases (sep : α) (s : List α) :
    sep ∉ s ∨ ∃ u v, sep ∉ u ∧ s = u ++ sep :: v := by
  by_cases h : sep ∈ s
  · obtain ⟨u, v, hs, hu⟩ := List.eq_append_cons_of_mem h
    exact .inr ⟨u, v, hu, hs⟩
  · exact .inl h

/-- Induction over a stream by its segments. -/
theorem segment_induction (sep : α) {P : List α → Prop} (rest : ∀ s, sep ∉ s → P s)
    (segment : ∀ u v, sep ∉ u → P v → P (u ++ sep :: v)) (s : List α) : P s := by
  induction hn : s.length using Nat.strongRecOn generalizing s with
  | ind n ih =>
    rcases segment_cases sep s with h | ⟨u, v, hu, rfl⟩
    · exact rest s h
    · refine segment u v hu (ih v.length ?_ v rfl)
      rw [← hn, List.length_append, List.length_cons]
      omega

theorem not_mem_cut_snd (sep : α) (s : List α) : sep ∉ (cut sep s).2 := by
  induction s using segment_induction sep with
  | rest s h => rwa [cut_of_not_mem h]
  | segment u v hu ih => rwa [cut_segment sep hu]

theorem mem_of_mem_cut {sep a : α} {s piece : List α} (h : piece ∈ (cut sep s).1) :
    piece ≠ [] ∧ (a ∈ piece → a ≠ sep ∧ a ∈ s) := by
  obtain ⟨hPiece, hne⟩ := List.mem_filter.mp h
  exact ⟨of_decide_eq_true hne, fun ha => mem_of_mem_splitOn (List.dropLast_subset _ hPiece) ha⟩

theorem mem_of_mem_cut_snd {sep a : α} {s : List α} (h : a ∈ (cut sep s).2) : a ≠ sep ∧ a ∈ s :=
  mem_of_mem_splitOn (List.getLast_mem (List.splitOn_ne_nil sep s)) h

/-- Cutting a longer stream continues from the remainder of the shorter one. -/
theorem cut_append (sep : α) (s t : List α) :
    cut sep (s ++ t) = ((cut sep s).1 ++ (cut sep ((cut sep s).2 ++ t)).1,
      (cut sep ((cut sep s).2 ++ t)).2) := by
  induction s using segment_induction sep with
  | rest s h => simp [cut_of_not_mem h]
  | segment u v hu ih =>
    rw [List.append_assoc, List.cons_append, cut_segment sep hu, cut_segment sep hu, ih]
    simp

theorem cut_snd_eq_nil_iff (sep : α) {s : List α} (hs : s ≠ []) :
    (cut sep s).2 = [] ↔ s.getLast? = some sep := by
  induction s using segment_induction sep with
  | rest s h =>
    rw [cut_of_not_mem h]
    constructor
    · intro h0
      exact absurd h0 hs
    · intro hLast
      exact absurd (List.mem_of_getLast? hLast) h
  | segment u v hu ih =>
    rw [cut_segment sep hu]
    by_cases hv : v = []
    · subst hv
      simp [cut]
    · have hLast : (u ++ sep :: v).getLast? = v.getLast? := by
        rw [List.getLast?_append_of_ne_nil _ (List.cons_ne_nil _ _), List.getLast?_cons_of_ne_nil hv]
      rw [hLast]
      exact ih hv

def weight (r : List (List α) × List α) : Nat := (r.1.map List.length).sum + r.2.length

theorem filter_ne_of_not_mem {sep : α} {s : List α} (h : sep ∉ s) : s.filter (· ≠ sep) = s := by
  rw [List.filter_eq_self]
  intro a ha
  exact decide_eq_true fun he => h (he ▸ ha)

theorem flatten_cut (sep : α) (s : List α) :
    (cut sep s).1.flatten ++ (cut sep s).2 = s.filter (· ≠ sep) := by
  induction s using segment_induction sep with
  | rest s h =>
    rw [cut_of_not_mem h, filter_ne_of_not_mem h]
    rfl
  | segment u v hu ih =>
    have hFirst : ([u].filter (· ≠ [])).flatten = u := by
      cases u with
      | nil => rfl
      | cons a u => simp
    have hSep : (sep :: v).filter (· ≠ sep) = v.filter (· ≠ sep) :=
      List.filter_cons_of_neg (by simp)
    rw [cut_segment sep hu, List.filter_append, filter_ne_of_not_mem hu, hSep, ← ih,
      List.flatten_append, hFirst, List.append_assoc]

theorem weight_cut (sep : α) (s : List α) :
    weight (cut sep s) = (s.filter (· ≠ sep)).length := by
  rw [← flatten_cut, List.length_append, List.length_flatten, weight]

end Sara.Lib.Framing
