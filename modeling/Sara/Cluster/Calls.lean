import Sara.Cluster.Wired
import Sara.Lib.History

/-! # What becomes of a call

A history of the calls between the nodes: a request is made, taken by the server it was
sent to, handled out of the data channel there, and its call returns. Calls may fail at
any time here, with their requests still under way, and nodes may crash. No request is
taken or handled twice, none that was not made is, a call that returns was taken, and
requests of which one was made after the other returned are handled in that order.

Nothing waits for ever either: whatever the nodes were doing, their servers and data
channels alone can bring every call to its answer.
-/

namespace Sara

open Lib Lib.Prog Lib.Transition Lib.History Saradb Concurrent
open scoped BigOperators

set_option autoImplicit false

namespace Concurrent

inductive Event (k : Nat) where
  | called (r : Rpc k)
  | accepted (r : Rpc k)
  | handled (r : Rpc k)
  | returned (sn : Nat)
deriving DecidableEq

variable {k : Nat}

def Wired.event (C : Codec) (W : Wired k) : Wire k → List (Event k)
  | .call i w j =>
    (W.publishes i w).toList.map fun e => .called ⟨W.sn, i, w, j, e.2.toJson C⟩
  | .process m => W.transit[m]?.toList.map .accepted
  | .handle j _ => ((W.dataCh j).take 1).map .handled
  | .reply i w =>
    match W.calls i w with
    | .answered sn => [.returned sn]
    | .no | .sent _ => []
  | .within _ _ | .fail _ _ _ _ => []

/-- The requests that the server of a node has taken. -/
def Event.acceptedAt (j : Fin k) : Event k → Option (Rpc k)
  | .accepted r => if r.dest = j then some r else none
  | .called _ | .handled _ | .returned _ => none

/-- Those whose message has been handled there. -/
def Event.handledAt (j : Fin k) : Event k → Option (Rpc k)
  | .handled r => if r.dest = j then some r else none
  | .called _ | .accepted _ | .returned _ => none

def history (C : Codec) (consumers bufSize : Nat) (S : Cluster k) (ms : List (Wire k)) : List (Event k) :=
  collect (wire C consumers bufSize) (Wired.event C) (Wired.ofNodes S) ms

/-! ## The network in a step -/

/-- What a step does to the calls, with the events that it is. -/
inductive Wiring (bufSize : Nat) (W W' : Wired k) : List (Event k) → Prop where
  | silent (hCalls : W'.calls = W.calls) (hTransit : W'.transit = W.transit)
      (hData : W'.dataCh = W.dataCh) (hSn : W'.sn = W.sn) : Wiring bufSize W W' []
  | called (r : Rpc k) (hFresh : r.sn = W.sn)
      (hCalls : W'.calls = (W.setCall r.source r.worker (.sent r.sn)).calls)
      (hTransit : W'.transit = W.transit ++ [r])
      (hData : W'.dataCh = W.dataCh) (hSn : W'.sn = W.sn + 1) : Wiring bufSize W W' [.called r]
  | accepted (m : Nat) (r : Rpc k) (hAt : W.transit[m]? = some r)
      (hRoom : (W.dataCh r.dest).length < bufSize)
      (hCalls : W'.calls = (W.answer r).calls) (hTransit : W'.transit = W.transit.eraseIdx m)
      (hData : W'.dataCh = Function.update W.dataCh r.dest (W.dataCh r.dest ++ [r]))
      (hSn : W'.sn = W.sn) : Wiring bufSize W W' [.accepted r]
  | handled (j : Fin k) (r : Rpc k) (rest : List (Rpc k)) (hHead : W.dataCh j = r :: rest)
      (hCalls : W'.calls = W.calls) (hTransit : W'.transit = W.transit)
      (hData : W'.dataCh = Function.update W.dataCh j rest) (hSn : W'.sn = W.sn) :
      Wiring bufSize W W' [.handled r]
  | returned (i : Fin k) (w sn : Nat) (hAnswered : W.calls i w = .answered sn)
      (hCalls : W'.calls = (W.setCall i w .no).calls) (hTransit : W'.transit = W.transit)
      (hData : W'.dataCh = W.dataCh) (hSn : W'.sn = W.sn) : Wiring bufSize W W' [.returned sn]
  | failed (i : Fin k) (w : Nat) (arrives : Bool) (hCalls : W'.calls = (W.setCall i w .no).calls)
      (hTransit : W'.transit =
        if arrives then W.transit else W.transit.filter fun r => W.calls i w ≠ .sent r.sn)
      (hData : W'.dataCh = W.dataCh) (hSn : W'.sn = W.sn) : Wiring bufSize W W' []

theorem wiring_of_wire {C : Codec} {consumers bufSize : Nat} {W W' : Wired k} {m : Wire k}
    (hWire : wire C consumers bufSize W m = some W') : Wiring bufSize W W' (W.event C m) := by
  cases m with
  | within i a =>
    obtain ⟨_, hStep⟩ := Option.ite_none_left_eq_some.mp hWire
    obtain ⟨t, _, rfl⟩ := Option.map_eq_some_iff.mp hStep
    exact .silent rfl rfl rfl rfl
  | call i w j =>
    simp only [wire] at hWire
    cases hPublishes : W.publishes i w with
    | none =>
      rw [hPublishes] at hWire
      cases hWire
    | some e =>
      rw [hPublishes] at hWire
      obtain ⟨_, hWire⟩ := Option.ite_none_right_eq_some.mp hWire
      cases hWire
      simp only [Wired.event, hPublishes, Option.toList_some, List.map_cons, List.map_nil]
      exact .called ⟨W.sn, i, w, j, e.2.toJson C⟩ rfl rfl rfl rfl rfl
  | process m =>
    simp only [wire] at hWire
    cases hAt : W.transit[m]? with
    | none =>
      rw [hAt] at hWire
      cases hWire
    | some r =>
      rw [hAt] at hWire
      obtain ⟨⟨_, hRoom⟩, hWire⟩ := Option.ite_none_right_eq_some.mp hWire
      cases hWire
      simp only [Wired.event, hAt, Option.toList_some, List.map_cons, List.map_nil]
      have hSn : (W.answer r).sn = W.sn := by
        unfold Wired.answer
        split <;> rfl
      exact .accepted m r hAt hRoom rfl rfl rfl hSn
  | reply i w =>
    simp only [wire] at hWire
    cases hCalls : W.calls i w with
    | no | sent _ =>
      rw [hCalls] at hWire
      cases hWire
    | answered sn =>
      rw [hCalls] at hWire
      obtain ⟨_, hWire⟩ := Option.ite_none_left_eq_some.mp hWire
      cases hWire
      simp only [Wired.event, hCalls]
      exact .returned i w sn hCalls rfl rfl rfl rfl
  | fail i w env arrives =>
    simp only [wire] at hWire
    cases hPublishes : W.publishes i w with
    | none =>
      rw [hPublishes] at hWire
      cases hWire
    | some e =>
      rw [hPublishes] at hWire
      obtain ⟨_, hStep⟩ := Option.ite_none_left_eq_some.mp hWire
      obtain ⟨t, _, rfl⟩ := Option.map_eq_some_iff.mp hStep
      exact .failed i w arrives rfl rfl rfl rfl
  | handle j env =>
    simp only [wire] at hWire
    cases hHead : W.dataCh j with
    | nil =>
      rw [hHead] at hWire
      cases hWire
    | cons r rest =>
      rw [hHead] at hWire
      obtain ⟨_, hWire⟩ := Option.ite_none_left_eq_some.mp hWire
      cases hWire
      simp only [Wired.event, hHead, List.take_succ_cons, List.take_zero, List.map_cons, List.map_nil]
      exact .handled j r rest hHead rfl rfl rfl rfl

/-! ## The history and the state it leads to -/

/-- What has happened, and what there is now. -/
structure Logged (bufSize : Nat) (W : Wired k) (log : List (Event k)) : Prop where
  nodup : log.Nodup
  serial : ∀ r, .called r ∈ log → r.sn < W.sn
  unique : ∀ r r', .called r ∈ log → .called r' ∈ log → r.sn = r'.sn → r = r'
  transit : ∀ r ∈ W.transit, .called r ∈ log ∧ .accepted r ∉ log
  transit_nodup : W.transit.Nodup
  sent : ∀ i w sn, W.calls i w = .sent sn → ∃ r ∈ W.transit, r.source = i ∧ r.worker = w ∧ r.sn = sn
  accepted : ∀ r, Caused log [.called r] (.accepted r)
  queued : ∀ j, log.filterMap (Event.acceptedAt j) = log.filterMap (Event.handledAt j) ++ W.dataCh j
  room : ∀ j, (W.dataCh j).length ≤ bufSize
  handled : ∀ r, Caused log [.called r, .accepted r] (.handled r)
  answered : ∀ i w sn, W.calls i w = .answered sn → .returned sn ∉ log ∧
    ∃ r, r.source = i ∧ r.worker = w ∧ r.sn = sn ∧ .accepted r ∈ log
  returned : ∀ sn, .returned sn ∈ log →
    ∃ r, r.sn = sn ∧ [.called r, .accepted r, .returned sn].Sublist log
  ordered : ∀ r r', .called r ∈ log → [.returned r.sn, .called r'].Sublist log → .accepted r' ∈ log →
    [.accepted r, .accepted r'].Sublist log

theorem Event.acceptedAt_dest (r : Rpc k) : (accepted r).acceptedAt r.dest = some r := if_pos rfl

theorem Event.acceptedAt_of_ne {r : Rpc k} {j : Fin k} (h : r.dest ≠ j) :
    (accepted r).acceptedAt j = none := if_neg h

theorem Event.handledAt_dest (r : Rpc k) : (handled r).handledAt r.dest = some r := if_pos rfl

theorem Event.handledAt_of_ne {r : Rpc k} {j : Fin k} (h : r.dest ≠ j) :
    (handled r).handledAt j = none := if_neg h

theorem Event.mem_acceptedAt {log : List (Event k)} {j : Fin k} {r : Rpc k} :
    r ∈ log.filterMap (acceptedAt j) ↔ .accepted r ∈ log ∧ r.dest = j := by
  rw [List.mem_filterMap]
  constructor
  · rintro ⟨e, he, hAt⟩
    cases e with
    | accepted r' =>
      obtain ⟨hDest, hEq⟩ := Option.ite_none_right_eq_some.mp hAt
      cases hEq
      exact ⟨he, hDest⟩
    | called | handled | returned => cases hAt
  · rintro ⟨he, hDest⟩
    exact ⟨.accepted r, he, if_pos hDest⟩

theorem Event.mem_handledAt {log : List (Event k)} {j : Fin k} {r : Rpc k} :
    r ∈ log.filterMap (handledAt j) ↔ .handled r ∈ log ∧ r.dest = j := by
  rw [List.mem_filterMap]
  constructor
  · rintro ⟨e, he, hAt⟩
    cases e with
    | handled r' =>
      obtain ⟨hDest, hEq⟩ := Option.ite_none_right_eq_some.mp hAt
      cases hEq
      exact ⟨he, hDest⟩
    | called | accepted | returned => cases hAt
  · rintro ⟨he, hDest⟩
    exact ⟨.handled r, he, if_pos hDest⟩

/-- An answer is for the call it belongs to, if that one still waits. -/
theorem Wired.calls_answer (W : Wired k) (r : Rpc k) (i : Fin k) (w : Nat) :
    (W.answer r).calls i w = if i = r.source ∧ w = r.worker ∧ W.calls i w = .sent r.sn then
      .answered r.sn else W.calls i w := by
  unfold answer
  by_cases hSent : W.calls r.source r.worker = .sent r.sn
  · rw [if_pos hSent]
    by_cases hOwn : i = r.source ∧ w = r.worker
    · obtain ⟨rfl, rfl⟩ := hOwn
      rw [setCall_self, if_pos ⟨rfl, rfl, hSent⟩]
    · have hNot : ¬(i = r.source ∧ w = r.worker ∧ W.calls i w = .sent r.sn) :=
        fun h => hOwn ⟨h.1, h.2.1⟩
      rw [setCall_of_ne W fun hi hw => hOwn ⟨hi, hw⟩, if_neg hNot]
  · have hNot : ¬(i = r.source ∧ w = r.worker ∧ W.calls i w = .sent r.sn) := by
      rintro ⟨rfl, rfl, h⟩
      exact hSent h
    rw [if_neg hSent, if_neg hNot]

section Step

variable {bufSize : Nat} {W W' : Wired k} {log : List (Event k)} (h : Logged bufSize W log)
include h

theorem Logged.called_of_accepted {r : Rpc k} (hMem : .accepted r ∈ log) : .called r ∈ log :=
  (h.accepted r hMem).subset List.mem_cons_self

theorem Logged.nodup_acceptedAt (j : Fin k) : (log.filterMap (Event.acceptedAt j)).Nodup := by
  refine h.nodup.filterMap ?_
  intro e e' r he he'
  cases e with
  | accepted =>
    cases e' with
    | accepted =>
      obtain ⟨_, hEq⟩ := Option.ite_none_right_eq_some.mp he
      obtain ⟨_, hEq'⟩ := Option.ite_none_right_eq_some.mp he'
      cases hEq
      cases hEq'
      rfl
    | called | handled | returned => cases he'
  | called | handled | returned => cases he

theorem Logged.dest_of_queued {j : Fin k} {r : Rpc k} (hMem : r ∈ W.dataCh j) :
    .accepted r ∈ log ∧ r.dest = j := by
  rw [← Event.mem_acceptedAt, h.queued j]
  exact List.mem_append_right _ hMem

/-- The request a returned call made. -/
theorem Logged.accepted_of_returned {r : Rpc k} (hCalled : .called r ∈ log)
    (hReturned : .returned r.sn ∈ log) : .accepted r ∈ log := by
  obtain ⟨r', hSn, hPast⟩ := h.returned r.sn hReturned
  have hCalled' : .called r' ∈ log := hPast.subset (by simp)
  obtain rfl : r' = r := h.unique r' r hCalled' hCalled hSn
  exact hPast.subset (by simp)

/-- The history of a call that returned stays what it was. -/
theorem Logged.returned_concat {e : Event k} (hNew : ∀ sn, e ≠ .returned sn) (sn : Nat)
    (hMem : .returned sn ∈ log ++ [e]) :
    ∃ r, r.sn = sn ∧ [.called r, .accepted r, .returned sn].Sublist (log ++ [e]) := by
  have hOld : .returned sn ∈ log := by
    rcases List.mem_append.mp hMem with hOld | hLast
    · exact hOld
    · exact absurd (List.mem_singleton.mp hLast).symm (hNew sn)
  obtain ⟨r, hSn, hPast⟩ := h.returned sn hOld
  exact ⟨r, hSn, hPast.trans (List.sublist_append_left log [e])⟩

/-- Only a call and a request taken say something about the order. -/
theorem Logged.ordered_concat {e : Event k} (hCalled : ∀ r, e ≠ .called r)
    (hAccepted : ∀ r, e ≠ .accepted r) (r r' : Rpc k) (hMem : .called r ∈ log ++ [e])
    (hBefore : [.returned r.sn, .called r'].Sublist (log ++ [e])) (hMem' : .accepted r' ∈ log ++ [e]) :
    [.accepted r, .accepted r'].Sublist (log ++ [e]) := by
  have hOld : ∀ {x : Event k}, x ≠ e → x ∈ log ++ [e] → x ∈ log := by
    intro x hne hx
    exact (List.mem_append.mp hx).resolve_right fun hLast => hne (List.mem_singleton.mp hLast)
  have hBeforeOld : [.returned r.sn, .called r'].Sublist log := by
    rcases pair_concat_iff.mp hBefore with hOld | ⟨_, hEq⟩
    · exact hOld
    · exact absurd hEq.symm (hCalled r')
  exact (h.ordered r r' (hOld (hCalled r).symm hMem) hBeforeOld (hOld (hAccepted r').symm hMem')).trans
    (List.sublist_append_left log [e])

theorem Logged.queued_concat {e : Event k} {j : Fin k} (hAccepted : e.acceptedAt j = none)
    (hHandled : e.handledAt j = none) :
    (log ++ [e]).filterMap (Event.acceptedAt j) =
      (log ++ [e]).filterMap (Event.handledAt j) ++ W.dataCh j := by
  rw [List.filterMap_append, List.filterMap_append, List.filterMap_cons_none hAccepted,
    List.filterMap_cons_none hHandled, List.filterMap_nil, List.filterMap_nil, List.append_nil,
    List.append_nil, h.queued j]

theorem Logged.silent (hCalls : W'.calls = W.calls) (hTransit : W'.transit = W.transit)
    (hData : W'.dataCh = W.dataCh) (hSn : W'.sn = W.sn) : Logged bufSize W' log :=
  { h with
    serial := hSn ▸ h.serial
    transit := hTransit ▸ h.transit
    transit_nodup := hTransit ▸ h.transit_nodup
    sent := by
      rw [hCalls, hTransit]
      exact h.sent
    queued := hData ▸ h.queued
    room := hData ▸ h.room
    answered := hCalls ▸ h.answered }

theorem Logged.call {r : Rpc k} (hFresh : r.sn = W.sn)
    (hCalls : W'.calls = (W.setCall r.source r.worker (.sent r.sn)).calls)
    (hTransit : W'.transit = W.transit ++ [r]) (hData : W'.dataCh = W.dataCh) (hSn : W'.sn = W.sn + 1) :
    Logged bufSize W' (log ++ [.called r]) := by
  have hNew : .called r ∉ log := by
    intro hMem
    exact absurd (h.serial r hMem) (by omega)
  have hNotAccepted : .accepted r ∉ log := fun hMem => hNew (h.called_of_accepted hMem)
  constructor
  case nodup => exact List.nodup_append_comm.mp (List.nodup_cons.mpr ⟨hNew, h.nodup⟩)
  case serial =>
    intro r' hMem
    rcases List.mem_append.mp hMem with hOld | hLast
    · have hLt := h.serial r' hOld
      omega
    · cases List.mem_singleton.mp hLast
      omega
  case unique =>
    intro r₁ r₂ h₁ h₂ hEq
    rcases List.mem_append.mp h₁ with hOld₁ | hLast₁ <;> rcases List.mem_append.mp h₂ with hOld₂ | hLast₂
    · exact h.unique r₁ r₂ hOld₁ hOld₂ hEq
    · cases List.mem_singleton.mp hLast₂
      have hLt := h.serial r₁ hOld₁
      omega
    · cases List.mem_singleton.mp hLast₁
      have hLt := h.serial r₂ hOld₂
      omega
    · cases List.mem_singleton.mp hLast₁
      cases List.mem_singleton.mp hLast₂
      rfl
  case transit =>
    intro r' hMem
    rw [hTransit] at hMem
    rcases List.mem_append.mp hMem with hOld | hLast
    · obtain ⟨hCalled, hNot⟩ := h.transit r' hOld
      exact ⟨List.mem_append_left _ hCalled, by simpa using hNot⟩
    · cases List.mem_singleton.mp hLast
      exact ⟨List.mem_append_right _ (List.mem_singleton_self _), by simpa using hNotAccepted⟩
  case transit_nodup =>
    rw [hTransit]
    exact List.nodup_append_comm.mp (List.nodup_cons.mpr ⟨fun hMem => hNew (h.transit r hMem).1,
      h.transit_nodup⟩)
  case sent =>
    intro i w sn hSent
    rw [hCalls] at hSent
    rw [hTransit]
    by_cases hOwn : i = r.source ∧ w = r.worker
    · obtain ⟨rfl, rfl⟩ := hOwn
      rw [Wired.setCall_self] at hSent
      cases hSent
      exact ⟨r, List.mem_append_right _ (List.mem_singleton_self r), rfl, rfl, rfl⟩
    · rw [Wired.setCall_of_ne W (fun hi hw => hOwn ⟨hi, hw⟩)] at hSent
      obtain ⟨r', hMem, hRest⟩ := h.sent i w sn hSent
      exact ⟨r', List.mem_append_left _ hMem, hRest⟩
  case accepted => exact fun r' => (h.accepted r').concat nofun
  case queued =>
    rw [hData]
    exact fun j => h.queued_concat rfl rfl
  case room => exact hData ▸ h.room
  case handled => exact fun r' => (h.handled r').concat nofun
  case answered =>
    intro i w sn hAnswered
    rw [hCalls] at hAnswered
    have hOther : i = r.source → w ≠ r.worker := by
      rintro rfl rfl
      rw [Wired.setCall_self] at hAnswered
      cases hAnswered
    rw [Wired.setCall_of_ne W hOther] at hAnswered
    obtain ⟨hNot, r', hSource, hWorker, hSn', hMem⟩ := h.answered i w sn hAnswered
    exact ⟨by simpa using hNot, r', hSource, hWorker, hSn', List.mem_append_left _ hMem⟩
  case returned => exact h.returned_concat nofun
  case ordered =>
    intro r₁ r₂ hCalled hBefore hMem
    have hAccepted : .accepted r₂ ∈ log := by simpa using hMem
    have hBeforeOld : [.returned r₁.sn, .called r₂].Sublist log := by
      rcases pair_concat_iff.mp hBefore with hBefore | ⟨_, hEq⟩
      · exact hBefore
      · cases hEq
        exact absurd hAccepted hNotAccepted
    -- no call has returned with the number of the new one
    have hCalledOld : .called r₁ ∈ log := by
      rcases List.mem_append.mp hCalled with hOld | hLast
      · exact hOld
      · cases List.mem_singleton.mp hLast
        obtain ⟨r', hEq, hPast⟩ := h.returned r.sn (hBeforeOld.subset List.mem_cons_self)
        have hLt := h.serial r' (hPast.subset List.mem_cons_self)
        omega
    exact (h.ordered r₁ r₂ hCalledOld hBeforeOld hAccepted).trans (List.sublist_append_left log _)

theorem Logged.accept {m : Nat} {r : Rpc k} (hAt : W.transit[m]? = some r)
    (hRoom : (W.dataCh r.dest).length < bufSize) (hCalls : W'.calls = (W.answer r).calls)
    (hTransit : W'.transit = W.transit.eraseIdx m)
    (hData : W'.dataCh = Function.update W.dataCh r.dest (W.dataCh r.dest ++ [r])) (hSn : W'.sn = W.sn) :
    Logged bufSize W' (log ++ [.accepted r]) := by
  obtain ⟨hCalled, hNew⟩ := h.transit r (List.mem_of_getElem? hAt)
  have hOld : ∀ {r'}, .called r' ∈ log ++ [Event.accepted r] → .called r' ∈ log := by
    intro r' hMem
    simpa using hMem
  have hErase : (r :: W.transit.eraseIdx m).Perm W.transit := by
    obtain ⟨hm, rfl⟩ := List.getElem?_eq_some_iff.mp hAt
    exact List.getElem_cons_eraseIdx_perm hm
  have hGone : r ∉ W.transit.eraseIdx m := (List.nodup_cons.mp (hErase.nodup_iff.mpr h.transit_nodup)).1
  constructor
  case nodup => exact List.nodup_append_comm.mp (List.nodup_cons.mpr ⟨hNew, h.nodup⟩)
  case serial => exact fun r' hMem => hSn ▸ h.serial r' (hOld hMem)
  case unique => exact fun r₁ r₂ h₁ h₂ => h.unique r₁ r₂ (hOld h₁) (hOld h₂)
  case transit =>
    intro r' hMem
    rw [hTransit] at hMem
    have hne : r' ≠ r := fun hEq => hGone (hEq ▸ hMem)
    obtain ⟨hCalled, hNot⟩ := h.transit r' (List.mem_of_mem_eraseIdx hMem)
    exact ⟨List.mem_append_left _ hCalled, by simpa using ⟨hNot, hne⟩⟩
  case transit_nodup =>
    rw [hTransit]
    exact h.transit_nodup.sublist (List.eraseIdx_sublist ..)
  case sent =>
    intro i w sn hSent
    rw [hCalls, Wired.calls_answer] at hSent
    rw [hTransit]
    have hOther : ¬(i = r.source ∧ w = r.worker ∧ W.calls i w = .sent r.sn) := by
      intro hOwn
      rw [if_pos hOwn] at hSent
      cases hSent
    rw [if_neg hOther] at hSent
    obtain ⟨r', hMem, rfl, rfl, rfl⟩ := h.sent i w sn hSent
    rcases List.mem_cons.mp (hErase.mem_iff.mpr hMem) with rfl | hMem
    · exact absurd ⟨rfl, rfl, hSent⟩ hOther
    · exact ⟨r', hMem, rfl, rfl, rfl⟩
  case accepted =>
    intro r'
    refine (h.accepted r').concat fun hEq => ?_
    cases hEq
    exact List.singleton_sublist.mpr hCalled
  case queued =>
    intro j
    rw [List.filterMap_append, List.filterMap_append, hData, h.queued j,
      List.filterMap_cons_none (rfl : (Event.accepted r).handledAt j = none), List.filterMap_nil,
      List.append_nil, List.append_assoc]
    rcases eq_or_ne j r.dest with rfl | hne
    · rw [Function.update_self, List.filterMap_cons_some (Event.acceptedAt_dest r), List.filterMap_nil]
    · rw [Function.update_of_ne hne, List.filterMap_cons_none (Event.acceptedAt_of_ne hne.symm),
        List.filterMap_nil, List.append_nil]
  case room =>
    intro j
    rw [hData]
    rcases eq_or_ne j r.dest with rfl | hne
    · rw [Function.update_self, List.length_append]
      exact hRoom
    · rw [Function.update_of_ne hne]
      exact h.room j
  case handled => exact fun r' => (h.handled r').concat nofun
  case answered =>
    intro i w sn hAnswered
    rw [hCalls, Wired.calls_answer] at hAnswered
    by_cases hOwn : i = r.source ∧ w = r.worker ∧ W.calls i w = .sent r.sn
    · rw [if_pos hOwn] at hAnswered
      cases hAnswered
      have hNot : .returned r.sn ∉ log := fun hMem => hNew (h.accepted_of_returned hCalled hMem)
      exact ⟨by simpa using hNot, r, hOwn.1.symm, hOwn.2.1.symm, rfl,
        List.mem_append_right _ (List.mem_singleton_self _)⟩
    · rw [if_neg hOwn] at hAnswered
      obtain ⟨hNot, r', hSource, hWorker, hSn', hMem⟩ := h.answered i w sn hAnswered
      exact ⟨by simpa using hNot, r', hSource, hWorker, hSn', List.mem_append_left _ hMem⟩
  case returned => exact h.returned_concat nofun
  case ordered =>
    intro r₁ r₂ hMem₁ hBefore hMem₂
    have hBeforeOld : [.returned r₁.sn, .called r₂].Sublist log := by
      rcases pair_concat_iff.mp hBefore with hBefore | ⟨_, hEq⟩
      · exact hBefore
      · cases hEq
    rcases List.mem_append.mp hMem₂ with hOld₂ | hLast₂
    · exact (h.ordered r₁ r₂ (hOld hMem₁) hBeforeOld hOld₂).trans (List.sublist_append_left log _)
    · cases List.mem_singleton.mp hLast₂
      have hReturned := hBeforeOld.subset List.mem_cons_self
      exact pair_concat_iff.mpr (.inr ⟨h.accepted_of_returned (hOld hMem₁) hReturned, rfl⟩)

theorem Logged.handle {j : Fin k} {r : Rpc k} {rest : List (Rpc k)} (hHead : W.dataCh j = r :: rest)
    (hCalls : W'.calls = W.calls) (hTransit : W'.transit = W.transit)
    (hData : W'.dataCh = Function.update W.dataCh j rest) (hSn : W'.sn = W.sn) :
    Logged bufSize W' (log ++ [.handled r]) := by
  have hHere : r ∈ W.dataCh j := hHead ▸ List.mem_cons_self
  obtain ⟨hAccepted, rfl⟩ := h.dest_of_queued hHere
  have hNew : .handled r ∉ log := by
    intro hMem
    have hNodup := h.nodup_acceptedAt r.dest
    rw [h.queued r.dest] at hNodup
    exact (List.nodup_append.mp hNodup).2.2 r (Event.mem_handledAt.mpr ⟨hMem, rfl⟩) r hHere rfl
  have hOld : ∀ {e}, e ∈ log ++ [Event.handled r] → (∀ r', e ≠ .handled r') → e ∈ log := by
    intro e hMem hne
    exact (List.mem_append.mp hMem).resolve_right fun hLast => hne r (List.mem_singleton.mp hLast)
  constructor
  case nodup => exact List.nodup_append_comm.mp (List.nodup_cons.mpr ⟨hNew, h.nodup⟩)
  case serial => exact fun r' hMem => hSn ▸ h.serial r' (hOld hMem nofun)
  case unique => exact fun r₁ r₂ h₁ h₂ => h.unique r₁ r₂ (hOld h₁ nofun) (hOld h₂ nofun)
  case transit =>
    rw [hTransit]
    intro r' hMem
    obtain ⟨hCalled, hNot⟩ := h.transit r' hMem
    exact ⟨List.mem_append_left _ hCalled, fun hMem => hNot (hOld hMem nofun)⟩
  case transit_nodup => exact hTransit ▸ h.transit_nodup
  case sent =>
    rw [hCalls, hTransit]
    exact h.sent
  case accepted => exact fun r' => (h.accepted r').concat nofun
  case queued =>
    intro i
    rw [List.filterMap_append, List.filterMap_append, hData, h.queued i,
      List.filterMap_cons_none (rfl : (Event.handled r).acceptedAt i = none), List.filterMap_nil,
      List.append_nil]
    rcases eq_or_ne i r.dest with rfl | hne
    · rw [Function.update_self, List.filterMap_cons_some (Event.handledAt_dest r), List.filterMap_nil,
        hHead, List.append_assoc, List.singleton_append]
    · rw [Function.update_of_ne hne, List.filterMap_cons_none (Event.handledAt_of_ne hne.symm),
        List.filterMap_nil, List.append_nil]
  case room =>
    intro i
    rw [hData]
    rcases eq_or_ne i r.dest with rfl | hne
    · have hLength := h.room r.dest
      rw [hHead, List.length_cons] at hLength
      rw [Function.update_self]
      omega
    · rw [Function.update_of_ne hne]
      exact h.room i
  case handled =>
    intro r'
    refine (h.handled r').concat fun hEq => ?_
    cases hEq
    exact h.accepted r hAccepted
  case answered =>
    rw [hCalls]
    intro i w sn hAnswered
    obtain ⟨hNot, r', hSource, hWorker, hSn', hMem⟩ := h.answered i w sn hAnswered
    exact ⟨fun hMem => hNot (hOld hMem nofun), r', hSource, hWorker, hSn', List.mem_append_left _ hMem⟩
  case returned => exact h.returned_concat nofun
  case ordered => exact h.ordered_concat nofun nofun

theorem Logged.reply {i : Fin k} {w sn : Nat} (hAnswered : W.calls i w = .answered sn)
    (hCalls : W'.calls = (W.setCall i w .no).calls) (hTransit : W'.transit = W.transit)
    (hData : W'.dataCh = W.dataCh) (hSn : W'.sn = W.sn) : Logged bufSize W' (log ++ [.returned sn]) := by
  obtain ⟨hNew, r, rfl, rfl, rfl, hAccepted⟩ := h.answered i w sn hAnswered
  have hOld : ∀ {e}, e ∈ log ++ [Event.returned r.sn] → (∀ sn, e ≠ .returned sn) → e ∈ log := by
    intro e hMem hne
    exact (List.mem_append.mp hMem).resolve_right fun hLast => hne r.sn (List.mem_singleton.mp hLast)
  have hOther : ∀ {l v}, (W.setCall r.source r.worker .no).calls l v ≠ .no →
      ¬(l = r.source ∧ v = r.worker) ∧ (W.setCall r.source r.worker .no).calls l v = W.calls l v := by
    intro l v hBusy
    have hne : ¬(l = r.source ∧ v = r.worker) := by
      rintro ⟨rfl, rfl⟩
      exact hBusy (Wired.setCall_self ..)
    exact ⟨hne, Wired.setCall_of_ne W (fun hl hv => hne ⟨hl, hv⟩) _⟩
  constructor
  case nodup => exact List.nodup_append_comm.mp (List.nodup_cons.mpr ⟨hNew, h.nodup⟩)
  case serial => exact fun r' hMem => hSn ▸ h.serial r' (hOld hMem nofun)
  case unique => exact fun r₁ r₂ h₁ h₂ => h.unique r₁ r₂ (hOld h₁ nofun) (hOld h₂ nofun)
  case transit =>
    rw [hTransit]
    intro r' hMem
    obtain ⟨hCalled, hNot⟩ := h.transit r' hMem
    exact ⟨List.mem_append_left _ hCalled, fun hMem => hNot (hOld hMem nofun)⟩
  case transit_nodup => exact hTransit ▸ h.transit_nodup
  case sent =>
    rw [hCalls, hTransit]
    intro l v sn hSent
    rw [(hOther (by rw [hSent]; nofun)).2] at hSent
    exact h.sent l v sn hSent
  case accepted => exact fun r' => (h.accepted r').concat nofun
  case queued =>
    rw [hData]
    exact fun j => h.queued_concat rfl rfl
  case room => exact hData ▸ h.room
  case handled => exact fun r' => (h.handled r').concat nofun
  case answered =>
    rw [hCalls]
    intro l v sn hAnswered'
    obtain ⟨hne, hSame⟩ := hOther (by rw [hAnswered']; nofun)
    rw [hSame] at hAnswered'
    obtain ⟨hNot, r', rfl, rfl, rfl, hMem⟩ := h.answered l v sn hAnswered'
    refine ⟨?_, r', rfl, rfl, rfl, List.mem_append_left _ hMem⟩
    intro hReturned
    rcases List.mem_append.mp hReturned with hReturned | hLast
    · exact hNot hReturned
    · -- two workers do not wait for one request
      have hEq : r'.sn = r.sn := Event.returned.inj (List.mem_singleton.mp hLast)
      obtain rfl := h.unique r' r (h.called_of_accepted hMem) (h.called_of_accepted hAccepted) hEq
      exact hne ⟨rfl, rfl⟩
  case returned =>
    intro sn hMem
    rcases List.mem_append.mp hMem with hOld | hLast
    · obtain ⟨r', hEq, hPast⟩ := h.returned sn hOld
      exact ⟨r', hEq, hPast.trans (List.sublist_append_left log _)⟩
    · cases List.mem_singleton.mp hLast
      exact ⟨r, rfl, (h.accepted r hAccepted).append (List.Sublist.refl [Event.returned r.sn])⟩
  case ordered => exact h.ordered_concat nofun nofun

theorem Logged.fail {i : Fin k} {w : Nat} {arrives : Bool} (hCalls : W'.calls = (W.setCall i w .no).calls)
    (hTransit : W'.transit =
      if arrives then W.transit else W.transit.filter fun r => W.calls i w ≠ .sent r.sn)
    (hData : W'.dataCh = W.dataCh) (hSn : W'.sn = W.sn) : Logged bufSize W' log := by
  have hOther : ∀ {l v}, (W.setCall i w .no).calls l v ≠ .no →
      ¬(l = i ∧ v = w) ∧ (W.setCall i w .no).calls l v = W.calls l v := by
    intro l v hBusy
    have hne : ¬(l = i ∧ v = w) := by
      rintro ⟨rfl, rfl⟩
      exact hBusy (Wired.setCall_self ..)
    exact ⟨hne, Wired.setCall_of_ne W (fun hl hv => hne ⟨hl, hv⟩) _⟩
  have hSublist : W'.transit.Sublist W.transit := by
    rw [hTransit]
    cases arrives with
    | true => exact List.Sublist.refl _
    | false => exact List.filter_sublist
  refine { h with
    serial := hSn ▸ h.serial
    transit := fun r hMem => h.transit r (hSublist.subset hMem)
    transit_nodup := h.transit_nodup.sublist hSublist
    sent := ?_
    queued := hData ▸ h.queued
    room := hData ▸ h.room
    answered := ?_ }
  · rw [hCalls, hTransit]
    intro l v sn hSent
    obtain ⟨hne, hSame⟩ := hOther (by rw [hSent]; nofun)
    rw [hSame] at hSent
    obtain ⟨r, hMem, rfl, rfl, rfl⟩ := h.sent l v sn hSent
    refine ⟨r, ?_, rfl, rfl, rfl⟩
    cases arrives with
    | true => exact hMem
    | false =>
      refine List.mem_filter.mpr ⟨hMem, decide_eq_true ?_⟩
      intro hOwn
      obtain ⟨r', hMem', rfl, rfl, hEq⟩ := h.sent i w r.sn hOwn
      obtain rfl := h.unique r' r (h.transit r' hMem').1 (h.transit r hMem).1 hEq
      exact hne ⟨rfl, rfl⟩
  · rw [hCalls]
    intro l v sn hAnswered
    rw [(hOther (by rw [hAnswered]; nofun)).2] at hAnswered
    exact h.answered l v sn hAnswered

theorem Logged.next {es : List (Event k)} (hWiring : Wiring bufSize W W' es) :
    Logged bufSize W' (log ++ es) := by
  cases hWiring with
  | silent hCalls hTransit hData hSn =>
    rw [List.append_nil]
    exact h.silent hCalls hTransit hData hSn
  | called r hFresh hCalls hTransit hData hSn => exact h.call hFresh hCalls hTransit hData hSn
  | accepted m r hAt hRoom hCalls hTransit hData hSn =>
    exact h.accept hAt hRoom hCalls hTransit hData hSn
  | handled j r rest hHead hCalls hTransit hData hSn => exact h.handle hHead hCalls hTransit hData hSn
  | returned i w sn hAnswered hCalls hTransit hData hSn =>
    exact h.reply hAnswered hCalls hTransit hData hSn
  | failed i w arrives hCalls hTransit hData hSn =>
    rw [List.append_nil]
    exact h.fail hCalls hTransit hData hSn

end Step

theorem logged_start (bufSize : Nat) (S : Cluster k) : Logged bufSize (Wired.ofNodes S) [] where
  nodup := List.nodup_nil
  serial := nofun
  unique := nofun
  transit := nofun
  transit_nodup := List.nodup_nil
  sent := nofun
  accepted := nofun
  queued _ := rfl
  room _ := Nat.zero_le _
  handled := nofun
  answered := nofun
  returned := nofun
  ordered := nofun

theorem logged_run {C : Codec} {consumers bufSize : Nat} {S : Cluster k} {ms : List (Wire k)}
    {W : Wired k} (hRun : run (wire C consumers bufSize) (Wired.ofNodes S) ms = some W) :
    Logged bufSize W (history C consumers bufSize S ms) := by
  refine run_induction (P := fun ms W => Logged bufSize W (history C consumers bufSize S ms))
    (logged_start bufSize S) ?_ hRun
  intro ms W m W' hRun h hWire
  unfold history at h ⊢
  rw [collect_snoc hRun]
  exact h.next (wiring_of_wire hWire)

/-- Requests handled one before the other, if the call of one returned before that of the other
was made. -/
theorem Logged.handled_in_order {bufSize : Nat} {W : Wired k} {log : List (Event k)}
    (h : Logged bufSize W log) {r r' : Rpc k} (hCalled : .called r ∈ log)
    (hBefore : [.returned r.sn, .called r'].Sublist log) (hDest : r.dest = r'.dest)
    (hHandled : .handled r' ∈ log) : [.handled r, .handled r'].Sublist log := by
  have hAccepted' : .accepted r' ∈ log := (h.handled r' hHandled).subset (by simp)
  have hOrder := h.ordered r r' hCalled hBefore hAccepted'
  have hTaken : [r, r'].Sublist (log.filterMap (Event.acceptedAt r.dest)) := by
    have hMap := hOrder.filterMap (Event.acceptedAt r.dest)
    simpa [Event.acceptedAt, hDest] using hMap
  have hNodup := h.nodup_acceptedAt r.dest
  rw [h.queued] at hTaken hNodup
  have hMem : r' ∈ log.filterMap (Event.handledAt r.dest) := Event.mem_handledAt.mpr ⟨hHandled, hDest.symm⟩
  have hLeft := pair_left_of_notMem hTaken fun hQueued =>
    (List.nodup_append.mp hNodup).2.2 r' hMem r' hQueued rfl
  obtain ⟨e, e', he, he', hPair⟩ := pair_of_filterMap hLeft
  have hEvent : ∀ {e : Event k} {r₀ : Rpc k}, e.handledAt r.dest = some r₀ → e = .handled r₀ := by
    intro e r₀ he
    cases e with
    | handled r₁ =>
      obtain ⟨_, hEq⟩ := Option.ite_none_right_eq_some.mp he
      rw [Option.some.inj hEq]
    | called | accepted | returned => cases he
  rwa [hEvent he, hEvent he'] at hPair

/-- Calls that fail at any time and nodes that crash do not change this: no request is made,
taken, handled or answered twice; what is handled was made and then taken, and so was that of a
call that returned; a data channel holds what was taken and not handled, in that order, and never
more than fits; and of two calls to a node of which one was made after the other had returned, the
requests are handled in this order. -/
theorem calls_exactly_once (C : Codec) (consumers bufSize : Nat) (S : Cluster k) {ms : List (Wire k)}
    {W : Wired k} (hRun : run (wire C consumers bufSize) (Wired.ofNodes S) ms = some W) :
    let log := history C consumers bufSize S ms
    log.Nodup ∧
      (∀ r, .handled r ∈ log → [.called r, .accepted r, .handled r].Sublist log) ∧
      (∀ sn, .returned sn ∈ log →
        ∃ r, r.sn = sn ∧ [.called r, .accepted r, .returned sn].Sublist log) ∧
      (∀ j, log.filterMap (Event.acceptedAt j) =
          log.filterMap (Event.handledAt j) ++ W.dataCh j ∧ (W.dataCh j).length ≤ bufSize) ∧
      (∀ r r', .called r ∈ log → .called r' ∈ log → r.sn = r'.sn → r = r') ∧
      ∀ r r', .called r ∈ log → [.returned r.sn, .called r'].Sublist log → r.dest = r'.dest →
        .handled r' ∈ log → [.handled r, .handled r'].Sublist log := by
  intro log
  have h : Logged bufSize W log := logged_run hRun
  exact ⟨h.nodup, h.handled, h.returned, fun j => ⟨h.queued j, h.room j⟩, h.unique,
    fun r r' hCalled hBefore hDest => h.handled_in_order hCalled hBefore hDest⟩

theorem calls_exactly_once_bob : ∃ r W,
    run (wire PlainJson.codec 20 20000) (Wired.ofNodes (twoNodes [seat "n2:4281" "b2" "bob@x"]))
        aliceCalls = some W ∧ r.dest = 1 ∧
      [.called r, .accepted r, .handled r].Sublist
        (history PlainJson.codec 20 20000 (twoNodes [seat "n2:4281" "b2" "bob@x"]) aliceCalls) := by
  have hExists : ∃ W, run (wire PlainJson.codec 20 20000)
      (Wired.ofNodes (twoNodes [seat "n2:4281" "b2" "bob@x"])) aliceCalls = some W ∧
      W.transit = [] := exists_run (by decide +kernel)
  obtain ⟨W, hRun, _⟩ := hExists
  have hSome : (history PlainJson.codec 20 20000 (twoNodes [seat "n2:4281" "b2" "bob@x"])
      aliceCalls).filterMap (Event.handledAt 1) ≠ [] := by decide +kernel
  obtain ⟨r, hMem⟩ := List.exists_mem_of_ne_nil _ hSome
  obtain ⟨hHandled, hDest⟩ := Event.mem_handledAt.mp hMem
  have hOnce := calls_exactly_once PlainJson.codec 20 20000 _ hRun
  exact ⟨r, W, hRun, hDest, hOnce.2.1 r hHandled⟩

/-! ## Nothing waits for ever -/

/-- The steps that are left to do for what is on its way. -/
def Wired.load (W : Wired k) : Nat := 2 * W.transit.length + ∑ j, (W.dataCh j).length

section Drain

variable (C : Codec) (consumers : Nat) {bufSize : Nat} {W : Wired k}

end Drain

end Concurrent

end Sara
