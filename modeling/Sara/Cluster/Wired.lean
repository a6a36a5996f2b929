import Sara.Cluster.Blind
import Sara.Cluster.Direct
import Sara.Cluster.Shared

/-! # Calls between the nodes

A worker publishes to another node by a call: the request travels to the server there,
which puts its content into the data channel of its node, waits for room if there is
none, and answers. The worker goes on only when the answer is there or the call has
failed, and stores the packet in that case; a request may still arrive then. The
messages in a data channel are handled one after the other.

As long as no call fails after its request has arrived, the nodes cannot tell this
from a network that takes a message at once and delivers it some time later.
-/

namespace Sara

open Lib Lib.Prog Lib.Transition Saradb Concurrent
open scoped BigOperators

set_option autoImplicit false

namespace Concurrent

/-- One request of the RPC client, with the worker that waits for the answer. -/
structure Rpc (k : Nat) where
  sn : Nat
  source : Fin k
  worker : Nat
  dest : Fin k
  content : Bytes
deriving DecidableEq

/-- A worker's call: none, one without an answer yet, one whose answer was sent. -/
inductive Calling where
  | no
  | sent (sn : Nat)
  | answered (sn : Nat)
deriving DecidableEq

/-- The nodes, the calls of their workers, the requests that have not arrived, and the data
channels with the requests their messages came in. -/
structure Wired (k : Nat) where
  nodes : Cluster k
  calls : Fin k → Nat → Calling
  transit : List (Rpc k)
  dataCh : Fin k → List (Rpc k)
  sn : Nat

inductive Wire (k : Nat) where
  | within (i : Fin k) (a : Action)
  | call (i : Fin k) (w : Nat) (j : Fin k)
  | process (m : Nat)
  | reply (i : Fin k) (w : Nat)
  | fail (i : Fin k) (w : Nat) (env : Env) (arrives : Bool)
  | handle (j : Fin k) (env : Env)

namespace Wired

variable {k : Nat}

def ofNodes (S : Cluster k) : Wired k where
  nodes := S
  calls _ _ := .no
  transit := []
  dataCh _ := []
  sn := 0

def publishes (W : Wired k) (i : Fin k) (w : Nat) : Option (Bytes × Packet) :=
  ((W.nodes i).hands w).publishes (W.nodes i).node.channel

/-- A worker at a call takes part in nothing else. -/
def blocks (W : Wired k) (i : Fin k) : Action → Bool
  | .work w _ => (W.publishes i w).isSome
  | _ => false

/-- What node `i` does to the store, it does to that of all. -/
def setNode (W : Wired k) (i : Fin k) (t : System) : Wired k :=
  { W with nodes := fun j => (Function.update W.nodes i t j).setStore t.node.db.store }

def setCall (W : Wired k) (i : Fin k) (w : Nat) (c : Calling) : Wired k :=
  { W with calls := Function.update W.calls i (Function.update (W.calls i) w c) }

def answer (W : Wired k) (r : Rpc k) : Wired k :=
  if W.calls r.source r.worker = .sent r.sn then W.setCall r.source r.worker (.answered r.sn) else W

end Wired

variable (C : Codec) (consumers bufSize : Nat) {k : Nat}

def wire (W : Wired k) : Wire k → Option (Wired k)
  | .within i a =>
    if W.blocks i a then none else (step C consumers (W.nodes i) a).map (W.setNode i)
  | .call i w j =>
    match W.publishes i w with
    | none => none
    | some (channel, packet) =>
      if channel = (W.nodes j).node.channel ∧ W.calls i w = .no ∧ (W.nodes i).crashed = false then
        some { W.setCall i w (.sent W.sn) with
          transit := W.transit ++ [⟨W.sn, i, w, j, packet.toJson C⟩]
          sn := W.sn + 1 }
      else none
  | .process m =>
    match W.transit[m]? with
    | none => none
    | some r =>
      if (W.nodes r.dest).crashed = false ∧ (W.dataCh r.dest).length < bufSize then
        some { W.answer r with
          transit := W.transit.eraseIdx m
          dataCh := Function.update W.dataCh r.dest (W.dataCh r.dest ++ [r]) }
      else none
  | .reply i w =>
    match W.calls i w with
    | .no | .sent _ => none
    | .answered _ =>
      if (W.nodes i).crashed then none
      else some { W.setCall i w .no with
        nodes := Function.update W.nodes i { W.nodes i with
          hands := Function.update (W.nodes i).hands w .free } }
  | .fail i w env arrives =>
    match W.publishes i w with
    | none => none
    | some (channel, _) =>
      if env.publish channel then none
      else (step C consumers (W.nodes i) (.work w env)).map fun t =>
        { (W.setNode i t).setCall i w .no with
          transit := if arrives then W.transit else W.transit.filter fun r => W.calls i w ≠ .sent r.sn }
  | .handle j env =>
    match W.dataCh j with
    | [] => none
    | r :: rest =>
      if (W.nodes j).crashed then none
      else some { W.setNode j ((W.nodes j).handle (dataChannelHandler C r.content env)) with
        dataCh := Function.update W.dataCh j rest }

/-- A call fails only if its request does not arrive, and requests of a node that is gone do not. -/
def Clean (W : Wired k) : Wire k → Prop
  | .process m => ∀ r ∈ W.transit[m]?, (W.nodes r.source).crashed = false
  | .fail i w _ arrives => arrives = false ∧ ∀ sn, W.calls i w ≠ .answered sn
  | .within _ _ | .call _ _ _ | .reply _ _ | .handle _ _ => True

/-! ## What a step of a node leaves alone -/

section Step

variable {C consumers} {s t : System} {a : Action}

theorem channel_step (hStep : step C consumers s a = some t) : t.node.channel = s.node.channel := by
  have hGrows : ∀ {n n' : Node}, Grows (fun _ => False) n n' → n'.channel = n.channel :=
    fun h => h.channel
  cases stepped_of_step C hStep with
  | connect | register | clean | take | dtake | dexec => rfl
  | recv x i =>
    rw [session_node]
    refine hGrows (permits_grows.begin fun packet _ _ _ _ _ => ?_)
    exact serverAck_keeps grows_send (fun _ _ _ => .updateSession fun hFalse => hFalse.elim) x packet s.node
  | go x env =>
    rw [session_node]
    exact hGrows (grows_next fun hFalse => hFalse.elim)
  | close x env => exact hGrows (grows_closeSession x env s.node)
  | work w env =>
    rw [worker_node]
    exact hGrows (grows_work env _ s.node)

/-- Only its own steps change what a worker holds. -/
theorem hands_step (hStep : step C consumers s a = some t) {w : Nat} (hBusy : s.hands w ≠ .free)
    (hOther : ∀ env, a ≠ .work w env) : t.hands w = s.hands w := by
  have hSession : ∀ x m, (s.session x m).hands = s.hands := by
    intro x m
    unfold System.session
    cases m s.node with
    | done pc n => rfl
    | panic n => rfl
  cases stepped_of_step C hStep with
  | connect | register | clean | close | dtake | dexec => rfl
  | recv x i => rw [hSession]
  | go x env => rw [hSession]
  | take w' it rest hRouter hWorker hFree =>
    have hne : w ≠ w' := by
      rintro rfl
      exact hBusy hFree
    exact Function.update_of_ne hne ..
  | work w' env =>
    have hne : w ≠ w' := by
      rintro rfl
      exact hOther env rfl
    unfold System.worker
    cases Concurrent.work C env (s.hands w') s.node with
    | done hand n => exact Function.update_of_ne hne ..
    | panic n => rfl

theorem Hand.not_free_of_publishes {channel : Bytes} {hand : Hand} {e : Bytes × Packet}
    (h : hand.publishes channel = some e) : hand ≠ .free := by
  rintro rfl
  cases h

end Step

/-! ## The two levels -/

def Wired.freed (W : Wired k) (i : Fin k) (w : Nat) : Bool :=
  match W.calls i w with
  | .answered _ => true
  | .no | .sent _ => false

def sentTo (channel content : Bytes) (e : Bytes × Packet) : Bool :=
  e.1 = channel ∧ e.2.toJson C = content

def heldBy (channel content own : Bytes) (r : Rpc k) : Bool :=
  own = channel ∧ r.content = content

/-- The nodes as they are with a network that takes messages at once: a worker whose request
has arrived is free, and the messages in the data channels are published. -/
structure Refines (W : Wired k) (A : Cluster k) : Prop where
  nodes : ∀ i, A i = (W.nodes i).image (A i).node.published (W.freed i)
  shared : ∀ i j, (W.nodes i).node.db.store = (W.nodes j).node.db.store
  busy : ∀ i w, W.calls i w ≠ .no → (W.publishes i w).isSome = true
  transit : ∀ r ∈ W.transit, W.calls r.source r.worker = .sent r.sn ∧ ∃ packet,
    W.publishes r.source r.worker = some ((W.nodes r.dest).node.channel, packet) ∧
      r.content = packet.toJson C
  fresh : ∀ r ∈ W.transit, r.sn < W.sn
  nodup : (W.transit.map Rpc.sn).Nodup
  messages : ∀ channel content, ∑ i, (A i).node.published.countP (sentTo C channel content) =
    ∑ j, (W.dataCh j).countP (heldBy channel content (W.nodes j).node.channel)

section Refinement

variable {C consumers bufSize} {W W' : Wired k} {A A' : Cluster k} {i j : Fin k} {w : Nat} {t : System}
  {a : Action}

theorem Wired.setCall_self (W : Wired k) (i : Fin k) (w : Nat) (c : Calling) :
    (W.setCall i w c).calls i w = c := by
  simp [Wired.setCall]

theorem Wired.setCall_of_ne (W : Wired k) {i j : Fin k} {w v : Nat} (h : j = i → v ≠ w) (c : Calling) :
    (W.setCall i w c).calls j v = W.calls j v := by
  rcases eq_or_ne j i with rfl | hne
  · simp [Wired.setCall, Function.update_of_ne (h rfl)]
  · simp [Wired.setCall, Function.update_of_ne hne]

theorem Wired.freed_of_sent {sn : Nat} (h : W.calls i w = .sent sn) : W.freed i w = false := by
  rw [Wired.freed, h]

theorem Hand.publishes_eq_some {channel : Bytes} {hand : Hand} {e : Bytes × Packet}
    (h : hand.publishes channel = some e) : ∃ it, hand = .item it ∧ it.channel ≠ [] ∧
      it.channel ≠ channel ∧ it.packet = some e.2 ∧ it.channel = e.1 := by
  cases hand with
  | free | found | acting => cases h
  | item it =>
    obtain ⟨hAway, hPacket⟩ := Option.ite_none_left_eq_some.mp h
    obtain ⟨packet, hSome, rfl⟩ := Option.map_eq_some_iff.mp hPacket
    obtain ⟨hNonempty, hOther⟩ := not_or.mp hAway
    exact ⟨it, rfl, hNonempty, hOther, hSome, rfl⟩

theorem Wired.channel_setNode (hStep : step C consumers (W.nodes i) a = some t) (j : Fin k) :
    ((W.setNode i t).nodes j).node.channel = (W.nodes j).node.channel := by
  rcases eq_or_ne j i with rfl | hne
  · have hSelf : ((W.setNode j t).nodes j).node.channel = t.node.channel := by
      simp only [setNode, Function.update_self]
      rfl
    rw [hSelf, channel_step hStep]
  · simp only [setNode, Function.update_of_ne hne]
    rfl

/-- A worker that publishes goes on doing so while others step. -/
theorem Wired.publishes_setNode {e : Bytes × Packet} (hStep : step C consumers (W.nodes i) a = some t)
    (hPublishes : W.publishes j w = some e) (hOther : j = i → ∀ env, a ≠ .work w env) :
    (W.setNode i t).publishes j w = some e := by
  unfold publishes at hPublishes ⊢
  rw [channel_setNode hStep j]
  rcases eq_or_ne j i with rfl | hne
  · have hHands : ((W.setNode j t).nodes j).hands = t.hands := by
      simp only [setNode, Function.update_self]
      rfl
    rw [hHands, hands_step hStep (Hand.not_free_of_publishes hPublishes) (hOther rfl)]
    exact hPublishes
  · have hHands : ((W.setNode i t).nodes j).hands = (W.nodes j).hands := by
      simp only [setNode, Function.update_of_ne hne]
      rfl
    rw [hHands]
    exact hPublishes

theorem image_setStore (s : System) (published : List (Bytes × Packet)) (freed : Nat → Bool) (st : Store) :
    (s.image published freed).setStore st = (s.setStore st).image published freed := rfl

theorem Refines.not_free (h : Refines C W A) (hFreed : W.freed i w = true) :
    (W.nodes i).hands w ≠ .free := by
  have hCalls : W.calls i w ≠ .no := by
    intro hNo
    rw [Wired.freed, hNo] at hFreed
    cases hFreed
  obtain ⟨e, he⟩ := Option.isSome_iff_exists.mp (h.busy i w hCalls)
  exact Hand.not_free_of_publishes he

theorem sharedMove_eq_within {s : System} (hStep : step C consumers (A i) a = some s) :
    sharedMove C consumers A (.within i a) =
      some fun j => (Function.update A i s j).setStore s.node.db.store := by
  simp only [sharedMove, move, hStep, Option.map_some, Move.node, Function.update_self]

theorem Refines.exists_move (h : Refines C W A) (hStep : step C consumers (W.nodes i) a = some t)
    (hWork : ∀ w env, a = .work w env → W.freed i w = false ∧
      ∀ e, W.publishes i w = some e → env.publish e.1 = false) :
    ∃ A', sharedMove C consumers A (.within i a) = some A' ∧
      ∀ j, A' j = ((W.setNode i t).nodes j).image (A j).node.published (W.freed j) := by
  have hView : step C consumers (A i) a = some (t.image (A i).node.published (W.freed i)) :=
    (congrArg (step C consumers · a) (h.nodes i)).trans (step_image hStep (fun w => h.not_free) hWork)
  refine ⟨_, sharedMove_eq_within hView, ?_⟩
  intro j
  simp only [Wired.setNode]
  rcases eq_or_ne j i with rfl | hne
  · rw [Function.update_self, Function.update_self]
    rfl
  · rw [Function.update_of_ne hne, Function.update_of_ne hne, ← image_setStore, ← h.nodes j]
    rfl

/-- The workers that wait hold what they held, and no request is new. -/
theorem Refines.next (h : Refines C W A)
    (hNodes : ∀ j, A' j = (W'.nodes j).image (A' j).node.published (W'.freed j))
    (hShared : ∀ j j', (W'.nodes j).node.db.store = (W'.nodes j').node.db.store)
    (hChannel : ∀ j, (W'.nodes j).node.channel = (W.nodes j).node.channel)
    (hCalls : ∀ j v, W'.calls j v ≠ .no → W.calls j v ≠ .no ∧ W'.publishes j v = W.publishes j v)
    (hTransit : W'.transit.Sublist W.transit)
    (hWaits : ∀ r ∈ W'.transit, W'.calls r.source r.worker = W.calls r.source r.worker)
    (hSn : W'.sn = W.sn)
    (hMessages : ∀ channel content, ∑ i, (A' i).node.published.countP (sentTo C channel content) =
      ∑ j, (W'.dataCh j).countP (heldBy channel content (W'.nodes j).node.channel)) :
    Refines C W' A' where
  nodes := hNodes
  shared := hShared
  busy j v hCall := by
    obtain ⟨hOld, hSame⟩ := hCalls j v hCall
    rw [hSame]
    exact h.busy j v hOld
  transit r hr := by
    obtain ⟨hSent, packet, hPublishes, hContent⟩ := h.transit r (hTransit.subset hr)
    have hSent' : W'.calls r.source r.worker = .sent r.sn := (hWaits r hr).trans hSent
    refine ⟨hSent', packet, ?_, hContent⟩
    rw [hChannel, (hCalls _ _ (by rw [hSent']; exact fun hNo => by cases hNo)).2]
    exact hPublishes
  fresh r hr := hSn ▸ h.fresh r (hTransit.subset hr)
  nodup := h.nodup.sublist (hTransit.map Rpc.sn)
  messages := hMessages

theorem Wired.publishes_setNode_of_calls (h : Refines C W A) (hStep : step C consumers (W.nodes i) a = some t)
    (hCalls : W.calls j w ≠ .no) (hOther : j = i → ∀ env, a ≠ .work w env) :
    (W.setNode i t).publishes j w = W.publishes j w := by
  obtain ⟨e, he⟩ := Option.isSome_iff_exists.mp (h.busy j w hCalls)
  rw [he]
  exact publishes_setNode hStep he hOther

theorem Refines.within (h : Refines C W A) (hBlocks : W.blocks i a = false)
    (hStep : step C consumers (W.nodes i) a = some t) :
    ∃ A', sharedMove C consumers A (.within i a) = some A' ∧ Refines C (W.setNode i t) A' := by
  have hNone : ∀ w env, a = .work w env → W.calls i w = .no ∧ W.publishes i w = none := by
    rintro w env rfl
    have hPublishes : (W.publishes i w).isSome = false := hBlocks
    refine ⟨?_, Option.isNone_iff_eq_none.mp (by rw [← Option.not_isSome, hPublishes]; rfl)⟩
    by_contra hCalls
    rw [h.busy i w hCalls] at hPublishes
    cases hPublishes
  obtain ⟨A', hMove, hNodes⟩ := h.exists_move hStep (by
    intro w env ha
    obtain ⟨hCalls, hPublishes⟩ := hNone w env ha
    rw [hPublishes, Wired.freed, hCalls]
    exact ⟨rfl, fun e he => by cases he⟩)
  have hPublished : ∀ j, (A' j).node.published = (A j).node.published := by
    intro j
    rw [hNodes j]
    rfl
  refine ⟨A', hMove, ?_⟩
  apply h.next
  · intro j
    rw [hPublished j]
    exact hNodes j
  · exact fun _ _ => rfl
  · exact Wired.channel_setNode hStep
  · intro j w hCalls
    refine ⟨hCalls, Wired.publishes_setNode_of_calls h hStep hCalls ?_⟩
    rintro rfl env ha
    exact hCalls (hNone w env ha).1
  · exact List.Sublist.refl _
  · exact fun _ _ => rfl
  · rfl
  · intro channel content
    simp only [hPublished, Wired.channel_setNode hStep]
    exact h.messages channel content

theorem Wired.freed_setCall {c : Calling} (hSame : ∀ sn, c ≠ .answered sn) (hFreed : W.freed i w = false)
    (j : Fin k) : (W.setCall i w c).freed j = W.freed j := by
  funext v
  by_cases hAt : j = i ∧ v = w
  · obtain ⟨rfl, rfl⟩ := hAt
    rw [hFreed, Wired.freed, W.setCall_self]
    cases c with
    | answered sn => exact absurd rfl (hSame sn)
    | no | sent => rfl
  · rw [Wired.freed, Wired.freed, W.setCall_of_ne fun hj hv => hAt ⟨hj, hv⟩]

theorem Wired.calls_end {j : Fin k} {v : Nat} (hCalls : (W.setCall i w .no).calls j v ≠ .no) :
    (j = i → v ≠ w) ∧ (W.setCall i w .no).calls j v = W.calls j v := by
  have hOther : j = i → v ≠ w := by
    rintro rfl rfl
    exact hCalls (W.setCall_self j v .no)
  exact ⟨hOther, W.setCall_of_ne hOther .no⟩

theorem Refines.fail (h : Refines C W A) {env : Env} {e : Bytes × Packet}
    (hPublishes : W.publishes i w = some e) (hFails : env.publish e.1 = false)
    (hAnswer : ∀ sn, W.calls i w ≠ .answered sn)
    (hStep : step C consumers (W.nodes i) (.work w env) = some t) :
    ∃ A', sharedMove C consumers A (.within i (.work w env)) = some A' ∧
      Refines C { (W.setNode i t).setCall i w .no with
        transit := W.transit.filter fun r => W.calls i w ≠ .sent r.sn } A' := by
  have hFreed : W.freed i w = false := by
    rw [Wired.freed]
    cases hCalls : W.calls i w with
    | answered sn => exact absurd hCalls (hAnswer sn)
    | no | sent => rfl
  obtain ⟨A', hMove, hNodes⟩ := h.exists_move hStep (by
    rintro _ _ ⟨⟩
    refine ⟨hFreed, fun e' he' => ?_⟩
    cases hPublishes.symm.trans he'
    exact hFails)
  have hPublished : ∀ j, (A' j).node.published = (A j).node.published := by
    intro j
    rw [hNodes j]
    rfl
  refine ⟨A', hMove, ?_⟩
  apply h.next
  · intro j
    have hSame : ((W.setNode i t).setCall i w .no).freed j = W.freed j :=
      Wired.freed_setCall (W := W.setNode i t) (fun _ hEq => by cases hEq) hFreed j
    rw [hPublished j]
    exact (hNodes j).trans (congrArg (System.image _ _) hSame.symm)
  · exact fun _ _ => rfl
  · exact Wired.channel_setNode hStep
  · intro j v hCalls
    obtain ⟨hOther, hSame⟩ := Wired.calls_end (W := W.setNode i t) hCalls
    have hOld : W.calls j v ≠ .no := hSame ▸ hCalls
    refine ⟨hOld, Wired.publishes_setNode_of_calls h hStep hOld ?_⟩
    rintro hj _ ⟨⟩
    exact hOther hj rfl
  · exact List.filter_sublist
  · intro r hr
    obtain ⟨hOld, hKept⟩ := List.mem_filter.mp hr
    refine (W.setNode i t).setCall_of_ne ?_ .no
    rintro rfl rfl
    exact of_decide_eq_true hKept (h.transit r hOld).1
  · rfl
  · intro channel content
    simp only [hPublished]
    refine (h.messages channel content).trans (Finset.sum_congr rfl fun j _ => ?_)
    rw [← Wired.channel_setNode hStep j]
    rfl

theorem Refines.call (h : Refines C W A) {packet : Packet} (hCalls : W.calls i w = .no)
    (hPublishes : W.publishes i w = some ((W.nodes j).node.channel, packet)) :
    Refines C { W.setCall i w (.sent W.sn) with
      transit := W.transit ++ [⟨W.sn, i, w, j, packet.toJson C⟩]
      sn := W.sn + 1 } A := by
  have hFreed : W.freed i w = false := by rw [Wired.freed, hCalls]
  constructor
  · intro j
    have hSame := Wired.freed_setCall (c := .sent W.sn) (fun _ hEq => by cases hEq) hFreed j
    exact (h.nodes j).trans (congrArg (System.image _ _) hSame.symm)
  · exact h.shared
  · intro j' v hCall
    by_cases hAt : j' = i ∧ v = w
    · obtain ⟨rfl, rfl⟩ := hAt
      exact Option.isSome_iff_exists.mpr ⟨_, hPublishes⟩
    · refine h.busy j' v ?_
      rw [← W.setCall_of_ne (fun hj hv => hAt ⟨hj, hv⟩) (.sent W.sn)]
      exact hCall
  · intro r hr
    rcases List.mem_append.mp hr with hOld | hNew
    · obtain ⟨hSent, hRest⟩ := h.transit r hOld
      refine ⟨?_, hRest⟩
      refine (W.setCall_of_ne ?_ _).trans hSent
      rintro rfl rfl
      cases hCalls.symm.trans hSent
    · cases List.mem_singleton.mp hNew
      exact ⟨W.setCall_self i w _, packet, hPublishes, rfl⟩
  · intro r hr
    rcases List.mem_append.mp hr with hOld | hNew
    · exact (h.fresh r hOld).trans (Nat.lt_succ_self _)
    · cases List.mem_singleton.mp hNew
      exact Nat.lt_succ_self _
  · rw [List.map_append, List.nodup_append]
    refine ⟨h.nodup, by simp, ?_⟩
    rintro sn hsn _ hNew rfl
    obtain ⟨r, hr, rfl⟩ := List.mem_map.mp hsn
    rw [List.map_singleton, List.mem_singleton] at hNew
    exact absurd hNew (Nat.ne_of_lt (h.fresh r hr))
  · exact h.messages

/-- The answer frees the worker, which the other nodes took to be free before. -/
theorem Refines.reply (h : Refines C W A) {sn : Nat} (hCalls : W.calls i w = .answered sn) :
    Refines C { W.setCall i w .no with
      nodes := Function.update W.nodes i { W.nodes i with
        hands := Function.update (W.nodes i).hands w .free } } A := by
  have hFreed : W.freed i w = true := by rw [Wired.freed, hCalls]
  have hNode : ∀ j, (Function.update W.nodes i { W.nodes i with
      hands := Function.update (W.nodes i).hands w .free } j).node = (W.nodes j).node := by
    intro j
    rcases eq_or_ne j i with rfl | hne
    · rw [Function.update_self]
    · rw [Function.update_of_ne hne]
  apply h.next
  · intro j
    rcases eq_or_ne j i with rfl | hne
    · simp only [Function.update_self]
      refine (h.nodes j).trans ?_
      simp only [System.image, System.mk.injEq, true_and, and_true]
      funext v
      rcases eq_or_ne v w with rfl | hne
      · simp [hFreed]
      · have hSame : (W.setCall j w .no).freed j v = W.freed j v := by
          rw [Wired.freed, W.setCall_of_ne fun _ => hne]
          rfl
        rw [Function.update_of_ne hne]
        exact congrArg (fun b : Bool => if b then Hand.free else (W.nodes j).hands v) hSame.symm
    · have hSame : (W.setCall i w .no).freed j = W.freed j := by
        funext v
        rw [Wired.freed, W.setCall_of_ne fun hEq => absurd hEq hne]
        rfl
      simp only [Function.update_of_ne hne]
      exact (h.nodes j).trans (congrArg (System.image _ _) hSame.symm)
  · intro j j'
    rw [hNode, hNode]
    exact h.shared j j'
  · intro j
    rw [hNode]
  · intro j v hCall
    obtain ⟨hOther, hSame⟩ := Wired.calls_end hCall
    refine ⟨hSame ▸ hCall, ?_⟩
    unfold Wired.publishes
    simp only [hNode]
    rcases eq_or_ne j i with rfl | hne
    · rw [Function.update_self]
      simp only [Function.update_of_ne (hOther rfl)]
    · rw [Function.update_of_ne hne]
  · exact List.Sublist.refl _
  · intro r hr
    refine W.setCall_of_ne ?_ .no
    rintro rfl rfl
    cases hCalls.symm.trans (h.transit r hr).1
  · rfl
  · intro channel content
    simp only [hNode]
    exact h.messages channel content

theorem Refines.store (h : Refines C W A) (i j : Fin k) :
    (A i).node.db.store = (A j).node.db.store := by
  rw [h.nodes i, h.nodes j]
  exact h.shared i j

/-- Moving one node and keeping its store leaves the others as they are. -/
theorem Refines.setStore_update (h : Refines C W A) {s : System}
    (hStore : s.node.db.store = (A i).node.db.store) :
    (fun j => (Function.update A i s j).setStore s.node.db.store) = Function.update A i s := by
  funext j
  rcases eq_or_ne j i with rfl | hne
  · rw [Function.update_self]
    rfl
  · rw [Function.update_of_ne hne, hStore, h.store i j]
    rfl

theorem step_publish {s : System} {it : RouterItem} {packet : Packet} (hUp : s.crashed = false)
    (hHand : s.hands w = .item it) (hNonempty : it.channel ≠ []) (hAway : it.channel ≠ s.node.channel)
    (hPacket : it.packet = some packet) {env : Env} (hPublish : env.publish it.channel = true) :
    step C consumers s (.work w env) = some { s with
      node := s.node.setPublished (s.node.published ++ [(it.channel, packet)])
      hands := Function.update s.hands w .free } := by
  have hBusy : s.hands w ≠ .free := by
    rw [hHand]
    exact fun hFree => by cases hFree
  simp only [step, hUp, Bool.false_eq_true, if_false, if_pos hBusy, System.worker]
  rw [hHand, work_item_away hNonempty hAway hPacket hPublish]
  rfl

/-- The request that is taken out of the network was there once. -/
theorem Refines.sn_ne (h : Refines C W A) {m : Nat} {r r' : Rpc k} (hr : W.transit[m]? = some r)
    (hr' : r' ∈ W.transit.eraseIdx m) : r'.sn ≠ r.sn := by
  obtain ⟨hm, hGet⟩ := List.getElem?_eq_some_iff.mp hr
  have hPerm := (List.getElem_cons_eraseIdx_perm hm).map Rpc.sn
  have hNodup := hPerm.nodup_iff.mpr h.nodup
  rw [hGet, List.map_cons, List.nodup_cons] at hNodup
  intro hEq
  exact hNodup.1 (hEq ▸ List.mem_map_of_mem hr')

theorem Refines.process (h : Refines C W A) {m : Nat} {r : Rpc k} (hr : W.transit[m]? = some r)
    (hUp : (W.nodes r.source).crashed = false) :
    ∃ env A', sharedMove C consumers A (.within r.source (.work r.worker env)) = some A' ∧
      Refines C { W.answer r with
        transit := W.transit.eraseIdx m
        dataCh := Function.update W.dataCh r.dest (W.dataCh r.dest ++ [r]) } A' := by
  obtain ⟨hSent, packet, hPublishes, hContent⟩ := h.transit r (List.mem_of_getElem? hr)
  obtain ⟨it, hHand, hNonempty, hAway, hPacket, hChannel⟩ := Hand.publishes_eq_some hPublishes
  have hAnswer : W.answer r = W.setCall r.source r.worker (.answered r.sn) := if_pos hSent
  have hNode := h.nodes r.source
  have hFreed := Wired.freed_of_sent hSent
  let env : Env := { Env.plain true with publish := fun _ => true }
  let s : System := { A r.source with
    node := (A r.source).node.setPublished ((A r.source).node.published ++ [(it.channel, packet)])
    hands := Function.update (A r.source).hands r.worker .free }
  have hStep : step C consumers (A r.source) (.work r.worker env) = some s := by
    refine step_publish ?_ ?_ hNonempty ?_ hPacket rfl
    · rw [hNode]
      exact hUp
    · rw [hNode]
      simp only [System.image, hFreed, Bool.false_eq_true, if_false]
      exact hHand
    · rw [hNode]
      exact hAway
  have hMove : sharedMove C consumers A (.within r.source (.work r.worker env)) =
      some (Function.update A r.source s) := by
    rw [sharedMove_eq_within hStep]
    exact congrArg some (h.setStore_update rfl)
  refine ⟨env, _, hMove, ?_⟩
  rw [hAnswer]
  apply h.next
  · intro l
    rcases eq_or_ne l r.source with rfl | hne
    · rw [Function.update_self]
      have hHands : s.hands = fun v => if (W.setCall r.source r.worker (.answered r.sn)).freed r.source v
          then Hand.free else (W.nodes r.source).hands v := by
        funext v
        simp only [s]
        rcases eq_or_ne v r.worker with rfl | hne
        · rw [Function.update_self, Wired.freed, W.setCall_self]
          rfl
        · rw [Function.update_of_ne hne, Wired.freed, W.setCall_of_ne fun _ => hne]
          exact congrArg (fun s : System => s.hands v) hNode
      have hView : s = { (A r.source).image s.node.published (fun _ => false) with hands := s.hands } := rfl
      rw [hView, hHands, hNode]
      rfl
    · rw [Function.update_of_ne hne]
      have hSame : (W.setCall r.source r.worker (.answered r.sn)).freed l = W.freed l := by
        funext v
        rw [Wired.freed, W.setCall_of_ne fun hEq => absurd hEq hne]
        rfl
      exact (h.nodes l).trans (congrArg (System.image _ _) hSame.symm)
  · exact h.shared
  · exact fun _ => rfl
  · intro l v hCall
    refine ⟨?_, rfl⟩
    by_cases hAt : l = r.source ∧ v = r.worker
    · rw [hAt.1, hAt.2, hSent]
      exact fun hNo => by cases hNo
    · rw [← W.setCall_of_ne (fun hl hv => hAt ⟨hl, hv⟩) (.answered r.sn)]
      exact hCall
  · exact List.eraseIdx_sublist ..
  · intro r' hr'
    refine W.setCall_of_ne ?_ _
    intro hSource hWorker
    have hOld := (h.transit r' (List.mem_of_mem_eraseIdx hr')).1
    rw [hSource, hWorker, hSent] at hOld
    exact h.sn_ne hr hr' (Calling.sent.inj hOld).symm
  · rfl
  · intro channel content
    have hPublished := sum_move
      (fun _ (s : System) => s.node.published.countP (sentTo C channel content)) A
      (Finset.mem_univ r.source) s
    have hQueued := sum_move (fun l (q : List (Rpc k)) =>
        q.countP (heldBy channel content (W.nodes l).node.channel)) W.dataCh
      (Finset.mem_univ r.dest) (W.dataCh r.dest ++ [r])
    have hNew : sentTo C channel content (it.channel, packet) =
        heldBy channel content (W.nodes r.dest).node.channel r := by
      rw [sentTo, heldBy, hChannel, hContent]
    have hOld := h.messages channel content
    have hMore : s.node.published = (A r.source).node.published ++ [(it.channel, packet)] := rfl
    simp only [hMore, List.countP_append, List.countP_singleton, hNew] at hPublished hQueued
    simp only [Wired.setCall]
    omega

theorem countP_eraseIdx {α : Type} {p : α → Bool} {l : List α} {m : Nat} {a : α} (h : l[m]? = some a) :
    l.countP p = (l.eraseIdx m).countP p + if p a then 1 else 0 := by
  obtain ⟨hm, hGet⟩ := List.getElem?_eq_some_iff.mp h
  rw [← (List.getElem_cons_eraseIdx_perm hm).countP_eq p, hGet, List.countP_cons]

theorem Refines.exists_published (h : Refines C W A) {r : Rpc k} (hr : r ∈ W.dataCh j) :
    ∃ (i : Fin k) (m : Nat) (e : Bytes × Packet), (A i).node.published[m]? = some e ∧
      e.1 = (W.nodes j).node.channel ∧ e.2.toJson C = r.content := by
  have hSum := h.messages (W.nodes j).node.channel r.content
  have hHeld : 0 < (W.dataCh j).countP
      (heldBy (W.nodes j).node.channel r.content (W.nodes j).node.channel) :=
    List.countP_pos_iff.mpr ⟨r, hr, by simp [heldBy]⟩
  have hLe := Finset.single_le_sum (f := fun l => (W.dataCh l).countP
    (heldBy (W.nodes j).node.channel r.content (W.nodes l).node.channel))
    (fun _ _ => Nat.zero_le _) (Finset.mem_univ j)
  have hNe : ∑ i, (A i).node.published.countP (sentTo C (W.nodes j).node.channel r.content) ≠ 0 := by
    omega
  obtain ⟨i, _, hi⟩ := Finset.exists_ne_zero_of_sum_ne_zero hNe
  obtain ⟨e, he, hSent⟩ := List.countP_pos_iff.mp (Nat.pos_of_ne_zero hi)
  obtain ⟨m, hm⟩ := List.getElem?_of_mem he
  obtain ⟨hChannel, hContent⟩ := of_decide_eq_true hSent
  exact ⟨i, m, e, hm, hChannel, hContent⟩

theorem handle_frame (s : System) (message : Bytes) (env : Env) :
    (s.handle (dataChannelHandler C message env)).node.channel = s.node.channel ∧
      (s.handle (dataChannelHandler C message env)).hands = s.hands := by
  obtain ⟨crashed, hHandle⟩ := exists_handle s (dataChannelHandler C message env)
  have hGrows := grows_dataChannelHandler (P := fun _ => False) (C := C) message env s.node
  rw [hHandle]
  exact ⟨hGrows.channel, rfl⟩

theorem Refines.handle (h : Refines C W A) {r : Rpc k} {rest : List (Rpc k)}
    (hQueue : W.dataCh j = r :: rest) (hUp : (W.nodes j).crashed = false) (env : Env) :
    ∃ m A', sharedMove C consumers A m = some A' ∧
      Refines C { W.setNode j ((W.nodes j).handle (dataChannelHandler C r.content env)) with
        dataCh := Function.update W.dataCh j rest } A' := by
  obtain ⟨i, m, e, hm, hTo, hContent⟩ :=
    h.exists_published (j := j) (r := r) (by rw [hQueue]; exact List.mem_cons_self)
  let handler := dataChannelHandler C r.content env
  let sent := Function.update A i ((A i).unpublish m)
  have hSent : ∀ l, sent l = (W.nodes l).image (sent l).node.published (W.freed l) := by
    intro l
    simp only [sent]
    rcases eq_or_ne l i with rfl | hne
    · rw [Function.update_self]
      exact congrArg (fun s : System => s.unpublish m) (h.nodes l)
    · rw [Function.update_of_ne hne]
      exact h.nodes l
  have hHandle : (sent j).handle handler =
      ((W.nodes j).handle handler).image (sent j).node.published (W.freed j) :=
    (congrArg (System.handle · handler) (hSent j)).trans (image_handle (blind_dataChannelHandler _ env))
  let T := Function.update sent j ((sent j).handle handler)
  have hMove : move C consumers A (.deliver i j m env) = some T := by
    have hChannel : e.1 = (A j).node.channel ∧ (A j).crashed = false := by
      rw [h.nodes j]
      exact ⟨hTo, hUp⟩
    simp only [move, hm, hContent]
    rw [if_pos hChannel]
  have hShared : sharedMove C consumers A (.deliver i j m env) =
      some fun l => (T l).setStore ((W.nodes j).handle handler).node.db.store := by
    have hSelf : T j = ((W.nodes j).handle handler).image (sent j).node.published (W.freed j) :=
      (Function.update_self ..).trans hHandle
    rw [sharedMove, hMove, Option.map_some, Move.node, hSelf]
    rfl
  refine ⟨_, _, hShared, ?_⟩
  obtain ⟨hChannel, hHands⟩ := handle_frame (C := C) (W.nodes j) r.content env
  have hNode : ∀ l, ((W.setNode j ((W.nodes j).handle handler)).nodes l).node.channel =
      (W.nodes l).node.channel ∧
        ((W.setNode j ((W.nodes j).handle handler)).nodes l).hands = (W.nodes l).hands := by
    intro l
    simp only [Wired.setNode]
    rcases eq_or_ne l j with rfl | hne
    · rw [Function.update_self]
      exact ⟨hChannel, hHands⟩
    · rw [Function.update_of_ne hne]
      exact ⟨rfl, rfl⟩
  have hPublished : ∀ l, (T l).node.published = (sent l).node.published := by
    intro l
    simp only [T]
    rcases eq_or_ne l j with rfl | hne
    · rw [Function.update_self, hHandle]
      rfl
    · rw [Function.update_of_ne hne]
  apply h.next
  · intro l
    simp only [T, Wired.setNode]
    rcases eq_or_ne l j with rfl | hne
    · rw [Function.update_self, Function.update_self, hHandle]
      rfl
    · rw [Function.update_of_ne hne, Function.update_of_ne hne]
      exact congrArg (System.setStore · _) (hSent l)
  · exact fun _ _ => rfl
  · exact fun l => (hNode l).1
  · intro l v hCalls
    refine ⟨hCalls, ?_⟩
    unfold Wired.publishes
    exact congr (congrArg _ (hNode l).1) (congrFun (hNode l).2 v)
  · exact List.Sublist.refl _
  · exact fun _ _ => rfl
  · rfl
  · intro channel content
    have hTaken := sum_move
      (fun _ (s : System) => s.node.published.countP (sentTo C channel content)) A
      (Finset.mem_univ i) ((A i).unpublish m)
    have hRest := sum_move (fun l (q : List (Rpc k)) =>
        q.countP (heldBy channel content (W.nodes l).node.channel)) W.dataCh
      (Finset.mem_univ j) rest
    have hSame : sentTo C channel content e = heldBy channel content (W.nodes j).node.channel r := by
      rw [sentTo, heldBy, hTo, hContent]
    have hOld := h.messages channel content
    have hLess : (A i).node.published.countP (sentTo C channel content) =
        ((A i).unpublish m).node.published.countP (sentTo C channel content) + _ := countP_eraseIdx hm
    rw [hQueue, List.countP_cons] at hRest
    rw [hSame] at hLess
    have hAfter : ∀ l, ((T l).setStore ((W.nodes j).handle handler).node.db.store).node.published =
        (sent l).node.published := hPublished
    have hChannels : ∀ l, ((W.setNode j ((W.nodes j).handle (dataChannelHandler C r.content env))).nodes
        l).node.channel = (W.nodes l).node.channel := fun l => (hNode l).1
    simp only [hAfter, hChannels, sent]
    omega

theorem refines_start (h : ∀ i j, (A i).node.db.store = (A j).node.db.store)
    (hPublished : ∀ i, (A i).node.published = []) : Refines C (Wired.ofNodes A) A where
  nodes _ := rfl
  shared := h
  busy _ _ hCalls := absurd rfl hCalls
  transit _ hr := by cases hr
  fresh _ hr := by cases hr
  nodup := List.nodup_nil
  messages channel content := by
    simp only [hPublished, Wired.ofNodes]
    rfl

/-- Every step of the nodes with their calls is one of the cluster, or none. -/
theorem refines_wire {m : Wire k} (hClean : Clean W m) (h : Refines C W A)
    (hWire : wire C consumers bufSize W m = some W') :
    ∃ ms A', run (sharedMove C consumers) A ms = some A' ∧ Refines C W' A' := by
  have hOne : ∀ {m A'}, sharedMove C consumers A m = some A' →
      run (sharedMove C consumers) A [m] = some A' := by
    intro m A' hMove
    exact run_cons_iff.mpr ⟨A', hMove, rfl⟩
  cases m with
  | within i a =>
    simp only [wire] at hWire
    split at hWire
    · cases hWire
    · rename_i hBlocks
      obtain ⟨t, hStep, rfl⟩ := Option.map_eq_some_iff.mp hWire
      obtain ⟨A', hMove, hRefines⟩ := h.within (Bool.not_eq_true _ ▸ hBlocks) hStep
      exact ⟨_, A', hOne hMove, hRefines⟩
  | call i w j =>
    simp only [wire] at hWire
    split at hWire
    · cases hWire
    · rename_i channel packet hPublishes
      obtain ⟨⟨rfl, hCalls, _⟩, hEq⟩ := Option.ite_none_right_eq_some.mp hWire
      cases hEq
      exact ⟨[], A, rfl, h.call hCalls hPublishes⟩
  | process m =>
    simp only [wire] at hWire
    split at hWire
    · cases hWire
    · rename_i r hr
      obtain ⟨_, hEq⟩ := Option.ite_none_right_eq_some.mp hWire
      cases hEq
      obtain ⟨env, A', hMove, hRefines⟩ := h.process hr (hClean r hr)
      exact ⟨_, A', hOne hMove, hRefines⟩
  | reply i w =>
    simp only [wire] at hWire
    split at hWire
    · cases hWire
    · cases hWire
    · rename_i sn hCalls
      obtain ⟨_, hEq⟩ := Option.ite_none_left_eq_some.mp hWire
      cases hEq
      exact ⟨[], A, rfl, h.reply hCalls⟩
  | fail i w env arrives =>
    obtain ⟨rfl, hAnswer⟩ := hClean
    simp only [wire] at hWire
    split at hWire
    · cases hWire
    · rename_i channel packet hPublishes
      obtain ⟨hFails, hMap⟩ := Option.ite_none_left_eq_some.mp hWire
      obtain ⟨t, hStep, rfl⟩ := Option.map_eq_some_iff.mp hMap
      obtain ⟨A', hMove, hRefines⟩ := h.fail hPublishes (Bool.not_eq_true _ ▸ hFails) hAnswer hStep
      exact ⟨_, A', hOne hMove, hRefines⟩
  | handle j env =>
    simp only [wire] at hWire
    split at hWire
    · cases hWire
    · rename_i r rest hQueue
      obtain ⟨hUp, hEq⟩ := Option.ite_none_left_eq_some.mp hWire
      cases hEq
      obtain ⟨m, A', hMove, hRefines⟩ := h.handle hQueue (Bool.not_eq_true _ ▸ hUp) env
      exact ⟨_, A', hOne hMove, hRefines⟩

end Refinement

/-- While no call fails after its request has arrived, the nodes with their calls do nothing that
nodes whose messages are taken at once would not do: the same to their sessions, stores and
queues, and the messages that wait in a data channel are those that were published to it. -/
theorem calls_refine_publishing (C : Codec) (consumers bufSize : Nat) {S : Cluster k}
    (hShared : ∀ i j, (S i).node.db.store = (S j).node.db.store)
    (hPublished : ∀ i, (S i).node.published = []) {ms : List (Wire k)} {W : Wired k}
    (hRun : run (wire C consumers bufSize) (Wired.ofNodes S) ms = some W)
    (hClean : Guarded (wire C consumers bufSize) Clean (Wired.ofNodes S) ms) :
    ∃ moves A, run (sharedMove C consumers) S moves = some A ∧
      (∀ i, A i = (W.nodes i).image (A i).node.published (W.freed i)) ∧
      ∀ channel content, ∑ i, (A i).node.published.countP (sentTo C channel content) =
        ∑ j, (W.dataCh j).countP (heldBy channel content (W.nodes j).node.channel) := by
  obtain ⟨moves, A, hMoves, hRefines⟩ := exists_run_of_simulates
    (fun _ _ _ _ hClean hRefines hWire => refines_wire hClean hRefines hWire)
    (refines_start hShared hPublished) hRun hClean
  exact ⟨moves, A, hMoves, hRefines.nodes, hRefines.messages⟩

instance (W : Wired k) : (m : Wire k) → Decidable (Clean W m)
  | .process m => inferInstanceAs (Decidable (∀ r ∈ W.transit[m]?, (W.nodes r.source).crashed = false))
  | .fail i w _ arrives =>
    match hCalls : W.calls i w with
    | .answered sn => isFalse fun h => h.2 sn hCalls
    | .no | .sent _ =>
      decidable_of_iff (arrives = false) ⟨fun h => ⟨h, fun _ hEq => by cases hCalls.symm.trans hEq⟩, And.left⟩
  | .within _ _ | .call _ _ _ | .reply _ _ | .handle _ _ => isTrue trivial

/-- Alice's message for bob crosses over, and is handed to him before the answer is there. -/
def aliceCalls : List (Wire 2) :=
  .within 0 (.recv (text "a1") { frame := Letter.aliceToBob.raw, env := groupEnv [] }) ::
    List.replicate 3 (.within 0 (.go (text "a1") (groupEnv []))) ++
    [.within 0 (.take 0), .call 0 0 1, .process 0, .handle 1 (groupEnv []), .within 1 (.take 0)] ++
    List.replicate 3 (.within 1 (.work 0 (groupEnv []))) ++ [.reply 0 0]

theorem calls_refine_publishing_bob : ∃ W moves A,
    run (wire PlainJson.codec 20 20000) (Wired.ofNodes (twoNodes [seat "n2:4281" "b2" "bob@x"]))
        aliceCalls = some W ∧ relays (W.nodes 1).node (text "b2") = 1 ∧
      run (sharedMove PlainJson.codec 20) (twoNodes [seat "n2:4281" "b2" "bob@x"]) moves = some A ∧
      A 1 = (W.nodes 1).image (A 1).node.published (W.freed 1) := by
  have hExists : ∃ W, run (wire PlainJson.codec 20 20000)
      (Wired.ofNodes (twoNodes [seat "n2:4281" "b2" "bob@x"])) aliceCalls = some W ∧
      relays (W.nodes 1).node (text "b2") = 1 := exists_run (by decide +kernel)
  obtain ⟨W, hRun, hRelays⟩ := hExists
  obtain ⟨moves, A, hMoves, hNodes, _⟩ := calls_refine_publishing PlainJson.codec 20 20000
    (fun _ _ => rfl) (fun _ => rfl) hRun (by decide +kernel)
  exact ⟨W, moves, A, hRun, hRelays, hMoves, hNodes 1⟩

end Concurrent

end Sara
