import Sara.Cluster.System
import Sara.Node.Delivery
import Sara.Node.Users

/-! # Who a message is from

The data channel changes no session, so along every run of a cluster each node knows
its users by the credentials it accepted. The server leaves the sender of a packet to
the client; what a session hands on to others is still from its user, since the
session compares the two before it looks the recipient up.
-/

namespace Sara

open Lib Lib.Prog Lib.Transition Saradb

set_option autoImplicit false

/-- The decisions that pass a packet to the router or to the store. -/
def Decision.passesOn : Decision → Bool
  | .route _ | .store => true
  | .ignore | .toMe | .notify _ => false

theorem Decision.Known.authentic {H : List (Bytes × JID)} {n : Node} {x : Bytes} {p : Packet}
    {d : Decision} (h : d.Known H n x p) (hPasses : d.passesOn = true) :
    ∃ j r f, UserOf H n x j ∧ newJID p.envelope.to_ = .ok r ∧ newJID p.envelope.from_ = .ok f ∧
      f.stringWithoutResource = j.stringWithoutResource := by
  cases d with
  | ignore | toMe | notify => cases hPasses
  | route | store => exact h

section DataChannel

variable {C : Codec}

theorem users_node_routePacket (packet : Packet) : Keeps Users (Node.routePacket C packet) := by
  unfold Node.routePacket
  cases hr : newJID packet.envelope.to_ with
  | error e => exact Keeps.pure _
  | ok r =>
    refine (Keeps.read _).bind fun found => ?_
    cases found with
    | some ssb => exact fun _ => route_users (.inr ⟨packet, r, rfl, rfl, hr⟩)
    | none => exact storePacket_keeps users_send packet

theorem users_dataChannelHandler (message : Bytes) (env : Env) :
    Keeps Users (dataChannelHandler C message env) := by
  unfold dataChannelHandler
  cases newPacket C message with
  | error e => exact Keeps.pure _
  | ok packet =>
    simp only
    split
    · refine (keeps_generateGroupPackets (fun _ _ _ => users_send _) packet env).bind fun r => ?_
      cases r with
      | ok packets => exact Keeps.forM fun p _ => users_node_routePacket p
      | error gerr => exact Keeps.pure _
    · exact users_node_routePacket packet

end DataChannel

namespace Concurrent

variable {C : Codec} {consumers k : Nat} {H : List (Bytes × JID)} {S T : Cluster k}

/-- What is known of each node of a cluster, from the credentials its steps accepted. -/
def authsAt (j : Fin k) (S : Cluster k) : Move k → List (Bytes × JID)
  | .within i a => if i = j then auths (S i) a else []
  | .deliver _ _ _ _ => []

theorem known_move {m : Move k} {j : Fin k} (h : Known H (S j))
    (hMove : move C consumers S m = some T) : Known (H ++ authsAt j S m) (T j) := by
  cases moved_of_move hMove with
  | within i a t hStep =>
    rcases eq_or_ne j i with rfl | hne
    · rw [Function.update_self, authsAt, if_pos rfl]
      exact known_step h hStep
    · rw [Function.update_of_ne hne, authsAt, if_neg hne.symm, List.append_nil]
      exact h
  | deliver i i' m env e hMessage hChannel sent hSent =>
    rw [authsAt, List.append_nil]
    have hTaken : Known H (sent j) := by
      rw [hSent]
      rcases eq_or_ne j i with rfl | hne
      · rw [Function.update_self]
        exact h.step (List.Subset.refl H) (.of_sessions rfl rfl fun _ hit => hit) rfl
          (fun _ => .inl rfl) fun _ => .inl rfl
      · rw [Function.update_of_ne hne]
        exact h
    rcases eq_or_ne j i' with rfl | hne
    · rw [Function.update_self]
      obtain ⟨crashed, hHandle⟩ := exists_handle (sent j) (dataChannelHandler C (e.2.toJson C) env)
      rw [hHandle]
      exact hTaken.step (List.Subset.refl H) (users_dataChannelHandler _ env (sent j).node) rfl
        (fun _ => .inl rfl) fun _ => .inl rfl
    · rw [Function.update_of_ne hne]
      exact hTaken

/-- Along every run of a cluster, each node knows its users by the credentials it accepted. -/
theorem known_run {nodeid channel : Fin k → Bytes} {st : Fin k → Store}
    {ms : List (Move k)}
    (hRun : run (move C consumers) (fun i => start (nodeid i) (channel i) (st i)) ms = some T)
    (j : Fin k) : Known (collect (move C consumers) (authsAt j)
      (fun i => start (nodeid i) (channel i) (st i)) ms) (T j) := by
  refine run_induction (P := fun ms T => Known (collect (move C consumers) (authsAt j)
    (fun i => start (nodeid i) (channel i) (st i)) ms) (T j)) ?_ ?_ hRun
  · exact known_start (nodeid j) (channel j) (st j)
  · intro ms S m T hRun hKnown hMove
    rw [collect_snoc hRun]
    exact known_move hKnown hMove

/-! ## Packets passed on -/

def Pc.passes : Pc → Option Packet
  | .acting p d _ => if d.passesOn then some p else none
  | _ => none

def Hand.passes : Hand → Option (Bytes × Packet)
  | .acting x p d => if d.passesOn then some (x, p) else none
  | _ => none

/-- With this step, session `x` passes `p` to `Route` or to `storePacket`: its goroutine does,
or a worker that handed it a packet, or it closes and stores its buffer. -/
def Passes (C : Codec) (consumers : Nat) (s : System) (a : Action) (x : Bytes) (p : Packet) : Prop :=
  (∃ env, a = .go x env ∧ (s.pc x).passes = some p) ∨
  (∃ w env, a = .work w env ∧ (s.hands w).passes = some (x, p)) ∨
  ∃ t sess sess', step C consumers s a = some t ∧
    s.node.sessions x = some sess ∧ sess.status.status ≠ .close ∧
    t.node.sessions x = some sess' ∧ sess'.status.status = .close ∧
    ∃ id : Bytes, sess.pkgBuff[id]? = some p

theorem Pc.acting_of_passes {pc : Pc} {p : Packet} (h : pc.passes = some p) :
    ∃ d packets, pc = .acting p d packets ∧ d.passesOn = true := by
  cases pc with
  | acting q d packets =>
    obtain ⟨hOn, hEq⟩ := Option.ite_none_right_eq_some.mp h
    cases hEq
    exact ⟨d, packets, rfl, hOn⟩
  | idle | kill | auth | logon | fetch | publish | storing | routing => cases h

theorem Hand.acting_of_passes {hand : Hand} {x : Bytes} {p : Packet} (h : hand.passes = some (x, p)) :
    ∃ d, hand = .acting x p d ∧ d.passesOn = true := by
  cases hand with
  | acting y q d =>
    obtain ⟨hOn, hEq⟩ := Option.ite_none_right_eq_some.mp h
    cases hEq
    exact ⟨d, rfl, hOn⟩
  | free | item | found => cases h

def Authentic (j : JID) (p : Packet) : Prop :=
  ∃ r, newJID p.envelope.to_ = .ok r ∧ (r.stringWithoutResource ≠ j.stringWithoutResource →
    ∃ f, newJID p.envelope.from_ = .ok f ∧ f.user = j.user ∧ f.domain = j.domain)

theorem Known.passes {s : System} {a : Action} {x : Bytes} {p : Packet} (h : Known H s)
    (hPasses : Passes C consumers s a x p) : ∃ j, UserOf H s.node x j ∧ Authentic j p := by
  have hDecided : ∀ d : Decision, d.Known H s.node x p → d.passesOn = true →
      ∃ j, UserOf H s.node x j ∧ Authentic j p := by
    intro d hKnown hOn
    obtain ⟨j, r, f, hUser, hr, hf, hMine⟩ := hKnown.authentic hOn
    exact ⟨j, hUser, r, hr, fun _ => ⟨f, hf, JID.bare_inj hMine⟩⟩
  rcases hPasses with ⟨_, _, hPc⟩ | ⟨w, _, _, hHand⟩ | ⟨_, sess, _, _, hs, _, _, _, key, hp⟩
  · obtain ⟨d, packets, hActing, hOn⟩ := Pc.acting_of_passes hPc
    have hKnown := h.pcs x
    rw [hActing] at hKnown
    exact hDecided d hKnown hOn
  · obtain ⟨d, hActing, hOn⟩ := Hand.acting_of_passes hHand
    have hKnown := h.hands w
    rw [hActing] at hKnown
    exact hDecided d hKnown hOn
  · obtain ⟨j, r, hj, hr, hSame⟩ := h.buffers x sess hs key p hp
    rcases h.users x sess hs with ⟨sess', hs', hNone, _⟩ | ⟨j', hUser⟩
    · cases hs.symm.trans hs'
      rw [hNone] at hj
      cases hj
    · obtain ⟨sess', hs', hj', _⟩ := id hUser
      cases hs.symm.trans hs'
      cases hj.symm.trans hj'
      exact ⟨j, hUser, r, hr, fun hOther => absurd hSame hOther⟩

/-- What a session passes on to others is from the user whose credentials it presented. -/
theorem passed_packets_authentic (C : Codec) (consumers : Nat) {k : Nat}
    (nodeid channel : Fin k → Bytes) (st : Fin k → Store) {ms : List (Move k)} {S : Cluster k}
    (hRun : run (move C consumers) (fun i => start (nodeid i) (channel i) (st i)) ms = some S)
    {i : Fin k} {a : Action} {x : Bytes} {p : Packet} (hPasses : Passes C consumers (S i) a x p) :
    ∃ sess j, (S i).node.sessions x = some sess ∧ newJID sess.status.jid = .ok j ∧
      (x, j) ∈ collect (move C consumers) (authsAt i)
        (fun i => start (nodeid i) (channel i) (st i)) ms ∧ Authentic j p := by
  obtain ⟨j, ⟨sess, hs, hj, _, hMem⟩, hAuthentic⟩ := (known_run hRun i).passes hPasses
  exact ⟨sess, j, hs, hj, hMem, hAuthentic⟩

def greetsNext : List Action := greets.dropLast.dropLast

theorem passed_packets_authentic_alice :
    ∃ S : Cluster 1, run (move PlainJson.codec 20) (fun _ => node01)
        (greetsNext.map (Move.within 0)) = some S ∧
      Passes PlainJson.codec 20 (S 0) (.go (text "b2") (Env.plain true)) (text "b2") greeting ∧
      ∃ sess j, (S 0).node.sessions (text "b2") = some sess ∧ newJID sess.status.jid = .ok j ∧
        (text "b2", j) ∈ collect (move PlainJson.codec 20) (authsAt (0 : Fin 1)) (fun _ => node01)
          (greetsNext.map (Move.within 0)) ∧ Authentic j greeting := by
  have hExists : ∃ S : Cluster 1, run (move PlainJson.codec 20) (fun _ => node01)
      (greetsNext.map (Move.within 0)) = some S ∧
      ((S 0).pc (text "b2")).passes = some greeting := exists_run (by decide +kernel)
  obtain ⟨S, hRun, hPc⟩ := hExists
  have hPasses : Passes PlainJson.codec 20 (S 0) (.go (text "b2") (Env.plain true)) (text "b2") greeting :=
    .inl ⟨_, rfl, hPc⟩
  exact ⟨S, hRun, hPasses, passed_packets_authentic PlainJson.codec 20 (fun _ => text "node01")
    (fun _ => text "node01:4281") (fun _ _ => none) hRun hPasses⟩

end Concurrent

end Sara
