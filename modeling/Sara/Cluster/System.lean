import Sara.Node.Frame

/-! # A cluster of nodes

A packet for a session of another node is published to that node's data channel,
where one goroutine handles message after message: it expands a group packet once
more, and looks every recipient up in the directory. The published messages of a node
are the ones still waiting in the data channels of the others.
-/

namespace Sara

open Lib Lib.Prog Lib.Transition Saradb

set_option autoImplicit false

section DataChannel

variable (C : Codec)

/-- `routePacket` of a node, in place of a session's. -/
def Node.routePacket (packet : Packet) : Prog Node Unit :=
  match newJID packet.envelope.to_ with
  | .error _ => return ()
  | .ok jid => do
    match ← read fun n => n.get jid.toSessionid with
    | some ssb =>
      let ss := C.unmarshalStatus ssb
      modify fun n => n.route { channel := ss.channel, sid := ss.sid, packet := some packet, signal := 0 }
    | none => storePacket C packet

def dataChannelHandler (message : Bytes) (env : Env) : Prog Node Unit :=
  match newPacket C message with
  | .error _ => return ()
  | .ok packet => do
    if packet.envelope.type = msgTypeGroupChat then
      match ← generateGroupPackets packet env with
      | .ok packets => packets.forM (Node.routePacket C)
      | .error _ => return ()
    else Node.routePacket C packet

end DataChannel

namespace Concurrent

abbrev Cluster (k : Nat) := Fin k → System

/-- A step of one node, or node `j` handles the `m`-th message that node `i` has published. -/
inductive Move (k : Nat) where
  | within (i : Fin k) (a : Action)
  | deliver (i j : Fin k) (m : Nat) (env : Env)

/-- The goroutine of a data channel does not recover. -/
def System.handle (s : System) (m : Prog Node Unit) : System :=
  match m s.node with
  | .done _ n => { s with node := n }
  | .panic n => { s with node := n, crashed := true }

def System.unpublish (s : System) (m : Nat) : System :=
  { s with node := { s.node with published := s.node.published.eraseIdx m } }

def move (C : Codec) (consumers : Nat) {k : Nat} (S : Cluster k) : Move k → Option (Cluster k)
  | .within i a => (step C consumers (S i) a).map (Function.update S i)
  | .deliver i j m env =>
    match (S i).node.published[m]? with
    | none => none
    | some (channel, packet) =>
      if channel = (S j).node.channel ∧ (S j).crashed = false then
        let sent := Function.update S i ((S i).unpublish m)
        some (Function.update sent j ((sent j).handle (dataChannelHandler C (packet.toJson C) env)))
      else none

/-- What a move does, by cases. -/
inductive Moved (C : Codec) (consumers : Nat) {k : Nat} (S : Cluster k) : Move k → Cluster k → Prop where
  | within (i : Fin k) (a : Action) (t : System) (hStep : step C consumers (S i) a = some t) :
    Moved C consumers S (.within i a) (Function.update S i t)
  | deliver (i j : Fin k) (m : Nat) (env : Env) (e : Bytes × Packet)
      (hMessage : (S i).node.published[m]? = some e) (hChannel : e.1 = (S j).node.channel)
      (sent : Cluster k) (hSent : sent = Function.update S i ((S i).unpublish m)) :
    Moved C consumers S (.deliver i j m env)
      (Function.update sent j ((sent j).handle (dataChannelHandler C (e.2.toJson C) env)))

theorem moved_of_move {C : Codec} {consumers k : Nat} {S T : Cluster k} {m : Move k}
    (h : move C consumers S m = some T) : Moved C consumers S m T := by
  cases m with
  | within i a =>
    obtain ⟨t, hStep, rfl⟩ := Option.map_eq_some_iff.mp h
    exact .within i a t hStep
  | deliver i j m env =>
    simp only [move] at h
    cases hMessage : (S i).node.published[m]? with
    | none =>
      rw [hMessage] at h
      cases h
    | some e =>
      rw [hMessage] at h
      obtain ⟨⟨hChannel, _⟩, hEq⟩ := Option.ite_none_right_eq_some.mp h
      cases hEq
      exact .deliver i j m env e hMessage hChannel _ rfl

theorem exists_handle (s : System) (m : Prog Node Unit) :
    ∃ crashed, s.handle m = { s with node := (m s.node).state, crashed := crashed } := by
  unfold System.handle
  cases m s.node with
  | done u n => exact ⟨s.crashed, rfl⟩
  | panic n => exact ⟨true, rfl⟩

end Concurrent

end Sara
