import Sara.Cluster.System

/-! # Nodes that use one database

The nodes of a cluster run against one Redis: what a move of one node does to its store
it does to that of all. No move makes a node forget its channel or its registered
sessions, reopens a session that was closed, or takes back what was written to one.
-/

namespace Sara

open Lib Lib.Prog Lib.Transition Saradb Concurrent

set_option autoImplicit false

namespace Concurrent

/-! ## Moves -/

def System.setStore (s : System) (st : Store) : System :=
  { s with node := { s.node with db := { s.node.db with store := st } } }

/-- The node that acts. -/
def Move.node {k : Nat} : Move k → Fin k
  | .within i _ => i
  | .deliver _ j _ _ => j

/-- A move in a cluster whose nodes use one Redis. -/
def sharedMove (C : Codec) (consumers : Nat) {k : Nat} (S : Cluster k) (m : Move k) : Option (Cluster k) :=
  (move C consumers S m).map fun T j => (T j).setStore (T m.node).node.db.store

/-- What the goroutine of session `z` on node `j` has done, the others being as they were. -/
structure Went {k : Nat} (j : Fin k) (z : Bytes) (pc : Pc) (n : Node) (S S' : Cluster k) : Prop where
  node : (S' j).node = n
  pc : (S' j).pc z = pc
  others : ∀ j' z', (j' = j → z' ≠ z) → (S' j').pc z' = (S j').pc z'
  hands : ∀ j', (S' j').hands = (S j').hands
  rest : ∀ j', j' ≠ j →
    (S' j').node = { (S j').node with db := { (S j').node.db with store := n.db.store } }

section Shared

variable {C : Codec} {consumers k : Nat} {S S' : Cluster k} {m : Move k}

theorem sharedMove_within {i : Fin k} {a : Action}
    (hMove : sharedMove C consumers S (.within i a) = some S') :
    ∃ t, step C consumers (S i) a = some t ∧ S' i = t ∧
      ∀ j, j ≠ i → S' j = (S j).setStore t.node.db.store := by
  obtain ⟨T, hT, rfl⟩ := Option.map_eq_some_iff.mp hMove
  obtain ⟨t, hStep, rfl⟩ := Option.map_eq_some_iff.mp hT
  have hSelf : Function.update S i t i = t := Function.update_self ..
  refine ⟨t, hStep, ?_, ?_⟩
  · simp only [Move.node, hSelf]
    rfl
  · intro j hj
    simp only [Move.node, hSelf, Function.update_of_ne hj]

/-- A message that is delivered leaves one node and is handled by another. -/
theorem sharedMove_deliver {i i' : Fin k} {w : Nat} {env : Env}
    (hMove : sharedMove C consumers S (.deliver i i' w env) = some S') (j : Fin k) :
    (S' j).pc = (S j).pc ∧ (S' j).hands = (S j).hands ∧ ∃ published message st n,
      (n = { (S j).node with published := published } ∨
        n = (dataChannelHandler C message env { (S j).node with published := published }).state) ∧
      (S' j).node = { n with db := { n.db with store := st } } := by
  obtain ⟨T, hT, rfl⟩ := Option.map_eq_some_iff.mp hMove
  cases moved_of_move hT with
  | deliver _ _ _ _ e hMessage hChannel sent hSent =>
    have hSentNode : ∃ published,
        sent j = { S j with node := { (S j).node with published := published } } := by
      rw [hSent]
      rcases eq_or_ne j i with rfl | hne
      · exact ⟨_, Function.update_self ..⟩
      · exact ⟨(S j).node.published, Function.update_of_ne hne ..⟩
    obtain ⟨published, hPublished⟩ := hSentNode
    simp only
    rcases eq_or_ne j i' with rfl | hne
    · obtain ⟨crashed, hHandle⟩ := exists_handle (sent j) (dataChannelHandler C (e.2.toJson C) env)
      rw [Function.update_self, hHandle, hPublished]
      exact ⟨rfl, rfl, published, e.2.toJson C, _, _, .inr rfl, rfl⟩
    · rw [Function.update_of_ne hne, hPublished]
      exact ⟨rfl, rfl, published, [], _, _, .inl rfl, rfl⟩

/-- A move that writes nothing is the same for nodes with a store each. -/
theorem move_of_sharedMove (hShared : ∀ i j, (S i).node.db.store = (S j).node.db.store)
    (hMove : sharedMove C consumers S m = some S')
    (hStore : ∀ T, move C consumers S m = some T → ∀ j, (T j).node.db.store = (S j).node.db.store) :
    move C consumers S m = some S' := by
  obtain ⟨T, hT, rfl⟩ := Option.map_eq_some_iff.mp hMove
  have hSame : (fun j => (T j).setStore (T m.node).node.db.store) = T := by
    funext j
    rw [hStore T hT, hShared m.node j, ← hStore T hT j]
    rfl
  rw [hSame, hT]

theorem went_of_sharedMove {j : Fin k} {z : Bytes} {env : Env} {pc : Pc} {n : Node}
    (hMove : sharedMove C consumers S (.within j (.go z env)) = some S')
    (hNext : next C z env ((S j).pc z) (S j).node = .done pc n) : Went j z pc n S S' := by
  obtain ⟨t, hStep, hSelf, hRest⟩ := sharedMove_within hMove
  have ht : t = { S j with node := n, pc := Function.update (S j).pc z pc } := by
    cases stepped_of_step C hStep with
    | go _ _ hBusy => rw [System.session, hNext]
  have hGo := hSelf.trans ht
  constructor
  · rw [hGo]
  · rw [hGo]
    exact Function.update_self ..
  · intro j' z' hOther
    rcases eq_or_ne j' j with rfl | hne
    · rw [hGo]
      exact Function.update_of_ne (hOther rfl) ..
    · rw [hRest j' hne]
      rfl
  · intro j'
    rcases eq_or_ne j' j with rfl | hne
    · rw [hGo]
    · rw [hRest j' hne]
      rfl
  · intro j' hne
    rw [hRest j' hne, ht]
    rfl

end Shared

/-! ## What stays of a session -/

/-- The node is known under the same names; the sessions of interest stay closed if they
are, and what was written to them stays written. -/
structure Grows (P : Bytes → Prop) (n n' : Node) : Prop where
  channel : n'.channel = n.channel
  sessionMap : n'.sessionMap = n.sessionMap
  session : ∀ x, P x → ∀ s, n.sessions x = some s → ∃ s', n'.sessions x = some s' ∧
    (s.status.status = .close → s'.status.status = .close) ∧ s.written <+: s'.written

section Grows

variable {P : Bytes → Prop} {C : Codec} {n n' : Node} {x : Bytes}

instance : Std.Refl (Grows P) where
  refl _ := ⟨rfl, rfl, fun _ _ s hs => ⟨s, hs, id, List.prefix_rfl⟩⟩

instance : IsTrans Node (Grows P) where
  trans _ _ _ h h' := by
    refine ⟨h'.channel.trans h.channel, h'.sessionMap.trans h.sessionMap, ?_⟩
    intro x hx s hs
    obtain ⟨s', hs', hClose, hPrefix⟩ := h.session x hx s hs
    obtain ⟨s'', hs'', hClose', hPrefix'⟩ := h'.session x hx s' hs'
    exact ⟨s'', hs'', hClose' ∘ hClose, hPrefix.trans hPrefix'⟩

theorem Grows.of_sessions (hSessions : n'.sessions = n.sessions) (hChannel : n'.channel = n.channel)
    (hMap : n'.sessionMap = n.sessionMap) : Grows P n n' :=
  ⟨hChannel, hMap, fun _ _ s hs => ⟨s, hSessions ▸ hs, id, List.prefix_rfl⟩⟩

theorem Grows.updateSession {f : Session → Session}
    (hf : P x → ∀ s, (s.status.status = .close → (f s).status.status = .close) ∧
      s.written <+: (f s).written) : Grows P n (n.updateSession x f) := by
  refine ⟨rfl, rfl, ?_⟩
  intro y hy s hs
  rcases eq_or_ne y x with rfl | hne
  · exact ⟨f s, by rw [Node.updateSession_self, hs, Option.map_some], hf hy s⟩
  · exact ⟨s, by rw [Node.updateSession_of_ne n hne, hs], id, List.prefix_rfl⟩

theorem grows_send (ds : List Dispatch) : Keeps (Grows P) (modify fun n => n.send ds) :=
  fun _ => .of_sessions rfl rfl rfl

theorem grows_sendMessage (x : Bytes) (data : Written) : Keeps (Grows P) (sendMessage x data) :=
  fun _ => .updateSession fun _ _ => ⟨id, List.prefix_append ..⟩

theorem grows_closeSession (x : Bytes) (env : Env) : Keeps (Grows P) (closeSession C x env) :=
  closeSession_keeps grows_send (fun _ _ => .of_sessions rfl rfl rfl)
    (fun _ _ => .updateSession fun _ _ => ⟨fun _ => rfl, List.prefix_rfl⟩) x env

theorem grows_route (item : RouterItem) : Grows P n (n.route item) := by
  unfold Node.route
  split
  · exact .of_sessions rfl rfl rfl
  · exact Std.Refl.refl n

theorem permits_grows : Permits (Grows P) C where
  sendMessage x data _ := grows_sendMessage x data
  closeSession := grows_closeSession
  verifyKill _ _ := grows_route _
  cache _ _ _ := grows_send _

theorem grows_routeAct (x : Bytes) (packet : Packet) (d : Decision) :
    Keeps (Grows P) (routeAct C x packet d) :=
  routeAct_keeps (fun _ => .updateSession fun _ _ => ⟨id, List.prefix_rfl⟩) (grows_sendMessage x _)
    (fun _ => grows_sendMessage x _) (fun _ _ _ => grows_route _) (storePacket_keeps grows_send packet) d

theorem grows_next {env : Env} {pc : Pc} (hLogon : P x → ∀ packet, pc ≠ .logon packet) :
    Grows P n (next C x env pc n).state := by
  refine permits_grows.next ?_ ?_ ?_ ?_
  · exact fun packet hPc => .updateSession fun hx _ => absurd hPc (hLogon hx packet)
  · exact fun packet _ => loginReply_keeps (fun _ _ _ => .of_sessions rfl rfl rfl) x packet n
  · intro d ds _ _
    unfold sendNext
    split
    · exact Std.Refl.refl n
    · exact .of_sessions rfl rfl rfl
  · exact fun packet d _ _ => grows_routeAct x packet d n

theorem grows_work (env : Env) (hand : Hand) : Keeps (Grows P) (work C env hand) := fun n =>
  permits_grows.work grows_send (fun _ _ _ _ _ => .of_sessions rfl rfl rfl) fun x packet d _ =>
    grows_routeAct x packet d n

theorem grows_dataChannelHandler (message : Bytes) (env : Env) :
    Keeps (Grows P) (dataChannelHandler C message env) := by
  have hRoute : ∀ packet, Keeps (Grows P) (Node.routePacket C packet) := by
    intro packet
    unfold Node.routePacket
    split
    · exact Keeps.pure _
    · refine (Keeps.read _).bind fun found => ?_
      cases found with
      | some ssb => exact fun n => grows_route _
      | none => exact storePacket_keeps grows_send packet
  unfold dataChannelHandler
  split
  · exact Keeps.pure _
  · split
    · refine (keeps_generateGroupPackets (fun _ _ _ => grows_send _) _ env).bind fun r => ?_
      cases r with
      | ok packets => exact Keeps.forM fun p _ => hRoute p
      | error e => exact Keeps.pure _
    · exact hRoute _

end Grows

end Concurrent

end Sara
