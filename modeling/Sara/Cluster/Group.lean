import Sara.Cluster.System
import Mathlib.Algebra.BigOperators.Group.Finset.Piecewise
import Mathlib.Algebra.Order.BigOperators.Group.Finset
import Mathlib.Data.Fintype.Basic

/-! # Copies of a group message

A group message is expanded to one copy for each member, by the session that accepts it
and once more by every data channel that receives a copy. While copies are handed on,
the directory stays as it is and says where their recipients are.
-/

namespace Sara

open Lib Lib.Prog Lib.Transition Saradb

set_option autoImplicit false

/-- When one member of a family moves, the sum changes by that member's share. -/
theorem sum_move {ι σ : Type} [DecidableEq ι] (f : ι → σ → ℕ) (S : ι → σ) {s : Finset ι}
    {i : ι} (hi : i ∈ s) (v : σ) :
    (∑ j ∈ s, f j (Function.update S i v j)) + f i (S i) = (∑ j ∈ s, f j (S j)) + f i v := by
  have hRest : ∑ j ∈ s.erase i, f j (Function.update S i v j) = ∑ j ∈ s.erase i, f j (S j) := by
    refine Finset.sum_congr rfl ?_
    intro j hj
    rw [Function.update_of_ne (Finset.ne_of_mem_erase hj)]
  rw [← Finset.add_sum_erase s _ hi, ← Finset.add_sum_erase s (fun j => f j (S j)) hi, hRest,
    Function.update_self]
  omega

/-! ## What handing on copies keeps -/

/-- How often a packet of someone else was written to the session. -/
def relays (n : Node) (y : Bytes) : Nat :=
  ((n.sessions y).map fun s => s.written.countP Written.isRelay).getD 0

/-- The node can be reached in the same way, and finds the others in the same way. -/
structure Fixed (n n' : Node) : Prop where
  channel : n'.channel = n.channel
  sessionMap : n'.sessionMap = n.sessionMap
  store : n'.db.store = n.db.store
  status : ∀ y, (n'.sessions y).map (·.status) = (n.sessions y).map (·.status)

theorem Fixed.trans {n n' n'' : Node} (h : Fixed n n') (h' : Fixed n' n'') : Fixed n n'' where
  channel := h'.channel.trans h.channel
  sessionMap := h'.sessionMap.trans h.sessionMap
  store := h'.store.trans h.store
  status y := (h'.status y).trans (h.status y)

theorem Fixed.refl (n : Node) : Fixed n n := ⟨rfl, rfl, rfl, fun _ => rfl⟩

theorem Fixed.session {n n' : Node} (h : Fixed n n') {y : Bytes} {s : Session}
    (hs : n.sessions y = some s) : ∃ s', n'.sessions y = some s' ∧ s'.status = s.status := by
  have hStatus := h.status y
  rw [hs, Option.map_some] at hStatus
  exact Option.map_eq_some_iff.mp hStatus

theorem Fixed.updateSession (n : Node) (x : Bytes) {f : Session → Session}
    (hf : ∀ s, (f s).status = s.status) : Fixed n (n.updateSession x f) :=
  ⟨rfl, rfl, rfl, n.map_updateSession x hf⟩

structure Still (n n' : Node) : Prop where
  fixed : Fixed n n'
  router : n'.router = n.router
  published : n'.published = n.published
  relays : ∀ y, relays n' y = relays n y

instance : Std.Refl Still where
  refl n := ⟨.refl n, rfl, rfl, fun _ => rfl⟩

instance : IsTrans Node Still where
  trans _ _ _ h h' := ⟨h.fixed.trans h'.fixed, h'.router.trans h.router,
    h'.published.trans h.published, fun y => (h'.relays y).trans (h.relays y)⟩

theorem still_send {n : Node} {ds : List Dispatch} (h : (n.db.send ds).store = n.db.store) :
    Still n (n.send ds) :=
  ⟨⟨rfl, rfl, h, fun _ => rfl⟩, rfl, rfl, fun _ => rfl⟩

theorem still_sendMessage (x : Bytes) {data : Written} (h : data.isRelay = false) :
    Keeps Still (sendMessage x data) := by
  intro n
  refine ⟨Fixed.updateSession n x fun _ => rfl, rfl, rfl, ?_⟩
  intro y
  change relays (n.updateSession x _) y = _
  unfold relays
  rcases eq_or_ne y x with rfl | hne
  · rw [Node.updateSession_self, Option.map_map]
    congr
    funext s
    simp [h]
  · rw [Node.updateSession_of_ne n hne]

theorem still_generateGroupPackets (packet : Packet) (env : Env) :
    Keeps Still (generateGroupPackets packet env) := by
  refine keeps_generateGroupPackets ?_ packet env
  intro gid domain us n
  refine still_send ?_
  rw [putEx, is4s_groupUsersKey]
  rfl

theorem still_storePacket {C : Codec} {p : Packet} (h : is4s p.envelope.id = false) :
    Keeps Still (storePacket C p) := by
  refine (Keeps.deref _).bind fun to_jid n => still_send ?_
  rw [offlineWrites, putExWithIdx, h]
  rfl

/-! ## The copies of a message -/

/-- A group message that a session of `sender` accepts: the address it says it is from,
its group, and the members found for it. -/
structure GroupMessage where
  sender : JID
  from_ : Bytes
  from_jid : JID
  gid : Bytes
  users : Bytes
  from_ok : newJID from_ = .ok from_jid

namespace GroupMessage

/-- The addresses a copy is made for, one for each member but the one it is from. -/
def targets (g : GroupMessage) : List Bytes :=
  ((g.users.splitOn comma).filter (· ≠ g.from_jid.user)).map (memberAddress g.from_jid.domain)

abbrev Genuine (g : GroupMessage) : Prop :=
  g.sender.stringWithoutResource = g.from_jid.stringWithoutResource

structure Copy (g : GroupMessage) (p : Packet) : Prop where
  type : p.envelope.type = msgTypeGroupChat
  from_ : p.envelope.from_ = g.from_
  gid : p.envelope.gid = g.gid
  to_ : p.envelope.to_ ∈ g.targets
  id : is4s p.envelope.id = false

variable {g : GroupMessage}

theorem exists_newJID_of_mem {a : Bytes} (h : a ∈ g.targets) :
    ∃ r, newJID a = .ok r ∧ r.stringWithoutResource = a := by
  obtain ⟨toUser, _, rfl⟩ := List.mem_map.mp h
  obtain ⟨j, hj⟩ := exists_newJIDByUidDomain toUser g.from_jid.domain
  rw [memberAddress, hj]
  exact ⟨j.withoutResource, j.newJID_bare, rfl⟩

theorem copies {packet : Packet} {env : Env} {packets : List Packet}
    (hFrom : packet.envelope.from_ = g.from_) (hGid : packet.envelope.gid = g.gid)
    (h : genGroupPackets g.users packet g.from_jid env = .ok packets) :
    packets.map (·.envelope.to_) = g.targets ∧ ∀ p ∈ packets, g.Copy p := by
  rw [genGroupPackets_eq] at h
  cases h
  constructor
  · rw [List.map_map, targets]
    have hAddress := congrArg (List.map (memberAddress g.from_jid.domain))
      (List.zipIdx_map_fst 0 ((g.users.splitOn comma).filter (· ≠ g.from_jid.user)))
    rwa [List.map_map] at hAddress
  · intro p hp
    obtain ⟨toUser, hUser, rfl⟩ := List.mem_map.mp hp
    refine ⟨rfl, hFrom, hGid, ?_, is4s_of_isUuid (env.uuid_isUuid _)⟩
    exact List.mem_map_of_mem (List.fst_mem_of_mem_zipIdx hUser)

end GroupMessage

def foundUsers (n : Node) (gid domain : Bytes) (env : Env) : Option Bytes :=
  match groupMembers gid domain env n with
  | .done users _ => users
  | .panic _ => none

/-- Every expansion of the message and of its copies, on whatever node, makes copies. -/
theorem GroupMessage.generated {g : GroupMessage} {packet : Packet} {env : Env} {n n' : Node}
    {packets : List Packet} (hFrom : packet.envelope.from_ = g.from_)
    (hGid : packet.envelope.gid = g.gid)
    (hFound : foundUsers n g.gid g.from_jid.domain env = some g.users)
    (h : generateGroupPackets packet env n = .done (.ok packets) n') :
    packets.map (·.envelope.to_) = g.targets ∧ ∀ p ∈ packets, g.Copy p := by
  obtain ⟨f, users, hJid, hMembers, _, hMade⟩ := generateGroupPackets_ok h
  rw [hFrom, g.from_ok] at hJid
  cases hJid
  rw [hGid] at hMembers
  rw [foundUsers, hMembers] at hFound
  cases hFound
  exact GroupMessage.copies hFrom hGid hMade

/-! ## Where the members are -/

def entry (C : Codec) (n : Node) (a : Bytes) : Option SessionStatus :=
  (n.get (sessionPerfix ++ a)).map C.unmarshalStatus

def GroupMessage.live (C : Codec) (n : Node) (g : GroupMessage) : List Bytes :=
  g.targets.filter fun a => (entry C n a).isSome

namespace Concurrent

/-- The directory is the same for all nodes, every entry of it names the channel and the
sid of a session of that user, and nothing is under way. -/
structure Placement (C : Codec) {k : Nat} (S : Cluster k) : Prop where
  channel_ne : ∀ i, (S i).node.channel ≠ []
  channel_inj : ∀ i j, (S i).node.channel = (S j).node.channel → i = j
  shared : ∀ i j a, entry C (S i).node a = entry C (S j).node a
  right : ∀ i a ss, entry C (S i).node a = some ss → ∃ h sess j,
    ss.channel = (S h).node.channel ∧ (S h).node.sessionMap ss.sid = true ∧
    (S h).node.sessions ss.sid = some sess ∧ sess.status.status = .login ∧
    newJID sess.status.jid = .ok j ∧ j.stringWithoutResource = a
  router : ∀ i, (S i).node.router = []
  published : ∀ i, (S i).node.published = []
  pc : ∀ i y, (S i).pc y = .idle
  hands : ∀ i w, (S i).hands w = .free

def seat (channel sid jid : String) : SessionStatus where
  sid := text sid
  jid := text jid
  status := .login
  nodeid := text channel
  channel := text channel
  ct := 0

end Concurrent

end Sara
