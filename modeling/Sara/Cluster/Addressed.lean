import Sara.Cluster.Shared
import Sara.Cluster.Users
import Sara.Core.Offline
import Sara.Saradb.Entries

/-! # Who a message is for

A client reads the packets its session relays and, once, the stored packets in its login
reply. Packets reach a session through any node of the cluster, and wait for it in the
one database all nodes write to; still all of them are addressed to the user whose
credentials the session presented.
-/

namespace Sara

open Lib Lib.Prog Lib.Transition Saradb Concurrent

set_option autoImplicit false

/-- A field of an offline index is a packet for the user of that index. -/
def Filed (C : Codec) (key _field value : Bytes) : Prop :=
  ∀ r, key = offlineIndex r → ∃ (p : Packet) (r' : JID), newJID p.envelope.to_ = .ok r' ∧
    r'.stringWithoutResource = r.stringWithoutResource ∧ value = p.toJson C

/-- What may be written to a session with this address. -/
def Written.Due (C : Codec) (jid : Bytes) : Written → Prop
  | .relay p => IsFor jid p
  | .answer p => ∀ delay ∈ p.delay, ∀ b ∈ delay.packets,
      ∃ q : Packet, IsFor jid q ∧ newBasePacket C (q.toJson C) = .ok b
  | .signal _ => True

section Programs

variable {C : Codec} {n n' : Node} {x : Bytes}

/-- To a session without an address nothing is written that is for somebody. -/
theorem Written.Due.of_nil {data : Written} (h : data.Due C []) (jid : Bytes) : data.Due C jid := by
  have hNobody : ∀ p, ¬ IsFor [] p := by
    rintro p ⟨j, r, hj, _⟩
    cases hj
  cases data with
  | relay p => exact absurd h (hNobody p)
  | signal b => trivial
  | answer p =>
    intro delay hDelay b hb
    obtain ⟨q, hFor, _⟩ := h delay hDelay b hb
    exact absurd hFor (hNobody q)

/-- What may happen to a node while nobody connects or logs on. -/
structure Discreet (C : Codec) (n n' : Node) : Prop where
  nodeid : n'.nodeid = n.nodeid
  entries : n.db.Entries (Filed C) → n'.db.Entries (Filed C)
  sessions : ∀ y s', n'.sessions y = some s' → ∃ s, n.sessions y = some s ∧
    s'.status.jid = s.status.jid ∧ s'.status.nodeid = s.status.nodeid ∧
      ∀ w ∈ s'.written, w ∈ s.written ∨ w.Due C s.status.jid

instance : Std.Refl (Discreet C) where
  refl _ := ⟨rfl, id, fun _ s hs => ⟨s, hs, rfl, rfl, fun _ hw => .inl hw⟩⟩

instance : IsTrans Node (Discreet C) where
  trans _ _ _ h h' := by
    refine ⟨h'.nodeid.trans h.nodeid, h'.entries ∘ h.entries, ?_⟩
    intro y s'' hs''
    obtain ⟨s', hs', hJid', hNodeid', hWritten'⟩ := h'.sessions y s'' hs''
    obtain ⟨s, hs, hJid, hNodeid, hWritten⟩ := h.sessions y s' hs'
    refine ⟨s, hs, hJid'.trans hJid, hNodeid'.trans hNodeid, ?_⟩
    intro w hw
    rcases hWritten' w hw with hOld | hDue
    · exact hWritten w hOld
    · exact .inr (hJid ▸ hDue)

theorem Discreet.of_sessions (hNodeid : n'.nodeid = n.nodeid) (hSessions : n'.sessions = n.sessions)
    (hDb : n.db.Entries (Filed C) → n'.db.Entries (Filed C)) : Discreet C n n' :=
  ⟨hNodeid, hDb, fun _ s hs => ⟨s, hSessions ▸ hs, rfl, rfl, fun _ hw => .inl hw⟩⟩

theorem Discreet.updateSession {f : Session → Session}
    (hf : ∀ s, n.sessions x = some s → (f s).status.jid = s.status.jid ∧
      (f s).status.nodeid = s.status.nodeid ∧
        ∀ w ∈ (f s).written, w ∈ s.written ∨ w.Due C s.status.jid) :
    Discreet C n (n.updateSession x f) := by
  refine ⟨rfl, id, ?_⟩
  intro y s' hs'
  rcases eq_or_ne y x with rfl | hne
  · rw [Node.updateSession_self] at hs'
    obtain ⟨s, hs, rfl⟩ := Option.map_eq_some_iff.mp hs'
    exact ⟨s, hs, hf s hs⟩
  · rw [Node.updateSession_of_ne n hne] at hs'
    exact ⟨s', hs', rfl, rfl, fun _ hw => .inl hw⟩

end Programs

namespace Concurrent

/-! ## A node -/

def Pc.reply : Pc → Option Packet
  | .publish reply | .storing _ reply => some reply
  | .idle | .kill _ _ _ | .auth _ _ | .logon _ | .fetch _ | .routing _ | .acting _ _ _ => none

def Pc.writes : Pc → List Dispatch
  | .storing ds _ => ds
  | .idle | .kill _ _ _ | .auth _ _ | .logon _ | .fetch _ | .publish _ | .routing _ | .acting _ _ _ => []

/-- What the goroutine of a session with this address is about to write and to send. -/
def Pc.Due (C : Codec) (jid : Bytes) (pc : Pc) : Prop :=
  (∀ reply ∈ pc.reply, (Written.answer reply).Due C jid) ∧ ∀ d ∈ pc.writes, Enters (Filed C) d.cmd

structure Private (C : Codec) (s : System) : Prop where
  entries : s.node.db.Entries (Filed C)
  nodeid : ∀ r : JID, s.node.nodeid ≠ r.toOfflineKey
  own : ∀ x sess, s.node.sessions x = some sess → ∀ r : JID, sess.status.nodeid ≠ r.toOfflineKey
  written : ∀ x sess, s.node.sessions x = some sess → ∀ w ∈ sess.written, w.Due C sess.status.jid
  pcs : ∀ x sess, s.node.sessions x = some sess → (s.pc x).Due C sess.status.jid
  idle : ∀ x, s.node.sessions x = none → s.pc x = .idle

variable {C : Codec} {consumers : Nat} {H : List (Bytes × JID)} {s t : System} {a : Action}
variable {n n' : Node} {x : Bytes} {env : Env}

theorem Pc.due_of_none {pc : Pc} (hReply : pc.reply = none) (hWrites : pc.writes = []) (jid : Bytes) :
    pc.Due C jid := by
  constructor
  · rw [hReply]
    exact fun _ hMem => by cases hMem
  · rw [hWrites]
    exact fun _ hMem => by cases hMem

/-- A session is replaced by one that nothing for anybody was written to. -/
theorem Private.replace (h : Private C s) {sess : Session} (hNodeid : t.node.nodeid = s.node.nodeid)
    (hSessions : t.node.sessions = Function.update s.node.sessions x (some sess))
    (hDb : t.node.db = s.node.db) (hOwn : ∀ r : JID, sess.status.nodeid ≠ r.toOfflineKey)
    (hWritten : ∀ w ∈ sess.written, w.Due C sess.status.jid)
    (hPc : (t.pc x).Due C sess.status.jid) (hPcs : ∀ y, y ≠ x → t.pc y = s.pc y) : Private C t := by
  have hSelf : t.node.sessions x = some sess := by rw [hSessions, Function.update_self]
  have hOther : ∀ {y}, y ≠ x → t.node.sessions y = s.node.sessions y := by
    intro y hne
    rw [hSessions, Function.update_of_ne hne]
  refine ⟨hDb ▸ h.entries, hNodeid ▸ h.nodeid, ?_, ?_, ?_, ?_⟩
  · intro y sess' hs'
    rcases eq_or_ne y x with rfl | hne
    · cases hSelf.symm.trans hs'
      exact hOwn
    · exact h.own y sess' ((hOther hne).symm.trans hs')
  · intro y sess' hs'
    rcases eq_or_ne y x with rfl | hne
    · cases hSelf.symm.trans hs'
      exact hWritten
    · exact h.written y sess' ((hOther hne).symm.trans hs')
  · intro y sess' hs'
    rcases eq_or_ne y x with rfl | hne
    · cases hSelf.symm.trans hs'
      exact hPc
    · rw [hPcs y hne]
      exact h.pcs y sess' ((hOther hne).symm.trans hs')
  · intro y hNone
    rcases eq_or_ne y x with rfl | hne
    · cases hSelf.symm.trans hNone
    · rw [hPcs y hne]
      exact h.idle y ((hOther hne).symm.trans hNone)

theorem Private.logon (h : Private C s) (hKnown : Known H s) {packet : Packet}
    (hPc : s.pc x = .logon packet) : Private C (s.session x (next C x env (s.pc x))) := by
  have hNow := hKnown.pcs x
  rw [hPc] at hNow
  obtain ⟨j, _, _, sess, hs, hJid, _⟩ := hNow
  have hSessions := congrArg Node.sessions (Node.updateSession_eq hs fun s =>
    { s with status :=
      { s.status with jid := packet.envelope.jid, status := .login, ct := env.timestamp10 } })
  have hWritten := h.written x sess hs
  rw [hJid] at hWritten
  rw [hPc]
  refine h.replace rfl hSessions rfl (h.own x sess hs) (fun w hw => (hWritten w hw).of_nil _) ?_ ?_
  · have hFetch : (s.session x (next C x env (.logon packet))).pc x = .fetch packet :=
      Function.update_self ..
    rw [hFetch]
    exact Pc.due_of_none rfl rfl _
  · exact fun y hne => Function.update_of_ne hne ..

section Cluster

variable {k : Nat} {S T : Cluster k} {m : Move k}

/-- What a node is left with when another one writes to the store. -/
theorem Private.setStore (h : Private C s) (h' : Private C t) : Private C (s.setStore t.node.db.store) where
  entries := h.entries.setStore h'.entries
  nodeid := h.nodeid
  own := h.own
  written := h.written
  pcs := h.pcs
  idle := h.idle

theorem Known.setStore (h : Known H s) (st : Store) : Known H (s.setStore st) := by
  refine h.step (List.Subset.refl H) (.of_sessions rfl rfl fun _ hit => hit) rfl ?_ ?_
  · exact fun _ => .inl rfl
  · exact fun _ => .inl rfl

variable {nodeid channel : Fin k → Bytes} {st : Store} {ms : List (Move k)}

/-- The session has presented the credentials of the user the packet is for. -/
def SentTo (accepted : List (Bytes × JID)) (x : Bytes) (sess : Session) (p : Packet) : Prop :=
  ∃ j r, newJID sess.status.jid = .ok j ∧ (x, j) ∈ accepted ∧ newJID p.envelope.to_ = .ok r ∧
    r.user = j.user ∧ r.domain = j.domain

theorem Known.sentTo (h : Known H s) {sess : Session} (hs : s.node.sessions x = some sess) {p : Packet}
    (hFor : IsFor sess.status.jid p) : SentTo H x sess p := by
  obtain ⟨j, r, hj, hr, hSame⟩ := hFor
  obtain ⟨hUser, hDomain⟩ := JID.bare_inj hSame
  rcases h.users x sess hs with ⟨sess', hs', hNone, _⟩ | ⟨j', sess', hs', hj', _, hMem⟩
  · cases hs.symm.trans hs'
    rw [hNone] at hj
    cases hj
  · cases hs.symm.trans hs'
    cases hj.symm.trans hj'
    exact ⟨j, r, hj, hMem, hr, hUser, hDomain⟩

end Cluster

end Concurrent

end Sara
