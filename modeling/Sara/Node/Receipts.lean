import Sara.Core.Mailbox
import Sara.Node.Ack

/-! # Unacknowledged messages stay, acknowledged ones do not come back

The sessions of one user on one node, one event at a time: a message is delivered to a
session or stored, a session logs in, acknowledges or closes. The queued writes are
executed before the next event. Each message has one place, and each event moves it from
the place it is in to the next; only an ack that a session handles after it was closed
is for a message that has left the session's buffer for the index.
-/

namespace Sara.Mailbox

open Lib Lib.Prog Lib.Transition Saradb
open Concurrent (ackDeletes serverAck_eq)

set_option autoImplicit false

/-- The node, and what has happened: the ids that were in the index at first, the messages
that were delivered, the ids in each login reply, by the id of the login, and the acked ids. -/
structure World where
  node : Node
  old : List Bytes
  mail : List Packet
  replies : List (Bytes × List Bytes)
  acked : List Bytes

inductive Event where
  | connect (x : Bytes)
  | deliver (x : Bytes) (p : Packet)
  | store (p : Packet)
  | login (x : Bytes) (i : Input)
  | ack (x : Bytes) (packet : Packet)
  | close (x : Bytes) (env : Env)
  | dtake (ch : Chan)
  | dexec (ch : Chan) (m : Nat)

def isUser (J : JID) (str : Bytes) : Bool :=
  (newJID str).toOption.any fun j => j.stringWithoutResource = J.stringWithoutResource

theorem isUser_iff {J : JID} {str : Bytes} :
    isUser J str = true ↔ ∃ j, newJID str = .ok j ∧ j.stringWithoutResource = J.stringWithoutResource := by
  simp [isUser, Option.any_eq_true, toOption_eq_some_iff]

/-- The ids of the messages in the last answer that was written to the session. -/
def replyIds (n : Node) (x : Bytes) : List Bytes :=
  match (n.sessions x).bind (·.written.getLast?) with
  | some (.answer reply) => (reply.delay.elim [] Delay.packets).map (·.envelope.id)
  | _ => []

namespace World

def start (C : Codec) (J : JID) (nodeid channel : Bytes) (st : Store) : World where
  node := (Concurrent.start nodeid channel st).node
  old := (Redis.hkeys st (offlineIndex J)).getD [] ++
    (((Redis.hvals st (offlineIndex J)).getD []).filterMap fun v => (newBasePacket C v).toOption).map
      (·.envelope.id)
  mail := []
  replies := []
  acked := []

def Quiet (w : World) : Prop := w.node.db.pending = []

instance (w : World) : Decidable w.Quiet := inferInstanceAs (Decidable (w.node.db.pending = []))

def ids (w : World) : List Bytes := w.old ++ w.mail.map (·.envelope.id) ++ w.replies.map (·.1)

/-- The packet that `verify` lets through. -/
def loginPacket (C : Codec) (w : World) (x : Bytes) (i : Input) : Option Packet :=
  match verify C x i.frame i.env w.node with
  | .done packet _ => packet
  | .panic _ => none

/-- What an ack of the session is for: the message with that id in the session's buffer, and
the messages in the reply to the login with that id. -/
def ackedBy (w : World) (x id : Bytes) : List Bytes :=
  (if (w.node.sessions x).any fun s => (s.pkgBuff[id]?).isSome then [id] else []) ++
    (w.replies.filter fun e => e.1 = id).flatMap (·.2)

def setDb (w : World) (db : Database) : World := { w with node := { w.node with db := db } }

end World

def Online (J : JID) (n : Node) (x : Bytes) : Prop :=
  ∃ s ∈ n.sessions x, s.status.status = .login ∧ isUser J s.status.jid = true

instance (J : JID) (n : Node) (x : Bytes) : Decidable (Online J n x) :=
  inferInstanceAs (Decidable (∃ s ∈ n.sessions x, s.status.status = .login ∧ isUser J s.status.jid = true))

def step (C : Codec) (J : JID) (consumers : Nat) (w : World) : Event → Option World
  | .connect x =>
    if isUuid x ∧ w.node.sessions x = none then
      some { w with node := { w.node with
        sessions := Function.update w.node.sessions x (some (newSession w.node.channel x w.node.nodeid)) } }
    else none
  | .deliver x p =>
    if w.Quiet ∧ Online J w.node x ∧ isUser J p.envelope.to_ then
      some { w with node := (routePacket C x p w.node).state, mail := w.mail ++ [p] }
    else none
  | .store p =>
    if w.Quiet ∧ isUser J p.envelope.to_ then
      some { w with node := (storePacket C p w.node).state, mail := w.mail ++ [p] }
    else none
  | .login x i =>
    if w.Quiet ∧ ∃ s ∈ w.node.sessions x, s.status.status = .conn then
      match w.loginPacket C x i with
      | none => none
      | some packet =>
        if isUser J packet.envelope.jid then
          let n := (openSession C x i.frame i.env w.node).state
          some { w with node := n, replies := w.replies ++ [(packet.envelope.id, replyIds n x)] }
        else none
    else none
  | .ack x packet =>
    if w.Quiet ∧ ∃ s ∈ w.node.sessions x, isUser J s.status.jid then
      some { w with
        node := (serverAck x packet w.node).state
        acked := w.acked ++ w.ackedBy x packet.envelope.id }
    else none
  | .close x env =>
    if w.Quiet ∧ (w.node.sessions x).isSome then
      some { w with node := (closeSession C x env w.node).state }
    else none
  | .dtake ch => (w.node.db.take consumers ch).map w.setDb
  | .dexec ch m => (w.node.db.execHeld ch m).map w.setDb

/-- A message under a new id, no key of the index, that is read back with that id. -/
def Admitted (C : Codec) (J : JID) (ids : List Bytes) (p : Packet) : Prop :=
  p.envelope.id ∉ ids ∧ p.envelope.id ≠ offlineIndex J ∧
    ∃ b ∈ (newBasePacket C (p.toJson C)).toOption, b.envelope.id = p.envelope.id

/-- Ids are not used twice. -/
def Admits (C : Codec) (J : JID) (w : World) : Event → Prop
  | .deliver _ p | .store p => Admitted C J w.ids p
  | .login x i => ∀ packet ∈ w.loginPacket C x i, packet.envelope.id ∉ w.ids
  | _ => True

/-- A session that was closed handles no ack for a message it holds that is in the index. -/
def InTime (J : JID) (w : World) : Event → Prop
  | .ack x packet => ∀ s ∈ w.node.sessions x, (s.pkgBuff[packet.envelope.id]?).isSome →
      s.status.status = .login ∨
        Redis.hget w.node.db.store (offlineIndex J) packet.envelope.id = none
  | _ => True

/-! ## Where each message is -/

/-- A message in a buffer is in that of a session that is logged in. -/
def Place.Fits (C : Codec) (J : JID) (n : Node) (p : Packet) (pl : Place) : Prop :=
  pl.InDb C J n.db p ∧ ∀ x, pl = .buffer x →
    ∃ s, n.sessions x = some s ∧ s.status.status = .login ∧ s.pkgBuff[p.envelope.id]? = some p

/-- What a session holds: messages it waits for, or, once it is closed, has given away. -/
structure Holds (J : JID) (nodeid : Bytes) (mail : List Packet) (place : Bytes → Place) (x : Bytes)
    (s : Session) : Prop where
  own : s.status.nodeid = nodeid
  conn : s.status.status = .conn → s.pkgBuff = ∅
  user : s.status.status = .login → isUser J s.status.jid = true
  mail : ∀ f p, s.pkgBuff[f]? = some p → p ∈ mail ∧ p.envelope.id = f
  login : ∀ f p, s.pkgBuff[f]? = some p → s.status.status = .login → place f = .buffer x
  gone : ∀ f p, s.pkgBuff[f]? = some p → s.status.status ≠ .login → ∀ y, place f ≠ .buffer y

structure Tracked (C : Codec) (J : JID) (w : World) (place : Bytes → Place) : Prop where
  box : Box C J w.old w.mail place w.node.db
  nodeid : w.node.nodeid ≠ J.toOfflineKey
  old : ∀ id ∈ w.old, id ≠ offlineIndex J
  mail : ∀ p ∈ w.mail, Admitted C J w.old p ∧ isUser J p.envelope.to_ = true
  holds : ∀ x s, w.node.sessions x = some s → Holds J w.node.nodeid w.mail place x s
  places : ∀ p ∈ w.mail, (place p.envelope.id).Fits C J w.node p
  acked : ∀ p ∈ w.mail, place p.envelope.id = .acked ↔ p.envelope.id ∈ w.acked
  ackedIds : ∀ id ∈ w.acked, id ∈ w.old ∨ ∃ p ∈ w.mail, p.envelope.id = id
  cache : ∀ id ids, w.node.oflCache id = some ids ↔ ids ≠ [] ∧ (id, ids) ∈ w.replies
  logins : ∀ e ∈ w.replies, ∀ p ∈ w.mail, p.envelope.id ≠ e.1
  replies : ∀ e ∈ w.replies, ∀ id ∈ e.2, id ∈ w.old ∨
    ∃ p ∈ w.mail, p.envelope.id = id ∧ ∀ x, place id ≠ .buffer x

section Events

variable {C : Codec} {J : JID} {consumers : Nat} {w w' : World} {place : Bytes → Place}

theorem forall_update_session {P : Bytes → Session → Prop} {sessions : Bytes → Option Session}
    {x : Bytes} {s' : Session} (hNew : P x s') (hOld : ∀ y s, y ≠ x → sessions y = some s → P y s) :
    ∀ y s, Function.update sessions x (some s') y = some s → P y s := by
  intro y s hs
  rcases eq_or_ne y x with rfl | hne
  · rw [Function.update_self] at hs
    exact Option.some.inj hs ▸ hNew
  · rw [Function.update_of_ne hne] at hs
    exact hOld y s hne hs

theorem Tracked.setDb (h : Tracked C J w place) {db : Database} (hBox : Box C J w.old w.mail place db)
    (hSettled : Settled C J w.mail place w.node.db db) : Tracked C J (w.setDb db) place where
  box := hBox
  nodeid := h.nodeid
  old := h.old
  mail := h.mail
  holds := h.holds
  places p hp := ⟨hSettled p hp (h.places p hp).1, (h.places p hp).2⟩
  acked := h.acked
  ackedIds := h.ackedIds
  cache := h.cache
  logins := h.logins
  replies := h.replies

theorem Holds.of_empty {nodeid x : Bytes} {mail : List Packet} {s : Session} (hEmpty : s.pkgBuff = ∅)
    (hOwn : s.status.nodeid = nodeid) (hUser : s.status.status = .login → isUser J s.status.jid = true) :
    Holds J nodeid mail place x s := by
  have hNone : ∀ (f : Bytes) (p : Packet), s.pkgBuff[f]? ≠ some p := by
    intro f p hp
    rw [hEmpty] at hp
    simp at hp
  exact ⟨hOwn, fun _ => hEmpty, hUser, fun f p hp => absurd hp (hNone f p),
    fun f p hp => absurd hp (hNone f p), fun f p hp => absurd hp (hNone f p)⟩

theorem Tracked.connect (h : Tracked C J w place) {x : Bytes} (hNew : w.node.sessions x = none) :
    Tracked C J { w with node := { w.node with
      sessions := Function.update w.node.sessions x (some (newSession w.node.channel x w.node.nodeid)) } }
      place where
  box := h.box
  nodeid := h.nodeid
  old := h.old
  mail := h.mail
  holds := by
    refine forall_update_session ?_ fun y s _ hs => h.holds y s hs
    exact .of_empty rfl rfl fun hLogin => by cases hLogin
  places p hp := by
    refine ⟨(h.places p hp).1, fun y hy => ?_⟩
    obtain ⟨s, hs, hRest⟩ := (h.places p hp).2 y hy
    have hne : y ≠ x := by
      rintro rfl
      cases hNew.symm.trans hs
    exact ⟨s, (Function.update_of_ne hne ..).trans hs, hRest⟩
  acked := h.acked
  ackedIds := h.ackedIds
  cache := h.cache
  logins := h.logins
  replies := h.replies

/-! ### A new message -/

section Add

variable {p : Packet} (hAdmitted : Admitted C J w.ids p)
include hAdmitted

theorem not_mem_of_admitted : p.envelope.id ∉ w.old ∧ (∀ q ∈ w.mail, q.envelope.id ≠ p.envelope.id) ∧
    ∀ e ∈ w.replies, p.envelope.id ≠ e.1 := by
  have hFresh := hAdmitted.1
  simp only [World.ids, List.mem_append, List.mem_map, not_or, not_exists, not_and] at hFresh
  exact ⟨hFresh.1.1, hFresh.1.2, fun e he hEq => hFresh.2 e he hEq.symm⟩

theorem place_of_mem {q : Packet} (hq : q ∈ w.mail) (pl : Place) :
    Function.update place p.envelope.id pl q.envelope.id = place q.envelope.id :=
  Function.update_of_ne ((not_mem_of_admitted hAdmitted).2.1 q hq) ..

theorem Tracked.box_add (h : Tracked C J w place) (hQuiet : w.Quiet) (pl : Place) :
    Box C J w.old (w.mail ++ [p]) (Function.update place p.envelope.id pl) w.node.db := by
  refine h.box.of_quiet hQuiet (fun q hq => List.mem_append_left _ hq) ?_ _
  obtain ⟨_, hNew, _⟩ := not_mem_of_admitted hAdmitted
  intro q hq q' hq' hId
  rcases List.mem_append.mp hq with hq | hq
  · rcases List.mem_append.mp hq' with hq' | hq'
    · exact h.box.inj q hq q' hq' hId
    · cases List.mem_singleton.mp hq'
      exact absurd hId (hNew q hq)
  · cases List.mem_singleton.mp hq
    rcases List.mem_append.mp hq' with hq' | hq'
    · exact absurd hId.symm (hNew q' hq')
    · exact (List.mem_singleton.mp hq').symm

theorem Holds.add {nodeid x : Bytes} {s : Session} (h : Holds J nodeid w.mail place x s) (pl : Place) :
    Holds J nodeid (w.mail ++ [p]) (Function.update place p.envelope.id pl) x s := by
  have hPlace : ∀ (f : Bytes) (q : Packet), s.pkgBuff[f]? = some q →
      Function.update place p.envelope.id pl f = place f := by
    intro f q hq
    obtain ⟨hMail, rfl⟩ := h.mail f q hq
    exact place_of_mem hAdmitted hMail pl
  refine { h with mail := ?_, login := ?_, gone := ?_ }
  · exact fun f q hq => ⟨List.mem_append_left _ (h.mail f q hq).1, (h.mail f q hq).2⟩
  · intro f q hq hLogin
    rw [hPlace f q hq]
    exact h.login f q hq hLogin
  · intro f q hq hLogin
    rw [hPlace f q hq]
    exact h.gone f q hq hLogin

theorem Tracked.hget_new (h : Tracked C J w place) :
    Redis.hget w.node.db.store (offlineIndex J) p.envelope.id = none := by
  obtain ⟨hOld, hNew, _⟩ := not_mem_of_admitted hAdmitted
  cases hGet : Redis.hget w.node.db.store (offlineIndex J) p.envelope.id with
  | none => rfl
  | some value =>
    rcases h.box.entries _ value hGet with ⟨q, hq, hId, _⟩ | ⟨hMem, _⟩
    · exact absurd hId (hNew q hq)
    · exact absurd hMem hOld

theorem Tracked.add (h : Tracked C J w place) (hTo : isUser J p.envelope.to_ = true) {pl : Place}
    (hPl : pl ≠ .acked) {n : Node} (hNodeid : n.nodeid = w.node.nodeid)
    (hCache : n.oflCache = w.node.oflCache)
    (hBox : Box C J w.old (w.mail ++ [p]) (Function.update place p.envelope.id pl) n.db)
    (hHolds : ∀ x s, n.sessions x = some s →
      Holds J w.node.nodeid (w.mail ++ [p]) (Function.update place p.envelope.id pl) x s)
    (hOld : ∀ q ∈ w.mail, (place q.envelope.id).Fits C J n q) (hNew : pl.Fits C J n p) :
    Tracked C J { w with node := n, mail := w.mail ++ [p] } (Function.update place p.envelope.id pl) := by
  obtain ⟨hNotOld, hNotMail, hNotLogin⟩ := not_mem_of_admitted hAdmitted
  have hBoth : ∀ {P : Packet → Prop}, (∀ q ∈ w.mail, P q) → P p → ∀ q ∈ w.mail ++ [p], P q := by
    intro P hq hp q hMem
    rcases List.mem_append.mp hMem with hMem | hMem
    · exact hq q hMem
    · exact List.mem_singleton.mp hMem ▸ hp
  refine ⟨hBox, hNodeid ▸ h.nodeid, h.old, ?_, ?_, ?_, ?_, ?_, ?_, ?_, ?_⟩
  · exact hBoth h.mail ⟨⟨hNotOld, hAdmitted.2⟩, hTo⟩
  · rw [hNodeid]
    exact hHolds
  · refine hBoth ?_ ?_
    · intro q hq
      rw [place_of_mem hAdmitted hq]
      exact hOld q hq
    · rw [Function.update_self]
      exact hNew
  · refine hBoth ?_ ?_
    · intro q hq
      rw [place_of_mem hAdmitted hq]
      exact h.acked q hq
    · rw [Function.update_self]
      refine ⟨fun hAcked => absurd hAcked hPl, fun hAcked => ?_⟩
      rcases h.ackedIds _ hAcked with hMem | ⟨q, hq, hId⟩
      · exact absurd hMem hNotOld
      · exact absurd hId (hNotMail q hq)
  · intro id hId
    rcases h.ackedIds id hId with hMem | ⟨q, hq, hEq⟩
    · exact .inl hMem
    · exact .inr ⟨q, List.mem_append_left _ hq, hEq⟩
  · rw [hCache]
    exact h.cache
  · exact fun e he => hBoth (h.logins e he) (hNotLogin e he)
  · intro e he id hId
    rcases h.replies e he id hId with hMem | ⟨q, hq, rfl, hPlace⟩
    · exact .inl hMem
    · refine .inr ⟨q, List.mem_append_left _ hq, rfl, ?_⟩
      rw [place_of_mem hAdmitted hq]
      exact hPlace

theorem Tracked.deliver (h : Tracked C J w place) (hQuiet : w.Quiet) {x : Bytes}
    (hOnline : Online J w.node x) (hTo : isUser J p.envelope.to_ = true) :
    Tracked C J { w with node := (routePacket C x p w.node).state, mail := w.mail ++ [p] }
      (Function.update place p.envelope.id (.buffer x)) := by
  obtain ⟨s, hs, hLogin, hUser⟩ := hOnline
  obtain ⟨j, hj, hJ⟩ := isUser_iff.mp hUser
  obtain ⟨r, hr, hR⟩ := isUser_iff.mp hTo
  obtain ⟨_, hNew, _⟩ := not_mem_of_admitted hAdmitted
  rw [routePacket_toMe hs hLogin hj hr (hJ.trans hR.symm), Outcome.state_done]
  have hHolds := (h.holds x s hs).add hAdmitted (.buffer x)
  refine h.add hAdmitted hTo (by simp) rfl rfl (h.box_add hAdmitted hQuiet _) ?_ ?_ ?_
  · refine forall_update_session ?_ fun y s' _ hs' => (h.holds y s' hs').add hAdmitted _
    refine ⟨hHolds.own, fun hConn => ?_, hHolds.user, ?_, ?_, fun _ _ _ hNot => absurd hLogin hNot⟩
    · cases hLogin.symm.trans hConn
    · intro f q hq
      rw [Std.ExtTreeMap.getElem?_insert] at hq
      split at hq
      · rename_i hId
        cases hq
        exact ⟨List.mem_append_right _ List.mem_cons_self, Std.LawfulEqOrd.eq_of_compare hId⟩
      · exact hHolds.mail f q hq
    · intro f q hq _
      rw [Std.ExtTreeMap.getElem?_insert] at hq
      split at hq
      · rename_i hId
        rw [← Std.LawfulEqOrd.eq_of_compare hId, Function.update_self]
      · exact hHolds.login f q hq hLogin
  · intro q hq
    refine ⟨(h.places q hq).1, fun y hy => ?_⟩
    obtain ⟨s', hs', hLogin', hBuff⟩ := (h.places q hq).2 y hy
    rcases eq_or_ne y x with rfl | hne
    · cases hs.symm.trans hs'
      refine ⟨_, Function.update_self .., hLogin, ?_⟩
      rw [Std.ExtTreeMap.getElem?_insert, if_neg]
      · exact hBuff
      · exact fun hId => hNew q hq (Std.LawfulEqOrd.eq_of_compare hId).symm
    · exact ⟨s', (Function.update_of_ne hne ..).trans hs', hLogin', hBuff⟩
  · refine ⟨h.hget_new hAdmitted, ?_⟩
    rintro y ⟨⟩
    exact ⟨_, Function.update_self .., hLogin, Std.ExtTreeMap.getElem?_insert_self⟩

theorem Tracked.store (h : Tracked C J w place) (hQuiet : w.Quiet)
    (hTo : isUser J p.envelope.to_ = true) :
    Tracked C J { w with node := (storePacket C p w.node).state, mail := w.mail ++ [p] }
      (Function.update place p.envelope.id .index) := by
  obtain ⟨r, hr, hR⟩ := isUser_iff.mp hTo
  rw [storePacket_ok hr, Outcome.state_done]
  have hBox := h.box_add hAdmitted hQuiet .index
  have hMem : p ∈ w.mail ++ [p] := List.mem_append_right _ List.mem_cons_self
  have hPlace : Function.update place p.envelope.id .index p.envelope.id = .index := Function.update_self ..
  obtain ⟨hBox', hSettled⟩ := hBox.send (tame_offlineWrites hMem hPlace hAdmitted.2.1 r)
  refine h.add hAdmitted hTo (by simp) rfl rfl hBox' ?_ ?_ ?_
  · exact fun y s' hs' => (h.holds y s' hs').add hAdmitted _
  · intro q hq
    have hIn := hSettled q (List.mem_append_left _ hq)
    rw [place_of_mem hAdmitted hq] at hIn
    exact ⟨hIn (h.places q hq).1, (h.places q hq).2⟩
  · refine ⟨?_, fun y hy => by cases hy⟩
    exact hBox.stored_offlineWrites hMem hPlace hAdmitted.2.1 (JID.toOfflineKey_inj.mpr hR)

end Add

/-! ### A login -/

theorem sessionid_ne_offlineIndex (j r : JID) : j.toSessionid ≠ offlineIndex r := by
  refine Store.ne_of_head? ?_
  rw [j.head?_toSessionid, offlineIndex, Store.head?_offlineIndex]
  decide

theorem tame_directory {mail : List Packet} {idx : Bytes} {c : Cmd} (hNode : idx ≠ J.toOfflineKey)
    (hc : c.key = indexKey idx ∨ ∃ j : JID, c.key = j.toSessionid) : Tame C J mail place c := by
  rcases hc with hKey | ⟨j, hKey⟩
  · exact .of_ne fun hEq => hNode (indexKey_inj.mp (hKey.symm.trans hEq))
  · exact .of_ne (hKey ▸ sessionid_ne_offlineIndex j J)

/-- A login reply holds messages of the index and messages that were there before. -/
theorem Tracked.mem_offlineIds (h : Tracked C J w place) {j : JID}
    (hj : j.stringWithoutResource = J.stringWithoutResource) {n : Node} (hDb : n.db = w.node.db)
    {id : Bytes} (hId : id ∈ offlineIds C n j) :
    id ∈ w.old ∨ ∃ p ∈ w.mail, p.envelope.id = id ∧ ∀ x, place id ≠ .buffer x := by
  obtain ⟨b, hb, rfl⟩ := List.mem_map.mp hId
  obtain ⟨value, hValue, hRead⟩ := List.mem_filterMap.mp hb
  rw [hDb, getByIdx, JID.toOfflineKey_inj.mpr hj] at hValue
  obtain ⟨field, hGet⟩ := Redis.exists_hget_of_mem_hvals hValue
  rcases h.box.entries field value hGet with ⟨p, hp, rfl, rfl⟩ | ⟨_, hOld⟩
  · obtain ⟨b', hb', hSame⟩ := (h.mail p hp).1.2.2
    cases hb'.symm.trans hRead
    refine .inr ⟨p, hp, hSame.symm, fun x hPlace => ?_⟩
    have hIn := (h.places p hp).1
    rw [← hSame, hPlace] at hIn
    cases hGet.symm.trans hIn
  · exact .inl (hOld b (toOption_eq_some_iff.mp hRead))

theorem mem_replies_iff {replies : List (Bytes × List Bytes)} {cache : Bytes → Option (List Bytes)}
    (hCache : ∀ id ids, cache id = some ids ↔ ids ≠ [] ∧ (id, ids) ∈ replies) {id : Bytes}
    (hNew : ∀ e ∈ replies, id ≠ e.1) (ids : List Bytes) (id' : Bytes) (ids' : List Bytes) :
    cacheReply cache id ids id' = some ids' ↔ ids' ≠ [] ∧ (id', ids') ∈ replies ++ [(id, ids)] := by
  rw [Concurrent.cacheReply_apply, List.mem_append, List.mem_singleton, Prod.mk.injEq]
  have hNot : ∀ l, (id, l) ∉ replies := fun l hl => hNew _ hl rfl
  split
  · rename_i hSame
    obtain ⟨rfl, hSome⟩ := hSame
    simp only [Option.some.injEq, hNot, false_or, true_and]
    constructor
    · rintro rfl
      exact ⟨hSome, rfl⟩
    · exact fun hEq => hEq.2.symm
  · rename_i hOther
    rw [hCache]
    refine and_congr_right fun hSome => ?_
    constructor
    · exact .inl
    · rintro (hOld | ⟨rfl, rfl⟩)
      · exact hOld
      · exact absurd ⟨rfl, hSome⟩ hOther

theorem Tracked.login (h : Tracked C J w place) {x : Bytes} {i : Input} {s : Session}
    (hs : w.node.sessions x = some s) (hConn : s.status.status = .conn) {packet : Packet}
    (hPacket : w.loginPacket C x i = some packet) (hUser : isUser J packet.envelope.jid = true)
    (hFresh : packet.envelope.id ∉ w.ids) :
    let n := (openSession C x i.frame i.env w.node).state
    Tracked C J { w with node := n, replies := w.replies ++ [(packet.envelope.id, replyIds n x)] }
      place := by
  intro n
  obtain ⟨j, hj, hJ⟩ := isUser_iff.mp hUser
  obtain ⟨n', hVerify⟩ : ∃ n', verify C x i.frame i.env w.node = .done (some packet) n' := by
    unfold World.loginPacket at hPacket
    split at hPacket
    · rename_i n' hVerify
      exact ⟨n', hPacket ▸ hVerify⟩
    · cases hPacket
  obtain ⟨router, rfl⟩ := (verify_done hVerify).1
  have hOpen := openSession_of_verify hVerify hs hj
  have hOwn := (h.holds x s hs).own
  simp only [World.ids, List.mem_append, List.mem_map, not_or, not_exists, not_and] at hFresh
  have hReply : replyIds n x = offlineIds C { w.node with router := router } j := by
    simp only [n, hOpen, Outcome.state_done, replyIds, Function.update_self, Option.bind_some,
      List.getLast?_append, List.getLast?_singleton, Option.some_or]
    rfl
  rw [hReply]
  simp only [n, hOpen, Outcome.state_done]
  have hTame : ∀ value, ∀ d ∈ putExWithIdx s.status.nodeid j.toSessionid value (-1),
      Tame C J w.mail place d.cmd := by
    intro value
    rw [putExWithIdx_toSessionid, hOwn]
    intro d hd
    rcases List.mem_pair.mp hd with rfl | rfl
    · exact tame_directory h.nodeid (.inl rfl)
    · exact tame_directory h.nodeid (.inr ⟨j, rfl⟩)
  obtain ⟨hBox, hSettled⟩ := h.box.send (hTame _)
  refine { h with box := hBox, holds := ?_, places := ?_, cache := ?_, logins := ?_, replies := ?_ }
  · refine forall_update_session ?_ fun y s' _ hs' => h.holds y s' hs'
    exact .of_empty ((h.holds x s hs).conn hConn) hOwn fun _ => hUser
  · intro p hp
    refine ⟨hSettled p hp (h.places p hp).1, fun y hy => ?_⟩
    obtain ⟨s', hs', hLogin, hBuff⟩ := (h.places p hp).2 y hy
    have hne : y ≠ x := by
      rintro rfl
      cases hs.symm.trans hs'
      cases hConn.symm.trans hLogin
    exact ⟨s', (Function.update_of_ne hne ..).trans hs', hLogin, hBuff⟩
  · exact mem_replies_iff h.cache (fun e he hEq => hFresh.2 e he hEq.symm) _
  · intro e he p hp
    rcases List.mem_append.mp he with he | he
    · exact h.logins e he p hp
    · cases List.mem_singleton.mp he
      exact hFresh.1.2 p hp
  · intro e he id hId
    rcases List.mem_append.mp he with he | he
    · exact h.replies e he id hId
    · cases List.mem_singleton.mp he
      exact h.mem_offlineIds hJ rfl hId

/-! ### An ack -/

def ackPlaces (place : Bytes → Place) (acks : List Bytes) (f : Bytes) : Place :=
  if f ∈ acks then .acked else place f

theorem mem_ackedBy {x id f : Bytes} {s : Session} (hs : w.node.sessions x = some s) :
    f ∈ w.ackedBy x id ↔ f = id ∧ (s.pkgBuff[id]?).isSome ∨ ∃ e ∈ w.replies, e.1 = id ∧ f ∈ e.2 := by
  simp only [World.ackedBy, hs, Option.any_some, List.mem_append, List.mem_flatMap, List.mem_filter,
    decide_eq_true_eq, and_assoc]
  refine or_congr ?_ Iff.rfl
  split
  · rename_i hSome
    simp [hSome]
  · rename_i hNone
    simp [hNone]

section Ack

variable {x id : Bytes} {s : Session} (hs : w.node.sessions x = some s) (h : Tracked C J w place)
include hs h

/-- A message that waits in a buffer is acked by its own id, by its session. -/
theorem Tracked.own_of_ackedBy {p : Packet} (hp : p ∈ w.mail) (hMem : p.envelope.id ∈ w.ackedBy x id)
    {y : Bytes} (hPlace : place p.envelope.id = .buffer y) :
    y = x ∧ p.envelope.id = id ∧ s.status.status = .login ∧ s.pkgBuff[id]? = some p := by
  rcases (mem_ackedBy hs).mp hMem with ⟨rfl, hSome⟩ | ⟨e, he, _, hf⟩
  · obtain ⟨q, hq⟩ := Option.isSome_iff_exists.mp hSome
    obtain ⟨hMail, hId⟩ := (h.holds x s hs).mail _ q hq
    obtain rfl := h.box.inj q hMail p hp hId
    by_cases hLogin : s.status.status = .login
    · have hSame := (h.holds x s hs).login _ q hq hLogin
      rw [hPlace] at hSame
      cases hSame
      exact ⟨rfl, rfl, hLogin, hq⟩
    · exact absurd hPlace ((h.holds x s hs).gone _ q hq hLogin y)
  · rcases h.replies e he _ hf with hOld | ⟨_, _, _, hNot⟩
    · exact absurd hOld (h.mail p hp).1.1
    · exact absurd hPlace (hNot y)

theorem Tracked.ackedBy_known {f : Bytes} (hMem : f ∈ w.ackedBy x id) :
    f ∈ w.old ∨ ∃ p ∈ w.mail, p.envelope.id = f := by
  rcases (mem_ackedBy hs).mp hMem with ⟨rfl, hSome⟩ | ⟨e, he, _, hf⟩
  · obtain ⟨q, hq⟩ := Option.isSome_iff_exists.mp hSome
    exact .inr ⟨q, (h.holds x s hs).mail _ q hq⟩
  · rcases h.replies e he _ hf with hOld | ⟨p, hp, hId, _⟩
    · exact .inl hOld
    · exact .inr ⟨p, hp, hId⟩

/-- A session keeps what it holds, but for what it has acknowledged. -/
theorem Holds.ack {y : Bytes} {t : Session} (ht : Holds J w.node.nodeid w.mail place y t)
    (hOther : y = x → t.pkgBuff[id]? = none) :
    Holds J w.node.nodeid w.mail (ackPlaces place (w.ackedBy x id)) y t := by
  refine ⟨ht.own, ht.conn, ht.user, ht.mail, ?_, ?_⟩
  · intro f p hp hLogin
    have hPlace := ht.login f p hp hLogin
    obtain ⟨hMail, rfl⟩ := ht.mail f p hp
    have hNot : p.envelope.id ∉ w.ackedBy x id := by
      intro hMem
      obtain ⟨rfl, hId, _, _⟩ := h.own_of_ackedBy hs hMail hMem hPlace
      rw [hId, hOther rfl] at hp
      cases hp
    rw [ackPlaces, if_neg hNot]
    exact hPlace
  · intro f p hp hLogin z
    unfold ackPlaces
    split
    · exact fun hEq => by cases hEq
    · exact ht.gone f p hp hLogin z

/-- What an ack changes: the database, or the buffer of the session. -/
theorem Tracked.acks {n : Node} (hNodeid : n.nodeid = w.node.nodeid)
    (hCache : n.oflCache = w.node.oflCache)
    (hBox : Box C J w.old w.mail (ackPlaces place (w.ackedBy x id)) n.db)
    (hHolds : ∀ y t, n.sessions y = some t →
      Holds J w.node.nodeid w.mail (ackPlaces place (w.ackedBy x id)) y t)
    (hAcked : ∀ p ∈ w.mail, p.envelope.id ∈ w.ackedBy x id → Place.acked.InDb C J n.db p)
    (hOthers : ∀ p ∈ w.mail, p.envelope.id ∉ w.ackedBy x id →
      (place p.envelope.id).Fits C J n p) :
    Tracked C J { w with node := n, acked := w.acked ++ w.ackedBy x id }
      (ackPlaces place (w.ackedBy x id)) := by
  refine ⟨hBox, hNodeid ▸ h.nodeid, h.old, h.mail, ?_, ?_, ?_, ?_, ?_, h.logins, ?_⟩
  · rw [hNodeid]
    exact hHolds
  · intro p hp
    unfold ackPlaces
    split
    · rename_i hMem
      exact ⟨hAcked p hp hMem, fun y hy => by cases hy⟩
    · rename_i hNot
      exact hOthers p hp hNot
  · intro p hp
    rw [ackPlaces, List.mem_append]
    split
    · rename_i hMem
      simp [hMem]
    · rename_i hNot
      rw [h.acked p hp]
      simp [hNot]
  · intro f hf
    rcases List.mem_append.mp hf with hOld | hNew
    · exact h.ackedIds f hOld
    · exact h.ackedBy_known hs hNew
  · rw [hCache]
    exact h.cache
  · intro e he f hf
    rcases h.replies e he f hf with hOld | ⟨p, hp, hId, hNot⟩
    · exact .inl hOld
    · refine .inr ⟨p, hp, hId, fun y => ?_⟩
      unfold ackPlaces
      split
      · exact fun hEq => by cases hEq
      · exact hNot y

theorem Tracked.ack_reply (hQuiet : w.Quiet) {j : JID}
    (hJ : j.stringWithoutResource = J.stringWithoutResource) {ids : List Bytes}
    (hCached : w.node.oflCache id = some ids) :
    Tracked C J { w with node := w.node.send (ackDeletes j ids), acked := w.acked ++ w.ackedBy x id }
      (ackPlaces place (w.ackedBy x id)) := by
  obtain ⟨_, hReply⟩ := (h.cache id ids).mp hCached
  have hNotMail : s.pkgBuff[id]? = none := by
    cases hp : s.pkgBuff[id]? with
    | none => rfl
    | some p =>
      obtain ⟨hMail, hId⟩ := (h.holds x s hs).mail id p hp
      exact absurd hId (h.logins _ hReply p hMail)
  have hMem : ∀ f, f ∈ w.ackedBy x id ↔ f ∈ ids := by
    intro f
    rw [mem_ackedBy hs, hNotMail]
    constructor
    · rintro (⟨_, hSome⟩ | ⟨⟨id', ids'⟩, he, rfl, hf⟩)
      · cases hSome
      · have hSame := (h.cache id' ids').mpr ⟨List.ne_nil_of_mem hf, he⟩
        cases hCached.symm.trans hSame
        exact hf
    · exact fun hf => .inr ⟨_, hReply, rfl, hf⟩
  have hBox := h.box.of_quiet hQuiet (fun _ hp => hp) h.box.inj (ackPlaces place (w.ackedBy x id))
  have hTame : ∀ d ∈ ackDeletes j ids, Tame C J w.mail (ackPlaces place (w.ackedBy x id)) d.cmd := by
    intro d hd
    obtain ⟨f, hf, hd⟩ := List.mem_flatMap.mp hd
    refine tame_deleteByIdxKey ?_ (fun _ _ _ => if_pos ((hMem f).mpr hf)) _ d hd
    rcases h.ackedBy_known hs ((hMem f).mpr hf) with hOld | ⟨p, hp, rfl⟩
    · exact h.old f hOld
    · exact (h.mail p hp).1.2.1
  obtain ⟨hBox', hSettled⟩ := hBox.send hTame
  refine h.acks hs rfl rfl hBox' ?_ ?_ ?_
  · intro y t ht
    refine (h.holds y t ht).ack hs h ?_
    rintro rfl
    cases hs.symm.trans ht
    exact hNotMail
  · intro p hp hAcked
    have hQueued : ∀ d ∈ ackDeletes j ids, ∃ ch c, d = .queued ch c := by
      intro d hd
      obtain ⟨f, _, hd⟩ := List.mem_flatMap.mp hd
      rcases List.mem_pair.mp hd with rfl | rfl
      · exact ⟨_, _, rfl⟩
      · exact ⟨_, _, rfl⟩
    refine .inr ((Database.pending_send hQueued w.node.db).mem_iff.mpr (List.mem_append_left _ ?_))
    refine List.mem_map.mpr ⟨_, List.mem_flatMap.mpr ⟨_, (hMem _).mp hAcked, List.mem_cons_self⟩, ?_⟩
    rw [JID.toOfflineKey_inj.mpr hJ]
    rfl
  · intro p hp hNot
    have hIn := hSettled p hp
    rw [ackPlaces, if_neg hNot] at hIn
    exact ⟨hIn (h.places p hp).1, (h.places p hp).2⟩

theorem Tracked.ack_own (hQuiet : w.Quiet) (hCached : w.node.oflCache id = none)
    (hInTime : (s.pkgBuff[id]?).isSome → s.status.status = .login ∨
      Redis.hget w.node.db.store (offlineIndex J) id = none) :
    Tracked C J { w with
        node := w.node.updateSession x fun s => { s with pkgBuff := s.pkgBuff.erase id }
        acked := w.acked ++ w.ackedBy x id }
      (ackPlaces place (w.ackedBy x id)) := by
  rw [Node.updateSession_eq hs]
  have hMem : ∀ f, f ∈ w.ackedBy x id ↔ f = id ∧ (s.pkgBuff[id]?).isSome := by
    intro f
    rw [mem_ackedBy hs]
    refine or_iff_left ?_
    rintro ⟨⟨id', ids'⟩, he, rfl, hf⟩
    have hSame := (h.cache id' ids').mpr ⟨List.ne_nil_of_mem hf, he⟩
    cases hCached.symm.trans hSame
  have hHolds := h.holds x s hs
  have hErased : ∀ (f : Bytes) (p : Packet), (s.pkgBuff.erase id)[f]? = some p → s.pkgBuff[f]? = some p := by
    intro f p hp
    rw [Std.ExtTreeMap.getElem?_erase] at hp
    split at hp
    · cases hp
    · exact hp
  refine h.acks hs rfl rfl (h.box.of_quiet hQuiet (fun _ hp => hp) h.box.inj _) ?_ ?_ ?_
  · refine forall_update_session ?_ ?_
    · refine Holds.ack hs h ⟨hHolds.own, fun hConn => ?_, hHolds.user, ?_, ?_, ?_⟩ fun _ => ?_
      · rw [hHolds.conn hConn]
        simp
      · exact fun f p hp => hHolds.mail f p (hErased f p hp)
      · exact fun f p hp => hHolds.login f p (hErased f p hp)
      · exact fun f p hp => hHolds.gone f p (hErased f p hp)
      · simp
    · exact fun y t hne ht => (h.holds y t ht).ack hs h fun hEq => absurd hEq hne
  · intro p hp hAcked
    obtain ⟨hId, hSome⟩ := (hMem _).mp hAcked
    refine .inl ?_
    rcases hInTime hSome with hLogin | hNone
    · obtain ⟨q, hq⟩ := Option.isSome_iff_exists.mp hSome
      have hPlace := hHolds.login id q hq hLogin
      have hIn := (h.places p hp).1
      rw [hId, hPlace] at hIn
      exact hIn
    · rw [hId]
      exact hNone
  · intro p hp hNot
    refine ⟨(h.places p hp).1, fun y hy => ?_⟩
    obtain ⟨t, ht, hLogin, hBuff⟩ := (h.places p hp).2 y hy
    rcases eq_or_ne y x with rfl | hne
    · cases hs.symm.trans ht
      refine ⟨_, Function.update_self .., hLogin, ?_⟩
      rw [Std.ExtTreeMap.getElem?_erase, if_neg]
      · exact hBuff
      · intro hId
        have hEq := Std.LawfulEqOrd.eq_of_compare hId
        exact hNot ((hMem _).mpr ⟨hEq.symm, by rw [hEq, hBuff]; rfl⟩)
    · exact ⟨t, (Function.update_of_ne hne ..).trans ht, hLogin, hBuff⟩

end Ack

/-! ### A close -/

def closePlaces (place : Bytes → Place) (x f : Bytes) : Place :=
  if place f = .buffer x then .index else place f

theorem Box.dropEntry {old : List Bytes} {mail : List Packet} {db : Database}
    (h : Box C J old mail place db) {st : SessionStatus} (hNode : st.nodeid ≠ J.toOfflineKey) :
    Box C J old mail place (dropEntry db st) ∧ Settled C J mail place db (dropEntry db st) := by
  unfold Sara.dropEntry
  split
  · rename_i j _ _
    rw [deleteByIdxKey_toSessionid]
    refine h.send fun d hd => ?_
    rcases List.mem_pair.mp hd with rfl | rfl
    · exact tame_directory hNode (.inl rfl)
    · exact tame_directory hNode (.inr ⟨j, rfl⟩)
  · exact ⟨h, Settled.refl db⟩

theorem Box.storeAll {old : List Bytes} {mail ps : List Packet} {n : Node}
    (h : Box C J old mail place n.db)
    (hps : ∀ p ∈ ps, p ∈ mail ∧ place p.envelope.id = .index ∧ p.envelope.id ≠ offlineIndex J ∧
      isUser J p.envelope.to_ = true) :
    ∃ db, ps.forM (storePacket C) n = .done () { n with db := db } ∧ Box C J old mail place db ∧
      Settled C J mail place n.db db ∧ ∀ p ∈ ps, Stored C db J p := by
  induction ps generalizing n with
  | nil => exact ⟨n.db, rfl, h, Settled.refl _, fun p hp => by cases hp⟩
  | cons p ps ih =>
    obtain ⟨hMail, hPlace, hId, hTo⟩ := hps p List.mem_cons_self
    obtain ⟨r, hr, hR⟩ := isUser_iff.mp hTo
    have hTame := tame_offlineWrites (C := C) hMail hPlace hId r
    obtain ⟨hBox, hSettled⟩ := h.send hTame
    have hStored := h.stored_offlineWrites hMail hPlace hId (JID.toOfflineKey_inj.mpr hR)
    have hFirst : (p :: ps).forM (storePacket C) n =
        ps.forM (storePacket C) (n.send (offlineWrites C r p)) := bind_done (storePacket_ok hr n) _
    obtain ⟨db, hDone, hBox', hSettled', hAll⟩ := ih (n := n.send (offlineWrites C r p)) hBox
      fun q hq => hps q (List.mem_cons_of_mem p hq)
    refine ⟨db, hFirst.trans hDone, hBox', hSettled.trans hSettled', ?_⟩
    intro q hq
    rcases List.mem_cons.mp hq with rfl | hq
    · have hIn := hSettled' q hMail
      rw [hPlace] at hIn
      exact hIn hStored
    · exact hAll q hq

section Closing

variable {nodeid x : Bytes} {mail : List Packet} {s : Session}

theorem Holds.buffered (h : Holds J nodeid mail place x s) (hOpen : s.status.status ≠ .close)
    {f : Bytes} {p : Packet} (hp : s.pkgBuff[f]? = some p) : place f = .buffer x := by
  cases hStatus : s.status.status with
  | conn =>
    rw [h.conn hStatus] at hp
    simp at hp
  | login => exact h.login f p hp hStatus
  | close => exact absurd hStatus hOpen

theorem Holds.visited (h : Holds J nodeid mail place x s) (env : Env) {p : Packet}
    (hp : p ∈ env.visit (s.pkgBuff.toList.map Prod.snd)) : s.pkgBuff[p.envelope.id]? = some p := by
  obtain ⟨⟨f, q⟩, hq, rfl⟩ := List.mem_map.mp ((env.visit_perm _).mem_iff.mp hp)
  have hGet := Std.ExtTreeMap.mem_toList_iff_getElem?_eq_some.mp hq
  rw [(h.mail f q hGet).2]
  exact hGet

theorem Holds.closed (h : Holds J nodeid mail place x s) (hOpen : s.status.status ≠ .close) :
    Holds J nodeid mail (closePlaces place x) x
      { s with status := { s.status with status := .close }, connClosed := true } := by
  refine ⟨h.own, fun hConn => (by cases hConn), fun hLogin => (by cases hLogin), h.mail,
    fun _ _ _ hLogin => (by cases hLogin), ?_⟩
  intro f p hp _ y
  rw [closePlaces, if_pos (h.buffered hOpen hp)]
  exact fun hEq => by cases hEq

theorem Holds.beside (h : Holds J nodeid mail place x s) {y : Bytes} (hne : x ≠ y) :
    Holds J nodeid mail (closePlaces place y) x s := by
  refine { h with login := ?_, gone := ?_ }
  · intro f p hp hLogin
    have hPlace := h.login f p hp hLogin
    rw [closePlaces, if_neg]
    · exact hPlace
    · intro hEq
      cases hPlace.symm.trans hEq
      exact hne rfl
  · intro f p hp hLogin z
    rw [closePlaces, if_neg (h.gone f p hp hLogin y)]
    exact h.gone f p hp hLogin z

end Closing

theorem Tracked.close (h : Tracked C J w place) (hQuiet : w.Quiet) {x : Bytes} {s : Session}
    (hs : w.node.sessions x = some s) (env : Env) :
    ∃ place', Tracked C J { w with node := (closeSession C x env w.node).state } place' := by
  by_cases hClose : s.status.status = .close
  · rw [closeSession_of_close C hs hClose]
    exact ⟨place, h⟩
  have hHolds := h.holds x s hs
  have hUser : s.status.status = .login → ∃ j, newJID s.status.jid = .ok j := by
    intro hLogin
    obtain ⟨j, hj, _⟩ := isUser_iff.mp (hHolds.user hLogin)
    exact ⟨j, hj⟩
  have hBox := h.box.of_quiet hQuiet (fun _ hp => hp) h.box.inj (closePlaces place x)
  have hNode : s.status.nodeid ≠ J.toOfflineKey := hHolds.own ▸ h.nodeid
  obtain ⟨hBox₁, hSettled₁⟩ := hBox.dropEntry hNode
  have hReady : ∀ p ∈ env.visit (s.pkgBuff.toList.map Prod.snd), p ∈ w.mail ∧
      closePlaces place x p.envelope.id = .index ∧ p.envelope.id ≠ offlineIndex J ∧
        isUser J p.envelope.to_ = true := by
    intro p hp
    have hBuff := hHolds.visited env hp
    obtain ⟨hMail, _⟩ := hHolds.mail _ p hBuff
    exact ⟨hMail, if_pos (hHolds.buffered hClose hBuff), (h.mail p hMail).1.2.1, (h.mail p hMail).2⟩
  obtain ⟨db, hDone, hBox₂, hSettled₂, hStored⟩ := hBox₁.storeAll (n := w.node.closed x s) hReady
  refine ⟨closePlaces place x, ?_⟩
  rw [closeSession_of_open C hs hClose hUser, pkgBuffToStore, hDone, Outcome.state_done]
  refine { h with box := hBox₂, holds := ?_, places := ?_, acked := ?_, replies := ?_ }
  · refine forall_update_session ?_ ?_
    · exact hHolds.closed hClose
    · intro y t hne ht
      exact (h.holds y t ht).beside hne
  · intro p hp
    obtain ⟨hIn, hSession⟩ := h.places p hp
    have hKept := fun hEq => (hSettled₁.trans hSettled₂) p hp hEq
    unfold closePlaces at hKept ⊢
    split at hKept
    · rename_i hPlace
      rw [if_pos hPlace]
      obtain ⟨t, ht, _, hBuff⟩ := hSession x hPlace
      cases hs.symm.trans ht
      refine ⟨hStored p ((env.visit_perm _).mem_iff.mpr ?_), fun y hy => by cases hy⟩
      exact List.mem_map_of_mem (Std.ExtTreeMap.mem_toList_iff_getElem?_eq_some.mpr hBuff)
    · rename_i hPlace
      rw [if_neg hPlace]
      refine ⟨hKept hIn, fun y hy => ?_⟩
      obtain ⟨t, ht, hRest⟩ := hSession y hy
      have hne : y ≠ x := by
        rintro rfl
        exact hPlace hy
      exact ⟨t, (Function.update_of_ne hne ..).trans ht, hRest⟩
  · intro p hp
    rw [← h.acked p hp, closePlaces]
    split
    · rename_i hPlace
      simp [hPlace]
    · exact Iff.rfl
  · intro e he id hId
    rcases h.replies e he id hId with hOld | ⟨p, hp, hEq, hNot⟩
    · exact .inl hOld
    · refine .inr ⟨p, hp, hEq, ?_⟩
      rw [closePlaces, if_neg (hNot x)]
      exact hNot

theorem Tracked.step (h : Tracked C J w place) {e : Event} (hAdmits : Admits C J w e)
    (hInTime : InTime J w e) (hStep : step C J consumers w e = some w') :
    ∃ place', Tracked C J w' place' := by
  cases e with
  | connect x =>
    obtain ⟨hNew, hEq⟩ := Option.ite_none_right_eq_some.mp hStep
    cases hEq
    exact ⟨place, h.connect hNew.2⟩
  | deliver x p =>
    obtain ⟨⟨hQuiet, hOnline, hTo⟩, hEq⟩ := Option.ite_none_right_eq_some.mp hStep
    cases hEq
    exact ⟨_, h.deliver hAdmits hQuiet hOnline hTo⟩
  | store p =>
    obtain ⟨⟨hQuiet, hTo⟩, hEq⟩ := Option.ite_none_right_eq_some.mp hStep
    cases hEq
    exact ⟨_, h.store hAdmits hQuiet hTo⟩
  | login x i =>
    obtain ⟨⟨_, s, hs, hConn⟩, hEq⟩ := Option.ite_none_right_eq_some.mp hStep
    split at hEq
    · cases hEq
    · rename_i packet hPacket
      obtain ⟨hUser, hEq⟩ := Option.ite_none_right_eq_some.mp hEq
      cases hEq
      exact ⟨place, h.login hs hConn hPacket hUser (hAdmits packet hPacket)⟩
  | ack x packet =>
    obtain ⟨⟨hQuiet, s, hs, hUser⟩, hEq⟩ := Option.ite_none_right_eq_some.mp hStep
    cases hEq
    obtain ⟨j, hj, hJ⟩ := isUser_iff.mp hUser
    refine ⟨ackPlaces place (w.ackedBy x packet.envelope.id), ?_⟩
    rw [serverAck_eq hs hj]
    cases hCached : w.node.oflCache packet.envelope.id with
    | none => exact h.ack_own hs hQuiet hCached (hInTime s hs)
    | some ids => exact h.ack_reply hs hQuiet hJ hCached
  | close x env =>
    obtain ⟨⟨hQuiet, hSome⟩, hEq⟩ := Option.ite_none_right_eq_some.mp hStep
    cases hEq
    obtain ⟨s, hs⟩ := Option.isSome_iff_exists.mp hSome
    exact h.close hQuiet hs env
  | dtake ch =>
    obtain ⟨db, hTake, rfl⟩ := Option.map_eq_some_iff.mp hStep
    obtain ⟨hBox, hSettled⟩ := h.box.take hTake
    exact ⟨place, h.setDb hBox hSettled⟩
  | dexec ch m =>
    obtain ⟨db, hExec, rfl⟩ := Option.map_eq_some_iff.mp hStep
    obtain ⟨hBox, hSettled⟩ := h.box.execHeld hExec
    exact ⟨place, h.setDb hBox hSettled⟩

theorem tracked_start {nodeid channel : Bytes} {st : Store} (hNode : nodeid ≠ J.toOfflineKey)
    (hIndex : IndexHash st J.toOfflineKey)
    (hOld : ∀ id ∈ (World.start C J nodeid channel st).old, id ≠ offlineIndex J) (place : Bytes → Place) :
    Tracked C J (World.start C J nodeid channel st) place := by
  refine ⟨⟨?_, hIndex, ?_, ?_⟩, hNode, hOld, ?_, ?_, ?_, ?_, ?_, ?_, ?_, ?_⟩
  · intro p hp
    cases hp
  · intro field value hGet
    obtain ⟨hKey, hValue⟩ := Redis.mem_of_hget hGet
    refine .inr ⟨List.mem_append_left _ hKey, fun b hb => List.mem_append_right _ ?_⟩
    exact List.mem_map_of_mem (List.mem_filterMap.mpr ⟨value, hValue, toOption_eq_some_iff.mpr hb⟩)
  · intro c hc
    cases hc
  · intro p hp
    cases hp
  · intro x s hs
    cases hs
  · intro p hp
    cases hp
  · intro p hp
    cases hp
  · intro id hId
    cases hId
  · intro id ids
    constructor
    · intro hCached
      cases hCached
    · rintro ⟨_, hReply⟩
      cases hReply
  · intro e he
    cases he
  · intro e he
    cases he

end Events

/-- Between events a message that is not acked is in the buffer of a session of the user that
is logged in, or in the user's index, and one that is acked is in neither, if no session
handles an ack for a message that it has given to the index. -/
theorem mail_kept_until_acked (C : Codec) (J : JID) (consumers : Nat) (nodeid channel : Bytes)
    (st : Store) (hNode : nodeid ≠ J.toOfflineKey) (hIndex : IndexHash st J.toOfflineKey)
    (hOld : ∀ id ∈ (World.start C J nodeid channel st).old, id ≠ offlineIndex J)
    {es : List Event} {t : World}
    (hRun : run (step C J consumers) (World.start C J nodeid channel st) es = some t)
    (hGuard : Guarded (step C J consumers) (fun w e => Admits C J w e ∧ InTime J w e)
      (World.start C J nodeid channel st) es)
    (hQuiet : t.Quiet) {p : Packet} (hp : p ∈ t.mail) :
    (p.envelope.id ∉ t.acked →
      (∃ x s, t.node.sessions x = some s ∧ s.status.status = .login ∧
        isUser J s.status.jid = true ∧ s.pkgBuff[p.envelope.id]? = some p) ∨
      Redis.hget t.node.db.store (offlineIndex J) p.envelope.id = some (p.toJson C)) ∧
    (p.envelope.id ∈ t.acked →
      (∀ x s, t.node.sessions x = some s → s.status.status = .login →
        s.pkgBuff[p.envelope.id]? = none) ∧
      Redis.hget t.node.db.store (offlineIndex J) p.envelope.id = none) := by
  have hTracked : ∃ place, Tracked C J t place := by
    refine guarded_induction (P := fun _ t => ∃ place, Tracked C J t place)
      ⟨fun _ => .index, tracked_start hNode hIndex hOld _⟩ ?_ hRun hGuard
    rintro _ w e w' _ _ ⟨place, h⟩ ⟨hAdmits, hInTime⟩ hStep
    exact h.step hAdmits hInTime hStep
  obtain ⟨place, h⟩ := hTracked
  have hNone : ∀ c, c ∉ t.node.db.pending := by
    intro c hc
    rw [show t.node.db.pending = [] from hQuiet] at hc
    cases hc
  obtain ⟨hIn, hSession⟩ := h.places p hp
  constructor
  · intro hNot
    cases hPlace : place p.envelope.id with
    | buffer x =>
      obtain ⟨s, hs, hLogin, hBuff⟩ := hSession x hPlace
      exact .inl ⟨x, s, hs, hLogin, (h.holds x s hs).user hLogin, hBuff⟩
    | index =>
      rw [hPlace] at hIn
      exact .inr (hIn.resolve_right (hNone _))
    | acked => exact absurd ((h.acked p hp).mp hPlace) hNot
  · intro hAcked
    have hPlace := (h.acked p hp).mpr hAcked
    rw [hPlace] at hIn
    refine ⟨fun x s hs hLogin => ?_, hIn.resolve_right (hNone _)⟩
    cases hBuff : s.pkgBuff[p.envelope.id]? with
    | none => rfl
    | some q => cases hPlace.symm.trans ((h.holds x s hs).login _ q hBuff hLogin)

/-! ## A user with two sessions -/

open Concurrent (bob loginInput ackPacket)

instance (C : Codec) (J : JID) (ids : List Bytes) (p : Packet) : Decidable (Admitted C J ids p) :=
  inferInstanceAs (Decidable (_ ∧ _ ∧ ∃ b ∈ (newBasePacket C (p.toJson C)).toOption,
    b.envelope.id = p.envelope.id))

instance (C : Codec) (J : JID) (w : World) : (e : Event) → Decidable (Admits C J w e)
  | .deliver _ p | .store p => inferInstanceAs (Decidable (Admitted C J w.ids p))
  | .login x i =>
    inferInstanceAs (Decidable (∀ packet ∈ w.loginPacket C x i, packet.envelope.id ∉ w.ids))
  | .connect _ | .ack _ _ | .close _ _ | .dtake _ | .dexec _ _ => isTrue trivial

instance (J : JID) (w : World) : (e : Event) → Decidable (InTime J w e)
  | .ack x packet => inferInstanceAs (Decidable (∀ s ∈ w.node.sessions x,
      (s.pkgBuff[packet.envelope.id]?).isSome → s.status.status = .login ∨
        Redis.hget w.node.db.store (offlineIndex J) packet.envelope.id = none))
  | .connect _ | .deliver _ _ | .store _ | .login _ _ | .close _ _ | .dtake _ | .dexec _ _ => isTrue trivial

def bobsWorld : World :=
  World.start PlainJson.codec bob (text "node01") (text "node01:4281") fun _ => none

def letter (id : String) : Packet := Concurrent.mail id "bob@x"

def enters (x id : String) : List Event := [.connect (text x), .login (text x) (loginInput id "bob@x")]

def drains (ch : Chan) : List Event := [.dtake ch, .dtake ch, .dexec ch 0, .dexec ch 0]

def leaves (x : String) : List Event :=
  .close (text x) (Env.plain true) :: drains .session ++ drains .message

/-- A session that is closed handles the ack of a message that is in the index by now. -/
theorem late_ack_leaves_message : ∃ t, run (step PlainJson.codec bob 20) bobsWorld (enters "a1" "1" ++
      [.deliver (text "a1") (letter "m1")] ++ leaves "a1" ++ [.ack (text "a1") (ackPacket "m1")]) = some t ∧
    t.Quiet ∧ letter "m1" ∈ t.mail ∧ text "m1" ∈ t.acked ∧
    Redis.hget t.node.db.store (offlineIndex bob) (text "m1") =
      some ((letter "m1").toJson PlainJson.codec) ∧
    Guarded (step PlainJson.codec bob 20) (Admits PlainJson.codec bob) bobsWorld (enters "a1" "1" ++
      [.deliver (text "a1") (letter "m1")] ++ leaves "a1" ++ [.ack (text "a1") (ackPacket "m1")]) :=
  exists_run (by decide +kernel)

/-- The first message is acked at once, the second one after it came back with a login, and
the third one waits. -/
def threeLetters : List Event :=
  enters "a1" "1" ++
  [.deliver (text "a1") (letter "m1"), .ack (text "a1") (ackPacket "m1"),
    .deliver (text "a1") (letter "m2")] ++
  leaves "a1" ++ enters "b2" "2" ++ [.deliver (text "b2") (letter "m3"), .ack (text "b2") (ackPacket "2")] ++
  drains .message

theorem mail_kept_until_acked_bob : ∃ t, run (step PlainJson.codec bob 20) bobsWorld threeLetters = some t ∧
    Redis.hget t.node.db.store (offlineIndex bob) (text "m2") = none ∧
    ((∃ x s, t.node.sessions x = some s ∧ s.status.status = .login ∧
        isUser bob s.status.jid = true ∧ s.pkgBuff[text "m3"]? = some (letter "m3")) ∨
      Redis.hget t.node.db.store (offlineIndex bob) (text "m3") =
        some ((letter "m3").toJson PlainJson.codec)) := by
  have hExists : ∃ t, run (step PlainJson.codec bob 20) bobsWorld threeLetters = some t ∧ t.Quiet ∧
      letter "m2" ∈ t.mail ∧ letter "m3" ∈ t.mail ∧ text "m2" ∈ t.acked ∧ text "m3" ∉ t.acked :=
    exists_run (by decide +kernel)
  obtain ⟨t, hRun, hQuiet, hSecond, hThird, hAcked, hNot⟩ := hExists
  have hKept := fun p hp => mail_kept_until_acked PlainJson.codec bob 20 (text "node01")
    (text "node01:4281") (fun _ => none) (by decide) rfl (by decide) hRun (by decide +kernel) hQuiet (p := p) hp
  exact ⟨t, hRun, ((hKept _ hSecond).2 hAcked).2, (hKept _ hThird).1 hNot⟩

end Sara.Mailbox
