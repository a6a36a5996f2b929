import Sara.Core.Custody
import Sara.Node.Directory
import Sara.Node.Frame
import Mathlib.Data.List.Nodup

/-! # No accepted message is lost

A message that the sender's session has handed over is in one of the places of
its way, in every state of a run in which each hand-over finds its next place:
room in the router, the recipient's session registered, logged in and still
logged in when the packet is put into its buffer, and no offline index replaced
or dropped as a whole.
-/

namespace Sara.Concurrent

open Lib Lib.Prog Lib.Transition Saradb

set_option autoImplicit false

/-- The packet a session's goroutine is done with by the step. -/
def sends (s : System) : Action → List Packet
  | .go x _ =>
    match s.pc x with
    | .acting p _ _ => [p]
    | _ => []
  | _ => []

/-- The packet that took the branch of the user's own messages, with an address. -/
def accepts (s : System) : Action → List Packet
  | .go x _ =>
    match s.pc x with
    | .acting p (.route _) _ | .acting p .store _ => [p]
    | _ => []
  | _ => []

/-- What a user, by the offline index, acknowledges: a message in the buffer of the session,
or all of the login reply with that id. -/
def acks (C : Codec) (s : System) : Action → List (Bytes × Bytes)
  | .recv x i =>
    match s.node.sessions x with
    | none => []
    | some sess =>
      if sess.status.status = .conn ∨ i.frame = [heartBeat] then []
      else
        match request C i, newJID sess.status.jid with
        | .ack packet, .ok j =>
          ((s.node.oflCache packet.envelope.id).getD [packet.envelope.id]).map (offlineIndex j, ·)
        | _, _ => []
  | _ => []

def InMemory (s : System) (r : JID) (p : Packet) : Prop :=
  (∃ it ∈ s.node.router, it.packet = some p) ∨ (∃ w, (s.hands w).packet = some p) ∨
    Buffered s.node r p

def Awaits (n : Node) (x : Bytes) (p : Packet) : Prop :=
  ∃ s ∈ n.sessions x, s.status.status = .login ∧ ∃ j ∈ (newJID s.status.jid).toOption,
    ∃ r ∈ (newJID p.envelope.to_).toOption, j.stringWithoutResource = r.stringWithoutResource

/-- The worker finds the session, and the session takes the packet. -/
def Hand.Attended (n : Node) : Hand → Prop
  | .free => True
  | .item it => it.packet.isSome → (it.channel = [] ∨ it.channel = n.channel) →
      n.sessionMap it.sid = true
  | .found it => ∀ p ∈ it.packet, Awaits n it.sid p
  | .acting x p _ => Awaits n x p

def Pc.Attended (n : Node) : Pc → Prop
  | .acting _ (.route _) _ => n.router.length < routerQueueSize
  | _ => True

/-- Every hand-over of a packet finds its next place. -/
def Attended (s : System) : Action → Prop
  | .go x _ => (s.pc x).Attended s.node
  | .work w _ => (s.hands w).Attended s.node
  | .dexec ch i => ∀ c ∈ (s.node.db.held ch)[i]?, clobbers c = false
  | _ => True

/-- What is known of a packet, or of the session, where its goroutine stands. -/
def Pc.Fits (L : Ledger) (C : Codec) (sess : Option Session) : Pc → Prop
  | .idle | .fetch _ | .publish _ | .routing _ => True
  | .kill packet jid _ | .auth packet jid =>
    newJID packet.envelope.jid = .ok jid ∧ ∃ s, sess = some s ∧ s.status.status ≠ .login
  | .logon packet =>
    (∃ jid, newJID packet.envelope.jid = .ok jid) ∧ ∃ s, sess = some s ∧ s.status.status ≠ .login
  | .storing ds _ => ∀ d ∈ ds, L.Sends C d
  | .acting p d _ => d.handsOver → ∃ r, newJID p.envelope.to_ = .ok r

def Hand.Fits (L : Ledger) : Hand → Prop
  | .free => True
  | .item it | .found it => L.Carried it
  | .acting _ p d => L.Routable p ∧ d = .toMe

structure Tracked (L : Ledger) (C : Codec) (s : System) : Prop where
  node : Custody L C s.node
  pcs : ∀ x, (s.pc x).Fits L C (s.node.sessions x)
  hands : ∀ w, (s.hands w).Fits L

def Somewhere (L : Ledger) (C : Codec) (s : System) (r : JID) (p : Packet) : Prop :=
  Held L C s.node r p ∨ ∃ w, (s.hands w).packet = some p

/-- No packet with an address is lost on the way from one state to the other. -/
def Delivers (L : Ledger) (C : Codec) (s t : System) : Prop :=
  Tracked L C t ∧ ∀ r p, L.sent p → newJID p.envelope.to_ = .ok r →
    Somewhere L C s r p → Somewhere L C t r p

section Session

variable {L : Ledger} {C : Codec} {consumers : Nat} {s t : System} {x : Bytes} {env : Env}

theorem Pc.Fits.framed {pc : Pc} {n n' : Node} (h : pc.Fits L C (n.sessions x)) (hn : Framed n n') :
    pc.Fits L C (n'.sessions x) := by
  have hStill : (∃ s, n.sessions x = some s ∧ s.status.status ≠ .login) →
      ∃ s, n'.sessions x = some s ∧ s.status.status ≠ .login := by
    rintro ⟨s, hs, hNot⟩
    have hSome := hn.sessions x
    rw [hs] at hSome
    obtain ⟨s', hs'⟩ := Option.isSome_iff_exists.mp hSome
    refine ⟨s', hs', ?_⟩
    intro hLogin
    obtain ⟨s₀, hs₀, hEq⟩ := hn.login x s' hs' hLogin
    cases hs.symm.trans hs₀
    exact hNot (hEq ▸ hLogin)
  cases pc with
  | kill packet jid ss => exact ⟨h.1, hStill h.2⟩
  | auth packet jid => exact ⟨h.1, hStill h.2⟩
  | logon packet => exact ⟨h.1, hStill h.2⟩
  | idle | fetch | publish | storing | routing | acting => exact h

theorem Tracked.session (h : Tracked L C s) {m : Prog Node Pc}
    (hCarries : Carries L C s.node (m s.node).state)
    (hPc : ∀ pc n, m s.node = .done pc n → pc.Fits L C (n.sessions x)) :
    Delivers L C s (s.session x m) := by
  have hPcs : ∀ pc n, Framed s.node n → pc.Fits L C (n.sessions x) →
      ∀ y, (Function.update s.pc x pc y).Fits L C (n.sessions y) := by
    intro pc n hn hFits y
    rcases eq_or_ne y x with rfl | hne
    · rwa [Function.update_self]
    · rw [Function.update_of_ne hne]
      exact (h.pcs y).framed hn
  unfold System.session
  cases hDone : m s.node with
  | done pc n =>
    rw [hDone] at hCarries
    refine ⟨⟨hCarries.custody h.node, hPcs pc n hCarries.toFramed (hPc pc n hDone), h.hands⟩, ?_⟩
    rintro r p hSent hTo (hHeld | hHand)
    · exact .inl (hCarries.held h.node r p hSent hTo hHeld)
    · exact .inr hHand
  | panic n =>
    rw [hDone] at hCarries
    refine ⟨⟨hCarries.custody h.node, hPcs .idle n hCarries.toFramed trivial, h.hands⟩, ?_⟩
    rintro r p hSent hTo (hHeld | hHand)
    · exact .inl (hCarries.held h.node r p hSent hTo hHeld)
    · exact .inr hHand

theorem begin_carries {i : Input} (hAcks : ∀ e ∈ acks C s (.recv x i), L.acked e.1 e.2) :
    Carries L C s.node (begin C x i s.node).state := by
  refine permits_carries.begin ?_
  intro packet sess hs hConn hFrame hRequest
  refine carries_serverAck ?_
  intro sess' j hs' hj id hid
  cases hs.symm.trans hs'
  refine hAcks (offlineIndex j, id) ?_
  simp only [acks, hs, hConn, hFrame, or_self, if_false, hRequest, hj]
  exact List.mem_map_of_mem hid

theorem begin_fits {i : Input} {pc : Pc} {n n' : Node} (h : begin C x i n = .done pc n') :
    pc.Fits L C (n'.sessions x) := by
  have hOpen := h
  unfold begin at h
  obtain ⟨s, u, hSession, hRest⟩ := bind_eq_done_iff.mp h
  obtain ⟨hs, rfl⟩ := Node.session_eq_done_iff.mp hSession
  split at hRest
  · rename_i hConn
    obtain ⟨r, u', hGet, hPure⟩ := bind_eq_done_iff.mp hRest
    match r with
    | none => cases hPure; trivial
    | some (packet, jid, some ss) =>
      obtain ⟨rfl, hJid⟩ := verifyGet_done hGet
      cases hPure
      exact ⟨hJid, s, hs, by rw [hConn]; decide⟩
    | some (packet, jid, none) =>
      obtain ⟨rfl, hJid⟩ := verifyGet_done hGet
      cases hPure
      exact ⟨hJid, s, hs, by rw [hConn]; decide⟩
  · rename_i hConn
    obtain rfl | ⟨packets, rfl⟩ := begin_done_of_open hOpen hs hConn
    · trivial
    · trivial

theorem carries_sendNext {d : Dispatch} (hd : L.Sends C d) (ds : List Dispatch) :
    Keeps (Carries L C) (sendNext d ds) := by
  intro n
  unfold sendNext
  cases hSend : n.db.sendOne d with
  | none => exact Std.Refl.refl n
  | some db =>
    exact .of_frame rfl rfl (fun hSafe _ => hSafe.sendOne hd hSend) (fun _ h => h)
      (fun _ h => .inl h) (fun _ h => h)

/-- All steps of a session's goroutine but the one that logs it in. -/
theorem next_carries {pc : Pc} {n : Node} (hFits : pc.Fits L C (n.sessions x))
    (hSent : ∀ p d packets, pc = .acting p d packets → L.sent p)
    (hLogon : ∀ packet, pc ≠ .logon packet) : Carries L C n (next C x env pc n).state := by
  refine permits_carries.next ?_ ?_ ?_ ?_
  · exact fun packet hPc => absurd hPc (hLogon packet)
  · exact fun packet _ => keeps_loginReply x packet n
  · rintro d ds reply rfl
    exact carries_sendNext (hFits d List.mem_cons_self) ds n
  · rintro p d packets rfl
    exact keeps_routeAct (hSent p d packets rfl) hFits x n

theorem next_fits {pc pc' : Pc} {n n' : Node} (h : Custody L C n)
    (hFits : pc.Fits L C (n.sessions x)) (hNext : next C x env pc n = .done pc' n') :
    pc'.Fits L C (n'.sessions x) := by
  have hForm := next_done hNext
  match pc with
  | .idle | .routing [] | .storing [] _ =>
    rw [show pc' = .idle from hForm]
    trivial
  | .logon packet =>
    rw [show pc' = .fetch packet from hForm]
    trivial
  | .fetch _ =>
    obtain ⟨reply, rfl⟩ := hForm
    trivial
  | .acting _ _ packets =>
    rw [show pc' = .routing packets from hForm]
    trivial
  | .kill packet jid ss =>
    have hAuth : (Pc.auth packet jid).Fits L C (n.sessions x) := hFits
    have hCarries : Carries L C n (next C x env (.kill packet jid ss) n).state :=
      next_carries hFits (by simp) (by simp)
    rw [hNext] at hCarries
    rw [show pc' = .auth packet jid from hForm]
    exact hAuth.framed hCarries.toFramed
  | .auth packet jid =>
    obtain rfl | rfl := hForm
    · have hCarries : Carries L C n (next C x env (.auth packet jid) n).state :=
        next_carries hFits (by simp) (by simp)
      rw [hNext] at hCarries
      exact ⟨⟨jid, hFits.1⟩, (hFits.framed hCarries.toFramed).2⟩
    · trivial
  | .publish reply =>
    obtain ⟨ds, u, hWrites, hPure⟩ := bind_eq_done_iff.mp hNext
    cases hPure
    unfold statusWrites at hWrites
    obtain ⟨sess, u', hSession, hRest⟩ := bind_eq_done_iff.mp hWrites
    obtain ⟨hs, rfl⟩ := Node.session_eq_done_iff.mp hSession
    obtain ⟨j, u'', hDeref, hds⟩ := bind_eq_done_iff.mp hRest
    cases hds
    have hNode : ∀ r : JID, sess.status.nodeid ≠ r.toOfflineKey := h.own x sess hs ▸ h.nodeid
    exact Ledger.sends_putExWithIdx ((allows_nodeIndex hNode _).2 _)
  | .storing (d :: ds) reply =>
    obtain rfl | rfl := hForm
    · exact fun e he => hFits e (List.mem_cons_of_mem d he)
    · simp [Pc.Fits]
  | .routing (packet :: packets) =>
    obtain ⟨d, u, hDecide, hPure⟩ := bind_eq_done_iff.mp hNext
    cases hPure
    exact exists_newJID_of_handsOver hDecide

theorem Tracked.logon (h : Tracked L C s) {packet : Packet} (hPc : s.pc x = .logon packet) :
    Delivers L C s (s.session x (next C x env (s.pc x))) := by
  have hFits := h.pcs x
  rw [hPc] at hFits ⊢
  obtain ⟨hJid, sess, hs, hNot⟩ := hFits
  obtain ⟨hCustody, hHeld⟩ := logon_carries (L := L) (C := C) hs hNot hJid env
  refine ⟨⟨hCustody h.node, ?_, h.hands⟩, ?_⟩
  · intro y
    rcases eq_or_ne y x with rfl | hne
    · rw [show (s.session y (next C y env (.logon packet))).pc y = _ from Function.update_self ..]
      trivial
    · rw [show (s.session x (next C x env (.logon packet))).pc y = _ from
        Function.update_of_ne hne ..]
      have hSame : ((Sara.logon x packet env s.node).state).sessions y = s.node.sessions y :=
        Node.updateSession_of_ne s.node hne _
      have hOld := h.pcs y
      rw [← hSame] at hOld
      exact hOld
  · rintro r p _ _ (hOld | hHand)
    · exact .inl (hHeld r p hOld)
    · exact .inr hHand

theorem Tracked.go (h : Tracked L C s) (hSends : ∀ p ∈ sends s (.go x env), L.sent p) :
    Delivers L C s (s.session x (next C x env (s.pc x))) := by
  by_cases hLogon : ∃ packet, s.pc x = .logon packet
  · obtain ⟨packet, hPc⟩ := hLogon
    exact h.logon hPc
  · refine h.session (next_carries (h.pcs x) ?_ ?_) ?_
    · intro p d packets hPc
      refine hSends p ?_
      simp only [sends, hPc, List.mem_singleton]
    · intro packet hPc
      exact hLogon ⟨packet, hPc⟩
    · intro pc n hNext
      exact next_fits h.node (h.pcs x) hNext

end Session

/-! ## Router workers -/

section Worker

variable {L : Ledger} {C : Codec} {s : System} {w : Nat} {env : Env} {n n' : Node}

theorem work_item {it : RouterItem} {hand : Hand} (h : Custody L C n) (hFits : L.Carried it)
    (hGuard : (Hand.item it).Attended n) (hWork : work C env (.item it) n = .done hand n') :
    Carries L C n n' ∧ hand.Fits L ∧ ∀ r p, newJID p.envelope.to_ = .ok r → it.packet = some p →
      Held L C n' r p ∨ hand.packet = some p := by
  simp only [work, bind_done (read_apply _ n), id] at hWork
  split at hWork
  · rename_i hHere
    split at hWork
    · cases hWork
      exact ⟨Std.Refl.refl _, hFits, fun r p _ hp => .inr hp⟩
    · rename_i hNone
      cases hWork
      refine ⟨Std.Refl.refl _, trivial, ?_⟩
      intro r p _ hp
      exact absurd (hGuard (by rw [hp]; rfl) hHere) hNone
  obtain ⟨packet, u, hDeref, hSend⟩ := bind_eq_done_iff.mp hWork
  obtain ⟨hSome, rfl⟩ := deref_eq_done_iff.mp hDeref
  cases hPacket : it.packet with
  | none =>
    rw [hPacket] at hSome
    cases hSome
  | some q =>
    rw [hPacket] at hSome
    cases hSome
    obtain ⟨⟨hSent, r, hr⟩, _⟩ := hFits packet hPacket
    split at hSend
    · cases hSend
      refine ⟨.of_rest rfl rfl rfl rfl fun e he => List.mem_append_left _ he, trivial, ?_⟩
      intro r p _ hp
      cases hp
      exact .inl (.inr (.inl ⟨it.channel, List.mem_append_right _ List.mem_cons_self⟩))
    · obtain ⟨u', hStore, hHeld⟩ := storePacket_held h hSent hr
      rw [bind_done hStore] at hSend
      have hCarries := keeps_storePacket (C := C) hSent u
      rw [hStore] at hCarries
      cases hSend
      refine ⟨hCarries, trivial, ?_⟩
      intro r' p hr' hp
      cases hp
      cases hr.symm.trans hr'
      exact .inl hHeld

theorem work_found {it : RouterItem} {hand : Hand} (hFits : L.Carried it)
    (hGuard : (Hand.found it).Attended n) (hWork : work C env (.found it) n = .done hand n') :
    Carries L C n n' ∧ hand.Fits L ∧ ∀ r p, newJID p.envelope.to_ = .ok r → it.packet = some p →
      Held L C n' r p ∨ hand.packet = some p := by
  simp only [work] at hWork
  split at hWork
  · rename_i hSignal
    have hKill : Keeps (Carries L C) (do
        if it.signal = killSignal then kill C it.sid env
        return Hand.free) := by
      split
      · exact (permits_carries.kill it.sid env).bind fun _ => Keeps.pure _
      · exact Keeps.pure _
    have hCarries := hKill n
    have hFree : hand = .free := by
      split at hWork
      · obtain ⟨_, _, _, hPure⟩ := bind_eq_done_iff.mp hWork
        cases hPure
        rfl
      · cases hWork
        rfl
    rw [show _ = Outcome.done hand n' from hWork] at hCarries
    rw [hFree]
    refine ⟨hCarries, trivial, ?_⟩
    intro r p _ hp
    exact absurd (hFits p hp).2 hSignal
  obtain ⟨packet, u, hDeref, hDecide⟩ := bind_eq_done_iff.mp hWork
  obtain ⟨hSome, rfl⟩ := deref_eq_done_iff.mp hDeref
  cases hPacket : it.packet with
  | none =>
    rw [hPacket] at hSome
    cases hSome
  | some q =>
    rw [hPacket] at hSome
    cases hSome
    obtain ⟨sess, hs, hLogin, j, hj, r, hr, hSame⟩ := hGuard packet hPacket
    have hToMe := routeDecide_toMe (C := C) hs hLogin (toOption_eq_some_iff.mp hj)
      (toOption_eq_some_iff.mp hr) hSame
    rw [bind_done hToMe] at hDecide
    cases hDecide
    exact ⟨Std.Refl.refl _, ⟨(hFits packet hPacket).1, rfl⟩, fun r p _ hp => .inr hp⟩

theorem work_acting {x : Bytes} {packet : Packet} {d : Decision} {hand : Hand}
    (hFits : (Hand.acting x packet d).Fits L) (hGuard : (Hand.acting x packet d).Attended n)
    (hWork : work C env (.acting x packet d) n = .done hand n') :
    Carries L C n n' ∧ hand.Fits L ∧ ∀ r p, newJID p.envelope.to_ = .ok r → some packet = some p →
      Held L C n' r p ∨ hand.packet = some p := by
  obtain ⟨⟨hSent, hTo⟩, rfl⟩ := hFits
  obtain ⟨sess, hs, hLogin, j, hj, r, hr, hSame⟩ := hGuard
  have hCarries := keeps_routeAct (C := C) hSent (fun _ : Decision.toMe.handsOver = true => hTo) x n
  have hHeld := routeAct_toMe_held (L := L) (C := C) (p := packet) hs hLogin
    (toOption_eq_some_iff.mp hj) (JID.toOfflineKey_inj.mpr hSame)
  obtain ⟨_, u, hAct, hPure⟩ := bind_eq_done_iff.mp hWork
  rw [hAct] at hCarries hHeld
  cases hPure
  refine ⟨hCarries, trivial, ?_⟩
  intro r' p hr' hp
  cases hp
  cases (toOption_eq_some_iff.mp hr).symm.trans hr'
  exact .inl hHeld

theorem Tracked.hand (h : Tracked L C s) {t : System} {hand : Hand} (hNode : Custody L C t.node)
    (hPcs : ∀ y, (t.pc y).Fits L C (t.node.sessions y)) (hFits : hand.Fits L)
    (hHands : t.hands = Function.update s.hands w hand)
    (hKeep : ∀ r p, L.sent p → newJID p.envelope.to_ = .ok r →
      Held L C s.node r p ∨ (s.hands w).packet = some p →
        Held L C t.node r p ∨ hand.packet = some p) : Delivers L C s t := by
  have hSelf : t.hands w = hand := by rw [hHands, Function.update_self]
  have hNe : ∀ w', w' ≠ w → t.hands w' = s.hands w' := by
    intro w' hne
    rw [hHands, Function.update_of_ne hne]
  refine ⟨⟨hNode, hPcs, ?_⟩, ?_⟩
  · intro w'
    rcases eq_or_ne w' w with rfl | hne
    · rwa [hSelf]
    · rw [hNe w' hne]
      exact h.hands w'
  · have hAfter : ∀ {r p}, Held L C t.node r p ∨ hand.packet = some p → Somewhere L C t r p :=
      fun hp => hp.imp_right fun hp => ⟨w, by rw [hSelf, hp]⟩
    rintro r p hSent hTo (hHeld | ⟨w', hw'⟩)
    · exact hAfter (hKeep r p hSent hTo (.inl hHeld))
    · rcases eq_or_ne w' w with rfl | hne
      · exact hAfter (hKeep r p hSent hTo (.inr hw'))
      · exact .inr ⟨w', by rw [hNe w' hne, hw']⟩

theorem Tracked.work (h : Tracked L C s) (hGuard : Attended s (.work w env))
    (hAlive : (s.worker w (Concurrent.work C env (s.hands w))).crashed = false) :
    Delivers L C s (s.worker w (Concurrent.work C env (s.hands w))) := by
  have hFits := h.hands w
  have hAttended : (s.hands w).Attended s.node := hGuard
  unfold System.worker at hAlive ⊢
  cases hWork : Concurrent.work C env (s.hands w) s.node with
  | panic n =>
    rw [hWork] at hAlive
    cases hAlive
  | done hand n =>
    have hDone : Carries L C s.node n ∧ hand.Fits L ∧ ∀ r p, newJID p.envelope.to_ = .ok r →
        (s.hands w).packet = some p → Held L C n r p ∨ hand.packet = some p := by
      cases hHand : s.hands w with
      | free =>
        rw [hHand] at hWork
        cases hWork
        exact ⟨Std.Refl.refl _, trivial, fun r p _ hp => .inr hp⟩
      | item it =>
        rw [hHand] at hWork hFits hAttended
        exact work_item h.node hFits hAttended hWork
      | found it =>
        rw [hHand] at hWork hFits hAttended
        exact work_found hFits hAttended hWork
      | acting x p d =>
        rw [hHand] at hWork hFits hAttended
        exact work_acting hFits hAttended hWork
    obtain ⟨hCarries, hFits', hPacket⟩ := hDone
    refine h.hand (hCarries.custody h.node) (fun y => (h.pcs y).framed hCarries.toFramed) hFits' rfl ?_
    rintro r p hSent hTo (hHeld | hHand)
    · exact .inl (hCarries.held h.node r p hSent hTo hHeld)
    · exact hPacket r p hTo hHand

end Worker

/-! ## Every step -/

section Step

variable {L : Ledger} {C : Codec} {consumers : Nat} {s t : System} {a : Action}

theorem Tracked.frame (h : Tracked L C s) (hCarries : Carries L C s.node t.node)
    (hPc : t.pc = s.pc) (hHands : t.hands = s.hands) : Delivers L C s t := by
  refine ⟨⟨hCarries.custody h.node, ?_, hHands ▸ h.hands⟩, ?_⟩
  · intro y
    rw [hPc]
    exact (h.pcs y).framed hCarries.toFramed
  · rintro r p hSent hTo (hHeld | ⟨w, hw⟩)
    · exact .inl (hCarries.held h.node r p hSent hTo hHeld)
    · exact .inr ⟨w, hHands ▸ hw⟩

theorem Tracked.connect (h : Tracked L C s) {x : Bytes} (hNone : s.node.sessions x = none)
    (dispatching : Bytes → Bool) :
    Delivers L C s { s with
      node := { s.node with
        sessions := Function.update s.node.sessions x
          (some (newSession s.node.channel x s.node.nodeid)) }
      dispatching := dispatching } := by
  have hCases : ∀ {y sess}, Function.update s.node.sessions x
      (some (newSession s.node.channel x s.node.nodeid)) y = some sess →
        s.node.sessions y = some sess ∨ sess = newSession s.node.channel x s.node.nodeid := by
    intro y sess hSess
    rcases eq_or_ne y x with rfl | hne
    · rw [Function.update_self] at hSess
      cases hSess
      exact .inr rfl
    · rw [Function.update_of_ne hne] at hSess
      exact .inl hSess
  refine ⟨⟨⟨h.node.nodeid, h.node.db, ?_, ?_, ?_, h.node.router⟩, ?_, h.hands⟩, ?_⟩
  · intro y sess hSess
    rcases hCases hSess with hOld | rfl
    · exact h.node.own y sess hOld
    · rfl
  · intro y sess hSess hLogin
    rcases hCases hSess with hOld | rfl
    · exact h.node.users y sess hOld hLogin
    · cases hLogin
  · intro y sess hSess f p hp
    rcases hCases hSess with hOld | rfl
    · exact h.node.buffers y sess hOld f p hp
    · simp [newSession] at hp
  · intro y
    have hFits := h.pcs y
    rcases eq_or_ne y x with rfl | hne
    · rw [hNone] at hFits
      cases hPc : s.pc y with
      | kill packet jid ss | auth packet jid | logon packet =>
        rw [hPc] at hFits
        obtain ⟨_, _, hSome, _⟩ := hFits
        cases hSome
      | idle | fetch | publish | storing | routing | acting =>
        rw [hPc] at hFits
        exact hFits
    · have hSame : Function.update s.node.sessions x
          (some (newSession s.node.channel x s.node.nodeid)) y = s.node.sessions y :=
        Function.update_of_ne hne ..
      rw [← hSame] at hFits
      exact hFits
  · rintro r p _ _ ((hRouter | hPublished | ⟨y, sess, j, hs, hRest⟩ | hRest) | hHand)
    · exact .inl (.inl hRouter)
    · exact .inl (.inr (.inl hPublished))
    · refine .inl (.inr (.inr (.inl ⟨y, sess, j, ?_, hRest⟩)))
      have hne : y ≠ x := by
        rintro rfl
        cases hNone.symm.trans hs
      exact (Function.update_of_ne hne ..).trans hs
    · exact .inl (.inr (.inr (.inr hRest)))
    · exact .inr hHand

theorem Tracked.take (h : Tracked L C s) {w : Nat} {it : RouterItem} {rest : List RouterItem}
    (hRouter : s.node.router = it :: rest) (hFree : s.hands w = .free) :
    Delivers L C s { s with
      node := { s.node with router := rest }
      hands := Function.update s.hands w (.item it) } := by
  have hCustody : Custody L C { s.node with router := rest } := by
    refine ⟨h.node.nodeid, h.node.db, h.node.own, h.node.users, h.node.buffers, ?_⟩
    intro it' hit
    exact h.node.router it' (hRouter ▸ List.mem_cons_of_mem it hit)
  have hItem : (Hand.item it).Fits L := h.node.router it (hRouter ▸ List.mem_cons_self)
  refine h.hand hCustody h.pcs hItem rfl ?_
  rintro r p _ _ ((⟨it', hit, hp⟩ | hRest) | hHand)
  · rw [hRouter] at hit
    rcases List.mem_cons.mp hit with rfl | hit
    · exact .inr hp
    · exact .inl (.inl ⟨it', hit, hp⟩)
  · exact .inl (.inr hRest)
  · rw [hFree] at hHand
    cases hHand

theorem delivers_step (h : Tracked L C s) (hSends : ∀ p ∈ sends s a, L.sent p)
    (hAcks : ∀ e ∈ acks C s a, L.acked e.1 e.2) (hGuard : Attended s a)
    (hStep : step C consumers s a = some t) (hAlive : t.crashed = false) : Delivers L C s t := by
  cases stepped_of_step C hStep with
  | connect x hSid hNew => exact h.connect hNew _
  | register x => exact h.frame (.of_rest rfl rfl rfl rfl fun _ he => he) rfl rfl
  | clean sid rest => exact h.frame (.of_rest rfl rfl rfl rfl fun _ he => he) rfl rfl
  | recv x i hIdle sess hs => exact h.session (begin_carries hAcks) fun _ _ hBegin => begin_fits hBegin
  | go x env hBusy => exact h.go hSends
  | close x env sess hs => exact h.frame (keeps_closeSession x env s.node) rfl rfl
  | take w it rest hRouter _ hFree => exact h.take hRouter hFree
  | work w env hBusy => exact h.work hGuard hAlive
  | dtake ch db hTake =>
    exact h.frame (.of_frame rfl rfl (fun hSafe _ => hSafe.take hTake) (fun _ hit => hit)
      (fun _ hit => .inl hit) fun _ he => he) rfl rfl
  | dexec ch i db hExec =>
    exact h.frame (.of_frame rfl rfl (fun hSafe _ => hSafe.execHeld hExec hGuard)
      (fun _ hit => hit) (fun _ hit => .inl hit) fun _ he => he) rfl rfl

/-- What the sender's session has handed over is in the router or in the offline store. -/
theorem accepted_somewhere (h : Tracked L C s) {p : Packet} (hp : p ∈ accepts s a)
    (hSent : L.sent p) (hGuard : Attended s a) (hStep : step C consumers s a = some t) :
    ∃ r, newJID p.envelope.to_ = .ok r ∧ Somewhere L C t r p := by
  cases stepped_of_step C hStep with
  | go x env hBusy =>
    have hFits := h.pcs x
    cases hPc : s.pc x with
    | acting q d packets =>
      rw [hPc] at hFits
      simp only [accepts, hPc] at hp
      simp only [Attended, Pc.Attended, hPc] at hGuard
      have hNode : (s.session x (next C x env (.acting q d packets))).node =
          (routeAct C x q d s.node).state := by
        rw [session_node]
        exact state_bind_pure _ _ _
      cases d with
      | route ss =>
        cases List.mem_singleton.mp hp
        obtain ⟨r, hr⟩ := hFits rfl
        refine ⟨r, hr, .inl ?_⟩
        rw [hNode]
        exact routeAct_route_held ss r hGuard
      | store =>
        cases List.mem_singleton.mp hp
        obtain ⟨r, hr⟩ := hFits rfl
        obtain ⟨n', hStore, hHeld⟩ := storePacket_held h.node hSent hr
        refine ⟨r, hr, .inl ?_⟩
        rw [hNode, show routeAct C x p .store s.node = _ from hStore]
        exact hHeld
      | ignore | toMe | notify => cases hp
    | idle | kill | auth | logon | fetch | publish | storing | routing =>
      simp only [accepts, hPc, List.not_mem_nil] at hp
  | connect | register | clean | recv | close | take | work | dtake | dexec => cases hp

theorem sends_of_accepts {p : Packet} (hp : p ∈ accepts s a) : p ∈ sends s a := by
  cases a with
  | go x env =>
    cases hPc : s.pc x with
    | acting q d packets =>
      simp only [accepts, hPc] at hp
      simp only [sends, hPc]
      cases d with
      | route | store => exact hp
      | ignore | toMe | notify => cases hp
    | idle | kill | auth | logon | fetch | publish | storing | routing =>
      simp only [accepts, hPc, List.not_mem_nil] at hp
  | connect | register | clean | recv | close | take | work | dtake | dexec => cases hp

theorem tracked_start {nodeid channel : Bytes} {st : Store}
    (hNode : ∀ r : JID, nodeid ≠ r.toOfflineKey) (hStore : ∀ r : JID, IndexHash st r.toOfflineKey) :
    Tracked L C (start nodeid channel st) := by
  refine ⟨⟨hNode, ⟨hStore, ?_⟩, ?_, ?_, ?_, ?_⟩, fun _ => trivial, fun _ => trivial⟩
  · intro c hc
    obtain ⟨ch, hQueue | hHeld⟩ := Database.mem_pending.mp hc
    · cases hQueue
    · cases hHeld
  · intro x sess hs
    cases hs
  · intro x sess hs
    cases hs
  · intro x sess hs
    cases hs
  · intro it hit
    cases hit

end Step

def Ledger.ofRun (sent : List Packet) (acked : List (Bytes × Bytes))
    (hIds : (sent.map fun p => p.envelope.id).Nodup) : Ledger where
  sent p := p ∈ sent
  acked idx id := (idx, id) ∈ acked
  sent_inj hp hq hId := List.inj_on_of_nodup_map hIds hp hq hId

/-- No hand-over goes astray and the node stays up. -/
def Undisturbed (C : Codec) (consumers : Nat) (s : System) (a : Action) : Prop :=
  Attended s a ∧ ∀ u ∈ step C consumers s a, u.crashed = false

/-- Where a message for `r` may be: on the way, acknowledged, or kept for later. -/
def Placed (C : Codec) (acked : List (Bytes × Bytes)) (s : System) (r : JID) (p : Packet) : Prop :=
  (s.crashed = false ∧ InMemory s r p) ∨ (∃ ch, (ch, p) ∈ s.node.published) ∨
    (offlineIndex r, p.envelope.id) ∈ acked ∨ Stored C s.node.db r p

theorem accepted_not_lost (C : Codec) (consumers : Nat) (nodeid channel : Bytes) (st : Store)
    (hNode : ∀ r : JID, nodeid ≠ r.toOfflineKey) (hStore : ∀ r : JID, IndexHash st r.toOfflineKey)
    {as : List Action} {t : System}
    (hRun : run (step C consumers) (start nodeid channel st) as = some t)
    (hIds : ((collect (step C consumers) sends (start nodeid channel st) as).map
      fun p => p.envelope.id).Nodup)
    (hGuard : Guarded (step C consumers) (Undisturbed C consumers) (start nodeid channel st) as)
    {p : Packet} (hp : p ∈ collect (step C consumers) accepts (start nodeid channel st) as) :
    ∃ r, newJID p.envelope.to_ = .ok r ∧
      Placed C (collect (step C consumers) (acks C) (start nodeid channel st) as) t r p := by
  -- the ledger of the whole run is fixed, and every step of the run acts within it
  let L := Ledger.ofRun _ (collect (step C consumers) (acks C) (start nodeid channel st) as) hIds
  have hWithin : Guarded (step C consumers) (fun s a => Undisturbed C consumers s a ∧
      (∀ q ∈ sends s a, L.sent q) ∧ ∀ e ∈ acks C s a, L.acked e.1 e.2)
      (start nodeid channel st) as := by
    refine guarded_of_run hGuard ?_
    intro bs a s hPre hRun' hG
    refine ⟨hG, ?_, ?_⟩
    · exact fun q hq => mem_collect_of_step hPre hRun' hq
    · exact fun e he => mem_collect_of_step hPre hRun' he
  have hAll : t.crashed = false ∧ Tracked L C t ∧
      ∀ q ∈ collect (step C consumers) accepts (start nodeid channel st) as,
        L.sent q ∧ ∃ r, newJID q.envelope.to_ = .ok r ∧ Somewhere L C t r q := by
    refine guarded_induction (P := fun as t => t.crashed = false ∧ Tracked L C t ∧
      ∀ q ∈ collect (step C consumers) accepts (start nodeid channel st) as,
        L.sent q ∧ ∃ r, newJID q.envelope.to_ = .ok r ∧ Somewhere L C t r q)
      ⟨rfl, tracked_start hNode hStore, fun q hq => by cases hq⟩ ?_ hRun hWithin
    rintro as s a u hRun' _ ⟨_, hTracked, hPlaced⟩ ⟨⟨hAttended, hUp⟩, hSends, hAcks⟩ hStep
    have hAlive : u.crashed = false := hUp u hStep
    obtain ⟨hTracked', hDelivers⟩ := delivers_step hTracked hSends hAcks hAttended hStep hAlive
    refine ⟨hAlive, hTracked', ?_⟩
    intro q hq
    rw [collect_snoc hRun'] at hq
    rcases List.mem_append.mp hq with hOld | hNew
    · obtain ⟨hSent, r, hr, hSomewhere⟩ := hPlaced q hOld
      exact ⟨hSent, r, hr, hDelivers r q hSent hr hSomewhere⟩
    · have hSent := hSends q (sends_of_accepts hNew)
      exact ⟨hSent, accepted_somewhere hTracked hNew hSent hAttended hStep⟩
  obtain ⟨hAlive, _, hPlaced⟩ := hAll
  obtain ⟨_, r, hr, (hRouter | hPublished | hBuffered | hStored | hAcked) | hHand⟩ := hPlaced p hp
  · exact ⟨r, hr, .inl ⟨hAlive, .inl hRouter⟩⟩
  · exact ⟨r, hr, .inr (.inl hPublished)⟩
  · exact ⟨r, hr, .inl ⟨hAlive, .inr (.inr hBuffered)⟩⟩
  · exact ⟨r, hr, .inr (.inr (.inr hStored))⟩
  · exact ⟨r, hr, .inr (.inr (.inl hAcked))⟩
  · exact ⟨r, hr, .inl ⟨hAlive, .inr (.inl hHand)⟩⟩

/-! ## A message to a user who leaves -/

instance (n : Node) (x : Bytes) (p : Packet) : Decidable (Awaits n x p) :=
  inferInstanceAs (Decidable (∃ s ∈ n.sessions x, s.status.status = .login ∧
    ∃ j ∈ (newJID s.status.jid).toOption, ∃ r ∈ (newJID p.envelope.to_).toOption,
      j.stringWithoutResource = r.stringWithoutResource))

instance (n : Node) : (pc : Pc) → Decidable (pc.Attended n)
  | .acting _ (.route _) _ => inferInstanceAs (Decidable (n.router.length < routerQueueSize))
  | .acting _ .ignore _ | .acting _ .toMe _ | .acting _ (.notify _) _ | .acting _ .store _
  | .idle | .kill _ _ _ | .auth _ _ | .logon _ | .fetch _ | .publish _ | .storing _ _ | .routing _ =>
    isTrue trivial

instance (n : Node) : (hand : Hand) → Decidable (hand.Attended n)
  | .free => isTrue trivial
  | .item it => inferInstanceAs (Decidable (it.packet.isSome →
      (it.channel = [] ∨ it.channel = n.channel) → n.sessionMap it.sid = true))
  | .found it => inferInstanceAs (Decidable (∀ p ∈ it.packet, Awaits n it.sid p))
  | .acting x p _ => inferInstanceAs (Decidable (Awaits n x p))

instance (s : System) : (a : Action) → Decidable (Attended s a)
  | .go x _ => inferInstanceAs (Decidable ((s.pc x).Attended s.node))
  | .work w _ => inferInstanceAs (Decidable ((s.hands w).Attended s.node))
  | .dexec ch i => inferInstanceAs (Decidable (∀ c ∈ (s.node.db.held ch)[i]?, clobbers c = false))
  | .connect _ | .register _ | .clean | .recv _ _ | .close _ _ | .take _ | .dtake _ => isTrue trivial

instance (C : Codec) (consumers : Nat) (s : System) (a : Action) :
    Decidable (Undisturbed C consumers s a) :=
  inferInstanceAs (Decidable (Attended s a ∧ ∀ u ∈ step C consumers s a, u.crashed = false))

theorem node01_offline (r : JID) : text "node01" ≠ r.toOfflineKey := fun h =>
  absurd (congrArg List.head? h) (by rw [r.head?_toOfflineKey]; decide)

def chatInput (id from_ to_ : String) : Input where
  frame := PlainJson.writeFrame
    { id := text id, from_ := text from_, to_ := text to_, type := msgTypeChat }
  env := Env.plain true

def greets : List Action :=
  firstLogin ++ [.connect (text "b2"), .register (text "b2"),
    .recv (text "b2") (loginInput "2" "alice@x")] ++ goes (text "b2") 7 ++
  [.recv (text "b2") (chatInput "m1" "alice@x" "bob@x")] ++ goes (text "b2") 3

def greeting : Packet :=
  stamped (PlainJson.received { id := text "m1", from_ := text "alice@x", to_ := text "bob@x", type := msgTypeChat })
    (Env.plain true)

def greetsAndLeaves : List Action :=
  greets ++ [.take 0] ++ List.replicate 3 (.work 0 (Env.plain true)) ++
    [.close (text "a1") (Env.plain true), .clean]

theorem accepted_not_lost_leaving :
    ∃ t, run (step PlainJson.codec 20) node01 greetsAndLeaves = some t ∧
      ∃ r, newJID greeting.envelope.to_ = .ok r ∧ Placed PlainJson.codec
        (collect (step PlainJson.codec 20) (acks PlainJson.codec) node01 greetsAndLeaves) t r greeting := by
  have hExists : ∃ t, run (step PlainJson.codec 20) node01 greetsAndLeaves = some t ∧
      t.crashed = false := exists_run (by decide +kernel)
  obtain ⟨t, hRun, _⟩ := hExists
  exact ⟨t, hRun, accepted_not_lost PlainJson.codec 20 (text "node01") (text "node01:4281")
    (fun _ => none) node01_offline (fun _ => rfl) hRun (by decide +kernel) (by decide +kernel)
    (by decide +kernel)⟩

/-- Bob's session closes while the message is in the router. -/
def leavesEarly : List Action :=
  greets ++ [.close (text "a1") (Env.plain true), .clean, .take 0, .work 0 (Env.plain true)]

/-- The worker finds no session and drops the message. -/
theorem accepted_message_dropped :
    greeting ∈ collect (step PlainJson.codec 20) accepts node01 leavesEarly ∧
    ((collect (step PlainJson.codec 20) sends node01 leavesEarly).map fun p => p.envelope.id).Nodup ∧
    ∃ t, run (step PlainJson.codec 20) node01 leavesEarly = some t ∧ t.crashed = false ∧
      newJID greeting.envelope.to_ = .ok bob ∧ ¬ Placed PlainJson.codec
        (collect (step PlainJson.codec 20) (acks PlainJson.codec) node01 leavesEarly) t bob greeting := by
  refine ⟨by decide +kernel, by decide +kernel, ?_⟩
  have hExists : ∃ t, run (step PlainJson.codec 20) node01 leavesEarly = some t ∧ t.crashed = false ∧
      t.node.router = [] ∧ t.node.published = [] ∧ t.hands 0 = .free ∧
      (t.node.sessions (text "a1")).map (·.status.status) = some .close ∧
      (t.node.sessions (text "b2")).map (·.pkgBuff[greeting.envelope.id]?) = some none ∧
      ¬ Stored PlainJson.codec t.node.db bob greeting := exists_run (by decide +kernel)
  obtain ⟨t, hRun, hAlive, hRouter, hPublished, hHand, hA1, hB2, hStored⟩ := hExists
  have hConnected : leavesEarly.filterMap Action.connected = [text "a1", text "b2"] := rfl
  have hTaken : leavesEarly.filterMap Action.taken = [0] := rfl
  obtain ⟨hSessions, hHands⟩ := idle_outside hRun
  rw [hConnected] at hSessions
  rw [hTaken] at hHands
  have hFree : ∀ w, t.hands w = .free := by
    intro w
    by_cases hw : w ∈ [0]
    · cases List.mem_singleton.mp hw
      exact hHand
    · exact hHands w hw
  refine ⟨t, hRun, hAlive, rfl, ?_⟩
  rintro (⟨_, hMemory⟩ | ⟨ch, hch⟩ | hAcked | hKept)
  · rcases hMemory with ⟨it, hit, _⟩ | ⟨w, hw⟩ | ⟨x, sess, j, hs, hLogin, _, _, hBuff⟩
    · rw [hRouter] at hit
      cases hit
    · rw [hFree w] at hw
      cases hw
    · by_cases hx : x ∈ [text "a1", text "b2"]
      · rcases List.mem_cons.mp hx with rfl | hx
        · rw [hs, Option.map_some, hLogin] at hA1
          cases hA1
        · cases List.mem_singleton.mp hx
          rw [hs, Option.map_some, hBuff] at hB2
          cases hB2
      · cases (hSessions x hx).1.symm.trans hs
  · rw [hPublished] at hch
    cases hch
  · revert hAcked
    decide +kernel
  · exact hStored hKept

end Sara.Concurrent
