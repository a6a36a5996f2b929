import Sara.Core.Issued

/-! # Frames that leave no trace

A handler that panics drops the frames behind it in its result, and a session that is
closed still handles the frames left in its result. Which of these frames can be told
from the outside is read off the frame and the state: whether it is answered, written to
the user, routed, stored, or takes something out of the buffer or the store.
-/

namespace Sara

open Lib Lib.Prog Saradb

set_option autoImplicit false

/-! ## What handling a frame keeps -/

/-- The relation allows whatever a frame of the session `y` may lead to. -/
structure Allows (R : Node → Node → Prop) (C : Codec) (y : Bytes) : Prop where
  sendMessage : ∀ data, Keeps R (sendMessage y data)
  send : ∀ ds, Keeps R (modify fun n : Node => n.send ds)
  route : ∀ item, Keeps R (modify fun n => n.route item)
  closeSession : ∀ env, Keeps R (closeSession C y env)
  logon : ∀ packet env, Keeps R (logon y packet env)
  cache : ∀ id ids, Keeps R (modify fun n : Node => { n with oflCache := Function.update n.oflCache id ids })
  add : ∀ p, Keeps R (pkgBuffAdd y p)
  del : ∀ z id, Keeps R (pkgBuffDel z id)

section Allows

variable {R : Node → Node → Prop} [Std.Refl R] [IsTrans Node R] {C : Codec} {y : Bytes}

theorem Allows.routePacket (h : Allows R C y) (p : Packet) : Keeps R (Sara.routePacket C y p) :=
  (keeps_routeDecide y p).bind fun d => routeAct_keeps (h.add p) (h.sendMessage _)
    (fun _ => h.sendMessage _) (fun item _ => h.route item) (storePacket_keeps h.send p) d

theorem Allows.openSession (h : Allows R C y) (frame : Bytes) (env : Env) :
    Keeps R (Sara.openSession C y frame env) := by
  have hSend : ∀ data : Written, data.isOwn = true → Keeps R (Sara.sendMessage y data) :=
    fun data _ => h.sendMessage data
  have hAuth := fun packet jid => verified_keeps hSend h.closeSession packet jid env
  have hVerify : Keeps R (verify C y frame env) := by
    refine (verifyGet_keeps hSend h.closeSession frame env).bind fun found => ?_
    match found with
    | none => exact Keeps.pure _
    | some (packet, jid, none) => exact hAuth packet jid
    | some (packet, jid, some ss) => exact (h.route _).bind fun _ => hAuth packet jid
  refine hVerify.bind fun found => ?_
  cases found with
  | none => exact Keeps.pure _
  | some packet =>
    exact (h.logon packet env).bind fun _ => (loginReply_keeps h.cache y packet).bind fun _ =>
      ((keeps_statusWrites y).bind fun _ => h.send _).bind fun _ => h.sendMessage _

theorem Allows.handleFrame (h : Allows R C y) (i : Input) : Keeps R (Sara.handleFrame C y i) := by
  have hSend : ∀ data : Written, data.isOwn = true → Keeps R (Sara.sendMessage y data) :=
    fun data _ => h.sendMessage data
  refine (keeps_session y).bind fun s => ?_
  split
  · exact h.openSession i.frame i.env
  · split
    · exact heartbeat_keeps hSend
    · exact handleRequest_keeps hSend h.closeSession (fun _ _ _ => h.send _)
        (serverAck_keeps h.send h.del y) h.routePacket i.env _

end Allows

section Gone

variable {C : Codec} {x y : Bytes} {n n' : Node}

/-- There is no connection to read from. -/
def gone (x : Bytes) (n : Node) : Bool := (n.sessions x).elim true (·.connClosed)

def StaysGone (x : Bytes) (n n' : Node) : Prop := gone x n = true → gone x n' = true

instance : Std.Refl (StaysGone x) where
  refl _ h := h

instance : IsTrans Node (StaysGone x) where
  trans _ _ _ h h' hGone := h' (h hGone)

theorem StaysGone.of_sessions (h : n'.sessions = n.sessions) : StaysGone x n n' := by
  unfold StaysGone gone
  rw [h]
  exact id

theorem StaysGone.updateSession {f : Session → Session}
    (hf : ∀ s, s.connClosed = true → (f s).connClosed = true) : StaysGone x n (n.updateSession y f) := by
  intro h
  unfold gone at h ⊢
  rcases eq_or_ne x y with rfl | hne
  · rw [Node.updateSession_self]
    cases hs : n.sessions x with
    | none => rfl
    | some s =>
      rw [hs] at h
      exact hf s h
  · rw [Node.updateSession_of_ne n hne]
    exact h

theorem allows_staysGone : Allows (StaysGone x) C y where
  sendMessage _ _ := .updateSession fun _ h => h
  send _ _ := .of_sessions rfl
  route item n := by
    obtain ⟨router, hRoute⟩ := route_router n item
    simp only [modify_apply, Outcome.state_done, hRoute]
    exact .of_sessions rfl
  closeSession env := closeSession_keeps (fun _ _ => .of_sessions rfl) (fun _ _ => .of_sessions rfl)
    (fun _ _ => .updateSession fun _ _ => rfl) y env
  logon _ _ _ := .updateSession fun _ h => h
  cache _ _ _ := .of_sessions rfl
  add _ _ := .updateSession fun _ h => h
  del _ _ _ := .updateSession fun _ h => h

theorem gone_eq {s : Session} (hs : n.sessions x = some s) : gone x n = s.connClosed := by
  rw [gone, hs]
  rfl

end Gone

/-! ## Frames that leave no trace -/

section Frames

variable (C : Codec)

/-- The frame makes the handler panic: an address that it uses is none. -/
def Panics (s : Session) (i : Input) : Prop :=
  s.status.status = .login ∧ i.frame ≠ [heartBeat] ∧
    ∃ j p, newJID s.status.jid = .ok j ∧ newPacket C i.frame = .ok p ∧ ¬ Addressed j p.envelope

/-- The frame ends the session: a first frame that is no accepted login, or no packet. -/
def Closes (s : Session) (i : Input) : Prop :=
  s.status.status = .conn ∧ accepted C i = none ∨
    s.status.status = .login ∧ i.frame ≠ [heartBeat] ∧ ∃ e, newPacket C i.frame = .error e

/-- An ack with this id has nothing to remove. -/
def Unacked (n : Node) (s : Session) (id : Bytes) : Prop :=
  n.oflCache id = some [] ∨ n.oflCache id = none ∧ s.pkgBuff[id]? = none

/-- The message is not for the user `j`, and if it is from that user to somebody else it is put on
the router, which is full. A message without an address that is needed is not handled to its end. -/
def Unrouted (n : Node) (j : JID) (e : Envelope) : Prop :=
  ∀ r, newJID e.to_ = .ok r → j.stringWithoutResource ≠ r.stringWithoutResource ∧
    ∀ f, newJID e.from_ = .ok f → j.stringWithoutResource = f.stringWithoutResource →
      (n.get r.toSessionid).isSome ∧ routerQueueSize ≤ n.router.length

/-- The frame leaves no trace in the session of the user `j`. -/
def Unheard (n : Node) (s : Session) (j : JID) (i : Input) : Prop :=
  i.frame ≠ [heartBeat] ∧
    match request C i with
    | .ack p => Unacked n s p.envelope.id
    | .group p => ∀ f, newJID p.envelope.from_ ≠ .ok f
    | .chat p => p.envelope.ack = 0 ∧ Unrouted n j p.envelope
    | .bad _ => False

/-- The frame makes the handler panic once the session is closed, and drops the ones behind it. -/
def Drops (s : Session) (i : Input) : Prop :=
  i.frame ≠ [heartBeat] ∧
    match request C i with
    | .ack _ => ∀ j, newJID s.status.jid ≠ .ok j
    | .group p => ∀ f, newJID p.envelope.from_ ≠ .ok f
    | .chat _ | .bad _ => False

/-- The frame leaves no trace once the session is closed. -/
def UnheardClosed (n : Node) (s : Session) (i : Input) : Prop :=
  i.frame = [heartBeat] ∨
    match request C i with
    | .ack p => Unacked n s p.envelope.id
    | .chat p => p.envelope.ack = 0
    | .group _ | .bad _ => False

end Frames

section Traces

variable {C : Codec} {x : Bytes} {n : Node} {s : Session} {i : Input} {p : Packet} {j : JID}

theorem updateSession_same {f : Session → Session} (hs : n.sessions x = some s) (hf : f s = s) :
    n.updateSession x f = n := by
  rw [Node.updateSession_eq hs, hf, ← hs, Function.update_eq_self]

theorem erase_of_none {buff : PkgBuff} {id : Bytes} (h : buff[id]? = none) : buff.erase id = buff := by
  refine Std.ExtTreeMap.ext_getElem? fun k => ?_
  rw [Std.ExtTreeMap.getElem?_erase]
  split
  · rename_i hEq
    rw [← h, Std.LawfulEqOrd.eq_of_compare hEq]
  · rfl

theorem serverAck_eq (hs : n.sessions x = some s) (hj : newJID s.status.jid = .ok j) (p : Packet) :
    serverAck x p n = .done () ((n.oflCache p.envelope.id).elim
      (n.updateSession x fun s => { s with pkgBuff := s.pkgBuff.erase p.envelope.id })
      fun ids => n.send (ids.flatMap fun id => deleteByIdxKey j.toOfflineKey id)) := by
  unfold serverAck
  rw [bind_done (Node.session_eq hs), hj, bind_done (deref_ok j n), bind_done (read_apply _ n)]
  cases n.oflCache p.envelope.id with
  | some ids => rfl
  | none => rfl

theorem serverAck_unacked (hs : n.sessions x = some s) (hj : newJID s.status.jid = .ok j)
    (h : Unacked n s p.envelope.id) :
    serverAck x p n = .done () n ∧ ackCalls s.status n p = [] := by
  rw [serverAck_eq hs hj, ackCalls, hj]
  rcases h with hSome | ⟨hNone, hBuff⟩
  · rw [hSome]
    exact ⟨rfl, rfl⟩
  · rw [hNone]
    refine ⟨congrArg (Outcome.done ()) (updateSession_same hs ?_), rfl⟩
    rw [erase_of_none hBuff]

/-- An ack that removes something: an entry of the buffer, or messages in the store. -/
theorem serverAck_acked (hs : n.sessions x = some s) (hj : newJID s.status.jid = .ok j)
    (h : ¬ Unacked n s p.envelope.id) :
    ackCalls s.status n p ≠ [] ∨ s.pkgBuff[p.envelope.id]? ≠ none ∧ ackCalls s.status n p = [] ∧
      serverAck x p n =
        .done () (n.updateSession x fun s => { s with pkgBuff := s.pkgBuff.erase p.envelope.id }) := by
  rw [serverAck_eq hs hj, ackCalls, hj]
  cases hCache : n.oflCache p.envelope.id with
  | some ids =>
    refine .inl ?_
    intro hNone
    have hNil : ids = [] := List.map_eq_nil_iff.mp hNone
    exact h (.inl (hCache.trans (congrArg some hNil)))
  | none => exact .inr ⟨fun hBuff => h (.inr ⟨hCache, hBuff⟩), rfl, rfl⟩

/-! ## Once the session is closed -/

theorem closed_drops (hs : n.sessions x = some s) (hClose : s.status.status = .close)
    (h : Drops C s i) : handleFrame C x i n = .panic n ∧ frameCalls C x i n = [] := by
  have hConn : s.status.status ≠ .conn := by
    rw [hClose]
    decide
  obtain ⟨hBeat, hDrops⟩ := h
  rw [handleFrame_later hs hConn, if_neg hBeat, frameCalls, hs]
  simp only [if_neg hConn, if_neg hBeat]
  cases hRequest : request C i with
  | ack p =>
    rw [hRequest] at hDrops
    simp only [handleRequest, serverAck, requestCalls, ackCalls]
    rw [bind_done (Node.session_eq hs)]
    cases hj : newJID s.status.jid with
    | ok j => exact absurd hj (hDrops j)
    | error e => exact ⟨rfl, rfl⟩
  | group p =>
    rw [hRequest] at hDrops
    simp only [handleRequest, generateGroupPackets, requestCalls, groupCalls]
    cases hf : newJID p.envelope.from_ with
    | ok f => exact absurd hf (hDrops f)
    | error e => exact ⟨rfl, rfl⟩
  | chat p =>
    rw [hRequest] at hDrops
    exact hDrops.elim
  | bad err =>
    rw [hRequest] at hDrops
    exact hDrops.elim

theorem decision_closed (hClose : s.status.status = .close) (store : Saradb.Store) (p : Packet) :
    decision C s.status store p = some .ignore := by
  rw [decision, hClose]
  rfl

theorem user_of_not_drops (hBeat : i.frame ≠ [heartBeat]) (hRequest : request C i = .ack p)
    (h : ¬ Drops C s i) : ∃ j, newJID s.status.jid = .ok j := by
  by_contra hNone
  refine h ⟨hBeat, ?_⟩
  rw [hRequest]
  exact not_exists.mp hNone

theorem closed_unheard (hs : n.sessions x = some s) (hClose : s.status.status = .close)
    (hDrops : ¬ Drops C s i) (h : UnheardClosed C n s i) :
    handleFrame C x i n = .done () n ∧ frameCalls C x i n = [] := by
  have hConn : s.status.status ≠ .conn := by
    rw [hClose]
    decide
  rw [handleFrame_later hs hConn, frameCalls, hs]
  simp only [if_neg hConn]
  rcases eq_or_ne i.frame [heartBeat] with hBeat | hBeat
  · rw [if_pos hBeat, if_pos hBeat, heartbeat_eq hs, hClose]
    exact ⟨rfl, rfl⟩
  rw [if_neg hBeat, if_neg hBeat]
  have hUnheard := h.resolve_left hBeat
  cases hRequest : request C i with
  | ack p =>
    rw [hRequest] at hUnheard
    obtain ⟨j, hj⟩ := user_of_not_drops hBeat hRequest hDrops
    exact serverAck_unacked hs hj hUnheard
  | chat p =>
    rw [hRequest] at hUnheard
    have hIgnore := decision_closed (C := C) hClose n.db.store p
    simp only [handleRequest, requestCalls, routeCalls, hIgnore, if_neg (not_not.mpr hUnheard)]
    exact ⟨routePacket_done hs hIgnore, trivial⟩
  | group p =>
    rw [hRequest] at hUnheard
    exact hUnheard.elim
  | bad err =>
    rw [hRequest] at hUnheard
    exact hUnheard.elim

/-! ## Frames that are heard -/

/-- How much a session has written and its node has routed. -/
def weight (x : Bytes) (n : Node) : Nat := (n.sessions x).elim 0 (·.written.length) + n.router.length

def Louder (x : Bytes) (n n' : Node) : Prop := weight x n ≤ weight x n'

instance : Std.Refl (Louder x) where
  refl _ := le_rfl

instance : IsTrans Node (Louder x) where
  trans _ _ _ h h' := Nat.le_trans h h'

theorem Louder.updateSession {y : Bytes} {f : Session → Session}
    (hf : ∀ s, s.written.length ≤ (f s).written.length) : Louder x n (n.updateSession y f) := by
  refine Nat.add_le_add_right ?_ _
  rcases eq_or_ne x y with rfl | hne
  · rw [Node.updateSession_self]
    cases n.sessions x with
    | none => exact le_rfl
    | some s => exact hf s
  · rw [Node.updateSession_of_ne n hne]

theorem weight_route (x : Bytes) (n : Node) (item : RouterItem) :
    weight x (n.route item) = weight x n + if n.router.length < routerQueueSize then 1 else 0 := by
  unfold Node.route
  split
  · simp [weight, Nat.add_assoc]
  · rfl

theorem allows_louder {y : Bytes} : Allows (Louder x) C y where
  sendMessage _ _ := .updateSession fun s => by simp
  send _ _ := le_rfl
  route item n := by
    simp only [Louder, modify_apply, Outcome.state_done, weight_route]
    omega
  closeSession env := closeSession_keeps (fun _ _ => le_rfl) (fun _ _ => le_rfl)
    (fun _ _ => .updateSession fun _ => le_rfl) y env
  logon _ _ _ := .updateSession fun _ => le_rfl
  cache _ _ _ := le_rfl
  add _ _ := .updateSession fun _ => le_rfl
  del _ _ _ := .updateSession fun _ => le_rfl

theorem weight_sendMessage (hs : n.sessions x = some s) (data : Written) :
    weight x (sendMessage x data n).state = weight x n + 1 := by
  simp only [sendMessage, modify_apply, Outcome.state_done, weight, Node.updateSession_self, hs]
  simp only [Option.map_some, Option.elim_some, List.length_append, List.length_singleton]
  exact Nat.add_right_comm ..

theorem weight_answer (hs : n.sessions x = some s) (p : Packet) {rest : Prog Node Unit}
    (hRest : Keeps (Louder x) rest) : weight x n < weight x ((answer x p >>= fun _ => rest) n).state := by
  have hSent : answer x p n = .done () (sendMessage x (.answer p) n).state := rfl
  rw [bind_done hSent]
  have hLouder := hRest (sendMessage x (.answer p) n).state
  have hWeight := weight_sendMessage hs (.answer p)
  unfold Louder at hLouder
  omega

theorem weight_group (hs : n.sessions x = some s) {f : JID} (hf : newJID p.envelope.from_ = .ok f)
    (env : Env) : weight x n < weight x (handleRequest C x env (.group p) n).state := by
  obtain ⟨r, hGenerate⟩ := generateGroupPackets_db hf env n
  have hs' : ({ n with db := sendAll n.db (cacheCalls n env p.envelope.gid f.domain) } : Node).sessions x =
      some s := hs
  simp only [handleRequest]
  rw [bind_done hGenerate]
  cases r with
  | error gerr =>
    have hWeight := weight_sendMessage hs' (.answer (newPacketSysNotify p.envelope.id gerr))
    exact lt_of_lt_of_eq (Nat.lt_succ_self _) hWeight.symm
  | ok packets => exact weight_answer hs' _ (Keeps.forM fun q _ => allows_louder.routePacket q)

theorem weight_bad (hs : n.sessions x = some s) (err : Bytes) (env : Env) :
    weight x n < weight x (handleRequest C x env (.bad err) n).state :=
  weight_answer hs _ (allows_louder.closeSession env)

theorem weight_acked (hs : n.sessions x = some s) (hAck : p.envelope.ack ≠ 0) (env : Env) :
    weight x n < weight x (handleRequest C x env (.chat p) n).state := by
  simp only [handleRequest, if_pos hAck]
  exact weight_answer hs _ (allows_louder.routePacket p)

/-- What a frame that is heard does. -/
inductive Heard (C : Codec) (x : Bytes) (n : Node) (s : Session) (i : Input) : Prop
  | weight : weight x n < weight x (handleFrame C x i n).state → Heard C x n s i
  | calls : frameCalls C x i n ≠ [] → Heard C x n s i
  | removed (id : Bytes) : s.pkgBuff[id]? ≠ none → frameCalls C x i n = [] →
      handleFrame C x i n = .done ()
        (n.updateSession x fun s => { s with pkgBuff := s.pkgBuff.erase id }) → Heard C x n s i

theorem Heard.of_acked (hs : n.sessions x = some s) (hConn : s.status.status ≠ .conn)
    (hBeat : i.frame ≠ [heartBeat]) (hRequest : request C i = .ack p) (hj : newJID s.status.jid = .ok j)
    (h : ¬ Unacked n s p.envelope.id) : Heard C x n s i := by
  have hFrame : handleFrame C x i n = serverAck x p n := by
    rw [handleFrame_later hs hConn, if_neg hBeat, hRequest]
    rfl
  have hCalls : frameCalls C x i n = ackCalls s.status n p := by
    rw [frameCalls, hs]
    simp only [if_neg hConn, if_neg hBeat, hRequest]
    rfl
  rcases serverAck_acked hs hj h with hSome | ⟨hBuff, hNone, hDone⟩
  · exact .calls (hCalls ▸ hSome)
  · exact .removed _ hBuff (hCalls.trans hNone) (hFrame.trans hDone)

theorem Heard.of_weight (hs : n.sessions x = some s) (hConn : s.status.status ≠ .conn)
    (hBeat : i.frame ≠ [heartBeat])
    (h : Sara.weight x n < Sara.weight x (handleRequest C x i.env (request C i) n).state) :
    Heard C x n s i := by
  refine .weight ?_
  rwa [handleFrame_later hs hConn, if_neg hBeat]

theorem closed_heard (hs : n.sessions x = some s) (hClose : s.status.status = .close)
    (hDrops : ¬ Drops C s i) (h : ¬ UnheardClosed C n s i) : Heard C x n s i := by
  have hConn : s.status.status ≠ .conn := by
    rw [hClose]
    decide
  obtain ⟨hBeat, hHeard⟩ := not_or.mp h
  cases hRequest : request C i with
  | ack p =>
    rw [hRequest] at hHeard
    obtain ⟨j, hj⟩ := user_of_not_drops hBeat hRequest hDrops
    exact .of_acked hs hConn hBeat hRequest hj hHeard
  | group p =>
    refine .of_weight hs hConn hBeat ?_
    rw [hRequest]
    cases hf : newJID p.envelope.from_ with
    | ok f => exact weight_group hs hf i.env
    | error e =>
      refine absurd ⟨hBeat, ?_⟩ hDrops
      rw [hRequest]
      intro f hOk
      cases hf.symm.trans hOk
  | chat p =>
    rw [hRequest] at hHeard
    refine .of_weight hs hConn hBeat ?_
    rw [hRequest]
    exact weight_acked hs hHeard i.env
  | bad err =>
    refine .of_weight hs hConn hBeat ?_
    rw [hRequest]
    exact weight_bad hs err i.env

/-! ## While a user is logged in -/

theorem decision_login (hLogin : s.status.status = .login) (hj : newJID s.status.jid = .ok j)
    (store : Saradb.Store) (p : Packet) : decision C s.status store p = decisionFor C store p j := by
  rw [decision, if_neg (not_not.mpr hLogin), hj]
  rfl

theorem unrouted_iff (p : Packet) (j : JID) (n : Node) : Unrouted n j p.envelope ↔
    match decisionFor C n.db.store p j with
    | none | some .ignore => True
    | some (.route _) => routerQueueSize ≤ n.router.length
    | some .toMe | some .store | some (.notify _) => False := by
  unfold Unrouted decisionFor
  cases newJID p.envelope.to_ with
  | error e => simp
  | ok r =>
    by_cases hSame : j.stringWithoutResource = r.stringWithoutResource
    · simp [hSame]
    cases newJID p.envelope.from_ with
    | error e => simp [hSame]
    | ok f =>
      by_cases hMine : j.stringWithoutResource = f.stringWithoutResource
      · cases hGet : Redis.get n.db.store r.toSessionid with
        | none => simp [← hMine, hSame, Node.get, hGet]
        | some ssb => simp [← hMine, hSame, Node.get, hGet]
      · simp [hSame, hMine]

theorem login_unheard (hs : n.sessions x = some s) (hLogin : s.status.status = .login)
    (hj : newJID s.status.jid = .ok j) (h : Unheard C n s j i) :
    (handleFrame C x i n).state = n ∧ frameCalls C x i n = [] := by
  have hConn : s.status.status ≠ .conn := by
    rw [hLogin]
    decide
  obtain ⟨hBeat, hUnheard⟩ := h
  rw [handleFrame_later hs hConn, if_neg hBeat, frameCalls, hs]
  simp only [if_neg hConn, if_neg hBeat]
  cases hRequest : request C i with
  | ack p =>
    rw [hRequest] at hUnheard
    obtain ⟨hDone, hCalls⟩ := serverAck_unacked hs hj hUnheard
    exact ⟨congrArg Outcome.state hDone, hCalls⟩
  | group p =>
    rw [hRequest] at hUnheard
    simp only [handleRequest, generateGroupPackets, requestCalls, groupCalls]
    cases hf : newJID p.envelope.from_ with
    | ok f => exact absurd hf (hUnheard f)
    | error e => exact ⟨rfl, rfl⟩
  | chat p =>
    rw [hRequest] at hUnheard
    obtain ⟨hAck, hUnrouted⟩ := hUnheard
    rw [unrouted_iff (C := C)] at hUnrouted
    have hDecision := decision_login (C := C) hLogin hj n.db.store p
    simp only [handleRequest, if_neg (not_not.mpr hAck), requestCalls, routeCalls, hDecision]
    cases hFor : decisionFor C n.db.store p j with
    | none =>
      rw [routePacket_panic hs (hDecision.trans hFor)]
      exact ⟨rfl, rfl⟩
    | some d =>
      rw [routePacket_done hs (hDecision.trans hFor)]
      rw [hFor] at hUnrouted
      cases d with
      | ignore => exact ⟨rfl, rfl⟩
      | route ss => exact ⟨if_neg (Nat.not_lt.mpr hUnrouted), rfl⟩
      | toMe | store | notify => exact hUnrouted.elim
  | bad err =>
    rw [hRequest] at hUnheard
    exact hUnheard.elim

theorem weight_toMe (hs : n.sessions x = some s) (p : Packet) :
    weight x n < weight x (routeAct C x p .toMe n).state := by
  have hAdd : pkgBuffAdd x p n = .done () (pkgBuffAdd x p n).state := rfl
  have hLouder : Louder x n (pkgBuffAdd x p n).state := (allows_louder (C := C)).add p n
  have hSome : ∃ s', (pkgBuffAdd x p n).state.sessions x = some s' := by
    refine ⟨{ s with pkgBuff := s.pkgBuff.insert p.envelope.id p }, ?_⟩
    simp only [pkgBuffAdd, modify_apply, Outcome.state_done, Node.updateSession_self, hs, Option.map_some]
  obtain ⟨s', hs'⟩ := hSome
  have hWeight := weight_sendMessage hs' (.relay p)
  simp only [routeAct]
  rw [bind_done hAdd, hWeight]
  exact Nat.lt_succ_of_le hLouder

theorem Heard.of_routed (hs : n.sessions x = some s) (hLogin : s.status.status = .login)
    (hj : newJID s.status.jid = .ok j) (hBeat : i.frame ≠ [heartBeat]) (hRequest : request C i = .chat p)
    (hAck : p.envelope.ack = 0) (h : ¬ Unrouted n j p.envelope) : Heard C x n s i := by
  have hConn : s.status.status ≠ .conn := by
    rw [hLogin]
    decide
  have hDecision := decision_login (C := C) hLogin hj n.db.store p
  have hFrame : handleFrame C x i n = routePacket C x p n := by
    rw [handleFrame_later hs hConn, if_neg hBeat, hRequest]
    simp only [handleRequest, if_neg (not_not.mpr hAck)]
  rw [unrouted_iff (C := C)] at h
  cases hFor : decisionFor C n.db.store p j with
  | none =>
    rw [hFor] at h
    exact absurd trivial h
  | some d =>
    rw [hFor] at h
    rw [routePacket_done hs (hDecision.trans hFor)] at hFrame
    cases d with
    | ignore => exact absurd trivial h
    | toMe =>
      refine .weight ?_
      rw [hFrame]
      exact weight_toMe hs p
    | notify e =>
      refine .weight ?_
      rw [hFrame]
      exact lt_of_lt_of_eq (Nat.lt_succ_self _) (weight_sendMessage hs _).symm
    | route ss =>
      refine .weight ?_
      rw [hFrame]
      simp only [routeAct, modify_apply, Outcome.state_done, weight_route]
      rw [if_pos (Nat.not_le.mp h)]
      exact Nat.lt_succ_self _
    | store =>
      refine .calls ?_
      rw [frameCalls, hs]
      simp only [if_neg hConn, if_neg hBeat, hRequest, requestCalls, routeCalls, hDecision, hFor,
        storeCalls]
      unfold decisionFor at hFor
      cases hr : newJID p.envelope.to_ with
      | ok r => exact List.cons_ne_nil _ _
      | error e =>
        rw [hr] at hFor
        cases hFor

theorem login_heard (hs : n.sessions x = some s) (hLogin : s.status.status = .login)
    (hj : newJID s.status.jid = .ok j) (h : ¬ Unheard C n s j i) : Heard C x n s i := by
  have hConn : s.status.status ≠ .conn := by
    rw [hLogin]
    decide
  rcases eq_or_ne i.frame [heartBeat] with hBeat | hBeat
  · refine .weight ?_
    rw [handleFrame_later hs hConn, if_pos hBeat, heartbeat_eq hs, if_pos hLogin]
    exact lt_of_lt_of_eq (Nat.lt_succ_self _) (weight_sendMessage hs (.signal heartBeat)).symm
  have hHeard := fun hMatch => h ⟨hBeat, hMatch⟩
  cases hRequest : request C i with
  | ack p =>
    rw [hRequest] at hHeard
    exact .of_acked hs hConn hBeat hRequest hj hHeard
  | group p =>
    rw [hRequest] at hHeard
    refine .of_weight hs hConn hBeat ?_
    rw [hRequest]
    cases hf : newJID p.envelope.from_ with
    | ok f => exact weight_group hs hf i.env
    | error e =>
      refine absurd (fun f hOk => ?_) hHeard
      cases hf.symm.trans hOk
  | chat p =>
    rw [hRequest] at hHeard
    by_cases hAck : p.envelope.ack = 0
    · exact .of_routed hs hLogin hj hBeat hRequest hAck fun hUnrouted => hHeard ⟨hAck, hUnrouted⟩
    · refine .of_weight hs hConn hBeat ?_
      rw [hRequest]
      exact weight_acked hs hAck i.env
  | bad err =>
    refine .of_weight hs hConn hBeat ?_
    rw [hRequest]
    exact weight_bad hs err i.env

/-! ## The first frame that panics or closes -/

theorem stays_handleRequest (env : Env) (r : Request) (hGood : ∀ e, r ≠ .bad e) :
    Keeps (Stays x) (handleRequest C x env r) := by
  cases r with
  | ack p => exact serverAck_keeps stays_send (fun _ _ _ => .updateSession fun _ => rfl) x p
  | group p =>
    refine (keeps_generateGroupPackets (fun _ _ _ => stays_send _) p env).bind fun found => ?_
    cases found with
    | error gerr => exact stays_sendMessage x _
    | ok packets => exact (stays_sendMessage x _).bind fun _ => Keeps.forM fun q _ => stays_routePacket x q
  | chat p =>
    simp only [handleRequest]
    split
    · exact (stays_sendMessage x _).bind fun _ => stays_routePacket x p
    · exact stays_routePacket x p
  | bad err => exact absurd rfl (hGood err)

/-- More was written to the session. -/
def wrote (x : Bytes) (data : List Written) (n : Node) : Node :=
  n.updateSession x fun s => { s with written := s.written ++ data }

theorem wrote_nil (hs : n.sessions x = some s) : wrote x [] n = n :=
  updateSession_same hs (by rw [List.append_nil])

theorem decisionFor_eq_none_iff (store : Saradb.Store) (p : Packet) (j : JID) :
    decisionFor C store p j = none ↔ ¬ ∃ r, newJID p.envelope.to_ = .ok r ∧
      (j.stringWithoutResource = r.stringWithoutResource ∨ ∃ f, newJID p.envelope.from_ = .ok f) := by
  unfold decisionFor
  cases newJID p.envelope.to_ with
  | error e => simp
  | ok r =>
    by_cases hSame : j.stringWithoutResource = r.stringWithoutResource
    · simp [hSame]
    cases newJID p.envelope.from_ with
    | error e => simp [hSame]
    | ok f => simp [hSame]

/-- A frame that panics has been answered at most. -/
theorem handleFrame_panics (hs : n.sessions x = some s) (h : Panics C s i) :
    ∃ data, handleFrame C x i n = .panic (wrote x data n) := by
  obtain ⟨hLogin, hBeat, j, p, hj, hPacket, hNot⟩ := h
  have hConn : s.status.status ≠ .conn := by
    rw [hLogin]
    decide
  rw [handleFrame_later hs hConn, if_neg hBeat]
  unfold request
  rw [hPacket]
  simp only
  split
  · rename_i hAck
    exact absurd ⟨absurd hAck, absurd hAck⟩ hNot
  rename_i hAck
  split
  · rename_i hGroup
    refine ⟨[], ?_⟩
    rw [wrote_nil hs]
    simp only [handleRequest, generateGroupPackets]
    cases hf : newJID p.envelope.from_ with
    | error e =>
      simp only [stamped, hf]
      rfl
    | ok f => exact absurd ⟨fun _ _ => ⟨f, hf⟩, fun _ hChat => absurd hGroup hChat⟩ hNot
  · rename_i hGroup
    have hNone : ∀ store, decision C s.status store (stamped p i.env) = none := by
      intro store
      rw [decision_login hLogin hj, decisionFor_eq_none_iff]
      exact fun hTo => hNot ⟨fun _ hIs => absurd hIs hGroup, fun _ _ => hTo⟩
    simp only [handleRequest]
    split
    · refine ⟨[.answer (newPacketAck p.envelope.id i.env.timestamp13)], ?_⟩
      let t : Session := { s with
        written := s.written ++ [.answer (newPacketAck p.envelope.id i.env.timestamp13)] }
      have ht : (wrote x [.answer (newPacketAck p.envelope.id i.env.timestamp13)] n).sessions x = some t := by
        rw [wrote, Node.updateSession_self, hs]
        rfl
      have hAnswer : answer x (newPacketAck p.envelope.id i.env.timestamp13) n =
        .done () (wrote x [.answer (newPacketAck p.envelope.id i.env.timestamp13)] n) := rfl
      exact (bind_done hAnswer _).trans (routePacket_panic ht (hNone _))
    · refine ⟨[], ?_⟩
      rw [wrote_nil hs]
      exact routePacket_panic hs (hNone _)

theorem handleFrame_closes (hs : n.sessions x = some s) (hSound : s.Sound) (h : Closes C s i) :
    Ends (handleFrame C x i) (fun _ => Closing C x s i.env n) n := by
  rcases h with ⟨hConn, hNone⟩ | ⟨hLogin, hBeat, e, hError⟩
  · exact handleFrame_closing hs hSound hConn hNone
  · have hOpen : s.status.status ≠ .close := by
      rw [hLogin]
      decide
    have hConn : s.status.status ≠ .conn := by
      rw [hLogin]
      decide
    obtain ⟨_, m, hDone, hClosing⟩ := answer_close (C := C) hs hSound hOpen
      (newPacketSysNotify (i.env.uuid 0) e) i.env
    refine ⟨(), m, ?_, hClosing⟩
    rw [handleFrame_later hs hConn, if_neg hBeat, request, hError]
    exact hDone

theorem not_panics_of_closes (h : Closes C s i) : ¬ Panics C s i := by
  rintro ⟨hLogin, _, _, p, _, hPacket, _⟩
  rcases h with ⟨hConn, _⟩ | ⟨_, _, e, hError⟩
  · cases hConn.symm.trans hLogin
  · cases hPacket.symm.trans hError

theorem sound_handleFrame (hSound : Sound x n) (i : Input) : Sound x (handleFrame C x i n).state :=
  sound_of_moves (moves_handleFrame i n hSound) hSound

theorem request_ne_bad (hPacket : newPacket C i.frame = .ok p) (e : Bytes) : request C i ≠ .bad e := by
  intro hBad
  unfold request at hBad
  rw [hPacket] at hBad
  simp only at hBad
  split at hBad
  · cases hBad
  · split at hBad
    · cases hBad
    · cases hBad

/-- Any other frame is handled to its end, and the connection stays open. -/
theorem handleFrame_goes_on (hs : n.sessions x = some s) (hSound : s.Sound)
    (hOpen : s.status.status ≠ .close) (hPanics : ¬ Panics C s i) (hCloses : ¬ Closes C s i) :
    ∃ m, handleFrame C x i n = .done () m ∧ gone x m = false := by
  have hConnOpen : s.connClosed = false := by
    rw [Bool.eq_false_iff, ne_eq, hSound.connClosed]
    exact hOpen
  cases hStatus : s.status.status with
  | close => exact absurd hStatus hOpen
  | conn =>
    cases hAccepted : accepted C i with
    | none => exact absurd (.inl ⟨hStatus, hAccepted⟩) hCloses
    | some login =>
      obtain ⟨packet, jid⟩ := login
      obtain ⟨_, m, hDone, _, ⟨reply, hSession⟩, _⟩ := handleFrame_accepted hs hStatus hAccepted
      exact ⟨m, hDone, (gone_eq hSession).trans hConnOpen⟩
  | login =>
    have hConn : s.status.status ≠ .conn := by
      rw [hStatus]
      decide
    obtain ⟨j, hj⟩ := hSound.user hStatus
    have hStays : ∀ m, Stays x n m → Sound x m → gone x m = false := by
      rintro m hStays ⟨s', hs', hSound'⟩
      unfold Stays at hStays
      rw [hs, hs', Option.map_some, Option.map_some, Option.some.injEq] at hStays
      rw [gone_eq hs', Bool.eq_false_iff, ne_eq, hSound'.connClosed, hStays]
      exact hOpen
    have hLater : ∀ m, handleFrame C x i n = .done () m → Stays x n m → gone x m = false := by
      intro m hDone hSame
      have hNext := sound_handleFrame (C := C) ⟨s, hs, hSound⟩ i
      rw [hDone] at hNext
      exact hStays m hSame hNext
    rcases eq_or_ne i.frame [heartBeat] with hBeat | hBeat
    · have hDone := (handleFrame_later (C := C) hs hConn i).trans
        ((congrFun (if_pos hBeat) n).trans (heartbeat_eq hs))
      refine ⟨_, hDone, hLater _ hDone ?_⟩
      rw [if_pos hStatus]
      exact .updateSession fun _ => rfl
    · cases hPacket : newPacket C i.frame with
      | error e => exact absurd (.inr ⟨hStatus, hBeat, e, hPacket⟩) hCloses
      | ok p =>
        have hAddressed : Addressed j p.envelope := by
          by_contra hNot
          exact hPanics ⟨hStatus, hBeat, j, p, hj, hPacket, hNot⟩
        obtain ⟨m, hDone⟩ := (handleFrame_returns_iff ⟨s, hs, hStatus, hj⟩ hBeat hPacket).mpr hAddressed
        refine ⟨m, hDone, hLater m hDone ?_⟩
        have hRequest := stays_handleRequest (C := C) (x := x) i.env (request C i)
          (request_ne_bad hPacket) n
        rw [handleFrame_later hs hConn, if_neg hBeat] at hDone
        rwa [hDone] at hRequest

/-! ## The conditions, from state to state -/

theorem unheard_congr {n' : Node} {s' : Session} (hCache : n'.oflCache = n.oflCache)
    (hBuff : s'.pkgBuff = s.pkgBuff) (hDb : n'.db = n.db) (hRouter : n'.router = n.router) (j : JID)
    (i : Input) : Unheard C n' s' j i ↔ Unheard C n s j i := by
  simp only [Unheard, Unacked, Unrouted, Node.get, hCache, hBuff, hDb, hRouter]

theorem unheardClosed_congr {n' : Node} {s' : Session} (hCache : n'.oflCache = n.oflCache)
    (hBuff : s'.pkgBuff = s.pkgBuff) (i : Input) : UnheardClosed C n' s' i ↔ UnheardClosed C n s i := by
  simp only [UnheardClosed, Unacked, hCache, hBuff]

theorem drops_congr {s' : Session} (hJid : s'.status.jid = s.status.jid) (i : Input) :
    Drops C s' i ↔ Drops C s i := by
  simp only [Drops, hJid]

/-- With an entry less in the buffer, an ack for nothing is still for nothing. -/
theorem Unheard.erased {n' : Node} {s' : Session} {id : Bytes} (h : Unheard C n s j i)
    (hCache : n'.oflCache = n.oflCache) (hBuff : s'.pkgBuff = s.pkgBuff.erase id) (hDb : n'.db = n.db)
    (hRouter : n'.router = n.router) : Unheard C n' s' j i := by
  obtain ⟨hBeat, hUnheard⟩ := h
  refine ⟨hBeat, ?_⟩
  cases hRequest : request C i with
  | ack p =>
    rw [hRequest] at hUnheard
    refine hUnheard.imp (fun hSome => hCache ▸ hSome) fun ⟨hNone, hAbsent⟩ => ⟨hCache ▸ hNone, ?_⟩
    rw [hBuff, Std.ExtTreeMap.getElem?_erase, hAbsent, ite_self]
  | group p =>
    rw [hRequest] at hUnheard
    exact hUnheard
  | chat p =>
    rw [hRequest] at hUnheard
    simp only [Unrouted, Node.get, hDb, hRouter]
    exact hUnheard
  | bad err =>
    rw [hRequest] at hUnheard
    exact hUnheard

end Traces

end Sara
