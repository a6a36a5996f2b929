import Sara.Core.Session

/-! # What the functions of a session keep

The functions of a session are put together from a few that change something. A
relation between nodes that those few keep is kept by all of them. The first such
relation says what no function touches: the sessions that exist, the ones that have
left `conn`, and, but for the login reply, the cache of the login replies.
-/

namespace Sara

open Lib Lib.Prog Saradb

set_option autoImplicit false

/-- What a session writes on its own account: no packet for its user, no login reply. -/
def Written.isOwn : Written → Bool
  | .relay _ => false
  | .answer p => p.delay.isNone
  | .signal _ => true

section Programs

variable {R : Node → Node → Prop} [Std.Refl R]

theorem keeps_session (x : Bytes) : Keeps R (Node.session x) := by
  intro n
  unfold Node.session
  split
  · exact Std.Refl.refl n
  · exact Std.Refl.refl n

variable [IsTrans Node R] {C : Codec}

/-! ## Functions that only look -/

theorem keeps_equalWithoutResource (jid : JID) (str : Bytes) :
    Keeps R (equalWithoutResource jid str) :=
  (Keeps.deref _).bind fun _ => Keeps.pure _

theorem keeps_routeDecide (x : Bytes) (packet : Packet) : Keeps R (routeDecide C x packet) := by
  refine (keeps_session x).bind fun s => ?_
  split
  · exact Keeps.pure _
  refine (Keeps.deref _).bind fun jid => (keeps_equalWithoutResource _ _).bind fun toMe => ?_
  split
  · exact Keeps.pure _
  refine (keeps_equalWithoutResource _ _).bind fun fromMe => ?_
  split
  · split
    · exact Keeps.pure _
    · refine (Keeps.read _).bind fun found => ?_
      cases found with
      | none => exact Keeps.pure _
      | some ssb => exact Keeps.pure _
  · exact Keeps.pure _

theorem keeps_fetchOfflinePacket (x : Bytes) : Keeps R (fetchOfflinePacket C x) :=
  (keeps_session x).bind fun _ => (Keeps.deref _).bind fun _ => Keeps.read _

theorem keeps_statusWrites (x : Bytes) : Keeps R (statusWrites C x) :=
  (keeps_session x).bind fun _ => (Keeps.deref _).bind fun _ => Keeps.pure _

/-! ## Looking up a group -/

theorem keeps_groupMembers {gid domain : Bytes}
    (hCache : ∀ us, Keeps R (modify fun n => n.send (putEx (groupUsersKey gid domain) us 3600)))
    (env : Env) : Keeps R (groupMembers gid domain env) := by
  refine (Keeps.read _).bind fun found => ?_
  cases found with
  | some users => exact Keeps.pure _
  | none =>
    simp only
    split
    · exact Keeps.pure _
    · split
      · exact (hCache _).bind fun _ => Keeps.pure _
      · exact Keeps.pure _

theorem keeps_generateGroupPackets
    (hCache : ∀ gid domain us,
      Keeps R (modify fun n => n.send (putEx (groupUsersKey gid domain) us 3600)))
    (packet : Packet) (env : Env) : Keeps R (generateGroupPackets packet env) := by
  refine (Keeps.deref _).bind fun from_jid =>
    (keeps_groupMembers (hCache _ _) env).bind fun found => ?_
  cases found with
  | none => exact Keeps.pure _
  | some users =>
    simp only
    split
    · exact (Keeps.deref _).bind fun _ => Keeps.pure _
    · exact Keeps.pure _

/-! ## Functions that write -/

/-- All a session sends to the database when it closes: its packets, and the end of its entry. -/
theorem keeps_closeSession_of_store (hStore : ∀ p, Keeps R (storePacket C p))
    (hRemove : ∀ idx key, Keeps R (modify fun n : Node => n.send (deleteByIdxKey idx key)))
    (hClean : ∀ sid, Keeps R (modify fun n : Node => { n with cleanSession := n.cleanSession ++ [sid] }))
    (hMark : ∀ x, Keeps R (modify fun n => n.updateSession x fun s =>
      { s with status := { s.status with status := .close }, connClosed := true }))
    (x : Bytes) (env : Env) : Keeps R (closeSession C x env) := by
  have hBuffer : ∀ buff, Keeps R (do
      modify fun n => n.updateSession x fun s =>
        { s with status := { s.status with status := .close }, connClosed := true }
      pkgBuffToStore C env buff) :=
    fun buff => (hMark x).bind fun _ => Keeps.forM fun p _ => hStore p
  refine (keeps_session x).bind fun s => ?_
  split
  · exact Keeps.pure _
  refine (hClean _).bind fun _ => ?_
  split
  · exact (Keeps.deref _).bind fun j => (hRemove _ _).bind fun _ => hBuffer _
  · exact hBuffer _

/-- All a session sends to the database for an ack: the removal of entries. -/
theorem keeps_serverAck_of_remove
    (hRemove : ∀ (idx : Bytes) (ids : List Bytes),
      Keeps R (modify fun n : Node => n.send (ids.flatMap fun id => deleteByIdxKey idx id)))
    (hDel : ∀ x id, Keeps R (pkgBuffDel x id)) (x : Bytes) (packet : Packet) :
    Keeps R (serverAck x packet) := by
  refine (keeps_session x).bind fun s => (Keeps.deref _).bind fun jid => (Keeps.read _).bind fun found => ?_
  cases found with
  | some ids => exact hRemove _ ids
  | none => exact hDel x _

section Writes

variable (hSend : ∀ ds, Keeps R (modify fun n : Node => n.send ds))
include hSend

theorem storePacket_keeps (p : Packet) : Keeps R (storePacket C p) :=
  (Keeps.deref _).bind fun _ => hSend _

theorem closeSession_keeps
    (hClean : ∀ sid, Keeps R (modify fun n : Node => { n with cleanSession := n.cleanSession ++ [sid] }))
    (hMark : ∀ x, Keeps R (modify fun n => n.updateSession x fun s =>
      { s with status := { s.status with status := .close }, connClosed := true }))
    (x : Bytes) (env : Env) : Keeps R (closeSession C x env) :=
  keeps_closeSession_of_store (storePacket_keeps hSend) (fun _ _ => hSend _) hClean hMark x env

theorem serverAck_keeps (hDel : ∀ x id, Keeps R (pkgBuffDel x id)) (x : Bytes) (packet : Packet) :
    Keeps R (serverAck x packet) :=
  keeps_serverAck_of_remove (fun _ _ => hSend _) hDel x packet

end Writes

/-- What is done with a packet, from the five things that may be done with it. -/
theorem routeAct_keeps {x : Bytes} {packet : Packet} (hAdd : Keeps R (pkgBuffAdd x packet))
    (hWrite : Keeps R (sendMessage x (.relay packet))) (hAnswer : ∀ p, Keeps R (answer x p))
    (hRoute : ∀ item : RouterItem, item.packet = some packet → Keeps R (modify fun n => n.route item))
    (hStore : Keeps R (storePacket C packet)) (d : Decision) : Keeps R (routeAct C x packet d) := by
  cases d with
  | ignore => exact Keeps.pure _
  | toMe => exact hAdd.bind fun _ => hWrite
  | notify e => exact hAnswer _
  | route ss => exact hRoute _ rfl
  | store => exact hStore

theorem loginReply_keeps
    (hCache : ∀ id ids, Keeps R (modify fun n : Node =>
      { n with oflCache := Function.update n.oflCache id ids }))
    (x : Bytes) (packet : Packet) : Keeps R (loginReply C x packet) := by
  refine (keeps_fetchOfflinePacket x).bind fun found => ?_
  cases found with
  | none => exact Keeps.pure _
  | some ofl_pks =>
    simp only
    split
    · exact (hCache _ _).bind fun _ => Keeps.pure _
    · exact Keeps.pure _

/-! ## Functions that answer, close, kill and cache -/

section Answers

variable {x : Bytes} (hSend : ∀ data, data.isOwn = true → Keeps R (sendMessage x data))
include hSend

omit [Std.Refl R] [IsTrans Node R] in
theorem answer_keeps {p : Packet} (hOwn : p.delay = none) : Keeps R (answer x p) := by
  apply hSend (.answer p)
  rw [Written.isOwn, hOwn]
  rfl

theorem heartbeat_keeps : Keeps R (heartbeat x) := by
  refine (keeps_session x).bind fun s => ?_
  split
  · exact hSend _ rfl
  · exact Keeps.pure _

variable (hClose : ∀ env, Keeps R (closeSession C x env))
include hClose

omit [Std.Refl R] in
theorem kill_keeps (env : Env) : Keeps R (kill C x env) :=
  (hSend _ rfl).bind fun _ => hClose env

omit [Std.Refl R] in
theorem refuse_keeps (id reason : Bytes) (env : Env) : Keeps R (refuse C x id reason env) :=
  (answer_keeps hSend rfl).bind fun _ => hClose env

theorem verifyGet_keeps (frame : Bytes) (env : Env) : Keeps R (verifyGet C x frame env) := by
  have hRefused : ∀ id reason, Keeps R (do
      refuse C x id reason env
      return (none : Option (Packet × JID × Option SessionStatus))) :=
    fun id reason => (refuse_keeps hSend hClose id reason env).bind fun _ => Keeps.pure _
  unfold verifyGet
  split
  · exact hRefused _ _
  · split
    · exact hRefused _ _
    · split
      · exact hRefused _ _
      · exact (Keeps.read _).bind fun _ => Keeps.pure _

theorem verifyAuth_keeps (packet : Packet) (jid : JID) (env : Env) :
    Keeps R (verifyAuth C x packet jid env) := by
  unfold verifyAuth
  split
  · exact Keeps.pure _
  · exact (refuse_keeps hSend hClose _ _ env).bind fun _ => Keeps.pure _

/-- The end of a verification. -/
theorem verified_keeps (packet : Packet) (jid : JID) (env : Env) : Keeps R (do
    if ← verifyAuth C x packet jid env then return some packet else return none) := by
  refine (verifyAuth_keeps hSend hClose packet jid env).bind fun ok => ?_
  cases ok with
  | false => exact Keeps.pure _
  | true => exact Keeps.pure _

/-- What a frame leads to, from what its parts may do. -/
theorem handleRequest_keeps
    (hCache : ∀ gid domain us,
      Keeps R (modify fun n => n.send (putEx (groupUsersKey gid domain) us 3600)))
    (hAck : ∀ p, Keeps R (serverAck x p)) (hRoute : ∀ p, Keeps R (routePacket C x p))
    (env : Env) (r : Request) : Keeps R (handleRequest C x env r) := by
  cases r with
  | ack packet => exact hAck packet
  | group packet =>
    refine (keeps_generateGroupPackets hCache packet env).bind fun found => ?_
    cases found with
    | error gerr => exact answer_keeps hSend rfl
    | ok packets => exact (answer_keeps hSend rfl).bind fun _ => Keeps.forM fun p _ => hRoute p
  | chat packet =>
    simp only [handleRequest]
    split
    · exact (answer_keeps hSend rfl).bind fun _ => hRoute packet
    · exact hRoute packet
  | bad err => exact (answer_keeps hSend rfl).bind fun _ => hClose env

end Answers

/-- The relation allows what a session may do whatever state the node is in, but for writing
packets that are for its user. -/
structure PermitsOwn (R : Node → Node → Prop) (C : Codec) : Prop where
  sendMessage : ∀ x data, data.isOwn = true → Keeps R (sendMessage x data)
  closeSession : ∀ x env, Keeps R (closeSession C x env)
  verifyKill : ∀ ss, Keeps R (verifyKill ss)
  cache : ∀ gid domain us, Keeps R (modify fun n => n.send (putEx (groupUsersKey gid domain) us 3600))

namespace PermitsOwn

variable (h : PermitsOwn R C)
include h

omit [Std.Refl R] [IsTrans Node R] in
theorem answer (x : Bytes) {p : Packet} (hOwn : p.delay = none) : Keeps R (Sara.answer x p) :=
  answer_keeps (h.sendMessage x) hOwn

omit [Std.Refl R] in
theorem kill (x : Bytes) (env : Env) : Keeps R (Sara.kill C x env) :=
  kill_keeps (h.sendMessage x) (h.closeSession x) env

theorem verifyGet (x frame : Bytes) (env : Env) : Keeps R (Sara.verifyGet C x frame env) :=
  verifyGet_keeps (h.sendMessage x) (h.closeSession x) frame env

theorem verifyAuth (x : Bytes) (packet : Packet) (jid : JID) (env : Env) :
    Keeps R (Sara.verifyAuth C x packet jid env) :=
  verifyAuth_keeps (h.sendMessage x) (h.closeSession x) packet jid env

theorem heartbeat (x : Bytes) : Keeps R (Sara.heartbeat x) := heartbeat_keeps (h.sendMessage x)

end PermitsOwn

/-- The relation allows it with the login replies. -/
structure Permits (R : Node → Node → Prop) (C : Codec) : Prop where
  sendMessage : ∀ x data, data.isRelay = false → Keeps R (sendMessage x data)
  closeSession : ∀ x env, Keeps R (closeSession C x env)
  verifyKill : ∀ ss, Keeps R (verifyKill ss)
  cache : ∀ gid domain us, Keeps R (modify fun n => n.send (putEx (groupUsersKey gid domain) us 3600))

omit [Std.Refl R] [IsTrans Node R] in
theorem Permits.own (h : Permits R C) : PermitsOwn R C where
  sendMessage x data hOwn := h.sendMessage x data (by cases data <;> first | rfl | cases hOwn)
  closeSession := h.closeSession
  verifyKill := h.verifyKill
  cache := h.cache

omit [Std.Refl R] in
theorem Permits.kill (h : Permits R C) (x : Bytes) (env : Env) : Keeps R (Sara.kill C x env) :=
  h.own.kill x env

end Programs

/-! ## What a session finds a packet to be -/

section Decide

variable {C : Codec} {n : Node} {x : Bytes} {p : Packet} {s : Session} {j r : JID}

theorem equalWithoutResource_ok {str : Bytes} (hr : newJID str = .ok r) (j : JID) (n : Node) :
    equalWithoutResource j str n =
      .done (decide (j.stringWithoutResource = r.stringWithoutResource)) n := by
  unfold equalWithoutResource
  rw [hr]
  rfl

theorem routeDecide_toMe (hs : n.sessions x = some s) (hLogin : s.status.status = .login)
    (hj : newJID s.status.jid = .ok j) (hr : newJID p.envelope.to_ = .ok r)
    (hSame : j.stringWithoutResource = r.stringWithoutResource) :
    routeDecide C x p n = .done .toMe n := by
  unfold routeDecide
  rw [bind_done (Node.session_eq hs), if_neg (not_not.mpr hLogin), hj, bind_done (deref_ok j n),
    bind_done (equalWithoutResource_ok hr j n), if_pos (decide_eq_true hSame)]
  rfl

/-- A packet for someone else is routed if the session's user sent it. -/
theorem routeDecide_other {f : JID} (hs : n.sessions x = some s) (hLogin : s.status.status = .login)
    (hj : newJID s.status.jid = .ok j) (hr : newJID p.envelope.to_ = .ok r)
    (hf : newJID p.envelope.from_ = .ok f)
    (hOther : j.stringWithoutResource ≠ r.stringWithoutResource) :
    routeDecide C x p n = .done
      (if j.stringWithoutResource = f.stringWithoutResource then
        ((n.get r.toSessionid).map C.unmarshalStatus).elim .store .route
      else .ignore) n := by
  unfold routeDecide
  rw [bind_done (Node.session_eq hs), if_neg (not_not.mpr hLogin), hj, bind_done (deref_ok j n),
    bind_done (equalWithoutResource_ok hr j n), decide_eq_false hOther, if_neg Bool.false_ne_true,
    bind_done (equalWithoutResource_ok hf j n)]
  by_cases hMine : j.stringWithoutResource = f.stringWithoutResource
  · rw [if_pos hMine, if_pos (decide_eq_true hMine), hr]
    cases hGet : n.get r.toSessionid with
    | none =>
      simp only [bind_apply, read_apply, hGet]
      rfl
    | some ssb =>
      simp only [bind_apply, read_apply, hGet]
      rfl
  · rw [if_neg hMine, decide_eq_false hMine]
    rfl

theorem equalWithoutResource_done {n' : Node} {str : Bytes} {b : Bool}
    (h : equalWithoutResource j str n = .done b n') : n' = n ∧ ∃ r, newJID str = .ok r ∧
      b = decide (j.stringWithoutResource = r.stringWithoutResource) := by
  unfold equalWithoutResource at h
  obtain ⟨r, u, hDeref, hPure⟩ := bind_eq_done_iff.mp h
  obtain ⟨hr, rfl⟩ := deref_eq_done_iff.mp hDeref
  cases hPure
  exact ⟨rfl, r, hr, rfl⟩

/-- The look changes nothing. A packet is handed over only with an address, and only if
the session's user is the one who sent it or the one who gets it. -/
theorem routeDecide_done {n' : Node} {d : Decision} (h : routeDecide C x p n = .done d n') :
    n' = n ∧ (d = .ignore ∨ ∃ s j r, n.sessions x = some s ∧ s.status.status = .login ∧
      newJID s.status.jid = .ok j ∧ newJID p.envelope.to_ = .ok r ∧
        (d = .toMe ∧ j.stringWithoutResource = r.stringWithoutResource ∨
          ∃ f, newJID p.envelope.from_ = .ok f ∧ j.stringWithoutResource = f.stringWithoutResource ∧
            d = ((n.get r.toSessionid).map C.unmarshalStatus).elim .store .route)) := by
  unfold routeDecide at h
  obtain ⟨s, u, hSession, hStatus⟩ := bind_eq_done_iff.mp h
  obtain ⟨hs, rfl⟩ := Node.session_eq_done_iff.mp hSession
  split at hStatus
  · cases hStatus
    exact ⟨rfl, .inl rfl⟩
  rename_i hLogin
  obtain ⟨j, u, hDeref, hTo⟩ := bind_eq_done_iff.mp hStatus
  obtain ⟨hj, rfl⟩ := deref_eq_done_iff.mp hDeref
  obtain ⟨toMe, u, hToMe, hFrom⟩ := bind_eq_done_iff.mp hTo
  obtain ⟨rfl, r, hr, rfl⟩ := equalWithoutResource_done hToMe
  split at hFrom
  · rename_i hSame
    cases hFrom
    exact ⟨rfl, .inr ⟨s, j, r, hs, not_not.mp hLogin, hj, hr, .inl ⟨rfl, of_decide_eq_true hSame⟩⟩⟩
  obtain ⟨fromMe, u, hFromMe, hLook⟩ := bind_eq_done_iff.mp hFrom
  obtain ⟨rfl, f, hf, rfl⟩ := equalWithoutResource_done hFromMe
  split at hLook
  · rename_i hMine
    rw [hr] at hLook
    obtain ⟨found, u, hRead, hFound⟩ := bind_eq_done_iff.mp hLook
    obtain ⟨rfl, rfl⟩ := read_eq_done_iff.mp hRead
    have hEq : u = n' ∧ d = ((u.get r.toSessionid).map C.unmarshalStatus).elim .store .route := by
      cases hGet : u.get r.toSessionid with
      | none =>
        rw [hGet] at hFound
        cases hFound
        exact ⟨rfl, rfl⟩
      | some ssb =>
        rw [hGet] at hFound
        cases hFound
        exact ⟨rfl, rfl⟩
    exact ⟨hEq.1.symm, .inr ⟨s, j, r, hs, not_not.mp hLogin, hj, hr,
      .inr ⟨f, hf, of_decide_eq_true hMine, hEq.2⟩⟩⟩
  · cases hLook
    exact ⟨rfl, .inl rfl⟩

end Decide

/-! ## What is left alone -/

/-- The same sessions exist, none is back in `conn`, and the cached replies are the same. -/
structure Spares (n n' : Node) : Prop where
  sessions : ∀ x, (n'.sessions x).isSome = (n.sessions x).isSome
  conn : ∀ x s', n'.sessions x = some s' → s'.status.status = .conn →
    ∃ s, n.sessions x = some s ∧ s.status.status = .conn
  oflCache : n'.oflCache = n.oflCache

instance : Std.Refl Spares where
  refl _ := ⟨fun _ => rfl, fun _ s' hs' hConn => ⟨s', hs', hConn⟩, rfl⟩

instance : IsTrans Node Spares where
  trans _ _ _ h h' := by
    refine ⟨fun x => (h'.sessions x).trans (h.sessions x), ?_, h'.oflCache.trans h.oflCache⟩
    intro x s'' hs'' hConn
    obtain ⟨s', hs', hConn'⟩ := h'.conn x s'' hs'' hConn
    exact h.conn x s' hs' hConn'

variable {C : Codec} {n n' : Node} {x : Bytes}

theorem Spares.of_sessions (hSessions : n'.sessions = n.sessions) (hCache : n'.oflCache = n.oflCache) :
    Spares n n' := by
  refine ⟨fun x => by rw [hSessions], ?_, hCache⟩
  intro x s' hs' hConn
  exact ⟨s', hSessions ▸ hs', hConn⟩

theorem Spares.updateSession {f : Session → Session}
    (hConn : ∀ s, (f s).status.status = .conn → s.status.status = .conn) :
    Spares n (n.updateSession x f) := by
  refine ⟨?_, ?_, rfl⟩
  · intro y
    rcases eq_or_ne y x with rfl | hne
    · rw [Node.updateSession_self, Option.isSome_map]
    · rw [Node.updateSession_of_ne n hne]
  · intro y s' hs' hStatus
    rcases eq_or_ne y x with rfl | hne
    · rw [Node.updateSession_self] at hs'
      obtain ⟨s, hs, rfl⟩ := Option.map_eq_some_iff.mp hs'
      exact ⟨s, hs, hConn s hStatus⟩
    · rw [Node.updateSession_of_ne n hne] at hs'
      exact ⟨s', hs', hStatus⟩

theorem spares_sendMessage (x : Bytes) (data : Written) : Keeps Spares (sendMessage x data) :=
  fun _ => .updateSession fun _ hConn => hConn

theorem spares_send (ds : List Dispatch) : Keeps Spares (modify fun n => n.send ds) :=
  fun _ => .of_sessions rfl rfl

theorem spares_closeSession (x : Bytes) (env : Env) : Keeps Spares (closeSession C x env) :=
  closeSession_keeps spares_send (fun _ _ => .of_sessions rfl rfl)
    (fun _ _ => .updateSession fun _ hConn => by cases hConn) x env

theorem route_spares (item : RouterItem) : Spares n (n.route item) := by
  unfold Node.route
  split
  · exact .of_sessions rfl rfl
  · exact Std.Refl.refl n

theorem permits_spares : Permits Spares C where
  sendMessage x data _ := spares_sendMessage x data
  closeSession := spares_closeSession
  verifyKill _ _ := route_spares _
  cache _ _ _ := spares_send _

theorem spares_logon (x : Bytes) (packet : Packet) (env : Env) : Keeps Spares (logon x packet env) :=
  fun _ => .updateSession fun _ hConn => by cases hConn

theorem spares_routeAct (x : Bytes) (packet : Packet) (d : Decision) :
    Keeps Spares (routeAct C x packet d) :=
  routeAct_keeps (fun _ => .updateSession fun _ hConn => hConn) (spares_sendMessage x _)
    (fun _ => spares_sendMessage x _) (fun _ _ _ => route_spares _) (storePacket_keeps spares_send packet) d

/-- A login packet that is not refused changes nothing yet. -/
theorem verifyGet_done {frame : Bytes} {env : Env} {packet : Packet} {jid : JID}
    {found : Option SessionStatus}
    (h : verifyGet C x frame env n = .done (some (packet, jid, found)) n') :
    n' = n ∧ newJID packet.envelope.jid = .ok jid := by
  have hNone : ∀ id reason, (do
      refuse C x id reason env
      return (none : Option (Packet × JID × Option SessionStatus))) n ≠
        .done (some (packet, jid, found)) n' := by
    intro id reason hEq
    obtain ⟨_, _, _, hPure⟩ := bind_eq_done_iff.mp hEq
    cases hPure
  unfold verifyGet at h
  cases hPacket : newPacket C frame with
  | error e =>
    simp only [hPacket] at h
    exact absurd h (hNone _ _)
  | ok packet' =>
    simp only [hPacket] at h
    split at h
    · exact absurd h (hNone _ _)
    cases hJid : newJID packet'.envelope.jid with
    | error e =>
      simp only [hJid] at h
      exact absurd h (hNone _ _)
    | ok jid' =>
      simp only [hJid] at h
      cases h
      exact ⟨rfl, hJid⟩

/-- The offline messages of a user that the login reply holds. -/
def offlinePackets (C : Codec) (n : Node) (j : JID) : List BasePacket :=
  ((getByIdx n.db.store j.toOfflineKey).getD []).filterMap fun data => (newBasePacket C data).toOption

def offlineIds (C : Codec) (n : Node) (j : JID) : List Bytes :=
  (offlinePackets C n j).map (·.envelope.id)

/-- An empty reply is not cached. -/
def cacheReply (cache : Bytes → Option (List Bytes)) (id : Bytes) (ids : List Bytes) :
    Bytes → Option (List Bytes) :=
  if ids = [] then cache else Function.update cache id (some ids)

theorem loginReply_eq {s : Session} {j : JID} (hs : n.sessions x = some s)
    (hj : newJID s.status.jid = .ok j) (packet : Packet) :
    loginReply C x packet n =
      .done ((newPacketAuthSuccess packet.envelope.id).addDelay (offlinePackets C n j))
        { n with oflCache := cacheReply n.oflCache packet.envelope.id (offlineIds C n j) } := by
  have hFetch : fetchOfflinePacket C x n = .done ((getByIdx n.db.store j.toOfflineKey).map
      fun ddata => ddata.filterMap fun data => (newBasePacket C data).toOption) n := by
    unfold fetchOfflinePacket
    rw [bind_done (Node.session_eq hs), hj]
    rfl
  unfold loginReply offlineIds offlinePackets cacheReply
  rw [bind_done hFetch]
  cases getByIdx n.db.store j.toOfflineKey with
  | none => rfl
  | some ddata =>
    simp only [Option.map_some, Option.getD_some, List.length_pos_iff]
    split
    · rfl
    · rename_i hNone
      rw [if_pos (not_not.mp hNone)]
      rfl

/-- A session without a user gets no reply. -/
theorem loginReply_panic (hNone : ∀ s j, n.sessions x = some s → newJID s.status.jid ≠ .ok j)
    (packet : Packet) : loginReply C x packet n = .panic n := by
  have hFetch : fetchOfflinePacket C x n = .panic n := by
    unfold fetchOfflinePacket
    cases hs : n.sessions x with
    | none => rw [bind_panic (Node.session_eq_panic hs)]
    | some s =>
      rw [bind_done (Node.session_eq hs)]
      cases hj : newJID s.status.jid with
      | ok j => exact absurd hj (hNone s j hs)
      | error e => rfl
  unfold loginReply
  rw [bind_panic hFetch]

theorem loginReply_sessions (packet : Packet) :
    (loginReply C x packet n).state.sessions = n.sessions := by
  by_cases hUser : ∃ s j, n.sessions x = some s ∧ newJID s.status.jid = .ok j
  · obtain ⟨s, j, hs, hj⟩ := hUser
    rw [loginReply_eq hs hj]
    rfl
  · rw [loginReply_panic fun s j hs hj => hUser ⟨s, j, hs, hj⟩]
    rfl

theorem spares_serverAck (x : Bytes) (packet : Packet) : Keeps Spares (serverAck x packet) :=
  serverAck_keeps spares_send (fun _ _ _ => .updateSession fun _ hConn => hConn) x packet

/-! ## What some functions come to -/

section Results

variable {s : Session} {p : Packet}

theorem routePacket_toMe {j r : JID} (hs : n.sessions x = some s) (hLogin : s.status.status = .login)
    (hj : newJID s.status.jid = .ok j) (hr : newJID p.envelope.to_ = .ok r)
    (hSame : j.stringWithoutResource = r.stringWithoutResource) :
    routePacket C x p n = .done () { n with sessions := Function.update n.sessions x (some { s with
      pkgBuff := s.pkgBuff.insert p.envelope.id p, written := s.written ++ [.relay p] }) } := by
  unfold routePacket
  rw [bind_done (routeDecide_toMe hs hLogin hj hr hSame)]
  simp only [routeAct, pkgBuffAdd, sendMessage, bind_apply, modify_apply, Node.updateSession,
    Function.update_self, hs, Option.map_some, Function.update_idem]

theorem storePacket_ok {r : JID} (hr : newJID p.envelope.to_ = .ok r) (n : Node) :
    storePacket C p n = .done () (n.send (offlineWrites C r p)) := by
  unfold storePacket
  rw [hr]
  rfl

/-- An expansion that succeeds found the members, with the sender's name in the text. -/
theorem generateGroupPackets_ok {packet : Packet} {env : Env} {packets : List Packet}
    (h : generateGroupPackets packet env n = .done (.ok packets) n') :
    ∃ f users, newJID packet.envelope.from_ = .ok f ∧
      groupMembers packet.envelope.gid f.domain env n = .done (some users) n' ∧
      f.user <:+: users ∧ genGroupPackets users packet f env = .ok packets := by
  obtain ⟨f, m, hDeref, hRest⟩ := bind_eq_done_iff.mp h
  obtain ⟨hFrom, rfl⟩ := deref_eq_done_iff.mp hDeref
  obtain ⟨found, m', hMembers, hFound⟩ := bind_eq_done_iff.mp hRest
  cases found with
  | none => cases hFound
  | some users =>
    simp only at hFound
    split at hFound
    · rename_i hUser
      obtain ⟨made, _, hMade, hPure⟩ := bind_eq_done_iff.mp hFound
      obtain ⟨hPackets, rfl⟩ := deref_eq_done_iff.mp hMade
      cases hPure
      exact ⟨f, users, hFrom, hMembers, hUser, hPackets⟩
    · cases hFound

theorem route_router (n : Node) (item : RouterItem) : ∃ router, n.route item = { n with router := router } := by
  unfold Node.route
  split
  · exact ⟨_, rfl⟩
  · exact ⟨_, rfl⟩

/-- A login that is let through has only put a kill on the router so far. -/
theorem verify_done {frame : Bytes} {env : Env} {packet : Packet}
    (h : verify C x frame env n = .done (some packet) n') :
    (∃ router, n' = { n with router := router }) ∧ ∃ j, newJID packet.envelope.jid = .ok j := by
  unfold verify at h
  obtain ⟨found, u, hGet, hRest⟩ := bind_eq_done_iff.mp h
  match found with
  | none => cases hRest
  | some (packet', jid, ss) =>
    obtain ⟨rfl, hJid⟩ := verifyGet_done hGet
    have hAuth : ∀ m : Node, (do
        if ← verifyAuth C x packet' jid env then return some packet' else return none) m =
          .done (some packet) n' → packet' = packet ∧ n' = m := by
      intro m hm
      obtain ⟨ok, u, hOk, hPure⟩ := bind_eq_done_iff.mp hm
      cases ok with
      | false => cases hPure
      | true =>
        cases hPure
        unfold verifyAuth at hOk
        split at hOk
        · cases hOk
          exact ⟨rfl, rfl⟩
        · obtain ⟨_, _, _, hFalse⟩ := bind_eq_done_iff.mp hOk
          cases hFalse
    cases ss with
    | none =>
      obtain ⟨rfl, rfl⟩ := hAuth _ hRest
      exact ⟨⟨_, rfl⟩, jid, hJid⟩
    | some ss =>
      obtain ⟨_, m, hKill, hRest⟩ := bind_eq_done_iff.mp hRest
      obtain ⟨rfl, rfl⟩ := hAuth _ hRest
      cases hKill
      exact ⟨route_router u _, jid, hJid⟩

theorem storeSessionStatus_ok {j : JID} (hs : n.sessions x = some s)
    (hj : newJID s.status.jid = .ok j) : storeSessionStatus C x n = .done ()
      (n.send (putExWithIdx s.status.nodeid j.toSessionid (C.marshalStatus s.status) (-1))) := by
  unfold storeSessionStatus statusWrites
  rw [bind_assoc, bind_done (Node.session_eq hs), hj]
  rfl

/-- The rest of a login: the status, the cached reply, the entry and the answer. -/
theorem openSession_of_verify {frame : Bytes} {env : Env} {packet : Packet} {j : JID}
    (h : verify C x frame env n = .done (some packet) n') (hs : n'.sessions x = some s)
    (hj : newJID packet.envelope.jid = .ok j) :
    let st := { s.status with jid := packet.envelope.jid, status := .login, ct := env.timestamp10 }
    let reply := (newPacketAuthSuccess packet.envelope.id).addDelay (offlinePackets C n' j)
    openSession C x frame env n = .done () { n' with
      sessions := Function.update n'.sessions x
        (some { s with status := st, written := s.written ++ [.answer reply] })
      oflCache := cacheReply n'.oflCache packet.envelope.id (offlineIds C n' j)
      db := n'.db.send (putExWithIdx st.nodeid j.toSessionid (C.marshalStatus st) (-1)) } := by
  intro st reply
  let n₁ : Node := { n' with sessions := Function.update n'.sessions x (some { s with status := st }) }
  have hLogon : logon x packet env n' = .done () n₁ :=
    congrArg (Outcome.done ()) (Node.updateSession_eq hs _)
  have hs₁ : n₁.sessions x = some { s with status := st } := Function.update_self ..
  have hReply : loginReply C x packet n₁ = .done reply
      { n₁ with oflCache := cacheReply n'.oflCache packet.envelope.id (offlineIds C n' j) } :=
    loginReply_eq hs₁ hj packet
  let n₂ : Node := { n₁ with oflCache := cacheReply n'.oflCache packet.envelope.id (offlineIds C n' j) }
  let ds := putExWithIdx st.nodeid j.toSessionid (C.marshalStatus st) (-1)
  have hs₂ : n₂.sessions x = some { s with status := st } := hs₁
  have hStore : storeSessionStatus C x n₂ = .done () (n₂.send ds) := storeSessionStatus_ok hs₂ hj
  have hs₃ : (n₂.send ds).sessions x = some { s with status := st } := hs₁
  have hAnswer : answer x reply (n₂.send ds) = .done () _ :=
    congrArg (Outcome.done ()) (Node.updateSession_eq hs₃ _)
  unfold openSession
  rw [bind_done h]
  simp only
  rw [bind_done hLogon, bind_done hReply, bind_done hStore, hAnswer]
  simp only [n₂, n₁, ds, Node.send, Function.update_idem]

end Results

end Sara
