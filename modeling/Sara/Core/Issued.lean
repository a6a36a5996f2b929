import Sara.Core.Lifecycle

/-! # What a frame hands to the database

The calls of the database that the handling of one frame makes, each with its commands,
read off the frame and the state in which it is handled. What the handler leaves in the
database is what these calls leave, one after the other.
-/

namespace Sara

open Lib Lib.Prog Saradb

set_option autoImplicit false

/-- A direct command that fails ends its own call only. -/
def sendAll (db : Database) (calls : List (List Dispatch)) : Database := calls.foldl Database.send db

theorem sendAll_append (db : Database) (calls calls' : List (List Dispatch)) :
    sendAll db (calls ++ calls') = sendAll (sendAll db calls) calls' := List.foldl_append

/-! ## Calls -/

section Calls

variable (C : Codec)

def storeCalls (p : Packet) : List (List Dispatch) :=
  match newJID p.envelope.to_ with
  | .ok to_jid => [offlineWrites C to_jid p]
  | .error _ => []

def entryCalls (st : SessionStatus) : List (List Dispatch) :=
  match st.status, newJID st.jid with
  | .login, .ok j => [deleteByIdxKey st.nodeid j.toSessionid]
  | _, _ => []

def closeCalls (s : Session) (env : Env) : List (List Dispatch) :=
  if s.status.status = .close then []
  else entryCalls s.status ++ (env.visit (s.pkgBuff.toList.map Prod.snd)).flatMap (storeCalls C)

/-- The login that a first frame is, if it is let through. -/
def accepted (i : Input) : Option (Packet × JID) :=
  match newPacket C i.frame with
  | .error _ => none
  | .ok packet =>
    if packet.envelope.type ≠ msgTypeOpenSession then none
    else
      match newJID packet.envelope.jid with
      | .error _ => none
      | .ok jid => if i.env.auth jid.user packet.envelope.pwd then some (packet, jid) else none

def openCalls (s : Session) (i : Input) : List (List Dispatch) :=
  match accepted C i with
  | none => closeCalls C s i.env
  | some (packet, jid) =>
    let st := { s.status with jid := packet.envelope.jid, status := .login, ct := i.env.timestamp10 }
    [putExWithIdx st.nodeid jid.toSessionid (C.marshalStatus st) (-1)]

/-- What a session of the user `j` finds a packet to be; nothing if it panics. -/
def decisionFor (store : Saradb.Store) (p : Packet) (j : JID) : Option Decision :=
  match newJID p.envelope.to_ with
  | .error _ => none
  | .ok r =>
    if j.stringWithoutResource = r.stringWithoutResource then some .toMe
    else
      match newJID p.envelope.from_ with
      | .error _ => none
      | .ok f => some (if j.stringWithoutResource = f.stringWithoutResource then
          ((Redis.get store r.toSessionid).map C.unmarshalStatus).elim .store .route
        else .ignore)

def decision (st : SessionStatus) (store : Saradb.Store) (p : Packet) : Option Decision :=
  if st.status ≠ .login then some .ignore else (newJID st.jid).toOption.bind (decisionFor C store p)

def routeCalls (st : SessionStatus) (store : Saradb.Store) (p : Packet) : List (List Dispatch) :=
  match decision C st store p with
  | some .store => storeCalls C p
  | _ => []

def cacheCalls (n : Node) (env : Env) (gid domain : Bytes) : List (List Dispatch) :=
  match n.get (groupUsersKey gid domain), env.groupUsers gid with
  | none, .ok ulist =>
    if 1 < ulist.length then [putEx (groupUsersKey gid domain) (List.intercalate [comma] ulist) 3600]
    else []
  | _, _ => []

def groupCalls (st : SessionStatus) (n : Node) (p : Packet) (env : Env) : List (List Dispatch) :=
  match newJID p.envelope.from_ with
  | .error _ => []
  | .ok f =>
    cacheCalls n env p.envelope.gid f.domain ++
      match generateGroupPackets p env n with
      | .done (.ok packets) _ => packets.flatMap (routeCalls C st n.db.store)
      | _ => []

def ackCalls (st : SessionStatus) (n : Node) (p : Packet) : List (List Dispatch) :=
  match newJID st.jid, n.oflCache p.envelope.id with
  | .ok j, some ids => ids.map (deleteByIdxKey j.toOfflineKey)
  | _, _ => []

def requestCalls (s : Session) (n : Node) (env : Env) : Request → List (List Dispatch)
  | .ack p => ackCalls s.status n p
  | .group p => groupCalls C s.status n p env
  | .chat p => routeCalls C s.status n.db.store p
  | .bad _ => closeCalls C s env

def frameCalls (x : Bytes) (i : Input) (n : Node) : List (List Dispatch) :=
  match n.sessions x with
  | none => []
  | some s =>
    if s.status.status = .conn then openCalls C s i
    else if i.frame = [heartBeat] then []
    else requestCalls C s n i.env (request C i)

end Calls

section Left

variable {C : Codec} {x : Bytes} {n n' : Node} {s : Session} {p : Packet} {env : Env}

theorem answer_eq (hs : n.sessions x = some s) (p : Packet) : answer x p n = .done () { n with
    sessions := Function.update n.sessions x (some { s with written := s.written ++ [.answer p] }) } :=
  congrArg (Outcome.done ()) (Node.updateSession_eq hs _)

/-! ## Closing -/

theorem storeIn_eq (db : Database) (order : List Packet) :
    storeIn C db order = sendAll db (order.flatMap (storeCalls C)) := by
  induction order generalizing db with
  | nil => rfl
  | cons p order ih =>
    have hCons : storeIn C db (p :: order) = storeIn C (sendAll db (storeCalls C p)) order := by
      unfold storeIn storeCalls
      rw [List.foldl_cons]
      cases newJID p.envelope.to_ with
      | ok r => rfl
      | error e => rfl
    rw [hCons, ih, List.flatMap_cons, sendAll_append]

theorem dropEntry_eq (db : Database) (st : SessionStatus) :
    dropEntry db st = sendAll db (entryCalls st) := by
  unfold dropEntry entryCalls
  cases st.status with
  | conn | close => rfl
  | login =>
    cases newJID st.jid with
    | ok j => rfl
    | error e => rfl

/-- What an answer and a close leave of the session. -/
structure Closing (C : Codec) (x : Bytes) (s : Session) (env : Env) (n n' : Node) : Prop where
  session : ∃ s', n'.sessions x = some s' ∧ s'.status.status = .close ∧ s'.status.jid = s.status.jid ∧
    s'.pkgBuff = s.pkgBuff ∧ s'.connClosed = true ∧ s.written.length < s'.written.length
  db : n'.db = sendAll n.db (closeCalls C s env)
  oflCache : n'.oflCache = n.oflCache

/-- An answer to a session, and its end. -/
theorem answer_close (hs : n.sessions x = some s) (hSound : s.Sound) (hOpen : s.status.status ≠ .close)
    (p : Packet) (env : Env) :
    Ends (do answer x p; closeSession C x env) (fun _ => Closing C x s env n) n := by
  let t : Session := { s with written := s.written ++ [.answer p] }
  let m : Node := { n with sessions := Function.update n.sessions x (some t) }
  have ht : m.sessions x = some t := Function.update_self ..
  have hSame : t.Sound := ⟨hSound.user, hSound.buffer, hSound.connClosed⟩
  refine ⟨(), _, (bind_done (answer_eq hs p) _).trans (closeSession_eq ht hSame hOpen env), ?_, ?_, rfl⟩
  · exact ⟨_, closed_self m x t, rfl, rfl, rfl, rfl, by simp [t]⟩
  · simp only [closeCalls, if_neg hOpen, sendAll_append, storeIn_eq, dropEntry_eq]
    rfl

/-! ## The first frame -/

theorem of_accepted {i : Input} {packet : Packet} {jid : JID} (h : accepted C i = some (packet, jid)) :
    newPacket C i.frame = .ok packet ∧ packet.envelope.type = msgTypeOpenSession ∧
      newJID packet.envelope.jid = .ok jid ∧ i.env.auth jid.user packet.envelope.pwd = true := by
  unfold accepted at h
  cases hPacket : newPacket C i.frame with
  | error e =>
    rw [hPacket] at h
    cases h
  | ok packet' =>
    simp only [hPacket] at h
    split at h
    · cases h
    rename_i hType
    cases hJid : newJID packet'.envelope.jid with
    | error e =>
      rw [hJid] at h
      cases h
    | ok jid' =>
      simp only [hJid] at h
      split at h
      · rename_i hAuth
        cases h
        exact ⟨rfl, not_not.mp hType, hJid, hAuth⟩
      · cases h

/-- A login of a parsed user comes to the check of its credentials, at most with a kill in front. -/
theorem verify_looked {frame : Bytes} {packet : Packet} {jid : JID}
    (hPacket : newPacket C frame = .ok packet) (hType : packet.envelope.type = msgTypeOpenSession)
    (hJid : newJID packet.envelope.jid = .ok jid) (x : Bytes) (env : Env) (n : Node) :
    ∃ router, verify C x frame env n =
      (do if ← verifyAuth C x packet jid env then return some packet else return none)
        { n with router := router } := by
  unfold verify
  rw [bind_done (verifyGet_found C hPacket hType hJid x env n)]
  cases n.get jid.toSessionid with
  | none => exact ⟨n.router, rfl⟩
  | some ssb =>
    obtain ⟨router, hRoute⟩ := route_router n
      { channel := (C.unmarshalStatus ssb).channel
        sid := (C.unmarshalStatus ssb).sid
        packet := none
        signal := killSignal }
    have hKill : verifyKill (C.unmarshalStatus ssb) n = .done () { n with router := router } :=
      congrArg (Outcome.done ()) hRoute
    exact ⟨router, bind_done hKill _⟩

theorem verify_accepted {i : Input} {packet : Packet} {jid : JID}
    (h : accepted C i = some (packet, jid)) (x : Bytes) (n : Node) :
    ∃ router, verify C x i.frame i.env n = .done (some packet) { n with router := router } := by
  obtain ⟨hPacket, hType, hJid, hAuth⟩ := of_accepted h
  obtain ⟨router, hVerify⟩ := verify_looked hPacket hType hJid x i.env n
  refine ⟨router, hVerify.trans ?_⟩
  unfold verifyAuth
  rw [if_pos hAuth]
  rfl

/-- Every refusal ends in the same two lines, at most with a kill in front of them. -/
theorem verify_refused {i : Input} (h : accepted C i = none) (x : Bytes) (n : Node) :
    ∃ id reason router, verify C x i.frame i.env n =
      (do refuse C x id reason i.env; return none : Prog Node (Option Packet))
        { n with router := router } := by
  have hEarly : ∀ id reason, verifyGet C x i.frame i.env = (do refuse C x id reason i.env; return none) →
      verify C x i.frame i.env n =
        (do refuse C x id reason i.env; return none : Prog Node (Option Packet)) n := by
    intro id reason hGet
    unfold verify
    rw [hGet, bind_assoc]
    rfl
  unfold accepted at h
  cases hPacket : newPacket C i.frame with
  | error e =>
    exact ⟨_, _, n.router, hEarly (i.env.uuid 0) failPacket (by unfold verifyGet; rw [hPacket])⟩
  | ok packet =>
    simp only [hPacket] at h
    split at h
    · rename_i hType
      refine ⟨_, _, n.router, hEarly packet.envelope.id failType ?_⟩
      unfold verifyGet
      simp only [hPacket, if_pos hType]
    rename_i hType
    cases hJid : newJID packet.envelope.jid with
    | error e =>
      refine ⟨_, _, n.router, hEarly packet.envelope.id failPacket ?_⟩
      unfold verifyGet
      simp only [hPacket, if_neg hType, hJid]
    | ok jid =>
      simp only [hJid] at h
      split at h
      · cases h
      rename_i hAuth
      obtain ⟨router, hVerify⟩ := verify_looked hPacket (not_not.mp hType) hJid x i.env n
      refine ⟨packet.envelope.id, failToken, router, hVerify.trans ?_⟩
      unfold verifyAuth
      rw [if_neg hAuth, bind_assoc]
      rfl

theorem handleFrame_conn (hs : n.sessions x = some s) (hConn : s.status.status = .conn) (i : Input) :
    handleFrame C x i n = openSession C x i.frame i.env n := by
  unfold handleFrame
  rw [bind_done (Node.session_eq hs), if_pos hConn]

/-- A first frame that is no login closes the session. -/
theorem handleFrame_closing (hs : n.sessions x = some s) (hSound : s.Sound)
    (hConn : s.status.status = .conn) {i : Input} (h : accepted C i = none) :
    Ends (handleFrame C x i) (fun _ => Closing C x s i.env n) n := by
  obtain ⟨id, reason, router, hVerify⟩ := verify_refused h x n
  have hOpen : s.status.status ≠ .close := by
    rw [hConn]
    decide
  obtain ⟨_, m, hRefuse, hClosing⟩ := answer_close (C := C) (n := { n with router := router }) hs hSound
    hOpen (newPacketAuthFail id reason) i.env
  refine ⟨(), m, ?_, hClosing.session, hClosing.db, hClosing.oflCache⟩
  have hNone : verify C x i.frame i.env n = .done none m := by
    rw [hVerify]
    exact bind_done hRefuse _
  rw [handleFrame_conn hs hConn, openSession, bind_done hNone]
  rfl

/-- The session after a login. -/
def Session.logged (s : Session) (packet reply : Packet) (env : Env) : Session where
  __ := s
  status := { s.status with jid := packet.envelope.jid, status := .login, ct := env.timestamp10 }
  written := s.written ++ [.answer reply]

theorem handleFrame_accepted (hs : n.sessions x = some s) (hConn : s.status.status = .conn) {i : Input}
    {packet : Packet} {jid : JID} (h : accepted C i = some (packet, jid)) :
    Ends (handleFrame C x i) (fun _ n' => newJID packet.envelope.jid = .ok jid ∧
      (∃ reply, n'.sessions x = some (s.logged packet reply i.env)) ∧
      n'.db = sendAll n.db (openCalls C s i)) n := by
  obtain ⟨_, _, hJid, _⟩ := of_accepted h
  obtain ⟨router, hVerify⟩ := verify_accepted h x n
  refine ⟨(), _, (handleFrame_conn hs hConn i).trans (openSession_of_verify hVerify hs hJid), hJid,
    ⟨_, Function.update_self ..⟩, ?_⟩
  rw [openCalls, h]
  rfl

/-! ## Routing -/

theorem routeDecide_eq (hs : n.sessions x = some s) (p : Packet) : routeDecide C x p n =
    (decision C s.status n.db.store p).elim (.panic n) (.done · n) := by
  unfold decision
  by_cases hLogin : s.status.status = .login
  · rw [if_neg (not_not.mpr hLogin)]
    cases hj : newJID s.status.jid with
    | error e =>
      unfold routeDecide
      rw [bind_done (Node.session_eq hs), if_neg (not_not.mpr hLogin), hj]
      rfl
    | ok j =>
      have hFor : (Except.ok j : Except Bytes JID).toOption.bind (decisionFor C n.db.store p) =
        decisionFor C n.db.store p j := rfl
      rw [hFor, decisionFor]
      cases hr : newJID p.envelope.to_ with
      | error e =>
        unfold routeDecide equalWithoutResource
        rw [bind_done (Node.session_eq hs), if_neg (not_not.mpr hLogin), hj, hr]
        rfl
      | ok r =>
        simp only
        by_cases hSame : j.stringWithoutResource = r.stringWithoutResource
        · rw [routeDecide_toMe hs hLogin hj hr hSame, if_pos hSame]
          rfl
        rw [if_neg hSame]
        cases hf : newJID p.envelope.from_ with
        | error e =>
          unfold routeDecide
          rw [bind_done (Node.session_eq hs), if_neg (not_not.mpr hLogin), hj, bind_done (deref_ok j n),
            bind_done (equalWithoutResource_ok hr j n), decide_eq_false hSame, if_neg Bool.false_ne_true]
          unfold equalWithoutResource
          rw [hf]
          rfl
        | ok f =>
          rw [routeDecide_other hs hLogin hj hr hf hSame]
          rfl
  · rw [if_pos hLogin]
    unfold routeDecide
    rw [bind_done (Node.session_eq hs), if_pos hLogin]
    rfl

theorem routePacket_panic (hs : n.sessions x = some s) (h : decision C s.status n.db.store p = none) :
    routePacket C x p n = .panic n := by
  have hDecide := routeDecide_eq (C := C) hs p
  rw [h] at hDecide
  exact bind_panic hDecide _

theorem routePacket_done {d : Decision} (hs : n.sessions x = some s)
    (h : decision C s.status n.db.store p = some d) : routePacket C x p n = routeAct C x p d n := by
  have hDecide := routeDecide_eq (C := C) hs p
  rw [h] at hDecide
  exact bind_done hDecide _

theorem routeAct_db (x : Bytes) (p : Packet) (d : Decision) (n : Node) :
    (routeAct C x p d n).state.db = sendAll n.db (if d = .store then storeCalls C p else []) := by
  cases d with
  | ignore | toMe | notify => rfl
  | route ss =>
    obtain ⟨router, hRoute⟩ := route_router n
      { channel := ss.channel, sid := ss.sid, packet := some p, signal := 0 }
    simp only [routeAct, modify_apply, Outcome.state_done, hRoute]
    rfl
  | store =>
    simp only [routeAct, storePacket, storeCalls, if_true]
    cases newJID p.envelope.to_ with
    | ok r => rfl
    | error e => rfl

theorem routePacket_db (hs : n.sessions x = some s) (p : Packet) :
    (routePacket C x p n).state.db = sendAll n.db (routeCalls C s.status n.db.store p) := by
  unfold routeCalls
  cases hDecision : decision C s.status n.db.store p with
  | none =>
    rw [routePacket_panic hs hDecision]
    rfl
  | some d =>
    rw [routePacket_done hs hDecision, routeAct_db]
    cases d with
    | ignore | toMe | notify | route | store => rfl

/-- Commands that are queued do not show in the store. -/
theorem store_send {ds : List Dispatch} (h : ∀ d ∈ ds, ∃ ch c, d = .queued ch c) (db : Database) :
    (db.send ds).store = db.store := by
  induction ds generalizing db with
  | nil => rfl
  | cons d ds ih =>
    obtain ⟨ch, c, rfl⟩ := h d List.mem_cons_self
    exact ih (fun e he => h e (List.mem_cons_of_mem _ he)) (db.enqueue ch c)

theorem queued_offlineWrites {r : JID} (h : is4s p.envelope.id = false) :
    ∀ d ∈ offlineWrites C r p, ∃ ch c, d = Dispatch.queued ch c := by
  rw [offlineWrites, putExWithIdx, h]
  simp

theorem store_sendAll_routeCalls (h : is4s p.envelope.id = false) (st : SessionStatus)
    (store : Saradb.Store) (db : Database) : (sendAll db (routeCalls C st store p)).store = db.store := by
  unfold routeCalls
  split
  · unfold storeCalls
    split
    · exact store_send (queued_offlineWrites h) db
    · rfl
  · rfl

/-- What was decided is done to its end. -/
theorem routePacket_returns (hs : n.sessions x = some s)
    (h : (decision C s.status n.db.store p).isSome) : ∃ m, routePacket C x p n = .done () m := by
  obtain ⟨d, hDecision⟩ := Option.isSome_iff_exists.mp h
  have hDecide : routeDecide C x p n = .done d n := by
    rw [routeDecide_eq hs, hDecision]
    rfl
  obtain ⟨_, m, hAct⟩ := routeAct_returns hDecide n
  exact ⟨m, (routePacket_done hs hDecision).trans hAct⟩

/-- Packets with ids of the server's own are stored through the queue, so that what is found
for one does not depend on the ones before it. -/
theorem routeAll_db (hs : n.sessions x = some s) {packets : List Packet}
    (hIds : ∀ q ∈ packets, is4s q.envelope.id = false)
    (hDecided : ∀ q ∈ packets, (decision C s.status n.db.store q).isSome) :
    (packets.forM (routePacket C x) n).state.db =
      sendAll n.db (packets.flatMap (routeCalls C s.status n.db.store)) := by
  induction packets generalizing n s with
  | nil => rfl
  | cons q packets ih =>
    obtain ⟨m, hRoute⟩ := routePacket_returns hs (hDecided q List.mem_cons_self)
    have hDb := routePacket_db (C := C) hs q
    have hStays := stays_routePacket (C := C) (x := x) x q n
    rw [hRoute, Outcome.state_done] at hDb hStays
    unfold Stays at hStays
    rw [hs, Option.map_some] at hStays
    obtain ⟨s', hs', hStatus⟩ := Option.map_eq_some_iff.mp hStays
    have hStore : m.db.store = n.db.store := by
      rw [hDb, store_sendAll_routeCalls (hIds q List.mem_cons_self)]
    have hCons : (q :: packets).forM (routePacket C x) n = packets.forM (routePacket C x) m :=
      bind_done hRoute _
    rw [hCons, ih hs' (fun q hq => hIds q (List.mem_cons_of_mem _ hq)), List.flatMap_cons, sendAll_append,
      ← hDb, hStatus, hStore]
    · rw [hStatus, hStore]
      exact fun q hq => hDecided q (List.mem_cons_of_mem _ hq)

/-! ## Requests -/

theorem groupMembers_db (gid domain : Bytes) (env : Env) (n : Node) :
    ∃ members, groupMembers gid domain env n =
      .done members { n with db := sendAll n.db (cacheCalls n env gid domain) } := by
  unfold groupMembers cacheCalls
  rw [bind_done (read_apply _ n)]
  cases n.get (groupUsersKey gid domain) with
  | some users => exact ⟨some users, rfl⟩
  | none =>
    cases env.groupUsers gid with
    | error e => exact ⟨none, rfl⟩
    | ok ulist =>
      simp only
      split
      · exact ⟨_, rfl⟩
      · exact ⟨none, rfl⟩

theorem store_sendAll_cacheCalls (n : Node) (env : Env) (gid domain : Bytes) :
    (sendAll n.db (cacheCalls n env gid domain)).store = n.db.store := by
  unfold cacheCalls
  split
  · split
    · refine store_send ?_ n.db
      rw [putEx, is4s_groupUsersKey]
      simp
    · rfl
  · rfl

theorem generateGroupPackets_db {f : JID} (hf : newJID p.envelope.from_ = .ok f) (env : Env) (n : Node) :
    ∃ r, generateGroupPackets p env n =
      .done r { n with db := sendAll n.db (cacheCalls n env p.envelope.gid f.domain) } := by
  obtain ⟨members, hMembers⟩ := groupMembers_db p.envelope.gid f.domain env n
  unfold generateGroupPackets
  rw [hf, bind_done (deref_ok f n), bind_done hMembers]
  cases members with
  | none => exact ⟨_, rfl⟩
  | some users =>
    simp only
    split
    · rw [genGroupPackets_eq]
      exact ⟨_, rfl⟩
    · exact ⟨_, rfl⟩

/-- The copies of a group message have ids of the server's own. -/
theorem is4s_generated {packets : List Packet} (h : generateGroupPackets p env n = .done (.ok packets) n') :
    ∀ q ∈ packets, is4s q.envelope.id = false := by
  obtain ⟨f, users, _, _, _, hPackets⟩ := generateGroupPackets_ok h
  rw [genGroupPackets_eq] at hPackets
  cases hPackets
  intro q hq
  obtain ⟨⟨toUser, k⟩, _, rfl⟩ := List.mem_map.mp hq
  exact is4s_of_isUuid (env.uuid_isUuid k)

theorem decision_generated {st : SessionStatus} (hUser : st.status = .login → ∃ j, newJID st.jid = .ok j)
    {f : JID} (hf : newJID p.envelope.from_ = .ok f) {packets : List Packet}
    (h : generateGroupPackets p env n = .done (.ok packets) n') (store : Saradb.Store) :
    ∀ q ∈ packets, (decision C st store q).isSome := by
  intro q hq
  obtain ⟨hFrom, r, hr⟩ := generated_addressed h hq
  unfold decision
  split
  · rfl
  · rename_i hLogin
    obtain ⟨j, hj⟩ := hUser (not_not.mp hLogin)
    rw [hj]
    change (decisionFor C store q j).isSome
    unfold decisionFor
    rw [hr, hFrom, hf]
    simp only
    split
    · rfl
    · rfl

theorem group_db (hs : n.sessions x = some s) (hSound : s.Sound) (p : Packet) (env : Env) :
    (handleRequest C x env (.group p) n).state.db = sendAll n.db (groupCalls C s.status n p env) := by
  unfold groupCalls
  cases hf : newJID p.envelope.from_ with
  | error e =>
    simp only [handleRequest, generateGroupPackets, hf]
    rfl
  | ok f =>
    obtain ⟨r, hGenerate⟩ := generateGroupPackets_db hf env n
    simp only [handleRequest]
    rw [bind_done hGenerate, hGenerate]
    cases r with
    | error gerr =>
      simp only [List.append_nil]
      rfl
    | ok packets =>
      have hAnswer := answer_eq (n := { n with db := sendAll n.db (cacheCalls n env p.envelope.gid f.domain) })
        hs (newPacketAck p.envelope.id env.timestamp13)
      let t : Session := { s with
        written := s.written ++ [.answer (newPacketAck p.envelope.id env.timestamp13)] }
      have hStore := store_sendAll_cacheCalls n env p.envelope.gid f.domain
      simp only
      rw [bind_done hAnswer, routeAll_db (s := t) (Function.update_self ..) (is4s_generated hGenerate)
        (decision_generated hSound.user hf hGenerate _), sendAll_append, hStore]

theorem send_append {ds : List Dispatch} (h : ∀ d ∈ ds, ∃ ch c, d = .queued ch c) (es : List Dispatch)
    (db : Database) : db.send (ds ++ es) = (db.send ds).send es := by
  induction ds generalizing db with
  | nil => rfl
  | cons d ds ih =>
    obtain ⟨ch, c, rfl⟩ := h d List.mem_cons_self
    exact ih (fun e he => h e (List.mem_cons_of_mem _ he)) (db.enqueue ch c)

theorem send_deletes (db : Database) (idx : Bytes) (ids : List Bytes) :
    db.send (ids.flatMap fun id => deleteByIdxKey idx id) = sendAll db (ids.map (deleteByIdxKey idx)) := by
  induction ids generalizing db with
  | nil => rfl
  | cons id ids ih =>
    rw [List.flatMap_cons, send_append (by simp [deleteByIdxKey, delete]), ih]
    rfl

theorem ack_db (hs : n.sessions x = some s) (p : Packet) :
    (serverAck x p n).state.db = sendAll n.db (ackCalls s.status n p) := by
  unfold serverAck ackCalls
  rw [bind_done (Node.session_eq hs)]
  cases newJID s.status.jid with
  | error e => rfl
  | ok j =>
    rw [bind_done (deref_ok j n), bind_done (read_apply _ n)]
    cases n.oflCache p.envelope.id with
    | some ids => exact send_deletes n.db j.toOfflineKey ids
    | none => rfl

/-- The frame after the first one. -/
theorem handleFrame_later (hs : n.sessions x = some s) (hConn : s.status.status ≠ .conn) (i : Input) :
    handleFrame C x i n =
      (if i.frame = [heartBeat] then heartbeat x else handleRequest C x i.env (request C i)) n := by
  unfold handleFrame
  rw [bind_done (Node.session_eq hs), if_neg hConn]

theorem heartbeat_eq (hs : n.sessions x = some s) : heartbeat x n = .done ()
    (if s.status.status = .login then
      n.updateSession x fun s => { s with written := s.written ++ [.signal heartBeat] }
    else n) := by
  unfold heartbeat
  rw [bind_done (Node.session_eq hs)]
  split
  · rfl
  · rfl

theorem chat_db (hs : n.sessions x = some s) (p : Packet) (env : Env) :
    (handleRequest C x env (.chat p) n).state.db = sendAll n.db (routeCalls C s.status n.db.store p) := by
  simp only [handleRequest]
  split
  · rw [bind_done (answer_eq hs _), routePacket_db (Function.update_self ..)]
  · exact routePacket_db hs p

theorem bad_db (hs : n.sessions x = some s) (hSound : s.Sound) (err : Bytes) (env : Env) :
    (handleRequest C x env (.bad err) n).state.db = sendAll n.db (closeCalls C s env) := by
  simp only [handleRequest]
  by_cases hClose : s.status.status = .close
  · let t : Session := { s with written := s.written ++ [.answer (newPacketSysNotify (env.uuid 0) err)] }
    rw [bind_done (answer_eq hs _), closeSession_of_close C (s := t) (Function.update_self ..) hClose,
      closeCalls, if_pos hClose]
    rfl
  · obtain ⟨_, m, hDone, hClosing⟩ := answer_close (C := C) hs hSound hClose
      (newPacketSysNotify (env.uuid 0) err) env
    rw [hDone]
    exact hClosing.db

/-- What a frame leaves in the database is what its calls leave there. -/
theorem handleFrame_db (hs : n.sessions x = some s) (hSound : s.Sound) (i : Input) :
    (handleFrame C x i n).state.db = sendAll n.db (frameCalls C x i n) := by
  unfold frameCalls
  rw [hs]
  simp only
  by_cases hConn : s.status.status = .conn
  · rw [if_pos hConn]
    cases hAccepted : accepted C i with
    | none =>
      obtain ⟨_, m, hDone, hClosing⟩ := handleFrame_closing hs hSound hConn hAccepted
      rw [hDone, openCalls, hAccepted]
      exact hClosing.db
    | some login =>
      obtain ⟨packet, jid⟩ := login
      obtain ⟨_, m, hDone, _, _, hDb⟩ := handleFrame_accepted hs hConn hAccepted
      rw [hDone]
      exact hDb
  · rw [if_neg hConn, handleFrame_later hs hConn]
    split
    · rw [heartbeat_eq hs]
      split
      · rfl
      · rfl
    · cases request C i with
      | ack p => exact ack_db hs p
      | group p => exact group_db hs hSound p i.env
      | chat p => exact chat_db hs p i.env
      | bad err => exact bad_db hs hSound err i.env

end Left

end Sara
