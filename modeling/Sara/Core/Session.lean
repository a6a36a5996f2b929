import Sara.Types.Packet
import Sara.Saradb.Database
import Sara.Lib.Prog
import Mathlib.Data.List.Infix

/-! # Sessions

The functions of a session, as programs over the node that holds it. Functions
whose parts other goroutines can run between are cut at those places into named
parts, so that the same parts make up both a call that runs alone and the
interleaved system of `Sara.Node.System`. A call on the result of a failed
`newJID` is a nil dereference, which panics.
-/

namespace Sara

open Lib Lib.Prog Saradb

set_option autoImplicit false

/-- What the outside answers while one frame is handled. Go visits a map in an
order of its own; `visit` is that order for the packets of a buffer. -/
structure Env where
  auth : Bytes → Bytes → Bool
  groupUsers : Bytes → Except Bytes (List Bytes)
  publish : Bytes → Bool
  uuid : Nat → Bytes
  uuid_isUuid : ∀ i, isUuid (uuid i)
  timestamp13 : Bytes
  timestamp10 : Int
  visit : List Packet → List Packet
  visit_perm : ∀ l, (visit l).Perm l

/-- An outside with one verdict on all credentials, no groups and no other node. -/
def Env.plain (auth : Bool) : Env where
  auth _ _ := auth
  groupUsers _ := .error (text "group_notfound")
  publish _ := false
  uuid i := List.replicate (i + 1) 97
  uuid_isUuid i := by simp [isUuid]
  timestamp13 := text "1473755000000"
  timestamp10 := 1473755000
  visit := id
  visit_perm := List.Perm.refl

/-- The data of one `SendMessage`, by the place it is called from. -/
inductive Written where
  | answer (p : Packet)
  | relay (p : Packet)
  | signal (b : UInt8)
deriving DecidableEq

def Written.isRelay : Written → Bool
  | .relay _ => true
  | .answer _ | .signal _ => false

def Written.bytes (C : Codec) : Written → Bytes
  | .answer p | .relay p => p.toJson C ++ [endFlag]
  | .signal b => [b, endFlag]

abbrev PkgBuff := Std.ExtTreeMap Bytes Packet compare

structure Session where
  status : SessionStatus
  pkgBuff : PkgBuff
  written : List Written
  connClosed : Bool

def newSession (channel sid nodeid : Bytes) : Session where
  status := { sid := sid, jid := [], status := .conn, nodeid := nodeid, channel := channel, ct := 0 }
  pkgBuff := ∅
  written := []
  connClosed := false

structure RouterItem where
  channel : Bytes
  sid : Bytes
  packet : Option Packet
  signal : UInt8
deriving DecidableEq

/-- `sessions` holds every session object made so far, `sessionMap` the ids the
node can find. `published` is what the data channel took for other nodes. -/
structure Node where
  nodeid : Bytes
  channel : Bytes
  sessions : Bytes → Option Session
  sessionMap : Bytes → Bool
  cleanSession : List Bytes
  db : Database
  router : List RouterItem
  oflCache : Bytes → Option (List Bytes)
  published : List (Bytes × Packet)

namespace Node

def session (x : Bytes) : Prog Node Session := fun n =>
  match n.sessions x with
  | some s => .done s n
  | none => .panic n

def updateSession (n : Node) (x : Bytes) (f : Session → Session) : Node :=
  { n with sessions := Function.update n.sessions x ((n.sessions x).map f) }

@[simp] theorem updateSession_self (n : Node) (x : Bytes) (f : Session → Session) :
    (n.updateSession x f).sessions x = (n.sessions x).map f := Function.update_self ..

theorem updateSession_of_ne (n : Node) {x y : Bytes} (h : y ≠ x) (f : Session → Session) :
    (n.updateSession x f).sessions y = n.sessions y := Function.update_of_ne h ..

theorem updateSession_eq {n : Node} {x : Bytes} {s : Session} (h : n.sessions x = some s)
    (f : Session → Session) :
    n.updateSession x f = { n with sessions := Function.update n.sessions x (some (f s)) } := by
  rw [updateSession, h, Option.map_some]

/-- A change of a session that keeps some part of it keeps that part of every session. -/
theorem map_updateSession {α : Type} (n : Node) (x : Bytes) {f : Session → Session} {g : Session → α}
    (hf : ∀ s, g (f s) = g s) (y : Bytes) :
    ((n.updateSession x f).sessions y).map g = (n.sessions y).map g := by
  rcases eq_or_ne y x with rfl | hne
  · rw [updateSession_self]
    cases n.sessions y with
    | none => rfl
    | some s => exact congrArg some (hf s)
  · rw [updateSession_of_ne n hne]

theorem session_eq {n : Node} {x : Bytes} {s : Session} (h : n.sessions x = some s) :
    session x n = .done s n := by
  unfold session
  rw [h]

theorem session_eq_panic {n : Node} {x : Bytes} (h : n.sessions x = none) :
    session x n = .panic n := by
  unfold session
  rw [h]

theorem session_eq_done_iff {n n' : Node} {x : Bytes} {s : Session} :
    session x n = .done s n' ↔ n.sessions x = some s ∧ n' = n := by
  unfold session
  cases n.sessions x with
  | none => simp
  | some s' => simp [eq_comm]

def send (n : Node) (ds : List Dispatch) : Node := { n with db := n.db.send ds }

def get (n : Node) (key : Bytes) : Option Bytes := Redis.get n.db.store key

/-- A full queue answers with an error, which no caller looks at. -/
def route (n : Node) (item : RouterItem) : Node :=
  if n.router.length < routerQueueSize then { n with router := n.router ++ [item] } else n

end Node

def sendMessage (x : Bytes) (data : Written) : Prog Node Unit :=
  modify fun n => n.updateSession x fun s => { s with written := s.written ++ [data] }

def answer (x : Bytes) (p : Packet) : Prog Node Unit := sendMessage x (.answer p)

variable (C : Codec)

def offlineWrites (to_jid : JID) (p : Packet) : List Dispatch :=
  putExWithIdx to_jid.toOfflineKey p.envelope.id (p.toJson C) offlineExpired

def storePacket (p : Packet) : Prog Node Unit := do
  let to_jid ← deref (newJID p.envelope.to_)
  modify fun n => n.send (offlineWrites C to_jid p)

def pkgBuffToStore (env : Env) (pkgBuff : PkgBuff) : Prog Node Unit :=
  (env.visit (pkgBuff.toList.map Prod.snd)).forM (storePacket C)

def closeSession (x : Bytes) (env : Env) : Prog Node Unit := do
  let s ← Node.session x
  if s.status.status = .close then return ()
  modify fun n => { n with cleanSession := n.cleanSession ++ [s.status.sid] }
  if s.status.status = .login then
    let j ← deref (newJID s.status.jid)
    modify fun n => n.send (deleteByIdxKey s.status.nodeid j.toSessionid)
  modify fun n => n.updateSession x fun s =>
    { s with status := { s.status with status := .close }, connClosed := true }
  pkgBuffToStore C env s.pkgBuff

theorem is4s_toSessionid (j : JID) : is4s j.toSessionid = true :=
  List.isPrefixOf_iff_prefix.mpr (List.prefix_append ..)

theorem is4s_of_isUuid {id : Bytes} (h : isUuid id) : is4s id = false := by
  cases hSession : is4s id with
  | false => rfl
  | true =>
    obtain ⟨rest, rfl⟩ := List.isPrefixOf_iff_prefix.mp hSession
    have hDigits : isUuid sessionPerfix = true := by
      simp only [isUuid, List.all_append, Bool.and_eq_true] at h ⊢
      exact ⟨by decide, h.2.1⟩
    exact absurd hDigits (by decide)

theorem putExWithIdx_toSessionid (idx value : Bytes) (j : JID) :
    putExWithIdx idx j.toSessionid value (-1) =
      [.direct (.hset (indexKey idx) j.toSessionid value), .direct (.set j.toSessionid value)] := by
  simp [putExWithIdx, is4s_toSessionid, storeKey]

theorem deleteByIdxKey_toSessionid (idx : Bytes) (j : JID) :
    deleteByIdxKey idx j.toSessionid =
      [.queued .session (.hdel (indexKey idx) j.toSessionid),
        .queued .session (.del j.toSessionid)] := by
  simp [deleteByIdxKey, delete, chanOf, is4s_toSessionid]

def dropEntry (db : Database) (st : SessionStatus) : Database :=
  match st.status, newJID st.jid with
  | .login, .ok j => db.send (deleteByIdxKey st.nodeid j.toSessionid)
  | _, _ => db

theorem dropEntry_of_ne {db : Database} {st : SessionStatus} (h : st.status ≠ .login) :
    dropEntry db st = db := by
  unfold dropEntry
  split
  · rename_i hStatus _
    exact absurd hStatus h
  · rfl

@[simp] theorem dropEntry_store (db : Database) (st : SessionStatus) :
    (dropEntry db st).store = db.store := by
  unfold dropEntry
  split
  · rw [deleteByIdxKey_toSessionid]
    rfl
  · rfl

theorem mem_pending_dropEntry {db : Database} {st : SessionStatus} {c : Cmd}
    (h : c ∈ (dropEntry db st).pending) : c ∈ db.pending ∨ ∃ j, newJID st.jid = .ok j ∧
      (c = .hdel (indexKey st.nodeid) j.toSessionid ∨ c = .del j.toSessionid) := by
  unfold dropEntry at h
  split at h
  · rename_i j _ hJid
    rw [deleteByIdxKey_toSessionid] at h
    have hMem := (Database.pending_enqueue _ _ _).mem_iff.mp h
    rcases List.mem_cons.mp hMem with hDel | hRest
    · exact .inr ⟨j, hJid, .inr hDel⟩
    have hMem' := (Database.pending_enqueue _ _ _).mem_iff.mp hRest
    rcases List.mem_cons.mp hMem' with hHdel | hOld
    · exact .inr ⟨j, hJid, .inl hHdel⟩
    · exact .inl hOld
  · exact .inl h

/-- The node once the session is marked closed, before its buffer is stored. -/
def Node.closed (n : Node) (x : Bytes) (s : Session) : Node where
  __ := n
  cleanSession := n.cleanSession ++ [s.status.sid]
  sessions := Function.update n.sessions x
    (some { s with status := { s.status with status := .close }, connClosed := true })
  db := dropEntry n.db s.status

theorem closeSession_of_close {n : Node} {x : Bytes} {s : Session} (hs : n.sessions x = some s)
    (hClose : s.status.status = .close) (env : Env) : closeSession C x env n = .done () n := by
  unfold closeSession
  rw [bind_done (Node.session_eq hs), hClose]
  rfl

/-- A session with a user is closed and then its buffer is stored. -/
theorem closeSession_of_open {n : Node} {x : Bytes} {s : Session} (hs : n.sessions x = some s)
    (hOpen : s.status.status ≠ .close)
    (hUser : s.status.status = .login → ∃ j, newJID s.status.jid = .ok j) (env : Env) :
    closeSession C x env n = pkgBuffToStore C env s.pkgBuff (n.closed x s) := by
  unfold closeSession
  rw [bind_done (Node.session_eq hs)]
  cases hStatus : s.status.status with
  | close => exact absurd hStatus hOpen
  | conn =>
    simp only [Node.closed, dropEntry, hStatus, reduceCtorEq, if_false]
    rw [bind_done (modify_apply _ n), bind_done (modify_apply _ _)]
    rw [Node.updateSession_eq (s := s) (by exact hs)]
  | login =>
    obtain ⟨j, hj⟩ := hUser hStatus
    simp only [Node.closed, dropEntry, hStatus, reduceCtorEq, if_false, if_true, hj]
    rw [bind_done (modify_apply _ n), bind_done (deref_ok j _), bind_done (modify_apply _ _),
      bind_done (modify_apply _ _)]
    rw [Node.updateSession_eq (s := s) (by exact hs)]
    rfl

theorem pkgBuffToStore_empty (env : Env) (n : Node) : pkgBuffToStore C env ∅ n = .done () n := by
  have hVisit : env.visit ((∅ : PkgBuff).toList.map Prod.snd) = [] := (env.visit_perm []).eq_nil
  rw [pkgBuffToStore, hVisit]
  rfl

def kill (x : Bytes) (env : Env) : Prog Node Unit := do
  sendMessage x (.signal killSignal)
  closeSession C x env

/-! ## Opening a session -/

/-- The two lines every refusal of `verify` ends with. -/
def refuse (x id reason : Bytes) (env : Env) : Prog Node Unit := do
  answer x (newPacketAuthFail id reason)
  closeSession C x env

/-- `verify` up to the look at the directory: the packet, its address and the
entry found. -/
def verifyGet (x frame : Bytes) (env : Env) :
    Prog Node (Option (Packet × JID × Option SessionStatus)) :=
  match newPacket C frame with
  | .error _ => do
    refuse C x (env.uuid 0) failPacket env
    return none
  | .ok packet =>
    if packet.envelope.type ≠ msgTypeOpenSession then do
      refuse C x packet.envelope.id failType env
      return none
    else
      match newJID packet.envelope.jid with
      | .error _ => do
        refuse C x packet.envelope.id failPacket env
        return none
      | .ok jid_obj => do
        let found ← read fun n => n.get jid_obj.toSessionid
        return some (packet, jid_obj, found.map C.unmarshalStatus)

theorem verifyGet_found {frame : Bytes} {packet : Packet} {jid : JID}
    (hPacket : newPacket C frame = .ok packet) (hType : packet.envelope.type = msgTypeOpenSession)
    (hJid : newJID packet.envelope.jid = .ok jid) (x : Bytes) (env : Env) (n : Node) :
    verifyGet C x frame env n =
      .done (some (packet, jid, (n.get jid.toSessionid).map C.unmarshalStatus)) n := by
  unfold verifyGet
  simp only [hPacket, hType, ne_eq, not_true_eq_false, if_false, hJid]
  rfl

def verifyKill (ss : SessionStatus) : Prog Node Unit :=
  modify fun n => n.route { channel := ss.channel, sid := ss.sid, packet := none, signal := killSignal }

def verifyAuth (x : Bytes) (packet : Packet) (jid_obj : JID) (env : Env) : Prog Node Bool :=
  if env.auth jid_obj.user packet.envelope.pwd then return true
  else do
    refuse C x packet.envelope.id failToken env
    return false

def verify (x frame : Bytes) (env : Env) : Prog Node (Option Packet) := do
  match ← verifyGet C x frame env with
  | none => return none
  | some (packet, jid_obj, found) =>
    if let some ss := found then verifyKill ss
    if ← verifyAuth C x packet jid_obj env then return some packet else return none

def logon (x : Bytes) (packet : Packet) (env : Env) : Prog Node Unit :=
  modify fun n => n.updateSession x fun s =>
    { s with status :=
      { s.status with jid := packet.envelope.jid, status := .login, ct := env.timestamp10 } }

def fetchOfflinePacket (x : Bytes) : Prog Node (Option (List BasePacket)) := do
  let s ← Node.session x
  let jid ← deref (newJID s.status.jid)
  read fun n => (getByIdx n.db.store jid.toOfflineKey).map fun ddata =>
    ddata.filterMap fun data => (newBasePacket C data).toOption

/-- The answer to the login, with the offline packets in it. -/
def loginReply (x : Bytes) (packet : Packet) : Prog Node Packet := do
  let id := packet.envelope.id
  match ← fetchOfflinePacket C x with
  | none => return (newPacketAuthSuccess id).addDelay []
  | some ofl_pks =>
    let ofl_ids := ofl_pks.map (·.envelope.id)
    if 0 < ofl_ids.length then
      modify fun n => { n with oflCache := Function.update n.oflCache id (some ofl_ids) }
    return (newPacketAuthSuccess id).addDelay ofl_pks

def statusWrites (x : Bytes) : Prog Node (List Dispatch) := do
  let s ← Node.session x
  let j ← deref (newJID s.status.jid)
  return putExWithIdx s.status.nodeid j.toSessionid (C.marshalStatus s.status) (-1)

def storeSessionStatus (x : Bytes) : Prog Node Unit := do
  let ds ← statusWrites C x
  modify fun n => n.send ds

def openSession (x frame : Bytes) (env : Env) : Prog Node Unit := do
  match ← verify C x frame env with
  | none => return ()
  | some packet =>
    logon x packet env
    let reply ← loginReply C x packet
    storeSessionStatus C x
    answer x reply

/-! ## Routing -/

def equalWithoutResource (jid : JID) (str : Bytes) : Prog Node Bool := do
  let jj ← deref (newJID str)
  return jid.stringWithoutResource = jj.stringWithoutResource

/-- What `RoutePacket` finds a packet to be: for the session's own user, sent by
that user, with the answer of the directory, or neither. -/
inductive Decision where
  | ignore
  | toMe
  | notify (msg : Bytes)
  | route (ss : SessionStatus)
  | store
deriving DecidableEq

def routeDecide (x : Bytes) (packet : Packet) : Prog Node Decision := do
  let s ← Node.session x
  if s.status.status ≠ .login then return .ignore
  let jid ← deref (newJID s.status.jid)
  if ← equalWithoutResource jid packet.envelope.to_ then return .toMe
  if ← equalWithoutResource jid packet.envelope.from_ then
    match newJID packet.envelope.to_ with
    | .error e => return .notify e
    | .ok to_jid =>
      match ← read fun n => n.get to_jid.toSessionid with
      | some ssb => return .route (C.unmarshalStatus ssb)
      | none => return .store
  else return .ignore

def pkgBuffAdd (x : Bytes) (packet : Packet) : Prog Node Unit :=
  modify fun n => n.updateSession x fun s =>
    { s with pkgBuff := s.pkgBuff.insert packet.envelope.id packet }

def pkgBuffDel (x id : Bytes) : Prog Node Unit :=
  modify fun n => n.updateSession x fun s => { s with pkgBuff := s.pkgBuff.erase id }

def routeAct (x : Bytes) (packet : Packet) : Decision → Prog Node Unit
  | .ignore => return ()
  | .toMe => do
    pkgBuffAdd x packet
    sendMessage x (.relay packet)
  | .notify e => answer x (newPacketSysNotify packet.envelope.id e)
  | .route ss =>
    modify fun n => n.route { channel := ss.channel, sid := ss.sid, packet := some packet, signal := 0 }
  | .store => storePacket C packet

def routePacket (x : Bytes) (packet : Packet) : Prog Node Unit := do
  let d ← routeDecide C x packet
  routeAct C x packet d

/-! ## Frames -/

def heartbeat (x : Bytes) : Prog Node Unit := do
  let s ← Node.session x
  if s.status.status = .login then sendMessage x (.signal heartBeat)

def serverAck (x : Bytes) (packet : Packet) : Prog Node Unit := do
  let s ← Node.session x
  let jid ← deref (newJID s.status.jid)
  match ← read fun n => n.oflCache packet.envelope.id with
  | some ids => modify fun n => n.send (ids.flatMap fun id => deleteByIdxKey jid.toOfflineKey id)
  | none => pkgBuffDel x packet.envelope.id

def groupPacket (packet : Packet) (domain toUser id ct : Bytes) : Except Bytes Packet := do
  let to_jid ← newJIDByUidDomain toUser domain
  return {
    envelope :=
      { id := id
        type := msgTypeGroupChat
        from_ := packet.envelope.from_
        to_ := to_jid.stringWithoutResource
        gid := packet.envelope.gid
        ct := ct }
    payload := packet.payload
    vsn := packet.vsn }

def genGroupPackets (users : Bytes) (packet : Packet) (fromJid : JID) (env : Env) :
    Except Bytes (List Packet) :=
  ((users.splitOn comma).filter (· ≠ fromJid.user)).zipIdx.mapM fun toUser =>
    groupPacket packet fromJid.domain toUser.1 (env.uuid toUser.2) env.timestamp13

theorem mapM_ok {α β ε : Type} {f : α → Except ε β} {g : α → β} (h : ∀ a, f a = .ok (g a))
    (l : List α) : l.mapM f = .ok (l.map g) := by
  induction l with
  | nil => rfl
  | cons a l ih =>
    rw [List.mapM_cons, h, ih]
    rfl

/-- The bare address of a member. -/
def memberAddress (domain toUser : Bytes) : Bytes :=
  ((newJIDByUidDomain toUser domain).toOption.map JID.stringWithoutResource).getD []

/-- A member's address holds the separator, so it is always one. -/
theorem genGroupPackets_eq (users : Bytes) (packet : Packet) (fromJid : JID) (env : Env) :
    genGroupPackets users packet fromJid env =
      .ok (((users.splitOn comma).filter (· ≠ fromJid.user)).zipIdx.map fun toUser =>
        { envelope :=
            { id := env.uuid toUser.2
              type := msgTypeGroupChat
              from_ := packet.envelope.from_
              to_ := memberAddress fromJid.domain toUser.1
              gid := packet.envelope.gid
              ct := env.timestamp13 }
          payload := packet.payload
          vsn := packet.vsn }) := by
  refine mapM_ok ?_ _
  intro toUser
  obtain ⟨j, hj⟩ := exists_newJIDByUidDomain toUser.1 fromJid.domain
  unfold groupPacket memberAddress
  rw [hj]
  rfl

def groupUsersKey (gid domain : Bytes) : Bytes := groupPerfix ++ gid ++ [atSign] ++ domain

theorem is4s_groupUsersKey (gid domain : Bytes) : is4s (groupUsersKey gid domain) = false := rfl

/-- The members are looked up in the cache, then asked for and cached. -/
def groupMembers (gid domain : Bytes) (env : Env) : Prog Node (Option Bytes) := do
  match ← read fun n => n.get (groupUsersKey gid domain) with
  | some users => return some users
  | none =>
    match env.groupUsers gid with
    | .error _ => return none
    | .ok ulist =>
      if 1 < ulist.length then
        let us := List.intercalate [comma] ulist
        modify fun n => n.send (putEx (groupUsersKey gid domain) us 3600)
        return some us
      else return none

def generateGroupPackets (packet : Packet) (env : Env) :
    Prog Node (Except Bytes (List Packet)) := do
  let from_jid ← deref (newJID packet.envelope.from_)
  match ← groupMembers packet.envelope.gid from_jid.domain env with
  | none => return .error (text "group_notfound")
  | some users =>
    if from_jid.user <:+: users then
      let packets ← deref (genGroupPackets users packet from_jid env)
      return .ok packets
    else return .error (text "no_permission")

/-- A frame, and what the outside answers while it is handled. -/
structure Input where
  frame : Bytes
  env : Env

inductive ReadPacketResult where
  | packets (inputs : List Input)
  | error (err : Bytes) (env : Env)

def stamped (packet : Packet) (env : Env) : Packet :=
  { packet with envelope := { packet.envelope with ct := env.timestamp13 } }

/-- What a frame that is not a heartbeat leads to, once the session has left `conn`. -/
inductive Request where
  | ack (packet : Packet)
  | group (packet : Packet)
  | chat (packet : Packet)
  | bad (err : Bytes)

def request (i : Input) : Request :=
  match newPacket C i.frame with
  | .error e => .bad e
  | .ok packet =>
    let packet := stamped packet i.env
    if packet.envelope.type = msgTypeState ∧ packet.envelope.to_ = serverAckName then .ack packet
    else if packet.envelope.type = msgTypeGroupChat then .group packet
    else .chat packet

def handleRequest (x : Bytes) (env : Env) : Request → Prog Node Unit
  | .ack packet => serverAck x packet
  | .group packet => do
    match ← generateGroupPackets packet env with
    | .ok packets =>
      answer x (newPacketAck packet.envelope.id env.timestamp13)
      packets.forM (routePacket C x)
    | .error gerr => answer x (newPacketSysNotify packet.envelope.id gerr)
  | .chat packet => do
    if packet.envelope.ack ≠ 0 then answer x (newPacketAck packet.envelope.id env.timestamp13)
    routePacket C x packet
  | .bad err => do
    answer x (newPacketSysNotify (env.uuid 0) err)
    closeSession C x env

def handleFrame (x : Bytes) (i : Input) : Prog Node Unit := do
  let s ← Node.session x
  if s.status.status = .conn then openSession C x i.frame i.env
  else if i.frame = [heartBeat] then heartbeat x
  else handleRequest C x i.env (request C i)

/-- One recover covers the whole result: a panic drops the frames behind it. -/
def packetHandler (x : Bytes) : ReadPacketResult → Prog Node Unit
  | .error _ env => recover do
    let s ← Node.session x
    if s.status.status ≠ .close then closeSession C x env
  | .packets inputs => recover (inputs.forM (handleFrame C x))

/-- The results of a connection, one after the other. A closed connection may go on to hand over
what it has read before: a web socket reads ahead, and so does TLS. -/
def handleResults (x : Bytes) (results : List ReadPacketResult) : Prog Node Unit :=
  results.forM (packetHandler C x)

/-- A connection that reads nothing more once it is closed, as a plain TCP connection does. -/
def deliver (x : Bytes) (result : ReadPacketResult) : Prog Node Unit := do
  let s ← Node.session x
  if s.connClosed then return () else packetHandler C x result

def recvResults (x : Bytes) (results : List ReadPacketResult) : Prog Node Unit :=
  results.forM (deliver C x)

end Sara
