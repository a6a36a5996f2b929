import Sara.Core.Lifecycle

/-! # Logins whose writes fail

A login reads twice from the database and writes twice, first the field of the node's
index and then the key of the session. Any of the four commands may fail. A read that
fails counts as one that finds nothing; what the writes return is not looked at. So a
client may be told of a login that is not published, or only half.
-/

namespace Sara

open Lib Lib.Prog Saradb

set_option autoImplicit false

/-- Which of the commands of a login succeed; the others are not executed. -/
structure Replies where
  get : Bool
  hvals : Bool
  hset : Bool
  set : Bool

def Replies.all : Replies := { get := true, hvals := true, hset := true, set := true }

def Replies.ok (r : Replies) : Cmd → Bool
  | .hset _ _ _ => r.hset
  | .set _ _ | .setex _ _ _ => r.set
  | .del _ | .hdel _ _ => true

namespace Saradb.Database

def trySendOne (r : Replies) (db : Database) : Dispatch → Option Database
  | .direct c => if r.ok c then db.sendOne (.direct c) else none
  | .queued ch c => db.sendOne (.queued ch c)

/-- The commands of one call, and whether the call returns without an error. -/
def trySend (r : Replies) (db : Database) : List Dispatch → Database × Bool
  | [] => (db, true)
  | d :: ds =>
    match db.trySendOne r d with
    | none => (db, false)
    | some db' => trySend r db' ds

theorem trySend_all (db : Database) (ds : List Dispatch) : (db.trySend .all ds).1 = db.send ds := by
  induction ds generalizing db with
  | nil => rfl
  | cons d ds ih =>
    have hOne : db.trySendOne .all d = db.sendOne d := by
      cases d with
      | queued ch c => rfl
      | direct c => cases c <;> rfl
    rw [trySend, send, hOne]
    cases db.sendOne d with
    | none => rfl
    | some db' => exact ih db'

section Session

variable {r : Replies} {db : Database} {idx key : Bytes}

/-- `PutExWithIdx` of a session key goes through with its first command. -/
def Indexes (r : Replies) (db : Database) (idx : Bytes) : Prop := r.hset = true ∧ IndexHash db.store idx

theorem trySend_unindexed (hKey : is4s key = true) (h : ¬Indexes r db idx) (value : Bytes) (ex : Int) :
    db.trySend r (putExWithIdx idx key value ex) = (db, false) := by
  have hOne : db.trySendOne r (.direct (.hset (indexKey idx) key value)) = none := by
    cases hReply : r.ok (.hset (indexKey idx) key value) with
    | false => simp only [trySendOne, hReply, Bool.false_eq_true, if_false]
    | true =>
      simp only [trySendOne, hReply, if_true]
      rw [← Option.not_isSome_iff_eq_none]
      intro hSome
      simp only [sendOne, Redis.exec?, Option.isSome_map] at hSome
      rw [Redis.apply_isSome rfl] at hSome
      exact h ⟨hReply, hSome⟩
  rw [putExWithIdx, if_pos hKey, trySend, hOne]

theorem exec?_storeKey (st : Store) (value : Bytes) (ex : Int) :
    Redis.exec? st (storeKey key value ex) = some (Redis.exec st (storeKey key value ex)) := by
  have hSome : (Redis.exec? st (storeKey key value ex)).isSome := by
    unfold storeKey
    split
    · rename_i hPositive
      have hTtl : ex.toNat ≠ 0 := by omega
      simp [Redis.exec?, Redis.Cmd.apply, hTtl]
    · rfl
  obtain ⟨st', hst'⟩ := Option.isSome_iff_exists.mp hSome
  rw [Redis.exec, hst', Option.getD_some]

theorem trySend_indexed (hKey : is4s key = true) (h : Indexes r db idx) (value : Bytes) (ex : Int) :
    db.trySend r (putExWithIdx idx key value ex) =
      let indexed := Redis.exec db.store (.hset (indexKey idx) key value)
      if r.set then ({ db with store := Redis.exec indexed (storeKey key value ex) }, true)
      else ({ db with store := indexed }, false) := by
  obtain ⟨db', hSend⟩ := Option.isSome_iff_exists.mp (sendOne_hset h.2 key value)
  have hFirst : r.ok (.hset (indexKey idx) key value) = true := h.1
  have hSecond : r.ok (storeKey key value ex) = r.set := by
    unfold storeKey
    split
    · rfl
    · rfl
  have hOne : db.trySendOne r (.direct (.hset (indexKey idx) key value)) = some db' := by
    simp only [trySendOne, hFirst, if_true, hSend]
  cases sendOne_direct hSend
  rw [putExWithIdx, if_pos hKey, trySend, hOne]
  cases hSet : r.set with
  | false => simp only [trySend, trySendOne, hSecond, hSet, Bool.false_eq_true, if_false]
  | true => simp only [trySend, trySendOne, hSecond, hSet, if_true, sendOne, exec?_storeKey, Option.map_some]

def Records (db : Database) (idx key value : Bytes) : Prop :=
  Redis.get db.store key = some value ∧ Redis.hget db.store (indexKey idx) key = some value

theorem Records.key_ne {value : Bytes} (h : Records db idx key value) : key ≠ indexKey idx := by
  intro hSame
  have hNone := Redis.hget_eq_none_of_get h.1 key
  have hSome := h.2
  rw [← hSame, hNone] at hSome
  cases hSome

/-- A half is there if it was written now or was there before. -/
theorem records_trySend_iff (r : Replies) (db : Database) (idx : Bytes) (hKey : is4s key = true)
    (value : Bytes) :
    Records (db.trySend r (putExWithIdx idx key value (-1))).1 idx key value ↔
      key ≠ indexKey idx ∧
      (Indexes r db idx ∨ Redis.hget db.store (indexKey idx) key = some value) ∧
      (Indexes r db idx ∧ r.set = true ∨ Redis.get db.store key = some value) := by
  by_cases hIndexes : Indexes r db idx
  · rw [trySend_indexed hKey hIndexes]
    have hField := Redis.hget_exec_hset db.store (indexKey idx) key value hIndexes.2 key
    rw [if_pos rfl] at hField
    by_cases hSame : key = indexKey idx
    · constructor
      · intro hRecords
        exact absurd hSame hRecords.key_ne
      · intro hAll
        exact absurd hSame hAll.1
    have hGet : Redis.get (Redis.exec db.store (.hset (indexKey idx) key value)) key =
        Redis.get db.store key := Redis.get_exec_of_ne hSame
    cases hSet : r.set with
    | true =>
      simp only [if_true, Records, storeKey]
      constructor
      · intro _
        exact ⟨hSame, .inl hIndexes, .inl ⟨hIndexes, trivial⟩⟩
      · intro _
        constructor
        · simp [Redis.get, Redis.exec_eq_update, Redis.Cmd.key, Redis.Cmd.act, Redis.Cmd.apply]
        · have hKept : indexKey idx ≠ (Redis.Cmd.set key value : Cmd).key := Ne.symm hSame
          exact (Redis.hget_exec_of_ne hKept).trans hField
    | false =>
      simp only [Bool.false_eq_true, if_false, Records, hGet, hField, and_true, and_false, false_or]
      constructor
      · intro hOld
        exact ⟨hSame, .inl hIndexes, hOld⟩
      · intro hAll
        exact hAll.2.2
  · rw [trySend_unindexed hKey hIndexes]
    simp only [hIndexes, false_or, false_and]
    constructor
    · intro hRecords
      exact ⟨hRecords.key_ne, hRecords.2, hRecords.1⟩
    · intro hAll
      exact ⟨hAll.2.2, hAll.2.1⟩

/-- An error leaves key and index alone, unless it is the second command that fails. -/
theorem untouched_trySend_iff (hKey : is4s key = true) (value : Bytes) (ex : Int) :
    ((db.trySend r (putExWithIdx idx key value ex)).2 = false →
      (db.trySend r (putExWithIdx idx key value ex)).1.store key = db.store key ∧
      (db.trySend r (putExWithIdx idx key value ex)).1.store (indexKey idx) = db.store (indexKey idx)) ↔
    (Indexes r db idx → r.set = false → Redis.hget db.store (indexKey idx) key = some value) := by
  by_cases hIndexes : Indexes r db idx
  · rw [trySend_indexed hKey hIndexes]
    cases hSet : r.set with
    | true => simp
    | false =>
      simp only [Bool.false_eq_true, if_false, hIndexes, forall_const]
      constructor
      · rintro ⟨_, hIndex⟩
        have hField := Redis.hget_exec_hset db.store (indexKey idx) key value hIndexes.2 key
        rw [if_pos rfl, Redis.hget, hIndex] at hField
        exact hField
      · intro hOld
        rw [Redis.exec_hset_of_hget hOld]
        exact ⟨rfl, rfl⟩
  · rw [trySend_unindexed hKey hIndexes]
    simp [hIndexes]

end Session

end Saradb.Database

/-! ## The login -/

namespace Faults

variable (C : Codec) (r : Replies)

/-- `Get` with an error is as good as no entry. -/
def verifyGet (x frame : Bytes) (env : Env) :
    Prog Node (Option (Packet × JID × Option SessionStatus)) := do
  let looked ← Sara.verifyGet C x frame env
  return looked.map fun l => (l.1, l.2.1, if r.get then l.2.2 else none)

def verify (x frame : Bytes) (env : Env) : Prog Node (Option Packet) := do
  match ← verifyGet C r x frame env with
  | none => return none
  | some (packet, jid_obj, found) =>
    if let some ss := found then verifyKill ss
    if ← verifyAuth C x packet jid_obj env then return some packet else return none

def fetchOfflinePacket (x : Bytes) : Prog Node (Option (List BasePacket)) := do
  let fetched ← Sara.fetchOfflinePacket C x
  return if r.hvals then fetched else none

def loginReply (x : Bytes) (packet : Packet) : Prog Node Packet := do
  let id := packet.envelope.id
  match ← fetchOfflinePacket C r x with
  | none => return (newPacketAuthSuccess id).addDelay []
  | some ofl_pks =>
    let ofl_ids := ofl_pks.map (·.envelope.id)
    if 0 < ofl_ids.length then
      modify fun n => { n with oflCache := Function.update n.oflCache id (some ofl_ids) }
    return (newPacketAuthSuccess id).addDelay ofl_pks

/-- The error of `PutExWithIdx` is dropped. -/
def storeSessionStatus (x : Bytes) : Prog Node Unit := do
  let ds ← statusWrites C x
  modify fun n => { n with db := (n.db.trySend r ds).1 }

def openSession (x frame : Bytes) (env : Env) : Prog Node Unit := do
  match ← verify C r x frame env with
  | none => return ()
  | some packet =>
    logon x packet env
    let reply ← loginReply C r x packet
    storeSessionStatus C r x
    answer x reply

section Conservative

variable {C}

theorem verifyGet_all (x frame : Bytes) (env : Env) :
    verifyGet C .all x frame env = Sara.verifyGet C x frame env := by
  have hSame : ∀ looked : Option (Packet × JID × Option SessionStatus),
      looked.map (fun l => (l.1, l.2.1, if Replies.all.get then l.2.2 else none)) = looked := by
    intro looked
    cases looked with
    | none => rfl
    | some l => rfl
  unfold verifyGet
  simp only [hSame]
  exact bind_pure_unit _

theorem loginReply_all (x : Bytes) (packet : Packet) :
    loginReply C .all x packet = Sara.loginReply C x packet := by
  have hFetch : fetchOfflinePacket C .all x = Sara.fetchOfflinePacket C x := bind_pure_unit _
  exact congrArg (· >>= _) hFetch

/-- Without a fault this is the login as it is modelled elsewhere. -/
theorem openSession_all (x frame : Bytes) (env : Env) :
    openSession C .all x frame env = Sara.openSession C x frame env := by
  have hVerify : verify C .all x frame env = Sara.verify C x frame env :=
    congrArg (· >>= _) (verifyGet_all x frame env)
  have hStore : storeSessionStatus C .all x = Sara.storeSessionStatus C x := by
    unfold storeSessionStatus Sara.storeSessionStatus
    simp only [Database.trySend_all]
    rfl
  refine congrArg₂ (· >>= ·) hVerify ?_
  funext verified
  cases verified with
  | none => rfl
  | some packet => simp only [loginReply_all, hStore]

end Conservative

section Login

variable {C r} {x frame : Bytes} {n : Node} {s : Session} {env : Env} {packet : Packet} {j : JID}

/-- The status of the session once it is logged in. -/
def loggedIn (s : Session) (packet : Packet) (env : Env) : SessionStatus :=
  { s.status with jid := packet.envelope.jid, status := .login, ct := env.timestamp10 }

theorem verify_eq (r : Replies) (x : Bytes) (env : Env) (n : Node)
    (hPacket : newPacket C frame = .ok packet)
    (hType : packet.envelope.type = msgTypeOpenSession) (hJid : newJID packet.envelope.jid = .ok j) :
    ∃ router, verify C r x frame env n = (do
      if ← verifyAuth C x packet j env then return some packet else return none)
        { n with router := router } := by
  have hGet : verifyGet C r x frame env n = .done (some (packet, j,
      if r.get then (n.get j.toSessionid).map C.unmarshalStatus else none)) n := by
    unfold verifyGet
    rw [bind_done (verifyGet_found C hPacket hType hJid x env n)]
    rfl
  unfold verify
  rw [bind_done hGet]
  cases (if r.get then (n.get j.toSessionid).map C.unmarshalStatus else none) with
  | none => exact ⟨n.router, rfl⟩
  | some ss =>
    obtain ⟨router, hRoute⟩ := route_router n
      { channel := ss.channel, sid := ss.sid, packet := none, signal := killSignal }
    refine ⟨router, ?_⟩
    rw [← hRoute]
    rfl

theorem loginReply_done (packet : Packet) (hs : n.sessions x = some s) (hj : newJID s.status.jid = .ok j) :
    ∃ packets oflCache, loginReply C r x packet n =
      .done ((newPacketAuthSuccess packet.envelope.id).addDelay packets)
        { n with oflCache := oflCache } := by
  have hFetch : ∃ found, fetchOfflinePacket C r x n = .done found n := by
    unfold fetchOfflinePacket Sara.fetchOfflinePacket
    rw [bind_assoc, bind_done (Node.session_eq hs), hj]
    exact ⟨_, rfl⟩
  obtain ⟨found, hFound⟩ := hFetch
  unfold loginReply
  rw [bind_done hFound]
  cases found with
  | none => exact ⟨[], n.oflCache, rfl⟩
  | some ofl_pks =>
    simp only
    split
    · exact ⟨ofl_pks, _, rfl⟩
    · exact ⟨ofl_pks, n.oflCache, rfl⟩

/-- A login that is let through is confirmed, whatever became of its writes. -/
theorem openSession_accepted (hs : n.sessions x = some s) (hPacket : newPacket C frame = .ok packet)
    (hType : packet.envelope.type = msgTypeOpenSession) (hJid : newJID packet.envelope.jid = .ok j)
    (hAuth : env.auth j.user packet.envelope.pwd = true) :
    ∃ n' packets, openSession C r x frame env n = .done () n' ∧
      n'.sessions x = some { s with
        status := loggedIn s packet env
        written := s.written ++
          [.answer ((newPacketAuthSuccess packet.envelope.id).addDelay packets)] } ∧
      n'.db = (n.db.trySend r (putExWithIdx s.status.nodeid j.toSessionid
        (C.marshalStatus (loggedIn s packet env)) (-1))).1 := by
  obtain ⟨router, hVerify⟩ := verify_eq r x env n hPacket hType hJid
  have hLet : verifyAuth C x packet j env { n with router := router } =
      .done true { n with router := router } := by
    rw [verifyAuth, if_pos hAuth]
    rfl
  rw [bind_done hLet, if_pos rfl] at hVerify
  -- the session is marked before anything is written
  let n₁ : Node := { n with
    router := router
    sessions := Function.update n.sessions x (some { s with status := loggedIn s packet env }) }
  have hs₁ : n₁.sessions x = some { s with status := loggedIn s packet env } := Function.update_self ..
  have hLogon : logon x packet env { n with router := router } = .done () n₁ :=
    congrArg (Outcome.done ()) (Node.updateSession_eq (n := { n with router := router }) hs _)
  obtain ⟨packets, oflCache, hReply⟩ := loginReply_done (C := C) (r := r) packet hs₁ hJid
  let n₂ : Node := { n₁ with oflCache := oflCache }
  have hs₂ : n₂.sessions x = some { s with status := loggedIn s packet env } := hs₁
  have hStore : storeSessionStatus C r x n₂ = .done () { n₂ with
      db := (n.db.trySend r (putExWithIdx s.status.nodeid j.toSessionid
        (C.marshalStatus (loggedIn s packet env)) (-1))).1 } := by
    unfold storeSessionStatus statusWrites
    rw [bind_assoc, bind_done (Node.session_eq hs₂)]
    simp only [loggedIn, hJid]
    rfl
  unfold openSession
  rw [bind_done hVerify]
  simp only
  rw [bind_done hLogon, bind_done hReply, bind_done hStore]
  refine ⟨_, packets, rfl, ?_, rfl⟩
  rw [Node.updateSession_self]
  simp only [hs₂, Option.map_some]

def SameWritten (x : Bytes) (n n' : Node) : Prop :=
  (n'.sessions x).map (·.written) = (n.sessions x).map (·.written)

instance : Std.Refl (SameWritten x) where
  refl _ := rfl

instance : IsTrans Node (SameWritten x) where
  trans _ _ _ h h' := Eq.trans h' h

theorem sameWritten_closeSession (y : Bytes) (env : Env) :
    Keeps (SameWritten x) (closeSession C y env) := by
  refine closeSession_keeps (fun _ _ => rfl) (fun _ _ => rfl) ?_ y env
  intro z m
  apply m.map_updateSession z
  intro _
  rfl

theorem openSession_rejected (hs : n.sessions x = some s) (hPacket : newPacket C frame = .ok packet)
    (hType : packet.envelope.type = msgTypeOpenSession) (hJid : newJID packet.envelope.jid = .ok j)
    (hAuth : env.auth j.user packet.envelope.pwd = false) :
    ((openSession C r x frame env n).state.sessions x).map (·.written) =
      some (s.written ++ [.answer (newPacketAuthFail packet.envelope.id failToken)]) := by
  obtain ⟨router, hVerify⟩ := verify_eq r x env n hPacket hType hJid
  let m : Node := { n with router := router }
  let fail := newPacketAuthFail packet.envelope.id failToken
  have hRefused : ((refuse C x packet.envelope.id failToken env m).state.sessions x).map (·.written) =
      some (s.written ++ [.answer fail]) := by
    have hAnswer : answer x fail m = .done () (m.updateSession x fun s =>
      { s with written := s.written ++ [.answer fail] }) := rfl
    unfold refuse
    rw [bind_done hAnswer]
    refine (sameWritten_closeSession x env _).trans ?_
    rw [Node.updateSession_self]
    simp only [m, hs, Option.map_some]
  have hState : (openSession C r x frame env n).state =
      (refuse C x packet.envelope.id failToken env m).state := by
    unfold verifyAuth at hVerify
    rw [if_neg (by simp [hAuth])] at hVerify
    unfold openSession
    cases hRefuse : refuse C x packet.envelope.id failToken env m with
    | panic u =>
      rw [bind_bind, bind_panic hRefuse] at hVerify
      rw [bind_panic hVerify]
    | done _ u =>
      rw [bind_bind, bind_done hRefuse] at hVerify
      have hNone : verify C r x frame env n = .done none u := hVerify
      rw [bind_done hNone]
      rfl
  rw [hState, hRefused]

end Login

end Faults

def Confirmed (s s' : Session) : Prop :=
  ∃ p, Written.answer p ∈ s'.written.drop s.written.length ∧
    p.entity.map (·.result) = some (text "ok")

/-- A login is confirmed only if it is published exactly if nobody is let in, or both halves of the
record are written now or were there before, under keys that differ; and an error of
`PutExWithIdx` means that nothing was changed exactly if it is not the second write that fails. -/
theorem login_published_iff (C : Codec) (r : Replies) (env : Env) {n : Node} {x frame : Bytes}
    {s : Session} {packet : Packet} {j : JID} (hs : n.sessions x = some s)
    (_hConn : s.status.status = .conn) (hPacket : newPacket C frame = .ok packet)
    (hType : packet.envelope.type = msgTypeOpenSession) (hJid : newJID packet.envelope.jid = .ok j) :
    ((∀ s', (Faults.openSession C r x frame env n).state.sessions x = some s' → Confirmed s s' →
        (Faults.openSession C r x frame env n).state.db.Records s.status.nodeid j.toSessionid
          (C.marshalStatus s'.status)) ↔
      env.auth j.user packet.envelope.pwd = true →
        j.toSessionid ≠ indexKey s.status.nodeid ∧
        (n.db.Indexes r s.status.nodeid ∨
          Redis.hget n.db.store (indexKey s.status.nodeid) j.toSessionid =
            some (C.marshalStatus (Faults.loggedIn s packet env))) ∧
        (n.db.Indexes r s.status.nodeid ∧ r.set = true ∨
          n.get j.toSessionid = some (C.marshalStatus (Faults.loggedIn s packet env)))) ∧
    ∀ (db : Database) (idx key value : Bytes) (ex : Int), is4s key = true →
      (((db.trySend r (putExWithIdx idx key value ex)).2 = false →
        (db.trySend r (putExWithIdx idx key value ex)).1.store key = db.store key ∧
        (db.trySend r (putExWithIdx idx key value ex)).1.store (indexKey idx) =
          db.store (indexKey idx)) ↔
      (db.Indexes r idx → r.set = false → Redis.hget db.store (indexKey idx) key = some value)) := by
  refine ⟨?_, fun db idx key value ex hKey => Database.untouched_trySend_iff hKey value ex⟩
  cases hAuth : env.auth j.user packet.envelope.pwd with
  | true =>
    obtain ⟨n', packets, hOpen, hs', hDb⟩ :=
      Faults.openSession_accepted (r := r) hs hPacket hType hJid hAuth
    have hRecords := Database.records_trySend_iff r n.db s.status.nodeid (is4s_toSessionid j)
      (C.marshalStatus (Faults.loggedIn s packet env))
    rw [hOpen, Outcome.state_done, hDb]
    constructor
    · intro h _
      refine hRecords.mp (h _ hs' ⟨(newPacketAuthSuccess packet.envelope.id).addDelay packets, ?_, rfl⟩)
      rw [List.drop_left]
      exact List.mem_cons_self
    · intro h s'' hs'' _
      cases hs'.symm.trans hs''
      exact hRecords.mpr (h rfl)
  | false =>
    have hRejected := Faults.openSession_rejected (r := r) hs hPacket hType hJid hAuth
    have hError : text "error" ≠ text "ok" := by decide
    constructor
    · intro _ hLet
      cases hLet
    · rintro _ s' hs' ⟨p, hp, hOk⟩
      rw [hs', Option.map_some, Option.some_inj] at hRejected
      rw [hRejected, List.drop_left, List.mem_singleton, Written.answer.injEq] at hp
      rw [hp] at hOk
      exact absurd (Option.some_inj.mp hOk) hError

def aliceLogin : Envelope :=
  { id := text "1", type := msgTypeOpenSession, jid := text "alice@a.com", pwd := text "secret" }

def loginWith (r : Replies) : Node :=
  (Faults.openSession PlainJson.codec r (text "s1") (PlainJson.writeFrame aliceLogin) (Env.plain true)
    freshNode).state

def indexRefused : Replies := { Replies.all with hset := false }

def keyRefused : Replies := { Replies.all with set := false }

/-- Alice is told ok both times. Nothing of the first login is published, and of the second
only the field of the index, although the call returned an error. -/
theorem login_confirmed_unpublished :
    (((loginWith indexRefused).sessions (text "s1")).map (·.written) =
        some [.answer ((newPacketAuthSuccess (text "1")).addDelay [])] ∧
      (loginWith indexRefused).get (text "session_alice@a.com") = none ∧
      Redis.hget (loginWith indexRefused).db.store (text "node01_idx") (text "session_alice@a.com") =
        none) ∧
    ((loginWith keyRefused).sessions (text "s1")).map (·.written) =
        some [.answer ((newPacketAuthSuccess (text "1")).addDelay [])] ∧
      (loginWith keyRefused).get (text "session_alice@a.com") = none ∧
    ((Database.start fun _ => none).trySend keyRefused
      (putExWithIdx (text "node01") (text "session_alice@a.com") (text "v") (-1))).2 = false ∧
    Redis.hget ((Database.start fun _ => none).trySend keyRefused
      (putExWithIdx (text "node01") (text "session_alice@a.com") (text "v") (-1))).1.store
        (text "node01_idx") (text "session_alice@a.com") = some (text "v") := by
  decide +kernel

theorem login_published_alice :
    ∃ s', (loginWith .all).sessions (text "s1") = some s' ∧
      Confirmed (newSession (text "node01:4281") (text "s1") (text "node01")) s' ∧
      (loginWith .all).db.Records (text "node01") aliceJid.toSessionid
        (PlainJson.codec.marshalStatus s'.status) := by
  have hSession : freshNode.sessions (text "s1") =
      some (newSession (text "node01:4281") (text "s1") (text "node01")) := by
    simp [freshNode]
  have hPacket : newPacket PlainJson.codec (PlainJson.writeFrame aliceLogin) =
      .ok (PlainJson.received aliceLogin) := by
    decide +kernel
  have hJid : newJID aliceLogin.jid = .ok aliceJid := by decide
  have hIndexes : freshNode.db.Indexes .all (text "node01") := ⟨rfl, rfl⟩
  have hWritten : ((loginWith .all).sessions (text "s1")).map (·.written) =
      some [.answer ((newPacketAuthSuccess (text "1")).addDelay [])] := by
    decide +kernel
  obtain ⟨s', hs', hAnswer⟩ := Option.map_eq_some_iff.mp hWritten
  have hConfirmed : Confirmed (newSession (text "node01:4281") (text "s1") (text "node01")) s' := by
    refine ⟨(newPacketAuthSuccess (text "1")).addDelay [], ?_, rfl⟩
    rw [hAnswer]
    exact List.mem_cons_self
  refine ⟨s', hs', hConfirmed, ?_⟩
  refine (login_published_iff PlainJson.codec .all (Env.plain true) hSession rfl hPacket rfl
    hJid).1.mpr ?_ s' hs' hConfirmed
  intro _
  exact ⟨by decide, .inl hIndexes, .inl ⟨hIndexes, rfl⟩⟩

end Sara
