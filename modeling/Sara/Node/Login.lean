import Sara.Node.System

/-! # The login protocol

Runs in which clients only log in, and sessions are killed and closed. Nothing
is buffered or routed but kills, so a small view of the system is enough: the
status records, where each goroutine stands, the router with its workers, and
the database. `LoginStep` lists all that can happen to the view.
-/

namespace Sara.Concurrent

open Lib Lib.Prog Lib.Transition Saradb

set_option autoImplicit false

structure View where
  nodeid : Bytes
  channel : Bytes
  status : Bytes → Option SessionStatus
  sessionMap : Bytes → Bool
  pc : Bytes → Pc
  router : List RouterItem
  hands : Nat → Hand
  db : Database

def System.view (s : System) : View where
  nodeid := s.node.nodeid
  channel := s.node.channel
  status := Option.map Session.status ∘ s.node.sessions
  sessionMap := s.node.sessionMap
  pc := s.pc
  router := s.node.router
  hands := s.hands
  db := s.node.db

/-- A frame is only handled while the session waits for its login. -/
def LoginsOnly (s : System) : Action → Prop
  | .recv x _ => ∀ sess ∈ s.node.sessions x, sess.status.status = .conn
  | _ => True

def killItem (ss : SessionStatus) : RouterItem :=
  { channel := ss.channel, sid := ss.sid, packet := none, signal := killSignal }

namespace View

def setStatus (v : View) (x : Bytes) (st : SessionStatus) : View :=
  { v with status := Function.update v.status x (some st) }

def setPc (v : View) (x : Bytes) (pc : Pc) : View := { v with pc := Function.update v.pc x pc }

def setHand (v : View) (w : Nat) (hand : Hand) : View :=
  { v with hands := Function.update v.hands w hand }

/-- The session leaves `conn` or `login`; from `login` its entry is to be deleted. -/
def closed (v : View) (x : Bytes) (st : SessionStatus) : View :=
  { v.setStatus x { st with status := .close } with db := dropEntry v.db st }

@[simp] theorem setPc_pc_self (v : View) (x : Bytes) (pc : Pc) : (v.setPc x pc).pc x = pc :=
  Function.update_self ..

theorem setPc_pc_of_ne (v : View) {x y : Bytes} (h : y ≠ x) (pc : Pc) :
    (v.setPc x pc).pc y = v.pc y := Function.update_of_ne h ..

@[simp] theorem setStatus_status_self (v : View) (x : Bytes) (st : SessionStatus) :
    (v.setStatus x st).status x = some st := Function.update_self ..

theorem setStatus_status_of_ne (v : View) {x y : Bytes} (h : y ≠ x) (st : SessionStatus) :
    (v.setStatus x st).status y = v.status y := Function.update_of_ne h ..

theorem setPc_self (v : View) (x : Bytes) (st : SessionStatus) :
    (v.setStatus x st).setPc x (v.pc x) = v.setStatus x st := by
  simp [setPc, setStatus]

end View

inductive LoginStep (C : Codec) (v : View) : Action → View → Prop where
  | crash (w : Nat) (env : Env) : LoginStep C v (.work w env) v
  | closeAgain (x : Bytes) (env : Env) : LoginStep C v (.close x env) v
  | connect (x : Bytes) (hSid : isUuid x) (hNew : v.status x = none) :
      LoginStep C v (.connect x) (v.setStatus x (newSession v.channel x v.nodeid).status)
  | register (x : Bytes) :
      LoginStep C v (.register x) { v with sessionMap := Function.update v.sessionMap x true }
  | clean (x : Bytes) :
      LoginStep C v .clean { v with sessionMap := Function.update v.sessionMap x false }
  | look (x : Bytes) (i : Input) (st : SessionStatus) (packet : Packet) (jid : JID)
      (hStatus : v.status x = some st) (hConn : st.status = .conn) (hIdle : v.pc x = .idle)
      (hPacket : newPacket C i.frame = .ok packet) (hJid : newJID packet.envelope.jid = .ok jid) :
      LoginStep C v (.recv x i) (v.setPc x
        (match (Redis.get v.db.store jid.toSessionid).map C.unmarshalStatus with
        | some ss => .kill packet jid ss
        | none => .auth packet jid))
  | refuse (x : Bytes) (i : Input) (st : SessionStatus) (hStatus : v.status x = some st)
      (hLogin : st.status ≠ .login) (hIdle : v.pc x = .idle) :
      LoginStep C v (.recv x i) ((v.setStatus x { st with status := .close }).setPc x .idle)
  | routeKill (x : Bytes) (env : Env) (packet : Packet) (jid : JID) (ss : SessionStatus)
      (hPc : v.pc x = .kill packet jid ss) (hRoom : v.router.length < routerQueueSize) :
      LoginStep C v (.go x env)
        { v.setPc x (.auth packet jid) with router := v.router ++ [killItem ss] }
  | routerFull (x : Bytes) (env : Env) (packet : Packet) (jid : JID) (ss : SessionStatus)
      (hPc : v.pc x = .kill packet jid ss) (hFull : ¬ v.router.length < routerQueueSize) :
      LoginStep C v (.go x env) (v.setPc x (.auth packet jid))
  | auth (x : Bytes) (env : Env) (packet : Packet) (jid : JID) (hPc : v.pc x = .auth packet jid) :
      LoginStep C v (.go x env) (v.setPc x (.logon packet))
  | reject (x : Bytes) (env : Env) (packet : Packet) (jid : JID) (st : SessionStatus)
      (hPc : v.pc x = .auth packet jid) (hStatus : v.status x = some st)
      (hLogin : st.status ≠ .login) :
      LoginStep C v (.go x env) ((v.setStatus x { st with status := .close }).setPc x .idle)
  | logon (x : Bytes) (env : Env) (packet : Packet) (st : SessionStatus)
      (hPc : v.pc x = .logon packet) (hStatus : v.status x = some st) :
      LoginStep C v (.go x env) ((v.setStatus x
        { st with jid := packet.envelope.jid, status := .login, ct := env.timestamp10 }).setPc x
          (.fetch packet))
  | fetch (x : Bytes) (env : Env) (packet reply : Packet) (hPc : v.pc x = .fetch packet) :
      LoginStep C v (.go x env) (v.setPc x (.publish reply))
  | publish (x : Bytes) (env : Env) (reply : Packet) (st : SessionStatus) (jid : JID)
      (hPc : v.pc x = .publish reply) (hStatus : v.status x = some st)
      (hJid : newJID st.jid = .ok jid) :
      LoginStep C v (.go x env) (v.setPc x (.storing
        (putExWithIdx st.nodeid jid.toSessionid (C.marshalStatus st) (-1)) reply))
  | store (x : Bytes) (env : Env) (d : Dispatch) (ds : List Dispatch) (reply : Packet)
      (db : Database) (hPc : v.pc x = .storing (d :: ds) reply) (hSend : v.db.sendOne d = some db) :
      LoginStep C v (.go x env) { v.setPc x (.storing ds reply) with db := db }
  | storeFails (x : Bytes) (env : Env) (d : Dispatch) (ds : List Dispatch) (reply : Packet)
      (hPc : v.pc x = .storing (d :: ds) reply) (hSend : v.db.sendOne d = none) :
      LoginStep C v (.go x env) (v.setPc x (.storing [] reply))
  | answer (x : Bytes) (env : Env) (reply : Packet) (hPc : v.pc x = .storing [] reply) :
      LoginStep C v (.go x env) (v.setPc x .idle)
  | close (x : Bytes) (env : Env) (st : SessionStatus) (hStatus : v.status x = some st)
      (hOpen : st.status ≠ .close) : LoginStep C v (.close x env) (v.closed x st)
  | take (w : Nat) (it : RouterItem) (rest : List RouterItem) (hRouter : v.router = it :: rest)
      (hHand : v.hands w = .free) :
      LoginStep C v (.take w) { v.setHand w (.item it) with router := rest }
  | find (w : Nat) (env : Env) (it : RouterItem) (hHand : v.hands w = .item it)
      (hFound : v.sessionMap it.sid = true) : LoginStep C v (.work w env) (v.setHand w (.found it))
  | drop (w : Nat) (env : Env) (it : RouterItem) (hHand : v.hands w = .item it)
      (hLocal : it.channel = [] ∨ it.channel = v.channel) (hGone : v.sessionMap it.sid = false) :
      LoginStep C v (.work w env) (v.setHand w .free)
  | kill (w : Nat) (env : Env) (it : RouterItem) (st : SessionStatus) (hHand : v.hands w = .found it)
      (hStatus : v.status it.sid = some st) (hOpen : st.status ≠ .close) :
      LoginStep C v (.work w env) ((v.closed it.sid st).setHand w .free)
  | killClosed (w : Nat) (env : Env) (it : RouterItem) (hHand : v.hands w = .found it)
      (hClosed : ∀ st ∈ v.status it.sid, st.status = .close) :
      LoginStep C v (.work w env) (v.setHand w .free)
  | dtake (ch : Chan) (consumers : Nat) (db : Database) (hTake : v.db.take consumers ch = some db) :
      LoginStep C v (.dtake ch) { v with db := db }
  | dexec (ch : Chan) (i : Nat) (db : Database) (hExec : v.db.execHeld ch i = some db) :
      LoginStep C v (.dexec ch i) { v with db := db }

/-- Where a login stands, its address has been parsed; a session is in `login`
only after the credentials were accepted, and then stores its own status. -/
def Pc.Sound (C : Codec) (st : Option SessionStatus) : Pc → Prop
  | .idle => True
  | .kill packet jid _ | .auth packet jid =>
    newJID packet.envelope.jid = .ok jid ∧ ∃ s, st = some s ∧ s.status ≠ .login
  | .logon packet =>
    (∃ jid, newJID packet.envelope.jid = .ok jid) ∧ ∃ s, st = some s ∧ s.status ≠ .login
  | .fetch _ | .publish _ => ∃ s jid, st = some s ∧ newJID s.jid = .ok jid ∧ s.status ≠ .conn
  | .storing ds _ => ∃ s jid, st = some s ∧ newJID s.jid = .ok jid ∧ s.status ≠ .conn ∧
    ∃ value, ds <:+ putExWithIdx s.nodeid jid.toSessionid value (-1) ∧
      (s.status = .login → value = C.marshalStatus s)
  | .routing _ | .acting _ _ _ => False

def Hand.Kills : Hand → Prop
  | .free => True
  | .item it | .found it => it.packet = none ∧ it.signal = killSignal
  | .acting _ _ _ => False

/-- A queued command removes a user's entry, or its field of the node's index. -/
def Deletes (nodeid : Bytes) (c : Cmd) : Prop :=
  ∃ j : JID, c = .hdel (indexKey nodeid) j.toSessionid ∨ c = .del j.toSessionid

structure Valid (C : Codec) (v : View) : Prop where
  sids : ∀ x st, v.status x = some st → isUuid x
  own : ∀ x st, v.status x = some st → st.sid = x ∧ st.nodeid = v.nodeid ∧ st.channel = v.channel
  user : ∀ x st, v.status x = some st → st.status = .login → ∃ j, newJID st.jid = .ok j
  pcs : ∀ x, (v.pc x).Sound C (v.status x)
  router : ∀ it ∈ v.router, it.packet = none ∧ it.signal = killSignal
  hands : ∀ w, (v.hands w).Kills
  pending : ∀ c ∈ v.db.pending, Deletes v.nodeid c

theorem valid_start (C : Codec) (nodeid channel : Bytes) (st : Store) :
    Valid C (start nodeid channel st).view where
  sids := fun _ _ h => by cases h
  own := fun _ _ h => by cases h
  user := fun _ _ h => by cases h
  pcs := fun _ => trivial
  router := fun _ h => by cases h
  hands := fun _ => trivial
  pending := fun _ h => by cases h

namespace Valid

variable {C : Codec} {v : View}

theorem setHand (h : Valid C v) (w : Nat) (hand : Hand) (hHand : hand.Kills) :
    Valid C (v.setHand w hand) := by
  refine { h with hands := ?_ }
  intro w'
  rcases eq_or_ne w' w with rfl | hne
  · simpa [View.setHand] using hHand
  · simpa [View.setHand, hne] using h.hands w'

/-- One session moves on: its status, and where its goroutine stands. -/
theorem setBoth (h : Valid C v) (x : Bytes) (st : SessionStatus) (pc : Pc) (hSid : isUuid x)
    (hOwn : st.sid = x ∧ st.nodeid = v.nodeid ∧ st.channel = v.channel)
    (hUser : st.status = .login → ∃ j, newJID st.jid = .ok j) (hPc : pc.Sound C (some st)) :
    Valid C ((v.setStatus x st).setPc x pc) := by
  refine { h with sids := ?_, own := ?_, user := ?_, pcs := ?_ }
  · intro y st' hy
    rcases eq_or_ne y x with rfl | hne
    · exact hSid
    · simp only [View.setPc, View.setStatus, Function.update_of_ne hne] at hy
      exact h.sids y st' hy
  · intro y st' hy
    rcases eq_or_ne y x with rfl | hne
    · simp only [View.setPc, View.setStatus, Function.update_self, Option.some.injEq] at hy
      exact hy ▸ hOwn
    · simp only [View.setPc, View.setStatus, Function.update_of_ne hne] at hy
      exact h.own y st' hy
  · intro y st' hy
    rcases eq_or_ne y x with rfl | hne
    · simp only [View.setPc, View.setStatus, Function.update_self, Option.some.injEq] at hy
      exact hy ▸ hUser
    · simp only [View.setPc, View.setStatus, Function.update_of_ne hne] at hy
      exact h.user y st' hy
  · intro y
    rcases eq_or_ne y x with rfl | hne
    · simpa [View.setPc, View.setStatus] using hPc
    · simpa [View.setPc, View.setStatus, hne] using h.pcs y

theorem setStatus (h : Valid C v) (x : Bytes) (st : SessionStatus) (hSid : isUuid x)
    (hOwn : st.sid = x ∧ st.nodeid = v.nodeid ∧ st.channel = v.channel)
    (hUser : st.status = .login → ∃ j, newJID st.jid = .ok j)
    (hPc : (v.pc x).Sound C (some st)) : Valid C (v.setStatus x st) := by
  have hBoth := h.setBoth x st (v.pc x) hSid hOwn hUser hPc
  rwa [View.setPc_self] at hBoth

theorem setPc (h : Valid C v) (x : Bytes) (pc : Pc) (hPc : pc.Sound C (v.status x)) :
    Valid C (v.setPc x pc) := by
  refine { h with pcs := ?_ }
  intro y
  rcases eq_or_ne y x with rfl | hne
  · simpa [View.setPc] using hPc
  · simpa [View.setPc, hne] using h.pcs y

theorem sound (h : Valid C v) {x : Bytes} {pc : Pc} (hPc : v.pc x = pc) : pc.Sound C (v.status x) :=
  hPc ▸ h.pcs x

theorem of_db (h : Valid C v) {db : Database} (hPending : ∀ c ∈ db.pending, Deletes v.nodeid c) :
    Valid C { v with db := db } :=
  { h with pending := hPending }

theorem of_router (h : Valid C v) {router : List RouterItem}
    (hRouter : ∀ it ∈ router, it.packet = none ∧ it.signal = killSignal) :
    Valid C { v with router := router } :=
  { h with router := hRouter }

end Valid

section Step

variable {C : Codec} {v v' : View} {a : Action}

theorem Pc.Sound.close {st : SessionStatus} {pc : Pc} (h : pc.Sound C (some st)) :
    pc.Sound C (some { st with status := .close }) := by
  cases pc with
  | idle => trivial
  | kill packet jid ss => exact ⟨h.1, _, rfl, by simp⟩
  | auth packet jid => exact ⟨h.1, _, rfl, by simp⟩
  | logon packet => exact ⟨h.1, _, rfl, by simp⟩
  | fetch packet =>
    obtain ⟨s, jid, hs, hJid, _⟩ := h
    cases hs
    exact ⟨_, jid, rfl, hJid, by simp⟩
  | publish reply =>
    obtain ⟨s, jid, hs, hJid, _⟩ := h
    cases hs
    exact ⟨_, jid, rfl, hJid, by simp⟩
  | storing ds reply =>
    obtain ⟨s, jid, hs, hJid, _, value, hds, _⟩ := h
    cases hs
    exact ⟨_, jid, rfl, hJid, by simp, value, hds, by simp⟩
  | routing packets => exact h
  | acting packet d packets => exact h

theorem Pc.Sound.idle_of_none {pc : Pc} (h : pc.Sound C none) : pc = .idle := by
  cases pc with
  | idle => rfl
  | kill | auth | logon | fetch | publish | storing | routing | acting => simp [Pc.Sound] at h

theorem Valid.closed (h : Valid C v) {x : Bytes} {st : SessionStatus}
    (hStatus : v.status x = some st) : Valid C (v.closed x st) := by
  have hPc := h.pcs x
  rw [hStatus] at hPc
  have hSet := h.setStatus x { st with status := .close } (h.sids x st hStatus) (h.own x st hStatus)
    (fun hLogin => by cases hLogin) hPc.close
  refine hSet.of_db ?_
  intro c hc
  rcases mem_pending_dropEntry hc with hOld | ⟨j, _, hNew⟩
  · exact h.pending c hOld
  · rw [(h.own x st hStatus).2.1] at hNew
    exact ⟨j, hNew⟩

/-- A session stores its status with two direct commands. -/
theorem storing_cases {x : Bytes} {d : Dispatch} {ds : List Dispatch} {reply : Packet}
    (h : Valid C v) (hPc : v.pc x = .storing (d :: ds) reply) :
    ∃ st jid value, v.status x = some st ∧ newJID st.jid = .ok jid ∧ st.status ≠ .conn ∧
      (st.status = .login → value = C.marshalStatus st) ∧
      (d = .direct (.hset (indexKey v.nodeid) jid.toSessionid value) ∧
          ds = [.direct (.set jid.toSessionid value)] ∨
        d = .direct (.set jid.toSessionid value) ∧ ds = []) := by
  have hSound := h.sound hPc
  obtain ⟨st, jid, hStatus, hJid, hConn, value, hds, hValue⟩ := hSound
  refine ⟨st, jid, value, hStatus, hJid, hConn, hValue, ?_⟩
  rw [putExWithIdx_toSessionid, (h.own x st hStatus).2.1] at hds
  simpa [List.suffix_cons_iff] using hds

theorem valid_step (h : Valid C v) (hStep : LoginStep C v a v') : Valid C v' := by
  cases hStep with
  | crash | closeAgain => exact h
  | connect x hSid hNew =>
    have hPc := h.pcs x
    rw [hNew] at hPc
    refine h.setStatus x _ hSid ⟨rfl, rfl, rfl⟩ (fun hLogin => by cases hLogin) ?_
    rw [hPc.idle_of_none]
    trivial
  | register | clean => exact { h with }
  | look x i st packet jid hStatus hConn hIdle hPacket hJid =>
    refine h.setPc x _ ?_
    rw [hStatus]
    split
    · exact ⟨hJid, st, rfl, by simp [hConn]⟩
    · exact ⟨hJid, st, rfl, by simp [hConn]⟩
  | refuse x i st hStatus hLogin hIdle =>
    exact h.setBoth x _ _ (h.sids x st hStatus) (h.own x st hStatus)
      (fun hLogin => by cases hLogin) trivial
  | routeKill x env packet jid ss hPc hRoom =>
    have hSound := h.sound hPc
    refine (h.setPc x (.auth packet jid) hSound).of_router ?_
    intro it hit
    rcases List.mem_append.mp hit with hOld | hNew
    · exact h.router it hOld
    · cases List.mem_singleton.mp hNew
      exact ⟨rfl, rfl⟩
  | routerFull x env packet jid ss hPc hFull =>
    have hSound := h.sound hPc
    exact h.setPc x _ hSound
  | auth x env packet jid hPc =>
    have hSound := h.sound hPc
    exact h.setPc x _ ⟨⟨jid, hSound.1⟩, hSound.2⟩
  | reject x env packet jid st hPc hStatus hLogin =>
    exact h.setBoth x _ _ (h.sids x st hStatus) (h.own x st hStatus)
      (fun hLogin => by cases hLogin) trivial
  | logon x env packet st hPc hStatus =>
    have hSound := h.sound hPc
    obtain ⟨⟨jid, hJid⟩, _⟩ := hSound
    exact h.setBoth x _ _ (h.sids x st hStatus) (h.own x st hStatus) (fun _ => ⟨jid, hJid⟩)
      ⟨_, jid, rfl, hJid, by simp⟩
  | fetch x env packet reply hPc =>
    have hSound := h.sound hPc
    exact h.setPc x _ hSound
  | publish x env reply st jid hPc hStatus hJid =>
    have hSound := h.sound hPc
    obtain ⟨st', jid', hStatus', hJid', hConn⟩ := hSound
    cases hStatus.symm.trans hStatus'
    exact h.setPc x _ ⟨st, jid, hStatus, hJid, hConn, _, List.suffix_rfl, fun _ => rfl⟩
  | store x env d ds reply db hPc hSend =>
    have hSound := h.sound hPc
    obtain ⟨st, jid, hStatus, hJid, hConn, value, hds, hValue⟩ := hSound
    have hRest := (List.suffix_cons d ds).trans hds
    refine (h.setPc x (.storing ds reply) ⟨st, jid, hStatus, hJid, hConn, value, hRest, hValue⟩).of_db ?_
    obtain ⟨_, _, _, _, _, _, _, ⟨rfl, _⟩ | ⟨rfl, _⟩⟩ := storing_cases h hPc
    · rw [Database.sendOne_direct hSend]
      exact h.pending
    · rw [Database.sendOne_direct hSend]
      exact h.pending
  | storeFails x env d ds reply hPc hSend =>
    have hSound := h.sound hPc
    obtain ⟨st, jid, hStatus, hJid, hConn, value, _, hValue⟩ := hSound
    exact h.setPc x _ ⟨st, jid, hStatus, hJid, hConn, value, List.nil_suffix, hValue⟩
  | answer x env reply hPc => exact h.setPc x _ trivial
  | close x env st hStatus hOpen => exact h.closed hStatus
  | take w it rest hRouter hHand =>
    have hKill := h.router it (hRouter ▸ List.mem_cons_self)
    refine (h.setHand w (.item it) hKill).of_router ?_
    intro it' hit'
    exact h.router it' (hRouter ▸ List.mem_cons_of_mem it hit')
  | find w env it hHand hFound =>
    have hKill := h.hands w
    rw [hHand] at hKill
    exact h.setHand w _ hKill
  | drop w env it hHand hLocal hGone => exact h.setHand w _ trivial
  | kill w env it st hHand hStatus hOpen => exact (h.closed hStatus).setHand w _ trivial
  | killClosed w env it hHand hClosed => exact h.setHand w _ trivial
  | dtake ch consumers db hTake =>
    refine h.of_db ?_
    intro c hc
    exact h.pending c ((Database.pending_take hTake).mem_iff.mp hc)
  | dexec ch i db hExec =>
    obtain ⟨c, _, _, hPerm⟩ := Database.pending_execHeld hExec
    refine h.of_db ?_
    intro c' hc'
    exact h.pending c' (hPerm.mem_iff.mpr (List.mem_cons_of_mem c hc'))

end Step

end Sara.Concurrent
