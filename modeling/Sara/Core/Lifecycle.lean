import Sara.Core.Addresses
import Mathlib.Logic.Relation

/-! # The life of a session

Whatever is called on a session, in whatever order, and wherever a handler panics,
the session only makes moves of three kinds: it works without a change of its
status, it logs on, or it closes, which it does at most once.
-/

namespace Sara

open Lib Lib.Prog Saradb Relation

set_option autoImplicit false

/-! ## Moves -/

/-- What is sent to the database by a session that is closed: the deletes of an
acknowledgement, and the members of a group. -/
inductive Aside : List Dispatch → Prop
  | acked (idx : Bytes) (ids : List Bytes) : Aside (ids.flatMap fun id => deleteByIdxKey idx id)
  | members (gid domain us : Bytes) : Aside (putEx (groupUsersKey gid domain) us 3600)

/-- Nothing is routed, and no packet is stored or kept. -/
structure Idle (n n' : Node) (s s' : Session) : Prop where
  router : n'.router = n.router
  published : n'.published = n.published
  buffer : ∀ (id : Bytes) (p : Packet), s'.pkgBuff[id]? = some p → s.pkgBuff[id]? = some p
  db : n'.db = n.db ∨ ∃ ds, Aside ds ∧ n'.db = n.db.send ds

/-- What no move of the session `x` touches. -/
structure Beside (x : Bytes) (n n' : Node) : Prop where
  others : ∀ y, y ≠ x → n'.sessions y = n.sessions y
  sessionMap : n'.sessionMap = n.sessionMap

/-- A change that is neither a login nor a close. A packet that is kept has an address. -/
structure Works (n n' : Node) (s s' : Session) : Prop where
  status : s'.status = s.status
  connClosed : s'.connClosed = s.connClosed
  cleanSession : n'.cleanSession = n.cleanSession
  buffer : ∀ (id : Bytes) (p : Packet), s'.pkgBuff[id]? = some p →
    s.pkgBuff[id]? = some p ∨ ∃ r, newJID p.envelope.to_ = .ok r
  closed : s.status.status = .close → Idle n n' s s'

structure LogsOn (n n' : Node) (s s' : Session) : Prop where
  conn : s.status.status = .conn
  login : s'.status.status = .login
  sid : s'.status.sid = s.status.sid
  user : ∃ j, newJID s'.status.jid = .ok j
  connClosed : s'.connClosed = s.connClosed
  cleanSession : n'.cleanSession = n.cleanSession
  buffer : s'.pkgBuff = s.pkgBuff

/-- The packets are stored in this order. -/
def storeIn (C : Codec) (db : Database) (order : List Packet) : Database :=
  order.foldl (fun db p => ((newJID p.envelope.to_).toOption.map fun r =>
    db.send (offlineWrites C r p)).getD db) db

/-- The close: an open session with an open connection is closed, its id is sent to be
cleaned, its entry deleted if it has one, and each packet of its buffer stored. -/
structure Shuts (C : Codec) (x : Bytes) (n n' : Node) (s : Session) : Prop where
  isOpen : s.status.status ≠ .close
  connOpen : s.connClosed = false
  user : s.status.status = .login → ∃ j, newJID s.status.jid = .ok j
  stored : ∃ order : List Packet, order.Perm (s.pkgBuff.toList.map Prod.snd) ∧
    (∀ p ∈ order, ∃ r, newJID p.envelope.to_ = .ok r) ∧
    n' = { n.closed x s with db := storeIn C (dropEntry n.db s.status) order }

inductive Move (C : Codec) (x : Bytes) (n n' : Node) : Prop
  | work (s s' : Session) : n.sessions x = some s → n'.sessions x = some s' → Beside x n n' →
      Works n n' s s' → Move C x n n'
  | login (s s' : Session) : n.sessions x = some s → n'.sessions x = some s' → Beside x n n' →
      LogsOn n n' s s' → Move C x n n'
  | close (s : Session) : n.sessions x = some s → Shuts C x n n' s → Move C x n n'

/-! ## What a session keeps -/

structure Session.Sound (s : Session) : Prop where
  user : s.status.status = .login → ∃ j, newJID s.status.jid = .ok j
  buffer : ∀ (id : Bytes) (p : Packet), s.pkgBuff[id]? = some p → ∃ r, newJID p.envelope.to_ = .ok r
  connClosed : s.connClosed = true ↔ s.status.status = .close

def Sound (x : Bytes) (n : Node) : Prop := ∃ s, n.sessions x = some s ∧ s.Sound

theorem sound_newSession (channel sid nodeid : Bytes) : (newSession channel sid nodeid).Sound where
  user h := by cases h
  buffer id p hp := by
    rw [newSession, Std.ExtTreeMap.getElem?_empty] at hp
    cases hp
  connClosed := by simp [newSession]

section Moves

variable {C : Codec} {x : Bytes} {n n' : Node} {s : Session}

theorem closed_self (n : Node) (x : Bytes) (s : Session) : (n.closed x s).sessions x =
    some { s with status := { s.status with status := .close }, connClosed := true } :=
  Function.update_self ..

theorem Move.sound (h : Move C x n n') (hSound : Sound x n) : Sound x n' := by
  obtain ⟨s₀, hs₀, hOld⟩ := hSound
  cases h with
  | work s s' hs hs' _ hWorks =>
    cases hs₀.symm.trans hs
    refine ⟨s', hs', ?_, ?_, ?_⟩
    · rw [hWorks.status]
      exact hOld.user
    · intro id p hp
      rcases hWorks.buffer id p hp with hKept | hNew
      · exact hOld.buffer id p hKept
      · exact hNew
    · rw [hWorks.connClosed, hWorks.status]
      exact hOld.connClosed
  | login s s' hs hs' _ hLogs =>
    cases hs₀.symm.trans hs
    refine ⟨s', hs', fun _ => hLogs.user, ?_, ?_⟩
    · rw [hLogs.buffer]
      exact hOld.buffer
    · rw [hLogs.connClosed, hOld.connClosed, hLogs.conn, hLogs.login]
      decide
  | close s hs hShuts =>
    cases hs₀.symm.trans hs
    obtain ⟨order, _, _, rfl⟩ := hShuts.stored
    refine ⟨_, closed_self n x s₀, ?_, hOld.buffer, fun _ => rfl, fun _ => rfl⟩
    intro hLogin
    cases hLogin

/-- From a sound session on, the change is made of moves. -/
def Moves (C : Codec) (x : Bytes) (n n' : Node) : Prop :=
  Sound x n → ReflTransGen (Move C x) n n'

theorem sound_of_moves (h : ReflTransGen (Move C x) n n') (hSound : Sound x n) : Sound x n' := by
  induction h with
  | refl => exact hSound
  | tail _ hMove ih => exact hMove.sound ih

instance : Std.Refl (Moves C x) where
  refl _ _ := .refl

instance : IsTrans Node (Moves C x) where
  trans _ _ _ h h' hSound := (h hSound).trans (h' (sound_of_moves (h hSound) hSound))

/-! ## Functions of a session -/

/-- A change of the session's own data. -/
theorem Moves.updateSession {f : Session → Session} (hStatus : ∀ s, (f s).status = s.status)
    (hConn : ∀ s, (f s).connClosed = s.connClosed)
    (hBuffer : ∀ s, n.sessions x = some s → ∀ (id : Bytes) (p : Packet), (f s).pkgBuff[id]? = some p →
      s.pkgBuff[id]? = some p ∨ s.status.status ≠ .close ∧ ∃ r, newJID p.envelope.to_ = .ok r) :
    Moves C x n (n.updateSession x f) := by
  rintro ⟨s, hs, _⟩
  have hs' : (n.updateSession x f).sessions x = some (f s) := by
    rw [Node.updateSession_self, hs, Option.map_some]
  refine .single (.work s (f s) hs hs' ⟨fun y hy => Node.updateSession_of_ne n hy f, rfl⟩ ?_)
  refine ⟨hStatus s, hConn s, rfl, ?_, fun hClose => ⟨rfl, rfl, ?_, .inl rfl⟩⟩
  · intro id p hp
    exact (hBuffer s hs id p hp).imp_right And.right
  · intro id p hp
    exact (hBuffer s hs id p hp).resolve_right fun hNew => hNew.1 hClose

/-- A change elsewhere on the node. -/
theorem Moves.elsewhere (hSessions : n'.sessions = n.sessions) (hMap : n'.sessionMap = n.sessionMap)
    (hClean : n'.cleanSession = n.cleanSession)
    (hClosed : ∀ s, n.sessions x = some s → s.status.status = .close → Idle n n' s s) :
    Moves C x n n' := by
  rintro ⟨s, hs, _⟩
  refine .single (.work s s hs (by rw [hSessions, hs]) ⟨fun y _ => by rw [hSessions], hMap⟩ ?_)
  exact ⟨rfl, rfl, hClean, fun _ _ hp => .inl hp, hClosed s hs⟩

theorem moves_sendMessage (data : Written) : Keeps (Moves C x) (sendMessage x data) :=
  fun _ => .updateSession (fun _ => rfl) (fun _ => rfl) fun _ _ _ _ hp => .inl hp

theorem moves_aside {ds : List Dispatch} (h : Aside ds) : Keeps (Moves C x) (modify fun n => n.send ds) :=
  fun _ => .elsewhere rfl rfl rfl fun _ _ _ => ⟨rfl, rfl, fun _ _ hp => hp, .inr ⟨ds, h, rfl⟩⟩

theorem storeAll_eq {order : List Packet} (h : ∀ p ∈ order, ∃ r, newJID p.envelope.to_ = .ok r)
    (n : Node) :
    order.forM (storePacket C) n = .done () { n with db := storeIn C n.db order } := by
  induction order generalizing n with
  | nil => rfl
  | cons p order ih =>
    obtain ⟨r, hr⟩ := h p List.mem_cons_self
    have hFirst : (p :: order).forM (storePacket C) n =
        order.forM (storePacket C) (n.send (offlineWrites C r p)) := bind_done (storePacket_ok hr n) _
    rw [hFirst, ih fun q hq => h q (List.mem_cons_of_mem p hq)]
    simp only [storeIn, List.foldl_cons, hr, Except.toOption, Option.map_some, Option.getD_some, Node.send]

theorem closeSession_eq (hs : n.sessions x = some s) (hSound : s.Sound)
    (hOpen : s.status.status ≠ .close) (env : Env) : closeSession C x env n = .done ()
      { n.closed x s with
        db := storeIn C (dropEntry n.db s.status) (env.visit (s.pkgBuff.toList.map Prod.snd)) } := by
  rw [closeSession_of_open C hs hOpen hSound.user, pkgBuffToStore,
    storeAll_eq fun p hp => visit_addressed hSound.buffer hp]
  rfl

theorem moves_closeSession (env : Env) : Keeps (Moves C x) (closeSession C x env) := by
  rintro n ⟨s, hs, hSound⟩
  by_cases hClose : s.status.status = .close
  · rw [closeSession_of_close C hs hClose]
    exact .refl
  have hConn : s.connClosed = false := by
    rw [Bool.eq_false_iff, ne_eq, hSound.connClosed]
    exact hClose
  rw [closeSession_eq hs hSound hClose]
  exact .single (.close s hs ⟨hClose, hConn, hSound.user, _, env.visit_perm _,
    fun p hp => visit_addressed hSound.buffer hp, rfl⟩)

theorem moves_serverAck (packet : Packet) : Keeps (Moves C x) (serverAck x packet) := by
  refine (keeps_session x).bind fun s => (Keeps.deref _).bind fun jid => (Keeps.read _).bind fun found => ?_
  cases found with
  | some ids => exact moves_aside (.acked _ ids)
  | none =>
    intro n
    refine .updateSession (fun _ => rfl) (fun _ => rfl) fun s _ id p hp => ?_
    rw [Std.ExtTreeMap.getElem?_erase] at hp
    split at hp
    · cases hp
    · exact .inl hp

/-- A session that is not closed may send to the database and put on the router what it wants. -/
theorem Moves.of_open (hOpen : ∀ s, n.sessions x = some s → s.status.status ≠ .close)
    (hSessions : n'.sessions = n.sessions) (hMap : n'.sessionMap = n.sessionMap)
    (hClean : n'.cleanSession = n.cleanSession) : Moves C x n n' :=
  .elsewhere hSessions hMap hClean fun s hs hClose => absurd hClose (hOpen s hs)

theorem moves_routePacket (packet : Packet) : Keeps (Moves C x) (routePacket C x packet) := by
  intro n
  refine rel_bind (keeps_routeDecide x packet n) fun d m hDecide => ?_
  obtain ⟨rfl, hDecided⟩ := routeDecide_done hDecide
  rcases hDecided with rfl | ⟨s, j, r, hs, hLogin, _, hr, hCase⟩
  · exact Std.Refl.refl m
  have hOpen : ∀ s, m.sessions x = some s → s.status.status ≠ .close := by
    intro s' hs' hClose
    cases hs.symm.trans hs'
    rw [hLogin] at hClose
    cases hClose
  cases d with
  | ignore => exact Std.Refl.refl m
  | toMe =>
    have hAdd : Moves C x m (pkgBuffAdd x packet m).state := by
      refine .updateSession (fun _ => rfl) (fun _ => rfl) fun s hs id p hp => ?_
      rw [Std.ExtTreeMap.getElem?_insert] at hp
      split at hp
      · cases hp
        exact .inr ⟨hOpen s hs, r, hr⟩
      · exact .inl hp
    exact rel_bind hAdd fun _ t _ => moves_sendMessage _ t
  | notify e => exact moves_sendMessage _ m
  | route ss =>
    obtain ⟨router, hRoute⟩ := route_router m
      { channel := ss.channel, sid := ss.sid, packet := some packet, signal := 0 }
    simp only [routeAct, modify_apply, Outcome.state_done, hRoute]
    exact .of_open hOpen rfl rfl rfl
  | store =>
    simp only [routeAct, storePacket_ok hr, Outcome.state_done]
    exact .of_open hOpen rfl rfl rfl

theorem moves_verify (hs : n.sessions x = some s) (hConn : s.status.status = .conn) (frame : Bytes)
    (env : Env) : Moves C x n (verify C x frame env n).state := by
  have hSend : ∀ data : Written, data.isOwn = true → Keeps (Moves C x) (sendMessage x data) :=
    fun data _ => moves_sendMessage data
  have hAuth := fun packet jid => verified_keeps hSend moves_closeSession packet jid env
  refine rel_bind (verifyGet_keeps hSend moves_closeSession frame env n) fun found m hGet => ?_
  match found with
  | none => exact Std.Refl.refl m
  | some (packet, jid, none) => exact hAuth packet jid m
  | some (packet, jid, some ss) =>
    -- the kill of another session is routed while this one is still in `conn`
    obtain ⟨rfl, _⟩ := verifyGet_done hGet
    have hKill : Moves C x m (verifyKill ss m).state := by
      obtain ⟨router, hRoute⟩ := route_router m
        { channel := ss.channel, sid := ss.sid, packet := none, signal := killSignal }
      simp only [verifyKill, modify_apply, Outcome.state_done, hRoute]
      refine .of_open (fun s' hs' hClose => ?_) rfl rfl rfl
      cases hs.symm.trans hs'
      rw [hConn] at hClose
      cases hClose
    exact rel_bind hKill fun _ t _ => hAuth packet jid t

theorem moves_openSession (hs : n.sessions x = some s) (hConn : s.status.status = .conn) (frame : Bytes)
    (env : Env) : Moves C x n (openSession C x frame env n).state := by
  have hVerify := moves_verify (C := C) hs hConn frame env
  cases hResult : verify C x frame env n with
  | panic m =>
    rw [hResult] at hVerify
    unfold openSession
    rw [bind_panic hResult]
    exact hVerify
  | done found m =>
    rw [hResult] at hVerify
    match found with
    | none =>
      unfold openSession
      rw [bind_done hResult]
      exact hVerify
    | some packet =>
      obtain ⟨⟨router, rfl⟩, j, hj⟩ := verify_done hResult
      rw [openSession_of_verify hResult hs hj]
      refine IsTrans.trans _ _ _ hVerify ?_
      rintro -
      refine .single (.login s _ hs (Function.update_self ..) ⟨?_, rfl⟩
        ⟨hConn, rfl, rfl, ⟨j, hj⟩, rfl, rfl, rfl⟩)
      intro y hy
      exact Function.update_of_ne hy ..

theorem moves_handleRequest (env : Env) (r : Request) : Keeps (Moves C x) (handleRequest C x env r) :=
  handleRequest_keeps (fun data _ => moves_sendMessage data) moves_closeSession
    (fun gid domain us => moves_aside (.members gid domain us)) moves_serverAck moves_routePacket env r

theorem moves_handleFrame (i : Input) : Keeps (Moves C x) (handleFrame C x i) := by
  intro n
  refine rel_bind (keeps_session x n) fun s m hSession => ?_
  obtain ⟨hs, rfl⟩ := Node.session_eq_done_iff.mp hSession
  split
  · rename_i hConn
    exact moves_openSession hs hConn i.frame i.env
  · split
    · exact heartbeat_keeps (fun data _ => moves_sendMessage data) m
    · exact moves_handleRequest i.env _ m

theorem moves_packetHandler (result : ReadPacketResult) :
    Keeps (Moves C x) (packetHandler C x result) := by
  cases result with
  | packets inputs => exact Keeps.recover (Keeps.forM fun i _ => moves_handleFrame i)
  | error err env =>
    refine Keeps.recover ((keeps_session x).bind fun s => ?_)
    split
    · exact moves_closeSession env
    · exact Keeps.pure _

end Moves

/-! ## Whole lives -/

inductive Event where
  | result (r : ReadPacketResult)
  | route (packet : Packet)
  | kill (env : Env)
  | close (env : Env)

def Event.run (C : Codec) (x : Bytes) : Event → Prog Node Unit
  | .result r => packetHandler C x r
  | .route packet => routePacket C x packet
  | .kill env => Sara.kill C x env
  | .close env => closeSession C x env

theorem moves_event (C : Codec) (x : Bytes) (e : Event) : Keeps (Moves C x) (e.run C x) := by
  cases e with
  | result r => exact moves_packetHandler r
  | route packet => exact moves_routePacket packet
  | kill env => exact kill_keeps (fun data _ => moves_sendMessage data) moves_closeSession env
  | close env => exact moves_closeSession env

/-- What happens on the node between two events: the database, the router, the caches and the
other sessions may change in any way. -/
structure Between (x : Bytes) (m m' : Node) : Prop where
  session : m'.sessions x = m.sessions x
  cleanSession : m'.cleanSession = m.cleanSession

/-- The states after each event, whichever way it ends. -/
inductive Lived (C : Codec) (x : Bytes) (n : Node) : Node → Prop
  | new : Lived C x n n
  | event {m m' : Node} (e : Event) :
      Lived C x n m → Between x m m' → Lived C x n (e.run C x m').state

/-- The ids sent to be cleaned since `n`, and the status that goes with them. -/
def Cleaned (x : Bytes) (n m : Node) (sid : Bytes) : Prop :=
  ∃ s, m.sessions x = some s ∧ s.status.sid = sid ∧
    m.cleanSession = n.cleanSession ++ if s.status.status = .close then [sid] else []

theorem Cleaned.move {C : Codec} {x sid : Bytes} {n m m' : Node} (h : Cleaned x n m sid)
    (hMove : Move C x m m') : Cleaned x n m' sid := by
  obtain ⟨s₀, hs₀, hSid, hClean⟩ := h
  cases hMove with
  | work s s' hs hs' _ hWorks =>
    cases hs₀.symm.trans hs
    refine ⟨s', hs', ?_, ?_⟩
    · rw [hWorks.status, hSid]
    · rw [hWorks.cleanSession, hWorks.status, hClean]
  | login s s' hs hs' _ hLogs =>
    cases hs₀.symm.trans hs
    refine ⟨s', hs', hLogs.sid.trans hSid, ?_⟩
    rw [hLogs.cleanSession, hClean, hLogs.conn, hLogs.login]
    rfl
  | close s hs hShuts =>
    cases hs₀.symm.trans hs
    obtain ⟨order, _, _, rfl⟩ := hShuts.stored
    refine ⟨_, closed_self m x s₀, hSid, ?_⟩
    rw [if_neg hShuts.isOpen, List.append_nil] at hClean
    simp only [Node.closed, hClean, hSid]
    rfl

theorem routePacket_closed {C : Codec} {x : Bytes} {m : Node} {s : Session} (hs : m.sessions x = some s)
    (hClose : s.status.status = .close) (p : Packet) : routePacket C x p m = .done () m := by
  have hIgnore : routeDecide C x p m = .done .ignore m := by
    unfold routeDecide
    rw [bind_done (Node.session_eq hs), hClose]
    rfl
  unfold routePacket
  rw [bind_done hIgnore]
  rfl

section Lived

variable {C : Codec} {x : Bytes} {n m m' : Node} {channel sid nodeid : Bytes}

theorem Between.kept (h : Between x m m') (hKept : Sound x m ∧ Cleaned x n m sid) :
    Sound x m' ∧ Cleaned x n m' sid := by
  obtain ⟨⟨s, hs, hSound⟩, s', hs', hSid, hClean⟩ := hKept
  exact ⟨⟨s, h.session.trans hs, hSound⟩, s', h.session.trans hs', hSid, h.cleanSession.trans hClean⟩

theorem cleaned_of_moves (h : ReflTransGen (Move C x) m m') (hCleaned : Cleaned x n m sid) :
    Cleaned x n m' sid := by
  induction h with
  | refl => exact hCleaned
  | tail _ hMove ih => exact ih.move hMove

theorem Lived.kept (h : Lived C x n m) (hNew : n.sessions x = some (newSession channel sid nodeid)) :
    Sound x m ∧ Cleaned x n m sid := by
  induction h with
  | new =>
    exact ⟨⟨_, hNew, sound_newSession channel sid nodeid⟩, _, hNew, rfl, (List.append_nil _).symm⟩
  | event e _ hBetween ih =>
    have hKept := hBetween.kept ih
    have hMoves := moves_event C x e _ hKept.1
    exact ⟨sound_of_moves hMoves hKept.1, cleaned_of_moves hMoves hKept.2⟩

/-- From its creation on, whatever is called on it, a session only works, logs on and closes;
its connection is closed and its id sent to be cleaned just if it is closed, and once; and a
closed session routes nothing. -/
theorem lifecycle (hNew : n.sessions x = some (newSession channel sid nodeid)) (h : Lived C x n m) :
    (∀ (m' : Node) (e : Event), Between x m m' → ReflTransGen (Move C x) m' (e.run C x m').state) ∧
    (∃ s, m.sessions x = some s ∧ (s.connClosed = true ↔ s.status.status = .close) ∧
      m.cleanSession = n.cleanSession ++ if s.status.status = .close then [sid] else []) ∧
    ∀ (m' : Node) (s : Session) (p : Packet), m'.sessions x = some s → s.status.status = .close →
      routePacket C x p m' = .done () m' := by
  have hKept := h.kept hNew
  refine ⟨fun m' e hBetween => moves_event C x e m' (hBetween.kept hKept).1, ?_, ?_⟩
  · obtain ⟨⟨s, hs, hSound⟩, s', hs', _, hClean⟩ := hKept
    cases hs.symm.trans hs'
    exact ⟨s, hs, hSound.connClosed, hClean⟩
  · intro m' s p hs hClose
    exact routePacket_closed hs hClose p

def freshNode : Node where
  __ := bareNode
  sessions := Function.update (fun _ => none) (text "s1")
    (some (newSession (text "node01:4281") (text "s1") (text "node01")))

/-- Bob logs in, a message for bob is written and kept, and the session is closed. -/
def bobsLife : List Event :=
  [.result (.packets [⟨PlainJson.writeFrame { id := text "1", jid := text "bob@a.com" }, Env.plain true⟩]),
    .route (PlainJson.received GoJson.toBob), .close (Env.plain true)]

def bobAfter (events : List Event) : Node :=
  events.foldl (fun m e => (e.run PlainJson.codec (text "s1") m).state) freshNode

theorem lived_bobAfter (events : List Event) :
    Lived PlainJson.codec (text "s1") freshNode (bobAfter events) := by
  induction events using List.reverseRecOn with
  | nil => exact .new
  | append_singleton events e ih =>
    rw [bobAfter, List.foldl_concat]
    exact .event e ih ⟨rfl, rfl⟩

/-- At the close the entry is removed and the kept message stored, once each. -/
theorem lifecycle_closed :
    ((bobAfter (bobsLife.take 2)).sessions (text "s1")).map
      (fun s => (s.status.status, s.pkgBuff.toList.map (·.1))) = some (.login, [text "m1"]) ∧
    ReflTransGen (Move PlainJson.codec (text "s1")) (bobAfter (bobsLife.take 2)) (bobAfter bobsLife) ∧
    (bobAfter bobsLife).db.pending.map (·.key) =
      [text "offline_bob@a.com_idx", text "m1", text "node01_idx", text "session_bob@a.com"] ∧
    ∃ s, (bobAfter bobsLife).sessions (text "s1") = some s ∧ (s.connClosed = true ↔ s.status.status = .close) ∧
      (bobAfter bobsLife).cleanSession = [] ++ if s.status.status = .close then [text "s1"] else [] := by
  have hNew : freshNode.sessions (text "s1") =
      some (newSession (text "node01:4281") (text "s1") (text "node01")) := by
    simp [freshNode]
  exact ⟨by decide +kernel,
    (lifecycle hNew (lived_bobAfter (bobsLife.take 2))).1 _ (.close (Env.plain true)) ⟨rfl, rfl⟩,
    by decide +kernel, (lifecycle hNew (lived_bobAfter bobsLife)).2.1⟩

end Lived

end Sara
