import Sara.Core.Session
import Sara.Lib.Transition

/-! # A node as an interleaved system

Each connection has a goroutine that handles one frame after another, the router
has workers that take items off its queue, the database has workers that execute
queued commands, and sessions are registered and cleaned up on the side. One
action is one step of one of them, up to its next access to shared state. The
steps are the parts the functions of a session are made of, and `run_frame` says
that a frame handled without interference is handled as by `handleFrame`.
-/

namespace Sara.Concurrent

open Lib Lib.Prog Lib.Transition Saradb

set_option autoImplicit false

/-- What the goroutine of a connection does next. -/
inductive Pc where
  | idle
  | kill (packet : Packet) (jid : JID) (ss : SessionStatus)
  | auth (packet : Packet) (jid : JID)
  | logon (packet : Packet)
  | fetch (packet : Packet)
  | publish (reply : Packet)
  | storing (ds : List Dispatch) (reply : Packet)
  | routing (packets : List Packet)
  | acting (packet : Packet) (d : Decision) (packets : List Packet)
deriving DecidableEq

/-- What a router worker does next. -/
inductive Hand where
  | free
  | item (it : RouterItem)
  | found (it : RouterItem)
  | acting (x : Bytes) (packet : Packet) (d : Decision)
deriving DecidableEq

def Hand.packet : Hand → Option Packet
  | .item it | .found it => it.packet
  | .acting _ p _ => some p
  | .free => none

/-- `dispatching` are the sessions whose dispatcher has not registered them yet. -/
structure System where
  node : Node
  pc : Bytes → Pc
  hands : Nat → Hand
  dispatching : Bytes → Bool
  crashed : Bool

inductive Action where
  | connect (x : Bytes)
  | register (x : Bytes)
  | clean
  | recv (x : Bytes) (i : Input)
  | go (x : Bytes) (env : Env)
  | close (x : Bytes) (env : Env)
  | take (w : Nat)
  | work (w : Nat) (env : Env)
  | dtake (ch : Chan)
  | dexec (ch : Chan) (i : Nat)

def start (nodeid channel : Bytes) (st : Store) : System where
  node :=
    { nodeid := nodeid
      channel := channel
      sessions := fun _ => none
      sessionMap := fun _ => false
      cleanSession := []
      db := Database.start st
      router := []
      oflCache := fun _ => none
      published := [] }
  pc _ := .idle
  hands _ := .free
  dispatching _ := false
  crashed := false

variable (C : Codec)

/-- A frame up to the first place where others can run. -/
def begin (x : Bytes) (i : Input) : Prog Node Pc := do
  let s ← Node.session x
  if s.status.status = .conn then
    match ← verifyGet C x i.frame i.env with
    | none => return .idle
    | some (packet, jid, some ss) => return .kill packet jid ss
    | some (packet, jid, none) => return .auth packet jid
  else if i.frame = [heartBeat] then
    heartbeat x
    return .idle
  else
    match request C i with
    | .ack packet =>
      serverAck x packet
      return .idle
    | .group packet =>
      match ← generateGroupPackets packet i.env with
      | .ok packets =>
        answer x (newPacketAck packet.envelope.id i.env.timestamp13)
        return .routing packets
      | .error gerr =>
        answer x (newPacketSysNotify packet.envelope.id gerr)
        return .idle
    | .chat packet =>
      if packet.envelope.ack ≠ 0 then answer x (newPacketAck packet.envelope.id i.env.timestamp13)
      return .routing [packet]
    | .bad err =>
      answer x (newPacketSysNotify (i.env.uuid 0) err)
      closeSession C x i.env
      return .idle

/-- One command of a call; a direct command that fails ends the call. -/
def sendNext (d : Dispatch) (ds : List Dispatch) : Prog Node (List Dispatch) := fun n =>
  match n.db.sendOne d with
  | none => .done [] n
  | some db => .done ds { n with db := db }

def next (x : Bytes) (env : Env) : Pc → Prog Node Pc
  | .idle => return .idle
  | .kill packet jid ss => do
    verifyKill ss
    return .auth packet jid
  | .auth packet jid => do
    if ← verifyAuth C x packet jid env then return .logon packet else return .idle
  | .logon packet => do
    logon x packet env
    return .fetch packet
  | .fetch packet => do
    let reply ← loginReply C x packet
    return .publish reply
  | .publish reply => do
    let ds ← statusWrites C x
    return .storing ds reply
  | .storing [] reply => do
    answer x reply
    return .idle
  | .storing (d :: ds) reply => do
    let rest ← sendNext d ds
    return .storing rest reply
  | .routing [] => return .idle
  | .routing (packet :: packets) => do
    let d ← routeDecide C x packet
    return .acting packet d packets
  | .acting packet d packets => do
    routeAct C x packet d
    return .routing packets

/-- A worker of the router. An item for another node goes to the data channel, and
is stored here when that fails. -/
def work (env : Env) : Hand → Prog Node Hand
  | .free => return .free
  | .item it => do
    let n ← read id
    if it.channel = [] ∨ it.channel = n.channel then
      if n.sessionMap it.sid then return .found it else return .free
    else
      let packet ← deref (it.packet.elim (.error ()) .ok : Except Unit Packet)
      if env.publish it.channel then
        modify fun n => { n with published := n.published ++ [(it.channel, packet)] }
      else storePacket C packet
      return .free
  | .found it => do
    if it.signal ≠ 0 then
      if it.signal = killSignal then kill C it.sid env
      return .free
    else
      let packet ← deref (it.packet.elim (.error ()) .ok : Except Unit Packet)
      let d ← routeDecide C it.sid packet
      return .acting it.sid packet d
  | .acting x packet d => do
    routeAct C x packet d
    return .free

/-- The handler of a connection recovers from a panic and drops the frame. -/
def System.session (s : System) (x : Bytes) (m : Prog Node Pc) : System :=
  match m s.node with
  | .done pc n => { s with node := n, pc := Function.update s.pc x pc }
  | .panic n => { s with node := n, pc := Function.update s.pc x .idle }

/-- A router worker does not recover. -/
def System.worker (s : System) (w : Nat) (m : Prog Node Hand) : System :=
  match m s.node with
  | .done hand n => { s with node := n, hands := Function.update s.hands w hand }
  | .panic n => { s with node := n, crashed := true }

def routerWorkerNum : Nat := 500

def step (consumers : Nat) (s : System) (a : Action) : Option System :=
  if s.crashed then none
  else
    match a with
    | .connect x =>
      if isUuid x ∧ s.node.sessions x = none then
        some { s with
          node := { s.node with
            sessions := Function.update s.node.sessions x
              (some (newSession s.node.channel x s.node.nodeid)) }
          dispatching := Function.update s.dispatching x true }
      else none
    | .register x =>
      if s.dispatching x then
        some { s with
          node := { s.node with sessionMap := Function.update s.node.sessionMap x true }
          dispatching := Function.update s.dispatching x false }
      else none
    | .clean =>
      match s.node.cleanSession with
      | [] => none
      | sid :: rest =>
        some { s with node := { s.node with
          cleanSession := rest
          sessionMap := Function.update s.node.sessionMap sid false } }
    | .recv x i =>
      if s.pc x = .idle ∧ (s.node.sessions x).isSome then some (s.session x (begin C x i)) else none
    | .go x env => if s.pc x ≠ .idle then some (s.session x (next C x env (s.pc x))) else none
    | .close x env =>
      if (s.node.sessions x).isSome then
        some { s with node := (closeSession C x env s.node).state }
      else none
    | .take w =>
      match s.node.router with
      | [] => none
      | it :: rest =>
        if w < routerWorkerNum ∧ s.hands w = .free then
          some { s with
            node := { s.node with router := rest }
            hands := Function.update s.hands w (.item it) }
        else none
    | .work w env => if s.hands w ≠ .free then some (s.worker w (work C env (s.hands w))) else none
    | .dtake ch =>
      (s.node.db.take consumers ch).map fun db => { s with node := { s.node with db := db } }
    | .dexec ch i =>
      (s.node.db.execHeld ch i).map fun db => { s with node := { s.node with db := db } }

inductive Stepped (consumers : Nat) (s : System) : Action → System → Prop where
  | connect (x : Bytes) (hSid : isUuid x) (hNew : s.node.sessions x = none) :
    Stepped consumers s (.connect x) { s with
      node := { s.node with
        sessions := Function.update s.node.sessions x
          (some (newSession s.node.channel x s.node.nodeid)) }
      dispatching := Function.update s.dispatching x true }
  | register (x : Bytes) (hDispatching : s.dispatching x = true) :
    Stepped consumers s (.register x) { s with
      node := { s.node with sessionMap := Function.update s.node.sessionMap x true }
      dispatching := Function.update s.dispatching x false }
  | clean (sid : Bytes) (rest : List Bytes) (hQueue : s.node.cleanSession = sid :: rest) :
    Stepped consumers s .clean { s with node := { s.node with
      cleanSession := rest
      sessionMap := Function.update s.node.sessionMap sid false } }
  | recv (x : Bytes) (i : Input) (hIdle : s.pc x = .idle) (sess : Session)
      (hs : s.node.sessions x = some sess) :
    Stepped consumers s (.recv x i) (s.session x (begin C x i))
  | go (x : Bytes) (env : Env) (hBusy : s.pc x ≠ .idle) :
    Stepped consumers s (.go x env) (s.session x (next C x env (s.pc x)))
  | close (x : Bytes) (env : Env) (sess : Session) (hs : s.node.sessions x = some sess) :
    Stepped consumers s (.close x env) { s with node := (closeSession C x env s.node).state }
  | take (w : Nat) (it : RouterItem) (rest : List RouterItem) (hRouter : s.node.router = it :: rest)
      (hWorker : w < routerWorkerNum) (hFree : s.hands w = .free) :
    Stepped consumers s (.take w) { s with
      node := { s.node with router := rest }
      hands := Function.update s.hands w (.item it) }
  | work (w : Nat) (env : Env) (hBusy : s.hands w ≠ .free) :
    Stepped consumers s (.work w env) (s.worker w (work C env (s.hands w)))
  | dtake (ch : Chan) (db : Database) (hTake : s.node.db.take consumers ch = some db) :
    Stepped consumers s (.dtake ch) { s with node := { s.node with db := db } }
  | dexec (ch : Chan) (i : Nat) (db : Database) (hExec : s.node.db.execHeld ch i = some db) :
    Stepped consumers s (.dexec ch i) { s with node := { s.node with db := db } }

theorem stepped_of_step {consumers : Nat} {s t : System} {a : Action}
    (h : step C consumers s a = some t) : Stepped C consumers s a t := by
  unfold step at h
  split at h
  · cases h
  cases a with
  | connect x =>
    obtain ⟨hNew, hEq⟩ := Option.ite_none_right_eq_some.mp h
    cases hEq
    exact .connect x hNew.1 hNew.2
  | register x =>
    obtain ⟨hDispatching, hEq⟩ := Option.ite_none_right_eq_some.mp h
    cases hEq
    exact .register x hDispatching
  | clean =>
    cases hClean : s.node.cleanSession with
    | nil =>
      simp only [hClean] at h
      cases h
    | cons sid rest =>
      simp only [hClean] at h
      cases h
      exact .clean sid rest hClean
  | recv x i =>
    obtain ⟨⟨hIdle, hSome⟩, hEq⟩ := Option.ite_none_right_eq_some.mp h
    cases hEq
    obtain ⟨sess, hs⟩ := Option.isSome_iff_exists.mp hSome
    exact .recv x i hIdle sess hs
  | go x env =>
    obtain ⟨hBusy, hEq⟩ := Option.ite_none_right_eq_some.mp h
    cases hEq
    exact .go x env hBusy
  | close x env =>
    obtain ⟨hSome, hEq⟩ := Option.ite_none_right_eq_some.mp h
    cases hEq
    obtain ⟨sess, hs⟩ := Option.isSome_iff_exists.mp hSome
    exact .close x env sess hs
  | take w =>
    cases hRouter : s.node.router with
    | nil =>
      simp only [hRouter] at h
      cases h
    | cons it rest =>
      simp only [hRouter] at h
      obtain ⟨hWorker, hEq⟩ := Option.ite_none_right_eq_some.mp h
      cases hEq
      exact .take w it rest hRouter hWorker.1 hWorker.2
  | work w env =>
    obtain ⟨hBusy, hEq⟩ := Option.ite_none_right_eq_some.mp h
    cases hEq
    exact .work w env hBusy
  | dtake ch =>
    obtain ⟨db, hTake, rfl⟩ := Option.map_eq_some_iff.mp h
    exact .dtake ch db hTake
  | dexec ch i =>
    obtain ⟨db, hExec, rfl⟩ := Option.map_eq_some_iff.mp h
    exact .dexec ch i db hExec

/-! ## A frame without interference -/

def afterFetch (x : Bytes) (reply : Packet) : Prog Node Unit := do
  storeSessionStatus C x
  answer x reply

def afterLogon (x : Bytes) (packet : Packet) : Prog Node Unit := do
  let reply ← loginReply C x packet
  afterFetch C x reply

def afterAuth (x : Bytes) (env : Env) (packet : Packet) : Prog Node Unit := do
  logon x packet env
  afterLogon C x packet

def afterKill (x : Bytes) (env : Env) (packet : Packet) (jid : JID) : Prog Node Unit := do
  if ← verifyAuth C x packet jid env then afterAuth C x env packet else return ()

def finish (x : Bytes) (env : Env) : Pc → Prog Node Unit
  | .idle => return ()
  | .kill packet jid ss => do
    verifyKill ss
    afterKill C x env packet jid
  | .auth packet jid => afterKill C x env packet jid
  | .logon packet => afterAuth C x env packet
  | .fetch packet => afterLogon C x packet
  | .publish reply => afterFetch C x reply
  | .storing ds reply => do
    modify fun n => n.send ds
    answer x reply
  | .routing packets => packets.forM (routePacket C x)
  | .acting packet d packets => do
    routeAct C x packet d
    packets.forM (routePacket C x)

theorem sendNext_send (d : Dispatch) (ds : List Dispatch) :
    (sendNext d ds >>= fun rest => Prog.modify fun n : Node => n.send rest) =
      Prog.modify fun n => n.send (d :: ds) := by
  funext n
  rw [bind_apply]
  unfold sendNext
  cases hSend : n.db.sendOne d with
  | none => simp [Node.send, Database.send, hSend]
  | some db => simp [Node.send, Database.send, hSend]

/-- The rest of a frame is its next step and then the rest. -/
theorem next_finish (x : Bytes) (env : Env) (pc : Pc) :
    (next C x env pc >>= finish C x env) = finish C x env pc := by
  match pc with
  | .idle | .routing [] => rfl
  | .kill packet jid ss => simp only [next, finish, bind_assoc, pure_bind]
  | .auth packet jid =>
    simp only [next, finish, afterKill, bind_assoc]
    congr
    funext ok
    cases ok with
    | true => rfl
    | false => rfl
  | .logon packet => simp only [next, finish, afterAuth, bind_assoc, pure_bind]
  | .fetch packet => simp only [next, finish, afterLogon, bind_assoc, pure_bind]
  | .publish reply =>
    simp only [next, finish, afterFetch, storeSessionStatus, bind_assoc, pure_bind]
  | .storing [] reply =>
    simp only [next, finish, bind_assoc, pure_bind]
    rfl
  | .storing (d :: ds) reply =>
    simp only [next, finish, bind_assoc, pure_bind]
    rw [← sendNext_send, bind_assoc]
  | .routing (packet :: packets) =>
    simp only [next, finish, bind_assoc, pure_bind]
    rw [← bind_assoc]
    rfl
  | .acting packet d packets => simp only [next, finish, bind_assoc, pure_bind]

theorem openSession_eq (x frame : Bytes) (env : Env) :
    openSession C x frame env = (do
      match ← verifyGet C x frame env with
      | none => return ()
      | some (packet, jid, some ss) => finish C x env (.kill packet jid ss)
      | some (packet, jid, none) => finish C x env (.auth packet jid)) := by
  unfold openSession verify
  rw [bind_assoc]
  congr
  funext r
  match r with
  | none => rfl
  | some (packet, jid, some ss) =>
    simp only [finish, afterKill, bind_assoc]
    congr
    funext _
    congr
    funext ok
    cases ok with
    | true => rfl
    | false => rfl
  | some (packet, jid, none) =>
    simp only [finish, afterKill, bind_assoc]
    congr
    funext ok
    cases ok with
    | true => rfl
    | false => rfl

/-- A frame is its first part and then the rest. -/
theorem begin_finish (x : Bytes) (i : Input) :
    (begin C x i >>= finish C x i.env) = handleFrame C x i := by
  unfold begin handleFrame
  rw [bind_assoc]
  congr
  funext s
  split
  · rw [openSession_eq, bind_assoc]
    congr
    funext r
    match r with
    | none => rfl
    | some (_, _, some _) => rfl
    | some (_, _, none) => rfl
  · split
    · simp only [bind_assoc, pure_bind, finish]
      exact bind_pure_unit _
    · cases request C i with
      | ack packet =>
        simp only [bind_assoc, pure_bind, finish, handleRequest]
        exact bind_pure_unit _
      | group packet =>
        simp only [handleRequest, bind_assoc]
        congr
        funext r
        cases r with
        | ok packets => simp only [bind_assoc, pure_bind, finish]
        | error gerr =>
          simp only [bind_assoc, pure_bind, finish]
          exact bind_pure_unit _
      | chat packet =>
        have hOne : [packet].forM (routePacket C x) = routePacket C x packet := bind_pure_unit _
        simp only [handleRequest]
        split
        · simp only [bind_assoc, pure_bind, finish, hOne]
        · simp only [pure_bind, finish, hOne]
      | bad err =>
        simp only [bind_assoc, pure_bind, finish, handleRequest]
        congr
        funext _
        exact bind_pure_unit _

def System.settled (s : System) (x : Bytes) (env : Env) : System :=
  { s with
    node := (finish C x env (s.pc x) s.node).state
    pc := Function.update s.pc x .idle }

variable {C} {consumers : Nat} {x : Bytes} {env : Env}

def Settles (C : Codec) (consumers : Nat) (x : Bytes) (env : Env) (s : System) : Prop :=
  ∃ k, run (step C consumers) s (List.replicate k (.go x env)) = some (s.settled C x env)

theorem settles_idle {s : System} (hIdle : s.pc x = .idle) : Settles C consumers x env s := by
  refine ⟨0, ?_⟩
  have hSame : s.settled C x env = s := by
    unfold System.settled
    rw [hIdle, ← hIdle, Function.update_eq_self, hIdle]
    rfl
  rw [hSame]
  rfl

theorem settles_of_next {s : System} (hAlive : s.crashed = false)
    (h : ∀ pc n, next C x env (s.pc x) s.node = .done pc n → ∀ t : System, t.crashed = false →
      t.pc x = pc → Settles C consumers x env t) : Settles C consumers x env s := by
  rcases eq_or_ne (s.pc x) .idle with hIdle | hBusy
  · exact settles_idle hIdle
  have hStep : step C consumers s (.go x env) = some (s.session x (next C x env (s.pc x))) := by
    simp only [step, hAlive, Bool.false_eq_true, if_false]
    rw [if_pos hBusy]
  have hRest := congrFun (next_finish C x env (s.pc x)) s.node
  cases hNext : next C x env (s.pc x) s.node with
  | done pc n =>
    obtain ⟨k, hk⟩ := h pc n hNext { s with node := n, pc := Function.update s.pc x pc } hAlive
      (Function.update_self ..)
    refine ⟨k + 1, ?_⟩
    rw [List.replicate_succ, run_cons, hStep]
    rw [bind_done hNext] at hRest
    simp only [System.session, hNext, Option.bind_some, hk, System.settled, Function.update_self,
      hRest, Function.update_idem]
  | panic n =>
    refine ⟨1, ?_⟩
    rw [List.replicate_one, run_cons, hStep]
    rw [bind_panic hNext] at hRest
    simp only [System.session, hNext, Option.bind_some, run_nil, System.settled, ← hRest,
      Outcome.state_panic]

/-- What the next step can lead to; the frame ends along it. -/
theorem next_done {pc pc' : Pc} {n n' : Node} (h : next C x env pc n = .done pc' n') :
    match pc with
    | .idle | .routing [] | .storing [] _ => pc' = .idle
    | .kill packet jid _ => pc' = .auth packet jid
    | .auth packet _ => pc' = .logon packet ∨ pc' = .idle
    | .logon packet => pc' = .fetch packet
    | .fetch _ => ∃ reply, pc' = .publish reply
    | .publish reply => ∃ ds, pc' = .storing ds reply
    | .storing (_ :: ds) reply => pc' = .storing ds reply ∨ pc' = .storing [] reply
    | .routing (packet :: packets) => ∃ d, pc' = .acting packet d packets
    | .acting _ _ packets => pc' = .routing packets := by
  match pc with
  | .idle | .routing [] => cases h; rfl
  | .kill _ _ _ | .logon _ | .storing [] _ | .acting _ _ _ =>
    obtain ⟨_, _, _, hPure⟩ := bind_eq_done_iff.mp h
    cases hPure
    rfl
  | .auth packet jid =>
    obtain ⟨ok, _, _, hPure⟩ := bind_eq_done_iff.mp h
    cases ok with
    | true => cases hPure; exact .inl rfl
    | false => cases hPure; exact .inr rfl
  | .fetch _ | .publish _ | .routing (_ :: _) =>
    obtain ⟨_, _, _, hPure⟩ := bind_eq_done_iff.mp h
    cases hPure
    exact ⟨_, rfl⟩
  | .storing (d :: ds) reply =>
    obtain ⟨rest, u, hSend, hPure⟩ := bind_eq_done_iff.mp h
    cases hPure
    unfold sendNext at hSend
    split at hSend
    · cases hSend
      exact .inr rfl
    · cases hSend
      exact .inl rfl

theorem settles_storing {s : System} (hAlive : s.crashed = false) {ds : List Dispatch}
    {reply : Packet} (hPc : s.pc x = .storing ds reply) : Settles C consumers x env s := by
  have hNil : ∀ t : System, t.crashed = false → t.pc x = .storing [] reply →
      Settles C consumers x env t := by
    intro t hAlive hPc
    refine settles_of_next hAlive ?_
    intro pc n hNext t' _ hPc'
    rw [hPc] at hNext
    have hIdle : pc = .idle := next_done hNext
    exact settles_idle (hPc'.trans hIdle)
  induction ds generalizing s with
  | nil => exact hNil s hAlive hPc
  | cons d ds ih =>
    refine settles_of_next hAlive ?_
    intro pc n hNext t hAlive' hPc'
    rw [hPc] at hNext
    rcases next_done hNext with hRest | hNone
    · exact ih hAlive' (hPc'.trans hRest)
    · exact hNil t hAlive' (hPc'.trans hNone)

theorem settles_fetch {s : System} (hAlive : s.crashed = false) {packet : Packet}
    (hPc : s.pc x = .fetch packet) : Settles C consumers x env s := by
  refine settles_of_next hAlive ?_
  intro pc n hNext t hAlive' hPc'
  rw [hPc] at hNext
  obtain ⟨reply, hReply⟩ := next_done hNext
  refine settles_of_next hAlive' ?_
  intro pc' n' hNext' t' hAlive'' hPc''
  rw [hPc', hReply] at hNext'
  obtain ⟨ds, hds⟩ := next_done hNext'
  exact settles_storing hAlive'' (hPc''.trans hds)

theorem settles_auth {s : System} (hAlive : s.crashed = false) {packet : Packet} {jid : JID}
    (hPc : s.pc x = .auth packet jid) : Settles C consumers x env s := by
  refine settles_of_next hAlive ?_
  intro pc n hNext t hAlive' hPc'
  rw [hPc] at hNext
  rcases next_done hNext with hLogon | hIdle
  · refine settles_of_next hAlive' ?_
    intro pc' n' hNext' t' hAlive'' hPc''
    rw [hPc', hLogon] at hNext'
    exact settles_fetch hAlive'' (hPc''.trans (next_done hNext'))
  · exact settles_idle (hPc'.trans hIdle)

theorem settles_routing {s : System} (hAlive : s.crashed = false) {packets : List Packet}
    (hPc : s.pc x = .routing packets) : Settles C consumers x env s := by
  induction packets generalizing s with
  | nil =>
    refine settles_of_next hAlive ?_
    intro pc n hNext t _ hPc'
    rw [hPc] at hNext
    have hIdle : pc = .idle := next_done hNext
    exact settles_idle (hPc'.trans hIdle)
  | cons packet packets ih =>
    refine settles_of_next hAlive ?_
    intro pc n hNext t hAlive' hPc'
    rw [hPc] at hNext
    obtain ⟨d, hd⟩ := next_done hNext
    refine settles_of_next hAlive' ?_
    intro pc' n' hNext' t' hAlive'' hPc''
    rw [hPc', hd] at hNext'
    exact ih hAlive'' (hPc''.trans (next_done hNext'))

/-- Once the session has left `conn`, a frame only leads to packets to route. -/
theorem begin_done_of_open {i : Input} {pc : Pc} {n n' : Node} {s : Session}
    (h : begin C x i n = .done pc n') (hs : n.sessions x = some s)
    (hOpen : s.status.status ≠ .conn) : pc = .idle ∨ ∃ packets, pc = .routing packets := by
  unfold begin at h
  rw [bind_done (Node.session_eq hs), if_neg hOpen] at h
  split at h
  · obtain ⟨_, _, _, hPure⟩ := bind_eq_done_iff.mp h
    cases hPure
    exact .inl rfl
  cases hRequest : request C i with
  | ack packet =>
    simp only [hRequest] at h
    obtain ⟨_, _, _, hPure⟩ := bind_eq_done_iff.mp h
    cases hPure
    exact .inl rfl
  | group packet =>
    simp only [hRequest] at h
    obtain ⟨r, _, _, hAnswer⟩ := bind_eq_done_iff.mp h
    cases r with
    | ok packets =>
      obtain ⟨_, _, _, hPure⟩ := bind_eq_done_iff.mp hAnswer
      cases hPure
      exact .inr ⟨packets, rfl⟩
    | error gerr =>
      obtain ⟨_, _, _, hPure⟩ := bind_eq_done_iff.mp hAnswer
      cases hPure
      exact .inl rfl
  | chat packet =>
    simp only [hRequest] at h
    split at h
    · obtain ⟨_, _, _, hPure⟩ := bind_eq_done_iff.mp h
      cases hPure
      exact .inr ⟨[packet], rfl⟩
    · cases h
      exact .inr ⟨[packet], rfl⟩
  | bad err =>
    simp only [hRequest] at h
    obtain ⟨_, _, _, hClose⟩ := bind_eq_done_iff.mp h
    obtain ⟨_, _, _, hPure⟩ := bind_eq_done_iff.mp hClose
    cases hPure
    exact .inl rfl

theorem begin_done {i : Input} {pc : Pc} {n n' : Node} (h : begin C x i n = .done pc n') :
    pc = .idle ∨ (∃ packet jid ss, pc = .kill packet jid ss) ∨
      (∃ packet jid, pc = .auth packet jid) ∨ ∃ packets, pc = .routing packets := by
  have hFrame := h
  unfold begin at h
  obtain ⟨s, u, hSession, hRest⟩ := bind_eq_done_iff.mp h
  obtain ⟨hs, rfl⟩ := Node.session_eq_done_iff.mp hSession
  split at hRest
  · obtain ⟨r, u', _, hPure⟩ := bind_eq_done_iff.mp hRest
    match r with
    | none => cases hPure; exact .inl rfl
    | some (packet, jid, some ss) => cases hPure; exact .inr (.inl ⟨packet, jid, ss, rfl⟩)
    | some (packet, jid, none) => cases hPure; exact .inr (.inr (.inl ⟨packet, jid, rfl⟩))
  · rename_i hOpen
    obtain hIdle | hRouting := begin_done_of_open hFrame hs hOpen
    · exact .inl hIdle
    · exact .inr (.inr (.inr hRouting))

/-- Handling a frame step by step with no one else running is handling it in one go. -/
theorem run_frame {s : System} (hAlive : s.crashed = false) (hIdle : s.pc x = .idle)
    (hSession : (s.node.sessions x).isSome) (i : Input) :
    ∃ k, run (step C consumers) s (.recv x i :: List.replicate k (.go x i.env)) =
      some { s with node := (handleFrame C x i s.node).state } := by
  have hStep : step C consumers s (.recv x i) = some (s.session x (begin C x i)) := by
    simp only [step, hAlive, Bool.false_eq_true, if_false]
    rw [if_pos ⟨hIdle, hSession⟩]
  have hBack : Function.update s.pc x .idle = s.pc := by rw [← hIdle, Function.update_eq_self]
  have hFrame := congrFun (begin_finish C x i) s.node
  cases hBegin : begin C x i s.node with
  | panic n =>
    refine ⟨0, ?_⟩
    rw [bind_panic hBegin] at hFrame
    rw [run_cons, hStep]
    simp only [System.session, hBegin, Option.bind_some, List.replicate_zero, run_nil, hBack,
      ← hFrame, Outcome.state_panic]
  | done pc n =>
    let t : System := { s with node := n, pc := Function.update s.pc x pc }
    have hPc : t.pc x = pc := Function.update_self ..
    have hSettles : Settles C consumers x i.env t := by
      obtain rfl | ⟨packet, jid, ss, rfl⟩ | ⟨packet, jid, rfl⟩ | ⟨packets, rfl⟩ := begin_done hBegin
      · exact settles_idle hPc
      · refine settles_of_next hAlive ?_
        intro pc n' hNext t' hAlive' hPc'
        rw [hPc] at hNext
        exact settles_auth hAlive' (hPc'.trans (next_done hNext))
      · exact settles_auth hAlive hPc
      · exact settles_routing hAlive hPc
    obtain ⟨k, hk⟩ := hSettles
    refine ⟨k, ?_⟩
    rw [bind_done hBegin] at hFrame
    rw [run_cons, hStep]
    simp only [System.session, hBegin, Option.bind_some]
    rw [hk]
    simp only [System.settled, t, Function.update_self, Function.update_idem, hBack, hFrame]

end Sara.Concurrent
