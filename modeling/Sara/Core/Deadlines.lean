import Sara.Core.Lifecycle
import Sara.Core.Transport
import Sara.Lib.Transition

/-! # Read deadlines

The reader of a connection and the clock. A deadline of the connection ends the read that
waits for it, and only that: while the handler runs nobody reads. The handler sets the
deadline when it is called and again when it returns; a handler that panics leaves the first
one in place. Other goroutines may call the session at any time, between two frames of one
result too.
-/

namespace Sara.Deadline

open Lib Lib.Prog Lib.Transition

set_option autoImplicit false

/-! ## The clock, in nanoseconds -/

def timeoutTime (sec now : Nat) : Nat := now + 1000000000 * sec

def loginTimeout : Nat := 8

def sessionTimeout : Nat := 100

def packetHandlerTimeout : Nat := sessionTimeout * 2

def setSessionTimeout (status : Status) (sec now : Nat) : Nat :=
  if sec > 0 then timeoutTime sec now
  else if status = .conn then timeoutTime loginTimeout now
  else timeoutTime sessionTimeout now

/-! ## The reader -/

/-- What one read hands to the handler, and the part that is carried on. -/
def frames : Transport → Bytes → Bytes → List Bytes × Bytes
  | .tcp, data, part => Decoder.decodePacket data part
  | .ws, message, part => (if message.length > 0 then [message] else [], part)

inductive Phase where
  | reading
  /-- The handler has been called; the frames are those it has still to handle. -/
  | handling (rest : List Bytes)
  | stopped
deriving DecidableEq

/-- How the last call of the handler with frames ended, and when. -/
inductive Last where
  | never
  | returned (at_ : Nat)
  | panicked (called at_ : Nat)
deriving DecidableEq

/-- `since` is when the reader last went to read, `called` when the handler was last called. -/
structure Timed where
  node : Node
  part : Bytes
  now : Nat
  deadline : Nat
  phase : Phase
  since : Nat
  called : Nat
  last : Last

def statusOf (x : Bytes) (n : Node) : Status := (n.sessions x).elim .close (·.status.status)

def accept (x : Bytes) (n : Node) (now : Nat) : Timed where
  node := n
  part := []
  now := now
  deadline := setSessionTimeout (statusOf x n) 0 now
  phase := .reading
  since := now
  called := now
  last := .never

/-- What the goroutines of a node call on a session, its reader apart. -/
inductive Call where
  | route (packet : Packet)
  | kill (env : Env)
  | close (env : Env)

def Call.event : Call → Event
  | .route packet => .route packet
  | .kill env => .kill env
  | .close env => .close env

inductive Action where
  | wait (d : Nat)
  | read (data : Bytes)
  | handle (env : Env)
  | finish
  | expire (env : Env)
  | broken (err : Bytes) (env : Env)
  | call (c : Call)
  /-- Everything but this session becomes what it is in `m`. -/
  | elsewhere (m : Node)

/-- A read that fails: the handler is called once more, and the reader returns. -/
def Timed.fail (u : Timed) (C : Codec) (x err : Bytes) (env : Env) : Timed :=
  { u with node := (packetHandler C x (.error err env) u.node).state, phase := .stopped }

def Timed.due (u : Timed) : Nat := max u.deadline u.since

/-- The reader of the session `x`. A read fails at the latest `lag` after its deadline, and
`limit` is the timeout the handler sets when it is called. -/
def step (C : Codec) (t : Transport) (x : Bytes) (lag limit : Nat) (u : Timed) : Action → Option Timed
  | .wait d =>
    if u.phase = .reading ∧ u.due + lag < u.now + d then none else some { u with now := u.now + d }
  | .read data =>
    -- a connection that is closed may still hand over what it has read ahead
    if u.phase = .reading then
      let r := frames t data u.part
      if r.1.length > 0 then
        some { u with
          part := r.2
          phase := .handling r.1
          called := u.now
          deadline := setSessionTimeout (statusOf x u.node) limit u.now }
      else some { u with part := r.2 }
    else none
  | .handle env =>
    match u.phase with
    | .handling (p :: rest) =>
      match handleFrame C x ⟨p, env⟩ u.node with
      | .done _ m => some { u with node := m, phase := .handling rest }
      | .panic m =>
        some { u with
          node := m
          phase := .reading
          since := u.now
          last := .panicked u.called u.now }
    | _ => none
  | .finish =>
    if u.phase = .handling [] then
      some { u with
        phase := .reading
        since := u.now
        deadline := setSessionTimeout (statusOf x u.node) 0 u.now
        last := .returned u.now }
    else none
  | .expire env =>
    if u.phase = .reading ∧ u.deadline ≤ u.now then some (u.fail C x (text "i/o timeout") env) else none
  | .broken err env => if u.phase = .reading then some (u.fail C x err env) else none
  | .call c => some { u with node := (c.event.run C x u.node).state }
  | .elsewhere m =>
    some { u with node := { m with sessions := Function.update m.sessions x (u.node.sessions x) } }

/-! ## The first frame

A session in `conn` takes its first frame for a login. Whatever that frame is, the handler
returns, and the session has left `conn`. -/

def Stands (P : Status → Prop) (x : Bytes) (n : Node) : Prop :=
  ∃ s, n.sessions x = some s ∧ P s.status.status

abbrev PastConn : Bytes → Node → Prop := Stands (· ≠ .conn)

abbrev Closed : Bytes → Node → Prop := Stands (· = .close)

section First

variable {C : Codec} {x : Bytes} {n n' : Node} {s : Session}

theorem Closed.pastConn (h : Closed x n) : PastConn x n := by
  obtain ⟨s, hs, hClose⟩ := h
  refine ⟨s, hs, ?_⟩
  rw [hClose]
  decide

theorem closeSession_closes (hSound : Sound x n) (env : Env) :
    Ends (closeSession C x env) (fun _ => Closed x) n := by
  obtain ⟨s, hs, hSound⟩ := hSound
  by_cases hClose : s.status.status = .close
  · exact ⟨(), n, closeSession_of_close C hs hClose env, s, hs, hClose⟩
  · exact ⟨(), _, closeSession_eq hs hSound hClose env, _, closed_self n x s, rfl⟩

theorem refuse_closes (hSound : Sound x n) (id reason : Bytes) (env : Env) :
    Ends (refuse C x id reason env) (fun _ => Closed x) n := by
  have hSent := moves_sendMessage (C := C) (x := x) (.answer (newPacketAuthFail id reason)) n
  exact closeSession_closes (sound_of_moves (hSent hSound) hSound) env

/-- A function of the login that gives up has closed the session, and one that goes on has
left it as it was. -/
def Answered (α : Type) (x : Bytes) (found : Option α) (n : Node) : Prop :=
  if found.isSome then Sound x n else Closed x n

theorem refuse_answers {α : Type} (hSound : Sound x n) (id reason : Bytes) (env : Env) :
    Ends (do refuse C x id reason env; return none) (Answered α x) n :=
  (refuse_closes hSound id reason env).bind fun _ _ hClosed => .pure hClosed

theorem verifyGet_answers (hSound : Sound x n) (frame : Bytes) (env : Env) :
    Ends (verifyGet C x frame env) (Answered _ x) n := by
  unfold verifyGet
  cases newPacket C frame with
  | error e => exact refuse_answers hSound _ _ env
  | ok packet =>
    simp only
    split
    · exact refuse_answers hSound _ _ env
    · cases newJID packet.envelope.jid with
      | error e => exact refuse_answers hSound _ _ env
      | ok jid => exact ⟨_, n, rfl, hSound⟩

theorem verifyKill_sound (hSound : Sound x n) (ss : SessionStatus) :
    Ends (verifyKill ss) (fun _ => Sound x) n := by
  obtain ⟨router, hRoute⟩ := route_router n
    { channel := ss.channel, sid := ss.sid, packet := none, signal := killSignal }
  refine ⟨(), n.route _, rfl, ?_⟩
  rw [hRoute]
  exact hSound

theorem verifyAuth_answers (hSound : Sound x n) (packet : Packet) (jid : JID) (env : Env) :
    Ends (do if ← verifyAuth C x packet jid env then return some packet else return none)
      (Answered _ x) n := by
  unfold verifyAuth
  split
  · exact ⟨some packet, n, rfl, hSound⟩
  · rw [bind_assoc]
    exact (refuse_closes hSound _ _ env).bind fun _ _ hClosed => .pure hClosed

theorem verify_answers (hSound : Sound x n) (frame : Bytes) (env : Env) :
    Ends (verify C x frame env) (Answered _ x) n := by
  refine (verifyGet_answers hSound frame env).bind fun found n₁ hFound => ?_
  match found with
  | none => exact .pure hFound
  | some (packet, jid, none) => exact verifyAuth_answers hFound packet jid env
  | some (packet, jid, some ss) =>
    exact (verifyKill_sound hFound ss).bind fun _ _ hSound => verifyAuth_answers hSound packet jid env

theorem handleFrame_first (hs : n.sessions x = some s) (hSound : s.Sound) (hConn : s.status.status = .conn)
    (i : Input) : Ends (handleFrame C x i) (fun _ => PastConn x) n := by
  have hOpen : handleFrame C x i n = openSession C x i.frame i.env n := by
    unfold handleFrame
    rw [bind_done (Node.session_eq hs), hConn]
    rfl
  obtain ⟨found, n', hVerify, hAnswered⟩ := verify_answers (C := C) ⟨s, hs, hSound⟩ i.frame i.env
  cases found with
  | none =>
    refine ⟨(), n', ?_, hAnswered.pastConn⟩
    rw [hOpen, openSession, bind_done hVerify]
    rfl
  | some packet =>
    obtain ⟨⟨router, rfl⟩, j, hj⟩ := verify_done hVerify
    refine ⟨(), _, hOpen.trans (openSession_of_verify hVerify hs hj), _, Function.update_self .., ?_⟩
    exact Status.noConfusion

/-! ## The moves of a session never lead back -/

theorem statusOf_eq (hs : n.sessions x = some s) : statusOf x n = s.status.status := by
  rw [statusOf, hs]
  rfl

theorem Stands.move {P : Status → Prop} (hConn : ¬ P .conn) (hClose : P .close) (h : Stands P x n)
    (hMove : Move C x n n') : Stands P x n' := by
  obtain ⟨s₀, hs₀, hP⟩ := h
  cases hMove with
  | work s s' hs hs' _ hWorks =>
    cases hs₀.symm.trans hs
    refine ⟨s', hs', ?_⟩
    rw [hWorks.status]
    exact hP
  | login s s' hs _ _ hLogs =>
    cases hs₀.symm.trans hs
    rw [hLogs.conn] at hP
    exact absurd hP hConn
  | close s _ hShuts =>
    obtain ⟨order, _, _, rfl⟩ := hShuts.stored
    exact ⟨_, closed_self n x s, hClose⟩

theorem Stands.moves {P : Status → Prop} (hConn : ¬ P .conn) (hClose : P .close) (h : Stands P x n)
    (hMoves : Relation.ReflTransGen (Move C x) n n') : Stands P x n' := by
  induction hMoves with
  | refl => exact h
  | tail _ hMove ih => exact ih.move hConn hClose hMove

theorem PastConn.moves (h : PastConn x n) (hMoves : Relation.ReflTransGen (Move C x) n n') :
    PastConn x n' := Stands.moves (by decide) (by decide) h hMoves

theorem Closed.moves (h : Closed x n) (hMoves : Relation.ReflTransGen (Move C x) n n') :
    Closed x n' := Stands.moves (by decide) rfl h hMoves

/-- A handler that panics had a session with a user. -/
theorem handleFrame_pastConn (hSound : Sound x n) (i : Input) : PastConn x (handleFrame C x i n).state := by
  obtain ⟨s, hs, hSess⟩ := hSound
  by_cases hConn : s.status.status = .conn
  · exact (handleFrame_first hs hSess hConn i).state
  · exact PastConn.moves ⟨s, hs, hConn⟩ (moves_handleFrame i n ⟨s, hs, hSess⟩)

theorem packetHandler_error_closes (hSound : Sound x n) (err : Bytes) (env : Env) :
    Closed x (packetHandler C x (.error err env) n).state := by
  have ⟨s, hs, _⟩ := hSound
  unfold packetHandler recover
  rw [Outcome.state_done, bind_done (Node.session_eq hs)]
  split
  · exact (closeSession_closes hSound env).state
  · rename_i hClose
    exact ⟨s, hs, not_not.mp hClose⟩

end First

/-! ## Runs -/

/-- The deadline of a reader that reads, by the last call of the handler. -/
def deadlineAfter (start limit : Nat) : Last → Nat
  | .never => timeoutTime loginTimeout start
  | .returned at_ => timeoutTime sessionTimeout at_
  | .panicked called _ => timeoutTime limit called

def sinceAfter (start : Nat) : Last → Nat
  | .never => start
  | .returned at_ | .panicked _ at_ => at_

structure Timely (x : Bytes) (lag limit start : Nat) (u : Timed) : Prop where
  sound : Sound x u.node
  past : u.last ≠ .never → PastConn x u.node
  since : u.since = sinceAfter start u.last
  reading : u.phase = .reading →
    u.deadline = deadlineAfter start limit u.last ∧ u.now ≤ u.due + lag
  handling : ∀ rest, u.phase = .handling rest →
    u.deadline = timeoutTime limit u.called ∧ (rest = [] → PastConn x u.node)
  stopped : u.phase = .stopped → Closed x u.node

section Runs

variable {C : Codec} {t : Transport} {x : Bytes} {lag limit start : Nat} {u v : Timed}

theorem setSessionTimeout_past {n : Node} (h : PastConn x n) (now : Nat) :
    setSessionTimeout (statusOf x n) 0 now = timeoutTime sessionTimeout now := by
  obtain ⟨s, hs, hPast⟩ := h
  rw [statusOf_eq hs, setSessionTimeout, if_neg (Nat.lt_irrefl 0), if_neg hPast]

theorem setSessionTimeout_pos (h : 0 < limit) (status : Status) (now : Nat) :
    setSessionTimeout status limit now = timeoutTime limit now := if_pos h

/-- A change of the node that is made of moves of the session, and no change of the reader. -/
theorem Timely.moved (h : Timely x lag limit start u) {m : Node}
    (hMoves : Relation.ReflTransGen (Move C x) u.node m) :
    Timely x lag limit start { u with node := m } where
  sound := sound_of_moves hMoves h.sound
  past hLast := (h.past hLast).moves hMoves
  since := h.since
  reading := h.reading
  handling rest hPhase := ⟨(h.handling rest hPhase).1, fun hRest =>
    ((h.handling rest hPhase).2 hRest).moves hMoves⟩
  stopped hPhase := (h.stopped hPhase).moves hMoves

theorem Timely.elsewhere (h : Timely x lag limit start u) (m : Node) :
    Timely x lag limit start
      { u with node := { m with sessions := Function.update m.sessions x (u.node.sessions x) } } := by
  have hSame : Function.update m.sessions x (u.node.sessions x) x = u.node.sessions x :=
    Function.update_self ..
  have hStands : ∀ {P}, Stands P x u.node →
      Stands P x { m with sessions := Function.update m.sessions x (u.node.sessions x) } := by
    rintro P ⟨s, hs, hP⟩
    exact ⟨s, hSame.trans hs, hP⟩
  have ⟨s, hs, hSound⟩ := h.sound
  exact ⟨⟨s, hSame.trans hs, hSound⟩, fun hLast => hStands (h.past hLast), h.since, h.reading,
    fun rest hPhase => ⟨(h.handling rest hPhase).1, fun hRest => hStands ((h.handling rest hPhase).2 hRest)⟩,
    fun hPhase => hStands (h.stopped hPhase)⟩

theorem Timely.fail (h : Timely x lag limit start u) (err : Bytes) (env : Env) :
    Timely x lag limit start (u.fail C x err env) := by
  have hMoves := moves_packetHandler (C := C) (.error err env) u.node h.sound
  have hMoved := h.moved hMoves
  exact ⟨hMoved.sound, hMoved.past, hMoved.since, nofun,
    nofun, fun _ => packetHandler_error_closes h.sound err env⟩

theorem Timely.read (h : Timely x lag limit start u) (hLimit : 0 < limit) {rest : List Bytes}
    (hRest : 0 < rest.length) (part : Bytes) :
    Timely x lag limit start { u with
      part := part
      phase := .handling rest
      called := u.now
      deadline := setSessionTimeout (statusOf x u.node) limit u.now } where
  sound := h.sound
  past := h.past
  since := h.since
  reading hPhase := by cases hPhase
  handling rest' hPhase := by
    cases hPhase
    refine ⟨setSessionTimeout_pos hLimit _ _, ?_⟩
    rintro rfl
    cases hRest
  stopped hPhase := by cases hPhase

/-- One frame is handled, or the handler panics on it and the reader reads on. -/
theorem Timely.handle (h : Timely x lag limit start u) {p : Bytes} {rest : List Bytes}
    (hPhase : u.phase = .handling (p :: rest)) {env : Env}
    (hStep : step C t x lag limit u (.handle env) = some v) : Timely x lag limit start v := by
  have hMoves := moves_handleFrame (C := C) ⟨p, env⟩ u.node h.sound
  have hPast := handleFrame_pastConn (C := C) h.sound ⟨p, env⟩
  obtain ⟨hDeadline, _⟩ := h.handling _ hPhase
  simp only [step, hPhase] at hStep
  cases hResult : handleFrame C x ⟨p, env⟩ u.node with
  | done _ m =>
    rw [hResult] at hMoves hPast hStep
    cases hStep
    have hMoved := h.moved hMoves
    refine ⟨hMoved.sound, hMoved.past, hMoved.since, nofun, ?_,
      nofun⟩
    intro rest' _
    exact ⟨hDeadline, fun _ => hPast⟩
  | panic m =>
    rw [hResult] at hMoves hPast hStep
    cases hStep
    refine ⟨sound_of_moves hMoves h.sound, fun _ => hPast, rfl, ?_, nofun,
      nofun⟩
    intro _
    exact ⟨hDeadline, Nat.le_add_right_of_le (le_max_right ..)⟩

theorem Timely.finish (h : Timely x lag limit start u) (hPhase : u.phase = .handling []) :
    Timely x lag limit start { u with
      phase := .reading
      since := u.now
      deadline := setSessionTimeout (statusOf x u.node) 0 u.now
      last := .returned u.now } where
  sound := h.sound
  past _ := (h.handling [] hPhase).2 rfl
  since := rfl
  reading _ := ⟨setSessionTimeout_past ((h.handling [] hPhase).2 rfl) u.now,
    Nat.le_add_right_of_le (le_max_right ..)⟩
  handling _ hPhase := by cases hPhase
  stopped hPhase := by cases hPhase

end Runs

def slowLogin : List Action :=
  let data := Decoder.frame (PlainJson.writeFrame { id := text "1", jid := text "bob@x", type := 0 })
  [.wait 3000000000, .read (data.take 9), .wait 4000000000, .read (data.drop 9),
    .handle (Env.plain true), .wait 2000000000, .finish, .wait 100000000000]

/-- The handler does not panic on the frame. -/
def calm (C : Codec) (x : Bytes) (u : Timed) (a : Action) : Bool :=
  match a, u.phase with
  | .handle env, .handling (p :: _) => !(handleFrame C x ⟨p, env⟩ u.node).panicked
  | _, _ => true

section Limit

variable {C : Codec} {t : Transport} {x : Bytes} {lag limit limit' : Nat} {u u' v : Timed}

/-- Only the deadline differs, and only while nobody reads. -/
def Alike (u u' : Timed) : Prop :=
  ∃ d, u' = { u with deadline := d } ∧ (u.phase = .reading → d = u.deadline)

theorem Alike.refl (u : Timed) : Alike u u := ⟨u.deadline, rfl, fun _ => rfl⟩

theorem alike_step_same {a : Action}
    (hStep : step C t x lag limit u a = some v) :
    ∃ v', step C t x lag limit' u a = some v' ∧ Alike v v' := by
  cases a with
  | read data =>
    simp only [step, Option.ite_none_right_eq_some] at hStep ⊢
    obtain ⟨hOpen, hStep⟩ := hStep
    split at hStep
    · rename_i hFrames
      cases hStep
      refine ⟨_, ⟨hOpen, if_pos hFrames⟩, _, rfl, nofun⟩
    · rename_i hFrames
      exact ⟨v, ⟨hOpen, (if_neg hFrames).trans hStep⟩, .refl v⟩
  | _ => exact ⟨v, hStep, .refl v⟩

theorem alike_step (h : Alike u u') {a : Action} (hCalm : calm C x u a = true)
    (hStep : step C t x lag limit u a = some v) :
    ∃ v', step C t x lag limit' u' a = some v' ∧ Alike v v' := by
  obtain ⟨d, rfl, hSame⟩ := h
  by_cases hPhase : u.phase = .reading
  · rw [hSame hPhase]
    exact alike_step_same hStep
  cases a with
  | wait d' =>
    simp only [step, hPhase, false_and, if_false, Option.some.injEq] at hStep ⊢
    subst hStep
    exact ⟨_, rfl, d, rfl, fun hReading => absurd hReading hPhase⟩
  | read data => simp [step, hPhase] at hStep
  | handle env =>
    simp only [step] at hStep ⊢
    split at hStep
    · rename_i p rest hHandling
      simp only [calm, hHandling] at hCalm
      cases hResult : handleFrame C x ⟨p, env⟩ u.node with
      | done _ m =>
        simp only [hResult, Option.some.injEq] at hStep
        subst hStep
        exact ⟨_, rfl, d, rfl, nofun⟩
      | panic m =>
        rw [hResult] at hCalm
        cases hCalm
    · cases hStep
  | finish =>
    simp only [step, Option.ite_none_right_eq_some, Option.some.injEq] at hStep ⊢
    obtain ⟨hHandled, rfl⟩ := hStep
    exact ⟨_, ⟨hHandled, rfl⟩, .refl _⟩
  | expire env => simp [step, hPhase] at hStep
  | broken err env => simp [step, hPhase] at hStep
  | call c =>
    cases hStep
    exact ⟨_, rfl, d, rfl, fun hReading => absurd hReading hPhase⟩
  | elsewhere m =>
    cases hStep
    exact ⟨_, rfl, d, rfl, fun hReading => absurd hReading hPhase⟩

end Limit

/-- The timeout that the handler sets when it is called limits nothing but the reads after a panic:
as long as no frame makes the handler panic, it can be any other and every run stays as it is. -/
theorem handler_timeout_after_panic (C : Codec) (t : Transport) (x : Bytes) (lag limit : Nat) (n : Node)
    (start : Nat) (as : List Action) (u : Timed)
    (hRun : run (step C t x lag packetHandlerTimeout) (accept x n start) as = some u)
    (hCalm : Guarded (step C t x lag packetHandlerTimeout) (fun u a => calm C x u a = true)
      (accept x n start) as) :
    ∃ d, run (step C t x lag limit) (accept x n start) as = some { u with deadline := d } ∧
      (u.phase = .reading → d = u.deadline) := by
  have hAlike : ∃ u', run (step C t x lag limit) (accept x n start) as = some u' ∧ Alike u u' := by
    refine guarded_induction (P := fun as u => ∃ u', run (step C t x lag limit) (accept x n start) as =
      some u' ∧ Alike u u') ⟨_, rfl, .refl _⟩ ?_ hRun hCalm
    rintro as v a w _ _ ⟨v', hRun', hAlike⟩ hCalm hStep
    obtain ⟨w', hStep', hAlike'⟩ := alike_step hAlike hCalm hStep
    exact ⟨w', run_snoc_iff.mpr ⟨v', hRun', hStep'⟩, hAlike'⟩
  obtain ⟨_, hRun', d, rfl, hSame⟩ := hAlike
  exact ⟨d, hRun', hSame⟩

theorem handler_timeout_after_panic_bob :
    ∃ u, run (step PlainJson.codec .tcp (text "s1") 0 packetHandlerTimeout) (accept (text "s1") freshNode 0)
        slowLogin = some u ∧
      ∃ d, run (step PlainJson.codec .tcp (text "s1") 0 1) (accept (text "s1") freshNode 0) slowLogin =
        some { u with deadline := d } ∧ (u.phase = .reading → d = u.deadline) := by
  have hEval : (run (step PlainJson.codec .tcp (text "s1") 0 packetHandlerTimeout)
      (accept (text "s1") freshNode 0) slowLogin).any (fun u => decide (u.phase = .reading)) = true := by
    decide +kernel
  obtain ⟨u, hRun, _⟩ := exists_run hEval
  exact ⟨u, hRun, handler_timeout_after_panic PlainJson.codec .tcp (text "s1") 0 1 freshNode 0 slowLogin u
    hRun (by decide +kernel)⟩

end Sara.Deadline
