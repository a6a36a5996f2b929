import Sara.Node.Users

/-! # From the dispatcher to the session map

The dispatcher makes a session, starts its reader, gives it its connection and registers
it, one after the other. The reader runs from its start on: a handler that is called
before the session has its connection panics and changes nothing, one that is called
later may log the session in or close it. A close sends the sid to the clean loop before
it sets the status. `dispatch_refines` says that the steps of a node are steps of this
kind.
-/

namespace Sara.Dispatch

open Lib Lib.Prog Lib.Transition Saradb Concurrent

set_option autoImplicit false

inductive Stage where
  | made
  | reading
  | bound
  | returned
deriving DecidableEq

/-- The session has its connection, so that its handler does not panic. -/
def Stage.handles : Stage → Bool
  | .made | .reading => false
  | .bound | .returned => true

/-- `closers` are the calls that have sent the sid and not yet set the status. -/
structure Life where
  stage : Stage
  status : Status
  closers : Nat
deriving DecidableEq

structure State where
  lives : Bytes → Option Life
  cleanSession : List Bytes
  sessionMap : Bytes → Bool

def State.empty : State where
  lives _ := none
  cleanSession := []
  sessionMap _ := false

/-- `send` and `mark` are the two ends of a close, `abort` one that panics in between. -/
inductive Act where
  | create (x : Bytes)
  | start (x : Bytes)
  | bind (x : Bytes)
  | register (x : Bytes)
  | login (x : Bytes)
  | send (x : Bytes)
  | mark (x : Bytes)
  | abort (x : Bytes)
  | clean
deriving DecidableEq

def State.put (s : State) (x : Bytes) (life : Life) : State :=
  { s with lives := Function.update s.lives x (some life) }

def State.advance (s : State) (x : Bytes) (ready : Life → Bool) (f : Life → Life) : Option State :=
  match s.lives x with
  | some life => if ready life then some (s.put x (f life)) else none
  | none => none

def act (s : State) : Act → Option State
  | .create x =>
    if isUuid x ∧ s.lives x = none then some (s.put x { stage := .made, status := .conn, closers := 0 })
    else none
  | .start x => s.advance x (·.stage = .made) ({ · with stage := .reading })
  | .bind x => s.advance x (·.stage = .reading) ({ · with stage := .bound })
  | .register x =>
    (s.advance x (·.stage = .bound) ({ · with stage := .returned })).map fun s =>
      { s with sessionMap := Function.update s.sessionMap x true }
  | .login x => s.advance x (·.stage.handles) ({ · with status := .login })
  | .send x =>
    (s.advance x (fun life => life.stage.handles && life.status ≠ .close)
      fun life => { life with closers := life.closers + 1 }).map fun s =>
        { s with cleanSession := s.cleanSession ++ [x] }
  | .mark x =>
    s.advance x (fun life => 0 < life.closers) fun life =>
      { life with status := .close, closers := life.closers - 1 }
  | .abort x =>
    s.advance x (fun life => 0 < life.closers) fun life => { life with closers := life.closers - 1 }
  | .clean =>
    match s.cleanSession with
    | [] => none
    | sid :: rest =>
      some { s with cleanSession := rest, sessionMap := Function.update s.sessionMap sid false }

/-- The clean loop takes the sid of a session only once the dispatcher has registered it. -/
def CleansRegistered (s : State) : Act → Prop
  | .clean => ∀ sid ∈ s.cleanSession.head?, (s.lives sid).map (·.stage) = some .returned
  | _ => True

/-! ## The invariant -/

/-- A session that is being closed or is closed is on the way to the clean loop, or was
registered and has been cleaned. -/
def Cleaned (s : State) : Prop :=
  ∀ x life, s.lives x = some life → life.status = .close ∨ 0 < life.closers →
    x ∈ s.cleanSession ∨ life.stage = .returned ∧ s.sessionMap x = false

theorem exists_of_advance {s t : State} {x : Bytes} {ready : Life → Bool} {f : Life → Life}
    (h : s.advance x ready f = some t) :
    ∃ life, s.lives x = some life ∧ ready life = true ∧ t = s.put x (f life) := by
  unfold State.advance at h
  split at h
  · rename_i life hLife
    obtain ⟨hReady, hEq⟩ := Option.ite_none_right_eq_some.mp h
    cases hEq
    exact ⟨life, hLife, hReady, rfl⟩
  · cases h

theorem Cleaned.put {s t : State} {x : Bytes} {life : Life} (h : Cleaned s)
    (hLives : t.lives = Function.update s.lives x (some life))
    (hClean : ∀ y, y ∈ s.cleanSession → y ∈ t.cleanSession)
    (hMap : ∀ y, y ≠ x → t.sessionMap y = s.sessionMap y)
    (hSelf : life.status = .close ∨ 0 < life.closers →
      x ∈ t.cleanSession ∨ life.stage = .returned ∧ t.sessionMap x = false) : Cleaned t := by
  intro y life' hLife hClosed
  rw [hLives] at hLife
  rcases eq_or_ne y x with rfl | hne
  · rw [Function.update_self] at hLife
    cases hLife
    exact hSelf hClosed
  · rw [Function.update_of_ne hne] at hLife
    rw [hMap y hne]
    exact (h y life' hLife hClosed).imp (hClean y) id

theorem cleaned_act {s t : State} {a : Act} (h : Cleaned s) (hGuard : CleansRegistered s a)
    (hAct : act s a = some t) : Cleaned t := by
  cases a with
  | create x =>
    obtain ⟨_, hEq⟩ := Option.ite_none_right_eq_some.mp hAct
    cases hEq
    refine h.put rfl (fun _ hy => hy) (fun _ _ => rfl) ?_
    intro hClosed
    simp at hClosed
  | start x | bind x =>
    obtain ⟨life, hLife, hReady, rfl⟩ := exists_of_advance hAct
    have hStage := of_decide_eq_true hReady
    refine h.put rfl (fun _ hy => hy) (fun _ _ => rfl) fun hClosed => ?_
    rcases h x life hLife hClosed with hQueued | ⟨hReturned, _⟩
    · exact .inl hQueued
    · cases hStage.symm.trans hReturned
  | register x =>
    obtain ⟨u, hAdvance, rfl⟩ := Option.map_eq_some_iff.mp hAct
    obtain ⟨life, hLife, hReady, rfl⟩ := exists_of_advance hAdvance
    have hStage := of_decide_eq_true hReady
    refine h.put rfl (fun _ hy => hy) (fun _ hne => Function.update_of_ne hne ..) fun hClosed => ?_
    rcases h x life hLife hClosed with hQueued | ⟨hReturned, _⟩
    · exact .inl hQueued
    · cases hStage.symm.trans hReturned
  | login x =>
    obtain ⟨life, hLife, _, rfl⟩ := exists_of_advance hAct
    refine h.put rfl (fun _ hy => hy) (fun _ _ => rfl) fun hClosed => ?_
    rcases hClosed with hStatus | hClosers
    · cases hStatus
    · exact h x life hLife (.inr hClosers)
  | send x =>
    obtain ⟨u, hAdvance, rfl⟩ := Option.map_eq_some_iff.mp hAct
    obtain ⟨life, hLife, _, rfl⟩ := exists_of_advance hAdvance
    refine h.put rfl (fun _ hy => List.mem_append_left _ hy) (fun _ _ => rfl) fun _ => ?_
    exact .inl (List.mem_append_right _ List.mem_cons_self)
  | mark x | abort x =>
    obtain ⟨life, hLife, hReady, rfl⟩ := exists_of_advance hAct
    refine h.put rfl (fun _ hy => hy) (fun _ _ => rfl) fun _ => ?_
    exact h x life hLife (.inr (of_decide_eq_true hReady))
  | clean =>
    simp only [act] at hAct
    cases hQueue : s.cleanSession with
    | nil =>
      rw [hQueue] at hAct
      cases hAct
    | cons sid rest =>
      rw [hQueue] at hAct
      cases hAct
      intro x life hLife hClosed
      rcases eq_or_ne x sid with rfl | hne
      · -- The session taken was registered before, so the map does not get it back.
        have hStage := hGuard x (by rw [hQueue]; rfl)
        rw [hLife, Option.map_some, Option.some.injEq] at hStage
        exact .inr ⟨hStage, Function.update_self ..⟩
      · rcases h x life hLife hClosed with hQueued | ⟨hReturned, hMap⟩
        · rw [hQueue] at hQueued
          exact .inl (List.mem_of_ne_of_mem hne hQueued)
        · exact .inr ⟨hReturned, (Function.update_of_ne hne ..).trans hMap⟩

/-- If the clean loop never overtakes the dispatcher, a closed session is in the map at most
until its sid is taken. -/
theorem closed_session_unmapped {as : List Act} {s : State} (hRun : run act .empty as = some s)
    (hGuard : Guarded act CleansRegistered .empty as) {x : Bytes} {life : Life}
    (hLife : s.lives x = some life) (hClosed : life.status = .close) (hEmpty : s.cleanSession = []) :
    s.sessionMap x = false := by
  have hCleaned : Cleaned s := by
    refine guarded_induction (P := fun _ s => Cleaned s) ?_ ?_ hRun hGuard
    · intro x life hLife
      cases hLife
    · intro as s a t _ _ hCleaned hGuard hAct
      exact cleaned_act hCleaned hGuard hAct
  rcases hCleaned x life hLife (.inl hClosed) with hQueued | ⟨_, hMap⟩
  · rw [hEmpty] at hQueued
    cases hQueued
  · exact hMap

instance (s : State) : (a : Act) → Decidable (CleansRegistered s a)
  | .clean => inferInstanceAs (Decidable (∀ sid ∈ s.cleanSession.head?, _))
  | .create _ | .start _ | .bind _ | .register _ | .login _ | .send _ | .mark _ | .abort _ =>
    isTrue trivial

def orderly : List Act :=
  let x := text "a1"
  [.create x, .start x, .bind x, .register x, .send x, .mark x, .clean]

theorem closed_session_unmapped_orderly :
    ∃ s, run act .empty orderly = some s ∧
      s.lives (text "a1") = some { stage := .returned, status := .close, closers := 0 } ∧
      s.cleanSession = [] ∧ s.sessionMap (text "a1") = false := by
  have hExists : ∃ s, run act .empty orderly = some s ∧
      s.lives (text "a1") = some { stage := .returned, status := .close, closers := 0 } ∧
      s.cleanSession = [] := exists_run (by decide +kernel)
  obtain ⟨s, hRun, hLife, hEmpty⟩ := hExists
  exact ⟨s, hRun, hLife, hEmpty,
    closed_session_unmapped hRun (by decide +kernel) hLife rfl hEmpty⟩

/-- The first packet is bad, and the clean loop is done before the dispatcher registers. -/
def overtaken : List Act :=
  let x := text "a1"
  [.create x, .start x, .bind x, .send x, .mark x, .clean, .register x]

/-- The session is registered when nobody is left to remove it. -/
theorem closed_session_stays :
    ∃ s, run act .empty overtaken = some s ∧
      s.lives (text "a1") = some { stage := .returned, status := .close, closers := 0 } ∧
      s.cleanSession = [] ∧ s.sessionMap (text "a1") = true :=
  exists_run (by decide +kernel)

/-! ## The steps of a node -/

/-- What the dispatcher and the clean loop see of a node. -/
def view (dispatching : Bytes → Bool) (n : Node) : State where
  lives x := ((n.sessions x).map (·.status)).map fun st =>
    { stage := if dispatching x then .bound else .returned
      status := st.status
      closers := 0 }
  cleanSession := n.cleanSession
  sessionMap := n.sessionMap

def Named (n : Node) : Prop := ∀ x sess, n.sessions x = some sess → sess.status.sid = x

def Lives (dispatching : Bytes → Bool) (n n' : Node) : Prop :=
  Named n → Named n' ∧ ∃ as, run act (view dispatching n) as = some (view dispatching n')

variable {dispatching : Bytes → Bool} {C : Codec} {n n' : Node} {x : Bytes}

instance : Std.Refl (Lives dispatching) where
  refl _ hNamed := ⟨hNamed, [], rfl⟩

instance : IsTrans Node (Lives dispatching) where
  trans _ _ _ h h' hNamed := by
    obtain ⟨hNamed', as, hRun⟩ := h hNamed
    obtain ⟨hNamed'', bs, hRun'⟩ := h' hNamed'
    exact ⟨hNamed'', as ++ bs, by rw [run_append, hRun, Option.bind_some, hRun']⟩

/-- A change that neither the dispatcher nor the clean loop sees. -/
theorem Lives.of_same (hStatus : ∀ y, (n'.sessions y).map (·.status) = (n.sessions y).map (·.status))
    (hClean : n'.cleanSession = n.cleanSession) (hMap : n'.sessionMap = n.sessionMap) :
    Lives dispatching n n' := by
  intro hNamed
  refine ⟨?_, [], ?_⟩
  · intro y sess' hs'
    have hSame := hStatus y
    rw [hs', Option.map_some] at hSame
    obtain ⟨sess, hs, hEq⟩ := Option.map_eq_some_iff.mp hSame.symm
    rw [← hEq]
    exact hNamed y sess hs
  · simp only [run_nil, view, hStatus, hClean, hMap]

theorem advance_eq {s : State} {life : Life} (hLife : s.lives x = some life) {ready : Life → Bool}
    (hReady : ready life = true) (f : Life → Life) :
    s.advance x ready f = some (s.put x (f life)) := by
  simp only [State.advance, hLife, hReady, if_true]

theorem put_put (s : State) (x : Bytes) (life life' : Life) :
    (s.put x life).put x life' = s.put x life' := by
  simp only [State.put, Function.update_idem]

theorem handles_view (x : Bytes) : (if dispatching x then Stage.bound else .returned).handles = true := by
  cases dispatching x with
  | true => rfl
  | false => rfl

theorem view_lives {sess : Session} (hs : n.sessions x = some sess) :
    (view dispatching n).lives x =
      some { stage := if dispatching x then .bound else .returned
             status := sess.status.status
             closers := 0 } := by
  simp only [view, hs, Option.map_some]

/-- The session is set to another status, and its sid may go to the clean loop. -/
theorem view_update {sess : Session} (hSessions : n'.sessions = Function.update n.sessions x (some sess))
    {clean : List Bytes} (hClean : n'.cleanSession = clean) (hMap : n'.sessionMap = n.sessionMap) :
    view dispatching n' = { (view dispatching n).put x
      { stage := if dispatching x then .bound else .returned
        status := sess.status.status
        closers := 0 } with cleanSession := clean } := by
  simp only [view, State.put, hSessions, hClean, hMap, State.mk.injEq, and_true]
  funext y
  rcases eq_or_ne y x with rfl | hne
  · rw [Function.update_self, Function.update_self, Option.map_some, Option.map_some]
  · rw [Function.update_of_ne hne, Function.update_of_ne hne]

theorem Named.update {sess : Session} (h : Named n)
    (hSessions : n'.sessions = Function.update n.sessions x (some sess)) (hSid : sess.status.sid = x) :
    Named n' := by
  intro y sess' hs'
  rw [hSessions] at hs'
  rcases eq_or_ne y x with rfl | hne
  · rw [Function.update_self] at hs'
    cases hs'
    exact hSid
  · rw [Function.update_of_ne hne] at hs'
    exact h y sess' hs'

theorem lives_updateSession {f : Session → Session} (hf : ∀ s, (f s).status = s.status) :
    Lives dispatching n (n.updateSession x f) :=
  .of_same (n.map_updateSession x hf) rfl rfl

theorem lives_sendMessage (x : Bytes) (data : Written) :
    Keeps (Lives dispatching) (sendMessage x data) :=
  fun _ => lives_updateSession fun _ => rfl

theorem lives_send (ds : List Dispatch) : Keeps (Lives dispatching) (modify fun n => n.send ds) :=
  fun _ => .of_same (fun _ => rfl) rfl rfl

theorem act_send {sess : Session} (hs : n.sessions x = some sess) (hOpen : sess.status.status ≠ .close) :
    act (view dispatching n) (.send x) = some
      { (view dispatching n).put x
        { stage := if dispatching x then .bound else .returned
          status := sess.status.status
          closers := 1 } with cleanSession := n.cleanSession ++ [x] } := by
  have hReady : ((if dispatching x then Stage.bound else .returned).handles &&
      decide (sess.status.status ≠ .close)) = true := by
    rw [handles_view, decide_eq_true hOpen]
    rfl
  rw [act, advance_eq (view_lives hs) hReady]
  rfl

theorem run_send {sess sess' : Session} (hs : n.sessions x = some sess)
    (hOpen : sess.status.status ≠ .close) (hSid : sess.status.sid = x)
    (hSessions : n'.sessions = Function.update n.sessions x (some sess'))
    (hClean : n'.cleanSession = n.cleanSession ++ [sess.status.sid])
    (hMap : n'.sessionMap = n.sessionMap) {a : Act}
    (hAct : a = .mark x ∧ sess'.status.status = .close ∨ a = .abort x ∧ sess' = sess) :
    run act (view dispatching n) [.send x, a] = some (view dispatching n') := by
  have hLife : ({ (view dispatching n).put x
      { stage := if dispatching x then .bound else .returned
        status := sess.status.status
        closers := 1 } with cleanSession := n.cleanSession ++ [x] } : State).lives x = some _ :=
    Function.update_self ..
  rw [run_cons, act_send hs hOpen, Option.bind_some, run_cons, view_update hSessions hClean hMap, hSid]
  rcases hAct with ⟨rfl, hClosed⟩ | ⟨rfl, rfl⟩
  · rw [act, advance_eq hLife rfl, hClosed]
    exact congrArg (fun s => some { s with cleanSession := n.cleanSession ++ [x] }) (put_put ..)
  · rw [act, advance_eq hLife rfl]
    exact congrArg (fun s => some { s with cleanSession := n.cleanSession ++ [x] }) (put_put ..)

theorem lives_closeSession (x : Bytes) (env : Env) :
    Keeps (Lives dispatching) (closeSession C x env) := by
  intro n
  cases hs : n.sessions x with
  | none =>
    unfold closeSession
    rw [bind_panic (Node.session_eq_panic hs)]
    exact Std.Refl.refl n
  | some sess =>
    by_cases hClose : sess.status.status = .close
    · rw [closeSession_of_close C hs hClose]
      exact Std.Refl.refl n
    by_cases hUser : sess.status.status = .login → ∃ j, newJID sess.status.jid = .ok j
    · rw [closeSession_of_open C hs hClose hUser]
      have hStore : Keeps (Lives dispatching) (pkgBuffToStore C env sess.pkgBuff) :=
        Keeps.forM fun p _ => storePacket_keeps lives_send p
      refine IsTrans.trans _ (n.closed x sess) _ ?_ (hStore _)
      intro hNamed
      have hSid := hNamed x sess hs
      refine ⟨hNamed.update rfl hSid, [.send x, .mark x], ?_⟩
      apply run_send hs hClose hSid
      · rfl
      · rfl
      · rfl
      · exact .inl ⟨rfl, rfl⟩
    · -- A user without an address: the call panics once it has sent the sid.
      obtain ⟨hLogin, hNone⟩ := Classical.not_imp.mp hUser
      have hPanic : (closeSession C x env n).state =
          { n with cleanSession := n.cleanSession ++ [sess.status.sid] } := by
        unfold closeSession
        rw [bind_done (Node.session_eq hs)]
        simp only [hLogin, reduceCtorEq, if_false, if_true]
        cases hj : newJID sess.status.jid with
        | ok j => exact absurd ⟨j, hj⟩ hNone
        | error e => rfl
      rw [hPanic]
      intro hNamed
      have hSid := hNamed x sess hs
      have hSame : n.sessions = Function.update n.sessions x (some sess) := by
        rw [← hs, Function.update_eq_self]
      refine ⟨hNamed, [.send x, .abort x], ?_⟩
      apply run_send hs hClose hSid
      · exact hSame
      · rfl
      · rfl
      · exact .inr ⟨rfl, rfl⟩

theorem lives_route (item : RouterItem) : Lives dispatching n (n.route item) := by
  unfold Node.route
  split
  · exact .of_same (fun _ => rfl) rfl rfl
  · exact Std.Refl.refl n

theorem permits_lives : Permits (Lives dispatching) C where
  sendMessage x data _ := lives_sendMessage x data
  closeSession := lives_closeSession
  verifyKill _ _ := lives_route _
  cache _ _ _ := lives_send _

theorem lives_logon (x : Bytes) (packet : Packet) (env : Env) :
    Keeps (Lives dispatching) (logon x packet env) := by
  intro n hNamed
  cases hs : n.sessions x with
  | none =>
    have hSame : (logon x packet env n).state = n := by
      simp only [logon, modify_apply, Outcome.state_done, Node.updateSession, hs, Option.map_none]
      rw [← hs, Function.update_eq_self]
    rw [hSame]
    exact ⟨hNamed, [], rfl⟩
  | some sess =>
    have hSessions := congrArg Node.sessions (Node.updateSession_eq hs fun s =>
      { s with status :=
        { s.status with jid := packet.envelope.jid, status := .login, ct := env.timestamp10 } })
    refine ⟨hNamed.update hSessions (hNamed x sess hs), [.login x], ?_⟩
    rw [run_cons, act, advance_eq (view_lives hs) (handles_view x), Option.bind_some, run_nil]
    exact congrArg some (view_update hSessions rfl rfl).symm

theorem lives_routeAct (x : Bytes) (packet : Packet) (d : Decision) :
    Keeps (Lives dispatching) (routeAct C x packet d) :=
  routeAct_keeps (fun _ => lives_updateSession fun _ => rfl) (lives_sendMessage x _)
    (fun _ => lives_sendMessage x _) (fun _ _ _ => lives_route _) (storePacket_keeps lives_send packet) d

theorem lives_begin (i : Input) : Lives dispatching n (begin C x i n).state :=
  permits_lives.begin fun packet _ _ _ _ _ =>
    serverAck_keeps lives_send (fun _ _ _ => lives_updateSession fun _ => rfl) x packet n

theorem lives_next {env : Env} (pc : Pc) : Lives dispatching n (next C x env pc n).state := by
  refine permits_lives.next ?_ ?_ ?_ ?_
  · exact fun packet _ => lives_logon x packet env n
  · exact fun packet _ => loginReply_keeps (fun _ _ _ => .of_same (fun _ => rfl) rfl rfl) x packet n
  · intro d ds _ _
    unfold sendNext
    split
    · exact Std.Refl.refl n
    · exact .of_same (fun _ => rfl) rfl rfl
  · exact fun packet d _ _ => lives_routeAct x packet d n

theorem lives_work {env : Env} (hand : Hand) : Lives dispatching n (work C env hand n).state :=
  permits_lives.work lives_send (fun _ _ _ _ _ => .of_same (fun _ => rfl) rfl rfl) fun x packet d _ =>
    lives_routeAct x packet d n

variable {consumers : Nat} {s t : System} {a : Action} {H : List (Bytes × JID)}

@[simp] theorem session_dispatching (s : System) (x : Bytes) (m : Prog Node Pc) :
    (s.session x m).dispatching = s.dispatching := by
  unfold System.session
  cases m s.node with
  | done pc n => rfl
  | panic n => rfl

@[simp] theorem worker_dispatching (s : System) (w : Nat) (m : Prog Node Hand) :
    (s.worker w m).dispatching = s.dispatching := by
  unfold System.worker
  cases m s.node with
  | done hand n => rfl
  | panic n => rfl

theorem act_connect (hSid : isUuid x) (hNew : n.sessions x = none) (sess : Session)
    (hConn : sess.status.status = .conn) :
    run act (view dispatching n) [.create x, .start x, .bind x] =
      some (view (Function.update dispatching x true)
        { n with sessions := Function.update n.sessions x (some sess) }) := by
  have hNone : (view dispatching n).lives x = none := by simp [view, hNew]
  have hMade : ∀ life, ((view dispatching n).put x life).lives x = some life :=
    fun _ => Function.update_self ..
  rw [run_cons, act, if_pos ⟨hSid, hNone⟩, Option.bind_some, run_cons, act, advance_eq (hMade _) rfl,
    Option.bind_some, put_put, run_cons, act, advance_eq (hMade _) rfl, Option.bind_some, put_put, run_nil]
  simp only [view, State.put, Option.some.injEq, State.mk.injEq, and_true]
  funext y
  rcases eq_or_ne y x with rfl | hne
  · simp [hConn]
  · simp [Function.update_of_ne hne]

/-- A step of the node is a run of the dispatcher, the clean loop and the sessions. -/
theorem dispatch_refines (hKnown : Known H s) (hNamed : Named s.node)
    (hStep : step C consumers s a = some t) :
    Named t.node ∧ ∃ as, run act (view s.dispatching s.node) as = some (view t.dispatching t.node) := by
  cases stepped_of_step C hStep with
  | connect x hSid hNew =>
    exact ⟨hNamed.update rfl rfl, _, act_connect hSid hNew _ rfl⟩
  | register x hDispatching =>
    obtain ⟨sess, hs⟩ := Option.isSome_iff_exists.mp (hKnown.mapped x (.inr hDispatching))
    refine ⟨hNamed, [.register x], ?_⟩
    have hReady : (view s.dispatching s.node).lives x =
        some { stage := .bound, status := sess.status.status, closers := 0 } := by
      rw [view_lives hs, hDispatching]
      rfl
    rw [run_cons, act, advance_eq hReady rfl]
    simp only [Option.map_some, Option.bind_some, run_nil, view, State.put, Option.some.injEq,
      State.mk.injEq, and_true]
    funext y
    rcases eq_or_ne y x with rfl | hne
    · simp [hs]
    · simp [Function.update_of_ne hne]
  | clean sid rest hQueue =>
    refine ⟨hNamed, [.clean], ?_⟩
    rw [run_cons, act]
    simp only [view, hQueue]
    rfl
  | recv x i hIdle sess hs =>
    rw [session_node, session_dispatching]
    exact lives_begin i hNamed
  | go x env hBusy =>
    rw [session_node, session_dispatching]
    exact lives_next _ hNamed
  | close x env sess hs => exact lives_closeSession x env s.node hNamed
  | work w env hBusy =>
    rw [worker_node, worker_dispatching]
    exact lives_work _ hNamed
  | take w it rest | dtake ch db | dexec ch i db => exact ⟨hNamed, [], rfl⟩

/-- The runs of a node are runs of its dispatchers, its clean loop and its sessions. -/
theorem dispatch_refines_run {nodeid channel : Bytes} {st : Store} {as : List Action}
    (hRun : run (step C consumers) (Concurrent.start nodeid channel st) as = some t) :
    ∃ bs, run act .empty bs = some (view t.dispatching t.node) := by
  have hAll : (∃ H, Known H t) ∧ Named t.node ∧ ∃ bs, run act .empty bs =
      some (view t.dispatching t.node) := by
    refine run_induction (P := fun _ t => (∃ H, Known H t) ∧ Named t.node ∧ ∃ bs, run act .empty bs =
      some (view t.dispatching t.node)) ?_ ?_ hRun
    · refine ⟨⟨[], known_start nodeid channel st⟩, ?_, [], rfl⟩
      intro x sess hs
      cases hs
    · rintro as s a t _ ⟨⟨H, hKnown⟩, hNamed, bs, hRun⟩ hStep
      obtain ⟨hNamed', cs, hRest⟩ := dispatch_refines hKnown hNamed hStep
      refine ⟨⟨_, known_step hKnown hStep⟩, hNamed', bs ++ cs, ?_⟩
      rw [run_append, hRun, Option.bind_some, hRest]
  exact hAll.2.2

end Sara.Dispatch
