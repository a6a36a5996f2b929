import Sara.Core.Frame
import Sara.Node.Login

/-! # The node takes the steps of the login protocol

While only logins are handled no session has a packet in its buffer, and every
step of the node is a step of the protocol on the view. Invariants of the
protocol are therefore invariants of the node.
-/

namespace Sara.Concurrent

open Lib Lib.Prog Lib.Transition Saradb

set_option autoImplicit false

def Buffers (n : Node) : Prop := ∀ x sess, n.sessions x = some sess → sess.pkgBuff = ∅

theorem buffers_start (nodeid channel : Bytes) (st : Store) :
    Buffers (start nodeid channel st).node := fun _ _ h => by cases h

variable {C : Codec} {consumers : Nat} {s t : System} {x : Bytes} {sess : Session}

theorem Buffers.update {n n' : Node} (h : Buffers n) (sess : Session) (hBuff : sess.pkgBuff = ∅)
    (hn : n'.sessions = Function.update n.sessions x (some sess)) : Buffers n' := by
  intro y sess' hy
  rw [hn] at hy
  rcases eq_or_ne y x with rfl | hne
  · rw [Function.update_self] at hy
    exact Option.some.inj hy ▸ hBuff
  · rw [Function.update_of_ne hne] at hy
    exact h y sess' hy

theorem status_update (sessions : Bytes → Option Session) (x : Bytes) (sess : Session) :
    Option.map Session.status ∘ Function.update sessions x (some sess) =
      Function.update (Option.map Session.status ∘ sessions) x (some sess.status) :=
  Function.comp_update ..

theorem view_status (hs : s.node.sessions x = some sess) : s.view.status x = some sess.status := by
  simp [System.view, hs]

/-- Writing to a connection is not seen in the view. -/
theorem sendMessage_login (hBuff : Buffers s.node) (hs : s.node.sessions x = some sess)
    (data : Written) :
    ∃ n, sendMessage x data s.node = .done () n ∧ Buffers n ∧
      ({ s with node := n } : System).view = s.view ∧
      n.sessions x = some { sess with written := sess.written ++ [data] } := by
  have hDone : sendMessage x data s.node = .done () { s.node with
      sessions := Function.update s.node.sessions x
        (some { sess with written := sess.written ++ [data] }) } :=
    congrArg (Outcome.done ()) (Node.updateSession_eq hs _)
  refine ⟨_, hDone, ?_, ?_, Function.update_self ..⟩
  · exact hBuff.update { sess with written := sess.written ++ [data] } (hBuff x sess hs) rfl
  · simp only [System.view, status_update]
    rw [Function.update_eq_self_iff.mpr (by simp [hs])]

theorem closeSession_login (hBuff : Buffers s.node) (hValid : Valid C s.view)
    (hs : s.node.sessions x = some sess) (hOpen : sess.status.status ≠ .close) (env : Env) :
    ∃ n, closeSession C x env s.node = .done () n ∧ Buffers n ∧
      ({ s with node := n } : System).view = s.view.closed x sess.status := by
  have hEmpty := hBuff x sess hs
  refine ⟨s.node.closed x sess, ?_, ?_, ?_⟩
  · rw [closeSession_of_open C hs hOpen (hValid.user x _ (view_status hs)), hEmpty,
      pkgBuffToStore_empty]
  · exact hBuff.update { sess with
      status := { sess.status with status := .close }, connClosed := true } hEmpty rfl
  · simp only [System.view, Node.closed, View.closed, View.setStatus, status_update]

/-- A refusal closes a session that is not logged in, if it is not closed yet. -/
theorem refuse_login (hBuff : Buffers s.node) (hValid : Valid C s.view)
    (hs : s.node.sessions x = some sess) (hLogin : sess.status.status ≠ .login) (id reason : Bytes)
    (env : Env) :
    ∃ n, refuse C x id reason env s.node = .done () n ∧ Buffers n ∧
      ({ s with node := n } : System).view =
        s.view.setStatus x { sess.status with status := .close } := by
  obtain ⟨n, hSend, hBuff', hView, hs'⟩ :=
    sendMessage_login hBuff hs (.answer (newPacketAuthFail id reason))
  have hAnswer : answer x (newPacketAuthFail id reason) s.node = .done () n := hSend
  unfold refuse
  rw [bind_done hAnswer]
  by_cases hClose : sess.status.status = .close
  · refine ⟨n, closeSession_of_close C hs' hClose env, hBuff', ?_⟩
    have hSame : some { sess.status with status := .close } = s.view.status x := by
      rw [view_status hs, ← hClose]
    rw [hView, View.setStatus, Function.update_eq_self_iff.mpr hSame]
  · obtain ⟨n', hDone, hBuff'', hView'⟩ := closeSession_login (s := { s with node := n }) (C := C)
      hBuff' (hView ▸ hValid) hs' hClose env
    refine ⟨n', hDone, hBuff'', ?_⟩
    rw [show ({ s with node := n' } : System).view = _ from hView', hView, View.closed]
    rw [dropEntry_of_ne hLogin]
    rfl

theorem verifyGet_login (hBuff : Buffers s.node) (hValid : Valid C s.view)
    (hs : s.node.sessions x = some sess) (hLogin : sess.status.status ≠ .login) (frame : Bytes)
    (env : Env) :
    (∃ n, verifyGet C x frame env s.node = .done none n ∧ Buffers n ∧
      ({ s with node := n } : System).view =
        s.view.setStatus x { sess.status with status := .close }) ∨
    ∃ packet jid, newPacket C frame = .ok packet ∧ newJID packet.envelope.jid = .ok jid ∧
      verifyGet C x frame env s.node = .done
        (some (packet, jid, (s.node.get jid.toSessionid).map C.unmarshalStatus)) s.node := by
  have hRefuse := refuse_login (C := C) hBuff hValid hs hLogin
  unfold verifyGet
  cases hPacket : newPacket C frame with
  | error e =>
    obtain ⟨n, hDone, hRest⟩ := hRefuse (env.uuid 0) failPacket env
    exact .inl ⟨n, bind_done hDone _, hRest⟩
  | ok packet =>
    simp only
    split
    · obtain ⟨n, hDone, hRest⟩ := hRefuse packet.envelope.id failType env
      exact .inl ⟨n, bind_done hDone _, hRest⟩
    · cases hJid : newJID packet.envelope.jid with
      | error e =>
        obtain ⟨n, hDone, hRest⟩ := hRefuse packet.envelope.id failPacket env
        exact .inl ⟨n, bind_done hDone _, hRest⟩
      | ok jid => exact .inr ⟨packet, jid, rfl, hJid, rfl⟩

theorem begin_conn {n : Node} (hs : n.sessions x = some sess) (hConn : sess.status.status = .conn)
    (i : Input) : begin C x i n = (verifyGet C x i.frame i.env >>= fun r =>
      match r with
      | none => return .idle
      | some (packet, jid, some ss) => return .kill packet jid ss
      | some (packet, jid, none) => return .auth packet jid) n :=
  (bind_done (Node.session_eq hs) _).trans (congrFun (if_pos hConn) n)

theorem begin_login (hBuff : Buffers s.node) (hValid : Valid C s.view) (hIdle : s.pc x = .idle)
    (hs : s.node.sessions x = some sess) (hConn : sess.status.status = .conn) (i : Input) :
    Buffers (s.session x (begin C x i)).node ∧
      LoginStep C s.view (.recv x i) (s.session x (begin C x i)).view := by
  have hLogin : sess.status.status ≠ .login := by simp [hConn]
  have hBegin := begin_conn (C := C) hs hConn i
  unfold System.session
  rcases verifyGet_login (C := C) hBuff hValid hs hLogin i.frame i.env with
    ⟨n, hGet, hBuff', hView⟩ | ⟨packet, jid, hPacket, hJid, hGet⟩
  · rw [hBegin, bind_done hGet]
    refine ⟨hBuff', ?_⟩
    have hStep := LoginStep.refuse (C := C) (v := s.view) x i sess.status (view_status hs) hLogin
      hIdle
    rwa [← hView] at hStep
  · have hStep := LoginStep.look (C := C) (v := s.view) x i sess.status packet jid (view_status hs) hConn
      hIdle hPacket hJid
    rw [hBegin, bind_done hGet]
    cases hFound : s.node.get jid.toSessionid with
    | none =>
      rw [show Redis.get s.view.db.store jid.toSessionid = none from hFound] at hStep
      exact ⟨hBuff, hStep⟩
    | some ssb =>
      rw [show Redis.get s.view.db.store jid.toSessionid = some ssb from hFound] at hStep
      exact ⟨hBuff, hStep⟩

theorem exists_session {st : SessionStatus} (h : s.view.status x = some st) :
    ∃ sess, s.node.sessions x = some sess ∧ sess.status = st := Option.map_eq_some_iff.mp h

theorem next_login (hBuff : Buffers s.node) (hValid : Valid C s.view) (hBusy : s.pc x ≠ .idle)
    (env : Env) :
    Buffers (s.session x (next C x env (s.pc x))).node ∧
      LoginStep C s.view (.go x env) (s.session x (next C x env (s.pc x))).view := by
  have hSound := hValid.pcs x
  have hView : s.view.pc x = s.pc x := rfl
  unfold System.session
  cases hPc : s.pc x with
  | idle => exact absurd hPc hBusy
  | routing packets | acting packet d packets =>
    rw [hView, hPc] at hSound
    exact hSound.elim
  | kill packet jid ss =>
    have hKill : next C x env (.kill packet jid ss) s.node =
        .done (.auth packet jid) (s.node.route (killItem ss)) := rfl
    rw [hKill, Node.route]
    by_cases hRoom : s.node.router.length < routerQueueSize
    · rw [if_pos hRoom]
      exact ⟨hBuff, .routeKill x env packet jid ss hPc hRoom⟩
    · rw [if_neg hRoom]
      exact ⟨hBuff, .routerFull x env packet jid ss hPc hRoom⟩
  | auth packet jid =>
    rw [hView, hPc] at hSound
    obtain ⟨_, st, hStatus, hLogin⟩ := hSound
    obtain ⟨sess, hs, rfl⟩ := exists_session hStatus
    by_cases hAuth : env.auth jid.user packet.envelope.pwd
    · have hOk : next C x env (.auth packet jid) s.node = .done (.logon packet) s.node := by
        simp only [next, verifyAuth]
        rw [if_pos hAuth]
        rfl
      rw [hOk]
      exact ⟨hBuff, .auth x env packet jid hPc⟩
    · obtain ⟨n, hDone, hBuff', hView'⟩ :=
        refuse_login (C := C) hBuff hValid hs hLogin packet.envelope.id failToken env
      have hRefused : next C x env (.auth packet jid) s.node = .done .idle n := by
        simp only [next, verifyAuth]
        rw [if_neg hAuth, bind_assoc, bind_done hDone]
        rfl
      have hStep := LoginStep.reject (C := C) (v := s.view) x env packet jid sess.status hPc hStatus
        hLogin
      rw [← hView'] at hStep
      rw [hRefused]
      exact ⟨hBuff', hStep⟩
  | logon packet =>
    rw [hView, hPc] at hSound
    obtain ⟨_, st, hStatus, _⟩ := hSound
    obtain ⟨sess, hs, rfl⟩ := exists_session hStatus
    let sess' : Session := { sess with status := { sess.status with
      jid := packet.envelope.jid, status := .login, ct := env.timestamp10 } }
    have hLogon : next C x env (.logon packet) s.node = .done (.fetch packet)
        { s.node with sessions := Function.update s.node.sessions x (some sess') } :=
      congrArg (Outcome.done (Pc.fetch packet)) (Node.updateSession_eq hs _)
    have hStep := LoginStep.logon (C := C) (v := s.view) x env packet sess.status hPc hStatus
    rw [hLogon]
    refine ⟨hBuff.update sess' (hBuff x sess hs) rfl, ?_⟩
    simp only [System.view, status_update]
    exact hStep
  | fetch packet =>
    rw [hView, hPc] at hSound
    obtain ⟨st, jid, hStatus, hJid, _⟩ := hSound
    obtain ⟨sess, hs, rfl⟩ := exists_session hStatus
    have hFetch : next C x env (.fetch packet) s.node = _ := bind_done (loginReply_eq hs hJid packet) _
    rw [hFetch]
    exact ⟨hBuff, .fetch x env packet _ hPc⟩
  | publish reply =>
    rw [hView, hPc] at hSound
    obtain ⟨st, jid, hStatus, hJid, _⟩ := hSound
    obtain ⟨sess, hs, rfl⟩ := exists_session hStatus
    have hWrites : statusWrites C x s.node = .done
        (putExWithIdx sess.status.nodeid jid.toSessionid (C.marshalStatus sess.status) (-1)) s.node := by
      unfold statusWrites
      rw [bind_done (Node.session_eq hs), hJid]
      rfl
    have hPublish := bind_done hWrites fun ds => (return .storing ds reply : Prog Node Pc)
    rw [show next C x env (.publish reply) s.node = _ from hPublish]
    exact ⟨hBuff, .publish x env reply sess.status jid hPc hStatus hJid⟩
  | storing ds reply =>
    rw [hView, hPc] at hSound
    obtain ⟨st, jid, hStatus, _, _⟩ := hSound
    obtain ⟨sess, hs, rfl⟩ := exists_session hStatus
    cases ds with
    | nil =>
      obtain ⟨n, hDone, hBuff', hView', _⟩ := sendMessage_login hBuff hs (.answer reply)
      have hAnswer : next C x env (.storing [] reply) s.node = .done .idle n := bind_done hDone _
      have hNew : ({ s with node := n, pc := Function.update s.pc x .idle } : System).view =
          s.view.setPc x .idle := congrArg (fun v => View.setPc v x .idle) hView'
      rw [hAnswer]
      exact ⟨hBuff', hNew ▸ .answer x env reply hPc⟩
    | cons d ds =>
      cases hSend : s.node.db.sendOne d with
      | none =>
        have hFail : next C x env (.storing (d :: ds) reply) s.node = .done (.storing [] reply) s.node := by
          simp only [next, sendNext, bind_apply, hSend]
          rfl
        rw [hFail]
        exact ⟨hBuff, .storeFails x env d ds reply hPc hSend⟩
      | some db =>
        have hSent : next C x env (.storing (d :: ds) reply) s.node =
            .done (.storing ds reply) { s.node with db := db } := by
          simp only [next, sendNext, bind_apply, hSend]
          rfl
        rw [hSent]
        exact ⟨hBuff, .store x env d ds reply db hPc hSend⟩

theorem kill_login (hBuff : Buffers s.node) (hValid : Valid C s.view)
    (hs : s.node.sessions x = some sess) (env : Env) :
    ∃ n, kill C x env s.node = .done () n ∧ Buffers n ∧ ({ s with node := n } : System).view =
      if sess.status.status = .close then s.view else s.view.closed x sess.status := by
  obtain ⟨n, hSend, hBuff', hView, hs'⟩ := sendMessage_login hBuff hs (.signal killSignal)
  unfold kill
  rw [bind_done hSend]
  by_cases hClose : sess.status.status = .close
  · rw [if_pos hClose]
    exact ⟨n, closeSession_of_close C hs' hClose env, hBuff', hView⟩
  · obtain ⟨n', hDone, hBuff'', hView'⟩ := closeSession_login (s := { s with node := n }) (C := C)
      hBuff' (hView ▸ hValid) hs' hClose env
    rw [if_neg hClose]
    exact ⟨n', hDone, hBuff'', by rw [← hView]; exact hView'⟩

/-- One step of a worker. A worker that dereferences a missing packet or session crashes the node. -/
theorem work_login (hBuff : Buffers s.node) (hValid : Valid C s.view) {w : Nat}
    (hBusy : s.hands w ≠ .free) (env : Env) :
    Buffers (s.worker w (work C env (s.hands w))).node ∧
      LoginStep C s.view (.work w env) (s.worker w (work C env (s.hands w))).view := by
  have hKills := hValid.hands w
  have hView : s.view.hands w = s.hands w := rfl
  unfold System.worker
  cases hHand : s.hands w with
  | free => exact absurd hHand hBusy
  | acting x packet d =>
    rw [hView, hHand] at hKills
    exact hKills.elim
  | item it =>
    rw [hView, hHand] at hKills
    by_cases hLocal : it.channel = [] ∨ it.channel = s.node.channel
    · cases hFound : s.node.sessionMap it.sid with
      | true =>
        have hWork : work C env (.item it) s.node = .done (.found it) s.node := by
          simp only [work, bind_apply, read_apply, id_eq, if_pos hLocal, hFound, if_true]
          rfl
        rw [hWork]
        exact ⟨hBuff, .find w env it hHand hFound⟩
      | false =>
        have hWork : work C env (.item it) s.node = .done .free s.node := by
          simp only [work, bind_apply, read_apply, id_eq, if_pos hLocal, hFound, Bool.false_eq_true,
            if_false]
          rfl
        rw [hWork]
        exact ⟨hBuff, .drop w env it hHand hLocal hFound⟩
    · have hWork : work C env (.item it) s.node = .panic s.node := by
        simp only [work, bind_apply, read_apply, id_eq, if_neg hLocal, hKills.1]
        rfl
      rw [hWork]
      exact ⟨hBuff, .crash w env⟩
  | found it =>
    rw [hView, hHand] at hKills
    have hWork : work C env (.found it) s.node =
        (kill C it.sid env >>= fun _ => (return .free : Prog Node Hand)) s.node := by
      simp only [work, hKills.2]
      rfl
    rw [hWork]
    cases hs : s.node.sessions it.sid with
    | none =>
      have hSame : s.node.updateSession it.sid
          (fun s => { s with written := s.written ++ [.signal killSignal] }) = s.node := by
        rw [Node.updateSession, Function.update_eq_self_iff.mpr (by rw [hs]; rfl)]
      have hSend : sendMessage it.sid (.signal killSignal) s.node = .done () s.node :=
        congrArg (Outcome.done ()) hSame
      have hPanic : kill C it.sid env s.node = .panic s.node := by
        unfold kill closeSession
        rw [bind_done hSend, bind_panic (Node.session_eq_panic hs)]
      rw [bind_panic hPanic]
      exact ⟨hBuff, .crash w env⟩
    | some sess =>
      obtain ⟨n, hDone, hBuff', hView'⟩ := kill_login (C := C) hBuff hValid hs env
      have hNew : ({ s with node := n, hands := Function.update s.hands w .free } : System).view =
          ({ s with node := n } : System).view.setHand w .free := rfl
      rw [bind_done hDone]
      refine ⟨hBuff', ?_⟩
      simp only [pure_apply]
      rw [hNew, hView']
      split
      · rename_i hClose
        refine .killClosed w env it hHand ?_
        rintro st hst
        rw [view_status hs] at hst
        cases hst
        exact hClose
      · rename_i hOpen
        exact .kill w env it sess.status hHand (view_status hs) hOpen

/-- Under `LoginsOnly` every step of the node is a step of the protocol. -/
theorem login_step (hBuff : Buffers s.node) (hValid : Valid C s.view) {a : Action}
    (hOnly : LoginsOnly s a) (hStep : step C consumers s a = some t) :
    Buffers t.node ∧ LoginStep C s.view a t.view := by
  cases stepped_of_step C hStep with
  | connect x hSid hNew =>
    refine ⟨hBuff.update (newSession s.node.channel x s.node.nodeid) rfl rfl, ?_⟩
    have hConnect := LoginStep.connect (C := C) (v := s.view) x hSid (by simp [System.view, hNew])
    simp only [System.view, status_update]
    exact hConnect
  | register x => exact ⟨hBuff, .register x⟩
  | clean sid rest => exact ⟨hBuff, .clean _⟩
  | recv x i hIdle sess hs => exact begin_login hBuff hValid hIdle hs (hOnly sess hs) i
  | go x env hBusy => exact next_login hBuff hValid hBusy env
  | close x env sess hs =>
    by_cases hClose : sess.status.status = .close
    · rw [closeSession_of_close C hs hClose]
      exact ⟨hBuff, .closeAgain x env⟩
    · obtain ⟨n, hDone, hBuff', hView⟩ := closeSession_login (C := C) hBuff hValid hs hClose env
      rw [hDone]
      exact ⟨hBuff', hView ▸ .close x env sess.status (view_status hs) hClose⟩
  | take w it rest hRouter _ hFree => exact ⟨hBuff, .take w it rest hRouter hFree⟩
  | work w env hBusy => exact work_login hBuff hValid hBusy env
  | dtake ch db hTake => exact ⟨hBuff, .dtake ch consumers db hTake⟩
  | dexec ch i db hExec => exact ⟨hBuff, .dexec ch i db hExec⟩

/-- What every step of the protocol keeps holds along every run of logins. -/
theorem login_induction {G : System → Action → Prop} (hOnly : ∀ s a, G s a → LoginsOnly s a)
    {nodeid channel : Bytes} {st : Store} {P : List Action → View → Prop}
    (hStart : P [] (start nodeid channel st).view)
    (hNext : ∀ as s a v, run (step C consumers) (start nodeid channel st) as = some s →
      Valid C s.view → G s a → P as s.view → LoginStep C s.view a v → P (as ++ [a]) v)
    {as : List Action} (hRun : run (step C consumers) (start nodeid channel st) as = some t)
    (hGuard : Guarded (step C consumers) G (start nodeid channel st) as) : P as t.view := by
  have hAll : Buffers t.node ∧ Valid C t.view ∧ P as t.view := by
    refine guarded_induction (P := fun as (s : System) => Buffers s.node ∧ Valid C s.view ∧ P as s.view)
      ⟨buffers_start nodeid channel st, valid_start .., hStart⟩ ?_ hRun hGuard
    rintro as s a u hRun _ ⟨hBuff, hValid, hP⟩ hG hStep
    obtain ⟨hBuff', hLogin⟩ := login_step hBuff hValid (hOnly s a hG) hStep
    exact ⟨hBuff', valid_step hValid hLogin, hNext as s a u.view hRun hValid hG hP hLogin⟩
  exact hAll.2.2

end Sara.Concurrent
