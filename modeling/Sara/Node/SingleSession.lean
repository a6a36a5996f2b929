import Sara.Node.Directory
import Sara.Node.Frame

/-! # One session per user

A login looks the user up, has the session it finds killed, and stores its own
entry only after the credentials were checked. Logins of one user that overlap
between look and store miss each other. When they do not overlap, and no kill
and no entry gets lost, every session but the one in the directory has a kill
on its way.
-/

namespace Sara.Concurrent

open Lib Lib.Transition Saradb

set_option autoImplicit false

/-- The address a session logs in with, then that of its status. -/
def View.address (v : View) (y : Bytes) : Option JID :=
  match v.pc y with
  | .kill _ jid _ | .auth _ jid => some jid
  | .logon packet => (newJID packet.envelope.jid).toOption
  | _ => (v.status y).bind fun st => (newJID st.jid).toOption

/-- Between the look at the directory and the `SET`. -/
def LoggingIn (j : JID) (v : View) (y : Bytes) : Prop :=
  (v.pc y).published = false ∧ ∃ k, v.address y = some k ∧ k.toSessionid = j.toSessionid

def LoggedIn (j : JID) (v : View) (y : Bytes) : Prop :=
  ∃ st k, v.status y = some st ∧ st.status = .login ∧ newJID st.jid = .ok k ∧
    k.toSessionid = j.toSessionid

def Pc.target : Pc → Option Bytes
  | .kill _ _ ss => some ss.sid
  | _ => none

def Hand.target : Hand → Option Bytes
  | .item it | .found it => some it.sid
  | .free | .acting _ _ _ => none

def Killing (v : View) (y : Bytes) : Prop :=
  (∃ it ∈ v.router, it.sid = y) ∨ (∃ w, (v.hands w).target = some y) ∨ ∃ z, (v.pc z).target = some y

def loginAddress (C : Codec) (frame : Bytes) : Option JID :=
  (newPacket C frame).toOption.bind fun packet => (newJID packet.envelope.jid).toOption

def Hand.seeks : Hand → Option Bytes
  | .item it => some it.sid
  | .free | .found _ | .acting _ _ _ => none

/-- Logins of `j` do not overlap, kills find room in the queue and their session registered,
and no removal takes the entry of a session that is logged in. -/
def Serial (C : Codec) (j : JID) (v : View) : Action → Prop
  | .recv _ i => ∀ jid ∈ loginAddress C i.frame, jid.toSessionid = j.toSessionid →
      ∀ y, ¬ LoggingIn j v y
  | .go x _ => (v.pc x).target.isSome → v.router.length < routerQueueSize
  | .work w _ => ∀ sid ∈ (v.hands w).seeks, ∀ st ∈ v.status sid, st.status = .login →
      v.sessionMap sid = true
  | .dexec ch i => ∀ c ∈ (v.db.held ch)[i]?, c = .del j.toSessionid →
      ∀ ssb ∈ Redis.get v.db.store j.toSessionid,
        ∀ st ∈ v.status (C.unmarshalStatus ssb).sid, st.status ≠ .login
  | _ => True

section Single

variable {C : Codec} {j : JID} {v v' : View} {a : Action} {x : Bytes}

structure Single (C : Codec) (j : JID) (v : View) : Prop where
  entry : ∀ y, LoggedIn j v y → (v.pc y).published → Killing v y ∨
    ∃ st, v.status y = some st ∧ Redis.get v.db.store j.toSessionid = some (C.marshalStatus st)
  killed : ∀ z, LoggingIn j v z → ∀ y, y ≠ z → LoggedIn j v y → Killing v y
  one : ∀ y z, LoggingIn j v y → LoggingIn j v z → y = z

/-- A session logged in and not past its `SET` is still logging in. -/
theorem LoggedIn.loggingIn (hValid : Valid C v) {y : Bytes} (h : LoggedIn j v y)
    (hPc : (v.pc y).published = false) : LoggingIn j v y := by
  obtain ⟨st, k, hStatus, hLogin, hJid, hKey⟩ := h
  refine ⟨hPc, k, ?_, hKey⟩
  have hSound := hValid.pcs y
  have hAddress : (v.status y).bind (fun st => (newJID st.jid).toOption) = some k := by
    rw [hStatus, Option.bind_some, hJid]
    rfl
  unfold View.address
  cases hEq : v.pc y with
  | kill packet jid ss | auth packet jid | logon packet =>
    rw [hEq, hStatus] at hSound
    obtain ⟨_, st', hSome, hNe⟩ := hSound
    cases hSome
    exact absurd hLogin hNe
  | idle | fetch | publish | storing | routing | acting => exact hAddress

/-- A step that starts no login and logs no one in. -/
theorem Single.mono (h : Single C j v)
    (hStore : Redis.get v'.db.store j.toSessionid = Redis.get v.db.store j.toSessionid)
    (hStatus : ∀ y st, v'.status y = some st → st.status = .login → v.status y = some st)
    (hPc : ∀ y, LoggedIn j v' y → (v'.pc y).published → (v.pc y).published)
    (hLogging : ∀ y, LoggingIn j v' y → LoggingIn j v y)
    (hKilling : ∀ y, LoggedIn j v' y → Killing v y → Killing v' y) : Single C j v' := by
  have hUser : ∀ y, LoggedIn j v' y → LoggedIn j v y := by
    rintro y ⟨st, k, hst, hLogin, hJid, hKey⟩
    exact ⟨st, k, hStatus y st hst hLogin, hLogin, hJid, hKey⟩
  refine ⟨?_, ?_, ?_⟩
  · intro y hy hPublished
    rcases h.entry y (hUser y hy) (hPc y hy hPublished) with hKill | ⟨st, hst, hGet⟩
    · exact .inl (hKilling y hy hKill)
    · obtain ⟨st', k, hst', hLogin, _⟩ := hy
      have hSame := hStatus y st' hst' hLogin
      cases hst.symm.trans hSame
      exact .inr ⟨st, hst', hStore.trans hGet⟩
  · intro z hz y hne hy
    exact hKilling y hy (h.killed z (hLogging z hz) y hne (hUser y hy))
  · intro y z hy hz
    exact h.one y z (hLogging y hy) (hLogging z hz)

theorem View.address_congr {y : Bytes} (hPc : v'.pc y = v.pc y)
    (hJid : (v'.status y).map SessionStatus.jid = (v.status y).map SessionStatus.jid) :
    v'.address y = v.address y := by
  have hBind : ∀ o : Option SessionStatus, o.bind (fun st => (newJID st.jid).toOption) =
      (o.map SessionStatus.jid).bind fun jid => (newJID jid).toOption := by
    intro o
    cases o with
    | none => rfl
    | some st => rfl
  unfold View.address
  rw [hPc, hBind, hBind, hJid]

theorem LoggingIn.congr {y : Bytes} (h : LoggingIn j v' y) (hPc : v'.pc y = v.pc y)
    (hJid : (v'.status y).map SessionStatus.jid = (v.status y).map SessionStatus.jid) :
    LoggingIn j v y := by
  unfold LoggingIn at h ⊢
  rwa [← View.address_congr hPc hJid, ← hPc]

theorem Killing.congr {y : Bytes} (h : Killing v y) (hRouter : v'.router = v.router)
    (hHands : v'.hands = v.hands) (hPc : ∀ z, (v'.pc z).target = (v.pc z).target) : Killing v' y := by
  unfold Killing at h ⊢
  simpa only [hRouter, hHands, hPc] using h

theorem target_setPc (v : View) {pc : Pc} (h : pc.target = (v.pc x).target) (z : Bytes) :
    ((v.setPc x pc).pc z).target = (v.pc z).target := by
  rcases eq_or_ne z x with rfl | hne
  · rw [View.setPc_pc_self, h]
  · rw [View.setPc_pc_of_ne v hne]

theorem Single.setPc (h : Single C j v) (pc : Pc) (hTarget : pc.target = (v.pc x).target)
    (hPublished : pc.published = (v.pc x).published)
    (hAddress : pc.published = false → (v.setPc x pc).address x = v.address x) :
    Single C j (v.setPc x pc) := by
  refine h.mono rfl (fun y st hst _ => hst) ?_ ?_ ?_
  · intro y _ hy
    rcases eq_or_ne y x with rfl | hne
    · rwa [View.setPc_pc_self, hPublished] at hy
    · rwa [View.setPc_pc_of_ne v hne] at hy
  · intro y hy
    rcases eq_or_ne y x with rfl | hne
    · obtain ⟨hNot, hKey⟩ := hy
      rw [View.setPc_pc_self] at hNot
      rw [hAddress hNot] at hKey
      exact ⟨hPublished ▸ hNot, hKey⟩
    · exact hy.congr (v.setPc_pc_of_ne hne pc) rfl
  · intro y _ hy
    exact hy.congr rfl rfl (target_setPc v hTarget)

theorem Single.closed (h : Single C j v) {st : SessionStatus} (hStatus : v.status x = some st) :
    Single C j (v.closed x st) := by
  refine h.mono (by simp only [View.closed, dropEntry_store]) ?_ (fun _ _ hy => hy) ?_ ?_
  · intro y st' hst' hLogin
    rcases eq_or_ne y x with rfl | hne
    · cases (v.setStatus_status_self y _).symm.trans hst'
      cases hLogin
    · rwa [← v.setStatus_status_of_ne hne { st with status := .close }]
  · intro y hy
    refine hy.congr rfl ?_
    rcases eq_or_ne y x with rfl | hne
    · rw [show (v.closed y st).status y = _ from v.setStatus_status_self y _, hStatus]
      rfl
    · rw [show (v.closed x st).status y = _ from v.setStatus_status_of_ne hne _]
  · intro y _ hy
    exact hy.congr rfl rfl fun _ => rfl

theorem Single.refuse (h : Single C j v) {st : SessionStatus} (hStatus : v.status x = some st)
    (hTarget : (v.pc x).target = none) :
    Single C j ((v.setStatus x { st with status := .close }).setPc x .idle) := by
  have hClosed : Single C j (v.setStatus x { st with status := .close }) :=
    (h.closed hStatus).mono (by simp only [View.closed, dropEntry_store]; rfl) (fun _ _ hst _ => hst)
      (fun _ _ hy => hy) (fun _ hy => hy) (fun _ _ hy => hy)
  refine hClosed.mono rfl (fun y st hst _ => hst) ?_ ?_ ?_
  · intro y hy hPublished
    rcases eq_or_ne y x with rfl | hne
    · obtain ⟨st', _, hst', hLogin, _⟩ := hy
      cases (v.setStatus_status_self y _).symm.trans hst'
      cases hLogin
    · rwa [View.setPc_pc_of_ne _ hne] at hPublished
  · intro y hy
    rcases eq_or_ne y x with rfl | hne
    · have hNot := hy.1
      rw [View.setPc_pc_self] at hNot
      cases hNot
    · exact hy.congr (View.setPc_pc_of_ne _ hne _) rfl
  · intro y _ hy
    exact hy.congr rfl rfl (target_setPc _ hTarget.symm)

/-- A login of `j` starts: every session that is logged in has been looked up, or is being killed. -/
theorem Single.look (hSid : ∀ s : SessionStatus, isUuid s.sid →
      (C.unmarshalStatus (C.marshalStatus s)).sid = s.sid)
    (hValid : Valid C v) (h : Single C j v) {st : SessionStatus} {packet : Packet} {jid : JID}
    (hStatus : v.status x = some st) (hConn : st.status = .conn) (hIdle : v.pc x = .idle)
    (hSerial : jid.toSessionid = j.toSessionid → ∀ y, ¬ LoggingIn j v y) {pc : Pc}
    (hPc : pc = match (Redis.get v.db.store jid.toSessionid).map C.unmarshalStatus with
      | some ss => .kill packet jid ss
      | none => .auth packet jid) : Single C j (v.setPc x pc) := by
  have hUser : ∀ y, LoggedIn j v y → y ≠ x := by
    rintro y ⟨st', _, hst', hLogin, _⟩ rfl
    cases hStatus.symm.trans hst'
    rw [hConn] at hLogin
    cases hLogin
  have hKilling : ∀ y, Killing v y → Killing (v.setPc x pc) y := by
    rintro y (hRouter | hHand | ⟨z, hz⟩)
    · exact .inl hRouter
    · exact .inr (.inl hHand)
    · have hne : z ≠ x := by
        rintro rfl
        rw [hIdle] at hz
        cases hz
      exact .inr (.inr ⟨z, by rwa [View.setPc_pc_of_ne v hne]⟩)
  have hAddress : (v.setPc x pc).address x = some jid := by
    unfold View.address
    rw [View.setPc_pc_self, hPc]
    cases Redis.get v.db.store jid.toSessionid with
    | none => rfl
    | some ssb => rfl
  have hLogging : ∀ y, LoggingIn j (v.setPc x pc) y → y ≠ x → LoggingIn j v y := by
    intro y hy hne
    exact hy.congr (v.setPc_pc_of_ne hne pc) rfl
  by_cases hKey : jid.toSessionid = j.toSessionid
  · have hNone := hSerial hKey
    have hOnly : ∀ y, LoggingIn j (v.setPc x pc) y → y = x := by
      intro y hy
      by_contra hne
      exact hNone y (hLogging y hy hne)
    refine ⟨?_, ?_, ?_⟩
    · intro y hy hPublished
      rw [View.setPc_pc_of_ne v (hUser y hy)] at hPublished
      rcases h.entry y hy hPublished with hKill | hEntry
      · exact .inl (hKilling y hKill)
      · exact .inr hEntry
    · intro z hz y hne hy
      cases hOnly z hz
      have hPublished : (v.pc y).published := by
        by_contra hNot
        exact hNone y (LoggedIn.loggingIn hValid hy (by simpa using hNot))
      rcases h.entry y hy hPublished with hKill | ⟨st', hst', hGet⟩
      · exact hKilling y hKill
      · refine .inr (.inr ⟨x, ?_⟩)
        rw [View.setPc_pc_self, hPc, hKey, hGet]
        have hOwn := (hValid.own y st' hst').1
        have hBack := hSid st' (hOwn.symm ▸ hValid.sids y st' hst')
        simp only [Option.map_some, Pc.target, hBack, hOwn]
    · intro y z hy hz
      exact (hOnly y hy).trans (hOnly z hz).symm
  · refine h.mono rfl (fun y st hst _ => hst) ?_ ?_ (fun y _ => hKilling y)
    · intro y hy hPublished
      rwa [View.setPc_pc_of_ne v (hUser y hy)] at hPublished
    · intro y hy
      refine hLogging y hy ?_
      rintro rfl
      obtain ⟨_, k, hk, hSame⟩ := hy
      cases hAddress.symm.trans hk
      exact hKey hSame

theorem Single.logon (h : Single C j v) {packet : Packet} (hPc : v.pc x = .logon packet)
    (st : SessionStatus) (hJid : st.jid = packet.envelope.jid) :
    Single C j ((v.setStatus x st).setPc x (.fetch packet)) := by
  let u := (v.setStatus x st).setPc x (.fetch packet)
  have hStatusSelf : u.status x = some st := v.setStatus_status_self x st
  have hPcSelf : u.pc x = .fetch packet := View.setPc_pc_self ..
  have hAddress : u.address x = v.address x := by
    unfold View.address
    rw [hPcSelf, hPc]
    simp only [hStatusSelf, Option.bind_some, hJid]
  have hLogging : ∀ y, LoggingIn j u y → LoggingIn j v y := by
    intro y hy
    rcases eq_or_ne y x with rfl | hne
    · obtain ⟨_, hKey⟩ := hy
      rw [hAddress] at hKey
      exact ⟨by rw [hPc]; rfl, hKey⟩
    · refine hy.congr (View.setPc_pc_of_ne _ hne _) ?_
      rw [show u.status y = _ from v.setStatus_status_of_ne hne st]
  have hUser : ∀ y, y ≠ x → LoggedIn j u y → LoggedIn j v y := by
    rintro y hne ⟨st', k, hst', hRest⟩
    exact ⟨st', k, by rwa [← v.setStatus_status_of_ne hne st], hRest⟩
  have hKilling : ∀ y, Killing v y → Killing u y := by
    intro y hy
    exact hy.congr rfl rfl (target_setPc (v.setStatus x st) (by rw [show (v.setStatus x st).pc x = _ from hPc]; rfl))
  refine ⟨?_, ?_, fun y z hy hz => h.one y z (hLogging y hy) (hLogging z hz)⟩
  · intro y hy hPublished
    rcases eq_or_ne y x with rfl | hne
    · rw [show ((v.setStatus y st).setPc y (.fetch packet)).pc y = _ from hPcSelf] at hPublished
      cases hPublished
    · rw [show u.pc y = v.pc y from View.setPc_pc_of_ne _ hne _] at hPublished
      rcases h.entry y (hUser y hne hy) hPublished with hKill | ⟨st', hst', hGet⟩
      · exact .inl (hKilling y hKill)
      · exact .inr ⟨st', by rw [← hst']; exact v.setStatus_status_of_ne hne st, hGet⟩
  · intro z hz y hyz hy
    have hne : y ≠ x := by
      rintro rfl
      obtain ⟨st', k, hst', _, hk, hKey⟩ := hy
      have hSelf : LoggingIn j u y := by
        refine ⟨by rw [hPcSelf]; rfl, k, ?_, hKey⟩
        unfold View.address
        rw [hPcSelf]
        simp only
        rw [hst', Option.bind_some, hk]
        rfl
      exact hyz (h.one y z (hLogging y hSelf) (hLogging z hz))
    exact hKilling y (h.killed z (hLogging z hz) y hyz (hUser y hne hy))

/-- The `SET` makes the session the one in the directory; all others are being killed. -/
theorem Single.set (h : Single C j v) {value : Bytes} {st : SessionStatus} {jid : JID} {d : Dispatch}
    {reply : Packet} (hStatus : v.status x = some st) (hJid : newJID st.jid = .ok jid)
    (hValue : st.status = .login → value = C.marshalStatus st) (hPc : v.pc x = .storing [d] reply) :
    Single C j { v.setPc x (.storing [] reply) with db := { v.db with
      store := Redis.exec v.db.store (.set jid.toSessionid value) } } := by
  let u : View := { v.setPc x (.storing [] reply) with db := { v.db with
    store := Redis.exec v.db.store (.set jid.toSessionid value) } }
  have hLogging : ∀ y, LoggingIn j u y → y ≠ x ∧ LoggingIn j v y := by
    intro y hy
    have hne : y ≠ x := by
      rintro rfl
      have hNot := hy.1
      rw [show u.pc y = _ from v.setPc_pc_self y _] at hNot
      cases hNot
    exact ⟨hne, hy.congr (v.setPc_pc_of_ne hne _) rfl⟩
  have hKilling : ∀ y, Killing v y → Killing u y := by
    intro y hy
    exact hy.congr rfl rfl (target_setPc v (by rw [hPc]; rfl))
  by_cases hKey : jid.toSessionid = j.toSessionid
  · have hSelf : LoggingIn j v x := by
      refine ⟨by rw [hPc]; rfl, jid, ?_, hKey⟩
      unfold View.address
      rw [hPc]
      simp only [hStatus, Option.bind_some, hJid]
      rfl
    refine ⟨?_, ?_, ?_⟩
    · intro y hy _
      rcases eq_or_ne y x with rfl | hne
      · obtain ⟨st', _, hst', hLogin, _⟩ := hy
        cases hStatus.symm.trans hst'
        have hSet := Redis.exec_key v.db.store (.set j.toSessionid value)
        simp only [Redis.Cmd.key] at hSet
        refine .inr ⟨st, hStatus, ?_⟩
        simp only [Redis.get, hKey, hSet, ← hValue hLogin]
        rfl
      · exact .inl (hKilling y (h.killed x hSelf y hne hy))
    · intro z hz
      exact absurd (h.one z x (hLogging z hz).2 hSelf) (hLogging z hz).1
    · intro y z hy _
      exact absurd (h.one y x (hLogging y hy).2 hSelf) (hLogging y hy).1
  · refine h.mono ?_ (fun y st hst _ => hst) ?_ (fun y hy => (hLogging y hy).2) (fun y _ => hKilling y)
    · exact Redis.get_exec_of_ne (c := .set jid.toSessionid value) (Ne.symm hKey)
    · intro y hy hPublished
      have hne : y ≠ x := by
        rintro rfl
        obtain ⟨st', k, hst', _, hk, hSame⟩ := hy
        cases hStatus.symm.trans hst'
        cases hJid.symm.trans hk
        exact hKey hSame
      rwa [show u.pc y = _ from v.setPc_pc_of_ne hne _] at hPublished

/-- A removal may take an entry of no use, or one whose session is being killed anyway. -/
theorem Single.delete (hSid : ∀ s : SessionStatus, isUuid s.sid →
      (C.unmarshalStatus (C.marshalStatus s)).sid = s.sid)
    (hNode : ∀ k : JID, indexKey v.nodeid ≠ k.toSessionid) (hValid : Valid C v) (h : Single C j v)
    {c : Cmd} (hc : Deletes v.nodeid c) {db : Database} (hStore : db.store = Redis.exec v.db.store c)
    (hEntry : c = .del j.toSessionid → ∀ ssb ∈ Redis.get v.db.store j.toSessionid,
      ∀ st ∈ v.status (C.unmarshalStatus ssb).sid, st.status ≠ .login) :
    Single C j { v with db := db } := by
  by_cases hDel : c = .del j.toSessionid
  · refine ⟨?_, h.killed, h.one⟩
    intro y hy hPublished
    rcases h.entry y hy hPublished with hKill | ⟨st, hst, hGet⟩
    · exact .inl hKill
    · have hOwn := (hValid.own y st hst).1
      have hBack := hSid st (hOwn.symm ▸ hValid.sids y st hst)
      obtain ⟨st', _, hst', hLogin, _⟩ := hy
      cases hst.symm.trans hst'
      exact absurd hLogin (hEntry hDel _ hGet st (by rw [hBack, hOwn]; exact hst))
  · have hne : j.toSessionid ≠ c.key := by
      obtain ⟨k, rfl | rfl⟩ := hc
      · exact (hNode j).symm
      · intro hSame
        exact hDel (congrArg Redis.Cmd.del (show k.toSessionid = j.toSessionid from hSame.symm))
    refine h.mono ?_ (fun _ _ hst _ => hst) (fun _ _ hy => hy) (fun _ hy => hy) (fun _ _ hy => hy)
    simp only [hStore]
    exact Redis.get_exec_of_ne hne

/-- A step of the router: no session loses a kill that it still needs. -/
theorem Single.frame (h : Single C j v)
    (hStore : Redis.get v'.db.store j.toSessionid = Redis.get v.db.store j.toSessionid)
    (hStatus : v'.status = v.status) (hPc : v'.pc = v.pc)
    (hKilling : ∀ y, LoggedIn j v y → Killing v y → Killing v' y) : Single C j v' := by
  refine h.mono hStore (fun y st hst _ => hStatus ▸ hst) (fun y _ hy => hPc ▸ hy) ?_ ?_
  · intro y hy
    exact hy.congr (congrFun hPc y) (by rw [hStatus])
  · intro y hy
    refine hKilling y ?_
    unfold LoggedIn at hy ⊢
    rwa [← hStatus]

theorem Killing.setHand {y : Bytes} (h : Killing v y) {w : Nat} (hand : Hand)
    (hTarget : (v.hands w).target = some y → hand.target = some y) :
    Killing (v.setHand w hand) y := by
  rcases h with hRouter | ⟨w', hw'⟩ | hPc
  · exact .inl hRouter
  · rcases eq_or_ne w' w with rfl | hne
    · exact .inr (.inl ⟨w', by simpa [View.setHand] using hTarget hw'⟩)
    · exact .inr (.inl ⟨w', by simpa [View.setHand, hne] using hw'⟩)
  · exact .inr (.inr hPc)

theorem Single.routeKill (h : Single C j v) {packet : Packet} {jid : JID} {ss : SessionStatus}
    (hPc : v.pc x = .kill packet jid ss) :
    Single C j { v.setPc x (.auth packet jid) with router := v.router ++ [killItem ss] } := by
  refine h.mono rfl (fun _ _ hst _ => hst) ?_ ?_ ?_
  · intro y _ hy
    rcases eq_or_ne y x with rfl | hne
    · rw [show (v.setPc y (.auth packet jid)).pc y = _ from v.setPc_pc_self y _] at hy
      cases hy
    · rwa [show (v.setPc x (.auth packet jid)).pc y = _ from v.setPc_pc_of_ne hne _] at hy
  · intro y hy
    rcases eq_or_ne y x with rfl | hne
    · obtain ⟨_, k, hk, hKey⟩ := hy
      have hAddress : v.address y = some jid := by
        unfold View.address
        rw [hPc]
      have hSame : (v.setPc y (.auth packet jid)).address y = some jid := by
        unfold View.address
        rw [View.setPc_pc_self]
      cases hSame.symm.trans hk
      exact ⟨by rw [hPc]; rfl, jid, hAddress, hKey⟩
    · exact hy.congr (v.setPc_pc_of_ne hne _) rfl
  · rintro y _ (⟨it, hit, hSid⟩ | hHand | ⟨z, hz⟩)
    · exact .inl ⟨it, List.mem_append_left _ hit, hSid⟩
    · exact .inr (.inl hHand)
    · rcases eq_or_ne z x with rfl | hne
      · rw [hPc] at hz
        exact .inl ⟨killItem ss, List.mem_append_right _ List.mem_cons_self, Option.some.inj hz⟩
      · exact .inr (.inr ⟨z, by rw [← hz]; exact congrArg Pc.target (v.setPc_pc_of_ne hne _)⟩)

theorem Single.take (h : Single C j v) {w : Nat} {it : RouterItem} {rest : List RouterItem}
    (hRouter : v.router = it :: rest) (hHand : v.hands w = .free) :
    Single C j { v.setHand w (.item it) with router := rest } := by
  refine h.frame rfl rfl rfl ?_
  rintro y _ (⟨it', hit', hSid⟩ | ⟨w', hw'⟩ | hPc)
  · rw [hRouter] at hit'
    rcases List.mem_cons.mp hit' with rfl | hRest
    · exact .inr (.inl ⟨w, by simp [View.setHand, Hand.target, hSid]⟩)
    · exact .inl ⟨it', hRest, hSid⟩
  · have hne : w' ≠ w := by
      rintro rfl
      rw [hHand] at hw'
      cases hw'
    exact .inr (.inl ⟨w', by simpa [View.setHand, hne] using hw'⟩)
  · exact .inr (.inr hPc)

theorem Single.release (h : Single C j v) {w : Nat} {it : RouterItem}
    (hHand : (v.hands w).target = some it.sid) (hUser : ¬ LoggedIn j v it.sid) :
    Single C j (v.setHand w .free) := by
  refine h.frame rfl rfl rfl ?_
  intro y hy hKill
  refine hKill.setHand .free ?_
  intro hTarget
  cases hHand.symm.trans hTarget
  exact absurd hy hUser

theorem single_step (hSid : ∀ s : SessionStatus, isUuid s.sid →
      (C.unmarshalStatus (C.marshalStatus s)).sid = s.sid)
    (hNode : ∀ k : JID, indexKey v.nodeid ≠ k.toSessionid) (hIndex : IndexHash v.db.store v.nodeid)
    (hValid : Valid C v) (h : Single C j v) (hSerial : Serial C j v a) (hStep : LoginStep C v a v') :
    Single C j v' := by
  cases hStep with
  | crash | closeAgain => exact h
  | connect y hIsSid hNew =>
    refine h.mono rfl ?_ (fun _ _ hy => hy) ?_ (fun _ _ hy => hy)
    · intro z st hst hLogin
      rcases eq_or_ne z y with rfl | hne
      · cases (v.setStatus_status_self z _).symm.trans hst
        cases hLogin
      · rwa [← v.setStatus_status_of_ne hne (newSession v.channel y v.nodeid).status]
    · intro z hz
      rcases eq_or_ne z y with rfl | hne
      · have hSound := hValid.pcs z
        have hNot : (v.pc z).published = false := hz.1
        rw [hNew] at hSound
        rw [hSound.idle_of_none] at hNot
        cases hNot
      · exact hz.congr rfl (by rw [v.setStatus_status_of_ne hne])
  | register | clean => exact h.frame rfl rfl rfl fun _ _ hy => hy
  | look y i st packet jid hStatus hConn hIdle hPacket hJid =>
    have hAddress : loginAddress C i.frame = some jid := by
      rw [loginAddress, hPacket, Except.toOption, Option.bind_some, hJid]
      rfl
    exact h.look hSid hValid hStatus hConn hIdle (hSerial jid hAddress) rfl
  | refuse y i st hStatus hLogin hIdle => exact h.refuse hStatus (by rw [hIdle]; rfl)
  | routeKill y env packet jid ss hPc hRoom => exact h.routeKill hPc
  | routerFull y env packet jid ss hPc hFull =>
    exact absurd (hSerial (by rw [hPc]; rfl)) hFull
  | auth y env packet jid hPc =>
    have hSound := hValid.sound hPc
    refine h.setPc _ (by rw [hPc]; rfl) (by rw [hPc]; rfl) ?_
    intro _
    unfold View.address
    rw [View.setPc_pc_self, hPc]
    simp only [hSound.1]
    rfl
  | reject y env packet jid st hPc hStatus hLogin => exact h.refuse hStatus (by rw [hPc]; rfl)
  | logon y env packet st hPc hStatus => exact h.logon hPc _ rfl
  | fetch y env packet reply hPc =>
    refine h.setPc _ (by rw [hPc]; rfl) (by rw [hPc]; rfl) ?_
    intro _
    unfold View.address
    rw [View.setPc_pc_self, hPc]
    rfl
  | publish y env reply st jid hPc hStatus hJid =>
    rw [putExWithIdx_toSessionid]
    refine h.setPc _ (by rw [hPc]; rfl) (by rw [hPc]; rfl) ?_
    intro _
    unfold View.address
    rw [View.setPc_pc_self, hPc]
    rfl
  | store y env d ds reply db hPc hSend =>
    obtain ⟨st, jid, value, hStatus, hJid, _, hValue, ⟨rfl, rfl⟩ | ⟨rfl, rfl⟩⟩ :=
      storing_cases hValid hPc
    · cases Database.sendOne_direct hSend
      have hSet : Single C j (v.setPc y (.storing [.direct (.set jid.toSessionid value)] reply)) := by
        refine h.setPc _ (by rw [hPc]; rfl) (by rw [hPc]; rfl) ?_
        intro _
        unfold View.address
        rw [View.setPc_pc_self, hPc]
        rfl
      exact hSet.mono (Redis.get_exec_of_ne (hNode j).symm) (fun _ _ hst _ => hst) (fun _ _ hy => hy)
        (fun _ hy => hy) (fun _ _ hy => hy)
    · cases Database.sendOne_direct hSend
      exact h.set hStatus hJid hValue hPc
  | storeFails y env d ds reply hPc hSend =>
    obtain ⟨_, jid, value, _, _, _, _, ⟨rfl, _⟩ | ⟨rfl, _⟩⟩ := storing_cases hValid hPc
    · have hSent := Database.sendOne_hset hIndex jid.toSessionid value
      rw [hSend] at hSent
      cases hSent
    · cases hSend
  | answer y env reply hPc =>
    exact h.setPc _ (by rw [hPc]; rfl) (by rw [hPc]; rfl) (fun hNot => by cases hNot)
  | close y env st hStatus hOpen => exact h.closed hStatus
  | take w it rest hRouter hHand => exact h.take hRouter hHand
  | find w env it hHand hFound =>
    refine h.frame rfl rfl rfl fun y _ hKill => hKill.setHand _ ?_
    rw [hHand]
    exact id
  | drop w env it hHand hLocal hGone =>
    refine h.release (by rw [hHand]; rfl) ?_
    rintro ⟨st, _, hst, hLogin, _⟩
    rw [hSerial it.sid (by rw [hHand]; rfl) st hst hLogin] at hGone
    cases hGone
  | kill w env it st hHand hStatus hOpen =>
    refine (h.closed hStatus).release (by rw [show (v.closed it.sid st).hands w = _ from hHand]; rfl) ?_
    rintro ⟨st', _, hst', hLogin, _⟩
    cases (v.setStatus_status_self it.sid _).symm.trans hst'
    cases hLogin
  | killClosed w env it hHand hClosed =>
    refine h.release (by rw [hHand]; rfl) ?_
    rintro ⟨st, _, hst, hLogin, _⟩
    rw [hClosed st hst] at hLogin
    cases hLogin
  | dtake ch consumers db hTake =>
    exact h.frame (by simp only [Database.take_store hTake]) rfl rfl fun _ _ hy => hy
  | dexec ch i db hExec =>
    obtain ⟨c, hc, hStore, hPerm⟩ := Database.pending_execHeld hExec
    exact h.delete hSid hNode hValid (hValid.pending c (hPerm.mem_iff.mpr List.mem_cons_self)) hStore
      (hSerial c hc)

theorem single_start (C : Codec) (j : JID) (nodeid channel : Bytes) (st : Store) :
    Single C j (start nodeid channel st).view where
  entry := by
    rintro y ⟨_, _, hStatus, _⟩
    cases hStatus
  killed := by
    rintro z ⟨hNot, _⟩
    cases hNot
  one := by
    rintro y z ⟨hNot, _⟩
    cases hNot

end Single

/-- Once all logins are done and the router with its workers is empty, a user has at most one
session logged in, if the logins of that user did not overlap and no kill got lost. The
law on the JSON codec is that a session id, which needs no escape, is read back as written. -/
theorem at_most_one_session (C : Codec) (hSid : ∀ s : SessionStatus, isUuid s.sid →
      (C.unmarshalStatus (C.marshalStatus s)).sid = s.sid)
    (consumers : Nat) (nodeid channel : Bytes) (st : Store)
    (hNode : ∀ k : JID, indexKey nodeid ≠ k.toSessionid) (hIndex : IndexHash st nodeid) (j : JID)
    {as : List Action} {t : System}
    (hRun : run (step C consumers) (start nodeid channel st) as = some t)
    (hGuard : Guarded (step C consumers) (fun s a => LoginsOnly s a ∧ Serial C j s.view a)
      (start nodeid channel st) as)
    (hIdle : ∀ y, t.pc y = .idle) (hRouter : t.node.router = []) (hHands : ∀ w, t.hands w = .free)
    {y z : Bytes} (hy : LoggedIn j t.view y) (hz : LoggedIn j t.view z) : y = z := by
  have hAll : Valid C t.view ∧ t.view.nodeid = nodeid ∧ IndexHash t.view.db.store t.view.nodeid ∧
      Single C j t.view := by
    refine login_induction (C := C) (P := fun _ v => Valid C v ∧ v.nodeid = nodeid ∧
      IndexHash v.db.store v.nodeid ∧ Single C j v) (fun s a hG => hG.1)
      ⟨valid_start .., rfl, hIndex, single_start ..⟩ ?_ hRun hGuard
    rintro as s a v _ hValid hG ⟨_, hNodeid, hIndex, hSingle⟩ hStep
    have hNode' : ∀ k : JID, indexKey s.view.nodeid ≠ k.toSessionid := hNodeid ▸ hNode
    exact ⟨valid_step hValid hStep, (store_step hValid hStep).1.trans hNodeid,
      indexHash_step hNode' hValid hIndex hStep,
      single_step hSid hNode' hIndex hValid hSingle hG.2 hStep⟩
  obtain ⟨hValid, _, _, hSingle⟩ := hAll
  have hQuiet : ∀ x, ¬ Killing t.view x := by
    rintro x (⟨it, hit, _⟩ | ⟨w, hw⟩ | ⟨u, hu⟩)
    · rw [show t.view.router = [] from hRouter] at hit
      cases hit
    · rw [show t.view.hands w = .free from hHands w] at hw
      cases hw
    · rw [show t.view.pc u = .idle from hIdle u] at hu
      cases hu
  have hEntry : ∀ x, LoggedIn j t.view x → ∃ ssb,
      Redis.get t.view.db.store j.toSessionid = some ssb ∧ (C.unmarshalStatus ssb).sid = x := by
    intro x hx
    have hPublished : (t.view.pc x).published := by
      rw [show t.view.pc x = .idle from hIdle x]
      rfl
    rcases hSingle.entry x hx hPublished with hKill | ⟨st, hst, hGet⟩
    · exact absurd hKill (hQuiet x)
    · have hOwn := (hValid.own x st hst).1
      exact ⟨_, hGet, (hSid st (hOwn.symm ▸ hValid.sids x st hst)).trans hOwn⟩
  obtain ⟨ssb, hGet, rfl⟩ := hEntry y hy
  obtain ⟨ssb', hGet', rfl⟩ := hEntry z hz
  rw [Option.some.inj (hGet.symm.trans hGet')]

/-! ## Runs of two sessions -/

section Support

variable {C : Codec} {v v' : View} {a : Action}

/-- `Serial` on a run of few sessions, in a form that can be evaluated. -/
def SerialOn (xs : List Bytes) (C : Codec) (j : JID) (v : View) : Action → Prop
  | .recv _ _ => ∀ y ∈ xs, (v.pc y).published
  | .go x _ => (v.pc x).target.isSome → v.router.length < routerQueueSize
  | .work w _ => ∀ sid ∈ (v.hands w).seeks, ∀ st ∈ v.status sid, st.status = .login →
      v.sessionMap sid = true
  | .dexec ch i => ∀ c ∈ (v.db.held ch)[i]?, c = .del j.toSessionid →
      ∀ ssb ∈ Redis.get v.db.store j.toSessionid,
        ∀ st ∈ v.status (C.unmarshalStatus ssb).sid, st.status ≠ .login
  | _ => True

instance (xs : List Bytes) (C : Codec) (j : JID) (v : View) :
    (a : Action) → Decidable (SerialOn xs C j v a)
  | .recv _ _ => inferInstanceAs (Decidable (∀ y ∈ xs, (v.pc y).published))
  | .go x _ =>
    inferInstanceAs (Decidable ((v.pc x).target.isSome → v.router.length < routerQueueSize))
  | .work w _ => inferInstanceAs (Decidable (∀ sid ∈ (v.hands w).seeks, ∀ st ∈ v.status sid,
      st.status = .login → v.sessionMap sid = true))
  | .dexec ch i => inferInstanceAs (Decidable (∀ c ∈ (v.db.held ch)[i]?, c = .del j.toSessionid →
      ∀ ssb ∈ Redis.get v.db.store j.toSessionid,
        ∀ st ∈ v.status (C.unmarshalStatus ssb).sid, st.status ≠ .login))
  | .connect _ | .register _ | .clean | .close _ _ | .take _ | .dtake _ => isTrue trivial

theorem serial_of_serialOn {xs : List Bytes} {j : JID} (hIdle : ∀ y, y ∉ xs → v.pc y = .idle)
    (h : SerialOn xs C j v a) : Serial C j v a := by
  cases a with
  | recv x i =>
    rintro jid _ _ y ⟨hNot, _⟩
    by_cases hy : y ∈ xs
    · rw [h y hy] at hNot
      cases hNot
    · rw [hIdle y hy] at hNot
      cases hNot
  | connect | register | clean | go | close | take | work | dtake | dexec => exact h

end Support

theorem quote_notMem_of_isUuid {x : Bytes} (h : isUuid x) : PlainJson.quote ∉ x := by
  intro hQuote
  have hAll := (Bool.and_eq_true_iff.mp h).2
  have hHex := List.all_eq_true.mp hAll _ hQuote
  revert hHex
  decide

theorem at_most_one_session_clean :
    ∃ t, run (step PlainJson.codec 20) node01 cleanTakeover = some t ∧
      LoggedIn bob t.view (text "b2") ∧ ∀ y, LoggedIn bob t.view y → y = text "b2" := by
  have hExists : ∃ t, run (step PlainJson.codec 20) node01 cleanTakeover = some t ∧
      t.pc (text "a1") = .idle ∧ t.pc (text "b2") = .idle ∧ t.hands 0 = .free ∧ t.node.router = [] ∧
      (t.view.status (text "b2")).map (fun st => (st.status, st.jid)) = some (.login, text "bob@x") :=
    exists_run (by decide +kernel)
  obtain ⟨t, hRun, hA1, hB2, hHand, hRouter, hStatus⟩ := hExists
  have hConnected : cleanTakeover.filterMap Action.connected = [text "a1", text "b2"] := rfl
  have hTaken : cleanTakeover.filterMap Action.taken = [0] := rfl
  have hSerial : Guarded (step PlainJson.codec 20) (fun s a => LoginsOnly s a ∧
      SerialOn [text "a1", text "b2"] PlainJson.codec bob s.view a) node01 cleanTakeover := by
    decide +kernel
  obtain ⟨hPcs, hHands⟩ := idle_outside hRun
  rw [hConnected] at hPcs
  rw [hTaken] at hHands
  have hLogged : LoggedIn bob t.view (text "b2") := by
    obtain ⟨st, hst, hEq⟩ := Option.map_eq_some_iff.mp hStatus
    refine ⟨st, bob, hst, congrArg Prod.fst hEq, ?_, rfl⟩
    rw [show st.jid = text "bob@x" from congrArg Prod.snd hEq]
    rfl
  refine ⟨t, hRun, hLogged, ?_⟩
  intro y hy
  refine at_most_one_session PlainJson.codec
    (fun s hs => PlainJson.unmarshalStatus_sid (quote_notMem_of_isUuid hs)) 20 (text "node01")
    (text "node01:4281") (fun _ => none) node01_index rfl bob hRun ?_ ?_ hRouter ?_ hy hLogged
  · refine guarded_of_run hSerial ?_
    rintro bs a s ⟨cs, hcs⟩ hRun' ⟨hLogin, hOn⟩
    rw [List.append_assoc] at hcs
    refine ⟨hLogin, serial_of_serialOn ?_ hOn⟩
    intro z hz
    refine ((idle_outside hRun').1 z ?_).2
    intro hMem
    refine hz ?_
    rw [← hConnected, ← hcs, List.filterMap_append]
    exact List.mem_append_left _ hMem
  · intro z
    by_cases hz : z ∈ [text "a1", text "b2"]
    · rcases List.mem_cons.mp hz with rfl | hz
      · exact hA1
      · cases List.mem_singleton.mp hz
        exact hB2
    · exact (hPcs z hz).2
  · intro w
    by_cases hw : w ∈ [0]
    · cases List.mem_singleton.mp hw
      exact hHand
    · exact hHands w hw

/-- Both sessions look before either has stored its entry. -/
def overlappingLogins : List Action :=
  arrives (text "a1") ++ arrives (text "b2") ++ goes (text "a1") 7 ++ goes (text "b2") 7

/-- Neither login finds the other session, so nothing is killed. -/
theorem overlapping_logins_both_stay :
    Guarded (step PlainJson.codec 20) LoginsOnly node01 overlappingLogins ∧
    ∃ t, run (step PlainJson.codec 20) node01 overlappingLogins = some t ∧
      t.pc (text "a1") = .idle ∧ t.pc (text "b2") = .idle ∧ t.node.router = [] ∧ t.hands 0 = .free ∧
      (t.view.status (text "a1")).map (fun st => (st.status, st.jid)) = some (.login, text "bob@x") ∧
      (t.view.status (text "b2")).map (fun st => (st.status, st.jid)) = some (.login, text "bob@x") :=
  ⟨by decide +kernel, exists_run (by decide +kernel)⟩

end Sara.Concurrent
