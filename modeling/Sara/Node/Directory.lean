import Sara.Node.LoginRefinement
import Sara.Types.PlainJson

/-! # The directory after a repeat login

A login writes the user's entry straight to the store, while the close of an
older session of that user only queues its removal. The entry of the session
that stored last stays as long as no queued removal is executed after it.
-/

namespace Sara.Concurrent

open Lib Lib.Transition Saradb

set_option autoImplicit false

def Pc.published : Pc → Bool
  | .idle | .storing [] _ | .routing _ | .acting _ _ _ => true
  | _ => false

def Pc.indexed : Pc → Bool
  | .storing [_] _ => true
  | pc => pc.published

theorem Pc.indexed_of_published {pc : Pc} (h : pc.published) : pc.indexed := by
  unfold Pc.indexed
  split
  · rfl
  · exact h

def publishes (j : JID) (v : View) : Action → List Bytes
  | .go x _ =>
    match v.pc x with
    | .storing (.direct (.set key _) :: _) _ => if key = j.toSessionid then [x] else []
    | _ => []
  | _ => []

/-- No removal of the entry of `j` is executed after `x`, still logged in, has stored it. -/
def NoLateDelete (x : Bytes) (j : JID) (v : View) : Action → Prop
  | .dexec ch i => ∀ c ∈ (v.db.held ch)[i]?, ∀ st ∈ v.status x, st.status = .login →
      (c = .del j.toSessionid → (v.pc x).published = false) ∧
      (c = .hdel (indexKey v.nodeid) j.toSessionid → (v.pc x).indexed = false)
  | _ => True

instance (s : System) : (a : Action) → Decidable (LoginsOnly s a)
  | .recv x _ => inferInstanceAs (Decidable (∀ sess ∈ s.node.sessions x, sess.status.status = .conn))
  | .connect _ | .register _ | .clean | .go _ _ | .close _ _ | .take _ | .work _ _ | .dtake _
  | .dexec _ _ => isTrue trivial

instance (x : Bytes) (j : JID) (v : View) : (a : Action) → Decidable (NoLateDelete x j v a)
  | .dexec ch i => inferInstanceAs (Decidable (∀ c ∈ (v.db.held ch)[i]?, ∀ st ∈ v.status x,
      st.status = .login → (c = .del j.toSessionid → (v.pc x).published = false) ∧
      (c = .hdel (indexKey v.nodeid) j.toSessionid → (v.pc x).indexed = false)))
  | .connect _ | .register _ | .clean | .recv _ _ | .go _ _ | .close _ _ | .take _ | .work _ _
  | .dtake _ => isTrue trivial

/-! ## The index stays a hash -/

section Index

variable {C : Codec} {v v' : View} {a : Action}

/-- What a step does to the store: nothing, or one command of a login, or a queued removal. -/
theorem store_step (h : Valid C v) (hStep : LoginStep C v a v') :
    v'.nodeid = v.nodeid ∧
    (v'.db.store = v.db.store ∨ ∃ c, v'.db.store = Redis.exec v.db.store c ∧
      ((∃ (j : JID) (value : Bytes), c = .hset (indexKey v.nodeid) j.toSessionid value ∨
        c = .set j.toSessionid value) ∨ Deletes v.nodeid c)) := by
  cases hStep with
  | crash | closeAgain | connect | register | clean | look | refuse | routeKill | routerFull | auth
  | reject | logon | fetch | publish | storeFails | answer | take | find | drop | killClosed => exact ⟨rfl, .inl rfl⟩
  | close | kill => exact ⟨rfl, .inl (dropEntry_store ..)⟩
  | store x env d ds reply db hPc hSend =>
    refine ⟨rfl, .inr ?_⟩
    obtain ⟨st, jid, value, _, _, _, _, ⟨rfl, _⟩ | ⟨rfl, _⟩⟩ := storing_cases h hPc
    · exact ⟨_, by rw [Database.sendOne_direct hSend], .inl ⟨jid, value, .inl rfl⟩⟩
    · exact ⟨_, by rw [Database.sendOne_direct hSend], .inl ⟨jid, value, .inr rfl⟩⟩
  | dtake ch consumers db hTake => exact ⟨rfl, .inl (Database.take_store hTake)⟩
  | dexec ch i db hExec =>
    obtain ⟨c, _, hStore, hPerm⟩ := Database.pending_execHeld hExec
    exact ⟨rfl, .inr ⟨c, hStore, .inr (h.pending c (hPerm.mem_iff.mpr List.mem_cons_self))⟩⟩

theorem indexHash_step (hNode : ∀ k : JID, indexKey v.nodeid ≠ k.toSessionid) (h : Valid C v)
    (hIndex : IndexHash v.db.store v.nodeid) (hStep : LoginStep C v a v') :
    IndexHash v'.db.store v'.nodeid := by
  obtain ⟨hNodeid, hSame | ⟨c, hExec, hc⟩⟩ := store_step h hStep
  · rw [hNodeid, hSame]
    exact hIndex
  · rw [hNodeid, hExec]
    refine hIndex.exec c ?_
    intro hKey
    obtain ⟨j, value, rfl | rfl⟩ | ⟨j, rfl | rfl⟩ := hc
    · rfl
    · exact absurd hKey.symm (hNode j)
    · rfl
    · exact absurd hKey.symm (hNode j)

end Index

/-! ## The entry of the last session -/

section Entry

variable {C : Codec} {x : Bytes} {j : JID} {v v' : View} {a : Action} {last : Option Bytes}

/-- What is kept of the entry of `j` while `last` is the session that stored it last. -/
structure Directory (C : Codec) (x : Bytes) (j : JID) (v : View) (last : Option Bytes) : Prop where
  index : IndexHash v.db.store v.nodeid
  field : ∀ st k, v.status x = some st → st.status = .login → newJID st.jid = .ok k →
    k.toSessionid = j.toSessionid → (v.pc x).indexed →
      (Redis.hget v.db.store (indexKey v.nodeid) j.toSessionid).isSome
  entry : last = some x → ∃ st k, v.status x = some st ∧ st.status ≠ .conn ∧ newJID st.jid = .ok k ∧
    k.toSessionid = j.toSessionid ∧ (v.pc x).published ∧
      (st.status = .login → Redis.get v.db.store j.toSessionid = some (C.marshalStatus st))

/-- A step that leaves the store alone. The session `x` does not pass its `HSET` in it, and
what it has published stays its own until it closes. -/
theorem Directory.calm (h : Directory C x j v last) (hNodeid : v'.nodeid = v.nodeid)
    (hStore : v'.db.store = v.db.store)
    (hField : ∀ st, v'.status x = some st → st.status = .login → (v'.pc x).indexed →
      v.status x = some st ∧ (v.pc x).indexed)
    (hEntry : ∀ st, v.status x = some st → st.status ≠ .conn → (v.pc x).published →
      ∃ st', v'.status x = some st' ∧ st'.status ≠ .conn ∧ st'.jid = st.jid ∧ (v'.pc x).published ∧
        (st'.status = .login → st' = st)) :
    Directory C x j v' last := by
  refine ⟨?_, ?_, ?_⟩
  · rw [hNodeid, hStore]
    exact h.index
  · intro st k hStatus hLogin hJid hKey hPc
    obtain ⟨hStatus', hPc'⟩ := hField st hStatus hLogin hPc
    rw [hNodeid, hStore]
    exact h.field st k hStatus' hLogin hJid hKey hPc'
  · intro hLast
    obtain ⟨st, k, hStatus, hConn, hJid, hKey, hPc, hGet⟩ := h.entry hLast
    obtain ⟨st', hStatus', hConn', hSame, hPc', hLogin⟩ := hEntry st hStatus hConn hPc
    refine ⟨st', k, hStatus', hConn', hSame ▸ hJid, hKey, hPc', ?_⟩
    intro hLogin'
    rw [hStore, hLogin hLogin']
    exact hGet (hLogin hLogin' ▸ hLogin')

theorem Directory.frame (h : Directory C x j v last) (hNodeid : v'.nodeid = v.nodeid)
    (hStore : v'.db.store = v.db.store) (hStatus : v'.status x = v.status x)
    (hPc : v'.pc x = v.pc x) : Directory C x j v' last := by
  refine h.calm hNodeid hStore ?_ ?_
  · intro st hst _ hIndexed
    exact ⟨hStatus ▸ hst, hPc ▸ hIndexed⟩
  · intro st hst hConn hPublished
    exact ⟨st, hStatus.trans hst, hConn, rfl, hPc ▸ hPublished, fun _ => rfl⟩

theorem Directory.setPc (h : Directory C x j v last) (y : Bytes) (pc : Pc)
    (hField : ∀ st, v.status y = some st → st.status = .login → pc.indexed → (v.pc y).indexed)
    (hEntry : ∀ st, v.status y = some st → st.status ≠ .conn → (v.pc y).published → pc.published) :
    Directory C x j (v.setPc y pc) last := by
  rcases eq_or_ne x y with rfl | hne
  · refine h.calm rfl rfl ?_ ?_
    · intro st hst hLogin hIndexed
      rw [View.setPc_pc_self] at hIndexed
      exact ⟨hst, hField st hst hLogin hIndexed⟩
    · intro st hst hConn hPublished
      refine ⟨st, hst, hConn, rfl, ?_, fun _ => rfl⟩
      rw [View.setPc_pc_self]
      exact hEntry st hst hConn hPublished
  · exact h.frame rfl rfl rfl (v.setPc_pc_of_ne hne pc)

theorem Directory.advance (h : Directory C x j v last) {y : Bytes} {pc : Pc} (pc' : Pc)
    (hPc : v.pc y = pc) (hOld : pc.published = false) (hNew : pc'.indexed = false) :
    Directory C x j (v.setPc y pc') last := by
  refine h.setPc y pc' ?_ ?_
  · intro _ _ _ hIndexed
    rw [hNew] at hIndexed
    cases hIndexed
  · intro _ _ _ hPublished
    rw [hPc, hOld] at hPublished
    cases hPublished

theorem Directory.setStatus (h : Directory C x j v last) (y : Bytes) (st : SessionStatus) (pc : Pc)
    (hField : st.status = .login → pc.indexed = false)
    (hEntry : ∀ st', v.status y = some st' → st'.status ≠ .conn → (v.pc y).published →
      st.status = .close ∧ st.jid = st'.jid ∧ pc.published) :
    Directory C x j ((v.setStatus y st).setPc y pc) last := by
  rcases eq_or_ne x y with rfl | hne
  · refine h.calm rfl rfl ?_ ?_
    · intro st' hst' hLogin hIndexed
      cases (v.setStatus_status_self x st).symm.trans hst'
      rw [View.setPc_pc_self, hField hLogin] at hIndexed
      cases hIndexed
    · intro st' hst' hConn hPublished
      obtain ⟨hClose, hSame, hPc⟩ := hEntry st' hst' hConn hPublished
      refine ⟨st, v.setStatus_status_self x st, by simp [hClose], hSame, ?_, by simp [hClose]⟩
      rw [View.setPc_pc_self]
      exact hPc
  · exact h.frame rfl rfl (v.setStatus_status_of_ne hne st) ((v.setStatus y st).setPc_pc_of_ne hne pc)

theorem Directory.closed (h : Directory C x j v last) {y : Bytes} {st : SessionStatus}
    (hStatus : v.status y = some st) : Directory C x j (v.closed y st) last := by
  rcases eq_or_ne x y with rfl | hne
  · refine h.calm rfl (dropEntry_store ..) ?_ ?_
    · intro st' hst' hLogin
      cases (Function.update_self ..).symm.trans hst'
      cases hLogin
    · intro st' hst' hConn hPublished
      cases hStatus.symm.trans hst'
      exact ⟨_, Function.update_self .., by simp, rfl, hPublished, by simp⟩
  · exact h.frame rfl (dropEntry_store ..) (Function.update_of_ne hne ..) rfl

theorem Directory.hset (hNode : ∀ k : JID, indexKey v.nodeid ≠ k.toSessionid)
    (h : Directory C x j v last) {y value : Bytes} {st : SessionStatus} {jid : JID}
    {d : Dispatch} {reply : Packet} (hStatus : v.status y = some st) (hJid : newJID st.jid = .ok jid)
    (hPc : (v.pc y).published = false) :
    Directory C x j { v.setPc y (.storing [d] reply) with db := { v.db with
      store := Redis.exec v.db.store (.hset (indexKey v.nodeid) jid.toSessionid value) } } last := by
  refine ⟨h.index.exec _ fun _ => rfl, ?_, ?_⟩
  · intro st' k hStatus' hLogin hJid' hKey hIndexed
    simp only [View.setPc]
    rw [Redis.hget_exec_hset _ _ _ _ h.index]
    rcases eq_or_ne x y with rfl | hne
    · cases hStatus.symm.trans hStatus'
      cases hJid.symm.trans hJid'
      rw [if_pos hKey]
      rfl
    · split
      · rfl
      · refine h.field st' k hStatus' hLogin hJid' hKey ?_
        rwa [← v.setPc_pc_of_ne hne]
  · intro hLast
    obtain ⟨st', k, hStatus', hConn', hJid', hKey, hPublished, hGet⟩ := h.entry hLast
    have hne : x ≠ y := by
      rintro rfl
      rw [hPc] at hPublished
      cases hPublished
    refine ⟨st', k, hStatus', hConn', hJid', hKey, (v.setPc_pc_of_ne hne _).symm ▸ hPublished, ?_⟩
    intro hLogin
    exact (Redis.get_exec_of_ne (hNode j).symm).trans (hGet hLogin)

theorem Directory.set (hNode : ∀ k : JID, indexKey v.nodeid ≠ k.toSessionid)
    (h : Directory C x j v last) {y value : Bytes} {st : SessionStatus} {jid : JID}
    {d : Dispatch} {reply : Packet} (hStatus : v.status y = some st) (hJid : newJID st.jid = .ok jid)
    (hConn : st.status ≠ .conn) (hValue : st.status = .login → value = C.marshalStatus st)
    (hPc : v.pc y = .storing [d] reply) :
    Directory C x j { v.setPc y (.storing [] reply) with db := { v.db with
        store := Redis.exec v.db.store (.set jid.toSessionid value) } }
      (if jid.toSessionid = j.toSessionid then some y else last) := by
  refine ⟨h.index.exec (.set jid.toSessionid value) fun hKey => absurd hKey.symm (hNode jid), ?_, ?_⟩
  · intro st' k hStatus' hLogin hJid' hKey hIndexed
    have hOld : (v.pc x).indexed := by
      rcases eq_or_ne x y with rfl | hne
      · rw [hPc]
        rfl
      · rwa [← v.setPc_pc_of_ne hne]
    exact (Redis.hget_exec_of_ne (c := .set jid.toSessionid value) (hNode jid)).symm ▸
      h.field st' k hStatus' hLogin hJid' hKey hOld
  · intro hLast
    by_cases hKey : jid.toSessionid = j.toSessionid
    · rw [if_pos hKey] at hLast
      cases hLast
      refine ⟨st, jid, hStatus, hConn, hJid, hKey, ?_, ?_⟩
      · exact (v.setPc_pc_self x _).symm ▸ rfl
      · intro hLogin
        have hSet := Redis.exec_key v.db.store (.set j.toSessionid value)
        simp only [Redis.Cmd.key] at hSet
        simp only [Redis.get, hKey, hSet, ← hValue hLogin]
        rfl
    · rw [if_neg hKey] at hLast
      obtain ⟨st', k, hStatus', hConn', hJid', hKey', hPublished, hGet⟩ := h.entry hLast
      have hne : x ≠ y := by
        rintro rfl
        rw [hPc] at hPublished
        cases hPublished
      refine ⟨st', k, hStatus', hConn', hJid', hKey', (v.setPc_pc_of_ne hne _).symm ▸ hPublished, ?_⟩
      intro hLogin
      exact (Redis.get_exec_of_ne (c := .set jid.toSessionid value) (Ne.symm hKey)).trans (hGet hLogin)

theorem Directory.delete (hNode : ∀ k : JID, indexKey v.nodeid ≠ k.toSessionid)
    (h : Directory C x j v last) {c : Cmd} (hc : Deletes v.nodeid c) {db : Database}
    (hStore : db.store = Redis.exec v.db.store c)
    (hLate : ∀ st ∈ v.status x, st.status = .login →
      (c = .del j.toSessionid → (v.pc x).published = false) ∧
      (c = .hdel (indexKey v.nodeid) j.toSessionid → (v.pc x).indexed = false)) :
    Directory C x j { v with db := db } last := by
  obtain ⟨k, rfl | rfl⟩ := hc
  · refine ⟨?_, ?_, ?_⟩
    · simp only [hStore]
      exact h.index.exec _ fun _ => rfl
    · intro st k' hStatus hLogin hJid hKey hIndexed
      simp only [hStore]
      rw [Redis.hget_exec_hdel]
      split
      · rename_i hSame
        rw [hSame] at hLate
        rw [(hLate st hStatus hLogin).2 rfl] at hIndexed
        cases hIndexed
      · exact h.field st k' hStatus hLogin hJid hKey hIndexed
    · intro hLast
      obtain ⟨st, k', hStatus, hConn, hJid, hKey, hPublished, hGet⟩ := h.entry hLast
      refine ⟨st, k', hStatus, hConn, hJid, hKey, hPublished, ?_⟩
      intro hLogin
      simp only [hStore]
      exact (Redis.get_exec_of_ne (hNode j).symm).trans (hGet hLogin)
  · refine ⟨?_, ?_, ?_⟩
    · simp only [hStore]
      exact h.index.exec (.del k.toSessionid) fun hKey => absurd hKey.symm (hNode k)
    · intro st k' hStatus hLogin hJid hKey hIndexed
      simp only [hStore]
      rw [Redis.hget_exec_of_ne (c := .del k.toSessionid) (hNode k)]
      exact h.field st k' hStatus hLogin hJid hKey hIndexed
    · intro hLast
      obtain ⟨st, k', hStatus, hConn, hJid, hKey, hPublished, hGet⟩ := h.entry hLast
      refine ⟨st, k', hStatus, hConn, hJid, hKey, hPublished, ?_⟩
      intro hLogin
      have hne : k.toSessionid ≠ j.toSessionid := by
        intro hSame
        rw [hSame] at hLate
        rw [(hLate st hStatus hLogin).1 rfl] at hPublished
        cases hPublished
      simp only [hStore]
      exact (Redis.get_exec_of_ne hne.symm).trans (hGet hLogin)

/-- One case per step of the protocol; only the commands of a login and the queued
removals touch the store. -/
theorem directory_step (hNode : ∀ k : JID, indexKey v.nodeid ≠ k.toSessionid) (hValid : Valid C v)
    (h : Directory C x j v last) (hLate : NoLateDelete x j v a) (hStep : LoginStep C v a v') :
    Directory C x j v' ((publishes j v a).getLast?.or last) := by
  cases hStep with
  | crash | closeAgain => exact h
  | connect y hSid hNew =>
    have hSet := h.setStatus y (newSession v.channel y v.nodeid).status (v.pc y)
      (fun hLogin => by cases hLogin) (fun st hst => by rw [hNew] at hst; cases hst)
    rw [View.setPc_self] at hSet
    exact hSet
  | register | clean => exact h.frame rfl rfl rfl rfl
  | look y i st packet jid hStatus hConn hIdle hPacket hJid =>
    refine h.setPc y _ ?_ ?_
    · intro st' hst' hLogin
      cases hStatus.symm.trans hst'
      rw [hConn] at hLogin
      cases hLogin
    · intro st' hst' hNe
      cases hStatus.symm.trans hst'
      exact absurd hConn hNe
  | refuse y i st hStatus hLogin hIdle =>
    refine h.setStatus y _ _ (fun hLogin => by cases hLogin) ?_
    intro st' hst' _ _
    cases hStatus.symm.trans hst'
    exact ⟨rfl, rfl, rfl⟩
  | routeKill y env packet jid ss hPc hRoom =>
    simp only [publishes, hPc]
    exact (h.advance (.auth packet jid) hPc rfl rfl).frame rfl rfl rfl rfl
  | routerFull y env packet jid ss hPc hFull =>
    simp only [publishes, hPc]
    exact h.advance _ hPc rfl rfl
  | auth y env packet jid hPc =>
    simp only [publishes, hPc]
    exact h.advance _ hPc rfl rfl
  | reject y env packet jid st hPc hStatus hLogin =>
    simp only [publishes, hPc]
    refine h.setStatus y _ _ (fun hLogin => by cases hLogin) ?_
    intro st' hst' _ hPublished
    rw [hPc] at hPublished
    cases hPublished
  | logon y env packet st hPc hStatus =>
    simp only [publishes, hPc]
    refine h.setStatus y _ _ (fun _ => rfl) ?_
    intro st' _ _ hPublished
    rw [hPc] at hPublished
    cases hPublished
  | fetch y env packet reply hPc =>
    simp only [publishes, hPc]
    exact h.advance _ hPc rfl rfl
  | publish y env reply st jid hPc hStatus hJid =>
    simp only [publishes, hPc, putExWithIdx_toSessionid]
    exact h.advance _ hPc rfl rfl
  | store y env d ds reply db hPc hSend =>
    obtain ⟨st, jid, value, hStatus, hJid, hConn, hValue, ⟨rfl, rfl⟩ | ⟨rfl, rfl⟩⟩ :=
      storing_cases hValid hPc
    · cases Database.sendOne_direct hSend
      simp only [publishes, hPc]
      exact h.hset hNode hStatus hJid (by rw [hPc]; rfl)
    · cases Database.sendOne_direct hSend
      have hSet := h.set hNode hStatus hJid hConn hValue hPc
      simp only [publishes, hPc]
      split
      · rename_i hKey
        rwa [if_pos hKey] at hSet
      · rename_i hKey
        rwa [if_neg hKey] at hSet
  | storeFails y env d ds reply hPc hSend =>
    obtain ⟨_, jid, value, _, _, _, _, ⟨rfl, _⟩ | ⟨rfl, _⟩⟩ := storing_cases hValid hPc
    · have hSent := Database.sendOne_hset h.index jid.toSessionid value
      rw [hSend] at hSent
      cases hSent
    · cases hSend
  | answer y env reply hPc =>
    simp only [publishes, hPc]
    exact h.setPc y _ (fun _ _ _ _ => by rw [hPc]; rfl) (fun _ _ _ _ => rfl)
  | close y env st hStatus hOpen => exact h.closed hStatus
  | take w it rest hRouter hHand => exact h.frame rfl rfl rfl rfl
  | find w env it hHand hFound => exact h.frame rfl rfl rfl rfl
  | drop w env it hHand hLocal hGone => exact h.frame rfl rfl rfl rfl
  | kill w env it st hHand hStatus hOpen => exact (h.closed hStatus).frame rfl rfl rfl rfl
  | killClosed w env it hHand hClosed => exact h.frame rfl rfl rfl rfl
  | dtake ch consumers db hTake => exact h.frame rfl (Database.take_store hTake) rfl rfl
  | dexec ch i db hExec =>
    obtain ⟨c, hc, hStore, hPerm⟩ := Database.pending_execHeld hExec
    exact h.delete hNode (hValid.pending c (hPerm.mem_iff.mpr List.mem_cons_self)) hStore (hLate c hc)

end Entry

/-- The session of `j` that stored its status last, while it is logged in, is the one the
directory knows, if no removal of the entry is executed after it stored it. -/
theorem entry_of_last_login (C : Codec) (consumers : Nat) (nodeid channel : Bytes) (st : Store)
    (hNode : ∀ k : JID, indexKey nodeid ≠ k.toSessionid) (hIndex : IndexHash st nodeid) (j : JID)
    (x : Bytes) {as : List Action} {t : System}
    (hRun : run (step C consumers) (start nodeid channel st) as = some t)
    (hGuard : Guarded (step C consumers) (fun s a => LoginsOnly s a ∧ NoLateDelete x j s.view a)
      (start nodeid channel st) as)
    (hLast : (collect (step C consumers) (fun s => publishes j s.view) (start nodeid channel st)
      as).getLast? = some x)
    {sess : Session} (hs : t.node.sessions x = some sess) (hLogin : sess.status.status = .login) :
    Redis.get t.node.db.store j.toSessionid = some (C.marshalStatus sess.status) ∧
      (Redis.hget t.node.db.store (indexKey nodeid) j.toSessionid).isSome := by
  have hAll : t.view.nodeid = nodeid ∧ Directory C x j t.view (collect (step C consumers)
      (fun s => publishes j s.view) (start nodeid channel st) as).getLast? := by
    refine login_induction (C := C) (P := fun as v => v.nodeid = nodeid ∧ Directory C x j v
      (collect (step C consumers) (fun s => publishes j s.view) (start nodeid channel st) as).getLast?)
      (fun s a hG => hG.1) ⟨rfl, hIndex, ?_, ?_⟩ ?_ hRun hGuard
    · intro st' k hStatus
      cases hStatus
    · intro hLast
      cases hLast
    · rintro as s a v hRun hValid hG ⟨hNodeid, hDirectory⟩ hStep
      have hNode' : ∀ k : JID, indexKey s.view.nodeid ≠ k.toSessionid := hNodeid ▸ hNode
      refine ⟨(store_step hValid hStep).1.trans hNodeid, ?_⟩
      rw [collect_snoc hRun, List.getLast?_append]
      exact directory_step hNode' hValid hDirectory hG.2 hStep
  obtain ⟨hNodeid, hDirectory⟩ := hAll
  obtain ⟨st', k, hStatus, _, hJid, hKey, hPublished, hGet⟩ := hDirectory.entry hLast
  cases (view_status hs).symm.trans hStatus
  refine ⟨hGet hLogin, ?_⟩
  rw [← hNodeid]
  exact hDirectory.field sess.status k hStatus hLogin hJid hKey (Pc.indexed_of_published hPublished)

def loginInput (id jid : String) : Input where
  frame := PlainJson.writeFrame { id := text id, jid := text jid, type := msgTypeOpenSession }
  env := Env.plain true

theorem bob_parses : (newJID (text "bob@x")).toOption.isSome = true := by decide

def bob : JID := parsedJID (text "bob@x") bob_parses

theorem alice_parses : (newJID (text "alice@x")).toOption.isSome = true := by decide

def alice : JID := parsedJID (text "alice@x") alice_parses

def node01 : System := start (text "node01") (text "node01:4281") fun _ => none

theorem node01_index (k : JID) : indexKey (text "node01") ≠ k.toSessionid := fun h =>
  absurd (congrArg List.head? h) (by rw [k.head?_toSessionid]; decide)

def arrives (x : Bytes) : List Action := [.connect x, .register x, .recv x (loginInput "1" "bob@x")]

def goes (x : Bytes) (n : Nat) : List Action := List.replicate n (.go x (Env.plain true))

def logsIn (x id jid : String) (n : Nat) : List Action :=
  [.connect (text x), .register (text x), .recv (text x) (loginInput id jid)] ++ goes (text x) n

def kills : List Action := [.take 0, .work 0 (Env.plain true), .work 0 (Env.plain true)]

def drains : List Action :=
  [.dtake .session, .dtake .session, .dexec .session 0, .dexec .session 0]

def firstLogin : List Action := arrives (text "a1") ++ goes (text "a1") 7

def cleanTakeover : List Action :=
  firstLogin ++ arrives (text "b2") ++ goes (text "b2") 1 ++ kills ++ drains ++ goes (text "b2") 7

theorem entry_of_last_login_clean :
    ∃ t sess, run (step PlainJson.codec 20) node01 cleanTakeover = some t ∧
      t.node.sessions (text "b2") = some sess ∧ sess.status.status = .login ∧
      Redis.get t.node.db.store bob.toSessionid = some (PlainJson.codec.marshalStatus sess.status) ∧
      (Redis.hget t.node.db.store (indexKey (text "node01")) bob.toSessionid).isSome := by
  have hExists : ∃ t, run (step PlainJson.codec 20) node01 cleanTakeover = some t ∧
      (t.node.sessions (text "b2")).map (·.status.status) = some .login :=
    exists_run (by decide +kernel)
  obtain ⟨t, hRun, hMap⟩ := hExists
  obtain ⟨sess, hs, hLogin⟩ := Option.map_eq_some_iff.mp hMap
  have hEntry := entry_of_last_login PlainJson.codec 20 (text "node01") (text "node01:4281")
    (fun _ => none) node01_index rfl bob (text "b2") hRun (by decide +kernel) (by decide +kernel) hs
    hLogin
  exact ⟨t, sess, hRun, hs, hLogin, hEntry⟩

/-- The older session is killed after the newer one has stored its status. -/
def lateTakeover : List Action :=
  firstLogin ++ arrives (text "b2") ++ goes (text "b2") 8 ++ kills ++ drains

/-- The removal queued for the older session deletes the entry of the newer one. -/
theorem late_delete_removes_entry :
    Guarded (step PlainJson.codec 20) LoginsOnly node01 lateTakeover ∧
    (collect (step PlainJson.codec 20) (fun s => publishes bob s.view) node01 lateTakeover).getLast? =
      some (text "b2") ∧
    ∃ t, run (step PlainJson.codec 20) node01 lateTakeover = some t ∧
      t.node.router = [] ∧ t.hands 0 = .free ∧ t.node.db.pending = [] ∧ t.pc (text "b2") = .idle ∧
      (t.node.sessions (text "b2")).map (·.status.status) = some .login ∧
      Redis.get t.node.db.store bob.toSessionid = none ∧
      Redis.hget t.node.db.store (indexKey (text "node01")) bob.toSessionid = none :=
  ⟨by decide +kernel, by decide +kernel, exists_run (by decide +kernel)⟩

end Sara.Concurrent
