import Sara.Core.Offline
import Sara.Core.Frame

/-! # Packets in the custody of a node

A packet that a session has accepted is in the router, on its way to another
node, in the buffer of a session of its recipient, in the offline store or
acknowledged. Every function of a session hands a packet over from one of these
places to another, as long as it is not asked to drop it.
-/

namespace Sara

open Lib Lib.Prog Saradb

set_option autoImplicit false

def Ledger.Routable (L : Ledger) (p : Packet) : Prop :=
  L.sent p ∧ ∃ r, newJID p.envelope.to_ = .ok r

/-- A packet on the router queue carries no signal. -/
def Ledger.Carried (L : Ledger) (it : RouterItem) : Prop :=
  ∀ p ∈ it.packet, L.Routable p ∧ it.signal = 0

structure Custody (L : Ledger) (C : Codec) (n : Node) : Prop where
  nodeid : ∀ r : JID, n.nodeid ≠ r.toOfflineKey
  db : L.Safe C n.db
  own : ∀ x s, n.sessions x = some s → s.status.nodeid = n.nodeid
  users : ∀ x s, n.sessions x = some s → s.status.status = .login →
    ∃ j, newJID s.status.jid = .ok j
  buffers : ∀ x s, n.sessions x = some s → ∀ f p, s.pkgBuff[f]? = some p →
    p.envelope.id = f ∧ L.Routable p
  router : ∀ it ∈ n.router, L.Carried it

/-- The packet waits for its ack in a session of the recipient. -/
def Buffered (n : Node) (r : JID) (p : Packet) : Prop :=
  ∃ x s j, n.sessions x = some s ∧ s.status.status = .login ∧ newJID s.status.jid = .ok j ∧
    j.toOfflineKey = r.toOfflineKey ∧ s.pkgBuff[p.envelope.id]? = some p

def Held (L : Ledger) (C : Codec) (n : Node) (r : JID) (p : Packet) : Prop :=
  (∃ it ∈ n.router, it.packet = some p) ∨ (∃ ch, (ch, p) ∈ n.published) ∨ Buffered n r p ∨
    Stored C n.db r p ∨ L.acked (offlineIndex r) p.envelope.id

/-- No session is made, and none is logged in. -/
structure Framed (n n' : Node) : Prop where
  nodeid : n'.nodeid = n.nodeid
  sessions : ∀ x, (n'.sessions x).isSome = (n.sessions x).isSome
  login : ∀ x s', n'.sessions x = some s' → s'.status.status = .login →
    ∃ s, n.sessions x = some s ∧ s.status = s'.status

structure Carries (L : Ledger) (C : Codec) (n n' : Node) : Prop extends Framed n n' where
  custody : Custody L C n → Custody L C n'
  held : Custody L C n → ∀ r p, L.sent p → newJID p.envelope.to_ = .ok r →
    Held L C n r p → Held L C n' r p

instance : Std.Refl Framed where
  refl _ := ⟨rfl, fun _ => rfl, fun _ s' h _ => ⟨s', h, rfl⟩⟩

instance : IsTrans Node Framed where
  trans _ _ _ h h' := by
    refine ⟨h'.nodeid.trans h.nodeid, fun x => (h'.sessions x).trans (h.sessions x), ?_⟩
    intro x s'' hs'' hLogin
    obtain ⟨s', hs', hEq'⟩ := h'.login x s'' hs'' hLogin
    obtain ⟨s, hs, hEq⟩ := h.login x s' hs' (hEq' ▸ hLogin)
    exact ⟨s, hs, hEq.trans hEq'⟩

variable {L : Ledger} {C : Codec}

instance : Std.Refl (Carries L C) where
  refl n := ⟨Std.Refl.refl n, id, fun _ _ _ _ _ h => h⟩

instance : IsTrans Node (Carries L C) where
  trans a b c h h' :=
    ⟨IsTrans.trans a b c h.toFramed h'.toFramed, fun hc => h'.custody (h.custody hc),
      fun hc r p hSent hTo hHeld =>
        h'.held (h.custody hc) r p hSent hTo (h.held hc r p hSent hTo hHeld)⟩

/-! ## Changes to the node -/

section Changes

variable {n n' : Node} {x : Bytes}

theorem Framed.of_sessions (hNodeid : n'.nodeid = n.nodeid) (hSessions : n'.sessions = n.sessions) :
    Framed n n' := by
  refine ⟨hNodeid, fun x => by rw [hSessions], ?_⟩
  intro x s' hs' _
  exact ⟨s', hSessions ▸ hs', rfl⟩

theorem Buffered.of_sessions {r : JID} {p : Packet} (h : Buffered n r p)
    (hSessions : n'.sessions = n.sessions) : Buffered n' r p := by
  obtain ⟨x, s, j, hs, hRest⟩ := h
  exact ⟨x, s, j, hSessions ▸ hs, hRest⟩

/-- A change outside the sessions that drops no packet. -/
theorem Carries.of_frame (hNodeid : n'.nodeid = n.nodeid) (hSessions : n'.sessions = n.sessions)
    (hDb : L.Safe C n.db → (∀ r : JID, n.nodeid ≠ r.toOfflineKey) →
      L.Safe C n'.db ∧ L.Kept C n.db n'.db)
    (hOld : ∀ it ∈ n.router, it ∈ n'.router)
    (hNew : ∀ it ∈ n'.router, it ∈ n.router ∨ L.Carried it)
    (hPublished : ∀ e ∈ n.published, e ∈ n'.published) : Carries L C n n' where
  toFramed := .of_sessions hNodeid hSessions
  custody h := by
    refine ⟨hNodeid ▸ h.nodeid, (hDb h.db h.nodeid).1, ?_, ?_, ?_, ?_⟩
    · rw [hSessions, hNodeid]
      exact h.own
    · rw [hSessions]
      exact h.users
    · rw [hSessions]
      exact h.buffers
    · intro it hit
      rcases hNew it hit with hOld | hNew
      · exact h.router it hOld
      · exact hNew
  held h := by
    rintro r p hSent _ (⟨it, hit, hp⟩ | ⟨ch, hch⟩ | hBuffered | hStored | hAcked)
    · exact .inl ⟨it, hOld it hit, hp⟩
    · exact .inr (.inl ⟨ch, hPublished _ hch⟩)
    · exact .inr (.inr (.inl (hBuffered.of_sessions hSessions)))
    · rcases (hDb h.db h.nodeid).2 r p hSent hStored with hStored | hAcked
      · exact .inr (.inr (.inr (.inl hStored)))
      · exact .inr (.inr (.inr (.inr hAcked)))
    · exact .inr (.inr (.inr (.inr hAcked)))

theorem Carries.send {ds : List Dispatch}
    (hds : (∀ r : JID, n.nodeid ≠ r.toOfflineKey) → ∀ d ∈ ds, L.Sends C d) :
    Carries L C n (n.send ds) :=
  .of_frame rfl rfl (fun hSafe hNode => hSafe.send (hds hNode)) (fun _ h => h) (fun _ h => .inl h)
    (fun _ h => h)

theorem Carries.route {item : RouterItem} (hItem : L.Carried item) :
    Carries L C n (n.route item) := by
  unfold Node.route
  split
  · refine .of_frame rfl rfl (fun hSafe _ => ⟨hSafe, Ledger.Kept.refl _⟩) ?_ ?_ (fun _ h => h)
    · intro it hit
      exact List.mem_append_left _ hit
    · intro it hit
      rcases List.mem_append.mp hit with hOld | hNew
      · exact .inl hOld
      · cases List.mem_singleton.mp hNew
        exact .inr hItem
  · exact Std.Refl.refl n

theorem Carries.of_rest (hNodeid : n'.nodeid = n.nodeid) (hSessions : n'.sessions = n.sessions)
    (hDb : n'.db = n.db) (hRouter : n'.router = n.router)
    (hPublished : ∀ e ∈ n.published, e ∈ n'.published) : Carries L C n n' :=
  .of_frame hNodeid hSessions (fun hSafe _ => by rw [hDb]; exact ⟨hSafe, Ledger.Kept.refl _⟩)
    (fun _ h => hRouter ▸ h) (fun _ h => .inl (hRouter ▸ h)) hPublished

theorem updateSession_cases {f : Session → Session} {y : Bytes} {s' : Session}
    (h : (n.updateSession x f).sessions y = some s') :
    (y ≠ x ∧ n.sessions y = some s') ∨ (y = x ∧ ∃ s, n.sessions x = some s ∧ s' = f s) := by
  rcases eq_or_ne y x with rfl | hne
  · rw [Node.updateSession_self] at h
    obtain ⟨s, hs, rfl⟩ := Option.map_eq_some_iff.mp h
    exact .inr ⟨rfl, s, hs, rfl⟩
  · rw [Node.updateSession_of_ne n hne] at h
    exact .inl ⟨hne, h⟩

theorem isSome_updateSession (f : Session → Session) (y : Bytes) :
    ((n.updateSession x f).sessions y).isSome = (n.sessions y).isSome := by
  rcases eq_or_ne y x with rfl | hne
  · rw [Node.updateSession_self, Option.isSome_map]
  · rw [Node.updateSession_of_ne n hne]

theorem Framed.updateSession {f : Session → Session} (hStatus : ∀ s, (f s).status = s.status) :
    Framed n (n.updateSession x f) := by
  refine ⟨rfl, isSome_updateSession f, ?_⟩
  intro y s' hs' _
  rcases updateSession_cases hs' with ⟨_, hs⟩ | ⟨rfl, s, hs, rfl⟩
  · exact ⟨s', hs, rfl⟩
  · exact ⟨s, hs, (hStatus s).symm⟩

/-- A session keeps its status; its buffer takes in what may be routed and drops what was acked. -/
theorem Carries.updateSession {f : Session → Session} (hStatus : ∀ s, (f s).status = s.status)
    (hIn : ∀ s, n.sessions x = some s → Custody L C n → ∀ g p, (f s).pkgBuff[g]? = some p →
      p.envelope.id = g ∧ L.Routable p)
    (hOut : ∀ s, n.sessions x = some s → Custody L C n → ∀ r p j, L.sent p →
      newJID s.status.jid = .ok j → j.toOfflineKey = r.toOfflineKey →
      s.pkgBuff[p.envelope.id]? = some p →
        (f s).pkgBuff[p.envelope.id]? = some p ∨ L.acked (offlineIndex r) p.envelope.id) :
    Carries L C n (n.updateSession x f) where
  toFramed := .updateSession hStatus
  custody h := by
    refine { h with own := ?_, users := ?_, buffers := ?_ }
    · intro y s' hs'
      rcases updateSession_cases hs' with ⟨_, hs⟩ | ⟨rfl, s, hs, rfl⟩
      · exact h.own y s' hs
      · rw [hStatus]
        exact h.own y s hs
    · intro y s' hs'
      rcases updateSession_cases hs' with ⟨_, hs⟩ | ⟨rfl, s, hs, rfl⟩
      · exact h.users y s' hs
      · rw [hStatus]
        exact h.users y s hs
    · intro y s' hs'
      rcases updateSession_cases hs' with ⟨_, hs⟩ | ⟨rfl, s, hs, rfl⟩
      · exact h.buffers y s' hs
      · exact hIn s hs h
  held h := by
    rintro r p hSent _ (hRouter | hPublished | ⟨y, s, j, hs, hLogin, hj, hKey, hp⟩ | hRest)
    · exact .inl hRouter
    · exact .inr (.inl hPublished)
    · rcases eq_or_ne y x with rfl | hne
      · rcases hOut s hs h r p j hSent hj hKey hp with hKeep | hAcked
        · refine .inr (.inr (.inl ⟨y, f s, j, ?_, ?_, ?_, hKey, hKeep⟩))
          · rw [Node.updateSession_self, hs]
            rfl
          · rwa [hStatus]
          · rwa [hStatus]
        · exact .inr (.inr (.inr (.inr hAcked)))
      · refine .inr (.inr (.inl ⟨y, s, j, ?_, hLogin, hj, hKey, hp⟩))
        rw [Node.updateSession_of_ne n hne, hs]
    · exact .inr (.inr (.inr hRest))

end Changes

/-! ## The functions of a session -/

section Programs

variable {x : Bytes} {env : Env}

theorem keeps_sendMessage (x : Bytes) (data : Written) :
    Keeps (Carries L C) (sendMessage x data) := by
  intro n
  refine .updateSession (fun _ => rfl) ?_ ?_
  · intro s hs h
    exact h.buffers x s hs
  · intro s _ _ r p j _ _ _ hp
    exact .inl hp

theorem keeps_pkgBuffAdd {p : Packet} (hp : L.Routable p) (x : Bytes) :
    Keeps (Carries L C) (pkgBuffAdd x p) := by
  intro n
  refine .updateSession (fun _ => rfl) ?_ ?_
  · intro s hs h g q hq
    rw [Std.ExtTreeMap.getElem?_insert] at hq
    split at hq
    · rename_i hId
      cases hq
      exact ⟨Std.LawfulEqOrd.eq_of_compare hId, hp⟩
    · exact h.buffers x s hs g q hq
  · intro s hs h r q j hSent _ _ hq
    refine .inl ?_
    rw [Std.ExtTreeMap.getElem?_insert]
    split
    · rename_i hId
      rw [L.sent_inj hp.1 hSent (Std.LawfulEqOrd.eq_of_compare hId)]
    · exact hq

/-- The buffer drops a packet only for the ack of the session's own user. -/
theorem keeps_pkgBuffDel {n : Node} {s : Session} {j : JID} {id : Bytes}
    (hs : n.sessions x = some s) (hj : newJID s.status.jid = .ok j)
    (hAcked : L.acked (offlineIndex j) id) : Carries L C n (pkgBuffDel x id n).state := by
  refine .updateSession (fun _ => rfl) ?_ ?_
  · intro s' hs' h g q hq
    rw [Std.ExtTreeMap.getElem?_erase] at hq
    split at hq
    · cases hq
    · exact h.buffers x s' hs' g q hq
  · intro s' hs' h r q k hSent hk hKey hq
    cases hs.symm.trans hs'
    cases hj.symm.trans hk
    rw [Std.ExtTreeMap.getElem?_erase]
    split
    · rename_i hId
      have hSame : offlineIndex j = offlineIndex r := congrArg indexKey hKey
      rw [← hSame, ← Std.LawfulEqOrd.eq_of_compare hId]
      exact .inr hAcked
    · exact .inl hq

theorem keeps_storePacket {p : Packet} (hSent : L.sent p) :
    Keeps (Carries L C) (storePacket C p) := by
  intro n
  unfold storePacket
  cases newJID p.envelope.to_ with
  | error e => exact Std.Refl.refl n
  | ok r => exact Carries.send fun _ => Ledger.sends_offlineWrites hSent r

theorem framed_storePacket (p : Packet) : Keeps Framed (storePacket C p) := by
  intro n
  unfold storePacket
  cases newJID p.envelope.to_ with
  | error e => exact Std.Refl.refl n
  | ok r => exact .of_sessions rfl rfl

theorem storePacket_held {n : Node} (h : Custody L C n) {p : Packet} (hSent : L.sent p) {r : JID}
    (hr : newJID p.envelope.to_ = .ok r) :
    ∃ n', storePacket C p n = .done () n' ∧ Held L C n' r p := by
  refine ⟨n.send (offlineWrites C r p), ?_, ?_⟩
  · unfold storePacket
    rw [hr]
    rfl
  · rcases h.db.stored_offlineWrites hSent r with hStored | hAcked
    · exact .inr (.inr (.inr (.inl hStored)))
    · exact .inr (.inr (.inr (.inr hAcked)))

theorem storeAll_held {ps : List Packet} (hps : ∀ p ∈ ps, L.Routable p) {n : Node}
    (h : Custody L C n) {p : Packet} (hp : p ∈ ps) {r : JID} (hr : newJID p.envelope.to_ = .ok r) :
    Held L C (ps.forM (storePacket C) n).state r p := by
  induction ps generalizing n with
  | nil => cases hp
  | cons q ps ih =>
    have hRest : ∀ p ∈ ps, L.Routable p := fun p hp => hps p (List.mem_cons_of_mem q hp)
    obtain ⟨hSent, r', hr'⟩ := hps q List.mem_cons_self
    obtain ⟨n', hDone, hHeld⟩ := storePacket_held h hSent hr'
    have hCarries := keeps_storePacket (C := C) hSent n
    rw [hDone] at hCarries
    have hFirst : (q :: ps).forM (storePacket C) n = ps.forM (storePacket C) n' := bind_done hDone _
    rw [hFirst]
    rcases List.mem_cons.mp hp with rfl | hMem
    · cases hr.symm.trans hr'
      have hAll : Keeps (Carries L C) (ps.forM (storePacket C)) :=
        Keeps.forM fun p hp => keeps_storePacket (hRest p hp).1
      exact (hAll n').held (hCarries.custody h) r p hSent hr hHeld
    · exact ih hRest (hCarries.custody h) hMem

/-! ### Closing a session -/

/-- A node's own index is no offline index. -/
theorem allows_nodeIndex {nodeid : Bytes} (hNode : ∀ r : JID, nodeid ≠ r.toOfflineKey) (key : Bytes) :
    L.Allows C (.hdel (indexKey nodeid) key) ∧
      ∀ value, L.Allows C (.hset (indexKey nodeid) key value) :=
  ⟨fun r hEq => absurd (indexKey_inj.mp hEq) (hNode r),
    fun _ r hEq => absurd (indexKey_inj.mp hEq) (hNode r)⟩

theorem safe_dropEntry {db : Database} {st : SessionStatus} (h : L.Safe C db)
    (hNode : ∀ r : JID, st.nodeid ≠ r.toOfflineKey) :
    L.Safe C (dropEntry db st) ∧ L.Kept C db (dropEntry db st) := by
  unfold dropEntry
  split
  · exact h.send (Ledger.sends_deleteByIdxKey (allows_nodeIndex hNode _).1)
  · exact ⟨h, Ledger.Kept.refl db⟩

section Closed

variable {n : Node} {s : Session} (hs : n.sessions x = some s)
include hs

theorem closed_cases {y : Bytes} {s' : Session} (h : (n.closed x s).sessions y = some s') :
    (y ≠ x ∧ n.sessions y = some s') ∨ (y = x ∧ s'.status = { s.status with status := .close } ∧
      s'.pkgBuff = s.pkgBuff) := by
  rcases eq_or_ne y x with rfl | hne
  · cases (Function.update_self ..).symm.trans h
    exact .inr ⟨rfl, rfl, rfl⟩
  · exact .inl ⟨hne, (Function.update_of_ne hne ..).symm.trans h⟩

theorem framed_closed : Framed n (n.closed x s) := by
  refine ⟨rfl, ?_, ?_⟩
  · intro y
    rcases eq_or_ne y x with rfl | hne
    · rw [hs, show (n.closed y s).sessions y = _ from Function.update_self ..]
      rfl
    · rw [show (n.closed x s).sessions y = _ from Function.update_of_ne hne ..]
  · intro y s' hs' hLogin
    rcases closed_cases hs hs' with ⟨_, hy⟩ | ⟨_, hStatus, _⟩
    · exact ⟨s', hy, rfl⟩
    · rw [hStatus] at hLogin
      cases hLogin

theorem closed_custody (h : Custody L C n) : Custody L C (n.closed x s) := by
  have hOwn := h.own x s hs
  refine ⟨h.nodeid, (safe_dropEntry h.db (hOwn ▸ h.nodeid)).1, ?_, ?_, ?_, h.router⟩
  · intro y s' hs'
    rcases closed_cases hs hs' with ⟨_, hy⟩ | ⟨_, hStatus, _⟩
    · exact h.own y s' hy
    · rw [hStatus]
      exact hOwn
  · intro y s' hs' hLogin
    rcases closed_cases hs hs' with ⟨_, hy⟩ | ⟨_, hStatus, _⟩
    · exact h.users y s' hy hLogin
    · rw [hStatus] at hLogin
      cases hLogin
  · intro y s' hs'
    rcases closed_cases hs hs' with ⟨_, hy⟩ | ⟨_, _, hBuff⟩
    · exact h.buffers y s' hy
    · rw [hBuff]
      exact h.buffers x s hs

/-- Only what is in the buffer of the closed session is left without a place. -/
theorem closed_held (h : Custody L C n) {r : JID} {p : Packet} (hSent : L.sent p)
    (hHeld : Held L C n r p) :
    Held L C (n.closed x s) r p ∨ s.pkgBuff[p.envelope.id]? = some p := by
  rcases hHeld with hRouter | hPublished | ⟨y, s', j, hs', hRest⟩ | hStored | hAcked
  · exact .inl (.inl hRouter)
  · exact .inl (.inr (.inl hPublished))
  · rcases eq_or_ne y x with rfl | hne
    · cases hs.symm.trans hs'
      exact .inr hRest.2.2.2
    · exact .inl (.inr (.inr (.inl ⟨y, s', j, (Function.update_of_ne hne ..).trans hs', hRest⟩)))
  · rcases (safe_dropEntry h.db (h.own x s hs ▸ h.nodeid)).2 r p hSent hStored with hStored | hAcked
    · exact .inl (.inr (.inr (.inr (.inl hStored))))
    · exact .inl (.inr (.inr (.inr (.inr hAcked))))
  · exact .inl (.inr (.inr (.inr (.inr hAcked))))

end Closed

/-- What is not acked yet goes from the buffer to the offline store. -/
theorem keeps_closeSession (x : Bytes) (env : Env) : Keeps (Carries L C) (closeSession C x env) := by
  intro n
  cases hs : n.sessions x with
  | none =>
    have hPanic : closeSession C x env n = .panic n := by
      unfold closeSession
      rw [bind_panic (Node.session_eq_panic hs)]
    rw [hPanic]
    exact Std.Refl.refl n
  | some s =>
    by_cases hClose : s.status.status = .close
    · rw [closeSession_of_close C hs hClose]
      exact Std.Refl.refl n
    by_cases hUser : s.status.status = .login → ∃ j, newJID s.status.jid = .ok j
    · rw [closeSession_of_open C hs hClose hUser]
      have hFramed : Keeps Framed (pkgBuffToStore C env s.pkgBuff) :=
        Keeps.forM fun p _ => framed_storePacket p
      have hVisit : Custody L C n → ∀ p ∈ env.visit (s.pkgBuff.toList.map Prod.snd), L.Routable p := by
        intro h p hp
        obtain ⟨⟨g, q⟩, hq, rfl⟩ := List.mem_map.mp ((env.visit_perm _).mem_iff.mp hp)
        exact (h.buffers x s hs g q (Std.ExtTreeMap.mem_toList_iff_getElem?_eq_some.mp hq)).2
      have hAll : Custody L C n → Keeps (Carries L C) (pkgBuffToStore C env s.pkgBuff) := by
        intro h
        exact Keeps.forM fun p hp => keeps_storePacket (hVisit h p hp).1
      refine ⟨IsTrans.trans _ _ _ (framed_closed hs) (hFramed _), ?_, ?_⟩
      · intro h
        exact (hAll h _).custody (closed_custody hs h)
      · intro h r p hSent hTo hHeld
        rcases closed_held hs h hSent hHeld with hHeld | hBuffered
        · exact (hAll h _).held (closed_custody hs h) r p hSent hTo hHeld
        · have hMem := Std.ExtTreeMap.mem_toList_iff_getElem?_eq_some.mpr hBuffered
          exact storeAll_held (hVisit h) (closed_custody hs h)
            ((env.visit_perm _).mem_iff.mpr (List.mem_map_of_mem hMem)) hTo
    · -- a status without a user panics at the removal of its entry
      rw [Classical.not_imp] at hUser
      obtain ⟨hLogin, hNone⟩ := hUser
      cases hj : newJID s.status.jid with
      | ok j => exact absurd ⟨j, hj⟩ hNone
      | error e =>
        have hPanic : closeSession C x env n =
            .panic { n with cleanSession := n.cleanSession ++ [s.status.sid] } := by
          unfold closeSession
          rw [bind_done (Node.session_eq hs)]
          simp only [hLogin, hj, reduceCtorEq, if_false, if_true]
          rfl
        rw [hPanic]
        exact .of_rest rfl rfl rfl rfl fun _ h => h

theorem permits_carries : Permits (Carries L C) C where
  sendMessage x data _ := keeps_sendMessage x data
  closeSession := keeps_closeSession
  verifyKill _ _ := Carries.route fun _ hp => by cases hp
  cache _ _ _ _ := Carries.send fun _ => Ledger.sends_putEx _ _ _

/-! ### Logging in -/

/-- A session that was not logged in had no packet to lose. -/
theorem logon_carries {n : Node} {s : Session} {packet : Packet} (hs : n.sessions x = some s)
    (hNot : s.status.status ≠ .login) (hJid : ∃ j, newJID packet.envelope.jid = .ok j) (env : Env) :
    (Custody L C n → Custody L C (logon x packet env n).state) ∧
      ∀ r p, Held L C n r p → Held L C (logon x packet env n).state r p := by
  let f : Session → Session := fun s => { s with status :=
    { s.status with jid := packet.envelope.jid, status := .login, ct := env.timestamp10 } }
  have hState : (logon x packet env n).state = n.updateSession x f := rfl
  rw [hState]
  constructor
  · intro h
    refine { h with own := ?_, users := ?_, buffers := ?_ }
    · intro y s' hs'
      rcases updateSession_cases hs' with ⟨_, hy⟩ | ⟨rfl, s, hy, rfl⟩
      · exact h.own y s' hy
      · exact h.own y s hy
    · intro y s' hs' hLogin
      rcases updateSession_cases hs' with ⟨_, hy⟩ | ⟨rfl, s, hy, rfl⟩
      · exact h.users y s' hy hLogin
      · exact hJid
    · intro y s' hs'
      rcases updateSession_cases hs' with ⟨_, hy⟩ | ⟨rfl, s, hy, rfl⟩
      · exact h.buffers y s' hy
      · exact h.buffers y s hy
  · rintro r p (hRouter | hPublished | ⟨y, s', j, hs', hLogin, hRest⟩ | hRest)
    · exact .inl hRouter
    · exact .inr (.inl hPublished)
    · have hne : y ≠ x := by
        rintro rfl
        cases hs.symm.trans hs'
        exact hNot hLogin
      refine .inr (.inr (.inl ⟨y, s', j, ?_, hLogin, hRest⟩))
      rw [Node.updateSession_of_ne n hne, hs']
    · exact .inr (.inr (.inr hRest))

theorem keeps_loginReply (x : Bytes) (packet : Packet) :
    Keeps (Carries L C) (loginReply C x packet) := by
  refine (keeps_fetchOfflinePacket x).bind fun found => ?_
  cases found with
  | none => exact Keeps.pure _
  | some pks =>
    simp only
    split
    · exact Keeps.bind (fun n => Carries.of_rest rfl rfl rfl rfl fun _ h => h) fun _ => Keeps.pure _
    · exact Keeps.pure _

/-! ### Routing -/

/-- The decisions that hand the packet over to someone. -/
def Decision.handsOver : Decision → Bool
  | .toMe | .route _ | .store => true
  | .ignore | .notify _ => false

theorem exists_newJID_of_handsOver {n n' : Node} {p : Packet} {d : Decision}
    (h : routeDecide C x p n = .done d n') (hOver : d.handsOver) :
    ∃ r, newJID p.envelope.to_ = .ok r := by
  obtain ⟨_, rfl | ⟨_, _, r, _, _, _, hr, _⟩⟩ := routeDecide_done h
  · cases hOver
  · exact ⟨r, hr⟩

/-- The recipient's own session, logged in, takes the packet. -/
theorem keeps_routeAct {p : Packet} (hSent : L.sent p) {d : Decision}
    (hTo : d.handsOver → ∃ r, newJID p.envelope.to_ = .ok r) (x : Bytes) :
    Keeps (Carries L C) (routeAct C x p d) := by
  cases d with
  | ignore => exact Keeps.pure _
  | toMe => exact (keeps_pkgBuffAdd ⟨hSent, hTo rfl⟩ x).bind fun _ => keeps_sendMessage x _
  | notify e => exact keeps_sendMessage x _
  | route ss =>
    intro n
    refine Carries.route ?_
    rintro q hq
    cases hq
    exact ⟨⟨hSent, hTo rfl⟩, rfl⟩
  | store => exact keeps_storePacket hSent

theorem routeAct_route_held {n : Node} {p : Packet} (ss : SessionStatus) (r : JID)
    (hRoom : n.router.length < routerQueueSize) : Held L C (routeAct C x p (.route ss) n).state r p := by
  refine .inl ⟨{ channel := ss.channel, sid := ss.sid, packet := some p, signal := 0 }, ?_, rfl⟩
  simp only [routeAct, modify_apply, Outcome.state_done, Node.route, if_pos hRoom]
  exact List.mem_append_right _ List.mem_cons_self

theorem routeAct_toMe_held {n : Node} {p : Packet} {s : Session} {j r : JID}
    (hs : n.sessions x = some s) (hLogin : s.status.status = .login)
    (hj : newJID s.status.jid = .ok j) (hSame : j.toOfflineKey = r.toOfflineKey) :
    Held L C (routeAct C x p .toMe n).state r p := by
  let s' : Session :=
    { s with pkgBuff := s.pkgBuff.insert p.envelope.id p, written := s.written ++ [.relay p] }
  refine .inr (.inr (.inl ⟨x, s', j, ?_, hLogin, hj, hSame, ?_⟩))
  · simp only [routeAct, bind_apply, pkgBuffAdd, sendMessage, modify_apply, Outcome.state_done,
      Node.updateSession_self, hs]
    rfl
  · simp only [s', Std.ExtTreeMap.getElem?_insert_self]

theorem carries_serverAck {n : Node} {packet : Packet}
    (hAcked : ∀ s j, n.sessions x = some s → newJID s.status.jid = .ok j →
      ∀ id ∈ (n.oflCache packet.envelope.id).getD [packet.envelope.id],
        L.acked (offlineIndex j) id) :
    Carries L C n (serverAck x packet n).state := by
  unfold serverAck
  cases hs : n.sessions x with
  | none =>
    rw [bind_panic (Node.session_eq_panic hs)]
    exact Std.Refl.refl n
  | some s =>
    rw [bind_done (Node.session_eq hs)]
    cases hj : newJID s.status.jid with
    | error e => exact Std.Refl.refl n
    | ok j =>
      have hCache := hAcked s j hs hj
      rw [bind_done (deref_ok j n), bind_done (read_apply _ n)]
      cases hIds : n.oflCache packet.envelope.id with
      | none =>
        rw [hIds] at hCache
        exact keeps_pkgBuffDel hs hj (hCache _ List.mem_cons_self)
      | some ids =>
        rw [hIds] at hCache
        refine Carries.send fun _ => ?_
        intro d hd
        obtain ⟨id, hid, hd⟩ := List.mem_flatMap.mp hd
        refine Ledger.sends_deleteByIdxKey ?_ d hd
        intro r hEq
        exact hCache id hid

end Programs

end Sara
