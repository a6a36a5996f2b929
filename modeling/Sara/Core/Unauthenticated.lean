import Sara.Core.Store

/-! # A client that never authenticates

A connection whose login is refused can still reach outside its own session in
two ways. The kill of an earlier session is routed before the credentials are
checked, and frames behind a refused login are still handled, those of its read
result and those of every later result that the connection hands over, among them
group messages, which fill the group cache.
-/

namespace Sara.Unauthenticated

open Lib Lib.Prog Saradb

set_option autoImplicit false

/-- Everything but the session `x` and its place in the clean-up queue. -/
structure Outside (x : Bytes) (n n' : Node) : Prop where
  db : n'.db = n.db
  router : n'.router = n.router
  oflCache : n'.oflCache = n.oflCache
  sessions : ∀ y, y ≠ x → n'.sessions y = n.sessions y

theorem Outside.refl (x : Bytes) (n : Node) : Outside x n n := ⟨rfl, rfl, rfl, fun _ _ => rfl⟩

theorem Outside.trans {x : Bytes} {n n' n'' : Node} (h : Outside x n n') (h' : Outside x n' n'') :
    Outside x n n'' :=
  ⟨h'.db.trans h.db, h'.router.trans h.router, h'.oflCache.trans h.oflCache,
    fun y hy => (h'.sessions y hy).trans (h.sessions y hy)⟩

theorem Outside.updateSession (n : Node) (x : Bytes) (f : Session → Session) :
    Outside x n (n.updateSession x f) :=
  ⟨rfl, rfl, rfl, fun _ hy => n.updateSession_of_ne hy f⟩

/-- Queues only get longer. -/
structure Grows (n n' : Node) : Prop where
  router : n.router.length ≤ n'.router.length
  queue : ∀ ch, (n.db.queue ch).length ≤ (n'.db.queue ch).length

theorem Grows.trans {n n' n'' : Node} (h : Grows n n') (h' : Grows n' n'') : Grows n n'' :=
  ⟨h.router.trans h'.router, fun ch => (h.queue ch).trans (h'.queue ch)⟩

theorem Outside.grows {x : Bytes} {n n' : Node} (h : Outside x n n') : Grows n n' := by
  refine ⟨?_, ?_⟩
  · rw [h.router]
  · rw [h.db]
    exact fun _ => le_rfl

/-- A session that was refused before it had a user. -/
def Refused (x : Bytes) (n : Node) : Prop :=
  ∃ s, n.sessions x = some s ∧ s.status.status = .close ∧ s.status.jid = [] ∧ s.connClosed = true

def LoginRejected (C : Codec) (i : Input) : Prop :=
  ∀ p j, newPacket C i.frame = .ok p → newJID p.envelope.jid = .ok j →
    i.env.auth j.user p.envelope.pwd = false

/-- The login names a user with a session entry, and the router has room. -/
def KillsSession (C : Codec) (n : Node) (frame : Bytes) : Prop :=
  ∃ p j, newPacket C frame = .ok p ∧ p.envelope.type = msgTypeOpenSession ∧
    newJID p.envelope.jid = .ok j ∧ (n.get j.toSessionid).isSome ∧
    n.router.length < routerQueueSize

def Fills (n : Node) (env : Env) (gid domain : Bytes) : Prop :=
  n.get (groupUsersKey gid domain) = none ∧
    ∃ ulist, env.groupUsers gid = .ok ulist ∧ 1 < ulist.length

def FillsGroup (C : Codec) (n : Node) (i : Input) : Prop :=
  i.frame ≠ [heartBeat] ∧
    match request C i with
    | .group p => ∃ j, newJID p.envelope.from_ = .ok j ∧ Fills n i.env p.envelope.gid j.domain
    | .ack _ | .chat _ | .bad _ => False

/-- A frame that panics in a session without a user, and drops the frames behind it. -/
def Aborts (C : Codec) (i : Input) : Prop :=
  i.frame ≠ [heartBeat] ∧
    match request C i with
    | .ack _ => True
    | .group p => ∃ e, newJID p.envelope.from_ = .error e
    | .chat _ | .bad _ => False

def HarmlessAfter (C : Codec) (n : Node) : List Input → Prop
  | [] => True
  | i :: is => Aborts C i ∨ ¬ FillsGroup C n i ∧ HarmlessAfter C n is

/-- A result that is handled behind the refusal. A panic drops no frames but its own result's. -/
def HarmlessResult (C : Codec) (n : Node) : ReadPacketResult → Prop
  | .error _ _ => True
  | .packets is => HarmlessAfter C n is

def Harmless (C : Codec) (n : Node) : List ReadPacketResult → Prop
  | [] => True
  | .error _ _ :: rs => ∀ r ∈ rs, HarmlessResult C n r
  | .packets [] :: rs => Harmless C n rs
  | .packets (i :: is) :: rs =>
    (¬ KillsSession C n i.frame ∧ HarmlessAfter C n is) ∧ ∀ r ∈ rs, HarmlessResult C n r

theorem Refused.of_update {x : Bytes} {n : Node} (h : Refused x n) {f : Session → Session}
    (hStatus : ∀ s, (f s).status = s.status) (hConn : ∀ s, (f s).connClosed = s.connClosed) :
    Refused x (n.updateSession x f) := by
  obtain ⟨s, hs, hClose, hJid, hClosed⟩ := h
  refine ⟨f s, ?_, ?_, ?_, ?_⟩
  · rw [Node.updateSession_self, hs, Option.map_some]
  · rw [hStatus, hClose]
  · rw [hStatus, hJid]
  · rw [hConn, hClosed]

theorem Refused.session {x : Bytes} {n : Node} (h : Refused x n) :
    ∃ s, Node.session x n = .done s n ∧ s.status.status = .close ∧ s.status.jid = [] ∧
      s.connClosed = true := by
  obtain ⟨s, hs, hRest⟩ := h
  exact ⟨s, Node.session_eq hs, hRest⟩

/-- What is left in a refused session: nothing outside it, or a queue that got longer. -/
def Leaves (x : Bytes) (harmless : Prop) (n n' : Node) : Prop :=
  Refused x n' ∧ (harmless ∧ Outside x n n' ∨ ¬ harmless ∧ Grows n n' ∧
    (n.router.length < n'.router.length ∨ (n.db.queue .message).length < (n'.db.queue .message).length))

theorem Leaves.grows {x : Bytes} {p : Prop} {n n' : Node} (h : Leaves x p n n') : Grows n n' := by
  obtain ⟨_, ⟨_, hOutside⟩ | ⟨_, hGrows, _⟩⟩ := h
  · exact hOutside.grows
  · exact hGrows

theorem Leaves.outside_iff {x : Bytes} {p : Prop} {n n' : Node} (h : Leaves x p n n') :
    Outside x n n' ↔ p := by
  obtain ⟨_, ⟨hp, hOutside⟩ | ⟨hNot, _, hLonger⟩⟩ := h
  · exact iff_of_true hOutside hp
  · refine iff_of_false (fun hOutside => ?_) hNot
    rw [hOutside.router, hOutside.db] at hLonger
    omega

theorem Leaves.of_outside {x : Bytes} {n n' : Node} (hRefused : Refused x n') (hOutside : Outside x n n') :
    Leaves x True n n' := ⟨hRefused, .inl ⟨trivial, hOutside⟩⟩

/-- What was added to a queue stays. -/
theorem Leaves.trans {x : Bytes} {p q q' : Prop} {n n' n'' : Node} (h : Leaves x p n n')
    (h' : Leaves x q' n' n'') (hSame : Outside x n n' → (q' ↔ q)) : Leaves x (p ∧ q) n n'' := by
  have hRest := h'.grows
  refine ⟨h'.1, ?_⟩
  obtain ⟨_, ⟨hp, hOutside⟩ | ⟨hNot, hGrows, hLonger⟩⟩ := h
  · rw [hSame hOutside] at h'
    obtain ⟨_, ⟨hq, hOutside'⟩ | ⟨hNot, hGrows, hLonger⟩⟩ := h'
    · exact .inl ⟨⟨hp, hq⟩, hOutside.trans hOutside'⟩
    · rw [hOutside.router, hOutside.db] at hLonger
      exact .inr ⟨fun hBoth => hNot hBoth.2, hOutside.grows.trans hGrows, hLonger⟩
  · refine .inr ⟨fun hBoth => hNot hBoth.1, hGrows.trans hRest, ?_⟩
    exact hLonger.imp (·.trans_le hRest.router) (·.trans_le (hRest.queue .message))

def Quiet (x : Bytes) (m : Prog Node Unit) (n : Node) : Prop :=
  ∃ n', m n = .done () n' ∧ Outside x n n' ∧ Refused x n'

theorem Quiet.answer {x : Bytes} {n : Node} (h : Refused x n) (p : Packet) :
    Quiet x (answer x p) n :=
  ⟨_, rfl, Outside.updateSession n x _, h.of_update (fun _ => rfl) (fun _ => rfl)⟩

theorem Quiet.bind {x : Bytes} {n : Node} {m : Prog Node Unit} {f : Unit → Prog Node Unit}
    (hm : Quiet x m n) (hf : ∀ n', Refused x n' → Quiet x (f ()) n') : Quiet x (m >>= f) n := by
  obtain ⟨n', hDone, hOutside, hRefused⟩ := hm
  obtain ⟨n'', hDone', hOutside', hRefused'⟩ := hf n' hRefused
  refine ⟨n'', ?_, hOutside.trans hOutside', hRefused'⟩
  rw [bind_done hDone, hDone']

theorem Quiet.pure {x : Bytes} {n : Node} (h : Refused x n) : Quiet x (pure ()) n :=
  ⟨n, rfl, Outside.refl x n, h⟩

theorem Quiet.heartbeat {x : Bytes} {n : Node} (h : Refused x n) : Quiet x (heartbeat x) n := by
  obtain ⟨s, hs, hClose, _⟩ := h.session
  refine ⟨n, ?_, Outside.refl x n, h⟩
  unfold Sara.heartbeat
  rw [bind_done hs, hClose]
  rfl

theorem Quiet.closeSession {C : Codec} {x : Bytes} {n : Node} (h : Refused x n) (env : Env) :
    Quiet x (closeSession C x env) n := by
  obtain ⟨s, hs, hClose, _⟩ := id h
  exact ⟨n, closeSession_of_close C hs hClose env, Outside.refl x n, h⟩

theorem Quiet.routePacket {C : Codec} {x : Bytes} {n : Node} (h : Refused x n) (p : Packet) :
    Quiet x (routePacket C x p) n := by
  obtain ⟨s, hs, hClose, _⟩ := h.session
  refine ⟨n, ?_, Outside.refl x n, h⟩
  have hDecide : routeDecide C x p n = .done .ignore n := by
    unfold routeDecide
    rw [bind_done hs, hClose]
    rfl
  unfold Sara.routePacket
  rw [bind_done hDecide]
  rfl

theorem Quiet.routeAll {C : Codec} {x : Bytes} {n : Node} (h : Refused x n) (ps : List Packet) :
    Quiet x (ps.forM (Sara.routePacket C x)) n := by
  induction ps generalizing n with
  | nil => exact Quiet.pure h
  | cons p ps ih => exact Quiet.bind (Quiet.routePacket h p) fun _ hn => ih hn

theorem Quiet.chat {C : Codec} {x : Bytes} {n : Node} (h : Refused x n) (env : Env) (p : Packet) :
    Quiet x (handleRequest C x env (.chat p)) n := by
  simp only [handleRequest]
  split
  · exact Quiet.bind (Quiet.answer h _) fun _ hn => Quiet.routePacket hn p
  · exact Quiet.routePacket h p

theorem Quiet.bad {C : Codec} {x : Bytes} {n : Node} (h : Refused x n) (env : Env) (err : Bytes) :
    Quiet x (handleRequest C x env (.bad err)) n :=
  Quiet.bind (Quiet.answer h _) fun _ hn => Quiet.closeSession hn env

theorem groupMembers_cases (n : Node) (gid domain : Bytes) (env : Env) :
    (¬ Fills n env gid domain ∧ ∃ members, groupMembers gid domain env n = .done members n) ∨
    (Fills n env gid domain ∧ ∃ us, groupMembers gid domain env n =
      .done (some us) (n.send (putEx (groupUsersKey gid domain) us 3600))) := by
  unfold groupMembers Fills
  rw [bind_done (read_apply _ n)]
  cases hCached : n.get (groupUsersKey gid domain) with
  | some users => exact .inl ⟨fun h => Option.some_ne_none _ h.1, some users, rfl⟩
  | none =>
    cases hList : env.groupUsers gid with
    | error e =>
      refine .inl ⟨?_, none, rfl⟩
      rintro ⟨_, ulist, hOk, _⟩
      cases hOk
    | ok ulist =>
      by_cases hLength : 1 < ulist.length
      · refine .inr ⟨⟨rfl, ulist, rfl, hLength⟩, List.intercalate [comma] ulist, ?_⟩
        simp only [if_pos hLength]
        rfl
      · refine .inl ⟨?_, none, ?_⟩
        · rintro ⟨_, ulist', hOk, hLength'⟩
          cases hOk
          exact hLength hLength'
        · simp only [if_neg hLength]
          rfl

theorem Quiet.group {C : Codec} {x : Bytes} {n n' : Node} {env : Env} {p : Packet} {j : JID}
    {members : Option Bytes} (hFrom : newJID p.envelope.from_ = .ok j) (h : Refused x n')
    (hMembers : groupMembers p.envelope.gid j.domain env n = .done members n') :
    ∃ n'', handleRequest C x env (.group p) n = .done () n'' ∧ Outside x n' n'' ∧ Refused x n'' := by
  have hGenerate : ∃ r, generateGroupPackets p env n = .done r n' := by
    unfold generateGroupPackets
    rw [hFrom, bind_done (deref_ok j n), bind_done hMembers]
    cases members with
    | none => exact ⟨_, rfl⟩
    | some users =>
      by_cases hUser : j.user <:+: users
      · simp only [if_pos hUser, genGroupPackets_eq]
        exact ⟨_, rfl⟩
      · simp only [if_neg hUser]
        exact ⟨_, rfl⟩
  obtain ⟨r, hr⟩ := hGenerate
  simp only [handleRequest]
  rw [bind_done hr]
  cases r with
  | error gerr => exact Quiet.answer h _
  | ok packets => exact Quiet.bind (Quiet.answer h _) fun _ hn => Quiet.routeAll hn packets

theorem queue_putEx_lt (n : Node) (gid domain us : Bytes) :
    Grows n (n.send (putEx (groupUsersKey gid domain) us 3600)) ∧
      (n.db.queue .message).length <
        ((n.send (putEx (groupUsersKey gid domain) us 3600)).db.queue .message).length := by
  have hSend : n.send (putEx (groupUsersKey gid domain) us 3600) =
      { n with db := n.db.enqueue .message (.setex (groupUsersKey gid domain) 3600 us) } := rfl
  rw [hSend]
  refine ⟨⟨le_rfl, ?_⟩, ?_⟩
  · intro ch
    cases ch with
    | message => simp [Database.enqueue]
    | session => simp [Database.enqueue]
  · simp [Database.enqueue]

/-- One frame in a refused session: it panics, or it fills the group cache, or it is quiet. -/
theorem handleFrame_refused {C : Codec} {x : Bytes} {n : Node} (h : Refused x n) (i : Input) :
    (Aborts C i ∧ handleFrame C x i n = .panic n) ∨
    (¬ Aborts C i ∧ ∃ n', handleFrame C x i n = .done () n' ∧ Leaves x (¬ FillsGroup C n i) n n') := by
  obtain ⟨s, hs, hClose, hJid, _⟩ := h.session
  have hFrame : handleFrame C x i n =
      (if i.frame = [heartBeat] then heartbeat x else handleRequest C x i.env (request C i)) n := by
    unfold handleFrame
    rw [bind_done hs, hClose]
    rfl
  have hQuiet : ∀ m : Prog Node Unit, handleFrame C x i n = m n → Quiet x m n → ¬ FillsGroup C n i →
      ∃ n', handleFrame C x i n = .done () n' ∧ Leaves x (¬ FillsGroup C n i) n n' := by
    rintro m hEq ⟨n', hDone, hOutside, hRefused⟩ hNot
    exact ⟨n', hEq.trans hDone, hRefused, .inl ⟨hNot, hOutside⟩⟩
  rcases eq_or_ne i.frame [heartBeat] with hBeat | hBeat
  · rw [if_pos hBeat] at hFrame
    exact .inr ⟨fun hAborts => hAborts.1 hBeat,
      hQuiet _ hFrame (Quiet.heartbeat h) fun hFills => hFills.1 hBeat⟩
  rw [if_neg hBeat] at hFrame
  cases hRequest : request C i with
  | ack p =>
    refine .inl ⟨⟨hBeat, by simp only [hRequest]⟩, ?_⟩
    rw [hFrame, hRequest]
    simp only [handleRequest, serverAck]
    rw [bind_done hs, hJid]
    rfl
  | group p =>
    rw [hRequest] at hFrame
    cases hFrom : newJID p.envelope.from_ with
    | error e =>
      refine .inl ⟨⟨hBeat, by simp only [hRequest]; exact ⟨e, hFrom⟩⟩, ?_⟩
      rw [hFrame]
      simp only [handleRequest, generateGroupPackets, hFrom]
      rfl
    | ok j =>
      have hNoAbort : ¬ Aborts C i := by
        simp only [Aborts, hRequest, hFrom]
        rintro ⟨_, e, hError⟩
        cases hError
      have hFills : FillsGroup C n i ↔ Fills n i.env p.envelope.gid j.domain := by
        simp only [FillsGroup, hRequest, hFrom, Except.ok.injEq, exists_eq_left']
        exact and_iff_right hBeat
      refine .inr ⟨hNoAbort, ?_⟩
      obtain ⟨hNot, members, hMembers⟩ | ⟨hFill, us, hMembers⟩ :=
        groupMembers_cases n p.envelope.gid j.domain i.env
      · exact hQuiet _ hFrame (Quiet.group hFrom h hMembers) (hFills.not.mpr hNot)
      · have hSend : Refused x (n.send (putEx (groupUsersKey p.envelope.gid j.domain) us 3600)) := h
        obtain ⟨n', hDone, hOutside, hRefused⟩ := Quiet.group hFrom hSend hMembers
        obtain ⟨hGrows, hLess⟩ := queue_putEx_lt n p.envelope.gid j.domain us
        refine ⟨n', hFrame.trans hDone, hRefused,
          .inr ⟨not_not.mpr (hFills.mpr hFill), hGrows.trans hOutside.grows, .inr ?_⟩⟩
        rw [hOutside.db]
        exact hLess
  | chat p =>
    rw [hRequest] at hFrame
    exact .inr ⟨by simp [Aborts, hRequest],
      hQuiet _ hFrame (Quiet.chat h i.env p) (by simp [FillsGroup, hRequest])⟩
  | bad err =>
    rw [hRequest] at hFrame
    exact .inr ⟨by simp [Aborts, hRequest],
      hQuiet _ hFrame (Quiet.bad h i.env err) (by simp [FillsGroup, hRequest])⟩

theorem Outside.fillsGroup_iff {C : Codec} {x : Bytes} {n n' : Node} (h : Outside x n n')
    (i : Input) : FillsGroup C n' i ↔ FillsGroup C n i := by
  simp only [FillsGroup, Fills, Node.get, h.db]

theorem Outside.harmlessAfter_iff {C : Codec} {x : Bytes} {n n' : Node} (h : Outside x n n')
    (is : List Input) : HarmlessAfter C n' is ↔ HarmlessAfter C n is := by
  induction is with
  | nil => exact Iff.rfl
  | cons i is ih => simp only [HarmlessAfter, h.fillsGroup_iff, ih]

theorem Outside.harmlessResult_iff {C : Codec} {x : Bytes} {n n' : Node} (h : Outside x n n')
    (r : ReadPacketResult) : HarmlessResult C n' r ↔ HarmlessResult C n r := by
  cases r with
  | error => exact Iff.rfl
  | packets is => exact h.harmlessAfter_iff is

theorem handleFrames_refused {C : Codec} {x : Bytes} {n : Node} (h : Refused x n) (is : List Input) :
    Leaves x (HarmlessAfter C n is) n (is.forM (handleFrame C x) n).state := by
  induction is generalizing n with
  | nil => exact .of_outside h (Outside.refl x n)
  | cons i is ih =>
    have hCons : (i :: is).forM (handleFrame C x) = (handleFrame C x i >>= fun _ =>
      is.forM (handleFrame C x)) := rfl
    rw [hCons]
    obtain ⟨hAborts, hPanic⟩ | ⟨hNo, n', hDone, hLeaves⟩ := handleFrame_refused h i
    · rw [bind_panic hPanic]
      exact ⟨h, .inl ⟨.inl hAborts, Outside.refl x n⟩⟩
    · rw [bind_done hDone]
      have hBoth := hLeaves.trans (ih hLeaves.1) fun hOutside => hOutside.harmlessAfter_iff is
      simpa only [HarmlessAfter, hNo, false_or] using hBoth

/-- The handler recovers, so the next result is handled whatever happens. -/
theorem handleResults_cons (C : Codec) (x : Bytes) (r : ReadPacketResult) (rs : List ReadPacketResult)
    (n : Node) : handleResults C x (r :: rs) n = handleResults C x rs (packetHandler C x r n).state := by
  cases r with
  | error | packets => rfl

theorem handleResults_refused {C : Codec} {x : Bytes} {n : Node} (h : Refused x n)
    (rs : List ReadPacketResult) :
    Leaves x (∀ r ∈ rs, HarmlessResult C n r) n (handleResults C x rs n).state := by
  induction rs generalizing n with
  | nil => exact ⟨h, .inl ⟨by simp, Outside.refl x n⟩⟩
  | cons r rs ih =>
    have hFirst : Leaves x (HarmlessResult C n r) n (packetHandler C x r n).state := by
      cases r with
      | error err env =>
        obtain ⟨s, hs, hClose, _⟩ := h.session
        have hSame : packetHandler C x (.error err env) n = .done () n := by
          simp only [packetHandler, recover]
          rw [bind_done hs, hClose]
          rfl
        rw [hSame]
        exact .of_outside h (Outside.refl x n)
      | packets is => exact handleFrames_refused h is
    rw [handleResults_cons, List.forall_mem_cons]
    exact hFirst.trans (ih hFirst.1) fun hOutside =>
      forall₂_congr fun r _ => hOutside.harmlessResult_iff r

def Fresh (x : Bytes) (n : Node) : Prop :=
  ∃ s, n.sessions x = some s ∧ s.status.status = .conn ∧ s.status.jid = [] ∧ s.pkgBuff = ∅ ∧
    s.connClosed = false

theorem Quiet.close_fresh {C : Codec} {x : Bytes} {n : Node} (h : Fresh x n) (env : Env) :
    Quiet x (Sara.closeSession C x env) n := by
  obtain ⟨s, hs, hConn, hJid, hBuff, _⟩ := h
  refine ⟨n.closed x s, ?_, ⟨?_, rfl, rfl, fun _ hy => Function.update_of_ne hy ..⟩, ?_⟩
  · rw [closeSession_of_open C hs (by rw [hConn]; decide) (by rw [hConn]; exact Status.noConfusion),
      hBuff, pkgBuffToStore_empty]
  · exact dropEntry_of_ne (by rw [hConn]; decide)
  · exact ⟨_, Function.update_self .., rfl, hJid, rfl⟩

theorem Quiet.refuse {C : Codec} {x : Bytes} {n : Node} (h : Fresh x n) (id reason : Bytes)
    (env : Env) : Quiet x (Sara.refuse C x id reason env) n := by
  let p := newPacketAuthFail id reason
  have hFresh : Fresh x (n.updateSession x fun s => { s with written := s.written ++ [.answer p] }) := by
    obtain ⟨s, hs, hRest⟩ := h
    refine ⟨{ s with written := s.written ++ [.answer p] }, ?_, hRest⟩
    rw [Node.updateSession_self, hs, Option.map_some]
  obtain ⟨n', hDone, hOutside, hRefused⟩ := Quiet.close_fresh (C := C) hFresh env
  exact ⟨n', hDone, (Outside.updateSession n x _).trans hOutside, hRefused⟩

theorem verifyAuth_rejected {C : Codec} {x : Bytes} {n : Node} (h : Fresh x n) {p : Packet} {j : JID}
    {env : Env} (hAuth : env.auth j.user p.envelope.pwd = false) :
    ∃ n', verifyAuth C x p j env n = .done false n' ∧ Outside x n n' ∧ Refused x n' := by
  obtain ⟨n', hDone, hRest⟩ := Quiet.refuse (C := C) h p.envelope.id failToken env
  refine ⟨n', ?_, hRest⟩
  unfold verifyAuth
  simp only [hAuth, Bool.false_eq_true, if_false]
  rw [bind_done hDone]
  rfl

/-- A login that reaches the directory: the kill comes before the credentials. -/
theorem verify_known {C : Codec} {x : Bytes} {n : Node} (h : Fresh x n) {i : Input} {p : Packet}
    {j : JID} (hPacket : newPacket C i.frame = .ok p)
    (hType : p.envelope.type = msgTypeOpenSession) (hJid : newJID p.envelope.jid = .ok j)
    (hAuth : i.env.auth j.user p.envelope.pwd = false) :
    ∃ n', verify C x i.frame i.env n = .done none n' ∧ Leaves x (¬ KillsSession C n i.frame) n n' := by
  have hKills : KillsSession C n i.frame ↔
      (n.get j.toSessionid).isSome ∧ n.router.length < routerQueueSize := by
    simp only [KillsSession, hPacket, Except.ok.injEq, exists_and_left, exists_eq_left', hType,
      hJid, true_and]
  unfold verify
  rw [bind_done (verifyGet_found C hPacket hType hJid x i.env n), hKills]
  cases hFound : n.get j.toSessionid with
  | none =>
    obtain ⟨n', hDone, hOutside, hRefused⟩ := verifyAuth_rejected (C := C) h hAuth
    refine ⟨n', ?_, hRefused, .inl ⟨by simp, hOutside⟩⟩
    simp only [Option.map_none]
    rw [bind_done hDone]
    rfl
  | some ssb =>
    let ss := C.unmarshalStatus ssb
    let item : RouterItem :=
      { channel := ss.channel, sid := ss.sid, packet := none, signal := killSignal }
    have hFresh : Fresh x (n.route item) := by
      unfold Node.route
      split <;> exact h
    obtain ⟨n', hDone, hOutside, hRefused⟩ := verifyAuth_rejected (C := C) hFresh hAuth
    refine ⟨n', ?_, hRefused, ?_⟩
    · simp only [Option.map_some]
      have hKill : verifyKill ss n = .done () (n.route item) := rfl
      rw [bind_done hKill, bind_done hDone]
      rfl
    · by_cases hRoom : n.router.length < routerQueueSize
      · have hLess : n.router.length < (n.route item).router.length := by
          rw [Node.route, if_pos hRoom, List.length_append]
          exact Nat.lt_succ_self _
        have hGrows : Grows n (n.route item) := by
          refine ⟨hLess.le, ?_⟩
          rw [Node.route, if_pos hRoom]
          exact fun _ => le_rfl
        refine .inr ⟨not_not.mpr ⟨rfl, hRoom⟩, hGrows.trans hOutside.grows, .inl ?_⟩
        rw [hOutside.router]
        exact hLess
      · have hSame : n.route item = n := if_neg hRoom
        rw [hSame] at hOutside
        exact .inl ⟨fun hBoth => hRoom hBoth.2, hOutside⟩

theorem verify_refused_early {C : Codec} {x : Bytes} {n : Node} (h : Fresh x n) {i : Input}
    (id reason : Bytes)
    (hGet : verifyGet C x i.frame i.env = (do Sara.refuse C x id reason i.env; return none))
    (hNo : ¬ KillsSession C n i.frame) :
    ∃ n', verify C x i.frame i.env n = .done none n' ∧ Leaves x (¬ KillsSession C n i.frame) n n' := by
  obtain ⟨n', hDone, hOutside, hRefused⟩ := Quiet.refuse (C := C) h id reason i.env
  refine ⟨n', ?_, hRefused, .inl ⟨hNo, hOutside⟩⟩
  have hNone : verifyGet C x i.frame i.env n = .done none n' := by
    rw [hGet, bind_done hDone]
    rfl
  unfold verify
  rw [bind_done hNone]
  rfl

theorem verify_rejected {C : Codec} {x : Bytes} {n : Node} (h : Fresh x n) {i : Input}
    (hAuth : LoginRejected C i) :
    ∃ n', verify C x i.frame i.env n = .done none n' ∧ Leaves x (¬ KillsSession C n i.frame) n n' := by
  cases hPacket : newPacket C i.frame with
  | error e =>
    refine verify_refused_early h (i.env.uuid 0) failPacket (by unfold verifyGet; rw [hPacket]) ?_
    simp [KillsSession, hPacket]
  | ok p =>
    rcases eq_or_ne p.envelope.type msgTypeOpenSession with hType | hType
    · cases hJid : newJID p.envelope.jid with
      | error e =>
        refine verify_refused_early h p.envelope.id failPacket ?_ ?_
        · unfold verifyGet
          simp only [hPacket, hType, hJid, ne_eq, not_true_eq_false, if_false]
        · simp [KillsSession, hPacket, hJid]
      | ok j => exact verify_known h hPacket hType hJid (hAuth p j hPacket hJid)
    · refine verify_refused_early h p.envelope.id failType ?_ ?_
      · unfold verifyGet
        simp only [hPacket, hType, ne_eq, not_false_eq_true, if_true]
      · simp [KillsSession, hPacket, hType]

theorem handleFrame_rejected {C : Codec} {x : Bytes} {n : Node} (h : Fresh x n) {i : Input}
    (hAuth : LoginRejected C i) :
    ∃ n', handleFrame C x i n = .done () n' ∧ Leaves x (¬ KillsSession C n i.frame) n n' := by
  obtain ⟨n', hVerify, hLeft⟩ := verify_rejected h hAuth
  refine ⟨n', ?_, hLeft⟩
  obtain ⟨s, hs, hConn, _⟩ := h
  have hOpen : handleFrame C x i n = openSession C x i.frame i.env n := by
    unfold handleFrame
    rw [bind_done (Node.session_eq hs), hConn]
    rfl
  rw [hOpen]
  unfold openSession
  rw [bind_done hVerify]
  rfl

theorem packetHandler_rejected {C : Codec} {x : Bytes} {n : Node} (h : Fresh x n) {i : Input}
    (hAuth : LoginRejected C i) (is : List Input) :
    Leaves x (¬ KillsSession C n i.frame ∧ HarmlessAfter C n is) n
      (packetHandler C x (.packets (i :: is)) n).state := by
  obtain ⟨n₁, hFirst, hLeaves⟩ := handleFrame_rejected h hAuth
  have hCons : (i :: is).forM (handleFrame C x) n = is.forM (handleFrame C x) n₁ := bind_done hFirst _
  have hHandler : (packetHandler C x (.packets (i :: is)) n).state =
      (is.forM (handleFrame C x) n₁).state := by
    simp only [packetHandler, recover, hCons, Outcome.state_done]
  rw [hHandler]
  exact hLeaves.trans (handleFrames_refused hLeaves.1 is) fun hOutside => hOutside.harmlessAfter_iff is

theorem packetHandler_error {C : Codec} {x : Bytes} {n : Node} (h : Fresh x n) (err : Bytes)
    (env : Env) : Leaves x True n (packetHandler C x (.error err env) n).state := by
  obtain ⟨n', hDone, hOutside, hRefused⟩ := Quiet.close_fresh (C := C) h env
  obtain ⟨s, hs, hConn, _⟩ := h
  have hHandler : (packetHandler C x (.error err env) n).state = n' := by
    simp only [packetHandler, recover]
    rw [bind_done (Node.session_eq hs), hConn]
    exact congrArg Outcome.state hDone
  rw [hHandler]
  exact .of_outside hRefused hOutside

/-- What a client that is never let in leaves behind. Nothing outside its session
changes exactly when its first frame does not name a user with a live entry and
no frame that is handled behind it, in that result or in a later one, fills the
group cache. -/
theorem unauthenticated_outside_iff (C : Codec) (n : Node) (x channel nodeid : Bytes)
    (hNew : n.sessions x = some (newSession channel x nodeid)) (rs : List ReadPacketResult)
    (hAuth : ∀ is, .packets is ∈ rs → ∀ i ∈ is, LoginRejected C i) :
    Outside x n (handleResults C x rs n).state ↔ Harmless C n rs := by
  have hFresh : Fresh x n := ⟨_, hNew, rfl, rfl, rfl, rfl⟩
  -- The results behind the one that refuses the session, whatever that one leaves.
  have hRest : ∀ p r rs, Leaves x p n (packetHandler C x r n).state →
      (Outside x n (handleResults C x (r :: rs) n).state ↔ p ∧ ∀ r ∈ rs, HarmlessResult C n r) := by
    intro p r rs hLeaves
    rw [handleResults_cons]
    refine (hLeaves.trans (handleResults_refused hLeaves.1 rs) fun hOutside => ?_).outside_iff
    exact forall₂_congr fun r _ => hOutside.harmlessResult_iff r
  induction rs with
  | nil => exact iff_of_true (Outside.refl x n) trivial
  | cons r rs ih =>
    match r with
    | .error err env =>
      exact (hRest True _ rs (packetHandler_error hFresh err env)).trans (and_iff_right trivial)
    | .packets [] => exact ih fun is his => hAuth is (List.mem_cons_of_mem _ his)
    | .packets (i :: is) =>
      have hFirst := hAuth (i :: is) List.mem_cons_self i List.mem_cons_self
      exact hRest _ _ rs (packetHandler_rejected hFresh hFirst is)

def lobby : Node where
  nodeid := text "node01"
  channel := text "node01:4281"
  sessions y := if y = text "7f" then some (newSession (text "node01:4281") (text "7f") (text "node01"))
    else none
  sessionMap y := y = text "7f"
  cleanSession := []
  db := Database.start Store.bobOnline
  router := []
  oflCache _ := none
  published := []

def loginAs (jid : Bytes) : Input where
  frame := PlainJson.writeFrame { id := text "1", jid := jid, type := 0, pwd := text "guess" }
  env := Env.plain false

theorem loginAs_rejected (jid : Bytes) : LoginRejected PlainJson.codec (loginAs jid) :=
  fun _ _ _ _ => rfl

def groupMessage : Input where
  frame := PlainJson.writeFrame
    { id := text "2", from_ := text "carol@x", gid := text "g1", type := msgTypeGroupChat }
  env := { Env.plain false with groupUsers := fun _ => .ok [text "alice", text "bob"] }

/-- A refused login for a user who is not logged in, and a heartbeat in a result of its own. -/
theorem unauthenticated_outside_carol :
    Outside (text "7f") lobby
      (handleResults PlainJson.codec (text "7f")
        [.packets [loginAs (text "carol@x")], .packets [⟨[heartBeat], Env.plain false⟩]] lobby).state := by
  have hNoKill : ¬ KillsSession PlainJson.codec lobby (loginAs (text "carol@x")).frame := by
    rintro ⟨p, j, hPacket, _, hJid, hFound, _⟩
    have hCarol : newPacket PlainJson.codec (loginAs (text "carol@x")).frame =
        .ok (PlainJson.received
          { id := text "1", jid := text "carol@x", type := 0, pwd := text "guess" }) := by decide
    cases hCarol.symm.trans hPacket
    have hParsed : newJID (text "carol@x") = .ok Store.carol := by decide
    cases hParsed.symm.trans hJid
    exact absurd hFound (by decide)
  refine (unauthenticated_outside_iff PlainJson.codec lobby (text "7f") (text "node01:4281")
    (text "node01") rfl _ ?_).mpr ⟨⟨hNoKill, trivial⟩, ?_⟩
  · intro is his i hi
    rcases List.mem_cons.mp his with hLogin | hBeat
    · cases hLogin
      cases List.mem_singleton.mp hi
      exact loginAs_rejected _
    · cases List.mem_singleton.mp hBeat
      cases List.mem_singleton.mp hi
      exact fun _ _ _ _ => rfl
  · intro r hr
    cases List.mem_singleton.mp hr
    exact .inr ⟨fun hFills => hFills.1 rfl, trivial⟩

/-- A login with a wrong password for a user who is logged in: the router queue
holds the kill of that user's session. A message to a group behind a refused login,
in a result of its own: the cache of the group is filled. -/
theorem refused_login_kills_bob :
    LoginRejected PlainJson.codec (loginAs (text "bob@x")) ∧ lobby.router = [] ∧
      (handleResults PlainJson.codec (text "7f") [.packets [loginAs (text "bob@x")]] lobby).state.router =
        [{ channel := text "node01:4281", sid := text "5a", packet := none, signal := killSignal }] ∧
    LoginRejected PlainJson.codec (loginAs (text "carol@x")) ∧ lobby.db.queue .message = [] ∧
      (handleResults PlainJson.codec (text "7f")
        [.packets [loginAs (text "carol@x")], .packets [groupMessage]] lobby).state.db.queue .message =
        [.setex (groupUsersKey (text "g1") (text "x")) 3600 (text "alice,bob")] :=
  ⟨loginAs_rejected _, rfl, by decide, loginAs_rejected _, rfl, by decide⟩

end Sara.Unauthenticated
