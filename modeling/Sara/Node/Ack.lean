import Sara.Core.Offline
import Sara.Core.Store
import Sara.Node.Directory
import Sara.Node.Frame
import Mathlib.Data.List.Nodup

/-! # What an ack removes

A login reply holds the user's offline messages, and their ids are cached under the
id of the login packet, which the client chose, in one map for the whole process. An
ack deletes what it finds there from the index of the user who sent it. That is the
session's own reply exactly if the last login with that id that had messages to fetch had
the same ones.
-/

namespace Sara.Concurrent

open Lib Lib.Prog Lib.Transition Saradb

set_option autoImplicit false

/-- A login reply: the session, the id of its login packet, the messages in it. -/
structure Reply where
  sid : Bytes
  id : Bytes
  ids : List Bytes

def fetches (C : Codec) (s : System) : Action → List Reply
  | .go x _ =>
    match s.pc x, s.node.sessions x with
    | .fetch packet, some sess =>
      match newJID sess.status.jid with
      | .ok j => [{ sid := x, id := packet.envelope.id, ids := offlineIds C s.node j }]
      | .error _ => []
    | _, _ => []
  | _ => []

/-! ## The cache -/

def cached (replies : List Reply) : Bytes → Option (List Bytes) :=
  replies.foldl (fun cache e => cacheReply cache e.id e.ids) fun _ => none

theorem cached_snoc (replies : List Reply) (e : Reply) :
    cached (replies ++ [e]) = cacheReply (cached replies) e.id e.ids := by
  rw [cached, List.foldl_append]
  rfl

theorem cacheReply_apply (cache : Bytes → Option (List Bytes)) (id key : Bytes) (ids : List Bytes) :
    cacheReply cache id ids key = if key = id ∧ ids ≠ [] then some ids else cache key := by
  unfold cacheReply
  by_cases hNone : ids = []
  · simp [hNone]
  · simp [hNone, Function.update_apply]

/-- The messages in the last reply under the id that has any. -/
def lastIds (replies : List Reply) (id : Bytes) : List Bytes :=
  ((replies.filter fun e => e.id = id ∧ e.ids ≠ []).getLast?.map (·.ids)).getD []

theorem lastIds_snoc (replies : List Reply) (e : Reply) (id : Bytes) :
    lastIds (replies ++ [e]) id = if id = e.id ∧ e.ids ≠ [] then e.ids else lastIds replies id := by
  unfold lastIds
  rw [List.filter_append]
  by_cases hNew : id = e.id ∧ e.ids ≠ []
  · have hKept : decide (e.id = id ∧ e.ids ≠ []) = true := decide_eq_true ⟨hNew.1.symm, hNew.2⟩
    rw [if_pos hNew, List.filter_singleton, hKept, cond_true, List.getLast?_concat]
    rfl
  · have hDropped : decide (e.id = id ∧ e.ids ≠ []) = false :=
      decide_eq_false fun h => hNew ⟨h.1.symm, h.2⟩
    rw [if_neg hNew, List.filter_singleton, hDropped, cond_false, List.append_nil]

theorem cached_eq (replies : List Reply) (id : Bytes) :
    cached replies id = if lastIds replies id = [] then none else some (lastIds replies id) := by
  induction replies using List.reverseRecOn with
  | nil => rfl
  | append_singleton replies e ih =>
    rw [cached_snoc, cacheReply_apply, lastIds_snoc]
    by_cases hNew : id = e.id ∧ e.ids ≠ []
    · simp only [if_pos hNew, if_neg hNew.2]
    · simp only [if_neg hNew]
      exact ih

/-- The messages in the session's own login reply, if `id` is that of its login. -/
def ownIds (replies : List Reply) (x id : Bytes) : List Bytes :=
  ((replies.find? fun e => e.sid = x ∧ e.id = id).map (·.ids)).getD []

theorem find_own_of_new {replies : List Reply} {x : Bytes} (hNew : x ∉ replies.map (·.sid)) (id : Bytes) :
    replies.find? (fun e => e.sid = x ∧ e.id = id) = none := by
  rw [List.find?_eq_none]
  intro e he hSame
  exact hNew (List.mem_map.mpr ⟨e, he, (of_decide_eq_true hSame).1⟩)

theorem ownIds_snoc {replies : List Reply} {e : Reply} (hNew : e.sid ∉ replies.map (·.sid)) (x id : Bytes) :
    ownIds (replies ++ [e]) x id = if e.sid = x ∧ e.id = id then e.ids else ownIds replies x id := by
  unfold ownIds
  rw [List.find?_append]
  by_cases hMine : e.sid = x ∧ e.id = id
  · rw [if_pos hMine, find_own_of_new (hMine.1 ▸ hNew), List.find?_cons_of_pos (by simpa using hMine)]
    rfl
  · rw [if_neg hMine, List.find?_cons_of_neg (by simpa using hMine), List.find?_nil, Option.or_none]

/-- The last reply with messages is the session's own, if no other reply under the id has any. -/
theorem lastIds_of_own {replies : List Reply} (hNodup : (replies.map (·.sid)).Nodup) {x id : Bytes}
    (hOthers : ∀ e ∈ replies, e.sid ≠ x → e.id = id → e.ids = []) :
    lastIds replies id = ownIds replies x id := by
  induction replies using List.reverseRecOn with
  | nil => rfl
  | append_singleton replies e ih =>
    rw [List.map_append, List.nodup_append] at hNodup
    have hNew : e.sid ∉ replies.map (·.sid) := fun hOld =>
      hNodup.2.2 _ hOld _ (List.mem_singleton_self _) rfl
    have hRest := ih hNodup.1 fun e' he' => hOthers e' (List.mem_append_left _ he')
    rw [lastIds_snoc, ownIds_snoc hNew, hRest]
    by_cases hMine : e.sid = x ∧ e.id = id
    · -- the session has one reply, so nothing was its own before
      have hNone : ownIds replies x id = [] := by
        rw [ownIds, find_own_of_new (hMine.1 ▸ hNew)]
        rfl
      rw [if_pos hMine, hNone]
      split
      · rfl
      · rename_i hEmpty
        by_contra hSome
        exact hEmpty ⟨hMine.2.symm, Ne.symm hSome⟩
    · rw [if_neg hMine, if_neg]
      rintro ⟨hId, hSome⟩
      have hSid : e.sid ≠ x := fun hSid => hMine ⟨hSid, hId.symm⟩
      exact hSome (hOthers e (List.mem_append_right _ List.mem_cons_self) hSid hId.symm)

/-! ## One reply for each session -/

def Left (n : Node) (x : Bytes) : Prop :=
  ∃ sess, n.sessions x = some sess ∧ sess.status.status ≠ .conn

/-- On the way to a login reply. -/
def Pc.loggingIn : Pc → Bool
  | .kill _ _ _ | .auth _ _ | .logon _ | .fetch _ => true
  | .idle | .publish _ | .storing _ _ | .routing _ | .acting _ _ _ => false

structure Served (replies : List Reply) (s : System) : Prop where
  nodup : (replies.map (·.sid)).Nodup
  served : ∀ e ∈ replies, Left s.node e.sid ∧ (s.pc e.sid).loggingIn = false
  fetching : ∀ x packet, s.pc x = .fetch packet → Left s.node x
  idle : ∀ x, s.node.sessions x = none → s.pc x = .idle
  cache : s.node.oflCache = cached replies

section Step

variable {C : Codec} {consumers : Nat} {s t : System} {a : Action} {x : Bytes}

theorem Spares.left {n n' : Node} (h : Spares n n') (hLeft : Left n x) : Left n' x := by
  obtain ⟨sess, hs, hOpen⟩ := hLeft
  have hSome := h.sessions x
  rw [hs] at hSome
  obtain ⟨sess', hs'⟩ := Option.isSome_iff_exists.mp hSome
  refine ⟨sess', hs', ?_⟩
  intro hConn
  obtain ⟨sess₀, hs₀, hConn₀⟩ := h.conn x sess' hs' hConn
  cases hs.symm.trans hs₀
  exact hOpen hConn₀

theorem left_step (hStep : step C consumers s a = some t) (h : Left s.node x) : Left t.node x := by
  rcases step_cases hStep with ⟨y, rfl, hNew, _, hSessions⟩ | ⟨y, env, packet, rfl, _, hNode⟩ | hSpares
  · obtain ⟨sess, hs, hOpen⟩ := h
    refine ⟨sess, ?_, hOpen⟩
    have hne : x ≠ y := by
      rintro rfl
      cases hNew.symm.trans hs
    rw [hSessions, Function.update_of_ne hne, hs]
  · obtain ⟨sess, hs, hOpen⟩ := h
    refine ⟨sess, ?_, hOpen⟩
    rw [hNode, loginReply_sessions, hs]
  · exact Spares.left hSpares h

theorem next_loggingIn {env : Env} {pc pc' : Pc} {n n' : Node}
    (hNext : next C x env pc n = .done pc' n') (h : pc.loggingIn = false) : pc'.loggingIn = false := by
  have hForm := next_done hNext
  match pc with
  | .kill _ _ _ | .auth _ _ | .logon _ | .fetch _ => cases h
  | .idle | .routing [] | .storing [] _ =>
    rw [show pc' = .idle from hForm]
    rfl
  | .publish _ | .routing (_ :: _) =>
    obtain ⟨_, rfl⟩ := hForm
    rfl
  | .storing (_ :: _) _ =>
    obtain rfl | rfl := hForm
    · rfl
    · rfl
  | .acting _ _ packets =>
    rw [show pc' = .routing packets from hForm]
    rfl

theorem logon_of_next_fetch {env : Env} {packet : Packet} {pc : Pc} {n n' : Node}
    (hNext : next C x env pc n = .done (.fetch packet) n') : pc = .logon packet := by
  have hForm := next_done hNext
  match pc with
  | .logon packet' =>
    cases hForm
    rfl
  | .idle | .routing [] | .storing [] _ | .kill _ _ _ | .acting _ _ _ => cases hForm
  | .fetch _ | .publish _ | .routing (_ :: _) =>
    obtain ⟨_, hEq⟩ := hForm
    cases hEq
  | .auth _ _ | .storing (_ :: _) _ =>
    obtain hEq | hEq := hForm
    · cases hEq
    · cases hEq

/-- A session that had its login packet is not logging in again. -/
theorem loggingIn_step (hStep : step C consumers s a = some t) (hLeft : Left s.node x)
    (h : (s.pc x).loggingIn = false) : (t.pc x).loggingIn = false := by
  rcases pc_step hStep x with hSame | hIdle | ⟨i, _, _, _, hBegin⟩ | ⟨env, _, _, hNext⟩
  · rw [hSame, h]
  · rw [hIdle]
    rfl
  · obtain ⟨sess, hs, hOpen⟩ := hLeft
    obtain hIdle | ⟨packets, hRouting⟩ := begin_done_of_open hBegin hs hOpen
    · rw [hIdle]
      rfl
    · rw [hRouting]
      rfl
  · exact next_loggingIn hNext h

theorem fetching_step (h : ∀ packet, s.pc x = .fetch packet → Left s.node x)
    (hIdle : s.node.sessions x = none → s.pc x = .idle) (hStep : step C consumers s a = some t)
    {packet : Packet} (hPc : t.pc x = .fetch packet) : Left t.node x := by
  rcases pc_step hStep x with hSame | hDone | ⟨i, _, _, _, hBegin⟩ | ⟨env, _, hBusy, hNext⟩
  · exact left_step hStep (h packet (hSame.symm.trans hPc))
  · rw [hDone] at hPc
    cases hPc
  · rw [hPc] at hBegin
    obtain hForm | ⟨_, _, _, hForm⟩ | ⟨_, _, hForm⟩ | ⟨_, hForm⟩ := begin_done hBegin
    all_goals cases hForm
  · rw [hPc] at hNext
    have hLogon := logon_of_next_fetch hNext
    rw [hLogon] at hNext
    let f : Session → Session := fun s => { s with status :=
      { s.status with jid := packet.envelope.jid, status := .login, ct := env.timestamp10 } }
    have hNode : s.node.updateSession x f = t.node := (Outcome.done.inj hNext).2
    cases hs : s.node.sessions x with
    | none => exact absurd (hIdle hs) hBusy
    | some sess =>
      refine ⟨f sess, ?_, by simp [f]⟩
      rw [← hNode, Node.updateSession_self, hs, Option.map_some]

theorem fetches_cases (C : Codec) (s : System) (a : Action) :
    fetches C s a = [] ∨ ∃ x env packet sess j, a = .go x env ∧ s.pc x = .fetch packet ∧
      s.node.sessions x = some sess ∧ newJID sess.status.jid = .ok j ∧
      fetches C s a = [{ sid := x, id := packet.envelope.id, ids := offlineIds C s.node j }] := by
  cases a with
  | go x env =>
    simp only [fetches]
    split
    · rename_i packet sess hPc hs
      cases hj : newJID sess.status.jid with
      | ok j => exact .inr ⟨x, env, packet, sess, j, rfl, hPc, hs, hj, rfl⟩
      | error e => exact .inl rfl
    · exact .inl rfl
  | connect | register | clean | recv | close | take | work | dtake | dexec => exact .inl rfl

theorem cache_of_fetches_nil (hNone : fetches C s a = []) (hStep : step C consumers s a = some t) :
    t.node.oflCache = s.node.oflCache := by
  rcases step_cases hStep with ⟨_, _, _, hCache, _⟩ | ⟨x, env, packet, rfl, hPc, hNode⟩ | hSpares
  · exact hCache
  · have hPanic : loginReply C x packet s.node = .panic s.node := by
      refine loginReply_panic ?_ packet
      intro sess j hs hj
      simp only [fetches, hPc, hs, hj] at hNone
      cases hNone
    rw [hNode, hPanic]
    rfl
  · exact hSpares.oflCache

theorem fetch_step {env : Env} {packet : Packet} {sess : Session} {j : JID}
    (hPc : s.pc x = .fetch packet) (hs : s.node.sessions x = some sess)
    (hj : newJID sess.status.jid = .ok j) (hStep : step C consumers s (.go x env) = some t) :
    (t.pc x).loggingIn = false ∧
      t.node.oflCache = cacheReply s.node.oflCache packet.envelope.id (offlineIds C s.node j) := by
  cases stepped_of_step C hStep with
  | go _ _ hBusy =>
    have hNext : next C x env (.fetch packet) s.node = _ := bind_done (loginReply_eq hs hj packet) _
    simp only [System.session, hPc, hNext, pure_apply, Function.update_self, and_true]
    rfl

theorem served_step {replies : List Reply} (h : Served replies s)
    (hStep : step C consumers s a = some t) : Served (replies ++ fetches C s a) t := by
  have hServed : ∀ e ∈ replies, Left t.node e.sid ∧ (t.pc e.sid).loggingIn = false := by
    intro e he
    obtain ⟨hLeft, hDone⟩ := h.served e he
    exact ⟨left_step hStep hLeft, loggingIn_step hStep hLeft hDone⟩
  have hFetching : ∀ x packet, t.pc x = .fetch packet → Left t.node x :=
    fun x packet hPc => fetching_step (h.fetching x) (h.idle x) hStep hPc
  have hIdle : ∀ x, t.node.sessions x = none → t.pc x = .idle := by
    intro x hNone
    have hNone' := none_of_step hStep hNone
    exact idle_step hStep hNone' (h.idle x hNone')
  rcases fetches_cases C s a with hNone | ⟨x, env, packet, sess, j, rfl, hPc, hs, hj, hNew⟩
  · rw [hNone, List.append_nil]
    exact ⟨h.nodup, hServed, hFetching, hIdle, (cache_of_fetches_nil hNone hStep).trans h.cache⟩
  · obtain ⟨hDone, hCache⟩ := fetch_step hPc hs hj hStep
    rw [hNew]
    refine ⟨?_, ?_, hFetching, hIdle, ?_⟩
    · rw [List.map_append, List.nodup_append]
      refine ⟨h.nodup, List.nodup_singleton _, ?_⟩
      intro y hy z hz hEq
      obtain ⟨e, he, rfl⟩ := List.mem_map.mp hy
      have hSid : e.sid = x := hEq.trans (List.mem_singleton.mp hz)
      have hNot := (h.served e he).2
      rw [hSid, hPc] at hNot
      cases hNot
    · intro e he
      rcases List.mem_append.mp he with hOld | hLast
      · exact hServed e hOld
      · cases List.mem_singleton.mp hLast
        exact ⟨left_step hStep (h.fetching x packet hPc), hDone⟩
    · rw [cached_snoc, hCache, h.cache]

end Step

/-! ## The ack -/

def ackDeletes (j : JID) (ids : List Bytes) : List Dispatch :=
  ids.flatMap fun id => deleteByIdxKey j.toOfflineKey id

/-- The ack with `id` of the session `x` of `j`, whose own login reply with that id held
`own`: its effect on the sessions, the commands it sends, and what those do to a store
whenever they are executed. -/
structure AckRemoves (x id : Bytes) (sess : Session) (j : JID) (own : List Bytes) (n n' : Node)
    (st : Store) : Prop where
  buffers : n'.sessions = if own = [] then
    Function.update n.sessions x (some { sess with pkgBuff := sess.pkgBuff.erase id }) else n.sessions
  commands : n'.db = n.db.send (ackDeletes j own)
  index : ∀ f, Redis.hget (execDirect st (ackDeletes j own)) (offlineIndex j) f =
    if f ∈ own then none else Redis.hget st (offlineIndex j) f
  others : ∀ r, offlineIndex r ≠ offlineIndex j → ∀ f,
    Redis.hget (execDirect st (ackDeletes j own)) (offlineIndex r) f = Redis.hget st (offlineIndex r) f
  messages : ∀ r, offlineIndex r ≠ offlineIndex j → ∀ f, (Redis.hget st (offlineIndex r) f).isSome →
    Redis.get (execDirect st (ackDeletes j own)) f = Redis.get st f

/-- Nothing another user has stored is named by one of the ids. -/
def Apart (j : JID) (ids : List Bytes) (st : Store) : Prop :=
  ∀ id ∈ ids, ∀ r : JID, id ≠ offlineIndex r ∧
    (offlineIndex r ≠ offlineIndex j → Redis.hget st (offlineIndex r) id = none)

/-- The same ids, in the same order for each queue of the database. -/
def SameIds (ids ids' : List Bytes) : Prop :=
  ∀ ch, ids.filter (chanOf · = ch) = ids'.filter (chanOf · = ch)

section Ack

variable {C : Codec} {x : Bytes} {n : Node} {sess : Session} {j : JID} {packet : Packet}

theorem sameIds_nil_iff {ids : List Bytes} : SameIds ids [] ↔ ids = [] := by
  constructor
  · intro h
    cases ids with
    | nil => rfl
    | cons id ids =>
      have hOwn := h (chanOf id)
      rw [List.filter_cons_of_pos (by simp)] at hOwn
      cases hOwn
  · rintro rfl ch
    rfl

def removal (j : JID) (id : Bytes) : List Cmd := [.hdel (offlineIndex j) id, .del id]

theorem queue_ackDeletes (db : Database) (j : JID) (ids : List Bytes) :
    db.send (ackDeletes j ids) =
      { db with queue := fun ch => db.queue ch ++ (ids.filter (chanOf · = ch)).flatMap (removal j) } := by
  induction ids generalizing db with
  | nil => simp [ackDeletes, Database.send]
  | cons id ids ih =>
    have hFirst : db.send (ackDeletes j (id :: ids)) =
        ((db.enqueue (chanOf id) (.hdel (offlineIndex j) id)).enqueue (chanOf id) (.del id)).send
          (ackDeletes j ids) := rfl
    rw [hFirst, ih]
    congr 1
    funext ch
    rcases eq_or_ne ch (chanOf id) with rfl | hne
    · simp [Database.enqueue, removal]
    · simp [Database.enqueue, Function.update_of_ne hne, hne.symm]

theorem flatMap_removal_inj {ids ids' : List Bytes} (h : ids.flatMap (removal j) = ids'.flatMap (removal j)) :
    ids = ids' := by
  induction ids generalizing ids' with
  | nil =>
    cases ids' with
    | nil => rfl
    | cons id' ids' => cases h
  | cons id ids ih =>
    cases ids' with
    | nil => cases h
    | cons id' ids' =>
      simp only [List.flatMap_cons, removal, List.cons_append, List.nil_append, List.cons.injEq,
        Redis.Cmd.hdel.injEq, true_and] at h
      rw [h.1, ih h.2.2]

theorem send_ackDeletes_inj {db : Database} {ids ids' : List Bytes} :
    db.send (ackDeletes j ids) = db.send (ackDeletes j ids') ↔ SameIds ids ids' := by
  rw [queue_ackDeletes, queue_ackDeletes]
  constructor
  · intro h ch
    have hQueue := congrFun (congrArg Database.queue h) ch
    exact flatMap_removal_inj (List.append_cancel_left hQueue)
  · intro h
    congr 1
    funext ch
    rw [h ch]

theorem execDirect_ackDeletes {ids : List Bytes} {key : Bytes} (st : Store)
    (hIndex : key ≠ offlineIndex j) (hKey : key ∉ ids) :
    execDirect st (ackDeletes j ids) key = st key := by
  refine execDirect_of_forall_ne st _ ?_
  intro d hd
  obtain ⟨id, hid, hd⟩ := List.mem_flatMap.mp hd
  rcases Store.deleteByIdxKey_key hd with hEq | hEq
  · rw [hEq]
    exact hIndex
  · rw [hEq]
    rintro rfl
    exact hKey hid

theorem hget_ackDeletes {ids : List Bytes} (st : Store) (hIds : ∀ id ∈ ids, id ≠ offlineIndex j)
    (f : Bytes) : Redis.hget (execDirect st (ackDeletes j ids)) (offlineIndex j) f =
      if f ∈ ids then none else Redis.hget st (offlineIndex j) f := by
  induction ids generalizing st with
  | nil => rfl
  | cons id ids ih =>
    have hNot : offlineIndex j ≠ id := Ne.symm (hIds id List.mem_cons_self)
    let st' := Redis.exec (Redis.exec st (.hdel (offlineIndex j) id)) (.del id)
    have hHead : Redis.hget st' (offlineIndex j) f =
        if id = f then none else Redis.hget st (offlineIndex j) f := by
      rw [Redis.hget_exec_of_ne (c := .del id) hNot, Redis.hget_exec_hdel]
    have hRest := ih st' fun id' hid => hIds id' (List.mem_cons_of_mem id hid)
    have hFirst : execDirect st (ackDeletes j (id :: ids)) = execDirect st' (ackDeletes j ids) := rfl
    rw [hFirst, hRest, hHead]
    by_cases hMem : f ∈ ids
    · simp [hMem]
    · simp [hMem, eq_comm]

theorem get_ackDeletes {ids : List Bytes} {key : Bytes} (st : Store) (hKey : key ∉ ids) :
    Redis.get (execDirect st (ackDeletes j ids)) key = Redis.get st key := by
  induction ids generalizing st with
  | nil => rfl
  | cons id ids ih =>
    have hne : key ≠ id := fun hEq => hKey (hEq ▸ List.mem_cons_self)
    let st' := Redis.exec (Redis.exec st (.hdel (offlineIndex j) id)) (.del id)
    have hHead : Redis.get st' key = Redis.get st key := by
      rw [Redis.get_exec_of_ne (c := .del id) hne, Redis.get_exec_hdel]
    exact (ih st' fun hid => hKey (List.mem_cons_of_mem id hid)).trans hHead

theorem serverAck_eq (hs : n.sessions x = some sess) (hj : newJID sess.status.jid = .ok j) :
    serverAck x packet n = .done () (match n.oflCache packet.envelope.id with
      | some ids => n.send (ackDeletes j ids)
      | none => n.updateSession x fun s => { s with pkgBuff := s.pkgBuff.erase packet.envelope.id }) := by
  unfold serverAck
  rw [bind_done (Node.session_eq hs), hj, bind_done (deref_ok j n), bind_done (read_apply _ n)]
  cases n.oflCache packet.envelope.id with
  | some ids => rfl
  | none => rfl

/-- The ack removes the messages `own` exactly if it finds these in the cache. -/
theorem serverAck_removes_iff {own ids : List Bytes} {st : Store} (hs : n.sessions x = some sess)
    (hj : newJID sess.status.jid = .ok j)
    (hCache : n.oflCache packet.envelope.id = if ids = [] then none else some ids)
    (hApart : Apart j own st) :
    AckRemoves x packet.envelope.id sess j own n (serverAck x packet n).state st ↔ SameIds ids own := by
  have hState : (serverAck x packet n).state.db = n.db.send (ackDeletes j ids) ∧
      (serverAck x packet n).state.sessions = if ids = [] then Function.update n.sessions x
        (some { sess with pkgBuff := sess.pkgBuff.erase packet.envelope.id }) else n.sessions := by
    rw [serverAck_eq hs hj, hCache]
    by_cases hNone : ids = []
    · simp only [if_pos hNone]
      rw [Node.updateSession_eq hs, hNone]
      exact ⟨rfl, rfl⟩
    · simp only [if_neg hNone]
      exact ⟨rfl, rfl⟩
  constructor
  · intro h
    exact send_ackDeletes_inj.mp (hState.1.symm.trans h.commands)
  · intro hSame
    have hNil : ids = [] ↔ own = [] := by
      rw [← sameIds_nil_iff, ← sameIds_nil_iff]
      exact ⟨fun h ch => (hSame ch).symm.trans (h ch), fun h ch => (hSame ch).trans (h ch)⟩
    refine ⟨?_, hState.1.trans (send_ackDeletes_inj.mpr hSame),
      hget_ackDeletes st fun id hid => (hApart id hid j).1, ?_, ?_⟩
    · rw [hState.2]
      simp only [hNil]
    · intro r hr f
      have hKey : offlineIndex r ∉ own := fun hid => (hApart _ hid r).1 rfl
      simp only [Redis.hget, execDirect_ackDeletes st hr hKey]
    · intro r hr f hSome
      have hKey : f ∉ own := by
        intro hid
        rw [(hApart f hid r).2 hr] at hSome
        cases hSome
      exact get_ackDeletes st hKey

end Ack

theorem served_run {C : Codec} {consumers : Nat} {nodeid channel : Bytes} {st : Store}
    {as : List Action} {t : System}
    (hRun : run (step C consumers) (start nodeid channel st) as = some t) :
    Served (collect (step C consumers) (fetches C) (start nodeid channel st) as) t := by
  refine run_induction (P := fun as t =>
    Served (collect (step C consumers) (fetches C) (start nodeid channel st) as) t) ?_ ?_ hRun
  · refine ⟨List.nodup_nil, ?_, ?_, fun _ _ => rfl, rfl⟩
    · intro e he
      cases he
    · intro x packet hPc
      cases hPc
  · intro as s a u hRun' h hStep
    rw [collect_snoc hRun']
    exact served_step h hStep

/-- An ack removes the session's own login reply from the user's own index, or the message
from the session's own buffer, exactly if the last login reply under the id of the ack that has
messages has those of the session's own reply. So it is if no other session that logged in with
that id got messages. Nothing another user has stored may be named like a removed message. -/
theorem ack_removes_own (C : Codec) (consumers : Nat) (nodeid channel : Bytes) (st : Store)
    {as : List Action} {t : System}
    (hRun : run (step C consumers) (start nodeid channel st) as = some t)
    {x : Bytes} {sess : Session} (hs : t.node.sessions x = some sess)
    (hLogin : sess.status.status = .login) {j : JID} (hj : newJID sess.status.jid = .ok j)
    {i : Input} (hFrame : i.frame ≠ [heartBeat]) {packet : Packet}
    (hRequest : request C i = .ack packet)
    {u : System} (hStep : step C consumers t (.recv x i) = some u) {replies : List Reply}
    (hReplies : replies = collect (step C consumers) (fetches C) (start nodeid channel st) as) {st' : Store}
    (hApart : Apart j (ownIds replies x packet.envelope.id) st') :
    (AckRemoves x packet.envelope.id sess j (ownIds replies x packet.envelope.id) t.node u.node st' ↔
      SameIds (lastIds replies packet.envelope.id) (ownIds replies x packet.envelope.id)) ∧
    ((∀ e ∈ replies, e.sid ≠ x → e.id = packet.envelope.id → e.ids = []) →
      SameIds (lastIds replies packet.envelope.id) (ownIds replies x packet.envelope.id)) := by
  have hServed := served_run hRun
  rw [← hReplies] at hServed
  have hOpen : sess.status.status ≠ .conn := by
    rw [hLogin]
    decide
  have hNode : u.node = (serverAck x packet t.node).state := by
    cases stepped_of_step C hStep with
    | recv =>
      rw [session_node]
      unfold begin
      rw [bind_done (Node.session_eq hs), if_neg hOpen, if_neg hFrame]
      simp only [hRequest, state_bind_pure]
  constructor
  · rw [hNode]
    refine serverAck_removes_iff hs hj ?_ hApart
    rw [hServed.cache]
    exact cached_eq replies packet.envelope.id
  · intro hOthers ch
    rw [lastIds_of_own hServed.nodup hOthers]

/-! ## Two users with messages to fetch -/

def mail (id to_ : String) : Packet :=
  PlainJson.received { id := text id, from_ := text "carol@x", to_ := text to_, type := msgTypeChat }

def mailbox : Store :=
  execDirect (execDirect (fun _ => none)
    (offlineWrites PlainJson.codec alice (mail "m1" "alice@x")))
    (offlineWrites PlainJson.codec bob (mail "m2" "bob@x"))

def withMail : System := start (text "node01") (text "node01:4281") mailbox

def bothLogIn (id : String) : List Action :=
  [.connect (text "b2"), .register (text "b2"), .recv (text "b2") (loginInput id "alice@x")] ++
    goes (text "b2") 7 ++ firstLogin

def ackInput (id : String) : Input where
  frame := PlainJson.writeFrame { id := text id, to_ := serverAckName, type := msgTypeState }
  env := Env.plain true

def ackPacket (id : String) : Packet :=
  stamped (PlainJson.received { id := text id, to_ := serverAckName, type := msgTypeState })
    (Env.plain true)

theorem apart_mailbox : Apart alice [text "m1"] mailbox := by
  have hHead : ∀ (r : JID) (id : Bytes), id.head? = (text "m").head? → offlineIndex r ≠ id := by
    intro r id hid
    refine Store.ne_of_head? ?_
    rw [offlineIndex, Store.head?_offlineIndex, hid]
    decide
  have hOther : ∀ (r k : JID) (id to_ : String), (text id).head? = (text "m").head? →
      offlineIndex r ≠ offlineIndex k → ∀ st,
        execDirect st (offlineWrites PlainJson.codec k (mail id to_)) (offlineIndex r) =
          st (offlineIndex r) := by
    intro r k id to_ hid hne st
    refine execDirect_of_forall_ne st _ ?_
    intro d hd
    rcases Store.offlineWrites_key hd with hKey | hKey
    · rw [hKey]
      exact hne
    · rw [hKey]
      exact hHead r _ hid
  intro id hid r
  cases List.mem_singleton.mp hid
  refine ⟨Ne.symm (hHead r _ rfl), ?_⟩
  intro hAlice
  rcases eq_or_ne (offlineIndex r) (offlineIndex bob) with hBob | hBob
  · rw [hBob]
    decide +kernel
  · rw [mailbox, Redis.hget, hOther r bob "m2" _ rfl hBob, hOther r alice "m1" _ rfl hAlice]
    rfl

theorem ack_removes_own_alice :
    ∃ t u sess, run (step PlainJson.codec 20) withMail (bothLogIn "2") = some t ∧
      step PlainJson.codec 20 t (.recv (text "b2") (ackInput "2")) = some u ∧
      AckRemoves (text "b2") (text "2") sess alice [text "m1"] t.node u.node mailbox := by
  have hExists : ∃ t, run (step PlainJson.codec 20) withMail (bothLogIn "2") = some t ∧
      (t.node.sessions (text "b2")).map (fun s => (s.status.status, s.status.jid)) =
        some (.login, text "alice@x") ∧
      (step PlainJson.codec 20 t (.recv (text "b2") (ackInput "2"))).isSome :=
    exists_run (by decide +kernel)
  obtain ⟨t, hRun, hSession, hSome⟩ := hExists
  obtain ⟨sess, hs, hEq⟩ := Option.map_eq_some_iff.mp hSession
  obtain ⟨u, hStep⟩ := Option.isSome_iff_exists.mp hSome
  have hj : newJID sess.status.jid = .ok alice := by
    rw [show sess.status.jid = text "alice@x" from congrArg Prod.snd hEq]
    rfl
  have hRequest : request PlainJson.codec (ackInput "2") = .ack (ackPacket "2") := rfl
  let replies := collect (step PlainJson.codec 20) (fetches PlainJson.codec) withMail (bothLogIn "2")
  have hOwn : ownIds replies (text "b2") (text "2") = [text "m1"] := by decide +kernel
  have hApart : Apart alice (ownIds replies (text "b2") (text "2")) mailbox := hOwn ▸ apart_mailbox
  have hExact := ack_removes_own PlainJson.codec 20 (text "node01") (text "node01:4281") mailbox
    hRun hs (congrArg Prod.fst hEq) hj (by decide) hRequest hStep rfl hApart
  exact ⟨t, u, sess, hRun, hStep, hOwn ▸ hExact.1.mpr (hExact.2 (by decide +kernel))⟩

/-- Bob's login packet has the id of alice's: her ack deletes the key of his message, and
her own message stays. -/
theorem ack_with_shared_id :
    ownIds (collect (step PlainJson.codec 20) (fetches PlainJson.codec) withMail (bothLogIn "1"))
      (text "b2") (text "1") = [text "m1"] ∧
    (∃ t, run (step PlainJson.codec 20) withMail (bothLogIn "1") = some t ∧
      (Redis.get t.node.db.store (text "m2")).isSome) ∧
    ∃ t, run (step PlainJson.codec 20) withMail (bothLogIn "1" ++
        [.recv (text "b2") (ackInput "1"), .dtake .message, .dtake .message, .dexec .message 0,
          .dexec .message 0]) = some t ∧
      t.node.db.pending = [] ∧ (Redis.hget t.node.db.store (offlineIndex alice) (text "m1")).isSome ∧
      (Redis.hget t.node.db.store (offlineIndex bob) (text "m2")).isSome ∧
      Redis.get t.node.db.store (text "m2") = none :=
  ⟨by decide +kernel, exists_run (by decide +kernel), exists_run (by decide +kernel)⟩

end Sara.Concurrent
