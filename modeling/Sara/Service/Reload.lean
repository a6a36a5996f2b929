import Sara.Core.Groups
import Sara.Lib.Transition

/-! # Reloading a group

The members of a group are cached under one key. A call that misses the cache asks
for the members and queues a `SETEX` of what it was told; `Reload` queues a `DEL` of
the key and returns. The calls, the reload and the workers of the queue run side by
side.
-/

namespace Sara.Service

open Lib Lib.Prog Lib.Transition Saradb

set_option autoImplicit false

/-- `EmsgGroupService.Reload`, for parameters that are missing or strings. -/
def reload (gid domain : Option Bytes) : Except Bytes (List Dispatch) :=
  match gid with
  | none | some [] => .error (text "gid_not_be_empty")
  | some gid =>
    match domain with
    | none | some [] => .error (text "domain_not_be_empty")
    | some domain => .ok (delete (text "group_" ++ gid ++ text "@" ++ domain))

/-- The service builds the key of the cache anew, and it is the same one. -/
theorem reload_ok {gid domain : Bytes} {ds : List Dispatch}
    (h : reload (some gid) (some domain) = .ok ds) :
    ds = [.queued .message (.del (groupUsersKey gid domain))] := by
  unfold reload at h
  cases gid with
  | nil => cases h
  | cons g gid =>
    cases domain with
    | nil => cases h
    | cons d domain =>
      cases h
      rfl

def joined : Except Bytes (List Bytes) → Option Bytes
  | .error _ => none
  | .ok ulist => if 1 < ulist.length then some (List.intercalate [comma] ulist) else none

/-- A call of `GenerateGroupPackets` for the group, up to the members it goes on with. -/
inductive Call where
  | asking
  | answered (us : Bytes)
  | over (members : Option Bytes)
deriving DecidableEq

/-- `fresh` records what the callback has returned since `Reload` was called. -/
structure State where
  db : Database
  calls : List Call
  called : Bool
  returned : Bool
  fresh : List Bytes

def start (st : Store) : State where
  db := Database.start st
  calls := []
  called := false
  returned := false
  fresh := []

/-- What can happen next: a call looks into the cache, is answered, or queues its `SETEX`;
`Reload` is called, or queues its `DEL` and returns; a worker takes a command or executes the
one it holds; a command for another key is sent; time passes. -/
inductive Action where
  | call
  | answer (i : Nat) (r : Except Bytes (List Bytes))
  | put (i : Nat)
  | reload
  | delete
  | take (ch : Chan)
  | exec (ch : Chan) (i : Nat)
  | other (d : Dispatch)
  | tick (t : Nat)

variable (consumers : Nat) (gid domain : Bytes)

def step (s : State) : Action → Option State
  | .call =>
    match Redis.get s.db.store (groupUsersKey gid domain) with
    | some users => some { s with calls := s.calls ++ [.over (some users)] }
    | none => some { s with calls := s.calls ++ [.asking] }
  | .answer i r =>
    match s.calls[i]? with
    | some .asking =>
      match joined r with
      | none => some { s with calls := s.calls.set i (.over none) }
      | some us => some { s with
          calls := s.calls.set i (.answered us)
          fresh := if s.called then us :: s.fresh else s.fresh }
    | _ => none
  | .put i =>
    match s.calls[i]? with
    | some (.answered us) => some { s with
        db := s.db.send (putEx (groupUsersKey gid domain) us 3600)
        calls := s.calls.set i (.over (some us)) }
    | _ => none
  | .reload => if s.called then none else some { s with called := true }
  | .delete =>
    if s.called && !s.returned then
      match Service.reload (some gid) (some domain) with
      | .ok ds => some { s with db := s.db.send ds, returned := true }
      | .error _ => none
    else none
  | .take ch => (s.db.take consumers ch).map fun db => { s with db := db }
  | .exec ch i => (s.db.execHeld ch i).map fun db => { s with db := db }
  | .other d =>
    if d.cmd.key = groupUsersKey gid domain then none else some { s with db := s.db.send [d] }
  | .tick t => some { s with db := { s.db with store := Redis.tick t s.db.store } }

inductive Stepped (s : State) : Action → State → Prop
  | found (users : Bytes) (hGet : Redis.get s.db.store (groupUsersKey gid domain) = some users) :
      Stepped s .call { s with calls := s.calls ++ [.over (some users)] }
  | missed (hGet : Redis.get s.db.store (groupUsersKey gid domain) = none) :
      Stepped s .call { s with calls := s.calls ++ [.asking] }
  | refused (i : Nat) (r : Except Bytes (List Bytes)) (hJoined : joined r = none) :
      Stepped s (.answer i r) { s with calls := s.calls.set i (.over none) }
  | told (i : Nat) (r : Except Bytes (List Bytes)) (us : Bytes) (hJoined : joined r = some us) :
      Stepped s (.answer i r) { s with
        calls := s.calls.set i (.answered us)
        fresh := if s.called then us :: s.fresh else s.fresh }
  | put (i : Nat) (us : Bytes) (hAnswered : s.calls[i]? = some (.answered us)) :
      Stepped s (.put i) { s with
        db := s.db.send (putEx (groupUsersKey gid domain) us 3600)
        calls := s.calls.set i (.over (some us)) }
  | reload (hNew : s.called = false) : Stepped s .reload { s with called := true }
  | delete (hCalled : s.called = true) (hOpen : s.returned = false) :
      Stepped s .delete { s with
        db := s.db.send [.queued .message (.del (groupUsersKey gid domain))]
        returned := true }
  | take (ch : Chan) (db : Database) (hTake : s.db.take consumers ch = some db) :
      Stepped s (.take ch) { s with db := db }
  | exec (ch : Chan) (i : Nat) (db : Database) (hExec : s.db.execHeld ch i = some db) :
      Stepped s (.exec ch i) { s with db := db }
  | other (d : Dispatch) (hKey : d.cmd.key ≠ groupUsersKey gid domain) :
      Stepped s (.other d) { s with db := s.db.send [d] }
  | tick (time : Nat) : Stepped s (.tick time) { s with db := { s.db with store := Redis.tick time s.db.store } }

theorem stepped_of_step {s t : State} {a : Action} (h : step consumers gid domain s a = some t) :
    Stepped consumers gid domain s a t := by
  cases a with
  | call =>
    simp only [step] at h
    split at h
    · rename_i users hGet
      cases h
      exact .found users hGet
    · rename_i hGet
      cases h
      exact .missed hGet
  | answer i r =>
    simp only [step] at h
    split at h
    · split at h
      · rename_i hJoined
        cases h
        exact .refused i r hJoined
      · rename_i us hJoined
        cases h
        exact .told i r us hJoined
    · cases h
  | put i =>
    simp only [step] at h
    split at h
    · rename_i us hAnswered
      cases h
      exact .put i us hAnswered
    · cases h
  | reload =>
    obtain ⟨hNew, hEq⟩ := Option.ite_none_left_eq_some.mp h
    cases hEq
    exact .reload (Bool.eq_false_iff.mpr hNew)
  | delete =>
    obtain ⟨hBoth, hEq⟩ := Option.ite_none_right_eq_some.mp h
    obtain ⟨hCalled, hOpen⟩ := Bool.and_eq_true_iff.mp hBoth
    split at hEq
    · rename_i ds hReload
      cases hEq
      rw [reload_ok hReload]
      exact .delete hCalled ((Bool.not_eq_true' _).mp hOpen)
    · cases hEq
  | take ch =>
    obtain ⟨db, hTake, rfl⟩ := Option.map_eq_some_iff.mp h
    exact .take ch db hTake
  | exec ch i =>
    obtain ⟨db, hExec, rfl⟩ := Option.map_eq_some_iff.mp h
    exact .exec ch i db hExec
  | other d =>
    obtain ⟨hKey, hEq⟩ := Option.ite_none_left_eq_some.mp h
    cases hEq
    exact .other d hKey
  | tick time =>
    cases h
    exact .tick time

section Alone

variable {consumers gid domain}

/-- A call that runs alone is the lookup of the members. -/
theorem alone_eq_groupMembers (n : Node) (env : Env) (s : State) (hdb : s.db = n.db) :
    ∃ as t members, run (step consumers gid domain) s as = some t ∧
      t.calls = s.calls ++ [.over members] ∧
      groupMembers gid domain env n = .done members { n with db := t.db } := by
  have hGet : Redis.get s.db.store (groupUsersKey gid domain) = n.get (groupUsersKey gid domain) := by
    rw [hdb, Node.get]
  unfold groupMembers
  rw [bind_done (read_apply _ n)]
  cases hCached : n.get (groupUsersKey gid domain) with
  | some users =>
    refine ⟨[.call], { s with calls := s.calls ++ [.over (some users)] }, some users, ?_, rfl, ?_⟩
    · simp [run_cons, step, hGet, hCached]
    · rw [hdb]
      rfl
  | none =>
    cases hJoined : joined (env.groupUsers gid) with
    | none =>
      refine ⟨[.call, .answer s.calls.length (env.groupUsers gid)],
        { s with calls := s.calls ++ [.over none] }, none, ?_, rfl, ?_⟩
      · simp [run_cons, step, hGet, hCached, hJoined]
      · rw [hdb]
        cases hUsers : env.groupUsers gid with
        | error e => rfl
        | ok ulist =>
          have hShort : ¬ 1 < ulist.length := by
            intro hLong
            simp [joined, hUsers, hLong] at hJoined
          simp only [if_neg hShort]
          rfl
    | some us =>
      refine ⟨[.call, .answer s.calls.length (env.groupUsers gid), .put s.calls.length],
        { s with
          db := s.db.send (putEx (groupUsersKey gid domain) us 3600)
          calls := s.calls ++ [.over (some us)]
          fresh := if s.called then us :: s.fresh else s.fresh }, some us, ?_, rfl, ?_⟩
      · simp [run_cons, step, hGet, hCached, hJoined]
      · cases hUsers : env.groupUsers gid with
        | error e =>
          rw [hUsers] at hJoined
          cases hJoined
        | ok ulist =>
          simp only [hUsers, joined] at hJoined
          split at hJoined
          · rename_i hLong
            cases hJoined
            simp only [if_pos hLong, hdb]
            rfl
          · cases hJoined

end Alone

/-! ## When the reload takes effect -/

def Fresh (s : State) : Prop :=
  s.db.store (groupUsersKey gid domain) = none ∨
    ∃ us ∈ s.fresh, Redis.get s.db.store (groupUsersKey gid domain) = some us

/-- Once the reload has returned, a worker executes a command on the key only while the `DEL`
is still to come, or if it is the `SETEX` of a fresh list. -/
def Timely (s : State) : Action → Prop
  | .exec ch i =>
    ∀ c ∈ (s.db.held ch)[i]?, c.key = groupUsersKey gid domain → s.returned = true →
      .del (groupUsersKey gid domain) ∈ s.db.pending ∨
        ∃ us ∈ s.fresh, c = .setex (groupUsersKey gid domain) 3600 us
  | .call | .answer _ _ | .put _ | .reload | .delete | .take _ | .other _ | .tick _ => True

instance (s : State) : (a : Action) → Decidable (Timely gid domain s a)
  | .exec ch i => inferInstanceAs (Decidable (∀ c ∈ (s.db.held ch)[i]?, _ → _ → _ ∨ _))
  | .call | .answer _ _ | .put _ | .reload | .delete | .take _ | .other _ | .tick _ => isTrue trivial

/-- Until its `DEL` is executed the reload is under way; then the cache is fresh. -/
def Reloaded (s : State) : Prop :=
  s.returned = true → .del (groupUsersKey gid domain) ∈ s.db.pending ∨ Fresh gid domain s

def Call.members : Call → Option Bytes
  | .asking => none
  | .answered us => some us
  | .over members => members

def Current (k : Nat) (calls : List Call) (fresh : List Bytes) : Prop :=
  ∀ i call, k ≤ i → calls[i]? = some call → ∀ us ∈ call.members, us ∈ fresh

variable {consumers gid domain} {s t : State}

theorem Fresh.congr (h : Fresh gid domain s)
    (hStore : t.db.store (groupUsersKey gid domain) = s.db.store (groupUsersKey gid domain))
    (hFresh : ∀ us ∈ s.fresh, us ∈ t.fresh) : Fresh gid domain t := by
  rcases h with hNone | ⟨us, hus, hGet⟩
  · exact .inl (hStore.trans hNone)
  · refine .inr ⟨us, hFresh us hus, ?_⟩
    rw [Redis.get, hStore]
    exact hGet

theorem Reloaded.congr (h : Reloaded gid domain s) (hReturned : t.returned = s.returned)
    (hPending : ∀ c ∈ s.db.pending, c ∈ t.db.pending)
    (hStore : t.db.store (groupUsersKey gid domain) = s.db.store (groupUsersKey gid domain))
    (hFresh : ∀ us ∈ s.fresh, us ∈ t.fresh) : Reloaded gid domain t := by
  intro hDone
  rcases h (hReturned ▸ hDone) with hDel | hClean
  · exact .inl (hPending _ hDel)
  · exact .inr (hClean.congr hStore hFresh)

theorem mem_pending_enqueue {db : Database} {ch : Chan} {c d : Cmd} (h : d ∈ db.pending) :
    d ∈ (db.enqueue ch c).pending :=
  (Database.pending_enqueue db ch c).mem_iff.mpr (List.mem_cons_of_mem c h)

theorem Reloaded.other (h : Reloaded gid domain s) {d : Dispatch}
    (hKey : d.cmd.key ≠ groupUsersKey gid domain) :
    Reloaded gid domain { s with db := s.db.send [d] } := by
  cases d with
  | queued ch c => exact h.congr rfl (fun c' hc' => mem_pending_enqueue hc') rfl fun _ hus => hus
  | direct c =>
    unfold Database.send
    cases hSend : s.db.sendOne (.direct c) with
    | none => exact h
    | some db =>
      cases Database.sendOne_direct hSend
      exact h.congr rfl (fun c' hc' => hc') (Redis.exec_of_ne s.db.store c (Ne.symm hKey))
        fun _ hus => hus

theorem Reloaded.tick (h : Reloaded gid domain s) (time : Nat) :
    Reloaded gid domain { s with db := { s.db with store := Redis.tick time s.db.store } } := by
  intro hDone
  rcases h hDone with hDel | hClean
  · exact .inl hDel
  refine .inr ?_
  unfold Fresh at hClean ⊢
  simp only [Redis.get, Redis.tick] at hClean ⊢
  cases hValue : s.db.store (groupUsersKey gid domain) with
  | none => exact .inl rfl
  | some value =>
    rw [hValue] at hClean
    cases value with
    | hash fields => exact hClean
    | string us life =>
      cases life with
      | none => exact hClean
      | some ttl =>
        simp only [Redis.Value.after]
        split
        · exact .inl rfl
        · exact .inr (hClean.resolve_left (by simp))

theorem Reloaded.exec (h : Reloaded gid domain s) {ch : Chan} {i : Nat} {db : Database}
    (hTimely : Timely gid domain s (.exec ch i)) (hExec : s.db.execHeld ch i = some db) :
    Reloaded gid domain { s with db := db } := by
  obtain ⟨c, hc, hStore, hPerm⟩ := Database.pending_execHeld hExec
  intro hDone
  by_cases hKey : c.key = groupUsersKey gid domain
  · rcases hTimely c hc hKey hDone with hDel | ⟨us, hus, rfl⟩
    · by_cases hIsDel : c = .del (groupUsersKey gid domain)
      · subst hIsDel
        refine .inr (.inl ?_)
        rw [hStore]
        exact Redis.exec_key s.db.store (.del (groupUsersKey gid domain))
      · refine .inl ?_
        exact (List.mem_cons.mp (hPerm.mem_iff.mp hDel)).resolve_left (Ne.symm hIsDel)
    · refine .inr (.inr ⟨us, hus, ?_⟩)
      have hSet := Redis.exec_key s.db.store (.setex (groupUsersKey gid domain) 3600 us)
      simp only [Redis.get, hStore]
      rw [show Redis.exec s.db.store (.setex (groupUsersKey gid domain) 3600 us)
        (groupUsersKey gid domain) = _ from hSet]
      rfl
  · -- a command on another key leaves the `DEL` pending and the cache alone
    rcases h hDone with hDel | hClean
    · refine .inl ((List.mem_cons.mp (hPerm.mem_iff.mp hDel)).resolve_left ?_)
      rintro rfl
      exact hKey rfl
    · refine .inr (hClean.congr ?_ fun _ hus => hus)
      simp only [hStore]
      exact Redis.exec_of_ne s.db.store c (Ne.symm hKey)

theorem reloaded_step {a : Action} (h : Reloaded gid domain s) (hTimely : Timely gid domain s a)
    (hStep : step consumers gid domain s a = some t) : Reloaded gid domain t := by
  cases stepped_of_step _ _ _ hStep with
  | found | missed | refused | reload => exact h
  | told i r us =>
    refine h.congr rfl (fun _ hc => hc) rfl fun us' hus => ?_
    simp only
    split
    · exact List.mem_cons_of_mem us hus
    · exact hus
  | put i us => exact h.congr rfl (fun _ hc => mem_pending_enqueue hc) rfl fun _ hus => hus
  | delete =>
    intro _
    left
    exact (Database.pending_enqueue s.db _ _).mem_iff.mpr List.mem_cons_self
  | take ch db hTake =>
    have hPerm := Database.pending_take hTake
    exact h.congr rfl (fun _ hc => hPerm.mem_iff.mpr hc)
      (congrFun (Database.take_store hTake) _) fun _ hus => hus
  | exec ch i db hExec => exact h.exec hTimely hExec
  | other d hKey => exact h.other hKey
  | tick time => exact h.tick time

theorem reloaded_run {st : Store} {as : List Action}
    (hTimely : Guarded (step consumers gid domain) (Timely gid domain) (start st) as)
    (hRun : run (step consumers gid domain) (start st) as = some s) : Reloaded gid domain s := by
  refine guarded_induction (P := fun _ s => Reloaded gid domain s) ?_ ?_ hRun hTimely
  · intro hReturned
    cases hReturned
  · intro _ s a t _ _ h hNext hStep
    exact reloaded_step h hNext hStep

/-! ## Which members the next calls go on with -/

section Calls

variable {k : Nat} {calls : List Call} {fresh : List Bytes}

theorem Current.mono (h : Current k calls fresh) {fresh' : List Bytes} (hFresh : ∀ us ∈ fresh, us ∈ fresh') :
    Current k calls fresh' := fun i call hi hCall us hus => hFresh us (h i call hi hCall us hus)

theorem Current.append (h : Current k calls fresh) {call : Call} (hCall : ∀ us ∈ call.members, us ∈ fresh) :
    Current k (calls ++ [call]) fresh := by
  intro i c hi hc
  rw [List.getElem?_append] at hc
  split at hc
  · exact h i c hi hc
  · cases List.mem_singleton.mp (List.mem_of_getElem? hc)
    exact hCall

theorem Current.set (h : Current k calls fresh) {j : Nat} {call : Call}
    (hCall : k ≤ j → ∀ us ∈ call.members, us ∈ fresh) : Current k (calls.set j call) fresh := by
  intro i c hi hc
  rcases eq_or_ne j i with rfl | hne
  · rw [List.getElem?_set, if_pos rfl] at hc
    obtain ⟨_, hSame⟩ := Option.ite_none_right_eq_some.mp hc
    cases hSame
    exact hCall hi
  · rw [List.getElem?_set_ne hne] at hc
    exact h i c hi hc

/-- The `DEL` of the reload is done, and there is no other one. -/
structure Done (gid domain : Bytes) (s : State) : Prop where
  called : s.called = true
  returned : s.returned = true
  deleted : .del (groupUsersKey gid domain) ∉ s.db.pending

theorem Done.step (h : Done gid domain s) {a : Action} (hStep : Service.step consumers gid domain s a = some t) :
    Done gid domain t := by
  obtain ⟨hCalled, hReturned, hDeleted⟩ := h
  cases stepped_of_step _ _ _ hStep with
  | found | missed | refused | told | tick => exact ⟨hCalled, hReturned, hDeleted⟩
  | put i us =>
    refine ⟨hCalled, hReturned, fun hDel => ?_⟩
    rcases List.mem_cons.mp ((Database.pending_enqueue s.db _ _).mem_iff.mp hDel) with hSetex | hOld
    · cases hSetex
    · exact hDeleted hOld
  | reload hNew => cases hNew.symm.trans hCalled
  | delete _ hOpen => cases hOpen.symm.trans hReturned
  | take ch db hTake =>
    exact ⟨hCalled, hReturned, fun hDel => hDeleted ((Database.pending_take hTake).mem_iff.mp hDel)⟩
  | exec ch i db hExec =>
    obtain ⟨c, _, _, hPerm⟩ := Database.pending_execHeld hExec
    exact ⟨hCalled, hReturned, fun hDel => hDeleted (hPerm.mem_iff.mpr (List.mem_cons_of_mem c hDel))⟩
  | other d hKey =>
    refine ⟨hCalled, hReturned, fun hDel => ?_⟩
    cases d with
    | queued ch c =>
      rcases List.mem_cons.mp ((Database.pending_enqueue s.db ch c).mem_iff.mp hDel) with rfl | hOld
      · exact hKey rfl
      · exact hDeleted hOld
    | direct c =>
      unfold Database.send at hDel
      cases hSend : s.db.sendOne (.direct c) with
      | none =>
        rw [hSend] at hDel
        exact hDeleted hDel
      | some db =>
        rw [hSend, Database.sendOne_direct hSend] at hDel
        exact hDeleted hDel

theorem Current.step (h : Current k s.calls s.fresh) (hCalled : s.called = true) (hFresh : Fresh gid domain s)
    {a : Action} (hStep : Service.step consumers gid domain s a = some t) : Current k t.calls t.fresh := by
  cases stepped_of_step _ _ _ hStep with
  | reload | delete | take | exec | other | tick => exact h
  | found users hGet =>
    refine h.append ?_
    rintro _ ⟨⟩
    rcases hFresh with hNone | ⟨us, hus, hFound⟩
    · rw [Redis.get, hNone] at hGet
      cases hGet
    · cases hGet.symm.trans hFound
      exact hus
  | missed =>
    refine h.append ?_
    rintro _ ⟨⟩
  | refused =>
    refine h.set fun _ => ?_
    rintro _ ⟨⟩
  | told i r us =>
    rw [if_pos hCalled]
    refine (h.mono fun _ hus => List.mem_cons_of_mem us hus).set fun _ => ?_
    rintro _ ⟨⟩
    exact List.mem_cons_self
  | put i us hAnswered => exact h.set fun hi => h i (.answered us) hi hAnswered

theorem renewed_run {as : List Action} (hDone : Done gid domain s) (hFresh : Fresh gid domain s)
    (hTimely : Guarded (step consumers gid domain) (Timely gid domain) s as)
    (hRun : run (step consumers gid domain) s as = some t) :
    Fresh gid domain t ∧ Current s.calls.length t.calls t.fresh := by
  have hAll : Done gid domain t ∧ Fresh gid domain t ∧ Current s.calls.length t.calls t.fresh := by
    refine guarded_induction
      (P := fun _ t => Done gid domain t ∧ Fresh gid domain t ∧ Current s.calls.length t.calls t.fresh)
      ⟨hDone, hFresh, ?_⟩ ?_ hRun hTimely
    · intro i call hi hCall
      rw [List.getElem?_eq_none hi] at hCall
      cases hCall
    · rintro _ t a u _ _ ⟨hDone, hFresh, hCurrent⟩ hNext hStep
      have hDone' := hDone.step hStep
      refine ⟨hDone', ?_, hCurrent.step hDone.called hFresh hStep⟩
      exact (reloaded_step (fun _ => .inr hFresh) hNext hStep hDone'.returned).resolve_left hDone'.deleted
  exact hAll.2

end Calls

theorem called_run {st : Store} {as : List Action}
    (hRun : run (step consumers gid domain) (start st) as = some s) (hReturned : s.returned = true) :
    s.called = true := by
  refine run_induction (P := fun _ s => s.returned = true → s.called = true) ?_ ?_ hRun hReturned
  · intro hStart
    cases hStart
  · intro _ s a t _ ih hStep
    cases stepped_of_step _ _ _ hStep with
    | found | missed | refused | told | put | take | exec | other | tick => exact ih
    | reload => exact fun _ => rfl
    | delete hCalled => exact fun _ => hCalled

/-- If no worker executes an older list after the `DEL`, then once the reload has returned and
nothing on the key is pending the cache is empty or fresh, and every call made from then on
goes on with a fresh list. -/
theorem reload_takes_effect {st : Store} {as : List Action}
    (hTimely : Guarded (step consumers gid domain) (Timely gid domain) (start st) as)
    (hRun : run (step consumers gid domain) (start st) as = some s) (hReturned : s.returned = true)
    (hDrained : ∀ c ∈ s.db.pending, c.key ≠ groupUsersKey gid domain) :
    Fresh gid domain s ∧ ∀ bs t, Guarded (step consumers gid domain) (Timely gid domain) s bs →
      run (step consumers gid domain) s bs = some t → Current s.calls.length t.calls t.fresh := by
  have hDeleted : .del (groupUsersKey gid domain) ∉ s.db.pending := fun hDel => hDrained _ hDel rfl
  have hFresh := (reloaded_run hTimely hRun hReturned).resolve_left hDeleted
  refine ⟨hFresh, fun bs t hNext hOn => ?_⟩
  exact (renewed_run ⟨called_run hRun hReturned, hReturned, hDeleted⟩ hFresh hNext hOn).2

def before : Except Bytes (List Bytes) := .ok [text "alice", text "bob", text "carol"]

def after : Except Bytes (List Bytes) := .ok [text "alice", text "bob"]

/-- The list that was asked for before the reload is put into the cache after the `DEL`. -/
def lateRun : List Action :=
  [.call, .answer 0 before, .reload, .delete, .take .message, .exec .message 0, .put 0,
    .take .message, .exec .message 0, .call]

theorem reload_overtaken :
    ∃ s, run (step 20 (text "g1") (text "a.com")) (start fun _ => none) lateRun = some s ∧
      s.returned = true ∧ s.db.pending = [] ∧ s.fresh = [] ∧
      Redis.get s.db.store (groupUsersKey (text "g1") (text "a.com")) = some (text "alice,bob,carol") ∧
      s.calls = [.over (some (text "alice,bob,carol")), .over (some (text "alice,bob,carol"))] :=
  exists_run (by decide +kernel)

def timelyRun : List Action :=
  [.call, .answer 0 before, .put 0, .reload, .delete, .take .message, .take .message,
    .exec .message 0, .exec .message 0, .call, .answer 1 after, .put 1, .take .message, .exec .message 0]

theorem reload_takes_effect_timely :
    ∃ s t, run (step 20 (text "g1") (text "a.com")) (start fun _ => none) timelyRun = some s ∧
      Fresh (text "g1") (text "a.com") s ∧ run (step 20 (text "g1") (text "a.com")) s [.call] = some t ∧
      t.calls[2]? = some (.over (some (text "alice,bob"))) ∧ text "alice,bob" ∈ t.fresh := by
  have hTimely : Guarded (step 20 (text "g1") (text "a.com")) (Timely (text "g1") (text "a.com"))
      (start fun _ => none) timelyRun := by decide +kernel
  obtain ⟨s, hRun, hReturned, hPending, hCalls, t, hOn, hCall⟩ : ∃ s,
      run (step 20 (text "g1") (text "a.com")) (start fun _ => none) timelyRun = some s ∧
        s.returned = true ∧ s.db.pending = [] ∧ s.calls.length = 2 ∧
        ∃ t ∈ run (step 20 (text "g1") (text "a.com")) s [.call],
          t.calls[2]? = some (.over (some (text "alice,bob"))) := exists_run (by decide +kernel)
  obtain ⟨hFresh, hCurrent⟩ := reload_takes_effect hTimely hRun hReturned (by
    rw [hPending]
    exact nofun)
  refine ⟨s, t, hRun, hFresh, hOn, hCall, ?_⟩
  exact hCurrent [.call] t ⟨trivial, fun _ _ => trivial⟩ hOn 2 _ (by omega) hCall _ rfl

end Sara.Service
