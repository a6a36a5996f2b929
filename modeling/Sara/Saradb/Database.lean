import Sara.Types.Defines
import Sara.Lib.Redis
import Mathlib.Data.List.Perm.Basic

/-! # The database wrapper

Every write is a list of Redis commands, each sent straight away or put on one
of two buffered channels. Consumer workers take commands off a channel in order
and execute them later, so two queued commands may be executed in either order.
-/

namespace Sara.Saradb

open Lib

set_option autoImplicit false

abbrev Store := Redis.Store Bytes Bytes
abbrev Cmd := Redis.Cmd Bytes Bytes

/-- `wbCh` for messages and `wbCh4s` for sessions. -/
inductive Chan where
  | message
  | session
deriving DecidableEq

/-- A command and the way it is sent: `executeDirect`, or `execute`/`execute4s`. -/
inductive Dispatch where
  | direct (c : Cmd)
  | queued (ch : Chan) (c : Cmd)
deriving DecidableEq

def Dispatch.cmd : Dispatch → Cmd
  | .direct c | .queued _ c => c

def is4s (key : Bytes) : Bool := sessionPerfix.isPrefixOf key

def chanOf (key : Bytes) : Chan := if is4s key then .session else .message

def indexKey (idx : Bytes) : Bytes := idx ++ idxSuffix

theorem indexKey_inj {a b : Bytes} : indexKey a = indexKey b ↔ a = b := List.append_left_inj _

def put (key value : Bytes) : List Dispatch :=
  if is4s key then [.direct (.set key value)] else [.queued .message (.set key value)]

def putEx (key value : Bytes) (ex : Int) : List Dispatch :=
  if is4s key then [.direct (.setex key ex.toNat value)]
  else [.queued .message (.setex key ex.toNat value)]

def delete (key : Bytes) : List Dispatch := [.queued (chanOf key) (.del key)]

def storeKey (key value : Bytes) (ex : Int) : Cmd :=
  if ex > 0 then .setex key ex.toNat value else .set key value

def putExWithIdx (idx key value : Bytes) (ex : Int) : List Dispatch :=
  if is4s key then
    [.direct (.hset (indexKey idx) key value), .direct (storeKey key value ex)]
  else
    [.queued .message (.hset (indexKey idx) key value), .queued .message (storeKey key value ex)]

def deleteByIdxKey (idx key : Bytes) : List Dispatch :=
  .queued (chanOf key) (.hdel (indexKey idx) key) :: delete key

/-- The fields are read at the call; a string under the index ends it with an error. -/
def deleteByIdx (st : Store) (idx : Bytes) : List Dispatch :=
  match Redis.hkeys st (indexKey idx) with
  | none => []
  | some ids => ids.flatMap delete ++ delete (indexKey idx)

def getByIdx (st : Store) (idx : Bytes) : Option (List Bytes) := Redis.hvals st (indexKey idx)

/-- The index can be read and written as one. -/
def IndexHash (st : Store) (idx : Bytes) : Prop :=
  (Redis.Value.fields (st (indexKey idx))).isSome

instance (st : Store) (idx : Bytes) : Decidable (IndexHash st idx) :=
  inferInstanceAs (Decidable (_ = true))

theorem IndexHash.exec {st : Store} {idx : Bytes} (h : IndexHash st idx) (c : Cmd)
    (hc : c.key = indexKey idx → c.field?.isSome) : IndexHash (Redis.exec st c) idx := by
  unfold IndexHash
  by_cases hKey : c.key = indexKey idx
  · rw [← hKey, Redis.exec_key, Redis.fields_act (hc hKey), Option.isSome_map, hKey]
    exact h
  · rw [Redis.exec_of_ne st c (Ne.symm hKey)]
    exact h

/-- The commands of one call executed straight away. -/
def execDirect (st : Store) : List Dispatch → Store
  | [] => st
  | .direct c :: ds =>
    match Redis.exec? st c with
    | none => st
    | some st' => execDirect st' ds
  | .queued _ c :: ds => execDirect (Redis.exec st c) ds

theorem execDirect_of_forall_ne (st : Store) (ds : List Dispatch) {key : Bytes}
    (h : ∀ d ∈ ds, key ≠ d.cmd.key) : execDirect st ds key = st key := by
  induction ds generalizing st with
  | nil => rfl
  | cons d ds ih =>
    have hHead := h d List.mem_cons_self
    have hRest := fun st => ih st fun e he => h e (List.mem_cons_of_mem d he)
    cases d with
    | direct c =>
      have hExec := Redis.exec_of_ne st c hHead
      unfold execDirect
      cases hSome : Redis.exec? st c with
      | none => rfl
      | some st' =>
        rw [Redis.exec, hSome] at hExec
        exact (hRest st').trans hExec
    | queued ch c => exact (hRest _).trans (Redis.exec_of_ne st c hHead)

/-- Redis, the two channels, and the commands that consumer workers of a channel
have taken and not yet executed. -/
structure Database where
  store : Store
  queue : Chan → List Cmd
  held : Chan → List Cmd

namespace Database

def start (st : Store) : Database := { store := st, queue := fun _ => [], held := fun _ => [] }

def enqueue (db : Database) (ch : Chan) (c : Cmd) : Database :=
  { db with queue := Function.update db.queue ch (db.queue ch ++ [c]) }

def sendOne (db : Database) : Dispatch → Option Database
  | .direct c => (Redis.exec? db.store c).map fun st => { db with store := st }
  | .queued ch c => some (db.enqueue ch c)

/-- The commands of one call in order. A direct command that fails ends the call. -/
def send (db : Database) : List Dispatch → Database
  | [] => db
  | d :: ds =>
    match db.sendOne d with
    | none => db
    | some db' => send db' ds

/-- A consumer worker of the channel, one of `consumers`, receives the next command. -/
def take (consumers : Nat) (db : Database) (ch : Chan) : Option Database :=
  match db.queue ch with
  | [] => none
  | c :: rest =>
    if (db.held ch).length < consumers then
      some { db with
        queue := Function.update db.queue ch rest
        held := Function.update db.held ch (db.held ch ++ [c]) }
    else none

/-- The worker holding the `i`-th taken command executes it. -/
def execHeld (db : Database) (ch : Chan) (i : Nat) : Option Database :=
  (db.held ch)[i]?.map fun c =>
    { db with
      store := Redis.exec db.store c
      held := Function.update db.held ch ((db.held ch).eraseIdx i) }

/-- Commands sent to a channel and not yet executed. -/
def pending (db : Database) : List Cmd :=
  db.queue .message ++ db.held .message ++ (db.queue .session ++ db.held .session)

theorem mem_pending {db : Database} {c : Cmd} :
    c ∈ db.pending ↔ ∃ ch, c ∈ db.queue ch ∨ c ∈ db.held ch := by
  simp only [pending, List.mem_append]
  constructor
  · rintro (h | h)
    · exact ⟨.message, h⟩
    · exact ⟨.session, h⟩
  · rintro ⟨ch, h⟩
    cases ch with
    | message => exact .inl h
    | session => exact .inr h

theorem pending_enqueue (db : Database) (ch : Chan) (c : Cmd) :
    (db.enqueue ch c).pending.Perm (c :: db.pending) := by
  cases ch with
  | message =>
    simp only [pending, enqueue, Function.update_self, ne_eq, reduceCtorEq, not_false_eq_true,
      Function.update_of_ne, List.append_assoc, List.singleton_append]
    exact List.perm_middle
  | session =>
    simp only [pending, enqueue, Function.update_self, ne_eq, reduceCtorEq, not_false_eq_true,
      Function.update_of_ne, List.append_assoc, List.singleton_append]
    exact ((List.perm_middle.append_left _).append_left _).trans
      ((List.perm_middle.append_left _).trans List.perm_middle)

/-- A call that only queues its commands leaves all of them pending. -/
theorem pending_send {ds : List Dispatch} (h : ∀ d ∈ ds, ∃ ch c, d = .queued ch c) (db : Database) :
    (db.send ds).pending.Perm (ds.map Dispatch.cmd ++ db.pending) := by
  induction ds generalizing db with
  | nil => exact List.Perm.refl _
  | cons d ds ih =>
    obtain ⟨ch, c, rfl⟩ := h d List.mem_cons_self
    have hRest := ih (fun e he => h e (List.mem_cons_of_mem _ he)) (db.enqueue ch c)
    exact hRest.trans (((pending_enqueue db ch c).append_left _).trans List.perm_middle)

theorem sendOne_direct {db db' : Database} {c : Cmd} (h : db.sendOne (.direct c) = some db') :
    db' = { db with store := Redis.exec db.store c } := by
  unfold sendOne at h
  obtain ⟨st, hExec, rfl⟩ := Option.map_eq_some_iff.mp h
  rw [Redis.exec, hExec]
  rfl

/-- `HSET` on an index that is one does not fail. -/
theorem sendOne_hset {db : Database} {idx : Bytes} (h : IndexHash db.store idx) (field value : Bytes) :
    (db.sendOne (.direct (.hset (indexKey idx) field value))).isSome := by
  simp only [sendOne, Redis.exec?, Option.isSome_map]
  rw [Redis.apply_isSome rfl]
  exact h

theorem take_store {consumers : Nat} {db db' : Database} {ch : Chan}
    (h : db.take consumers ch = some db') : db'.store = db.store := by
  unfold take at h
  split at h
  · cases h
  · split at h
    · cases h; rfl
    · cases h

theorem pending_take {consumers : Nat} {db db' : Database} {ch : Chan}
    (h : db.take consumers ch = some db') : db'.pending.Perm db.pending := by
  unfold take at h
  split at h
  · cases h
  · rename_i c rest hQueue
    split at h
    · cases h
      have hMove : (rest ++ (db.held ch ++ [c])).Perm (c :: rest ++ db.held ch) := by
        rw [← List.append_assoc]
        exact List.perm_append_singleton c _
      cases ch with
      | message =>
        simp only [pending, Function.update_self, ne_eq, reduceCtorEq, not_false_eq_true,
          Function.update_of_ne, hQueue]
        exact hMove.append_right _
      | session =>
        simp only [pending, Function.update_self, ne_eq, reduceCtorEq, not_false_eq_true,
          Function.update_of_ne, hQueue]
        exact hMove.append_left _
    · cases h

theorem pending_execHeld {db db' : Database} {ch : Chan} {i : Nat}
    (h : db.execHeld ch i = some db') :
    ∃ c, (db.held ch)[i]? = some c ∧ db'.store = Redis.exec db.store c ∧
      db.pending.Perm (c :: db'.pending) := by
  unfold execHeld at h
  obtain ⟨c, hc, rfl⟩ := Option.map_eq_some_iff.mp h
  obtain ⟨hi, hGet⟩ := List.getElem?_eq_some_iff.mp hc
  have hErase : (db.held ch).Perm (c :: (db.held ch).eraseIdx i) := by
    rw [← hGet]
    exact (List.getElem_cons_eraseIdx_perm hi).symm
  refine ⟨c, hc, rfl, ?_⟩
  cases ch with
  | message =>
    simp only [pending, Function.update_self, ne_eq, reduceCtorEq, not_false_eq_true,
      Function.update_of_ne]
    refine ((hErase.append_left _).append_right _).trans ?_
    rw [List.append_assoc, List.cons_append, List.append_assoc]
    exact List.perm_middle
  | session =>
    simp only [pending, Function.update_self, ne_eq, reduceCtorEq, not_false_eq_true,
      Function.update_of_ne]
    refine ((hErase.append_left _).append_left _).trans ?_
    exact (List.perm_middle.append_left _).trans List.perm_middle

end Database

end Sara.Saradb
