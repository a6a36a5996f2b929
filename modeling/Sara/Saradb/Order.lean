import Sara.Saradb.Database
import Sara.Lib.Transition

/-! # One caller's writes

A caller makes calls one after another; each call hands its commands over one by
one while consumer workers take and execute what is queued. The channels promise
no order between queued commands, nor between a queued command and a later
direct one. What they do promise is stated here: nothing is lost or repeated,
and where no later command meets an earlier queued one, program order holds.
-/

namespace Sara.Saradb.Order

open Lib Lib.Transition

set_option autoImplicit false

inductive Call where
  | put (key value : Bytes)
  | putEx (key value : Bytes) (ex : Int)
  | putExWithIdx (idx key value : Bytes) (ex : Int)
  | delete (key : Bytes)
  | deleteByIdx (idx : Bytes)
  | deleteByIdxKey (idx key : Bytes)
deriving DecidableEq

def Call.sends (st : Store) : Call → List Dispatch
  | .put key value => Saradb.put key value
  | .putEx key value ex => Saradb.putEx key value ex
  | .putExWithIdx idx key value ex => Saradb.putExWithIdx idx key value ex
  | .delete key => Saradb.delete key
  | .deleteByIdx idx => Saradb.deleteByIdx st idx
  | .deleteByIdxKey idx key => Saradb.deleteByIdxKey idx key

/-- The key whose content decides which commands the call sends. -/
def Call.reads : Call → Option Bytes
  | .deleteByIdx idx => some (indexKey idx)
  | _ => none

structure System where
  db : Database
  todo : List Dispatch
  calls : List Call

inductive Action where
  | call
  | issue
  | take (ch : Chan)
  | exec (ch : Chan) (i : Nat)

def start (st : Store) (calls : List Call) : System :=
  { db := Database.start st, todo := [], calls := calls }

def step (consumers : Nat) (s : System) : Action → Option System
  | .call =>
    match s.todo, s.calls with
    | [], c :: calls => some { s with todo := c.sends s.db.store, calls := calls }
    | _, _ => none
  | .issue =>
    match s.todo with
    | [] => none
    | d :: todo =>
      match s.db.sendOne d with
      | none => some { s with todo := [] }
      | some db => some { s with db := db, todo := todo }
  | .take ch => (s.db.take consumers ch).map fun db => { s with db := db }
  | .exec ch i => (s.db.execHeld ch i).map fun db => { s with db := db }

/-- The commands a step hands over, and those it executes. -/
def issued (s : System) : Action → List Cmd
  | .issue => s.todo.head?.toList.map Dispatch.cmd
  | _ => []

def executed (s : System) : Action → List Cmd
  | .issue => s.todo.head?.toList.filterMap fun d =>
      match d with
      | .direct c => some c
      | .queued _ _ => none
  | .exec ch i => (s.db.held ch)[i]?.toList
  | _ => []

def execCalls (st : Store) : List Call → Store
  | [] => st
  | c :: calls => execCalls (execDirect st (c.sends st)) calls

def queuedCmds (ds : List Dispatch) : List Cmd :=
  ds.filterMap fun d =>
    match d with
    | .direct _ => none
    | .queued _ c => some c

/-- No command meets one that was queued before it. -/
def Free : List Cmd → List Dispatch → Prop
  | _, [] => True
  | queue, d :: ds => (∀ c ∈ queue, c.Indep d.cmd) ∧ Free (queue ++ queuedCmds [d]) ds

/-- No command, and no read of an index, meets a command queued before it. -/
def InOrder : Store → List Cmd → List Call → Prop
  | _, _, [] => True
  | st, queue, c :: calls =>
    (∀ k ∈ c.reads, ∀ d ∈ queue, k ≠ d.key) ∧ Free queue (c.sends st) ∧
      InOrder (execDirect st (c.sends st)) (queue ++ queuedCmds (c.sends st)) calls

instance decidableFree : (queue : List Cmd) → (ds : List Dispatch) → Decidable (Free queue ds)
  | _, [] => isTrue trivial
  | queue, d :: ds =>
    have := decidableFree (queue ++ queuedCmds [d]) ds
    inferInstanceAs (Decidable (_ ∧ _))

instance decidableInOrder : (st : Store) → (queue : List Cmd) → (calls : List Call) →
    Decidable (InOrder st queue calls)
  | _, _, [] => isTrue trivial
  | st, queue, c :: calls =>
    have := decidableInOrder (execDirect st (c.sends st)) (queue ++ queuedCmds (c.sends st)) calls
    inferInstanceAs (Decidable (_ ∧ _ ∧ _))

theorem queuedCmds_append (ds es : List Dispatch) :
    queuedCmds (ds ++ es) = queuedCmds ds ++ queuedCmds es := List.filterMap_append

/-- Commands queued without meeting each other are pairwise independent. -/
theorem Free.pairwise {queue : List Cmd} {ds : List Dispatch} (h : Free queue ds)
    (hQueue : queue.Pairwise Redis.Cmd.Indep) :
    (queue ++ queuedCmds ds).Pairwise Redis.Cmd.Indep := by
  induction ds generalizing queue with
  | nil => simpa [queuedCmds] using hQueue
  | cons d ds ih =>
    have hHead : (queue ++ queuedCmds [d]).Pairwise Redis.Cmd.Indep := by
      cases d with
      | direct c => simpa [queuedCmds] using hQueue
      | queued ch c =>
        rw [List.pairwise_append]
        refine ⟨hQueue, List.pairwise_singleton _ c, ?_⟩
        intro e he c' hc'
        obtain rfl : c' = c := by simpa [queuedCmds] using hc'
        exact h.1 e he
    have hRest := ih h.2 hHead
    rwa [List.append_assoc, ← queuedCmds_append] at hRest

theorem sends_congr {st st' : Store} {c : Call} (h : ∀ k ∈ c.reads, st' k = st k) :
    c.sends st' = c.sends st := by
  cases c with
  | deleteByIdx idx =>
    have hk := h (indexKey idx) rfl
    simp only [Call.sends, Saradb.deleteByIdx, Redis.hkeys, hk]
  | put | putEx | putExWithIdx | delete | deleteByIdxKey => rfl

/-- The direct execution seen from the middle of a run: first everything still
pending, then the rest of the current call, then the remaining calls. -/
structure Inv (target : Store) (s : System) : Prop where
  split : ∃ queue : List Cmd,
    queue.Pairwise Redis.Cmd.Indep ∧ s.db.pending.Subperm queue ∧ Free queue s.todo ∧
      InOrder (execDirect (Redis.execAll s.db.store s.db.pending) s.todo)
        (queue ++ queuedCmds s.todo) s.calls
  target_eq :
    execCalls (execDirect (Redis.execAll s.db.store s.db.pending) s.todo) s.calls = target

theorem inv_start (st : Store) (calls : List Call) (h : InOrder st [] calls) :
    Inv (execCalls st calls) (start st calls) where
  split := ⟨[], List.Pairwise.nil, List.Subperm.refl [], trivial, h⟩
  target_eq := rfl

theorem pairwise_of_subperm {p queue : List Cmd} (hQueue : queue.Pairwise Redis.Cmd.Indep)
    (h : p.Subperm queue) : p.Pairwise Redis.Cmd.Indep := by
  obtain ⟨l, hPerm, hSub⟩ := h
  exact (hQueue.sublist hSub).perm hPerm Redis.Cmd.Indep.symm

/-- Moving commands between channel and worker, or executing one of them, does
not change what the pending commands amount to. -/
theorem Inv.of_pending {target : Store} {s : System} {db : Database} (h : Inv target s)
    (hStore : s.db.pending.Pairwise Redis.Cmd.Indep →
      Redis.execAll db.store db.pending = Redis.execAll s.db.store s.db.pending)
    (hSub : db.pending.Subperm s.db.pending) : Inv target { s with db := db } := by
  obtain ⟨⟨queue, hQueue, hPending, hFree, hOrder⟩, hTarget⟩ := h
  have hEq := hStore (pairwise_of_subperm hQueue hPending)
  constructor
  · refine ⟨queue, hQueue, hSub.trans hPending, hFree, ?_⟩
    change InOrder (execDirect (Redis.execAll db.store db.pending) s.todo) _ _
    rwa [hEq]
  · change execCalls (execDirect (Redis.execAll db.store db.pending) s.todo) s.calls = target
    rwa [hEq]

theorem inv_call {target : Store} {s : System} {c : Call} {calls : List Call} (h : Inv target s)
    (hTodo : s.todo = []) (hCalls : s.calls = c :: calls) :
    Inv target { s with todo := c.sends s.db.store, calls := calls } := by
  obtain ⟨⟨queue, hQueue, hPending, _, hOrder⟩, hTarget⟩ := h
  rw [hTodo, hCalls] at hOrder hTarget
  simp only [execDirect, queuedCmds, List.filterMap_nil, List.append_nil, InOrder, execCalls]
    at hOrder hTarget
  obtain ⟨hReads, hFree, hRest⟩ := hOrder
  have hSends : c.sends s.db.store = c.sends (Redis.execAll s.db.store s.db.pending) := by
    apply sends_congr
    intro k hk
    refine (Redis.execAll_of_forall_ne _ _ ?_).symm
    intro d hd
    exact hReads k hk d (hPending.subset hd)
  constructor
  · refine ⟨queue, hQueue, hPending, ?_, ?_⟩
    · exact hSends ▸ hFree
    · simp only [hSends]
      exact hRest
  · simp only [hSends]
    exact hTarget

theorem inv_issue {target : Store} {s t : System} {d : Dispatch} {todo : List Dispatch}
    (h : Inv target s) (hTodo : s.todo = d :: todo)
    (hStep : (match s.db.sendOne d with
      | none => some { s with todo := [] }
      | some db => some { s with db := db, todo := todo }) = some t) : Inv target t := by
  obtain ⟨⟨queue, hQueue, hPending, hFree, hOrder⟩, hTarget⟩ := h
  rw [hTodo] at hFree hOrder hTarget
  have hMeets : ∀ e ∈ s.db.pending, e.Indep d.cmd := fun e he => hFree.1 e (hPending.subset he)
  cases d with
  | direct c =>
    have hSame := Redis.exec?_isSome_execAll s.db.store c s.db.pending hMeets
    simp only [Database.sendOne] at hStep
    cases hExec : Redis.exec? s.db.store c with
    | none =>
      -- the error ends the call here and in the direct execution alike
      rw [hExec] at hStep hSame
      cases hStep
      have hNone := Option.isSome_eq_false_iff.mp hSame
      rw [Option.isNone_iff_eq_none] at hNone
      simp only [execDirect, hNone] at hOrder hTarget
      refine ⟨⟨queue ++ queuedCmds (.direct c :: todo), Free.pairwise hFree hQueue,
        hPending.trans (List.sublist_append_left _ _).subperm, trivial, ?_⟩, hTarget⟩
      simpa [execDirect, queuedCmds] using hOrder
    | some st =>
      rw [hExec] at hStep hSame
      cases hStep
      obtain ⟨st', hst'⟩ := Option.isSome_iff_exists.mp hSame
      have hst : st = Redis.exec s.db.store c := by rw [Redis.exec, hExec]; rfl
      have hAfter : Redis.execAll st s.db.pending = st' := by
        rw [hst]
        refine (Redis.execAll_exec_comm s.db.store c s.db.pending hMeets).trans ?_
        rw [Redis.exec, hst']
        rfl
      simp only [execDirect, hst'] at hOrder hTarget
      have hQueueSame : queue ++ queuedCmds [.direct c] = queue := List.append_nil queue
      refine ⟨⟨queue, hQueue, hPending, hQueueSame ▸ hFree.2, ?_⟩, ?_⟩
      · change InOrder (execDirect (Redis.execAll st s.db.pending) todo) _ _
        rw [hAfter]
        exact hOrder
      · change execCalls (execDirect (Redis.execAll st s.db.pending) todo) _ = _
        rw [hAfter]
        exact hTarget
  | queued ch c =>
    cases hStep
    have hPerm := Database.pending_enqueue s.db ch c
    have hSub : (s.db.enqueue ch c).pending.Subperm (queue ++ [c]) :=
      hPerm.subperm.trans (((List.subperm_cons c).mpr hPending).trans (List.perm_append_singleton c queue).symm.subperm)
    have hAll : (queue ++ [c]).Pairwise Redis.Cmd.Indep := by
      have hOne : Free queue [.queued ch c] := ⟨hFree.1, trivial⟩
      exact Free.pairwise hOne hQueue
    have hAfter : Redis.execAll (s.db.enqueue ch c).store (s.db.enqueue ch c).pending =
        Redis.exec (Redis.execAll s.db.store s.db.pending) c := by
      rw [Redis.execAll_perm hPerm (pairwise_of_subperm hAll hSub)]
      exact Redis.execAll_exec_comm s.db.store c s.db.pending hMeets
    refine ⟨⟨queue ++ [c], hAll, hSub, hFree.2, ?_⟩, ?_⟩
    · change InOrder (execDirect (Redis.execAll (s.db.enqueue ch c).store _) todo) _ _
      rw [hAfter, List.append_assoc]
      exact hOrder
    · change execCalls (execDirect (Redis.execAll (s.db.enqueue ch c).store _) todo) _ = _
      rw [hAfter]
      exact hTarget

theorem inv_step {target : Store} {consumers : Nat} {s t : System} {a : Action}
    (h : Inv target s) (hStep : step consumers s a = some t) : Inv target t := by
  cases a with
  | call =>
    simp only [step] at hStep
    split at hStep
    · rename_i c calls hTodo hCalls
      cases hStep
      exact inv_call h hTodo hCalls
    · cases hStep
  | issue =>
    simp only [step] at hStep
    split at hStep
    · cases hStep
    · rename_i d todo hTodo
      exact inv_issue h hTodo hStep
  | take ch =>
    obtain ⟨db, hTake, rfl⟩ := Option.map_eq_some_iff.mp hStep
    have hPerm := Database.pending_take hTake
    refine h.of_pending ?_ hPerm.subperm
    intro hPair
    rw [Database.take_store hTake]
    exact (Redis.execAll_perm hPerm.symm hPair _).symm
  | exec ch i =>
    obtain ⟨db, hExec, rfl⟩ := Option.map_eq_some_iff.mp hStep
    obtain ⟨c, _, hStore, hPerm⟩ := Database.pending_execHeld hExec
    refine h.of_pending ?_ ((List.sublist_cons_self c db.pending).subperm.trans hPerm.symm.subperm)
    intro hPair
    rw [Redis.execAll_perm hPerm hPair, hStore]
    rfl

theorem inv_run {consumers : Nat} {st : Store} {calls : List Call} {acts : List Action}
    {s : System} (hOrder : InOrder st [] calls)
    (hRun : run (step consumers) (start st calls) acts = some s) :
    Inv (execCalls st calls) s :=
  run_induction (P := fun _ s => Inv (execCalls st calls) s) (inv_start st calls hOrder)
    (fun _ _ _ _ _ h hStep => inv_step h hStep) hRun

end Sara.Saradb.Order
