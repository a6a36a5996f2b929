import Sara.Lib.Transition
import Sara.Types.Defines
import Mathlib.Data.List.Count

/-! # The connection pool of the RPC client

`Call` takes a connection from the pool of the address or opens one, sends its
request over it and puts it back. Any number of calls overlap; what a call does
to the pool at its beginning and at its end, and its request, are one step each.
-/

namespace Sara.Sararpc

open Lib.Transition

set_option autoImplicit false

def ppSize : Nat := 100

/-- A connection, numbered in the order of opening, with the address it was opened for. -/
structure Client where
  id : Nat
  addr : Bytes
  deriving DecidableEq

/-- The client with all connections it has opened and those it has closed. A channel
is the list of what is in it, the oldest first. -/
structure RPCClient where
  clientPool : Bytes → Option (List Client)
  poolSize : Nat
  opened : List Client
  closed : List Client

def newRPCClient : RPCClient where
  clientPool := fun _ => none
  poolSize := ppSize
  opened := []
  closed := []

namespace RPCClient

def queue (r : RPCClient) (addr : Bytes) : List Client := (r.clientPool addr).getD []

def setQueue (r : RPCClient) (addr : Bytes) (queue : List Client) : RPCClient :=
  { r with clientPool := Function.update r.clientPool addr (some queue) }

/-- The channel of an address is made when it is first asked for. -/
def withQueue (r : RPCClient) (addr : Bytes) : RPCClient :=
  match r.clientPool addr with
  | some _ => r
  | none => r.setQueue addr []

def newClient (r : RPCClient) (addr : Bytes) (dial : Except Bytes Unit) :
    Except Bytes Client × RPCClient :=
  match dial with
  | .error err => (.error err, r)
  | .ok () => (.ok ⟨r.opened.length, addr⟩, { r with opened := r.opened ++ [⟨r.opened.length, addr⟩] })

def putClient (r : RPCClient) (addr : Bytes) (c : Client) : RPCClient :=
  let r := r.withQueue addr
  if (r.queue addr).length < r.poolSize then r.setQueue addr (r.queue addr ++ [c])
  else { r with closed := r.closed ++ [c] }

def getClient (r : RPCClient) (addr : Bytes) (dial : Except Bytes Unit) :
    Except Bytes Client × RPCClient :=
  let r := r.withQueue addr
  match r.queue addr with
  | client :: queue => (.ok client, r.setQueue addr queue)
  | [] => r.newClient addr dial

/-- The answer and the error, as the request over the connection gives them or as no
connection was to be had. After an error the connection is not put back. -/
def call (r : RPCClient) (addr licence sn content : Bytes) (dial : Except Bytes Unit)
    (process : Client → Bytes → Bytes → Bytes → Bytes × Option Bytes) :
    (Bytes × Option Bytes) × RPCClient :=
  match r.getClient addr dial with
  | (.error err, r) => (([], some err), r)
  | (.ok client, r) =>
    match process client licence sn content with
    | (rtn, some e) => ((rtn, some e), r)
    | (rtn, none) => ((rtn, none), r.putClient addr client)

section Queues

variable (r : RPCClient) (addr : Bytes)

@[simp] theorem queue_setQueue (queue : List Client) :
    (r.setQueue addr queue).queue = Function.update r.queue addr queue := by
  funext a
  by_cases h : a = addr
  · subst h
    simp [RPCClient.queue, setQueue]
  · simp [RPCClient.queue, setQueue, h]

@[simp] theorem queue_withQueue : (r.withQueue addr).queue = r.queue := by
  unfold withQueue
  cases h : r.clientPool addr with
  | some _ => rfl
  | none =>
    have hEmpty : r.queue addr = [] := by rw [queue, h, Option.getD_none]
    rw [queue_setQueue, ← hEmpty, Function.update_eq_self]

theorem withQueue_eq : ∃ pool, r.withQueue addr = { r with clientPool := pool } := by
  unfold withQueue
  cases r.clientPool addr with
  | some _ => exact ⟨r.clientPool, rfl⟩
  | none => exact ⟨_, rfl⟩

end Queues

end RPCClient

/-! ## Overlapping calls -/

inductive Call where
  | holding (addr : Bytes) (c : Client)
  | returning (addr : Bytes) (c : Client) (rtn : Bytes)
  | finished (rtn : Bytes) (err : Option Bytes)

namespace Call

def client : Call → Option Client
  | .holding _ c => some c
  | .returning _ c _ => some c
  | .finished _ _ => none

@[simp] theorem client_holding (addr : Bytes) (c : Client) : (holding addr c).client = some c := rfl

@[simp] theorem client_returning (addr : Bytes) (c : Client) (rtn : Bytes) :
    (returning addr c rtn).client = some c := rfl

@[simp] theorem client_finished (rtn : Bytes) (err : Option Bytes) : (finished rtn err).client = none := rfl

/-- The connection is one to the address that is called. -/
def Sound : Call → Prop
  | .holding addr c => c.addr = addr
  | .returning addr c _ => c.addr = addr
  | .finished _ _ => True

def afterGet (addr : Bytes) : Except Bytes Client → Call
  | .ok c => .holding addr c
  | .error err => .finished [] (some err)

def afterProcess (addr : Bytes) (c : Client) (rtn : Bytes) : Option Bytes → Call
  | some e => .finished rtn (some e)
  | none => .returning addr c rtn

end Call

/-- The client, whether the last request over a connection failed, and the calls in the
order they began. -/
structure State where
  rpc : RPCClient
  lastFailed : Client → Bool
  calls : List Call

def start : State where
  rpc := newRPCClient
  lastFailed := fun _ => false
  calls := []

inductive Action where
  | get (addr : Bytes) (dial : Except Bytes Unit)
  | process (k : Nat) (rtn : Bytes) (err : Option Bytes)
  | put (k : Nat)

def step (s : State) : Action → Option State
  | .get addr dial => some { s with
      rpc := (s.rpc.getClient addr dial).2
      calls := s.calls ++ [.afterGet addr (s.rpc.getClient addr dial).1] }
  | .process k rtn err =>
    match s.calls[k]? with
    | some (.holding addr c) => some { s with
        lastFailed := Function.update s.lastFailed c err.isSome
        calls := s.calls.set k (.afterProcess addr c rtn err) }
    | _ => none
  | .put k =>
    match s.calls[k]? with
    | some (.returning addr c rtn) => some { s with
        rpc := s.rpc.putClient addr c
        calls := s.calls.set k (.finished rtn none) }
    | _ => none

section Alone

variable (s : State) (before : List Call) (addr : Bytes) (c : Client) (rtn : Bytes)

theorem step_process_last (err : Option Bytes) :
    step { s with calls := before ++ [.holding addr c] } (.process before.length rtn err) =
      some { s with
        lastFailed := Function.update s.lastFailed c err.isSome
        calls := before ++ [.afterProcess addr c rtn err] } := by
  simp [step]

theorem step_put_last :
    step { s with calls := before ++ [.returning addr c rtn] } (.put before.length) =
      some { s with rpc := s.rpc.putClient addr c, calls := before ++ [.finished rtn none] } := by
  simp [step]

/-- A call on its own is the steps of one call, one after the other. -/
theorem run_call (licence sn content : Bytes) (dial : Except Bytes Unit)
    (process : Client → Bytes → Bytes → Bytes → Bytes × Option Bytes) :
    ∃ acts t, run step s acts = some t ∧
      t.rpc = (s.rpc.call addr licence sn content dial process).2 ∧
      t.calls = s.calls ++ [.finished (s.rpc.call addr licence sn content dial process).1.1
        (s.rpc.call addr licence sn content dial process).1.2] := by
  unfold RPCClient.call
  rcases hGet : s.rpc.getClient addr dial with ⟨got, r⟩
  cases got with
  | error err =>
    have hFirst : step s (.get addr dial) =
        some { s with rpc := r, calls := s.calls ++ [.finished [] (some err)] } := by
      simp only [step, hGet, Call.afterGet]
    exact ⟨[.get addr dial], _, run_cons_iff.mpr ⟨_, hFirst, rfl⟩, rfl, rfl⟩
  | ok client =>
    have hFirst : step s (.get addr dial) =
        some { s with rpc := r, calls := s.calls ++ [.holding addr client] } := by
      simp only [step, hGet, Call.afterGet]
    rcases hProcess : process client licence sn content with ⟨rtn, err⟩
    have hSecond := step_process_last { s with rpc := r } s.calls addr client rtn err
    cases err with
    | some e =>
      simp only [hProcess]
      exact ⟨[.get addr dial, .process s.calls.length rtn (some e)], _,
        run_cons_iff.mpr ⟨_, hFirst, run_cons_iff.mpr ⟨_, hSecond, rfl⟩⟩, rfl, rfl⟩
    | none =>
      simp only [hProcess]
      have hThird := step_put_last { s with
        rpc := r
        lastFailed := Function.update s.lastFailed client false } s.calls addr client rtn
      exact ⟨[.get addr dial, .process s.calls.length rtn none, .put s.calls.length], _,
        run_cons_iff.mpr ⟨_, hFirst, run_cons_iff.mpr ⟨_, hSecond, run_cons_iff.mpr ⟨_, hThird, rfl⟩⟩⟩,
        rfl, rfl⟩

end Alone

/-! ## The account of the connections -/

/-- The connections as an account of them: which are idle, with whom the others are. Whether
an address has a channel yet is no part of it. -/
structure Ledger where
  idle : Bytes → List Client
  poolSize : Nat
  opened : List Client
  closed : List Client
  lastFailed : Client → Bool
  calls : List Call

def State.ledger (s : State) : Ledger where
  idle := s.rpc.queue
  poolSize := s.rpc.poolSize
  opened := s.rpc.opened
  closed := s.rpc.closed
  lastFailed := s.lastFailed
  calls := s.calls

namespace Ledger

inductive Step (L : Ledger) : Action → Ledger → Prop
  | reuse {addr : Bytes} {dial : Except Bytes Unit} {c : Client} {rest : List Client}
      (hIdle : L.idle addr = c :: rest) :
      Step L (.get addr dial) { L with
        idle := Function.update L.idle addr rest
        calls := L.calls ++ [.holding addr c] }
  | dial {addr : Bytes} (hIdle : L.idle addr = []) :
      Step L (.get addr (.ok ())) { L with
        opened := L.opened ++ [⟨L.opened.length, addr⟩]
        calls := L.calls ++ [.holding addr ⟨L.opened.length, addr⟩] }
  | refuse {addr err : Bytes} (hIdle : L.idle addr = []) :
      Step L (.get addr (.error err)) { L with calls := L.calls ++ [.finished [] (some err)] }
  | fail {k : Nat} {addr rtn e : Bytes} {c : Client} (hCall : L.calls[k]? = some (.holding addr c)) :
      Step L (.process k rtn (some e)) { L with
        lastFailed := Function.update L.lastFailed c true
        calls := L.calls.set k (.finished rtn (some e)) }
  | reply {k : Nat} {addr rtn : Bytes} {c : Client} (hCall : L.calls[k]? = some (.holding addr c)) :
      Step L (.process k rtn none) { L with
        lastFailed := Function.update L.lastFailed c false
        calls := L.calls.set k (.returning addr c rtn) }
  | pool {k : Nat} {addr rtn : Bytes} {c : Client} (hCall : L.calls[k]? = some (.returning addr c rtn))
      (hRoom : (L.idle addr).length < L.poolSize) :
      Step L (.put k) { L with
        idle := Function.update L.idle addr (L.idle addr ++ [c])
        calls := L.calls.set k (.finished rtn none) }
  | close {k : Nat} {addr rtn : Bytes} {c : Client} (hCall : L.calls[k]? = some (.returning addr c rtn))
      (hFull : L.poolSize ≤ (L.idle addr).length) :
      Step L (.put k) { L with
        closed := L.closed ++ [c]
        calls := L.calls.set k (.finished rtn none) }

end Ledger

section Refinement

variable {s t : State}

theorem ledger_withQueue (s : State) (addr : Bytes) :
    ({ s with rpc := s.rpc.withQueue addr } : State).ledger = s.ledger := by
  obtain ⟨pool, hPool⟩ := s.rpc.withQueue_eq addr
  have hQueue := s.rpc.queue_withQueue addr
  rw [hPool] at hQueue ⊢
  simp only [State.ledger, hQueue]

theorem step_get_ledger (addr : Bytes) (dial : Except Bytes Unit)
    (h : step s (.get addr dial) = some t) : s.ledger.Step (.get addr dial) t.ledger := by
  cases h
  rw [← ledger_withQueue s addr]
  cases hQueue : (s.rpc.withQueue addr).queue addr with
  | cons c rest =>
    have hGet : s.rpc.getClient addr dial = (.ok c, (s.rpc.withQueue addr).setQueue addr rest) := by
      simp only [RPCClient.getClient, hQueue]
    simp only [hGet, State.ledger, RPCClient.queue_setQueue]
    exact .reuse hQueue
  | nil =>
    have hGet : s.rpc.getClient addr dial = (s.rpc.withQueue addr).newClient addr dial := by
      simp only [RPCClient.getClient, hQueue]
    rw [hGet]
    cases dial with
    | ok _ => exact .dial hQueue
    | error err => exact .refuse hQueue

theorem step_put_ledger {k : Nat} {addr rtn : Bytes} {c : Client}
    (hCall : s.calls[k]? = some (.returning addr c rtn)) (h : step s (.put k) = some t) :
    s.ledger.Step (.put k) t.ledger := by
  simp only [step, hCall, Option.some.injEq] at h
  subst h
  rw [← ledger_withQueue s addr]
  by_cases hRoom : ((s.rpc.withQueue addr).queue addr).length < (s.rpc.withQueue addr).poolSize
  · have hPut : s.rpc.putClient addr c = (s.rpc.withQueue addr).setQueue addr
        ((s.rpc.withQueue addr).queue addr ++ [c]) := if_pos hRoom
    simp only [hPut, State.ledger, RPCClient.queue_setQueue]
    exact .pool hCall hRoom
  · have hPut : s.rpc.putClient addr c = { s.rpc.withQueue addr with
        closed := (s.rpc.withQueue addr).closed ++ [c] } := if_neg hRoom
    rw [hPut]
    exact .close hCall (Nat.le_of_not_lt hRoom)

/-- What a step of the calls does to the account. -/
theorem step_ledger {a : Action} (h : step s a = some t) : s.ledger.Step a t.ledger := by
  cases a with
  | get addr dial => exact step_get_ledger addr dial h
  | process k rtn err =>
    simp only [step] at h
    split at h
    case h_1 addr c hCall =>
      cases h
      cases err with
      | none => exact .reply hCall
      | some e => exact .fail hCall
    case h_2 => cases h
  | put k =>
    cases hCall : s.calls[k]? with
    | none =>
      simp only [step, hCall] at h
      cases h
    | some call =>
      cases call with
      | returning addr c rtn => exact step_put_ledger hCall h
      | holding addr c =>
        simp only [step, hCall] at h
        cases h
      | finished rtn err =>
        simp only [step, hCall] at h
        cases h

end Refinement

/-! ## Where a connection is -/

section Counting

variable {q : Bytes → List Client} {addr : Bytes} {c : Client} (d : Client)

theorem count_update_tail {rest : List Client} (hQueue : q addr = c :: rest) (hAddr : c.addr = addr) :
    (Function.update q addr rest d.addr).count d + (if c = d then 1 else 0) =
      (q d.addr).count d := by
  by_cases hd : d.addr = addr
  · rw [hd, Function.update_self, hQueue, List.count_cons]
    simp only [beq_iff_eq]
  · have hne : c ≠ d := by
      rintro rfl
      exact hd hAddr
    rw [Function.update_of_ne hd, if_neg hne, Nat.add_zero]

theorem count_update_snoc (hAddr : c.addr = addr) :
    (Function.update q addr (q addr ++ [c]) d.addr).count d =
      (q d.addr).count d + (if c = d then 1 else 0) := by
  by_cases hd : d.addr = addr
  · rw [hd, Function.update_self, List.count_append, List.count_singleton]
    simp only [beq_iff_eq]
  · have hne : c ≠ d := by
      rintro rfl
      exact hd hAddr
    rw [Function.update_of_ne hd, if_neg hne, Nat.add_zero]

theorem countP_client_snoc (calls : List Call) (call : Call) :
    (calls ++ [call]).countP (·.client = some d) =
      calls.countP (·.client = some d) + (if call.client = some d then 1 else 0) := by
  rw [List.countP_append, List.countP_singleton]
  simp only [decide_eq_true_eq]

theorem countP_client_set {calls : List Call} {k : Nat} {old : Call} (hk : calls[k]? = some old)
    (new : Call) :
    (calls.set k new).countP (·.client = some d) + (if old.client = some d then 1 else 0) =
      calls.countP (·.client = some d) + (if new.client = some d then 1 else 0) := by
  obtain ⟨hLt, rfl⟩ := List.getElem?_eq_some_iff.mp hk
  rw [List.countP_set hLt]
  simp only [decide_eq_true_eq]
  by_cases hOld : calls[k].client = some d
  · have hPos : 0 < calls.countP (·.client = some d) :=
      List.countP_pos_iff.mpr ⟨calls[k], List.getElem_mem hLt, decide_eq_true hOld⟩
    rw [if_pos hOld]
    omega
  · rw [if_neg hOld]
    omega

end Counting

namespace Ledger

variable {L M : Ledger} {a : Action}

/-- How often a connection is in the pool of its address, with a call in progress, and among
those closed. -/
def places (L : Ledger) (c : Client) : Nat :=
  (L.idle c.addr).count c + L.calls.countP (·.client = some c) + L.closed.count c

/-- A connection is in one place once it is open, and in none after a request failed. -/
structure Inv (L : Ledger) : Prop where
  placed : ∀ c, L.places c = if c ∈ L.opened ∧ L.lastFailed c = false then 1 else 0
  numbered : ∀ c ∈ L.opened, c.id < L.opened.length
  failed : ∀ c, L.lastFailed c = true → c ∈ L.opened
  size : L.poolSize = ppSize
  small : ∀ addr, (L.idle addr).length ≤ ppSize
  address : ∀ addr, ∀ c ∈ L.idle addr, c.addr = addr
  calls : ∀ call ∈ L.calls, call.Sound

namespace Inv

theorem working (h : Inv L) {c : Client} (hPlace : 0 < L.places c) :
    c ∈ L.opened ∧ L.lastFailed c = false := by
  by_contra hNot
  rw [h.placed, if_neg hNot] at hPlace
  exact Nat.lt_irrefl 0 hPlace

theorem working_idle (h : Inv L) {addr : Bytes} {c : Client} (hc : c ∈ L.idle addr) :
    c ∈ L.opened ∧ L.lastFailed c = false := by
  cases h.address addr c hc
  have hCount := List.count_pos_iff.mpr hc
  apply h.working
  unfold places
  omega

theorem working_call (h : Inv L) {k : Nat} {call : Call} {c : Client} (hCall : L.calls[k]? = some call)
    (hClient : call.client = some c) : c ∈ L.opened ∧ L.lastFailed c = false := by
  have hCount : 0 < L.calls.countP (·.client = some c) :=
    List.countP_pos_iff.mpr ⟨call, List.mem_of_getElem? hCall, decide_eq_true hClient⟩
  apply h.working
  unfold places
  omega

theorem snoc_calls (h : Inv L) {call : Call} (hCall : call.Sound) :
    ∀ k ∈ L.calls ++ [call], k.Sound := by
  intro k hk
  rcases List.mem_append.mp hk with hOld | hNew
  · exact h.calls k hOld
  · cases List.mem_singleton.mp hNew
    exact hCall

theorem set_calls (h : Inv L) {call : Call} {k : Nat} (hCall : call.Sound) :
    ∀ c ∈ L.calls.set k call, c.Sound := by
  intro c hc
  rcases List.mem_or_eq_of_mem_set hc with hOld | rfl
  · exact h.calls c hOld
  · exact hCall

theorem reuse (h : Inv L) {addr : Bytes} {c : Client} {rest : List Client}
    (hIdle : L.idle addr = c :: rest) :
    Inv { L with
      idle := Function.update L.idle addr rest
      calls := L.calls ++ [.holding addr c] } := by
  have hAddr : c.addr = addr := h.address addr c (hIdle ▸ List.mem_cons_self)
  refine { h with placed := ?_, small := ?_, address := ?_, calls := h.snoc_calls hAddr }
  · intro d
    have hTail := count_update_tail d hIdle hAddr
    have hCalls := countP_client_snoc d L.calls (.holding addr c)
    simp only [Call.client_holding, Option.some.injEq] at hCalls
    rw [← h.placed d]
    simp only [places, hCalls]
    omega
  · have hOld := h.small addr
    rw [hIdle, List.length_cons] at hOld
    rw [Function.forall_update_iff L.idle (fun _ l => l.length ≤ ppSize)]
    exact ⟨by omega, fun b _ => h.small b⟩
  · have hOld := h.address addr
    rw [hIdle] at hOld
    rw [Function.forall_update_iff L.idle (fun b l => ∀ c ∈ l, c.addr = b)]
    exact ⟨fun d hd => hOld d (List.mem_cons_of_mem c hd), fun b _ => h.address b⟩

theorem dial (h : Inv L) (addr : Bytes) :
    Inv { L with
      opened := L.opened ++ [⟨L.opened.length, addr⟩]
      calls := L.calls ++ [.holding addr ⟨L.opened.length, addr⟩] } := by
  have hFresh : (⟨L.opened.length, addr⟩ : Client) ∉ L.opened := by
    intro hMem
    exact Nat.lt_irrefl _ (h.numbered _ hMem)
  refine { h with placed := ?_, numbered := ?_, failed := ?_, calls := h.snoc_calls rfl }
  · intro d
    have hOld := h.placed d
    have hCalls := countP_client_snoc d L.calls (.holding addr ⟨L.opened.length, addr⟩)
    simp only [Call.client_holding, Option.some.injEq] at hCalls
    simp only [places, hCalls, List.mem_append, List.mem_singleton] at hOld ⊢
    by_cases hd : d = ⟨L.opened.length, addr⟩
    · have hWorks : L.lastFailed d = false := by
        by_contra hFailed
        exact hFresh (hd ▸ h.failed d (by simpa using hFailed))
      rw [if_neg (by rw [hd]; exact fun hBoth => hFresh hBoth.1)] at hOld
      rw [if_pos hd.symm, if_pos ⟨.inr hd, hWorks⟩]
      omega
    · simp only [hd, or_false, if_neg (Ne.symm hd)]
      omega
  · intro c hc
    rw [List.length_append, List.length_singleton]
    rcases List.mem_append.mp hc with hOld | hNew
    · exact Nat.lt_succ_of_lt (h.numbered c hOld)
    · cases List.mem_singleton.mp hNew
      exact Nat.lt_succ_self _
  · intro c hc
    exact List.mem_append_left _ (h.failed c hc)

theorem refuse (h : Inv L) (err : Bytes) :
    Inv { L with calls := L.calls ++ [.finished [] (some err)] } := by
  refine { h with placed := ?_, calls := h.snoc_calls trivial }
  intro d
  have hCalls := countP_client_snoc d L.calls (.finished [] (some err))
  rw [← h.placed d]
  simp only [places, hCalls, Call.client_finished, reduceCtorEq, if_false, Nat.add_zero]

/-- The connection of the request is with no call any more, and nowhere else. -/
theorem fail (h : Inv L) {k : Nat} {addr : Bytes} {c : Client} (rtn e : Bytes)
    (hCall : L.calls[k]? = some (.holding addr c)) :
    Inv { L with
      lastFailed := Function.update L.lastFailed c true
      calls := L.calls.set k (.finished rtn (some e)) } := by
  have hWorks := h.working_call hCall rfl
  refine { h with placed := ?_, failed := ?_, calls := h.set_calls trivial }
  · intro d
    have hOld := h.placed d
    have hCalls := countP_client_set d hCall (.finished rtn (some e))
    simp only [Call.client_holding, Call.client_finished, Option.some.injEq, reduceCtorEq,
      if_false] at hCalls
    simp only [places] at hOld ⊢
    by_cases hd : d = c
    · subst hd
      rw [if_pos hWorks] at hOld
      rw [if_pos rfl] at hCalls
      simp only [Function.update_self, Bool.true_eq_false, and_false, if_false]
      omega
    · rw [if_neg (Ne.symm hd)] at hCalls
      simp only [Function.update_of_ne hd]
      omega
  · rw [Function.forall_update_iff L.lastFailed (fun d b => b = true → d ∈ L.opened)]
    exact ⟨fun _ => hWorks.1, fun d _ => h.failed d⟩

/-- The request before this one has not failed either. -/
theorem update_lastFailed (h : Inv L) {k : Nat} {addr : Bytes} {c : Client}
    (hCall : L.calls[k]? = some (.holding addr c)) :
    Function.update L.lastFailed c false = L.lastFailed := by
  rw [← (h.working_call hCall rfl).2, Function.update_eq_self]

theorem reply (h : Inv L) {k : Nat} {addr : Bytes} {c : Client} (rtn : Bytes)
    (hCall : L.calls[k]? = some (.holding addr c)) :
    Inv { L with
      lastFailed := Function.update L.lastFailed c false
      calls := L.calls.set k (.returning addr c rtn) } := by
  have hAddr : c.addr = addr := h.calls _ (List.mem_of_getElem? hCall)
  rw [h.update_lastFailed hCall]
  refine { h with placed := ?_, calls := h.set_calls hAddr }
  intro d
  have hCalls := countP_client_set d hCall (.returning addr c rtn)
  simp only [Call.client_holding, Call.client_returning, Option.some.injEq] at hCalls
  rw [← h.placed d]
  simp only [places]
  omega

theorem pool (h : Inv L) {k : Nat} {addr rtn : Bytes} {c : Client}
    (hCall : L.calls[k]? = some (.returning addr c rtn))
    (hRoom : (L.idle addr).length < L.poolSize) :
    Inv { L with
      idle := Function.update L.idle addr (L.idle addr ++ [c])
      calls := L.calls.set k (.finished rtn none) } := by
  have hAddr : c.addr = addr := h.calls _ (List.mem_of_getElem? hCall)
  refine { h with placed := ?_, small := ?_, address := ?_, calls := h.set_calls trivial }
  · intro d
    have hIdle := count_update_snoc (q := L.idle) d hAddr
    have hCalls := countP_client_set d hCall (.finished rtn none)
    simp only [Call.client_returning, Call.client_finished, Option.some.injEq, reduceCtorEq,
      if_false] at hCalls
    rw [← h.placed d]
    simp only [places]
    omega
  · rw [Function.forall_update_iff L.idle (fun _ l => l.length ≤ ppSize), List.length_append,
      List.length_singleton, ← h.size]
    exact ⟨hRoom, fun b _ => h.size ▸ h.small b⟩
  · rw [Function.forall_update_iff L.idle (fun b l => ∀ c ∈ l, c.addr = b)]
    refine ⟨?_, fun b _ => h.address b⟩
    intro d hd
    rcases List.mem_append.mp hd with hOld | hNew
    · exact h.address addr d hOld
    · cases List.mem_singleton.mp hNew
      exact hAddr

theorem close (h : Inv L) {k : Nat} {addr rtn : Bytes} {c : Client}
    (hCall : L.calls[k]? = some (.returning addr c rtn)) :
    Inv { L with
      closed := L.closed ++ [c]
      calls := L.calls.set k (.finished rtn none) } := by
  refine { h with placed := ?_, calls := h.set_calls trivial }
  intro d
  have hCalls := countP_client_set d hCall (.finished rtn none)
  simp only [Call.client_returning, Call.client_finished, Option.some.injEq, reduceCtorEq,
    if_false] at hCalls
  rw [← h.placed d]
  simp only [places, List.count_append, List.count_singleton, beq_iff_eq]
  omega

theorem step (h : Inv L) (hStep : L.Step a M) : Inv M := by
  cases hStep with
  | reuse hIdle => exact h.reuse hIdle
  | dial _ => exact h.dial _
  | refuse _ => exact h.refuse _
  | fail hCall => exact h.fail _ _ hCall
  | reply hCall => exact h.reply _ hCall
  | pool hCall hRoom => exact h.pool hCall hRoom
  | close hCall _ => exact h.close hCall

end Inv

/-- A request has failed over some connection. -/
def Failed (L : Ledger) : Prop := ∃ c, L.lastFailed c = true

theorem failed_step (h : Inv L) (hStep : L.Step a M) :
    M.Failed ↔ L.Failed ∨ ∃ k rtn e, a = .process k rtn (some e) := by
  cases hStep with
  | fail hCall =>
    constructor
    · intro _
      exact .inr ⟨_, _, _, rfl⟩
    · intro _
      exact ⟨_, Function.update_self ..⟩
  | reply hCall =>
    simp [Failed, h.update_lastFailed hCall]
  | _ => simp [Failed]

/-- No connection is lost or shared: what was opened is in one place, and what is in a pool
can be used. -/
structure Conserved (L : Ledger) : Prop where
  placed : ∀ c ∈ L.opened, L.places c = 1
  small : ∀ addr, (L.idle addr).length ≤ ppSize
  idle : ∀ addr, ∀ c ∈ L.idle addr, c ∈ L.opened ∧ c.addr = addr ∧ L.lastFailed c = false

theorem conserved_iff (h : Inv L) : L.Conserved ↔ ¬L.Failed := by
  constructor
  · rintro hConserved ⟨c, hc⟩
    have hPlaced := hConserved.placed c (h.failed c hc)
    have hNot : ¬(c ∈ L.opened ∧ L.lastFailed c = false) := by simp [hc]
    rw [h.placed, if_neg hNot] at hPlaced
    cases hPlaced
  · intro hNot
    constructor
    · intro c hc
      have hWorks : L.lastFailed c = false := by
        by_contra hFailed
        exact hNot ⟨c, by simpa using hFailed⟩
      rw [h.placed, if_pos ⟨hc, hWorks⟩]
    · exact h.small
    · intro addr c hc
      obtain ⟨hOpened, hWorks⟩ := h.working_idle hc
      exact ⟨hOpened, h.address addr c hc, hWorks⟩

end Ledger

theorem inv_start : start.ledger.Inv where
  placed _ := rfl
  numbered _ h := by cases h
  failed _ h := by cases h
  size := rfl
  small _ := Nat.zero_le _
  address _ _ h := by cases h
  calls _ h := by cases h

theorem inv_run {acts : List Action} {s : State} (h : run step start acts = some s) :
    s.ledger.Inv ∧ (s.ledger.Failed ↔ ∃ k rtn e, .process k rtn (some e) ∈ acts) := by
  refine run_induction (P := fun acts s => s.ledger.Inv ∧
    (s.ledger.Failed ↔ ∃ k rtn e, .process k rtn (some e) ∈ acts)) ?_ ?_ h
  · refine ⟨inv_start, ?_⟩
    simp [Ledger.Failed, State.ledger, start]
  · rintro acts s a t _ ⟨hInv, hFailed⟩ hStep
    have hLedger := step_ledger hStep
    refine ⟨hInv.step hLedger, ?_⟩
    rw [Ledger.failed_step hInv hLedger, hFailed]
    simp only [List.mem_append, List.mem_singleton, exists_or, eq_comm]

/-- In every state of overlapping calls the connections are conserved exactly if no request
has failed. -/
theorem pool_conserved_iff {acts : List Action} {s : State} (h : run step start acts = some s) :
    s.ledger.Conserved ↔ ∀ k rtn e, .process k rtn (some e) ∉ acts := by
  obtain ⟨hInv, hFailed⟩ := inv_run h
  rw [Ledger.conserved_iff hInv, hFailed]
  simp only [not_exists]

def neighbour : Bytes := text "localhost:4281"

/-- One call whose request fails: the connection it had opened is open and nowhere. -/
theorem pool_loses_connection :
    ∃ s, run step start [.get neighbour (.ok ()), .process 0 [] (some (text "EOF"))] = some s ∧
      ⟨0, neighbour⟩ ∈ s.rpc.opened ∧ s.ledger.places ⟨0, neighbour⟩ = 0 := by
  apply exists_run
  decide

/-- Two calls that overlap, and a third that uses the connection of the second. -/
def overlapping : List Action :=
  [.get neighbour (.ok ()), .get neighbour (.ok ()),
    .process 1 (text "ok") none, .put 1, .get neighbour (.error (text "refused")),
    .process 0 (text "ok") none, .process 2 (text "ok") none, .put 2, .put 0]

theorem pool_conserved_overlapping :
    ∃ s, run step start overlapping = some s ∧ s.rpc.opened.length = 2 ∧ s.ledger.Conserved := by
  have hRun : ∃ s, run step start overlapping = some s ∧ s.rpc.opened.length = 2 := by
    apply exists_run
    decide
  obtain ⟨s, hs, hTwo⟩ := hRun
  exact ⟨s, hs, hTwo, (pool_conserved_iff hs).mpr (by simp [overlapping])⟩

end Sara.Sararpc
