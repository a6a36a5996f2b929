import Sara.Saradb.Database
import Sara.Lib.Transition

/-! # Closing the database

`Close` stops the keep-alive loop, closes `wbCh`, signals the session workers one
after another and waits until every worker has left its loop. A signalled worker
that receives another item sends a kill item to `wbCh` first, and `wbCh` is
closed by then.
-/

namespace Sara.Saradb.Close

open Lib Lib.Transition

set_option autoImplicit false

/-- A `writeBufArgs`; the command `KILL` is not one for Redis. -/
inductive Item where
  | write (c : Cmd)
  | kill
deriving DecidableEq

structure Worker where
  kill : Bool
  sendKill : Bool
  wbTotal : Int
  holding : Option Item
  exited : Bool
deriving DecidableEq

/-- `signal i` is the loop over `wbSyncChList4s`, and the wait once `i` is past its end. -/
inductive Caller where
  | stop
  | closeWb
  | signal (i : Nat)
  | returned
deriving DecidableEq

structure System where
  caller : Caller
  closed : Bool
  queue : Chan → List Item
  workers : Chan → List Worker
  executed : Chan → List Cmd
  panicked : Bool

inductive Action where
  | close
  | recv (ch : Chan) (i : Nat)
  | handle (ch : Chan) (i : Nat)
  | timer (ch : Chan) (i : Nat)

def consumerTotal (poolSize : Int) : Nat := if poolSize > 100 then (poolSize / 5).toNat else 20

def newWorker (consumers : Nat) : Worker :=
  { kill := false, sendKill := false, wbTotal := consumers, holding := none, exited := false }

def start (consumers : Nat) (messages sessions : List Cmd) : System where
  caller := .stop
  closed := false
  queue
    | .message => messages.map .write
    | .session => sessions.map .write
  workers _ := List.replicate consumers (newWorker consumers)
  executed _ := []
  panicked := false

def System.setWorker (s : System) (ch : Chan) (i : Nat) (w : Worker) : System :=
  { s with workers := Function.update s.workers ch ((s.workers ch).set i w) }

def System.isClosed (s : System) (ch : Chan) : Bool := ch = .message && s.closed

def Worker.selecting (w : Worker) : Bool := w.holding.isNone && !w.exited

def closeStep (s : System) : Option System :=
  match s.caller with
  | .stop => some { s with caller := .closeWb }
  | .closeWb => some { s with caller := .signal 0, closed := true }
  | .signal i =>
    match (s.workers .session)[i]? with
    | some w =>
      -- `wbSyncCh4s` has no buffer, so the worker takes the signal in its `select`
      if w.selecting then
        some { s.setWorker .session i { w with kill := true } with caller := .signal (i + 1) }
      else none
    | none =>
      if (s.workers .message ++ s.workers .session).all (·.exited) then
        some { s with caller := .returned }
      else none
  | .returned => none

def recv (s : System) (ch : Chan) (i : Nat) (w : Worker) : Option System :=
  if w.selecting then
    match s.queue ch with
    | item :: rest =>
      some { s.setWorker ch i { w with holding := some item } with
        queue := Function.update s.queue ch rest }
    | [] => if s.isClosed ch then some (s.setWorker ch i { w with exited := true }) else none
  else none

def handleItem (s : System) (ch : Chan) (i : Nat) (w : Worker) : Item → System
  | .kill =>
    if w.wbTotal > 1 then
      s.setWorker ch i { w with holding := none, wbTotal := w.wbTotal - 1, exited := true }
    else s.setWorker ch i { w with holding := none }
  | .write c =>
    { s.setWorker ch i { w with holding := none } with
      executed := Function.update s.executed ch (s.executed ch ++ [c]) }

/-- A kill item is sent to `wbCh`, whichever channel the worker serves. -/
def handle (capacity : Nat) (s : System) (ch : Chan) (i : Nat) (w : Worker) : Option System :=
  match w.holding with
  | none => none
  | some item =>
    if w.kill && !w.sendKill then
      if s.closed then some { s with panicked := true }
      else if (s.queue .message).length < capacity then
        some { s.setWorker ch i { w with sendKill := true } with
          queue := Function.update s.queue .message (s.queue .message ++ [.kill]) }
      else none
    else some (handleItem s ch i w item)

/-- The timer fires in a `select` that has nothing to receive. -/
def timer (s : System) (ch : Chan) (i : Nat) (w : Worker) : Option System :=
  if w.selecting && (s.queue ch).isEmpty && !s.isClosed ch &&
      !(ch = .session && s.caller = .signal i) then
    some (if w.kill then s.setWorker ch i { w with wbTotal := w.wbTotal - 1, exited := true } else s)
  else none

def step (capacity : Nat) (s : System) (a : Action) : Option System :=
  if s.panicked then none
  else
    match a with
    | .close => closeStep s
    | .recv ch i => (s.workers ch)[i]?.bind (recv s ch i)
    | .handle ch i => (s.workers ch)[i]?.bind (handle capacity s ch i)
    | .timer ch i => (s.workers ch)[i]?.bind (timer s ch i)

/-- No worker that has its signal receives from `wbCh4s`. -/
def NoLateReceive (s : System) : Action → Prop
  | .recv .session i => ∀ w ∈ (s.workers .session)[i]?, w.kill = false
  | _ => True

instance (s : System) : (a : Action) → Decidable (NoLateReceive s a)
  | .recv .session i => inferInstanceAs (Decidable (∀ w ∈ (s.workers .session)[i]?, w.kill = false))
  | .recv .message _ | .close | .handle _ _ | .timer _ _ => isTrue trivial

def Safe (sessions : List Cmd) (s : System) : Prop :=
  s.panicked = false ∧ (s.caller = .returned → (s.executed .session).Perm sessions)

def held (ws : List Worker) : List Item := ws.flatMap fun w => w.holding.toList

theorem held_set {ws : List Worker} {i : Nat} {w : Worker} (h : ws[i]? = some w) (w' : Worker) :
    (w.holding.toList ++ held (ws.set i w')).Perm (w'.holding.toList ++ held ws) := by
  obtain ⟨hi, hGet⟩ := List.getElem?_eq_some_iff.mp h
  have hNew : (held (ws.set i w')).Perm (w'.holding.toList ++ held (ws.eraseIdx i)) :=
    (List.set_perm_cons_eraseIdx hi w').flatMap_right _
  have hOld : (w.holding.toList ++ held (ws.eraseIdx i)).Perm (held ws) := by
    rw [← hGet]
    exact (List.getElem_cons_eraseIdx_perm hi).flatMap_right (fun w : Worker => w.holding.toList)
  refine (hNew.append_left _).trans (List.Perm.trans ?_ (hOld.append_left _))
  rw [← List.append_assoc, ← List.append_assoc]
  exact List.perm_append_comm.append_right _

theorem selecting_iff {w : Worker} :
    w.selecting = true ↔ w.holding = none ∧ w.exited = false := by
  simp [Worker.selecting]

theorem recv_cases {s t : System} {ch : Chan} {i : Nat} {w : Worker} (h : recv s ch i w = some t) :
    w.holding = none ∧ w.exited = false ∧
      ((∃ item rest, s.queue ch = item :: rest ∧
          t = { s.setWorker ch i { w with holding := some item } with
            queue := Function.update s.queue ch rest }) ∨
        (s.queue ch = [] ∧ ch = .message ∧ t = s.setWorker ch i { w with exited := true })) := by
  unfold recv at h
  split at h
  · rename_i hSelecting
    obtain ⟨hHolding, hExited⟩ := selecting_iff.mp hSelecting
    refine ⟨hHolding, hExited, ?_⟩
    split at h
    · rename_i item rest hQueue
      exact .inl ⟨item, rest, hQueue, (Option.some.inj h).symm⟩
    · rename_i hQueue
      split at h
      · rename_i hClosed
        have hMessage : ch = .message := by
          simp only [System.isClosed, Bool.and_eq_true, decide_eq_true_eq] at hClosed
          exact hClosed.1
        exact .inr ⟨hQueue, hMessage, (Option.some.inj h).symm⟩
      · cases h
  · cases h

theorem handle_cases {capacity : Nat} {s t : System} {ch : Chan} {i : Nat} {w : Worker}
    (h : handle capacity s ch i w = some t) :
    ∃ item, w.holding = some item ∧
      ((w.kill = true ∧ t = { s with panicked := true }) ∨
        (w.kill = true ∧ t = { s.setWorker ch i { w with sendKill := true } with
          queue := Function.update s.queue .message (s.queue .message ++ [.kill]) }) ∨
        t = handleItem s ch i w item) := by
  unfold handle at h
  split at h
  · cases h
  · rename_i item hHolding
    refine ⟨item, hHolding, ?_⟩
    split at h
    · rename_i hKill
      have hKill : w.kill = true := by
        rw [Bool.and_eq_true] at hKill
        exact hKill.1
      split at h
      · exact .inl ⟨hKill, (Option.some.inj h).symm⟩
      · split at h
        · exact .inr (.inl ⟨hKill, (Option.some.inj h).symm⟩)
        · cases h
    · exact .inr (.inr (Option.some.inj h).symm)

theorem timer_cases {s t : System} {ch : Chan} {i : Nat} {w : Worker}
    (h : timer s ch i w = some t) :
    w.holding = none ∧ w.exited = false ∧ s.queue ch = [] ∧
      ((w.kill = true ∧
        t = s.setWorker ch i { w with wbTotal := w.wbTotal - 1, exited := true }) ∨ t = s) := by
  unfold timer at h
  split at h
  · rename_i hReady
    simp only [Bool.and_eq_true, List.isEmpty_iff, selecting_iff] at hReady
    refine ⟨hReady.1.1.1.1, hReady.1.1.1.2, hReady.1.1.2, ?_⟩
    split at h
    · rename_i hKill
      exact .inl ⟨hKill, (Option.some.inj h).symm⟩
    · exact .inr (Option.some.inj h).symm
  · cases h

theorem closeStep_cases {s t : System} (h : closeStep s = some t) :
    (t = { s with caller := t.caller, closed := t.closed } ∧ t.caller ≠ .returned) ∨
    (∃ i w, (s.workers .session)[i]? = some w ∧ w.holding = none ∧ w.exited = false ∧
      t = { s.setWorker .session i { w with kill := true } with caller := .signal (i + 1) }) ∨
    ((∀ w ∈ s.workers .session, w.exited = true) ∧ t = { s with caller := .returned }) := by
  unfold closeStep at h
  split at h
  · cases h
    exact .inl ⟨rfl, Caller.noConfusion⟩
  · cases h
    exact .inl ⟨rfl, Caller.noConfusion⟩
  · rename_i i _
    split at h
    · rename_i w hw
      split at h
      · rename_i hSelecting
        obtain ⟨hHolding, hExited⟩ := selecting_iff.mp hSelecting
        exact .inr (.inl ⟨i, w, hw, hHolding, hExited, (Option.some.inj h).symm⟩)
      · cases h
    · split at h
      · rename_i hAll
        rw [List.all_eq_true] at hAll
        exact .inr (.inr ⟨fun w hw => hAll w (List.mem_append_right _ hw),
          (Option.some.inj h).symm⟩)
      · cases h
  · cases h

/-- Every session write is executed, held by a worker or still in `wbCh4s`, and a
session worker leaves only when there is nothing left to receive. -/
structure Inv (consumers : Nat) (sessions : List Cmd) (s : System) : Prop where
  total : (s.workers .session).length = consumers
  account : (sessions.map Item.write).Perm ((s.executed .session).map Item.write ++
    (held (s.workers .session) ++ s.queue .session))
  exited : ∀ w ∈ s.workers .session, w.exited = true → w.holding = none ∧ s.queue .session = []
  returned : s.caller = .returned → ∀ w ∈ s.workers .session, w.exited = true

theorem held_start (consumers : Nat) :
    held (List.replicate consumers (newWorker consumers)) = [] := by
  rw [held, List.flatMap_eq_nil_iff]
  intro w hw
  rw [List.eq_of_mem_replicate hw]
  rfl

theorem inv_start (consumers : Nat) (messages sessions : List Cmd) :
    Inv consumers sessions (start consumers messages sessions) where
  total := List.length_replicate
  account := by
    simp only [start, held_start]
    exact List.Perm.refl _
  exited := by
    intro w hw hExited
    rw [List.eq_of_mem_replicate hw] at hExited
    cases hExited
  returned := fun h => by cases h

/-- The invariant speaks of the session side only. -/
theorem Inv.frame {consumers : Nat} {sessions : List Cmd} {s t : System} (h : Inv consumers sessions s)
    (hWorkers : t.workers .session = s.workers .session)
    (hQueue : t.queue .session = s.queue .session)
    (hExecuted : t.executed .session = s.executed .session)
    (hCaller : t.caller = .returned → ∀ w ∈ s.workers .session, w.exited = true) :
    Inv consumers sessions t := by
  obtain ⟨hTotal, hAccount, hExited, _⟩ := h
  refine ⟨?_, ?_, ?_, ?_⟩
  · rw [hWorkers, hTotal]
  · rw [hWorkers, hQueue, hExecuted]
    exact hAccount
  · rw [hWorkers, hQueue]
    exact hExited
  · rw [hWorkers]
    exact hCaller

/-- A step of one session worker that moves items on keeps the invariant. -/
theorem Inv.worker {consumers : Nat} {sessions : List Cmd} {s t : System} {i : Nat} {w w' : Worker}
    (h : Inv consumers sessions s) (hw : (s.workers .session)[i]? = some w)
    (hActive : ¬ (w.exited = true ∧ w.holding = none))
    (hWorkers : t.workers .session = (s.workers .session).set i w')
    (hCaller : t.caller = .returned → s.caller = .returned)
    (hMoved : ∀ item, (((t.executed .session).map Item.write).count item +
        w'.holding.toList.count item + (t.queue .session).count item =
      ((s.executed .session).map Item.write).count item + w.holding.toList.count item +
        (s.queue .session).count item))
    (hQueue : s.queue .session = [] → t.queue .session = [])
    (hExited : w'.exited = true → w'.holding = none ∧ t.queue .session = []) :
    Inv consumers sessions t := by
  obtain ⟨hTotal, hAccount, hOld, hReturned⟩ := h
  refine ⟨?_, ?_, ?_, ?_⟩
  · rw [hWorkers, List.length_set, hTotal]
  · rw [List.perm_iff_count] at hAccount ⊢
    intro item
    have hHeld := (held_set hw w').count_eq item
    have hMovedItem := hMoved item
    have hBefore := hAccount item
    simp only [List.count_append, hWorkers] at hHeld hBefore ⊢
    omega
  · intro v hv hvExited
    rw [hWorkers] at hv
    rcases List.mem_or_eq_of_mem_set hv with hMem | rfl
    · obtain ⟨hHolding, hEmpty⟩ := hOld v hMem hvExited
      exact ⟨hHolding, hQueue hEmpty⟩
    · exact hExited hvExited
  · intro hDone
    have hAll := hReturned (hCaller hDone) w (List.mem_of_getElem? hw)
    exact absurd ⟨hAll, (hOld w (List.mem_of_getElem? hw) hAll).1⟩ hActive

theorem Inv.no_kill {consumers : Nat} {sessions : List Cmd} {s : System} {w : Worker}
    (h : Inv consumers sessions s) (hw : w ∈ s.workers .session) : w.holding ≠ some .kill := by
  intro hKill
  have hMem : Item.kill ∈ held (s.workers .session) :=
    List.mem_flatMap.mpr ⟨w, hw, by rw [hKill]; exact List.mem_singleton_self _⟩
  have hWrites := h.account.symm.subset (List.mem_append_right _ (List.mem_append_left _ hMem))
  obtain ⟨c, _, hc⟩ := List.mem_map.mp hWrites
  cases hc

theorem inv_step {consumers capacity : Nat} {sessions : List Cmd} {s t : System} {a : Action}
    (h : Inv consumers sessions s) (hStep : step capacity s a = some t) :
    Inv consumers sessions t := by
  unfold step at hStep
  split at hStep
  · cases hStep
  cases a with
  | close =>
    obtain ⟨hSame, hCaller⟩ | ⟨i, w, hw, hHolding, hExited, rfl⟩ | ⟨hAll, rfl⟩ :=
      closeStep_cases hStep
    · rw [hSame]
      exact h.frame rfl rfl rfl (fun hDone => absurd hDone hCaller)
    · refine h.worker hw (by simp [hExited]) rfl (fun hDone => by cases hDone)
        (fun _ => rfl) id ?_
      intro hGone
      rw [hExited] at hGone
      cases hGone
    · exact h.frame rfl rfl rfl (fun _ => hAll)
  | recv ch i =>
    obtain ⟨w, hw, hRecv⟩ := Option.bind_eq_some_iff.mp hStep
    obtain ⟨hHolding, hExited, ⟨item, rest, hQueue, rfl⟩ | ⟨hQueue, hMessage, rfl⟩⟩ :=
      recv_cases hRecv
    · cases ch with
      | message => exact h.frame rfl rfl rfl h.returned
      | session =>
        refine h.worker hw (by simp [hExited]) rfl id ?_ ?_ ?_
        · intro item'
          simp [hQueue, hHolding, List.count_cons, System.setWorker]
          omega
        · intro hEmpty
          rw [hQueue] at hEmpty
          cases hEmpty
        · intro hGone
          rw [hExited] at hGone
          cases hGone
    · subst hMessage
      exact h.frame rfl rfl rfl h.returned
  | handle ch i =>
    obtain ⟨w, hw, hHandle⟩ := Option.bind_eq_some_iff.mp hStep
    obtain ⟨item, hHolding, ⟨hKill, rfl⟩ | ⟨hKill, rfl⟩ | rfl⟩ := handle_cases hHandle
    · exact h.frame rfl rfl rfl h.returned
    · cases ch with
      | message => exact h.frame rfl rfl rfl h.returned
      | session =>
        refine h.worker hw (by simp [hHolding]) rfl id (fun _ => rfl) id ?_
        exact h.exited w (List.mem_of_getElem? hw)
    · cases ch with
      | message =>
        cases item with
        | kill =>
          simp only [handleItem]
          split <;> exact h.frame rfl rfl rfl h.returned
        | write c => exact h.frame rfl rfl rfl h.returned
      | session =>
        cases item with
        | kill => exact absurd hHolding (h.no_kill (List.mem_of_getElem? hw))
        | write c =>
          refine h.worker hw (by simp [hHolding]) rfl id ?_ id ?_
          · intro item'
            simp [handleItem, hHolding, List.count_cons, System.setWorker]
          · intro hGone
            have hIdle := (h.exited w (List.mem_of_getElem? hw) hGone).1
            rw [hHolding] at hIdle
            cases hIdle
  | timer ch i =>
    obtain ⟨w, hw, hTimer⟩ := Option.bind_eq_some_iff.mp hStep
    obtain ⟨hHolding, hExited, hQueue, ⟨hKill, rfl⟩ | rfl⟩ := timer_cases hTimer
    · cases ch with
      | message => exact h.frame rfl rfl rfl h.returned
      | session =>
        exact h.worker hw (by simp [hExited]) rfl id (fun _ => rfl) id
          (fun _ => ⟨hHolding, hQueue⟩)
    · exact h

/-- Only session workers are signalled, and a signalled one holds nothing. -/
def Calm : Chan → Worker → Prop
  | .message, w => w.kill = false
  | .session, w => w.kill = true → w.holding = none

structure Quiet (s : System) : Prop where
  calm : ∀ ch, ∀ w ∈ s.workers ch, Calm ch w
  alive : s.panicked = false

theorem Calm.of_holding {ch : Chan} {w : Worker} (h : Calm ch w) (hHolding : w.holding ≠ none) :
    w.kill = false := by
  cases ch with
  | message => exact h
  | session =>
    rw [← Bool.not_eq_true]
    exact fun hKill => hHolding (h hKill)

theorem Calm.of_kill {ch : Chan} {w : Worker} (hKill : w.kill = false) : Calm ch w := by
  cases ch with
  | message => exact hKill
  | session =>
    intro h
    rw [hKill] at h
    cases h

theorem Quiet.worker {s t : System} {ch : Chan} {i : Nat} {w : Worker} (h : Quiet s)
    (hWorkers : t.workers = Function.update s.workers ch ((s.workers ch).set i w))
    (hCalm : Calm ch w) (hAlive : t.panicked = s.panicked) : Quiet t := by
  refine ⟨?_, hAlive.trans h.alive⟩
  intro ch' v hv
  rw [hWorkers] at hv
  rcases eq_or_ne ch' ch with rfl | hne
  · rw [Function.update_self] at hv
    rcases List.mem_or_eq_of_mem_set hv with hMem | rfl
    · exact h.calm ch' v hMem
    · exact hCalm
  · rw [Function.update_of_ne hne] at hv
    exact h.calm ch' v hv

theorem quiet_start (consumers : Nat) (messages sessions : List Cmd) :
    Quiet (start consumers messages sessions) := by
  refine ⟨?_, rfl⟩
  intro ch w hw
  rw [List.eq_of_mem_replicate hw]
  exact Calm.of_kill rfl

theorem quiet_step {capacity : Nat} {s t : System} {a : Action} (h : Quiet s)
    (hGuard : NoLateReceive s a) (hStep : step capacity s a = some t) : Quiet t := by
  unfold step at hStep
  split at hStep
  · cases hStep
  cases a with
  | close =>
    obtain ⟨hSame, _⟩ | ⟨i, w, hw, hHolding, _, rfl⟩ | ⟨_, rfl⟩ := closeStep_cases hStep
    · rw [hSame]
      exact ⟨h.calm, h.alive⟩
    · exact h.worker rfl (fun _ => hHolding) rfl
    · exact ⟨h.calm, h.alive⟩
  | recv ch i =>
    obtain ⟨w, hw, hRecv⟩ := Option.bind_eq_some_iff.mp hStep
    have hCalm := h.calm ch w (List.mem_of_getElem? hw)
    obtain ⟨_, _, ⟨item, rest, _, rfl⟩ | ⟨_, rfl, rfl⟩⟩ := recv_cases hRecv
    · refine h.worker rfl (Calm.of_kill ?_) rfl
      cases ch with
      | message => exact hCalm
      | session => exact hGuard w hw
    · exact h.worker rfl hCalm rfl
  | handle ch i =>
    obtain ⟨w, hw, hHandle⟩ := Option.bind_eq_some_iff.mp hStep
    obtain ⟨item, hHolding, hCases⟩ := handle_cases hHandle
    have hKill : w.kill = false := by
      refine (h.calm ch w (List.mem_of_getElem? hw)).of_holding ?_
      rw [hHolding]
      exact Option.some_ne_none item
    obtain ⟨hSignalled, _⟩ | ⟨hSignalled, _⟩ | rfl := hCases
    · rw [hKill] at hSignalled
      cases hSignalled
    · rw [hKill] at hSignalled
      cases hSignalled
    · cases item with
      | kill =>
        simp only [handleItem]
        split <;> exact h.worker rfl (Calm.of_kill hKill) rfl
      | write c => exact h.worker rfl (Calm.of_kill hKill) rfl
  | timer ch i =>
    obtain ⟨w, hw, hTimer⟩ := Option.bind_eq_some_iff.mp hStep
    have hCalm := h.calm ch w (List.mem_of_getElem? hw)
    obtain ⟨_, _, _, ⟨_, rfl⟩ | rfl⟩ := timer_cases hTimer
    · refine h.worker rfl ?_ rfl
      cases ch with
      | message => exact hCalm
      | session => exact hCalm
    · exact h

theorem inv_run {consumers capacity : Nat} {messages sessions : List Cmd} {acts : List Action}
    {s : System} (hRun : run (step capacity) (start consumers messages sessions) acts = some s) :
    Inv consumers sessions s :=
  run_induction (P := fun _ s => Inv consumers sessions s) (inv_start consumers messages sessions)
    (fun _ _ _ _ _ h hStep => inv_step h hStep) hRun

/-- Whenever `Close` returns, every session write has been executed, once. -/
theorem executed_of_returned {consumers : Nat} {sessions : List Cmd} {s : System}
    (hConsumers : 0 < consumers) (h : Inv consumers sessions s) (hReturned : s.caller = .returned) :
    (s.executed .session).Perm sessions := by
  have hAll := h.returned hReturned
  have hHeld : held (s.workers .session) = [] := by
    rw [held, List.flatMap_eq_nil_iff]
    intro w hw
    rw [(h.exited w hw (hAll w hw)).1]
    rfl
  have hQueue : s.queue .session = [] := by
    have hFirst : 0 < (s.workers .session).length := by rw [h.total]; exact hConsumers
    have hMem := List.getElem_mem hFirst
    exact (h.exited _ hMem (hAll _ hMem)).2
  have hAccount := h.account
  rw [hHeld, hQueue, List.append_nil, List.append_nil] at hAccount
  exact ((List.map_perm_map_iff fun _ _ => Item.write.inj).mp hAccount).symm

theorem quiet_run_of_no_sessions {consumers capacity : Nat} {messages : List Cmd}
    {acts : List Action} {s : System}
    (hRun : run (step capacity) (start consumers messages []) acts = some s) : Quiet s := by
  refine run_induction (P := fun _ s => Quiet s) (quiet_start consumers messages []) ?_ hRun
  intro as s a t hPrefix h hStep
  refine quiet_step h ?_ hStep
  have hQueue : s.queue .session = [] := by
    have hNothing := (inv_run hPrefix).account.symm.eq_nil
    exact (List.append_eq_nil_iff.mp (List.append_eq_nil_iff.mp hNothing).2).2
  match a with
  | .close | .recv .message _ | .handle _ _ | .timer _ _ => trivial
  | .recv .session i =>
    -- a receive needs an item, and there has never been one
    unfold step at hStep
    split at hStep
    · cases hStep
    obtain ⟨w, _, hRecv⟩ := Option.bind_eq_some_iff.mp hStep
    obtain ⟨_, _, ⟨item, rest, hItem, _⟩ | ⟨_, hMessage, _⟩⟩ := recv_cases hRecv
    · rw [hQueue] at hItem
      cases hItem
    · cases hMessage

/-- The first session worker has its signal when it takes the first write. -/
def lateReceive : List Action :=
  [.close, .close, .close, .recv .session 0, .handle .session 0]

theorem panics_of_lateReceive (consumers capacity : Nat) (messages rest : List Cmd) (c : Cmd) :
    ∃ s, run (step capacity) (start (consumers + 1) messages (c :: rest)) lateReceive = some s ∧
      s.panicked = true := ⟨_, rfl, rfl⟩

theorem returns_without_workers (capacity : Nat) (messages sessions : List Cmd) :
    ∃ s, run (step capacity) (start 0 messages sessions) [.close, .close, .close] = some s ∧
      s.caller = .returned ∧ s.executed .session = [] := ⟨_, rfl, rfl, rfl⟩

/-- Closing is safe under every interleaving exactly when no session write is
pending, and under every interleaving in which no signalled worker receives. -/
theorem close_safe_iff (consumers capacity : Nat) (messages sessions : List Cmd) :
    ((∀ acts s, run (step capacity) (start consumers messages sessions) acts = some s →
        Safe sessions s) ↔ sessions = []) ∧
    (0 < consumers → ∀ acts s,
      run (step capacity) (start consumers messages sessions) acts = some s →
      Guarded (step capacity) NoLateReceive (start consumers messages sessions) acts →
        Safe sessions s) := by
  refine ⟨⟨?_, ?_⟩, ?_⟩
  · intro hSafe
    cases sessions with
    | nil => rfl
    | cons c rest =>
      exfalso
      cases consumers with
      | zero =>
        obtain ⟨s, hRun, hReturned, hExecuted⟩ := returns_without_workers capacity messages (c :: rest)
        have hPerm := (hSafe _ s hRun).2 hReturned
        rw [hExecuted] at hPerm
        exact List.cons_ne_nil c rest hPerm.nil_eq.symm
      | succ n =>
        obtain ⟨s, hRun, hPanicked⟩ := panics_of_lateReceive n capacity messages rest c
        rw [(hSafe _ s hRun).1] at hPanicked
        cases hPanicked
  · rintro rfl acts s hRun
    refine ⟨(quiet_run_of_no_sessions hRun).alive, ?_⟩
    intro _
    have hNothing := (inv_run hRun).account.symm.eq_nil
    rw [List.map_eq_nil_iff.mp (List.append_eq_nil_iff.mp hNothing).1]
  · intro hConsumers acts s hRun hGuarded
    refine ⟨?_, executed_of_returned hConsumers (inv_run hRun)⟩
    have hQuiet : Quiet s :=
      guarded_induction (P := fun _ s => Quiet s) (quiet_start consumers messages sessions)
        (fun _ _ _ _ _ _ h hGuard hStep => quiet_step h hGuard hStep) hRun hGuarded
    exact hQuiet.alive

theorem consumerTotal_pos (poolSize : Int) : 0 < consumerTotal poolSize := by
  unfold consumerTotal
  split <;> omega

/-- The write is executed before the signals; then every worker leaves. -/
def earlyReceive : List Action :=
  [.recv .session 0, .handle .session 0, .close, .close, .close, .timer .session 0,
    .recv .message 0, .close]

theorem close_safe_earlyReceive :
    ∃ s, run (step 20000) (start 1 [] [.del (text "session_bob@x")]) earlyReceive = some s ∧
      s.caller = .returned ∧ Safe [.del (text "session_bob@x")] s := by
  have hRun : ∃ s, run (step 20000) (start 1 [] [.del (text "session_bob@x")]) earlyReceive = some s ∧
      s.caller = .returned := exists_run (by decide)
  obtain ⟨s, hRun, hReturned⟩ := hRun
  exact ⟨s, hRun, hReturned,
    (close_safe_iff 1 20000 [] [.del (text "session_bob@x")]).2 (by decide) _ s hRun (by decide)⟩

/-- Twenty workers, one queued delete of a session key. -/
theorem close_sends_on_closed_channel :
    ∃ s, run (step 20000) (start (consumerTotal 5) [] [.del (text "session_bob@x")]) lateReceive =
        some s ∧
      ¬ Safe [.del (text "session_bob@x")] s := by
  obtain ⟨s, hRun, hPanicked⟩ := panics_of_lateReceive 19 20000 [] [] (.del (text "session_bob@x"))
  refine ⟨s, hRun, ?_⟩
  intro hSafe
  rw [hSafe.1] at hPanicked
  cases hPanicked

end Sara.Saradb.Close
