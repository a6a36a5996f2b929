import Sara.Core.Lifecycle
import Sara.Lib.Transition

/-! # Shutting a node down

Connections are accepted by the accept loops and the handlers of the web server, sent
on one channel, taken off it by the accepter workers, made into sessions and
registered. `Wait` closes that channel and the listeners, takes the sessions that are
registered by then, closes each of them and closes the database. Nothing makes it
wait for what is on the way.
-/

namespace Sara.Shutdown

open Lib Lib.Prog Lib.Transition Saradb Relation

set_option autoImplicit false

inductive Kind where
  | tcp
  | tls
  | ws
deriving DecidableEq

/-- How far `Wait` is. The wait group is never counted up, so that waiting for it ends at
once. -/
inductive Phase where
  | serving
  | stopping
  | chClosed
  | unlistened
  | closing (slist : List Bytes)
  | waited
  | finished
deriving DecidableEq

def Phase.listening : Phase → Bool
  | .serving | .stopping | .chClosed => true
  | .unlistened | .closing _ | .waited | .finished => false

def Phase.acceptChClosed : Phase → Bool
  | .serving | .stopping => false
  | .chClosed | .unlistened | .closing _ | .waited | .finished => true

def Phase.remaining : Phase → Option (List Bytes)
  | .serving | .stopping | .chClosed | .unlistened => none
  | .closing slist => some slist
  | .waited | .finished => some []

/-- `handshakes` are the connections of the web server that are not upgraded yet, `inHand` those
an accept loop or a handler is about to send, `taken` those a worker has received, `made` the
sessions not registered yet, and `registered` all that ever were. -/
structure Server where
  node : Node
  phase : Phase
  handshakes : Nat
  inHand : List Kind
  acceptCh : List Kind
  taken : Nat
  made : List Bytes
  registered : List Bytes
  panicked : Bool
  crashed : Bool

def start (nodeid channel : Bytes) (db : Database) : Server where
  node :=
    { nodeid := nodeid
      channel := channel
      sessions := fun _ => none
      sessionMap := fun _ => false
      cleanSession := []
      db := db
      router := []
      oflCache := fun _ => none
      published := [] }
  phase := .serving
  handshakes := 0
  inHand := []
  acceptCh := []
  taken := 0
  made := []
  registered := []
  panicked := false
  crashed := false

inductive Action where
  | accept (kind : Kind)
  | upgrade (ok : Bool)
  | send (kind : Kind)
  | take
  | create (x : Bytes)
  | register (x : Bytes)
  | event (x : Bytes) (e : Event)
  | clean
  | stop
  | closeCh
  | closeListener
  | snapshot (slist : List Bytes)
  | closeNext (env : Env)
  | wgWait
  | dbClose

variable (C : Codec) (accepters capacity : Nat)

/-- A panic in an accept loop or in `Wait` ends the process; the web server recovers the panic of
a handler. -/
def step (s : Server) (a : Action) : Option Server :=
  if s.crashed then none else
  match a with
  | .accept .ws => if s.phase.listening then some { s with handshakes := s.handshakes + 1 } else none
  | .accept kind =>
    -- there is one accept loop of each kind
    if s.phase.listening ∧ kind ∉ s.inHand then some { s with inHand := kind :: s.inHand } else none
  | .upgrade ok =>
    if 0 < s.handshakes then some { s with
      handshakes := s.handshakes - 1
      inHand := if ok then .ws :: s.inHand else s.inHand }
    else none
  | .send kind =>
    if kind ∉ s.inHand then none
    else if s.phase.acceptChClosed then some { s with
      inHand := s.inHand.erase kind
      panicked := true
      crashed := decide (kind ≠ .ws) }
    else if s.acceptCh.length < capacity then some { s with
      inHand := s.inHand.erase kind
      acceptCh := s.acceptCh ++ [kind] }
    else none
  | .take =>
    match s.acceptCh with
    | [] => none
    | _ :: rest =>
      if s.taken + s.made.length < accepters then
        some { s with acceptCh := rest, taken := s.taken + 1 }
      else none
  | .create x =>
    if 0 < s.taken ∧ isUuid x ∧ (s.node.sessions x).isNone then some { s with
      taken := s.taken - 1
      made := s.made ++ [x]
      node := { s.node with
        sessions := Function.update s.node.sessions x
          (some (newSession s.node.channel x s.node.nodeid)) } }
    else none
  | .register x =>
    if x ∈ s.made then some { s with
      made := s.made.erase x
      registered := s.registered ++ [x]
      node := { s.node with sessionMap := Function.update s.node.sessionMap x true } }
    else none
  | .event x e =>
    if (s.node.sessions x).isSome then some { s with node := (e.run C x s.node).state } else none
  | .clean =>
    match s.node.cleanSession with
    | [] => none
    | sid :: rest => some { s with node := { s.node with
        cleanSession := rest
        sessionMap := Function.update s.node.sessionMap sid false } }
  | .stop => if s.phase = .serving then some { s with phase := .stopping } else none
  | .closeCh => if s.phase = .stopping then some { s with phase := .chClosed } else none
  | .closeListener => if s.phase = .chClosed then some { s with phase := .unlistened } else none
  | .snapshot slist =>
    if s.phase = .unlistened ∧ slist.Perm (s.registered.filter s.node.sessionMap) then
      some { s with phase := .closing slist }
    else none
  | .closeNext env =>
    match s.phase with
    | .closing (x :: slist) =>
      match closeSession C x env s.node with
      | .done _ node => some { s with node := node, phase := .closing slist }
      | .panic node => some { s with node := node, crashed := true }
    | _ => none
  | .wgWait => if s.phase = .closing [] then some { s with phase := .waited } else none
  | .dbClose => if s.phase = .waited then some { s with phase := .finished } else none

/-- Nothing is on the way when `Wait` goes on: no connection is accepted or upgraded after the
channel is closed, none is about to be sent when it is closed, and none is waiting or being dispatched
when the sessions are taken. -/
def Calm (s : Server) : Action → Prop
  | .accept .tcp | .accept .tls | .upgrade true => s.phase.acceptChClosed = false
  | .closeCh => s.inHand = []
  | .snapshot _ => s.acceptCh = [] ∧ s.taken = 0 ∧ s.made = []
  | .accept .ws | .upgrade false | .send _ | .take | .create _ | .register _ | .event _ _ | .clean | .stop
  | .closeListener | .closeNext _ | .wgWait | .dbClose => True

instance (s : Server) : (a : Action) → Decidable (Calm s a)
  | .accept .tcp | .accept .tls | .upgrade true => inferInstanceAs (Decidable (_ = false))
  | .closeCh => inferInstanceAs (Decidable (s.inHand = []))
  | .snapshot _ => inferInstanceAs (Decidable (_ ∧ _ ∧ _))
  | .accept .ws | .upgrade false | .send _ | .take | .create _ | .register _ | .event _ _ | .clean | .stop
  | .closeListener | .closeNext _ | .wgWait | .dbClose => isTrue trivial

/-! ## The sessions of the node -/

def Closed (x : Bytes) (n : Node) : Prop := ∃ sess, n.sessions x = some sess ∧ sess.status.status = .close

/-- Each session is sound and has its own sid, and only closed ones are to be cleaned. -/
structure Orderly (n : Node) : Prop where
  sound : ∀ x sess, n.sessions x = some sess → sess.Sound ∧ sess.status.sid = x
  cleaned : ∀ sid ∈ n.cleanSession, Closed sid n

structure Later (n n' : Node) : Prop where
  orderly : Orderly n → Orderly n'
  closed : ∀ y, Closed y n → Closed y n'
  exist : ∀ y, (n.sessions y).isSome → (n'.sessions y).isSome
  sessionMap : n'.sessionMap = n.sessionMap

theorem Later.refl (n : Node) : Later n n := ⟨id, fun _ h => h, fun _ h => h, rfl⟩

theorem Later.trans {n m n' : Node} (h : Later n m) (h' : Later m n') : Later n n' where
  orderly hn := h'.orderly (h.orderly hn)
  closed y hy := h'.closed y (h.closed y hy)
  exist y hy := h'.exist y (h.exist y hy)
  sessionMap := h'.sessionMap.trans h.sessionMap

section Moves

variable {C} {x : Bytes} {n n' : Node}

theorem beside_of_move (h : Move C x n n') : Beside x n n' := by
  cases h with
  | work s s' _ _ hBeside _ => exact hBeside
  | login s s' _ _ hBeside _ => exact hBeside
  | close s hs hShuts =>
    obtain ⟨order, _, _, rfl⟩ := hShuts.stored
    exact ⟨fun y hy => Function.update_of_ne hy .., rfl⟩

theorem closed_of_move (h : Move C x n n') {y : Bytes} (hClosed : Closed y n) : Closed y n' := by
  obtain ⟨sess, hSess, hClose⟩ := hClosed
  rcases eq_or_ne y x with rfl | hne
  · cases h with
    | work s s' hs hs' _ hWorks =>
      cases hSess.symm.trans hs
      exact ⟨s', hs', hWorks.status ▸ hClose⟩
    | login s s' hs hs' _ hLogs =>
      cases hSess.symm.trans hs
      rw [hLogs.conn] at hClose
      cases hClose
    | close s hs hShuts =>
      cases hSess.symm.trans hs
      exact absurd hClose hShuts.isOpen
  · exact ⟨sess, ((beside_of_move h).others y hne).trans hSess, hClose⟩

/-- The session that moves keeps its sid, and its sid is sent only as it closes. -/
theorem sid_of_move (h : Move C x n n') : ∃ s s', n.sessions x = some s ∧ n'.sessions x = some s' ∧
    s'.status.sid = s.status.sid ∧ (n'.cleanSession = n.cleanSession ∨
      n'.cleanSession = n.cleanSession ++ [s.status.sid] ∧ s'.status.status = .close) := by
  cases h with
  | work s s' hs hs' _ hWorks => exact ⟨s, s', hs, hs', by rw [hWorks.status], .inl hWorks.cleanSession⟩
  | login s s' hs hs' _ hLogs => exact ⟨s, s', hs, hs', hLogs.sid, .inl hLogs.cleanSession⟩
  | close s hs hShuts =>
    obtain ⟨order, _, _, rfl⟩ := hShuts.stored
    exact ⟨s, _, hs, closed_self n x s, rfl, .inr ⟨rfl, rfl⟩⟩

theorem later_of_move (h : Move C x n n') : Later n n' := by
  have hBeside := beside_of_move h
  obtain ⟨s, s', hs, hs', hSid, hClean⟩ := sid_of_move h
  refine ⟨fun hn => ⟨?_, ?_⟩, fun y => closed_of_move h, ?_, hBeside.sessionMap⟩
  · intro y sess hSess
    rcases eq_or_ne y x with rfl | hne
    · obtain ⟨hSound, hName⟩ := hn.sound y s hs
      obtain ⟨sess', hSess', hSound'⟩ := h.sound ⟨s, hs, hSound⟩
      cases hSess.symm.trans hSess'
      cases hSess.symm.trans hs'
      exact ⟨hSound', hSid.trans hName⟩
    · exact hn.sound y sess ((hBeside.others y hne).symm.trans hSess)
  · intro sid hMem
    rcases hClean with hSame | ⟨hSent, hClose⟩
    · exact closed_of_move h (hn.cleaned sid (hSame ▸ hMem))
    · rw [hSent, List.mem_append, List.mem_singleton, (hn.sound x s hs).2] at hMem
      rcases hMem with hOld | rfl
      · exact closed_of_move h (hn.cleaned sid hOld)
      · exact ⟨s', hs', hClose⟩
  · intro y hy
    rcases eq_or_ne y x with rfl | hne
    · rw [hs']
      rfl
    · rw [hBeside.others y hne]
      exact hy

theorem later_of_moves (h : ReflTransGen (Move C x) n n') : Later n n' := by
  induction h with
  | refl => exact Later.refl n
  | tail _ hMove ih => exact ih.trans (later_of_move hMove)

theorem later_event (hn : Orderly n) (hSome : (n.sessions x).isSome) (e : Event) :
    Later n (e.run C x n).state := by
  obtain ⟨sess, hSess⟩ := Option.isSome_iff_exists.mp hSome
  exact later_of_moves (moves_event C x e n ⟨sess, hSess, (hn.sound x sess hSess).1⟩)

theorem closeSession_closes (hn : Orderly n) (hSome : (n.sessions x).isSome) (env : Env) :
    ∃ n', closeSession C x env n = .done () n' ∧ Later n n' ∧ Closed x n' := by
  obtain ⟨sess, hSess⟩ := Option.isSome_iff_exists.mp hSome
  have hSound := (hn.sound x sess hSess).1
  have hLater : Later n (closeSession C x env n).state := later_event hn hSome (.close env)
  by_cases hClose : sess.status.status = .close
  · exact ⟨n, closeSession_of_close C hSess hClose env, Later.refl n, sess, hSess, hClose⟩
  · have hDone := closeSession_eq (C := C) hSess hSound hClose env
    rw [hDone] at hLater
    exact ⟨_, hDone, hLater, _, closed_self n x sess, rfl⟩

end Moves

theorem later_create {n : Node} {x : Bytes} (hNew : n.sessions x = none) (channel nodeid : Bytes) :
    Later n { n with
      sessions := Function.update n.sessions x (some (newSession channel x nodeid)) } := by
  have hOld : ∀ y sess, n.sessions y = some sess →
      Function.update n.sessions x (some (newSession channel x nodeid)) y = some sess := by
    rintro y sess hSess
    have hne : y ≠ x := by
      rintro rfl
      cases hNew.symm.trans hSess
    rw [Function.update_of_ne hne, hSess]
  have hClosed : ∀ y, Closed y n → Closed y { n with
      sessions := Function.update n.sessions x (some (newSession channel x nodeid)) } := by
    rintro y ⟨sess, hSess, hClose⟩
    exact ⟨sess, hOld y sess hSess, hClose⟩
  refine ⟨fun hn => ⟨?_, fun sid hSid => hClosed sid (hn.cleaned sid hSid)⟩, hClosed, ?_, rfl⟩
  · intro y sess hSess
    rcases eq_or_ne y x with rfl | hne
    · simp only [Function.update_self, Option.some.injEq] at hSess
      cases hSess
      exact ⟨sound_newSession channel y nodeid, rfl⟩
    · simp only [Function.update_of_ne hne] at hSess
      exact hn.sound y sess hSess
  · intro y hy
    obtain ⟨sess, hSess⟩ := Option.isSome_iff_exists.mp hy
    simp only [hOld y sess hSess, Option.isSome_some]

/-! ## The invariant -/

/-- What holds while everything stays calm: `closing` says that `Wait` still knows of every
session that is open. -/
structure Inv (s : Server) : Prop where
  panicked : s.panicked = false
  sent : s.phase.acceptChClosed = true → s.inHand = []
  idle : s.phase.remaining.isSome → s.acceptCh = [] ∧ s.taken = 0 ∧ s.made = []
  orderly : Orderly s.node
  made : ∀ x ∈ s.made, (s.node.sessions x).isSome
  registered : ∀ x ∈ s.registered, (s.node.sessions x).isSome
  mapped : ∀ x ∈ s.registered, s.node.sessionMap x = true ∨ Closed x s.node
  known : ∀ slist, s.phase.remaining = some slist → ∀ x ∈ slist, x ∈ s.registered
  closing : ∀ slist, s.phase.remaining = some slist → ∀ x ∈ s.registered, Closed x s.node ∨ x ∈ slist

theorem inv_start (nodeid channel : Bytes) (db : Database) : Inv (start nodeid channel db) where
  panicked := rfl
  sent _ := rfl
  idle _ := ⟨rfl, rfl, rfl⟩
  orderly := ⟨fun x sess h => (by cases h), fun sid h => (by cases h)⟩
  made x h := by cases h
  registered x h := by cases h
  mapped x h := by cases h
  known slist h := by cases h
  closing slist h := by cases h

section Step

variable {C accepters capacity} {s t : Server}

theorem Inv.later (h : Inv s) {n' : Node} (hLater : Later s.node n') : Inv { s with node := n' } :=
  { h with
    orderly := hLater.orderly h.orderly
    made := fun x hx => hLater.exist x (h.made x hx)
    registered := fun x hx => hLater.exist x (h.registered x hx)
    mapped := fun x hx =>
      (h.mapped x hx).imp (fun hMap => (congrFun hLater.sessionMap x).trans hMap) (hLater.closed x)
    closing := fun slist hSlist x hx => (h.closing slist hSlist x hx).imp_left (hLater.closed x) }

/-- Connections move before `Wait` knows the sessions to close. -/
theorem Inv.pipeline (h : Inv s) (handshakes : Nat) (inHand acceptCh : List Kind) (taken : Nat)
    (hSent : s.phase.acceptChClosed = true → inHand = []) (hNone : s.phase.remaining = none) :
    Inv { s with handshakes := handshakes, inHand := inHand, acceptCh := acceptCh, taken := taken } := by
  refine { h with sent := hSent, idle := ?_ }
  intro hSome
  rw [hNone] at hSome
  cases hSome

theorem remaining_of_open {p : Phase} (h : p.acceptChClosed = false) : p.remaining = none := by
  cases p with
  | serving => rfl
  | stopping => rfl
  | chClosed => cases h
  | unlistened => cases h
  | closing slist => cases h
  | waited => cases h
  | finished => cases h

theorem Inv.accepting (h : Inv s) (hOpen : s.phase.acceptChClosed = false) (handshakes : Nat)
    (inHand acceptCh : List Kind) :
    Inv { s with handshakes := handshakes, inHand := inHand, acceptCh := acceptCh } := by
  refine h.pipeline handshakes inHand acceptCh s.taken ?_ (remaining_of_open hOpen)
  intro hClosed
  exact absurd (hOpen.symm.trans hClosed) Bool.false_ne_true

/-- What is on the way moves on only while `Wait` does not know the sessions to close. -/
theorem Inv.waiting (h : Inv s) (hBusy : ¬(s.acceptCh = [] ∧ s.taken = 0 ∧ s.made = [])) :
    s.phase.remaining = none := by
  cases hSome : s.phase.remaining with
  | none => rfl
  | some slist => exact absurd (h.idle (by rw [hSome]; rfl)) hBusy

theorem Inv.phase (h : Inv s) {p : Phase} (hSent : p.acceptChClosed = true → s.inHand = [])
    (hIdle : p.remaining.isSome → s.acceptCh = [] ∧ s.taken = 0 ∧ s.made = [])
    (hKnown : ∀ slist, p.remaining = some slist → ∀ x ∈ slist, x ∈ s.registered)
    (hClosing : ∀ slist, p.remaining = some slist → ∀ x ∈ s.registered, Closed x s.node ∨ x ∈ slist) :
    Inv { s with phase := p } :=
  { h with sent := hSent, idle := hIdle, known := hKnown, closing := hClosing }

theorem Inv.early (h : Inv s) {p : Phase} (hSent : p.acceptChClosed = true → s.inHand = [])
    (hNone : p.remaining = none) : Inv { s with phase := p } := by
  refine h.phase hSent ?_ ?_ ?_
  · intro hSome
    rw [hNone] at hSome
    cases hSome
  · intro slist hSlist
    rw [hNone] at hSlist
    cases hSlist
  · intro slist hSlist
    rw [hNone] at hSlist
    cases hSlist

theorem Inv.same (h : Inv s) {p : Phase} (hSame : p.remaining = s.phase.remaining)
    (hClosed : s.phase.acceptChClosed = true) : Inv { s with phase := p } := by
  refine h.phase (fun _ => h.sent hClosed) ?_ ?_ ?_
  · rw [hSame]
    exact h.idle
  · rw [hSame]
    exact h.known
  · rw [hSame]
    exact h.closing

theorem Inv.clean (h : Inv s) {sid : Bytes} {rest : List Bytes} (hClean : s.node.cleanSession = sid :: rest) :
    Inv { s with node := { s.node with
      cleanSession := rest
      sessionMap := Function.update s.node.sessionMap sid false } } := by
  have hOrderly := h.orderly
  refine { h with orderly := { hOrderly with cleaned := ?_ }, mapped := ?_ }
  · intro sid' hSid'
    exact hOrderly.cleaned sid' (hClean ▸ List.mem_cons_of_mem sid hSid')
  · intro x hx
    rcases eq_or_ne x sid with rfl | hne
    · exact .inr (hOrderly.cleaned x (hClean ▸ List.mem_cons_self))
    · simp only [Function.update_of_ne hne]
      exact h.mapped x hx

/-- A session is registered, so `Wait` does not know the sessions to close yet. -/
theorem Inv.register (h : Inv s) {x : Bytes} (hx : x ∈ s.made) :
    Inv { s with
      made := s.made.erase x
      registered := s.registered ++ [x]
      node := { s.node with sessionMap := Function.update s.node.sessionMap x true } } := by
  have hNone : s.phase.remaining = none := by
    apply h.waiting
    rintro ⟨_, _, hMade⟩
    rw [hMade] at hx
    cases hx
  have hOrderly := h.orderly
  refine { h with
    orderly := { hOrderly with }
    made := fun y hy => h.made y (List.mem_of_mem_erase hy)
    idle := ?_, registered := ?_, mapped := ?_, known := ?_, closing := ?_ }
  · intro hSome
    rw [hNone] at hSome
    cases hSome
  · intro y hy
    rcases List.mem_append.mp hy with hOld | hNew
    · exact h.registered y hOld
    · rw [List.mem_singleton.mp hNew]
      exact h.made x hx
  · intro y hy
    rcases eq_or_ne y x with rfl | hne
    · exact .inl (Function.update_self ..)
    · simp only [Function.update_of_ne hne]
      refine h.mapped y ((List.mem_append.mp hy).resolve_right fun hNew => ?_)
      exact hne (List.mem_singleton.mp hNew)
  · intro slist hSlist
    rw [hNone] at hSlist
    cases hSlist
  · intro slist hSlist
    rw [hNone] at hSlist
    cases hSlist

theorem Inv.create (h : Inv s) {x : Bytes} (hTaken : 0 < s.taken) (hNew : s.node.sessions x = none) :
    Inv { s with
      taken := s.taken - 1
      made := s.made ++ [x]
      node := { s.node with
        sessions := Function.update s.node.sessions x
          (some (newSession s.node.channel x s.node.nodeid)) } } := by
  have hNone : s.phase.remaining = none := by
    apply h.waiting
    rintro ⟨_, hZero, _⟩
    exact Nat.ne_of_gt hTaken hZero
  have hInv := (h.later (later_create hNew s.node.channel s.node.nodeid)).pipeline s.handshakes s.inHand
    s.acceptCh (s.taken - 1) h.sent hNone
  refine { hInv with idle := ?_, made := ?_ }
  · intro hSome
    rw [hNone] at hSome
    cases hSome
  · intro y hy
    rcases List.mem_append.mp hy with hOld | hFresh
    · exact hInv.made y hOld
    · cases List.mem_singleton.mp hFresh
      simp only [Function.update_self, Option.isSome_some]

theorem Inv.snapshot (h : Inv s) {slist : List Bytes} (hPhase : s.phase = .unlistened)
    (hPerm : slist.Perm (s.registered.filter s.node.sessionMap))
    (hIdle : s.acceptCh = [] ∧ s.taken = 0 ∧ s.made = []) :
    Inv { s with phase := .closing slist } := by
  refine h.phase (fun _ => h.sent (by rw [hPhase]; rfl)) (fun _ => hIdle) ?_ ?_
  · rintro _ hSlist x hx
    cases hSlist
    exact (List.mem_filter.mp (hPerm.mem_iff.mp hx)).1
  · rintro _ hSlist x hx
    cases hSlist
    -- a registered session that is not in the map any more was closed before
    rcases h.mapped x hx with hMap | hClosed
    · exact .inr (hPerm.mem_iff.mpr (List.mem_filter.mpr ⟨hx, hMap⟩))
    · exact .inl hClosed

theorem Inv.closeNext (h : Inv s) {x : Bytes} {slist : List Bytes} (hPhase : s.phase = .closing (x :: slist))
    {n' : Node} (hLater : Later s.node n') (hClosed : Closed x n') :
    Inv { s with node := n', phase := .closing slist } := by
  have hSome : s.phase.remaining = some (x :: slist) := by rw [hPhase]; rfl
  refine (h.later hLater).phase (fun _ => h.sent (by rw [hPhase]; rfl)) (fun _ => h.idle (by rw [hSome]; rfl))
    ?_ ?_
  · rintro _ hSlist y hy
    cases hSlist
    exact h.known _ hSome y (List.mem_cons_of_mem x hy)
  · rintro _ hSlist y hy
    cases hSlist
    rcases h.closing _ hSome y hy with hOld | hKnown
    · exact .inl (hLater.closed y hOld)
    · rcases List.mem_cons.mp hKnown with rfl | hRest
      · exact .inl hClosed
      · exact .inr hRest

theorem inv_step {a : Action} (h : Inv s) (hCalm : Calm s a)
    (hStep : step C accepters capacity s a = some t) : Inv t := by
  obtain ⟨_, hStep⟩ := Option.ite_none_left_eq_some.mp hStep
  cases a with
  | accept kind =>
    cases kind with
    | ws =>
      obtain ⟨_, hEq⟩ := Option.ite_none_right_eq_some.mp hStep
      cases hEq
      exact { h with }
    | tcp =>
      obtain ⟨_, hEq⟩ := Option.ite_none_right_eq_some.mp hStep
      cases hEq
      exact h.accepting hCalm s.handshakes _ s.acceptCh
    | tls =>
      obtain ⟨_, hEq⟩ := Option.ite_none_right_eq_some.mp hStep
      cases hEq
      exact h.accepting hCalm s.handshakes _ s.acceptCh
  | upgrade ok =>
    obtain ⟨_, hEq⟩ := Option.ite_none_right_eq_some.mp hStep
    cases hEq
    cases ok with
    | true => exact h.accepting hCalm _ _ s.acceptCh
    | false => exact { h with }
  | send kind =>
    obtain ⟨hKind, hSend⟩ := Option.ite_none_left_eq_some.mp hStep
    split at hSend
    · rename_i hClosed
      rw [h.sent hClosed] at hKind
      exact absurd List.not_mem_nil hKind
    · rename_i hOpen
      obtain ⟨_, hEq⟩ := Option.ite_none_right_eq_some.mp hSend
      cases hEq
      exact h.accepting (Bool.eq_false_iff.mpr hOpen) s.handshakes _ _
  | take =>
    simp only at hStep
    split at hStep
    · cases hStep
    · rename_i kind rest hCh
      obtain ⟨_, hEq⟩ := Option.ite_none_right_eq_some.mp hStep
      cases hEq
      apply h.pipeline _ _ _ _ h.sent
      apply h.waiting
      rintro ⟨hEmpty, _, _⟩
      rw [hCh] at hEmpty
      cases hEmpty
  | create x =>
    obtain ⟨⟨hTaken, _, hNew⟩, hEq⟩ := Option.ite_none_right_eq_some.mp hStep
    cases hEq
    exact h.create hTaken (Option.isNone_iff_eq_none.mp hNew)
  | register x =>
    obtain ⟨hMade, hEq⟩ := Option.ite_none_right_eq_some.mp hStep
    cases hEq
    exact h.register hMade
  | event x e =>
    obtain ⟨hSome, hEq⟩ := Option.ite_none_right_eq_some.mp hStep
    cases hEq
    exact h.later (later_event h.orderly hSome e)
  | clean =>
    simp only at hStep
    split at hStep
    · cases hStep
    · rename_i sid rest hClean
      cases hStep
      exact h.clean hClean
  | stop =>
    obtain ⟨_, hEq⟩ := Option.ite_none_right_eq_some.mp hStep
    cases hEq
    exact h.early (fun hClosed => by cases hClosed) rfl
  | closeCh =>
    obtain ⟨_, hEq⟩ := Option.ite_none_right_eq_some.mp hStep
    cases hEq
    exact h.early (fun _ => hCalm) rfl
  | closeListener =>
    obtain ⟨hPhase, hEq⟩ := Option.ite_none_right_eq_some.mp hStep
    cases hEq
    exact h.early (fun _ => h.sent (by rw [hPhase]; rfl)) rfl
  | snapshot slist =>
    obtain ⟨⟨hPhase, hPerm⟩, hEq⟩ := Option.ite_none_right_eq_some.mp hStep
    cases hEq
    exact h.snapshot hPhase hPerm hCalm
  | closeNext env =>
    simp only at hStep
    split at hStep
    · rename_i x slist hPhase
      have hSome : s.phase.remaining = some (x :: slist) := by rw [hPhase]; rfl
      have hExists := h.registered x (h.known _ hSome x List.mem_cons_self)
      obtain ⟨n', hDone, hLater, hClosed⟩ := closeSession_closes (C := C) h.orderly hExists env
      rw [hDone] at hStep
      cases hStep
      exact h.closeNext hPhase hLater hClosed
    · cases hStep
  | wgWait =>
    obtain ⟨hPhase, hEq⟩ := Option.ite_none_right_eq_some.mp hStep
    cases hEq
    exact h.same (by rw [hPhase]; rfl) (by rw [hPhase]; rfl)
  | dbClose =>
    obtain ⟨hPhase, hEq⟩ := Option.ite_none_right_eq_some.mp hStep
    cases hEq
    exact h.same (by rw [hPhase]; rfl) (by rw [hPhase]; rfl)

theorem inv_run {nodeid channel : Bytes} {db : Database} {as : List Action}
    (hCalm : Guarded (step C accepters capacity) Calm (start nodeid channel db) as)
    (hRun : run (step C accepters capacity) (start nodeid channel db) as = some s) : Inv s := by
  refine guarded_induction (P := fun _ s => Inv s) (inv_start nodeid channel db) ?_ hRun hCalm
  intro _ s a t _ _ h hNext hStep
  exact inv_step h hNext hStep

/-- If nothing is on the way when `Wait` goes on, nobody sends on the closed channel, and every
session that was ever registered is closed before the database is. -/
theorem shutdown_graceful {nodeid channel : Bytes} {db : Database} {as : List Action}
    (hCalm : Guarded (step C accepters capacity) Calm (start nodeid channel db) as)
    (hRun : run (step C accepters capacity) (start nodeid channel db) as = some s) :
    s.panicked = false ∧ (s.phase = .finished → ∀ x ∈ s.registered, Closed x s.node) := by
  have h := inv_run hCalm hRun
  refine ⟨h.panicked, fun hPhase x hx => ?_⟩
  have hNone : s.phase.remaining = some [] := by rw [hPhase]; rfl
  exact (h.closing [] hNone x hx).resolve_right List.not_mem_nil

end Step

def acceptQueueSize : Nat := 65536

def acceptWorkerNum : Nat := 100

abbrev nodeStep := step PlainJson.codec acceptWorkerNum acceptQueueSize

def nodeStart : Server := start (text "node01") (text "node01:4281") (Database.start fun _ => none)

def caughtRun : List Action := [.accept .tcp, .stop, .closeCh, .send .tcp]

/-- A connection waits in the channel when the sessions are taken. -/
def missedRun : List Action :=
  [.accept .tcp, .send .tcp, .stop, .closeCh, .closeListener, .snapshot [], .take, .create (text "a"),
    .register (text "a"), .wgWait, .dbClose]

/-- The first run ends in a panic, the second with a session that nobody closes. -/
theorem shutdown_abrupt :
    (∃ s, run nodeStep nodeStart caughtRun = some s ∧ s.panicked = true ∧ s.crashed = true) ∧
    ∃ s, run nodeStep nodeStart missedRun = some s ∧ s.phase = .finished ∧
      s.registered = [text "a"] ∧ (s.node.sessions (text "a")).map (·.status.status) = some .conn :=
  ⟨exists_run (by decide +kernel), exists_run (by decide +kernel)⟩

def calmRun : List Action :=
  [.accept .tcp, .send .tcp, .take, .create (text "a"), .register (text "a"), .stop, .closeCh,
    .closeListener, .snapshot [text "a"], .closeNext (Env.plain true), .wgWait, .dbClose]

theorem shutdown_graceful_calm : ∃ s, run nodeStep nodeStart calmRun = some s ∧
    s.phase = .finished ∧ s.registered = [text "a"] ∧ s.panicked = false ∧ Closed (text "a") s.node := by
  have hCalm : Guarded nodeStep Calm nodeStart calmRun := by decide +kernel
  obtain ⟨s, hRun, hPhase, hRegistered⟩ : ∃ s, run nodeStep nodeStart calmRun = some s ∧
      s.phase = .finished ∧ s.registered = [text "a"] := exists_run (by decide +kernel)
  obtain ⟨hPanicked, hClosed⟩ := shutdown_graceful hCalm hRun
  refine ⟨s, hRun, hPhase, hRegistered, hPanicked, hClosed hPhase (text "a") ?_⟩
  rw [hRegistered]
  exact List.mem_singleton_self _

end Sara.Shutdown
