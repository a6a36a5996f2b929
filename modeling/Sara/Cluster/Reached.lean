import Sara.Cluster.Handshake

/-! # The message reaches the user

When the sender has found the session of the login, the message is on the way there, and
it is the only one on the way. The books that are kept of it say that it is written once
all queues are empty. So the message is received in the end, if sender and login do not
get between each other's two steps.
-/

namespace Sara

open Lib Lib.Prog Lib.Transition Saradb Concurrent

set_option autoImplicit false

namespace Crossing

variable {C : Codec} {k consumers : Nat} {c : Crossing C k} {S S' : Cluster k} {m : Move k}

/-! ## The message is on the way -/

section Routed

variable {ss : SessionStatus}

/-- There is one packet with the text at most. -/
theorem Routed.room (h : c.Routed ss S) (j : Fin k) : (S j).node.router.length < routerQueueSize := by
  have hAll : (S j).node.router.filter c.letter.isOn = (S j).node.router :=
    List.filter_eq_self.mpr (h.only j).router
  have hAhead : (S j).node.router.length ≤ c.letter.balance c.h ss j (S j) := by
    rw [Letter.balance, Letter.ahead, hAll]
    omega
  have hSum : c.letter.balance c.h ss j (S j) ≤ ∑ j, c.letter.balance c.h ss j (S j) :=
    Finset.single_le_sum (f := fun j => c.letter.balance c.h ss j (S j)) (fun _ _ => Nat.zero_le _)
      (Finset.mem_univ j)
  have hCount := h.count
  have hSize : 1 < routerQueueSize := by decide
  omega

/-- What a step of one node may do to the text. -/
structure Passes (l : Letter C) (s t : System) : Prop where
  fixed : Fixed s.node t.node
  only : Only l t

theorem passes_update {l : Letter C} {j : Fin k} {t : System} (hOnly : ∀ j, Only l (S j))
    (h : Passes l (S j) t) (j' : Fin k) : Passes l (S j') (Function.update S j t j') := by
  rcases eq_or_ne j' j with rfl | hne
  · rwa [Function.update_self]
  · rw [Function.update_of_ne hne]
    exact ⟨.refl _, hOnly j'⟩

theorem Routed.passes_login {env : Env} {t : System} (h : c.Routed ss S)
    (hStep : step C consumers (S c.h) (.go c.x env) = some t) : Passes c.letter (S c.h) t := by
  cases stepped_of_step C hStep with
  | go _ _ hBusy =>
    obtain ⟨reply, hPc⟩ := h.login.resolve_left hBusy
    have hOnly := h.only c.h
    rw [hPc, System.session, next_answer]
    exact ⟨.updateSession _ _ fun _ => rfl, hOnly.router, hOnly.hands, hOnly.published⟩

theorem Routed.passes_send {env : Env} {t : System} (h : c.Routed ss S)
    (hStep : step C consumers (S c.i) (.go c.y env) = some t) : Passes c.letter (S c.i) t := by
  have hOnly := h.only c.i
  cases stepped_of_step C hStep with
  | go _ _ hBusy =>
    rcases h.send with hPc | hPc | hPc
    · have hNext : next C c.y env (.acting c.packet (.route ss) []) (S c.i).node = .done (.routing [])
          { (S c.i).node with router := (S c.i).node.router ++
            [{ channel := ss.channel, sid := ss.sid, packet := some c.packet, signal := 0 }] } :=
        congrArg (Outcome.done (Pc.routing [])) (if_pos (h.room c.i))
      rw [hPc, System.session, hNext]
      refine ⟨⟨rfl, rfl, rfl, fun _ => rfl⟩, ?_, hOnly.hands, hOnly.published⟩
      intro it hit
      rcases List.mem_append.mp hit with hOld | hNew
      · exact hOnly.router it hOld
      · cases List.mem_singleton.mp hNew
        exact c.carries
    · rw [hPc]
      exact ⟨.refl _, hOnly.router, hOnly.hands, hOnly.published⟩
    · exact absurd hPc hBusy

theorem Routed.passes_work {j : Fin k} {w : Nat} {env : Env} (h : c.Routed ss S)
    (hBusy : (S j).hands w ≠ .free) (hReaches : ((S j).hands w).reaches env = true) :
    Passes c.letter (S j) ((S j).worker w (work C env ((S j).hands w))) := by
  have hOnly := h.only j
  have hHold := (hOnly.hands w).resolve_left hBusy
  obtain ⟨hand, n, hWork, hWorked⟩ := Letter.work_letter (h.held j) h.seated hHold hReaches
  have hHands : hand = .free ∨ c.letter.holding hand ≠ 0 → ∀ w',
      Function.update (S j).hands w hand w' = .free ∨
        c.letter.holding (Function.update (S j).hands w hand w') ≠ 0 := by
    intro hHand w'
    rcases eq_or_ne w' w with rfl | hne
    · rwa [Function.update_self]
    · rw [Function.update_of_ne hne]
      exact hOnly.hands w'
  rw [System.worker, hWork]
  generalize (S j).hands w = hand₀ at hHold hWorked
  cases hWorked with
  | here it hBound hHere hNode => exact ⟨.refl _, hOnly.router, hHands (.inr hHold), hOnly.published⟩
  | away it p hPacket hIn hBound hNonempty hAway hNode =>
    refine ⟨⟨rfl, rfl, rfl, fun _ => rfl⟩, hOnly.router, hHands (.inl rfl), ?_⟩
    intro e he
    rcases List.mem_append.mp he with hOld | hNew
    · exact hOnly.published e hOld
    · cases List.mem_singleton.mp hNew
      exact hIn
  | decided it p hPacket hIn hBound hNode =>
    refine ⟨.refl _, hOnly.router, hHands (.inr ?_), hOnly.published⟩
    simp [Letter.holding, Hand.packet, hIn]
  | written p hIn hNode hSome =>
    refine ⟨?_, hOnly.router, hHands (.inl rfl), hOnly.published⟩
    have hBuffer := Fixed.updateSession (S j).node ss.sid (f := Session.buffer p) fun _ => rfl
    exact hBuffer.trans (.updateSession _ ss.sid (f := Session.relay p) fun _ => rfl)

theorem Only.take {l : Letter C} {s : System} {w : Nat} {it : RouterItem} {rest : List RouterItem}
    (hOnly : Only l s) (hRouter : s.node.router = it :: rest) :
    Passes l s { s with
      node := { s.node with router := rest }
      hands := Function.update s.hands w (.item it) } := by
  have hItems := hOnly.router
  rw [hRouter] at hItems
  refine ⟨⟨rfl, rfl, rfl, fun _ => rfl⟩, fun it' hit => hItems it' (List.mem_cons_of_mem it hit), ?_,
    hOnly.published⟩
  intro w'
  rcases eq_or_ne w' w with rfl | hne
  · have hOn : it.packet.any l.isIn = true := hItems it List.mem_cons_self
    simp [Letter.holding, Hand.packet, hOn]
  · simp only [Function.update_of_ne hne]
    exact hOnly.hands w'

/-- The moves that keep the message on its way. -/
theorem Routed.passes (h : c.Routed ss S) (hConcerns : c.concerns m = true) (hTimely : c.Timely S m)
    (hOpen : ∀ j z env, m ≠ .within j (.close z env)) (hStores : stores m = false)
    (hMove : move C consumers S m = some S') (j : Fin k) : Passes c.letter (S j) (S' j) := by
  cases moved_of_move hMove with
  | within i a t hStep =>
    refine passes_update h.only ?_ j
    cases stepped_of_step C hStep with
    | connect | register | clean | recv => cases hConcerns
    | go z env hBusy =>
      rcases Bool.or_eq_true_iff.mp hConcerns with hLogin | hSend
      · obtain ⟨rfl, rfl⟩ : i = c.h ∧ z = c.x := by simpa using hLogin
        exact h.passes_login hStep
      · obtain ⟨rfl, rfl⟩ : i = c.i ∧ z = c.y := by simpa using hSend
        exact h.passes_send hStep
    | close z env => exact absurd rfl (hOpen i z env)
    | take w it rest hRouter => exact (h.only i).take hRouter
    | work w env hBusy => exact h.passes_work hBusy hTimely
    | dtake | dexec => cases hStores
  | deliver i i' w env e hMessage hChannel sent hSent =>
    have hIn := (h.only i).published e (List.mem_of_getElem? hMessage)
    have hJson : e.2.toJson C = c.letter.raw := by
      rw [Packet.toJson, show e.2.raw = some c.letter.raw from of_decide_eq_true hIn]
    have hFirst : ∀ j, Passes c.letter (S j) (sent j) ∧ (sent j).node.router = (S j).node.router := by
      intro j
      rw [hSent]
      rcases eq_or_ne j i with rfl | hne
      · have hOnly := h.only j
        rw [Function.update_self]
        refine ⟨⟨⟨rfl, rfl, rfl, fun _ => rfl⟩, hOnly.router, hOnly.hands, ?_⟩, rfl⟩
        exact fun e he => hOnly.published e (List.mem_of_mem_eraseIdx he)
      · rw [Function.update_of_ne hne]
        exact ⟨⟨.refl _, h.only j⟩, rfl⟩
    obtain ⟨⟨hFixed, hOnly⟩, hRouter⟩ := hFirst i'
    have hEntry : entry C (sent i').node c.letter.recipient.stringWithoutResource = some ss := by
      rw [entry, Node.get, hFixed.store]
      exact h.seated.entry i'
    have hDone : dataChannelHandler C (e.2.toJson C) env (sent i').node =
        .done () { (sent i').node with router := (sent i').node.router ++
          [{ channel := ss.channel, sid := ss.sid, packet := some c.letter.packet, signal := 0 }] } := by
      rw [hJson]
      exact Letter.dataChannelHandler_raw hEntry (hRouter ▸ h.room i')
    rcases eq_or_ne j i' with rfl | hne
    · rw [Function.update_self, System.handle, hDone]
      refine ⟨hFixed.trans ⟨rfl, rfl, rfl, fun _ => rfl⟩, ?_, hOnly.hands, hOnly.published⟩
      intro it hit
      rcases List.mem_append.mp hit with hOld | hNew
      · exact hOnly.router it hOld
      · cases List.mem_singleton.mp hNew
        exact decide_eq_true (newPacket_raw c.letter.read)
    · rw [Function.update_of_ne hne]
      exact (hFirst j).1

theorem Routed.conveys (h : c.Routed ss S) (hTimely : c.Timely S m) : Letter.Conveys C S m := by
  cases m with
  | within j a =>
    cases a with
    | go z env => exact fun _ => h.room j
    | work w env => exact hTimely
    | connect | register | clean | recv | close | take | dtake | dexec => trivial
  | deliver i j w env =>
    refine ⟨h.room j, ?_⟩
    intro e he hRaw
    have hIn : e.2.raw = some c.letter.raw :=
      of_decide_eq_true ((h.only i).published e (List.mem_of_getElem? he))
    cases hRaw.symm.trans hIn

theorem Routed.of_books (h : c.Routed ss S)
    (hBooks : c.letter.Books c.h ss (c.letter.events S m) S S')
    (hPasses : ∀ j, Passes c.letter (S j) (S' j))
    (hLogin : (S' c.h).pc c.x = .idle ∨ ∃ reply, (S' c.h).pc c.x = .storing [] reply)
    (hSend : (S' c.i).pc c.y = .acting c.packet (.route ss) [] ∨ (S' c.i).pc c.y = .routing [] ∨
      (S' c.i).pc c.y = .idle)
    (hAccepted : (c.letter.events S m).count .accepted +
      (if Letter.routes ((S' c.i).pc c.y) then 1 else 0) = if Letter.routes ((S c.i).pc c.y) then 1 else 0)
    (hReflected : (c.letter.events S m).count (.reflected c.h ss.sid) = 0) : c.Routed ss S' where
  seated := seated_of_fixed h.seated fun j => (hPasses j).fixed
  sid := h.sid
  held := hBooks.held
  only j := (hPasses j).only
  login := hLogin
  send := hSend
  count := by
    have hOld := h.count
    have hNew := hBooks.balance
    omega

theorem Routed.login_pc (h : c.Routed ss S) (hMeet : c.meet consumers S m = some S') :
    (S' c.h).pc c.x = .idle ∨ ∃ reply, (S' c.h).pc c.x = .storing [] reply := by
  rcases pc_meet hMeet c.h c.x with hSame | ⟨env, rfl, hIdle | ⟨n, hNext⟩⟩
  · rw [hSame]
    exact h.login
  · exact .inl hIdle
  · obtain ⟨reply, hPc⟩ := h.login.resolve_left (busy_of_meet hMeet)
    rw [hPc] at hNext
    exact .inl (next_done hNext)

theorem Routed.events_other (h : c.Routed ss S) (hConcerns : c.concerns m = true)
    (hOther : ∀ env, m ≠ .within c.i (.go c.y env)) :
    c.letter.events S m = [] ∨ c.letter.events S m = [.crossed] := by
  cases m with
  | within j a =>
    cases a with
    | go z env =>
      rcases Bool.or_eq_true_iff.mp hConcerns with hLogin | hSend
      · obtain ⟨rfl, rfl⟩ : j = c.h ∧ z = c.x := by simpa using hLogin
        rcases h.login with hPc | ⟨reply, hPc⟩
        · simp only [Letter.events, hPc]
          exact .inl rfl
        · simp only [Letter.events, hPc]
          exact .inl rfl
      · obtain ⟨rfl, rfl⟩ : j = c.i ∧ z = c.y := by simpa using hSend
        exact absurd rfl (hOther env)
    | work w env =>
      simp only [Letter.events]
      cases (S j).hands w with
      | item it =>
        simp only [Letter.onWork]
        split
        · exact .inr rfl
        · exact .inl rfl
      | free | found | acting => exact .inl rfl
    | connect | register | clean | recv | close | take | dtake | dexec => exact .inl rfl
  | deliver => exact .inl rfl

/-- The packet is accepted when the sender puts it into the router. -/
theorem Routed.send_pc (h : c.Routed ss S) (hMeet : c.meet consumers S m = some S') :
    ((S' c.i).pc c.y = .acting c.packet (.route ss) [] ∨ (S' c.i).pc c.y = .routing [] ∨
      (S' c.i).pc c.y = .idle) ∧
    (c.letter.events S m).count .accepted + (if Letter.routes ((S' c.i).pc c.y) then 1 else 0) =
      (if Letter.routes ((S c.i).pc c.y) then 1 else 0) ∧
    (c.letter.events S m).count (.reflected c.h ss.sid) = 0 := by
  by_cases hSender : ∃ env, m = .within c.i (.go c.y env)
  · obtain ⟨env, rfl⟩ := hSender
    rcases h.send with hPc | hPc | hPc
    · have hNext : next C c.y env (.acting c.packet (.route ss) []) (S c.i).node = .done (.routing [])
          ((S c.i).node.route
            { channel := ss.channel, sid := ss.sid, packet := some c.packet, signal := 0 }) := rfl
      rw [← hPc] at hNext
      have hDone := went_of_meet hMeet hNext
      have hEvents : c.letter.events S (.within c.i (.go c.y env)) = [.accepted] := by
        simp only [Letter.events, hPc, Letter.onGo, c.carries, if_true, Letter.onDecision]
      rw [hEvents, hDone.pc, hPc]
      exact ⟨.inr (.inl rfl), rfl, rfl⟩
    · have hNext : next C c.y env (.routing []) (S c.i).node = .done .idle (S c.i).node := rfl
      rw [← hPc] at hNext
      have hDone := went_of_meet hMeet hNext
      have hEvents : c.letter.events S (.within c.i (.go c.y env)) = [] := by
        simp only [Letter.events, hPc, Letter.onGo]
      rw [hEvents, hDone.pc, hPc]
      exact ⟨.inr (.inr rfl), rfl, rfl⟩
    · exact absurd hPc (busy_of_meet hMeet)
  · have hSame : (S' c.i).pc c.y = (S c.i).pc c.y := by
      rcases pc_meet hMeet c.i c.y with hSame | ⟨env, rfl, _⟩
      · exact hSame
      · exact absurd ⟨env, rfl⟩ hSender
    rw [hSame]
    rcases h.events_other (meet_iff.mp hMeet).1 fun env hEq => hSender ⟨env, hEq⟩ with hNone | hCrossed
    · rw [hNone]
      exact ⟨h.send, Nat.zero_add _, rfl⟩
    · rw [hCrossed]
      exact ⟨h.send, Nat.zero_add _, rfl⟩

theorem Routed.dbOnly (h : c.Routed ss S) (hDb : DbOnly c S S') : c.Routed ss S' := by
  obtain ⟨db, hSame⟩ := hDb.same c.h
  obtain ⟨db', hSender⟩ := hDb.same c.i
  have hBalance : ∀ j, c.letter.balance c.h ss j (S' j) = c.letter.balance c.h ss j (S j) := by
    intro j
    obtain ⟨db, hj⟩ := hDb.same j
    rw [hj]
    rfl
  refine ⟨⟨?_, h.seated.nonempty, ?_, ?_, ?_⟩, h.sid, ?_, ?_, ?_, ?_, ?_⟩
  · intro j
    rw [← get_toSessionid rfl (S' j).node, hDb.entry (entered_of h.login) j,
      get_toSessionid rfl (S j).node]
    exact h.seated.entry j
  · intro j
    obtain ⟨db, hj⟩ := hDb.same j
    rw [hj]
    exact h.seated.channel j
  · rw [hSame]
    exact h.seated.registered
  · rw [hSame]
    exact h.seated.session
  · intro j
    obtain ⟨db, hj⟩ := hDb.same j
    obtain ⟨hPcs, hRouter, hHands, hSpare, hPublished⟩ := h.held j
    rw [hj]
    exact ⟨hPcs, hRouter, hHands, hSpare, hPublished⟩
  · intro j
    obtain ⟨db, hj⟩ := hDb.same j
    rw [hj]
    exact ⟨(h.only j).router, (h.only j).hands, (h.only j).published⟩
  · rw [hSame]
    exact h.login
  · rw [hSender]
    exact h.send
  · rw [Finset.sum_congr rfl fun j _ => hBalance j, hSender]
    exact h.count

theorem Routed.meet (h : c.Routed ss S) (hPlaced : c.Placed S) (hTimely : c.Timely S m)
    (hMeet : c.meet consumers S m = some S') : c.Routed ss S' ∨ c.Closed S' := by
  obtain ⟨hConcerns, hShared⟩ := meet_iff.mp hMeet
  by_cases hClose : ∃ j z env, m = .within j (.close z env)
  · obtain ⟨j, z, env, rfl⟩ := hClose
    obtain ⟨rfl, rfl⟩ : j = c.h ∧ z = c.x := by simpa [concerns] using hConcerns
    obtain ⟨s, hs, hLogin, hUser⟩ := h.seated.session
    rw [h.sid] at hs
    refine .inr (closed_of_close hs hLogin hUser ?_ hMeet)
    rcases h.login with hPc | ⟨reply, hPc⟩
    · rw [hPc]
      rfl
    · rw [hPc]
      rfl
  by_cases hStores : stores m = true
  · exact .inl (h.dbOnly (dbOnly_of_meet hPlaced hTimely hStores hMeet))
  have hPasses : ∀ T, move C consumers S m = some T → ∀ j, Passes c.letter (S j) (T j) := fun T hT =>
    h.passes hConcerns hTimely (fun j z env hEq => hClose ⟨j, z, env, hEq⟩)
      (Bool.eq_false_iff.mpr hStores) hT
  have hMove := move_of_sharedMove hPlaced.shared hShared fun T hT j => (hPasses T hT j).fixed.store
  have hBooks := Letter.books_move h.held h.seated (h.conveys hTimely) hMove
  obtain ⟨hSend, hAccepted, hReflected⟩ := h.send_pc hMeet
  exact .inl (h.of_books hBooks (hPasses S' hMove) (h.login_pc hMeet) hSend hAccepted hReflected)

end Routed

/-! ## The whole run -/

theorem Ready.waiting (h : c.Ready S) : c.Waiting S where
  calm := h.calm
  send := h.send
  sender := h.sender
  unwritten := by
    rw [Letter.writes, h.session]
    rfl
  login := by
    obtain ⟨packet, hPc, hUser⟩ := h.login
    exact .inl (.inl ⟨packet, hPc, hUser, h.session⟩)

structure Scene (c : Crossing C k) (channel : Bytes) (S : Cluster k) : Prop where
  placed : c.Placed S
  channel : (S c.h).node.channel = channel
  stage : c.Waiting S ∨ c.Kept S ∨ (∃ ss, c.Routed ss S) ∨ c.Closed S

theorem Scene.meet {channel : Bytes} (h : c.Scene channel S)
    (hReads : ∀ st : SessionStatus, st.sid = c.x → st.channel = channel →
      (C.unmarshalStatus (C.marshalStatus st)).sid = st.sid ∧
      (C.unmarshalStatus (C.marshalStatus st)).channel = st.channel)
    (hTimely : c.Timely S m) (hMeet : c.meet consumers S m = some S') : c.Scene channel S' := by
  have hGrows := grows_meet (P := fun _ _ => False) hMeet fun _ _ _ _ _ hFalse => hFalse.elim
  refine ⟨h.placed.meet hMeet, (hGrows c.h).channel.trans h.channel, ?_⟩
  rcases h.stage with hWaiting | hKept | ⟨ss, hRouted⟩ | hClosed
  · exact hWaiting.meet h.placed (h.channel ▸ hReads) hTimely hMeet
  · rcases hKept.meet h.placed hTimely hMeet with hKept' | hClosed
    · exact .inr (.inl hKept')
    · exact .inr (.inr (.inr hClosed))
  · rcases hRouted.meet h.placed hTimely hMeet with hRouted' | hClosed
    · exact .inr (.inr (.inl ⟨ss, hRouted'⟩))
    · exact .inr (.inr (.inr hClosed))
  · exact .inr (.inr (.inr (hClosed.meet hMeet)))

def Received (c : Crossing C k) (s : Session) : Prop :=
  (∃ reply, .answer reply ∈ s.written ∧ c.Holds reply) ∨ ∃ data ∈ s.written, c.letter.isWritten data = true

theorem Routed.received {ss : SessionStatus} {s : Session} (h : c.Routed ss S) (hOver : c.Over S)
    (hs : (S c.h).node.sessions c.x = some s) : c.Received s := by
  have hCount := h.count
  rw [hOver.send] at hCount
  have hSum : ∑ j, c.letter.balance c.h ss j (S j) = c.letter.writes (S c.h).node ss.sid := by
    rw [← Letter.sum_seat c.letter c.h ss S]
    exact Finset.sum_congr rfl fun j _ => Letter.balance_of_drained hOver.drained c.letter c.h ss j
  rw [hSum, h.sid, Letter.writes, hs] at hCount
  have hPos : 0 < s.written.countP c.letter.isWritten := by
    have hOne : s.written.countP c.letter.isWritten + 0 = 1 := hCount
    omega
  exact .inr (List.countP_pos_iff.mp hPos)

theorem Scene.received {channel : Bytes} {s : Session} (h : c.Scene channel S) (hOver : c.Over S)
    (hs : (S c.h).node.sessions c.x = some s) (hLogin : s.status.status = .login) : c.Received s := by
  rcases h.stage with hWaiting | hKept | ⟨ss, hRouted⟩ | ⟨_, s', hs', hClose⟩
  · cases hWaiting.send.symm.trans hOver.send
  · rcases hKept.login with (⟨packet, hPc, _⟩ | ⟨packet, st, hPc, _⟩) |
      ⟨st, reply, _, hHolds, hPc | ⟨ds, hPc⟩ | ⟨hPc, s', hs', hWritten⟩⟩
    on_goal 5 =>
      cases hs.symm.trans hs'
      exact .inl ⟨reply, hWritten, hHolds⟩
    all_goals cases hPc.symm.trans hOver.login
  · exact hRouted.received hOver hs
  · cases hs.symm.trans hs'
    rw [hLogin] at hClose
    cases hClose

end Crossing

/-- If the sender does not look between the fetch and the entry of the login, the login does
not fetch while the message is being stored, and nothing removes the entry, the message
reaches the session. -/
theorem message_reaches_login (C : Codec) (consumers : Nat) {k : Nat} (c : Crossing C k) {S₀ S : Cluster k}
    {moves : List (Move k)} (hReady : c.Ready S₀)
    (hReads : ∀ st : SessionStatus, st.sid = c.x → st.channel = (S₀ c.h).node.channel →
      (C.unmarshalStatus (C.marshalStatus st)).sid = st.sid ∧
      (C.unmarshalStatus (C.marshalStatus st)).channel = st.channel)
    (hRun : run (c.meet consumers) S₀ moves = some S)
    (hTimely : Guarded (c.meet consumers) c.Timely S₀ moves) (hOver : c.Over S) {s : Session}
    (hs : (S c.h).node.sessions c.x = some s) (hLogin : s.status.status = .login) :
    (∃ reply delay, .answer reply ∈ s.written ∧ reply.delay = some delay ∧ c.base ∈ delay.packets) ∨
      ∃ p, .relay p ∈ s.written ∧ p.raw = some c.letter.raw := by
  have hScene : c.Scene (S₀ c.h).node.channel S := by
    refine guarded_induction (P := fun _ S => c.Scene (S₀ c.h).node.channel S)
      ⟨hReady.placed, rfl, .inl hReady.waiting⟩ ?_ hRun hTimely
    intro _ T m U _ _ hScene hGuard hMeet
    exact hScene.meet hReads hGuard hMeet
  rcases hScene.received hOver hs hLogin with ⟨reply, hWritten, delay, hDelay, hBase⟩ | ⟨data, hData, hText⟩
  · exact .inl ⟨reply, delay, hWritten, hDelay, hBase⟩
  · cases data with
    | relay p => exact .inr ⟨p, hData, of_decide_eq_true hText⟩
    | answer p => cases hText
    | signal b => cases hText

/-! ## Alice writes while bob logs in -/

namespace Crossing

instance {C : Codec} {k : Nat} (c : Crossing C k) (S : Cluster k) : (m : Move k) → Decidable (c.Timely S m)
  | .within j (.go z _) =>
    have : Decidable (∃ packet, (S j).pc z = .fetch packet) :=
      match (S j).pc z with
      | .fetch packet => isTrue ⟨packet, rfl⟩
      | .idle | .kill _ _ _ | .auth _ _ | .logon _ | .publish _ | .storing _ _ | .routing _
      | .acting _ _ _ => isFalse fun ⟨_, h⟩ => by cases h
    have : Decidable (indexing ((S j).pc z) = true → IndexHash (S j).node.db.store (S j).node.nodeid) :=
      inferInstance
    inferInstanceAs (Decidable (_ ∧ _))
  | .within j (.dexec ch w) =>
    inferInstanceAs (Decidable (_ → ∀ cmd ∈ ((S j).node.db.held ch)[w]?, _))
  | .within j (.work w env) => inferInstanceAs (Decidable (((S j).hands w).reaches env = true))
  | .within j (.close z _) =>
    match hPc : (S j).pc z with
    | .logon packet => isFalse fun h => h packet hPc
    | .idle | .kill _ _ _ | .auth _ _ | .fetch _ | .publish _ | .storing _ _ | .routing _
    | .acting _ _ _ => isTrue fun packet h => by cases hPc.symm.trans h
  | .within _ (.connect _) | .within _ (.register _) | .within _ .clean | .within _ (.recv _ _)
  | .within _ (.take _) | .within _ (.dtake _) | .deliver _ _ _ _ => isTrue trivial

instance {C : Codec} {k : Nat} (c : Crossing C k) (jid : Bytes) : Decidable (c.IsRecipient jid) :=
  inferInstanceAs (Decidable (∃ j ∈ (newJID jid).toOption, _ = _))

instance {C : Codec} {k : Nat} (c : Crossing C k) (S : Cluster k) : Decidable (c.Sends S) :=
  inferInstanceAs (Decidable (∃ s ∈ (S c.i).node.sessions c.y, s.status.status = .login ∧
    ∃ a ∈ (newJID s.status.jid).toOption, ∃ f ∈ (newJID c.packet.envelope.from_).toOption, _ = _ ∧ _ ≠ _))

def taken {k : Nat} : Move k → Option (Fin k × Nat)
  | .within j (.take w) => some (j, w)
  | _ => none

/-- A worker that takes nothing stays free. -/
theorem free_run {C : Codec} {consumers k : Nat} {c : Crossing C k} {S S' : Cluster k} {moves : List (Move k)}
    (hRun : run (c.meet consumers) S moves = some S') {j : Fin k} {w : Nat} (hFree : (S j).hands w = .free)
    (hOther : (j, w) ∉ moves.filterMap taken) : (S' j).hands w = .free := by
  induction moves generalizing S with
  | nil =>
    cases hRun
    exact hFree
  | cons m moves ih =>
    obtain ⟨T, hMeet, hRest⟩ := run_cons_iff.mp hRun
    have hRestOther : (j, w) ∉ moves.filterMap taken := fun hIn =>
      hOther ((List.sublist_cons_self m moves).filterMap taken |>.subset hIn)
    refine ih hRest ?_ hRestOther
    cases m with
    | within i a =>
      obtain ⟨t, hStep, hSelf, hOthers⟩ := sharedMove_within (meet_iff.mp hMeet).2
      rcases eq_or_ne j i with rfl | hne
      · rw [hSelf]
        apply free_step hStep hFree
        intro hTaken
        cases a with
        | take w' =>
          cases hTaken
          exact hOther List.mem_cons_self
        | connect | register | clean | recv | go | close | work | dtake | dexec => cases hTaken
      · rw [hOthers j hne]
        exact hFree
    | deliver i i' w' env =>
      rw [(sharedMove_deliver (meet_iff.mp hMeet).2 j).2.1]
      exact hFree

def aliceMeetsBob : Crossing PlainJson.codec 2 where
  letter := Letter.aliceToBob
  packet := stamped Letter.aliceToBob.packet (Env.plain true)
  base := { envelope := Letter.aliceToBob.packet.envelope }
  i := 0
  y := text "a1"
  h := 1
  x := text "b2"
  carries := by decide +kernel
  intact _ := rfl
  decoded := by decide +kernel
  apart hNode := by cases hNode

def bobsLogin : Packet :=
  PlainJson.received { id := text "1", jid := text "bob@x", type := msgTypeOpenSession }

/-- Alice is logged in on the first node, and bob's new session on the second one. The first
node has yet to execute what it has queued. -/
def together (queued : List Saradb.Cmd) : Cluster 2 := fun j =>
  if j = 0 then
    { twoNodes [] 0 with
      node := { (twoNodes [] 0).node with
        db := { (twoNodes [] 0).node.db with queue := Function.update (fun _ => []) .session queued } }
      pc := Function.update (fun _ => .idle) (text "a1") (.routing [aliceMeetsBob.packet]) }
  else
    { twoNodes [] 1 with
      node := { (twoNodes [] 1).node with
        sessions := Function.update (twoNodes [] 1).node.sessions (text "b2")
          (some (newSession (text "n2:4281") (text "b2") (text "n2:4281")))
        sessionMap := Function.update (twoNodes [] 1).node.sessionMap (text "b2") true }
      pc := Function.update (fun _ => .idle) (text "b2") (.logon bobsLogin) }

theorem ready_together (queued : List Saradb.Cmd) : aliceMeetsBob.Ready (together queued) := by
  have hAll : ∀ {P : Fin 2 → Prop}, P 0 → P 1 → ∀ j, P j := fun h₀ h₁ j => by
    match j with
    | 0 => exact h₀
    | 1 => exact h₁
  refine ⟨⟨hAll rfl rfl, hAll (fun _ => rfl) (fun _ => rfl), hAll rfl rfl, hAll ?_ ?_⟩,
    ⟨hAll (hAll rfl rfl) (hAll rfl rfl), nofun, hAll ⟨nofun, nofun⟩ ⟨fun _ => rfl, fun _ => rfl⟩, ?_⟩,
    ⟨bobsLogin, rfl, by decide +kernel⟩, rfl, rfl, ?_⟩
  · intro z _ hSend
    change Function.update (fun _ => Pc.idle) aliceMeetsBob.y _ z = _
    exact Function.update_of_ne (hSend rfl) ..
  · intro z hLogin _
    change Function.update (fun _ => Pc.idle) aliceMeetsBob.x _ z = _
    exact Function.update_of_ne (hLogin rfl) ..
  · change Function.update (twoNodes [] 1).node.sessionMap aliceMeetsBob.x true aliceMeetsBob.x = true
    exact Function.update_self ..
  · exact sends_congr (S := twoNodes []) (by decide +kernel) rfl

def bobSteps (n : Nat) : List (Move 2) := List.replicate n (.within 1 (.go (text "b2") (groupEnv [])))

def aliceSteps (n : Nat) : List (Move 2) := List.replicate n (.within 0 (.go (text "a1") (groupEnv [])))

/-- The first worker of each node is free again, and the queues are empty. -/
def Rests (S : Cluster 2) : Prop :=
  (∀ j, (S j).node.router = [] ∧ (S j).node.published = [] ∧ (S j).hands 0 = .free ∧
    (S j).node.db.pending = []) ∧ (S 1).pc (text "b2") = .idle ∧ (S 0).pc (text "a1") = .idle

instance (S : Cluster 2) : Decidable (Rests S) := inferInstanceAs (Decidable (_ ∧ _))

theorem over_of_rests {queued : List Saradb.Cmd} {moves : List (Move 2)} {S : Cluster 2}
    (hRun : run (aliceMeetsBob.meet 20) (together queued) moves = some S)
    (hTaken : ∀ e ∈ moves.filterMap taken, e.2 = 0) (h : Rests S) : aliceMeetsBob.Over S := by
  refine ⟨fun j => ⟨(h.1 j).1, (h.1 j).2.1, ?_⟩, h.2.1, h.2.2⟩
  intro w
  rcases eq_or_ne w 0 with rfl | hne
  · exact (h.1 j).2.2.1
  · exact free_run hRun ((ready_together queued).calm.hands j w) fun hIn => hne (hTaken _ hIn)

/-- Bob's new session is logged in without the message, which is in the index. -/
def LeftBehind (S : Cluster 2) : Prop :=
  (∃ s ∈ (S 1).node.sessions (text "b2"), s.status.status = .login ∧
    s.written = [.answer ((newPacketAuthSuccess (text "1")).addDelay [])]) ∧
  Redis.hget (S 1).node.db.store (offlineIndex aliceMeetsBob.letter.recipient) (text "m1") =
    some aliceMeetsBob.letter.raw

instance (S : Cluster 2) : Decidable (LeftBehind S) := inferInstanceAs (Decidable ((∃ s ∈ _, _) ∧ _))

def storesMessage : List (Move 2) :=
  [.within 0 (.dtake .message), .within 0 (.dtake .message), .within 0 (.dexec .message 0),
    .within 0 (.dexec .message 0)]

/-- Bob's login fetches, alice's session finds nobody and stores, and then bob is entered. -/
def misses : List (Move 2) := bobSteps 2 ++ aliceSteps 3 ++ bobSteps 4 ++ storesMessage

/-- Bob is entered, and the queued removal of an older entry of bob removes the new one. -/
def removes : List (Move 2) :=
  bobSteps 6 ++ [.within 0 (.dtake .session), .within 0 (.dexec .session 0)] ++ aliceSteps 3 ++ storesMessage

theorem message_left_behind :
    (aliceMeetsBob.Ready (together []) ∧
      ∃ S, run (aliceMeetsBob.meet 20) (together []) misses = some S ∧ aliceMeetsBob.Over S ∧
        (∀ j, (S j).node.db.pending = []) ∧ LeftBehind S) ∧
    (aliceMeetsBob.Ready (together [.del (text "session_bob@x")]) ∧
      ∃ S, run (aliceMeetsBob.meet 20) (together [.del (text "session_bob@x")]) removes = some S ∧
        aliceMeetsBob.Over S ∧ (∀ j, (S j).node.db.pending = []) ∧ LeftBehind S) := by
  have hMissed : ∃ S, run (aliceMeetsBob.meet 20) (together []) misses = some S ∧ Rests S ∧ LeftBehind S :=
    exists_run (by decide +kernel)
  have hRemoved : ∃ S, run (aliceMeetsBob.meet 20) (together [.del (text "session_bob@x")]) removes = some S ∧
      Rests S ∧ LeftBehind S := exists_run (by decide +kernel)
  obtain ⟨S, hRun, hRests, hLeft⟩ := hMissed
  obtain ⟨T, hRunT, hRestsT, hLeftT⟩ := hRemoved
  exact ⟨⟨ready_together _, S, hRun, over_of_rests hRun (by decide) hRests, fun j => (hRests.1 j).2.2.2, hLeft⟩,
    ready_together _, T, hRunT, over_of_rests hRunT (by decide) hRestsT, fun j => (hRestsT.1 j).2.2.2, hLeftT⟩

/-- Bob is entered, and then alice's session finds bob on the other node. -/
def arrives : List (Move 2) :=
  bobSteps 5 ++ aliceSteps 3 ++ [.within 0 (.take 0), .within 0 (.work 0 (groupEnv [])),
    .deliver 0 1 0 (groupEnv [])] ++ handsOver [] ++ bobSteps 1

theorem message_reaches_login_bob : ∃ S s, run (aliceMeetsBob.meet 20) (together []) arrives = some S ∧
    (S 1).node.sessions (text "b2") = some s ∧ s.status.status = .login ∧
    ((∃ reply delay, .answer reply ∈ s.written ∧ reply.delay = some delay ∧
        aliceMeetsBob.base ∈ delay.packets) ∨
      ∃ p, .relay p ∈ s.written ∧ p.raw = some aliceMeetsBob.letter.raw) := by
  have hExists : ∃ S, run (aliceMeetsBob.meet 20) (together []) arrives = some S ∧ Rests S ∧
      ∃ s ∈ (S 1).node.sessions (text "b2"), s.status.status = .login := exists_run (by decide +kernel)
  obtain ⟨S, hRun, hRests, s, hs, hLogin⟩ := hExists
  have hReads : ∀ st : SessionStatus, st.sid = text "b2" → st.channel = text "n2:4281" →
      (PlainJson.codec.unmarshalStatus (PlainJson.codec.marshalStatus st)).sid = st.sid ∧
      (PlainJson.codec.unmarshalStatus (PlainJson.codec.marshalStatus st)).channel = st.channel := by
    intro st hSid hChannel
    refine ⟨PlainJson.unmarshalStatus_sid ?_, PlainJson.unmarshalStatus_channel ?_⟩
    · rw [hSid]
      decide
    · rw [hChannel]
      decide
  exact ⟨S, s, hRun, hs, hLogin, message_reaches_login PlainJson.codec 20 aliceMeetsBob (ready_together []) hReads
    hRun (by decide +kernel) (over_of_rests hRun (by decide) hRests) hs hLogin⟩

end Crossing

end Sara
