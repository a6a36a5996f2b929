import Sara.Cluster.Direct
import Sara.Cluster.Shared
import Sara.Core.Offline

/-! # A message to a user who is logging in

A login fetches the offline messages of the user and then enters the user into the
directory. A sender looks the recipient up in the directory and then routes the message
or stores it. If the sender looks after the login has fetched and before it has entered
the user, the message is stored and the reply to the login is without it. In every other
order the reply holds the message, or it is written to the session, unless a command that
was queued for an earlier session of the user removes the new entry.
-/

namespace Sara

open Lib Lib.Prog Lib.Transition Saradb Concurrent

set_option autoImplicit false

/-! ## A login and a message -/

/-- A message of session `y` on node `i`, as the session has it and as it is read when it
is fetched, to the user who logs in on session `x` of node `h`. -/
structure Crossing (C : Codec) (k : Nat) where
  letter : Letter C
  packet : Packet
  base : BasePacket
  i : Fin k
  y : Bytes
  h : Fin k
  x : Bytes
  carries : letter.isIn packet = true
  intact : letter.Intact packet
  decoded : newBasePacket C letter.raw = .ok base
  apart : i = h → y ≠ x

namespace Crossing

section Meeting

variable {C : Codec} {k : Nat} (c : Crossing C k)

/-- The moves that have to do with the two: their goroutines, the routers, the data channels
and the queues of the database, and the end of the new session. -/
def concerns : Move k → Bool
  | .within j (.go z _) => (j = c.h && z = c.x) || (j = c.i && z = c.y)
  | .within j (.close z _) => j = c.h && z = c.x
  | .within _ (.take _) | .within _ (.work _ _) | .within _ (.dtake _) | .within _ (.dexec _ _) => true
  | .within _ (.connect _) | .within _ (.register _) | .within _ .clean | .within _ (.recv _ _) => false
  | .deliver _ _ _ _ => true

def meet (consumers : Nat) (S : Cluster k) (m : Move k) : Option (Cluster k) :=
  if c.concerns m then sharedMove C consumers S m else none

def IsRecipient (jid : Bytes) : Prop :=
  ∃ j ∈ (newJID jid).toOption, j.stringWithoutResource = c.letter.recipient.stringWithoutResource

/-- The session of the sender is logged in, and the message is from its user to another one. -/
def Sends (S : Cluster k) : Prop :=
  ∃ s ∈ (S c.i).node.sessions c.y, s.status.status = .login ∧
    ∃ a ∈ (newJID s.status.jid).toOption, ∃ f ∈ (newJID c.packet.envelope.from_).toOption,
      a.stringWithoutResource = f.stringWithoutResource ∧
      a.stringWithoutResource ≠ c.letter.recipient.stringWithoutResource

/-- Nothing is under way on any node, and only the two goroutines have something to do. -/
structure Calm (S : Cluster k) : Prop where
  router : ∀ j, (S j).node.router = []
  hands : ∀ j w, (S j).hands w = .free
  published : ∀ j, (S j).node.published = []
  idle : ∀ j z, (j = c.h → z ≠ c.x) → (j = c.i → z ≠ c.y) → (S j).pc z = .idle

/-- All nodes use one store and have channels of their own, and the session is registered. -/
structure Placed (S : Cluster k) : Prop where
  shared : ∀ i j, (S i).node.db.store = (S j).node.db.store
  nonempty : (S c.h).node.channel ≠ []
  channel : ∀ j, (S j).node.channel = (S c.h).node.channel ↔ j = c.h
  registered : (S c.h).node.sessionMap c.x = true

/-- The login is let through, and the message is about to be routed. -/
structure Ready (S : Cluster k) : Prop where
  calm : c.Calm S
  placed : c.Placed S
  login : ∃ packet, (S c.h).pc c.x = .logon packet ∧ c.IsRecipient packet.envelope.jid
  session : (S c.h).node.sessions c.x =
    some (newSession (S c.h).node.channel c.x (S c.h).node.nodeid)
  send : (S c.i).pc c.y = .routing [c.packet]
  sender : c.Sends S

/-- The login has yet to fetch the messages. -/
def ahead : Pc → Bool
  | .logon _ | .fetch _ => true
  | _ => false

/-- The login is about to enter the session into the index of its node. -/
def indexing : Pc → Bool
  | .storing [_, _] _ => true
  | _ => false

/-- The login has entered the user into the directory. -/
def entered : Pc → Bool
  | .storing [] _ | .idle => true
  | _ => false

theorem entered_of {pc : Pc} (h : pc = .idle ∨ ∃ reply, pc = .storing [] reply) : entered pc = true := by
  rcases h with rfl | ⟨reply, rfl⟩
  · rfl
  · rfl

/-- The sender looks the recipient up before the login fetches the messages, and then finds
nobody, or after the login has entered the user. The login fetches the messages before the
sender looks, or when the message is stored, and finds a hash to enter the user in. Once it has
entered the user, no queued command on the entry is executed. The session is not closed before
it is logged on, and a node that is called is reached. -/
def Timely (S : Cluster k) : Move k → Prop
  | .within j (.go z _) =>
    (j = c.i → z = c.y → (S j).pc z = .routing [c.packet] →
      (ahead ((S c.h).pc c.x) = true ∧ (S j).node.get c.letter.recipient.toSessionid = none) ∨
        entered ((S c.h).pc c.x) = true) ∧
    (j = c.h → z = c.x → (∃ packet, (S j).pc z = .fetch packet) →
      (S c.i).pc c.y = .routing [c.packet] ∨
        Redis.hget (S j).node.db.store (offlineIndex c.letter.recipient) c.packet.envelope.id =
          some c.letter.raw) ∧
    (j = c.h → z = c.x → indexing ((S j).pc z) = true → IndexHash (S j).node.db.store (S j).node.nodeid)
  | .within j (.dexec ch w) => entered ((S c.h).pc c.x) = true →
    ∀ cmd ∈ ((S j).node.db.held ch)[w]?, cmd.key ≠ c.letter.recipient.toSessionid
  | .within j (.work w env) => ((S j).hands w).reaches env = true
  | .within j (.close z _) => ∀ packet, (S j).pc z ≠ .logon packet
  | _ => True

structure Over (S : Cluster k) : Prop where
  drained : Letter.Drained S
  login : (S c.h).pc c.x = .idle
  send : (S c.i).pc c.y = .idle

/-! ### The stages of a login -/

/-- The status of the session once it is logged on. -/
structure Seat (S : Cluster k) (st : SessionStatus) : Prop where
  status : ((S c.h).node.sessions c.x).map (·.status) = some st
  sid : st.sid = c.x
  channel : st.channel = (S c.h).node.channel
  nodeid : st.nodeid = (S c.h).node.nodeid
  login : st.status = .login
  user : c.IsRecipient st.jid

/-- Before the messages are fetched. -/
def Early (S : Cluster k) : Prop :=
  (∃ packet, (S c.h).pc c.x = .logon packet ∧ c.IsRecipient packet.envelope.jid ∧
    (S c.h).node.sessions c.x = some (newSession (S c.h).node.channel c.x (S c.h).node.nodeid)) ∨
  ∃ packet st, (S c.h).pc c.x = .fetch packet ∧ c.Seat S st

/-- The messages are fetched, and the user is not entered. -/
def Middle (S : Cluster k) : Prop :=
  ∃ st reply, c.Seat S st ∧
    ((S c.h).pc c.x = .publish reply ∨
    (S c.h).pc c.x = .storing
      [.direct (.hset (indexKey st.nodeid) c.letter.recipient.toSessionid (C.marshalStatus st)),
        .direct (.set c.letter.recipient.toSessionid (C.marshalStatus st))] reply ∨
    (S c.h).pc c.x =
      .storing [.direct (.set c.letter.recipient.toSessionid (C.marshalStatus st))] reply)

/-- The user is entered. -/
def Late (S : Cluster k) : Prop :=
  ∃ st, c.Seat S st ∧ (S c.h).node.get c.letter.recipient.toSessionid = some (C.marshalStatus st) ∧
    ((S c.h).pc c.x = .idle ∨ ∃ reply, (S c.h).pc c.x = .storing [] reply)

def Holds (reply : Packet) : Prop := ∃ delay ∈ reply.delay, c.base ∈ delay.packets

/-- The reply holds the message and is written, or will be. -/
def Answers (S : Cluster k) : Prop :=
  ∃ st reply, c.Seat S st ∧ c.Holds reply ∧
    ((S c.h).pc c.x = .publish reply ∨ (∃ ds, (S c.h).pc c.x = .storing ds reply) ∨
      (S c.h).pc c.x = .idle ∧ ∃ s, (S c.h).node.sessions c.x = some s ∧ .answer reply ∈ s.written)

/-! ### The stages of the message -/

/-- The sender has not looked. -/
structure Waiting (S : Cluster k) : Prop where
  calm : c.Calm S
  send : (S c.i).pc c.y = .routing [c.packet]
  sender : c.Sends S
  unwritten : c.letter.writes (S c.h).node c.x = 0
  login : c.Early S ∨ c.Middle S ∨ c.Late S

/-- The sender has found nobody. -/
structure Kept (S : Cluster k) : Prop where
  calm : c.Calm S
  send : (S c.i).pc c.y = .acting c.packet .store [] ∨ (S c.i).pc c.y = .routing [] ∨
    (S c.i).pc c.y = .idle
  login : c.Early S ∨ c.Answers S

/-- Node and workers have nothing but packets with the text. -/
structure Only (l : Letter C) (s : System) : Prop where
  router : ∀ it ∈ s.node.router, l.isOn it = true
  hands : ∀ w, s.hands w = .free ∨ l.holding (s.hands w) ≠ 0
  published : ∀ e ∈ s.node.published, l.isIn e.2 = true

/-- The sender has found the session, and the message is on the way there. -/
structure Routed (ss : SessionStatus) (S : Cluster k) : Prop where
  seated : c.letter.Seated c.h ss S
  sid : ss.sid = c.x
  held : ∀ j, c.letter.Held c.h ss j (S j)
  only : ∀ j, Only c.letter (S j)
  login : (S c.h).pc c.x = .idle ∨ ∃ reply, (S c.h).pc c.x = .storing [] reply
  send : (S c.i).pc c.y = .acting c.packet (.route ss) [] ∨ (S c.i).pc c.y = .routing [] ∨
    (S c.i).pc c.y = .idle
  count : ∑ j, c.letter.balance c.h ss j (S j) +
    (if Letter.routes ((S c.i).pc c.y) then 1 else 0) = 1

/-- The goroutine of the session does not log it on any more. -/
def passed : Pc → Bool
  | .kill _ _ _ | .auth _ _ | .logon _ => false
  | _ => true

def Closed (S : Cluster k) : Prop :=
  passed ((S c.h).pc c.x) = true ∧
    ∃ s, (S c.h).node.sessions c.x = some s ∧ s.status.status = .close

end Meeting

variable {C : Codec} {k consumers : Nat} {c : Crossing C k} {S S' : Cluster k} {m : Move k}

/-! ### What every move keeps -/

theorem meet_iff : c.meet consumers S m = some S' ↔
    c.concerns m = true ∧ sharedMove C consumers S m = some S' := Option.ite_none_right_eq_some

theorem grows_meet {P : Fin k → Bytes → Prop} (hMeet : c.meet consumers S m = some S')
    (hLogon : ∀ j z env packet, m = .within j (.go z env) → P j z → (S j).pc z ≠ .logon packet)
    (j : Fin k) : Grows (P j) (S j).node (S' j).node := by
  obtain ⟨hConcerns, hMove⟩ := meet_iff.mp hMeet
  cases m with
  | within i a =>
    obtain ⟨t, hStep, hSelf, hRest⟩ := sharedMove_within hMove
    rcases eq_or_ne j i with rfl | hne
    · rw [hSelf]
      cases stepped_of_step C hStep with
      | connect | register | clean | recv => cases hConcerns
      | go z env hBusy =>
        rw [session_node]
        exact grows_next fun hz packet => hLogon j z env packet rfl hz
      | close z env => exact grows_closeSession z env _
      | take | dtake | dexec => exact .of_sessions rfl rfl rfl
      | work w env =>
        rw [worker_node]
        exact grows_work env _ _
    · rw [hRest j hne]
      exact .of_sessions rfl rfl rfl
  | deliver i i' w env =>
    obtain ⟨_, _, published, message, st, n, hn, hNode⟩ := sharedMove_deliver hMove j
    have hTaken : Grows (P j) (S j).node { (S j).node with published := published } :=
      .of_sessions rfl rfl rfl
    have hGrows : Grows (P j) (S j).node n := by
      rcases hn with rfl | rfl
      · exact hTaken
      · exact IsTrans.trans _ _ _ hTaken (grows_dataChannelHandler message env _)
    rw [hNode]
    exact IsTrans.trans _ _ _ hGrows (.of_sessions rfl rfl rfl)

theorem Placed.meet (h : c.Placed S) (hMeet : c.meet consumers S m = some S') : c.Placed S' := by
  have hGrows := grows_meet (P := fun _ _ => False) hMeet fun _ _ _ _ _ hFalse => hFalse.elim
  obtain ⟨T, -, rfl⟩ := Option.map_eq_some_iff.mp (meet_iff.mp hMeet).2
  constructor
  · exact fun i j => rfl
  · rw [(hGrows c.h).channel]
    exact h.nonempty
  · intro j
    rw [(hGrows j).channel, (hGrows c.h).channel]
    exact h.channel j
  · rw [(hGrows c.h).sessionMap]
    exact h.registered

/-- A goroutine goes on by its own steps only, and a panic leaves it idle. -/
theorem pc_meet (hMeet : c.meet consumers S m = some S') (j : Fin k) (z : Bytes) :
    (S' j).pc z = (S j).pc z ∨ ∃ env, m = .within j (.go z env) ∧ ((S' j).pc z = .idle ∨
      ∃ n, next C z env ((S j).pc z) (S j).node = .done ((S' j).pc z) n) := by
  obtain ⟨hConcerns, hMove⟩ := meet_iff.mp hMeet
  cases m with
  | within i a =>
    obtain ⟨t, hStep, hSelf, hRest⟩ := sharedMove_within hMove
    rcases eq_or_ne j i with rfl | hne
    · rw [hSelf]
      cases stepped_of_step C hStep with
      | connect | register | clean | recv => cases hConcerns
      | close | take | dtake | dexec => exact .inl rfl
      | work w env =>
        unfold System.worker
        split
        · exact .inl rfl
        · exact .inl rfl
      | go z' env =>
        rcases eq_or_ne z z' with rfl | hOther
        · refine .inr ⟨env, rfl, ?_⟩
          unfold System.session
          cases next C z env ((S j).pc z) (S j).node with
          | done pc n =>
            simp only [Function.update_self]
            exact .inr ⟨n, rfl⟩
          | panic n => exact .inl (Function.update_self ..)
        · unfold System.session
          split
          · exact .inl (Function.update_of_ne hOther ..)
          · exact .inl (Function.update_of_ne hOther ..)
    · rw [hRest j hne]
      exact .inl rfl
  | deliver i i' w env => exact .inl (congrFun (sharedMove_deliver hMove j).1 z)

theorem passed_next {pc pc' : Pc} {x : Bytes} {env : Env} {n n' : Node} (hPassed : passed pc = true)
    (hNext : next C x env pc n = .done pc' n') : passed pc' = true := by
  match pc with
  | .idle | .routing [] | .storing [] _ | .acting _ _ _ =>
    cases next_done hNext
    rfl
  | .kill _ _ _ | .auth _ _ | .logon _ => cases hPassed
  | .fetch _ | .publish _ | .routing (_ :: _) =>
    obtain ⟨_, rfl⟩ := next_done hNext
    rfl
  | .storing (_ :: _) _ =>
    rcases next_done hNext with rfl | rfl
    · rfl
    · rfl

theorem Closed.meet (h : c.Closed S) (hMeet : c.meet consumers S m = some S') : c.Closed S' := by
  obtain ⟨hPassed, s, hs, hClose⟩ := h
  constructor
  · rcases pc_meet hMeet c.h c.x with hSame | ⟨env, _, hIdle | ⟨n, hNext⟩⟩
    · rwa [hSame]
    · rw [hIdle]
      rfl
    · exact passed_next hPassed hNext
  · have hGrows := grows_meet (P := fun j z => j = c.h ∧ z = c.x) hMeet ?_ c.h
    · obtain ⟨s', hs', hStays, _⟩ := hGrows.session c.x ⟨rfl, rfl⟩ s hs
      exact ⟨s', hs', hStays hClose⟩
    · rintro j z env packet _ ⟨rfl, rfl⟩ hPc
      rw [hPc] at hPassed
      cases hPassed

theorem closed_of_close {env : Env} {s : Session} (hs : (S c.h).node.sessions c.x = some s)
    (hLogin : s.status.status = .login) (hUser : c.IsRecipient s.status.jid)
    (hPassed : passed ((S c.h).pc c.x) = true)
    (hMeet : c.meet consumers S (.within c.h (.close c.x env)) = some S') : c.Closed S' := by
  obtain ⟨t, hStep, hSelf, _⟩ := sharedMove_within (meet_iff.mp hMeet).2
  obtain ⟨j, hj, _⟩ := hUser
  have hOpen : s.status.status ≠ .close := by
    rw [hLogin]
    decide
  have hClose := closeSession_of_open C hs hOpen (fun _ => ⟨j, toOption_eq_some_iff.mp hj⟩) env
  have hStore : Keeps (Grows fun _ => True) (pkgBuffToStore C env s.pkgBuff) :=
    Keeps.forM fun p _ => storePacket_keeps grows_send p
  obtain ⟨s', hs', hStays, _⟩ := (hStore ((S c.h).node.closed c.x s)).session c.x trivial _
    (Function.update_self ..)
  cases stepped_of_step C hStep with
  | close _ _ sess _ =>
    refine ⟨?_, s', ?_, hStays rfl⟩
    · rw [hSelf]
      exact hPassed
    · rw [hSelf, hClose]
      exact hs'

/-! ### While nothing is under way -/

/-- Only the databases of the nodes differ, and not in the entry of the recipient once the
login has made it. -/
structure DbOnly (c : Crossing C k) (S S' : Cluster k) : Prop where
  same : ∀ j, ∃ db, S' j = { S j with node := { (S j).node with db := db } }
  entry : entered ((S c.h).pc c.x) = true →
    ∀ j, (S' j).node.get c.letter.recipient.toSessionid = (S j).node.get c.letter.recipient.toSessionid

theorem dbOnly_of_db {j : Fin k} {db : Database} (hPlaced : c.Placed S)
    (hSelf : S' j = { S j with node := { (S j).node with db := db } })
    (hRest : ∀ j', j' ≠ j → S' j' = (S j').setStore db.store)
    (hEntry : entered ((S c.h).pc c.x) = true →
      Redis.get db.store c.letter.recipient.toSessionid =
        Redis.get (S j).node.db.store c.letter.recipient.toSessionid) : DbOnly c S S' := by
  constructor
  · intro j'
    rcases eq_or_ne j' j with rfl | hne
    · exact ⟨db, hSelf⟩
    · exact ⟨{ (S j').node.db with store := db.store }, hRest j' hne⟩
  · intro hEntered j'
    rcases eq_or_ne j' j with rfl | hne
    · rw [hSelf]
      exact hEntry hEntered
    · rw [hRest j' hne, Node.get, Node.get, hPlaced.shared j' j]
      exact hEntry hEntered

def stores : Move k → Bool
  | .within _ (.dtake _) | .within _ (.dexec _ _) => true
  | _ => false

theorem dbOnly_of_meet (hPlaced : c.Placed S) (hTimely : c.Timely S m) (hStores : stores m = true)
    (hMeet : c.meet consumers S m = some S') : DbOnly c S S' := by
  cases m with
  | deliver => cases hStores
  | within j a =>
    obtain ⟨t, hStep, hSelf, hRest⟩ := sharedMove_within (meet_iff.mp hMeet).2
    cases stepped_of_step C hStep with
    | connect | register | clean | recv | go | close | take | work => cases hStores
    | dtake ch db hTake =>
      refine dbOnly_of_db hPlaced hSelf hRest fun _ => ?_
      rw [Database.take_store hTake]
    | dexec ch w db hExec =>
      refine dbOnly_of_db hPlaced hSelf hRest fun hEntered => ?_
      obtain ⟨cmd, hCmd, rfl⟩ := Option.map_eq_some_iff.mp hExec
      simp only [Redis.get, Redis.exec_of_ne _ _ (hTimely hEntered cmd hCmd).symm]

/-- The two goroutines go on, the session is closed, or a queue of the database moves. -/
theorem Calm.meet_cases (h : c.Calm S) (hPlaced : c.Placed S) (hTimely : c.Timely S m)
    (hMeet : c.meet consumers S m = some S') :
    (∃ env, m = .within c.h (.go c.x env)) ∨ (∃ env, m = .within c.i (.go c.y env)) ∨
      (∃ env, m = .within c.h (.close c.x env)) ∨ DbOnly c S S' := by
  obtain ⟨hConcerns, hMove⟩ := meet_iff.mp hMeet
  cases m with
  | within j a =>
    obtain ⟨t, hStep, -⟩ := sharedMove_within hMove
    cases stepped_of_step C hStep with
    | connect | register | clean | recv => cases hConcerns
    | go z env =>
      rcases Bool.or_eq_true_iff.mp hConcerns with hLogin | hSend
      · obtain ⟨rfl, rfl⟩ : j = c.h ∧ z = c.x := by simpa using hLogin
        exact .inl ⟨env, rfl⟩
      · obtain ⟨rfl, rfl⟩ : j = c.i ∧ z = c.y := by simpa using hSend
        exact .inr (.inl ⟨env, rfl⟩)
    | close z env =>
      obtain ⟨rfl, rfl⟩ : j = c.h ∧ z = c.x := by simpa [concerns] using hConcerns
      exact .inr (.inr (.inl ⟨env, rfl⟩))
    | take w it rest hRouter =>
      rw [h.router j] at hRouter
      cases hRouter
    | work w env hBusy => exact absurd (h.hands j w) hBusy
    | dtake | dexec => exact .inr (.inr (.inr (dbOnly_of_meet hPlaced hTimely rfl hMeet)))
  | deliver i j w env =>
    obtain ⟨T, hT, _⟩ := Option.map_eq_some_iff.mp hMove
    cases moved_of_move hT with
    | deliver _ _ _ _ e hMessage =>
      rw [h.published i] at hMessage
      cases hMessage

theorem busy_of_meet {j : Fin k} {z : Bytes} {env : Env}
    (hMeet : c.meet consumers S (.within j (.go z env)) = some S') : (S j).pc z ≠ .idle := by
  obtain ⟨t, hStep, _⟩ := sharedMove_within (meet_iff.mp hMeet).2
  cases stepped_of_step C hStep with
  | go _ _ hBusy => exact hBusy

theorem went_of_meet {j : Fin k} {z : Bytes} {env : Env} {pc : Pc} {n : Node}
    (hMeet : c.meet consumers S (.within j (.go z env)) = some S')
    (hNext : next C z env ((S j).pc z) (S j).node = .done pc n) : Went j z pc n S S' :=
  went_of_sharedMove (meet_iff.mp hMeet).2 hNext

theorem Calm.went {j : Fin k} {z : Bytes} {pc : Pc} {n : Node} (h : c.Calm S) (hWent : Went j z pc n S S')
    (hOwn : (j = c.h ∧ z = c.x) ∨ (j = c.i ∧ z = c.y)) (hRouter : n.router = (S j).node.router)
    (hPublished : n.published = (S j).node.published) : c.Calm S' := by
  constructor
  · intro j'
    rcases eq_or_ne j' j with rfl | hne
    · rw [hWent.node, hRouter]
      exact h.router j'
    · rw [hWent.rest j' hne]
      exact h.router j'
  · intro j' w
    rw [hWent.hands]
    exact h.hands j' w
  · intro j'
    rcases eq_or_ne j' j with rfl | hne
    · rw [hWent.node, hPublished]
      exact h.published j'
    · rw [hWent.rest j' hne]
      exact h.published j'
  · intro j' z' hLogin hSend
    rw [hWent.others j' z', h.idle j' z' hLogin hSend]
    rintro rfl rfl
    rcases hOwn with ⟨hj, hz⟩ | ⟨hj, hz⟩
    · exact hLogin hj hz
    · exact hSend hj hz

theorem Calm.dbOnly (h : c.Calm S) (hDb : DbOnly c S S') : c.Calm S' := by
  constructor
  · intro j
    obtain ⟨db, hSame⟩ := hDb.same j
    rw [hSame]
    exact h.router j
  · intro j w
    obtain ⟨db, hSame⟩ := hDb.same j
    rw [hSame]
    exact h.hands j w
  · intro j
    obtain ⟨db, hSame⟩ := hDb.same j
    rw [hSame]
    exact h.published j
  · intro j z hLogin hSend
    obtain ⟨db, hSame⟩ := hDb.same j
    rw [hSame]
    exact h.idle j z hLogin hSend

/-! ### The steps of the login -/

theorem Seat.congr {st : SessionStatus} (h : c.Seat S st)
    (hStatus : ((S' c.h).node.sessions c.x).map (·.status) = ((S c.h).node.sessions c.x).map (·.status))
    (hChannel : (S' c.h).node.channel = (S c.h).node.channel)
    (hNodeid : (S' c.h).node.nodeid = (S c.h).node.nodeid) : c.Seat S' st :=
  ⟨hStatus.trans h.status, h.sid, h.channel.trans hChannel.symm, h.nodeid.trans hNodeid.symm, h.login, h.user⟩

theorem Seat.session {st : SessionStatus} (h : c.Seat S st) :
    ∃ s j, (S c.h).node.sessions c.x = some s ∧ s.status = st ∧ newJID st.jid = .ok j ∧
      j.stringWithoutResource = c.letter.recipient.stringWithoutResource := by
  obtain ⟨s, hs, rfl⟩ := Option.map_eq_some_iff.mp h.status
  obtain ⟨j, hj, hBare⟩ := h.user
  exact ⟨s, j, hs, rfl, toOption_eq_some_iff.mp hj, hBare⟩

theorem next_logon (x : Bytes) (packet : Packet) (env : Env) (n : Node) :
    next C x env (.logon packet) n = .done (.fetch packet) (n.updateSession x fun s =>
      { s with status :=
        { s.status with jid := packet.envelope.jid, status := .login, ct := env.timestamp10 } }) := rfl

theorem seat_of_logon {packet : Packet} {env : Env} (hUser : c.IsRecipient packet.envelope.jid)
    (hSession : (S c.h).node.sessions c.x =
      some (newSession (S c.h).node.channel c.x (S c.h).node.nodeid))
    (hNode : (S' c.h).node = (S c.h).node.updateSession c.x fun s =>
      { s with status :=
        { s.status with jid := packet.envelope.jid, status := .login, ct := env.timestamp10 } }) :
    ∃ st, c.Seat S' st := by
  let st : SessionStatus :=
    { sid := c.x
      jid := packet.envelope.jid
      status := .login
      nodeid := (S c.h).node.nodeid
      channel := (S c.h).node.channel
      ct := env.timestamp10 }
  refine ⟨st, ?_, rfl, ?_, ?_, rfl, hUser⟩
  · rw [hNode, Node.updateSession_self, hSession]
    rfl
  · rw [hNode]
    rfl
  · rw [hNode]
    rfl

theorem next_fetch {st : SessionStatus} (h : c.Seat S st) (packet : Packet) (env : Env) :
    ∃ j, newJID st.jid = .ok j ∧
      j.stringWithoutResource = c.letter.recipient.stringWithoutResource ∧
      next C c.x env (.fetch packet) (S c.h).node =
        .done (.publish ((newPacketAuthSuccess packet.envelope.id).addDelay (offlinePackets C (S c.h).node j)))
          { (S c.h).node with
            oflCache := cacheReply (S c.h).node.oflCache packet.envelope.id (offlineIds C (S c.h).node j) } := by
  obtain ⟨s, j, hs, rfl, hj, hBare⟩ := h.session
  exact ⟨j, hj, hBare, bind_done (loginReply_eq hs hj packet) _⟩

theorem next_publish {st : SessionStatus} (h : c.Seat S st) (reply : Packet) (env : Env) :
    next C c.x env (.publish reply) (S c.h).node = .done (.storing
      [.direct (.hset (indexKey st.nodeid) c.letter.recipient.toSessionid (C.marshalStatus st)),
        .direct (.set c.letter.recipient.toSessionid (C.marshalStatus st))] reply) (S c.h).node := by
  obtain ⟨s, j, hs, rfl, hj, hBare⟩ := h.session
  have hWrites : statusWrites C c.x (S c.h).node = .done
      (putExWithIdx s.status.nodeid j.toSessionid (C.marshalStatus s.status) (-1)) (S c.h).node := by
    unfold statusWrites
    rw [bind_done (Node.session_eq hs), hj]
    rfl
  rw [putExWithIdx_toSessionid, JID.toSessionid_inj.mpr hBare] at hWrites
  exact bind_done hWrites _

theorem next_storing {d : Dispatch} {n : Node} {db : Database} (hSend : n.db.sendOne d = some db)
    (x : Bytes) (env : Env) (ds : List Dispatch) (reply : Packet) :
    next C x env (.storing (d :: ds) reply) n = .done (.storing ds reply) { n with db := db } := by
  have hNext : sendNext d ds n = .done ds { n with db := db } := by
    rw [sendNext, hSend]
  exact bind_done hNext _

theorem next_answer (x : Bytes) (reply : Packet) (env : Env) (n : Node) :
    next C x env (.storing [] reply) n = .done .idle
      (n.updateSession x fun s => { s with written := s.written ++ [.answer reply] }) := rfl

/-! ### Before the sender looks -/

theorem sends_congr (h : c.Sends S) (hSame : (S' c.i).node.sessions c.y = (S c.i).node.sessions c.y) :
    c.Sends S' := by
  unfold Sends
  rw [hSame]
  exact h

theorem Waiting.went {pc : Pc} {n : Node} {env : Env} (h : c.Waiting S) (hWent : Went c.h c.x pc n S S')
    (hNext : next C c.x env ((S c.h).pc c.x) (S c.h).node = .done pc n)
    (hActing : ∀ p d packets, (S c.h).pc c.x ≠ .acting p d packets)
    (hRouter : n.router = (S c.h).node.router) (hPublished : n.published = (S c.h).node.published)
    (hSessions : ∀ z, z ≠ c.x → n.sessions z = (S c.h).node.sessions z)
    (hLogin : c.Early S' ∨ c.Middle S' ∨ c.Late S') : c.Waiting S' where
  calm := h.calm.went hWent (.inl ⟨rfl, rfl⟩) hRouter hPublished
  send := (hWent.others c.i c.y c.apart).trans h.send
  sender := by
    apply sends_congr h.sender
    rcases eq_or_ne c.i c.h with hEq | hne
    · rw [hEq, hWent.node]
      exact hSessions c.y (c.apart hEq)
    · rw [hWent.rest c.i hne]
  unwritten := by
    have hUnmoved : c.letter.Unmoved (S c.h).node (next C c.x env ((S c.h).pc c.x) (S c.h).node).state :=
      Letter.unmoved_next fun p d packets hPc => absurd hPc (hActing p d packets)
    rw [hNext] at hUnmoved
    rw [hWent.node]
    exact (hUnmoved.writes c.x).trans h.unwritten
  login := hLogin

theorem Waiting.login_step {env : Env} (h : c.Waiting S)
    (hTimely : c.Timely S (.within c.h (.go c.x env)))
    (hMeet : c.meet consumers S (.within c.h (.go c.x env)) = some S') : c.Waiting S' := by
  have hWent : ∀ pc n, next C c.x env ((S c.h).pc c.x) (S c.h).node = .done pc n →
      Went c.h c.x pc n S S' := fun _ _ => went_of_meet hMeet
  rcases h.login with (⟨packet, hPc, hUser, hSession⟩ | ⟨packet, st, hPc, hSeat⟩) |
    ⟨st, reply, hSeat, hPc | hPc | hPc⟩ | ⟨st, hSeat, hGet, hPc | ⟨reply, hPc⟩⟩
  · have hNext := next_logon (C := C) c.x packet env (S c.h).node
    rw [← hPc] at hNext
    have hDone := hWent _ _ hNext
    obtain ⟨st, hSeat⟩ := seat_of_logon hUser hSession hDone.node
    exact h.went hDone hNext (by simp [hPc]) rfl rfl
      (fun z hz => Node.updateSession_of_ne _ hz _) (.inl (.inr ⟨packet, st, hDone.pc, hSeat⟩))
  · obtain ⟨j, _, _, hFetch⟩ := next_fetch hSeat packet env
    rw [← hPc] at hFetch
    have hDone := hWent _ _ hFetch
    have hSeat' : c.Seat S' st := hSeat.congr (by rw [hDone.node]) (by rw [hDone.node]) (by rw [hDone.node])
    exact h.went hDone hFetch (by simp [hPc]) rfl rfl (fun _ _ => rfl)
      (.inr (.inl ⟨st, _, hSeat', .inl hDone.pc⟩))
  · have hNext := next_publish hSeat reply env
    rw [← hPc] at hNext
    have hDone := hWent _ _ hNext
    have hSeat' : c.Seat S' st := hSeat.congr (by rw [hDone.node]) (by rw [hDone.node]) (by rw [hDone.node])
    exact h.went hDone hNext (by simp [hPc]) rfl rfl (fun _ _ => rfl)
      (.inr (.inl ⟨st, reply, hSeat', .inr (.inl hDone.pc)⟩))
  · have hIndex := hTimely.2.2 rfl rfl (by rw [hPc]; rfl)
    rw [← hSeat.nodeid] at hIndex
    obtain ⟨db, hSend⟩ := Option.isSome_iff_exists.mp
      (Database.sendOne_hset hIndex c.letter.recipient.toSessionid (C.marshalStatus st))
    have hNext := next_storing (C := C) hSend c.x env
      [.direct (.set c.letter.recipient.toSessionid (C.marshalStatus st))] reply
    rw [← hPc] at hNext
    have hDone := hWent _ _ hNext
    have hSeat' : c.Seat S' st := hSeat.congr (by rw [hDone.node]) (by rw [hDone.node]) (by rw [hDone.node])
    exact h.went hDone hNext (by simp [hPc]) rfl rfl (fun _ _ => rfl)
      (.inr (.inl ⟨st, reply, hSeat', .inr (.inr hDone.pc)⟩))
  · have hSend : (S c.h).node.db.sendOne
        (.direct (.set c.letter.recipient.toSessionid (C.marshalStatus st))) = some _ := rfl
    have hNext := next_storing (C := C) hSend c.x env [] reply
    rw [← hPc] at hNext
    have hDone := hWent _ _ hNext
    have hSeat' : c.Seat S' st := hSeat.congr (by rw [hDone.node]) (by rw [hDone.node]) (by rw [hDone.node])
    refine h.went hDone hNext (by simp [hPc]) rfl rfl (fun _ _ => rfl)
      (.inr (.inr ⟨st, hSeat', ?_, .inr ⟨reply, hDone.pc⟩⟩))
    rw [hDone.node]
    simp [Node.get, Redis.get, Redis.Cmd.key]
  · exact absurd hPc (busy_of_meet hMeet)
  · have hNext := next_answer (C := C) c.x reply env (S c.h).node
    rw [← hPc] at hNext
    have hDone := hWent _ _ hNext
    have hStatus : ((S' c.h).node.sessions c.x).map (·.status) =
        ((S c.h).node.sessions c.x).map (·.status) := by
      rw [hDone.node]
      apply Node.map_updateSession
      exact fun _ => rfl
    have hSeat' : c.Seat S' st := hSeat.congr hStatus (by rw [hDone.node]; rfl) (by rw [hDone.node]; rfl)
    refine h.went hDone hNext (by simp [hPc]) rfl rfl (fun z hz => Node.updateSession_of_ne _ hz _)
      (.inr (.inr ⟨st, hSeat', ?_, .inl hDone.pc⟩))
    rw [hDone.node]
    exact hGet

/-! ### The sender looks -/

theorem apart_symm (c : Crossing C k) (hNode : c.h = c.i) : c.x ≠ c.y := fun hEq => c.apart hNode.symm hEq.symm

theorem Early.congr (h : c.Early S) (hPc : (S' c.h).pc c.x = (S c.h).pc c.x)
    (hSession : (S' c.h).node.sessions c.x = (S c.h).node.sessions c.x)
    (hChannel : (S' c.h).node.channel = (S c.h).node.channel)
    (hNodeid : (S' c.h).node.nodeid = (S c.h).node.nodeid) : c.Early S' := by
  rcases h with ⟨packet, hLogon, hUser, hNew⟩ | ⟨packet, st, hFetch, hSeat⟩
  · refine .inl ⟨packet, hPc.trans hLogon, hUser, ?_⟩
    rw [hSession, hChannel, hNodeid]
    exact hNew
  · exact .inr ⟨packet, st, hPc.trans hFetch, hSeat.congr (by rw [hSession]) hChannel hNodeid⟩

theorem newJID_packet (c : Crossing C k) : newJID c.packet.envelope.to_ = .ok c.letter.recipient := by
  rw [c.intact c.carries]
  exact c.letter.addressed

theorem next_look {pc : Pc} (hSends : c.Sends S) (hPc : pc = .routing [c.packet]) (env : Env) :
    next C c.y env pc (S c.i).node = .done (.acting c.packet
      ((((S c.i).node.get c.letter.recipient.toSessionid).map C.unmarshalStatus).elim .store .route) [])
      (S c.i).node := by
  obtain ⟨s, hs, hLogin, a, ha, f, hf, hMine, hOther⟩ := hSends
  have hDecide := routeDecide_other (C := C) hs hLogin (toOption_eq_some_iff.mp ha) c.newJID_packet
    (toOption_eq_some_iff.mp hf) hOther
  rw [if_pos hMine] at hDecide
  rw [hPc]
  exact bind_done hDecide _

theorem went_same {j : Fin k} {z : Bytes} {pc : Pc} (hPlaced : c.Placed S)
    (hWent : Went j z pc (S j).node S S') (j' : Fin k) : (S' j').node = (S j').node := by
  rcases eq_or_ne j' j with rfl | hne
  · exact hWent.node
  · rw [hWent.rest j' hne, hPlaced.shared j j']

theorem Late.seated (h : c.Late S) (hPlaced : c.Placed S)
    (hReads : ∀ st : SessionStatus, st.sid = c.x → st.channel = (S c.h).node.channel →
      (C.unmarshalStatus (C.marshalStatus st)).sid = st.sid ∧
      (C.unmarshalStatus (C.marshalStatus st)).channel = st.channel) :
    ∃ ss, ((S c.i).node.get c.letter.recipient.toSessionid).map C.unmarshalStatus = some ss ∧
      ss.sid = c.x ∧ c.letter.Seated c.h ss S := by
  obtain ⟨st, hSeat, hGet, _⟩ := h
  obtain ⟨hSid, hChannel⟩ := hReads st hSeat.sid hSeat.channel
  have hFound : ∀ j, (S j).node.get c.letter.recipient.toSessionid = some (C.marshalStatus st) := by
    intro j
    rw [← hGet, Node.get, Node.get, hPlaced.shared j c.h]
  refine ⟨C.unmarshalStatus (C.marshalStatus st), by rw [hFound, Option.map_some],
    hSid.trans hSeat.sid, ?_⟩
  constructor
  · intro j
    rw [← get_toSessionid rfl (S j).node, hFound j]
    rfl
  · rw [hChannel, hSeat.channel]
    exact hPlaced.nonempty
  · intro j
    rw [hChannel, hSeat.channel]
    exact hPlaced.channel j
  · rw [hSid, hSeat.sid]
    exact hPlaced.registered
  · obtain ⟨s, j, hs, rfl, hj, hBare⟩ := hSeat.session
    rw [hSid, hSeat.sid]
    exact ⟨s, hs, hSeat.login, j, toOption_eq_some_iff.mpr hj, hBare⟩

theorem seated_of_fixed {l : Letter C} {h : Fin k} {ss : SessionStatus}
    (hSeated : l.Seated h ss S) (hFixed : ∀ j, Fixed (S j).node (S' j).node) : l.Seated h ss S' := by
  constructor
  · intro j
    rw [entry, Node.get, (hFixed j).store]
    exact hSeated.entry j
  · exact hSeated.nonempty
  · intro j
    rw [(hFixed j).channel]
    exact hSeated.channel j
  · rw [(hFixed h).sessionMap]
    exact hSeated.registered
  · obtain ⟨s, hs, hLogin, hUser⟩ := hSeated.session
    obtain ⟨s', hs', hStatus⟩ := (hFixed h).session hs
    rw [← hStatus] at hLogin hUser
    exact ⟨s', hs', hLogin, hUser⟩

theorem Calm.held {ss : SessionStatus} {j : Fin k} (h : c.Calm S)
    (hPcs : ∀ z, c.letter.Outgoing ss (((S j).node.sessions z).isSome = true) ((S j).pc z)) :
    c.letter.Held c.h ss j (S j) := by
  refine ⟨hPcs, ?_, ?_, ?_, ?_⟩
  · rw [h.router]
    exact fun it hit => by cases hit
  · intro w
    rw [h.hands]
    trivial
  · intro w _
    rw [h.hands]
    rfl
  · rw [h.published]
    exact fun e he => by cases he

theorem Calm.only (h : c.Calm S) (j : Fin k) : Only c.letter (S j) := by
  refine ⟨?_, fun w => .inl (h.hands j w), ?_⟩
  · rw [h.router]
    exact fun it hit => by cases hit
  · rw [h.published]
    exact fun e he => by cases he

theorem Calm.balance {ss : SessionStatus} (h : c.Calm S) (j : Fin k) :
    c.letter.balance c.h ss j (S j) = if j = c.h then c.letter.writes (S j).node ss.sid else 0 := by
  have hNone : ∀ w, c.letter.holding ((S j).hands w) = 0 := by
    intro w
    rw [h.hands]
    rfl
  simp only [Letter.balance, Letter.ahead, Letter.posted, h.router, h.published, hNone, List.filter_nil,
    List.length_nil, Finset.sum_const_zero, Nat.zero_add]

theorem Waiting.look_found {env : Env} {ss : SessionStatus} (h : c.Waiting S) (hPlaced : c.Placed S)
    (hLate : c.Late S) (hSid : ss.sid = c.x) (hSeated : c.letter.Seated c.h ss S)
    (hFound : ((S c.i).node.get c.letter.recipient.toSessionid).map C.unmarshalStatus = some ss)
    (hMeet : c.meet consumers S (.within c.i (.go c.y env)) = some S') : c.Routed ss S' := by
  have hWent := went_of_meet hMeet (next_look h.sender h.send env)
  rw [hFound] at hWent
  have hCalm : c.Calm S' := h.calm.went hWent (.inr ⟨rfl, rfl⟩) rfl rfl
  have hNode := went_same hPlaced hWent
  have hLogin : (S' c.h).pc c.x = (S c.h).pc c.x := hWent.others c.h c.x c.apart_symm
  have hSend : (S' c.i).pc c.y = .acting c.packet (.route ss) [] := hWent.pc
  obtain ⟨_, _, _, hPc⟩ := hLate
  constructor
  · apply seated_of_fixed hSeated
    intro j
    rw [hNode]
    exact .refl _
  · exact hSid
  · intro j
    apply hCalm.held
    intro z
    by_cases hSender : j = c.i ∧ z = c.y
    · obtain ⟨rfl, rfl⟩ := hSender
      obtain ⟨s, hs, _⟩ := h.sender
      rw [hSend, hNode]
      refine ⟨?_, fun _ _ _ => Option.isSome_of_mem hs, ?_⟩
      · intro p hp
        cases List.mem_singleton.mp hp
        exact c.intact
      · intro p d packets hEq _
        cases hEq
        exact .inr (.inr rfl)
    · apply Letter.Outgoing.of_packets
      by_cases hOwn : j = c.h ∧ z = c.x
      · obtain ⟨rfl, rfl⟩ := hOwn
        rw [hLogin]
        rcases hPc with hIdle | ⟨reply, hStoring⟩
        · rw [hIdle]
          rfl
        · rw [hStoring]
          rfl
      · rw [hCalm.idle j z (fun hj hz => hOwn ⟨hj, hz⟩) (fun hj hz => hSender ⟨hj, hz⟩)]
        rfl
  · exact hCalm.only
  · rwa [hLogin]
  · exact .inl hSend
  · have hZero : ∑ j, c.letter.balance c.h ss j (S' j) = 0 := by
      apply Finset.sum_eq_zero
      intro j _
      rw [hCalm.balance, hSid]
      split
      · rename_i hj
        rw [hj, hNode]
        exact h.unwritten
      · rfl
    rw [hZero, hSend]
    rfl

theorem Waiting.look_missed {env : Env} (h : c.Waiting S) (hPlaced : c.Placed S) (hEarly : c.Early S)
    (hMissed : (S c.i).node.get c.letter.recipient.toSessionid = none)
    (hMeet : c.meet consumers S (.within c.i (.go c.y env)) = some S') : c.Kept S' := by
  have hWent := went_of_meet hMeet (next_look h.sender h.send env)
  rw [hMissed] at hWent
  have hNode := went_same hPlaced hWent c.h
  refine ⟨h.calm.went hWent (.inr ⟨rfl, rfl⟩) rfl rfl, .inl hWent.pc, .inl ?_⟩
  exact hEarly.congr (hWent.others c.h c.x c.apart_symm) (by rw [hNode]) (by rw [hNode]) (by rw [hNode])

theorem Waiting.early (h : c.Waiting S) (hAhead : ahead ((S c.h).pc c.x) = true) : c.Early S := by
  rcases h.login with hEarly | ⟨st, reply, _, hPc | hPc | hPc⟩ | ⟨st, _, _, hPc | ⟨reply, hPc⟩⟩
  · exact hEarly
  all_goals
    rw [hPc] at hAhead
    cases hAhead

theorem Waiting.late (h : c.Waiting S) (hEntered : entered ((S c.h).pc c.x) = true) : c.Late S := by
  rcases h.login with (⟨packet, hPc, _⟩ | ⟨packet, st, hPc, _⟩) |
    ⟨st, reply, _, hPc | hPc | hPc⟩ | hLate
  on_goal 6 => exact hLate
  all_goals
    rw [hPc] at hEntered
    cases hEntered

theorem Waiting.dbOnly (h : c.Waiting S) (hDb : DbOnly c S S') : c.Waiting S' := by
  obtain ⟨db, hSame⟩ := hDb.same c.h
  obtain ⟨db', hSender⟩ := hDb.same c.i
  have hPc : (S' c.h).pc c.x = (S c.h).pc c.x := by rw [hSame]
  have hSeat : ∀ st, c.Seat S st → c.Seat S' st := by
    intro st hSeat
    exact hSeat.congr (by rw [hSame]) (by rw [hSame]) (by rw [hSame])
  refine ⟨h.calm.dbOnly hDb, ?_, sends_congr h.sender (by rw [hSender]), ?_, ?_⟩
  · rw [hSender]
    exact h.send
  · rw [hSame]
    exact h.unwritten
  · rcases h.login with hEarly | ⟨st, reply, hOld, hStage⟩ | ⟨st, hOld, hGet, hStage⟩
    · exact .inl (hEarly.congr hPc (by rw [hSame]) (by rw [hSame]) (by rw [hSame]))
    · exact .inr (.inl ⟨st, reply, hSeat st hOld, by rwa [hPc]⟩)
    · refine .inr (.inr ⟨st, hSeat st hOld, ?_, by rwa [hPc]⟩)
      rw [hDb.entry (entered_of hStage)]
      exact hGet

theorem Seat.closed {st : SessionStatus} {env : Env} (h : c.Seat S st)
    (hPassed : passed ((S c.h).pc c.x) = true)
    (hMeet : c.meet consumers S (.within c.h (.close c.x env)) = some S') : c.Closed S' := by
  obtain ⟨s, _, hs, rfl, _⟩ := h.session
  exact closed_of_close hs h.login h.user hPassed hMeet

theorem Waiting.meet (h : c.Waiting S) (hPlaced : c.Placed S)
    (hReads : ∀ st : SessionStatus, st.sid = c.x → st.channel = (S c.h).node.channel →
      (C.unmarshalStatus (C.marshalStatus st)).sid = st.sid ∧
      (C.unmarshalStatus (C.marshalStatus st)).channel = st.channel)
    (hTimely : c.Timely S m) (hMeet : c.meet consumers S m = some S') :
    c.Waiting S' ∨ c.Kept S' ∨ (∃ ss, c.Routed ss S') ∨ c.Closed S' := by
  rcases h.calm.meet_cases hPlaced hTimely hMeet with ⟨env, rfl⟩ | ⟨env, rfl⟩ | ⟨env, rfl⟩ | hDb
  · exact .inl (h.login_step hTimely hMeet)
  · rcases hTimely.1 rfl rfl h.send with ⟨hAhead, hMissed⟩ | hEntered
    · exact .inr (.inl (h.look_missed hPlaced (h.early hAhead) hMissed hMeet))
    · have hLate := h.late hEntered
      obtain ⟨ss, hFound, hSid, hSeated⟩ := hLate.seated hPlaced hReads
      exact .inr (.inr (.inl ⟨ss, h.look_found hPlaced hLate hSid hSeated hFound hMeet⟩))
  · have hClosed : ∀ st, c.Seat S st → passed ((S c.h).pc c.x) = true → c.Closed S' :=
      fun st hSeat hPassed => hSeat.closed hPassed hMeet
    refine .inr (.inr (.inr ?_))
    rcases h.login with (⟨packet, hPc, _⟩ | ⟨packet, st, hPc, hSeat⟩) |
      ⟨st, reply, hSeat, hPc | hPc | hPc⟩ | ⟨st, hSeat, _, hPc | ⟨reply, hPc⟩⟩
    · exact absurd hPc (hTimely packet)
    all_goals exact hClosed st hSeat (by rw [hPc]; rfl)
  · exact .inl (h.dbOnly hDb)

/-! ### The message is stored -/

theorem Answers.congr (h : c.Answers S) (hPc : (S' c.h).pc c.x = (S c.h).pc c.x)
    (hSession : (S' c.h).node.sessions c.x = (S c.h).node.sessions c.x)
    (hChannel : (S' c.h).node.channel = (S c.h).node.channel)
    (hNodeid : (S' c.h).node.nodeid = (S c.h).node.nodeid) : c.Answers S' := by
  obtain ⟨st, reply, hSeat, hHolds, hStage⟩ := h
  refine ⟨st, reply, hSeat.congr (by rw [hSession]) hChannel hNodeid, hHolds, ?_⟩
  rw [hPc, hSession]
  exact hStage

theorem Kept.congr (h : c.Kept S) (hCalm : c.Calm S') (hPc : (S' c.h).pc c.x = (S c.h).pc c.x)
    (hSession : (S' c.h).node.sessions c.x = (S c.h).node.sessions c.x)
    (hChannel : (S' c.h).node.channel = (S c.h).node.channel)
    (hNodeid : (S' c.h).node.nodeid = (S c.h).node.nodeid)
    (hSend : (S' c.i).pc c.y = .acting c.packet .store [] ∨ (S' c.i).pc c.y = .routing [] ∨
      (S' c.i).pc c.y = .idle) : c.Kept S' :=
  ⟨hCalm, hSend, h.login.imp (·.congr hPc hSession hChannel hNodeid) (·.congr hPc hSession hChannel hNodeid)⟩

theorem Kept.went {pc : Pc} {n : Node} (h : c.Kept S) (hWent : Went c.h c.x pc n S S')
    (hRouter : n.router = (S c.h).node.router) (hPublished : n.published = (S c.h).node.published)
    (hLogin : c.Early S' ∨ c.Answers S') : c.Kept S' := by
  refine ⟨h.calm.went hWent (.inl ⟨rfl, rfl⟩) hRouter hPublished, ?_, hLogin⟩
  rw [hWent.others c.i c.y c.apart]
  exact h.send

/-- A message that is in the index when it is fetched is in the reply. -/
theorem holds_of_hget {j : JID} {n : Node}
    (hBare : j.stringWithoutResource = c.letter.recipient.stringWithoutResource) (id : Bytes)
    (hGet : Redis.hget n.db.store (offlineIndex c.letter.recipient) c.packet.envelope.id =
      some c.letter.raw) :
    c.Holds ((newPacketAuthSuccess id).addDelay (offlinePackets C n j)) := by
  refine ⟨_, rfl, List.mem_filterMap.mpr ⟨c.letter.raw, ?_, ?_⟩⟩
  · rw [getByIdx, JID.toOfflineKey_inj.mpr hBare]
    exact (Redis.mem_of_hget hGet).2
  · rw [c.decoded]
    rfl

theorem Kept.login_step {env : Env} (h : c.Kept S) (hTimely : c.Timely S (.within c.h (.go c.x env)))
    (hMeet : c.meet consumers S (.within c.h (.go c.x env)) = some S') : c.Kept S' := by
  have hWent : ∀ pc n, next C c.x env ((S c.h).pc c.x) (S c.h).node = .done pc n →
      Went c.h c.x pc n S S' := fun _ _ => went_of_meet hMeet
  rcases h.login with (⟨packet, hPc, hUser, hSession⟩ | ⟨packet, st, hPc, hSeat⟩) |
    ⟨st, reply, hSeat, hHolds, hPc | ⟨ds, hPc⟩ | ⟨hPc, _⟩⟩
  · have hNext := next_logon (C := C) c.x packet env (S c.h).node
    rw [← hPc] at hNext
    have hDone := hWent _ _ hNext
    obtain ⟨st, hSeat⟩ := seat_of_logon hUser hSession hDone.node
    exact h.went hDone rfl rfl (.inl (.inr ⟨packet, st, hDone.pc, hSeat⟩))
  · obtain ⟨j, _, hBare, hFetch⟩ := next_fetch hSeat packet env
    rw [← hPc] at hFetch
    have hDone := hWent _ _ hFetch
    have hSeat' : c.Seat S' st := hSeat.congr (by rw [hDone.node]) (by rw [hDone.node]) (by rw [hDone.node])
    have hGet := (hTimely.2.1 rfl rfl ⟨packet, hPc⟩).resolve_left (by
      intro hLooks
      rcases h.send with hPc | hPc | hPc
      all_goals cases hPc.symm.trans hLooks)
    exact h.went hDone rfl rfl
      (.inr ⟨st, _, hSeat', holds_of_hget hBare packet.envelope.id hGet, .inl hDone.pc⟩)
  · have hNext := next_publish hSeat reply env
    rw [← hPc] at hNext
    have hDone := hWent _ _ hNext
    have hSeat' : c.Seat S' st := hSeat.congr (by rw [hDone.node]) (by rw [hDone.node]) (by rw [hDone.node])
    exact h.went hDone rfl rfl (.inr ⟨st, reply, hSeat', hHolds, .inr (.inl ⟨_, hDone.pc⟩)⟩)
  · cases ds with
    | nil =>
      have hNext := next_answer (C := C) c.x reply env (S c.h).node
      rw [← hPc] at hNext
      have hDone := hWent _ _ hNext
      obtain ⟨s, _, hs, _⟩ := hSeat.session
      have hSession : (S' c.h).node.sessions c.x =
          some { s with written := s.written ++ [.answer reply] } := by
        rw [hDone.node, Node.updateSession_self, hs]
        rfl
      have hSeat' : c.Seat S' st := hSeat.congr (by rw [hSession, hs]; rfl) (by rw [hDone.node]; rfl)
        (by rw [hDone.node]; rfl)
      refine h.went hDone rfl rfl (.inr ⟨st, reply, hSeat', hHolds, .inr (.inr ⟨hDone.pc, _, hSession, ?_⟩)⟩)
      exact List.mem_append_right _ List.mem_cons_self
    | cons d ds =>
      have hStored : ∃ ds' db, next C c.x env ((S c.h).pc c.x) (S c.h).node =
          .done (.storing ds' reply) { (S c.h).node with db := db } := by
        rw [hPc]
        cases hSend : (S c.h).node.db.sendOne d with
        | some db => exact ⟨ds, db, next_storing hSend c.x env ds reply⟩
        | none =>
          refine ⟨[], (S c.h).node.db, bind_done ?_ _⟩
          rw [sendNext, hSend]
      obtain ⟨ds', db, hNext⟩ := hStored
      have hDone := hWent _ _ hNext
      have hSeat' : c.Seat S' st := hSeat.congr (by rw [hDone.node]) (by rw [hDone.node]) (by rw [hDone.node])
      exact h.went hDone rfl rfl (.inr ⟨st, reply, hSeat', hHolds, .inr (.inl ⟨ds', hDone.pc⟩)⟩)
  · exact absurd hPc (busy_of_meet hMeet)

theorem Kept.send_step {env : Env} (h : c.Kept S)
    (hMeet : c.meet consumers S (.within c.i (.go c.y env)) = some S') : c.Kept S' := by
  have hStep : ∃ pc db, (pc = .routing [] ∨ pc = .idle) ∧ next C c.y env ((S c.i).pc c.y) (S c.i).node =
      .done pc { (S c.i).node with db := db } := by
    rcases h.send with hPc | hPc | hPc
    · refine ⟨.routing [], (S c.i).node.db.send (offlineWrites C c.letter.recipient c.packet), .inl rfl, ?_⟩
      rw [hPc]
      exact bind_done (storePacket_ok c.newJID_packet _) _
    · refine ⟨.idle, (S c.i).node.db, .inr rfl, ?_⟩
      rw [hPc]
      rfl
    · exact absurd hPc (busy_of_meet hMeet)
  obtain ⟨pc, db, hPc, hNext⟩ := hStep
  have hDone := went_of_meet hMeet hNext
  have hNode : ∃ db, (S' c.h).node = { (S c.h).node with db := db } := by
    rcases eq_or_ne c.h c.i with hEq | hne
    · rw [hEq, hDone.node]
      exact ⟨db, rfl⟩
    · rw [hDone.rest c.h hne]
      exact ⟨_, rfl⟩
  obtain ⟨db', hNode⟩ := hNode
  refine h.congr (h.calm.went hDone (.inr ⟨rfl, rfl⟩) rfl rfl) (hDone.others c.h c.x c.apart_symm)
    (by rw [hNode]) (by rw [hNode]) (by rw [hNode]) (.inr ?_)
  rwa [hDone.pc]

theorem Kept.meet (h : c.Kept S) (hPlaced : c.Placed S) (hTimely : c.Timely S m)
    (hMeet : c.meet consumers S m = some S') : c.Kept S' ∨ c.Closed S' := by
  rcases h.calm.meet_cases hPlaced hTimely hMeet with ⟨env, rfl⟩ | ⟨env, rfl⟩ | ⟨env, rfl⟩ | hDb
  · exact .inl (h.login_step hTimely hMeet)
  · exact .inl (h.send_step hMeet)
  · refine .inr ?_
    rcases h.login with (⟨packet, hPc, _⟩ | ⟨packet, st, hPc, hSeat⟩) |
      ⟨st, reply, hSeat, _, hPc | ⟨ds, hPc⟩ | ⟨hPc, _⟩⟩
    · exact absurd hPc (hTimely packet)
    all_goals exact hSeat.closed (by rw [hPc]; rfl) hMeet
  · obtain ⟨db, hSame⟩ := hDb.same c.h
    obtain ⟨db', hSender⟩ := hDb.same c.i
    refine .inl (h.congr (h.calm.dbOnly hDb) (by rw [hSame]) (by rw [hSame]) (by rw [hSame])
      (by rw [hSame]) ?_)
    rw [hSender]
    exact h.send

end Crossing

end Sara
