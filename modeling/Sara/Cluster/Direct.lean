import Sara.Cluster.Once

/-! # Messages to one user

A message to one user keeps its text on the way: sessions, routers and data channels
hand on the bytes that the client of the sender wrote. So the packets with one text can
be counted wherever they are. While the directory says where the recipient is, every
packet that is accepted is under way to that session until it is written there.
-/

namespace Sara

open Lib Lib.Prog Lib.Transition Saradb Concurrent

set_option autoImplicit false

/-- The text of a message that is not for a group, and what the server reads in it. -/
structure Letter (C : Codec) where
  raw : Bytes
  packet : Packet
  recipient : JID
  read : newPacket C raw = .ok packet
  direct : packet.envelope.type ≠ msgTypeGroupChat
  addressed : newJID packet.envelope.to_ = .ok recipient

namespace Letter

variable {C : Codec} (l : Letter C)

def isIn (p : Packet) : Bool := p.raw = some l.raw

def isOn (it : RouterItem) : Bool := it.packet.any l.isIn

def isWritten : Written → Bool
  | .relay p => l.isIn p
  | .answer _ | .signal _ => false

theorem bytes_of_isWritten {data : Written} (h : l.isWritten data = true) :
    data.bytes C = l.raw ++ [endFlag] := by
  cases data with
  | relay p =>
    have hRaw : p.raw = some l.raw := of_decide_eq_true h
    simp only [Written.bytes, Packet.toJson, hRaw]
  | answer p => cases h
  | signal b => cases h

def writes (n : Node) (y : Bytes) : Nat :=
  ((n.sessions y).map fun s => s.written.countP l.isWritten).getD 0

/-! ## What does not move the text -/

structure Unmoved (n n' : Node) : Prop where
  sessions : ∀ y, (n.sessions y).isSome → (n'.sessions y).isSome
  router : n'.router.filter l.isOn = n.router.filter l.isOn
  published : n'.published.filter (l.isIn ·.2) = n.published.filter (l.isIn ·.2)
  writes : ∀ y, l.writes n' y = l.writes n y

instance : Std.Refl l.Unmoved where
  refl _ := ⟨fun _ h => h, rfl, rfl, fun _ => rfl⟩

instance : IsTrans Node l.Unmoved where
  trans _ _ _ h h' := ⟨fun y hy => h'.sessions y (h.sessions y hy), h'.router.trans h.router,
    h'.published.trans h.published, fun y => (h'.writes y).trans (h.writes y)⟩

variable {l} {n n' : Node} {x : Bytes}

theorem Unmoved.of_sessions (hSessions : n'.sessions = n.sessions) (hRouter : n'.router = n.router)
    (hPublished : n'.published.filter (l.isIn ·.2) = n.published.filter (l.isIn ·.2)) :
    l.Unmoved n n' := by
  refine ⟨fun y hy => hSessions ▸ hy, by rw [hRouter], hPublished, ?_⟩
  intro y
  rw [Letter.writes, Letter.writes, hSessions]

theorem Unmoved.updateSession {f : Session → Session}
    (hf : ∀ s, (f s).written.countP l.isWritten = s.written.countP l.isWritten) :
    l.Unmoved n (n.updateSession x f) := by
  refine ⟨?_, rfl, rfl, ?_⟩
  · intro y hy
    rcases eq_or_ne y x with rfl | hne
    · rwa [Node.updateSession_self, Option.isSome_map]
    · rwa [Node.updateSession_of_ne n hne]
  · intro y
    unfold Letter.writes
    rcases eq_or_ne y x with rfl | hne
    · rw [Node.updateSession_self, Option.map_map]
      congr
      funext s
      exact hf s
    · rw [Node.updateSession_of_ne n hne]

theorem unmoved_send (ds : List Dispatch) : Keeps l.Unmoved (modify fun n => n.send ds) :=
  fun _ => .of_sessions rfl rfl rfl

theorem unmoved_sendMessage (x : Bytes) {data : Written} (h : l.isWritten data = false) :
    Keeps l.Unmoved (sendMessage x data) := by
  intro n
  apply Unmoved.updateSession
  intro s
  rw [List.countP_append, List.countP_singleton, h]
  rfl

theorem unmoved_closeSession (x : Bytes) (env : Env) : Keeps l.Unmoved (closeSession C x env) :=
  closeSession_keeps unmoved_send (fun _ _ => .of_sessions rfl rfl rfl)
    (fun _ _ => .updateSession fun _ => rfl) x env

theorem unmoved_route {item : RouterItem} (h : l.isOn item = false) : l.Unmoved n (n.route item) := by
  unfold Node.route
  split
  · refine ⟨fun _ hy => hy, ?_, rfl, fun _ => rfl⟩
    rw [List.filter_append, List.filter_singleton, h]
    exact List.append_nil _
  · exact Std.Refl.refl n

theorem permits_unmoved : Permits l.Unmoved C where
  sendMessage x data hData := by
    apply unmoved_sendMessage
    cases data with
    | relay p => cases hData
    | answer p => rfl
    | signal b => rfl
  closeSession := unmoved_closeSession
  verifyKill _ _ := unmoved_route rfl
  cache _ _ _ := unmoved_send _

theorem unmoved_begin (x : Bytes) (i : Input) : l.Unmoved n (begin C x i n).state :=
  permits_unmoved.begin fun packet _ _ _ _ _ =>
    serverAck_keeps unmoved_send (fun _ _ _ => .updateSession fun _ => rfl) x packet n

theorem unmoved_routeAct {p : Packet} (h : l.isIn p = false) (x : Bytes) (d : Decision) :
    Keeps l.Unmoved (routeAct C x p d) := by
  refine routeAct_keeps (fun _ => .updateSession fun _ => rfl) (unmoved_sendMessage x h)
    (fun _ => unmoved_sendMessage x rfl) ?_ (storePacket_keeps unmoved_send p) d
  intro item hItem n
  apply unmoved_route
  rw [isOn, hItem]
  exact h

theorem unmoved_next {env : Env} {pc : Pc}
    (hAct : ∀ p d packets, pc = .acting p d packets → l.isIn p = false) :
    l.Unmoved n (next C x env pc n).state := by
  apply permits_unmoved.next
  · exact fun packet _ => .updateSession fun _ => rfl
  · exact fun packet _ => loginReply_keeps (fun _ _ _ => .of_sessions rfl rfl rfl) x packet n
  · intro d ds _ _
    unfold sendNext
    split
    · exact Std.Refl.refl n
    · exact .of_sessions rfl rfl rfl
  · exact fun p d packets hPc => unmoved_routeAct (hAct p d packets hPc) x d n

theorem unmoved_work {env : Env} {hand : Hand} (h : hand.packet.any l.isIn = false) :
    l.Unmoved n (work C env hand n).state := by
  apply permits_unmoved.work unmoved_send
  · intro it p hHand hPacket n
    refine .of_sessions rfl rfl ?_
    have hOther : l.isIn p = false := by
      rw [hHand] at h
      simpa [Hand.packet, hPacket] using h
    change (n.published ++ [(it.channel, p)]).filter _ = _
    rw [List.filter_append, List.filter_singleton, hOther]
    exact List.append_nil _
  · intro x p d hHand
    rw [hHand] at h
    exact unmoved_routeAct h x d n

/-! ## Reading a frame, reading a data channel -/

theorem raw_generateGroupPackets {packet : Packet} {env : Env} {packets : List Packet}
    (h : generateGroupPackets packet env n = .done (.ok packets) n') : ∀ p ∈ packets, p.raw = none := by
  obtain ⟨_, _, _, _, _, hMade⟩ := generateGroupPackets_ok h
  rw [genGroupPackets_eq] at hMade
  cases hMade
  intro p hp
  obtain ⟨_, _, rfl⟩ := List.mem_map.mp hp
  rfl

theorem not_isIn_of_raw {p : Packet} (h : p.raw = none) : l.isIn p = false := by
  rw [isIn, h]
  rfl

theorem request_chat {i : Input} {p : Packet} (h : request C i = .chat p) :
    ∃ q, newPacket C i.frame = .ok q ∧ p = stamped q i.env := by
  unfold request at h
  cases hPacket : newPacket C i.frame with
  | error e =>
    rw [hPacket] at h
    cases h
  | ok q =>
    simp only [hPacket] at h
    split at h
    · cases h
    · split at h
      · cases h
      · cases h
        exact ⟨q, rfl, rfl⟩

/-- A packet with the text is addressed as the text says. -/
def Intact (l : Letter C) (p : Packet) : Prop :=
  l.isIn p = true → p.envelope.to_ = l.packet.envelope.to_

theorem intact_of_newPacket {m : Bytes} {q : Packet} (h : newPacket C m = .ok q) : l.Intact q := by
  intro hIn
  have hRaw : some m = some l.raw := (newPacket_raw h).symm.trans (of_decide_eq_true hIn)
  cases hRaw
  cases h.symm.trans l.read
  rfl

/-- What a session is to route after a frame is the frame, or made for the members of a group. -/
theorem intact_begin {i : Input} {pc : Pc} (h : begin C x i n = .done pc n') :
    (∀ p ∈ pc.packets, l.Intact p) ∧ ∀ p d packets, pc ≠ .acting p d packets := by
  have hNone : ∀ pc : Pc, pc.packets = [] → ∀ p ∈ pc.packets, l.Intact p := by
    intro pc hPackets p hp
    rw [hPackets] at hp
    cases hp
  have hOpen : ∀ packets, pc = .routing packets → ∀ p ∈ packets, l.Intact p := by
    rintro packets rfl
    obtain ⟨s, _, _, hStatus⟩ := bind_eq_done_iff.mp h
    split at hStatus
    · obtain ⟨r, _, _, hPure⟩ := bind_eq_done_iff.mp hStatus
      match r with
      | none | some (_, _, some _) | some (_, _, none) => cases hPure
    split at hStatus
    · obtain ⟨_, _, _, hPure⟩ := bind_eq_done_iff.mp hStatus
      cases hPure
    cases hRequest : request C i with
    | ack packet =>
      simp only [hRequest] at hStatus
      obtain ⟨_, _, _, hPure⟩ := bind_eq_done_iff.mp hStatus
      cases hPure
    | group packet =>
      simp only [hRequest] at hStatus
      obtain ⟨r, _, hGenerate, hAnswer⟩ := bind_eq_done_iff.mp hStatus
      cases r with
      | ok made =>
        obtain ⟨_, _, _, hPure⟩ := bind_eq_done_iff.mp hAnswer
        cases hPure
        intro p hp hIn
        rw [not_isIn_of_raw (raw_generateGroupPackets hGenerate p hp)] at hIn
        cases hIn
      | error gerr =>
        obtain ⟨_, _, _, hPure⟩ := bind_eq_done_iff.mp hAnswer
        cases hPure
    | chat packet =>
      obtain ⟨q, hq, rfl⟩ := request_chat hRequest
      have hPackets : packets = [stamped q i.env] := by
        simp only [hRequest] at hStatus
        split at hStatus
        · obtain ⟨_, _, _, hPure⟩ := bind_eq_done_iff.mp hStatus
          cases hPure
          rfl
        · cases hStatus
          rfl
      rw [hPackets]
      intro p hp
      cases List.mem_singleton.mp hp
      have hIntact : l.Intact q := intact_of_newPacket hq
      exact hIntact
    | bad err =>
      simp only [hRequest] at hStatus
      obtain ⟨_, _, _, hClose⟩ := bind_eq_done_iff.mp hStatus
      obtain ⟨_, _, _, hPure⟩ := bind_eq_done_iff.mp hClose
      cases hPure
  obtain rfl | ⟨packet, jid, ss, rfl⟩ | ⟨packet, jid, rfl⟩ | ⟨packets, rfl⟩ := begin_done h
  · exact ⟨hNone _ rfl, fun _ _ _ hEq => by cases hEq⟩
  · exact ⟨hNone _ rfl, fun _ _ _ hEq => by cases hEq⟩
  · exact ⟨hNone _ rfl, fun _ _ _ hEq => by cases hEq⟩
  · exact ⟨hOpen packets rfl, fun _ _ _ hEq => by cases hEq⟩

theorem unmoved_routePacket {p : Packet} (h : l.isIn p = false) :
    Keeps l.Unmoved (Node.routePacket C p) := by
  unfold Node.routePacket
  split
  · exact Keeps.pure _
  · refine (Keeps.read _).bind fun found => ?_
    cases found with
    | some ssb => exact fun _ => unmoved_route h
    | none => exact storePacket_keeps unmoved_send p

/-- A data channel that reads something else does not move the text. -/
theorem unmoved_dataChannelHandler {message : Bytes} {env : Env}
    (h : ∀ q, newPacket C message = .ok q → q.envelope.type ≠ msgTypeGroupChat → l.isIn q = false) :
    l.Unmoved n (dataChannelHandler C message env n).state := by
  unfold dataChannelHandler
  cases hRead : newPacket C message with
  | error e => exact Std.Refl.refl n
  | ok q =>
    simp only
    split
    · have hGenerate := keeps_generateGroupPackets (R := l.Unmoved) (fun _ _ _ => unmoved_send _) q env n
      rw [bind_apply]
      match hResult : generateGroupPackets q env n with
      | .panic n' | .done (.error _) n' =>
        rw [hResult] at hGenerate
        exact hGenerate
      | .done (.ok packets) n' =>
        rw [hResult] at hGenerate
        have hRoute : Keeps l.Unmoved (packets.forM (Node.routePacket C)) := Keeps.forM fun p hp =>
          unmoved_routePacket (not_isIn_of_raw (raw_generateGroupPackets hResult p hp))
        exact IsTrans.trans _ _ _ hGenerate (hRoute n')
    · rename_i hType
      exact unmoved_routePacket (h q hRead hType) n

/-! ## Where the text is -/

/-- What happens to the text: a session accepts it for the recipient, a session finds that
it is for the session's own user, a worker sends it to another node. -/
inductive Event (k : Nat) where
  | accepted
  | reflected (i : Fin k) (x : Bytes)
  | crossed
deriving DecidableEq

def routes : Pc → Bool
  | .acting _ (.route _) _ => true
  | _ => false

section Where

variable {k : Nat} (l : Letter C) (h : Fin k) (ss : SessionStatus)

def onDecision (i : Fin k) (x : Bytes) : Decision → List (Event k)
  | .route _ => [.accepted]
  | .toMe => [.reflected i x]
  | .ignore | .notify _ | .store => []

def onGo (i : Fin k) (x : Bytes) : Pc → List (Event k)
  | .acting p d _ => if l.isIn p then onDecision i x d else []
  | _ => []

def onWork (channel : Bytes) : Hand → List (Event k)
  | .item it => if l.isOn it ∧ it.channel ≠ [] ∧ it.channel ≠ channel then [.crossed] else []
  | _ => []

def events (S : Cluster k) : Move k → List (Event k)
  | .within i (.go x _) => l.onGo i x ((S i).pc x)
  | .within i (.work w _) => l.onWork (S i).node.channel ((S i).hands w)
  | _ => []

def holding (hand : Hand) : Nat := if hand.packet.any l.isIn then 1 else 0

def ahead (s : System) : Nat :=
  (s.node.router.filter l.isOn).length + ∑ w ∈ Finset.range routerWorkerNum, l.holding (s.hands w)

def posted (n : Node) : Nat := (n.published.filter (l.isIn ·.2)).length

/-- The item takes the text to the session of the entry. -/
structure Bound (it : RouterItem) : Prop where
  channel : it.channel = ss.channel
  sid : it.sid = ss.sid
  signal : it.signal = 0
  intact : ∀ p ∈ it.packet, l.Intact p

def Carried (i : Fin k) : Hand → Prop
  | .free => True
  | .item it => l.isOn it = true → l.Bound ss it
  | .found it => l.isOn it = true → l.Bound ss it ∧ i = h
  | .acting y p d => l.isIn p = true → y = ss.sid ∧ d = .toMe ∧ i = h

/-- What a session is to do with the text, given whether there is such a session. -/
structure Outgoing (live : Prop) (pc : Pc) : Prop where
  intact : ∀ p ∈ pc.packets, l.Intact p
  live : ∀ p ∈ pc.packets, l.isIn p = true → live
  decided : ∀ p d packets, pc = .acting p d packets → l.isIn p = true →
    d = .ignore ∨ d = .toMe ∨ d = .route ss

/-- On node `i`, every packet with the text is on the way to the session of the entry. -/
structure Held (i : Fin k) (s : System) : Prop where
  pcs : ∀ x, l.Outgoing ss ((s.node.sessions x).isSome = true) (s.pc x)
  router : ∀ it ∈ s.node.router.filter l.isOn, l.Bound ss it
  hands : ∀ w, l.Carried h ss i (s.hands w)
  spare : ∀ w, routerWorkerNum ≤ w → l.holding (s.hands w) = 0
  published : ∀ e ∈ s.node.published.filter (l.isIn ·.2), e.1 = ss.channel

/-- What was written to the session of the entry, and what is under way to it. -/
def balance (i : Fin k) (s : System) : Nat :=
  l.ahead s + l.posted s.node + if i = h then l.writes s.node ss.sid else 0

def outlying (i : Fin k) (s : System) : Nat := if i = h then 0 else l.ahead s

/-- What a step of node `i` with these events does. -/
structure Ledger (i : Fin k) (E : List (Event k)) (s t : System) : Prop where
  held : l.Held h ss i t
  mine : ∀ j y, j ≠ i → E.count (.reflected j y) = 0
  others : ∀ y, i ≠ h ∨ y ≠ ss.sid →
    l.writes t.node y = l.writes s.node y + E.count (.reflected i y)
  balance : l.balance h ss i t =
    l.balance h ss i s + E.count .accepted + E.count (.reflected h ss.sid)
  outlying : l.outlying h i t + E.count .crossed ≤ l.outlying h i s + E.count .accepted

/-- On every node the entry of the recipient names a session of the recipient that is
logged in and registered on the one node with that channel. -/
structure Seated (S : Cluster k) : Prop where
  entry : ∀ i, entry C (S i).node l.recipient.stringWithoutResource = some ss
  nonempty : ss.channel ≠ []
  channel : ∀ i, (S i).node.channel = ss.channel ↔ i = h
  registered : (S h).node.sessionMap ss.sid = true
  session : ∃ sess ∈ (S h).node.sessions ss.sid, sess.status.status = .login ∧
    ∃ j ∈ (newJID sess.status.jid).toOption,
      j.stringWithoutResource = l.recipient.stringWithoutResource

end Where

/-- The calls to other nodes succeed, the router of a node that hands on a packet has room,
and the copies that the server made for the members of a group are read as such. -/
def Conveys (C : Codec) {k : Nat} (S : Cluster k) : Move k → Prop
  | .within i (.go x _) => routes ((S i).pc x) = true → (S i).node.router.length < routerQueueSize
  | .within i (.work w env) => ((S i).hands w).reaches env = true
  | .within _ _ => True
  | .deliver i j m _ => (S j).node.router.length < routerQueueSize ∧
    ∀ e ∈ (S i).node.published[m]?, e.2.raw = none →
      ∀ q ∈ (newPacket C (e.2.toJson C)).toOption, q.envelope.type = msgTypeGroupChat

/-! ## The steps of a node -/

section Steps

variable {k : Nat} {h i : Fin k} {ss : SessionStatus} {s t : System} {w : Nat} {hand : Hand} {pc : Pc}
variable {env : Env} {S : Cluster k}

theorem holding_eq_zero : l.holding hand = 0 ↔ hand.packet.any l.isIn = false := by
  unfold holding
  cases hand.packet.any l.isIn with
  | false => simp
  | true => simp

theorem carried_of_holding (hNone : l.holding hand = 0) : l.Carried h ss i hand := by
  rw [holding_eq_zero] at hNone
  cases hand with
  | free => trivial
  | item it => exact fun hOn => absurd hOn (Bool.eq_false_iff.mp hNone)
  | found it => exact fun hOn => absurd hOn (Bool.eq_false_iff.mp hNone)
  | acting y p d => exact fun hIn => absurd hIn (Bool.eq_false_iff.mp hNone)

theorem Outgoing.mono {live live' : Prop} (hOut : l.Outgoing ss live pc) (hLive : live → live') :
    l.Outgoing ss live' pc :=
  ⟨hOut.intact, fun p hp hIn => hLive (hOut.live p hp hIn), hOut.decided⟩

theorem Outgoing.of_packets {live : Prop} (hNone : pc.packets = []) : l.Outgoing ss live pc := by
  refine ⟨?_, ?_, ?_⟩
  · rw [hNone]
    exact fun p hp => by cases hp
  · rw [hNone]
    exact fun p hp => by cases hp
  · rintro p d packets rfl
    cases hNone

/-- A worker other than those there are holds nothing, so one hand counts for itself. -/
theorem Held.sum_hands (hHeld : l.Held h ss i s) (hSpare : routerWorkerNum ≤ w → l.holding hand = 0) :
    ∑ w' ∈ Finset.range routerWorkerNum, l.holding (Function.update s.hands w hand w') +
        l.holding (s.hands w) =
      ∑ w' ∈ Finset.range routerWorkerNum, l.holding (s.hands w') + l.holding hand := by
  by_cases hWorker : w < routerWorkerNum
  · exact sum_move (fun (_ : Nat) hand => l.holding hand) s.hands (Finset.mem_range.mpr hWorker) hand
  · have hOut := not_lt.mp hWorker
    rw [hSpare hOut, hHeld.spare w hOut]
    apply congrArg (· + 0)
    apply Finset.sum_congr rfl
    intro w' hw'
    have hne : w' ≠ w := by
      rw [Finset.mem_range] at hw'
      omega
    rw [Function.update_of_ne hne]

theorem Held.replace (hHeld : l.Held h ss i s)
    (hPcs : ∀ x, l.Outgoing ss ((t.node.sessions x).isSome = true) (t.pc x))
    (hRouter : ∀ it ∈ t.node.router.filter l.isOn, l.Bound ss it)
    (hHands : t.hands = Function.update s.hands w hand) (hHand : l.Carried h ss i hand)
    (hSpare : routerWorkerNum ≤ w → l.holding hand = 0)
    (hPublished : ∀ e ∈ t.node.published.filter (l.isIn ·.2), e.1 = ss.channel) :
    l.Held h ss i t := by
  refine ⟨hPcs, hRouter, ?_, ?_, hPublished⟩
  · intro w'
    rw [hHands]
    rcases eq_or_ne w' w with rfl | hne
    · rwa [Function.update_self]
    · rw [Function.update_of_ne hne]
      exact hHeld.hands w'
  · intro w' hw'
    rw [hHands]
    rcases eq_or_ne w' w with rfl | hne
    · rw [Function.update_self, hSpare hw']
    · rw [Function.update_of_ne hne, hHeld.spare w' hw']

theorem Ledger.of_eq (hHeld : l.Held h ss i t) (hAhead : l.ahead t = l.ahead s)
    (hPosted : l.posted t.node = l.posted s.node) (hWrites : ∀ y, l.writes t.node y = l.writes s.node y) :
    l.Ledger h ss i [] s t where
  held := hHeld
  mine _ _ _ := rfl
  others y _ := hWrites y
  balance := by simp only [Letter.balance, hAhead, hPosted, hWrites, List.count_nil, Nat.add_zero]
  outlying := by simp only [Letter.outlying, hAhead, List.count_nil, le_refl]

/-- A step that does not move the text, and changes at most one hand. -/
theorem Held.quiet (hHeld : l.Held h ss i s) (hUnmoved : l.Unmoved s.node t.node)
    (hPcs : ∀ x, l.Outgoing ss ((t.node.sessions x).isSome = true) (t.pc x))
    (hHands : t.hands = Function.update s.hands w hand)
    (hHand : l.Carried h ss i hand) (hSame : l.holding hand = l.holding (s.hands w)) :
    l.Ledger h ss i [] s t := by
  have hSpare : routerWorkerNum ≤ w → l.holding hand = 0 := fun hw => hSame.trans (hHeld.spare w hw)
  have hSum := hHeld.sum_hands hSpare
  apply Ledger.of_eq
  · apply hHeld.replace hPcs _ hHands hHand hSpare
    · rw [hUnmoved.published]
      exact hHeld.published
    · rw [hUnmoved.router]
      exact hHeld.router
  · unfold ahead
    rw [hUnmoved.router, hHands]
    omega
  · exact congrArg List.length hUnmoved.published
  · exact hUnmoved.writes

theorem update_hands (s : System) : s.hands = Function.update s.hands 0 (s.hands 0) :=
  (Function.update_eq_self 0 s.hands).symm

theorem Held.keep (hHeld : l.Held h ss i s) (hUnmoved : l.Unmoved s.node t.node)
    (hPcs : ∀ x, l.Outgoing ss ((t.node.sessions x).isSome = true) (t.pc x))
    (hHands : t.hands = s.hands) : l.Ledger h ss i [] s t :=
  hHeld.quiet hUnmoved hPcs (hHands.trans (update_hands s)) (hHeld.hands 0) rfl

theorem Held.outgoing (hHeld : l.Held h ss i s) (hUnmoved : l.Unmoved s.node n) (x : Bytes) :
    l.Outgoing ss ((n.sessions x).isSome = true) (s.pc x) :=
  (hHeld.pcs x).mono (hUnmoved.sessions x)

/-! ### Sessions -/

theorem Held.outgoing_update (hHeld : l.Held h ss i s) (hSessions : ∀ y, (s.node.sessions y).isSome →
      (n.sessions y).isSome)
    (hPc : l.Outgoing ss ((n.sessions x).isSome = true) pc) (y : Bytes) :
    l.Outgoing ss ((n.sessions y).isSome = true) (Function.update s.pc x pc y) := by
  rcases eq_or_ne y x with rfl | hne
  · rwa [Function.update_self]
  · rw [Function.update_of_ne hne]
    exact (hHeld.pcs y).mono (hSessions y)

theorem Held.session (hHeld : l.Held h ss i s) {m : Prog Node Pc}
    (hUnmoved : l.Unmoved s.node (m s.node).state)
    (hDone : ∀ pc n, m s.node = .done pc n → l.Outgoing ss ((n.sessions x).isSome = true) pc) :
    l.Ledger h ss i [] s (s.session x m) := by
  unfold System.session
  cases hResult : m s.node with
  | done pc n =>
    rw [hResult] at hUnmoved
    exact hHeld.keep hUnmoved (hHeld.outgoing_update hUnmoved.sessions (hDone pc n hResult)) rfl
  | panic n =>
    rw [hResult] at hUnmoved
    exact hHeld.keep hUnmoved (hHeld.outgoing_update hUnmoved.sessions (Outgoing.of_packets rfl)) rfl

theorem Held.recv (hHeld : l.Held h ss i s) (hSome : (s.node.sessions x).isSome) (input : Input) :
    l.Ledger h ss i [] s (s.session x (begin C x input)) := by
  have hUnmoved : l.Unmoved s.node (begin C x input s.node).state := unmoved_begin x input
  apply hHeld.session hUnmoved
  intro pc n hBegin
  rw [hBegin] at hUnmoved
  obtain ⟨hIntact, hActing⟩ : (∀ p ∈ pc.packets, l.Intact p) ∧ _ := intact_begin hBegin
  exact ⟨hIntact, fun _ _ _ => hUnmoved.sessions x hSome, fun p d packets hPc => absurd hPc (hActing p d packets)⟩

/-- The recipient is found where the directory says, or is the session's own user. -/
theorem decided_of_entry {p : Packet} {d : Decision} (hIntact : l.Intact p)
    (hEntry : entry C n l.recipient.stringWithoutResource = some ss)
    (hDecide : routeDecide C x p n = .done d n') (hIn : l.isIn p = true) :
    d = .ignore ∨ d = .toMe ∨ d = .route ss := by
  obtain ⟨_, hIgnore | ⟨_, _, r, _, _, _, hr, ⟨hToMe, _⟩ | ⟨_, _, _, hFound⟩⟩⟩ := routeDecide_done hDecide
  · exact .inl hIgnore
  · exact .inr (.inl hToMe)
  · rw [hIntact hIn] at hr
    cases hr.symm.trans l.addressed
    have hGet := (get_toSessionid rfl n).trans hEntry
    rw [hGet] at hFound
    exact .inr (.inr hFound)

/-- The next step of a session that is not about to hand on the text. -/
theorem Held.next (hHeld : l.Held h ss i s)
    (hEntry : entry C s.node l.recipient.stringWithoutResource = some ss)
    (hOther : ∀ p d packets, s.pc x = .acting p d packets → l.isIn p = false) :
    l.Ledger h ss i [] s (s.session x (next C x env (s.pc x))) := by
  have hUnmoved : l.Unmoved s.node (Concurrent.next C x env (s.pc x) s.node).state := unmoved_next hOther
  apply hHeld.session hUnmoved
  intro pc n hNext
  rw [hNext] at hUnmoved
  have hOut := hHeld.pcs x
  have hEnd : ∀ pc' : Pc, pc'.packets = [] → l.Outgoing ss ((n.sessions x).isSome = true) pc' :=
    fun _ => .of_packets
  match hPc : s.pc x with
  | .idle | .routing [] | .storing [] _ =>
    rw [hPc] at hNext
    cases next_done hNext
    exact hEnd _ rfl
  | .kill _ _ _ | .logon _ =>
    rw [hPc] at hNext
    cases next_done hNext
    exact hEnd _ rfl
  | .auth _ _ | .storing (_ :: _) _ =>
    rw [hPc] at hNext
    rcases next_done hNext with rfl | rfl
    · exact hEnd _ rfl
    · exact hEnd _ rfl
  | .fetch _ | .publish _ =>
    rw [hPc] at hNext
    obtain ⟨_, rfl⟩ := next_done hNext
    exact hEnd _ rfl
  | .routing (p :: packets) =>
    rw [hPc] at hNext hOut
    obtain ⟨d, _, hDecide, hPure⟩ := bind_eq_done_iff.mp hNext
    cases hPure
    refine ⟨hOut.intact, fun q hq hIn => hUnmoved.sessions x (hOut.live q hq hIn), ?_⟩
    intro q d' packets' hEq hIn
    cases hEq
    exact decided_of_entry (hOut.intact p List.mem_cons_self) hEntry hDecide hIn
  | .acting p d packets =>
    rw [hPc] at hNext hOut
    cases next_done hNext
    refine ⟨fun q hq => hOut.intact q (List.mem_cons_of_mem p hq), ?_, fun _ _ _ hEq => by cases hEq⟩
    exact fun q hq hIn => hUnmoved.sessions x (hOut.live q (List.mem_cons_of_mem p hq) hIn)

theorem writes_toMe {z : Bytes} {p : Packet} (hSome : (n.sessions z).isSome) (hIn : l.isIn p = true)
    (y : Bytes) :
    l.writes ((n.updateSession z (Session.buffer p)).updateSession z (Session.relay p)) y =
      l.writes n y + if y = z then 1 else 0 := by
  unfold writes
  rcases eq_or_ne y z with rfl | hne
  · obtain ⟨s, hs⟩ := Option.isSome_iff_exists.mp hSome
    rw [Node.updateSession_self, Node.updateSession_self, hs]
    simp [Session.buffer, Session.relay, isWritten, hIn]
  · rw [Node.updateSession_of_ne _ hne, Node.updateSession_of_ne _ hne, if_neg hne]
    rfl

theorem isSome_updateSession (n : Node) (z y : Bytes) (f : Session → Session) :
    ((n.updateSession z f).sessions y).isSome = (n.sessions y).isSome := by
  rcases eq_or_ne y z with rfl | hne
  · rw [Node.updateSession_self, Option.isSome_map]
  · rw [Node.updateSession_of_ne n hne]

theorem outgoing_routing {live : Prop} {p : Packet} {d : Decision} {packets : List Packet}
    (hOut : l.Outgoing ss live (.acting p d packets)) : l.Outgoing ss live (.routing packets) :=
  ⟨fun q hq => hOut.intact q (List.mem_cons_of_mem p hq),
    fun q hq => hOut.live q (List.mem_cons_of_mem p hq), fun _ _ _ hEq => by cases hEq⟩

theorem Held.enqueue (hHeld : l.Held h ss i s) {item : RouterItem} (hOn : l.isOn item = true)
    (hBound : l.Bound ss item) {pc' : Bytes → Pc} {crashed : Bool}
    (hPcs : ∀ x, l.Outgoing ss ((s.node.sessions x).isSome = true) (pc' x)) :
    let t := { s with
      node := { s.node with router := s.node.router ++ [item] }, pc := pc', crashed := crashed }
    l.Held h ss i t ∧ l.ahead t = l.ahead s + 1 := by
  have hFilter : (s.node.router ++ [item]).filter l.isOn = s.node.router.filter l.isOn ++ [item] := by
    rw [List.filter_append, List.filter_singleton, hOn]
    rfl
  constructor
  · refine hHeld.replace hPcs ?_ (update_hands s) (hHeld.hands 0) (hHeld.spare 0) hHeld.published
    intro it hit
    rw [hFilter] at hit
    rcases List.mem_append.mp hit with hOld | hNew
    · exact hHeld.router it hOld
    · cases List.mem_singleton.mp hNew
      exact hBound
  · simp only [ahead, hFilter, List.length_append, List.length_singleton]
    omega

theorem count_reflected (i j : Fin k) (x y : Bytes) :
    [Event.reflected i x].count (.reflected j y) = if i = j ∧ y = x then 1 else 0 := by
  by_cases hSame : i = j ∧ y = x
  · obtain ⟨rfl, rfl⟩ := hSame
    rw [if_pos ⟨rfl, rfl⟩, List.count_singleton_self]
  · rw [if_neg hSame]
    apply List.count_eq_zero.mpr
    intro hMem
    cases List.mem_singleton.mp hMem
    exact hSame ⟨rfl, rfl⟩

theorem Held.reflect (hHeld : l.Held h ss i s) {p : Packet} {packets : List Packet}
    (hPc : s.pc x = .acting p .toMe packets) (hIn : l.isIn p = true) :
    l.Ledger h ss i [.reflected i x] s { s with
      node := (s.node.updateSession x (Session.buffer p)).updateSession x (Session.relay p)
      pc := Function.update s.pc x (.routing packets) } := by
  have hOut := hHeld.pcs x
  rw [hPc] at hOut
  have hWrites := writes_toMe (hOut.live p List.mem_cons_self hIn) hIn
  have hSessions : ∀ y, (s.node.sessions y).isSome → (((s.node.updateSession x
      (Session.buffer p)).updateSession x (Session.relay p)).sessions y).isSome := by
    intro y hy
    rwa [isSome_updateSession, isSome_updateSession]
  constructor
  · exact hHeld.replace (hHeld.outgoing_update hSessions
        ((outgoing_routing hOut).mono (hSessions x))) hHeld.router (update_hands s) (hHeld.hands 0)
      (hHeld.spare 0) hHeld.published
  · intro j y hne
    rw [count_reflected, if_neg fun hSame => hne hSame.1.symm]
  · intro y _
    rw [count_reflected, hWrites]
    simp only [true_and]
  · have hSid := hWrites ss.sid
    rw [count_reflected]
    change l.ahead s + l.posted s.node + _ = l.ahead s + l.posted s.node + _ + 0 + _
    rw [hSid]
    by_cases hNode : i = h
    · simp only [hNode, if_true, true_and]
      omega
    · simp only [hNode, if_false, false_and]
  · exact le_refl _

theorem Held.accept (hHeld : l.Held h ss i s) {p : Packet} {packets : List Packet}
    (hPc : s.pc x = .acting p (.route ss) packets) (hIn : l.isIn p = true) :
    l.Ledger h ss i [.accepted] s { s with
      node := { s.node with router := s.node.router ++
        [{ channel := ss.channel, sid := ss.sid, packet := some p, signal := 0 }] }
      pc := Function.update s.pc x (.routing packets) } := by
  have hOut := hHeld.pcs x
  rw [hPc] at hOut
  have hBound : l.Bound ss { channel := ss.channel, sid := ss.sid, packet := some p, signal := 0 } := by
    refine ⟨rfl, rfl, rfl, ?_⟩
    intro q hq
    cases hq
    exact hOut.intact p List.mem_cons_self
  have hOn : l.isOn { channel := ss.channel, sid := ss.sid, packet := some p, signal := 0 } = true := hIn
  have hPcs : ∀ y, l.Outgoing ss ((s.node.sessions y).isSome = true)
      (Function.update s.pc x (.routing packets) y) :=
    hHeld.outgoing_update (fun _ hy => hy) (outgoing_routing hOut)
  obtain ⟨hHeld', hAhead⟩ := hHeld.enqueue hOn hBound hPcs
  constructor
  · exact hHeld'
  · exact fun _ _ _ => rfl
  · exact fun y _ => rfl
  · simp only [balance, hAhead]
    change _ + l.posted s.node + (if i = h then l.writes s.node ss.sid else 0) = _ + _ + 0
    rw [List.count_singleton_self]
    omega
  · change _ + 0 ≤ _
    rw [Nat.add_zero, List.count_singleton_self, outlying, outlying]
    split
    · exact Nat.zero_le 1
    · exact hAhead.le

theorem Held.go (hHeld : l.Held h ss i s)
    (hEntry : entry C s.node l.recipient.stringWithoutResource = some ss)
    (hRoom : ∀ p ss' packets, s.pc x = .acting p (.route ss') packets →
      s.node.router.length < routerQueueSize) :
    l.Ledger h ss i (l.onGo i x (s.pc x)) s (s.session x (Concurrent.next C x env (s.pc x))) := by
  by_cases hActing : ∃ p d packets, s.pc x = .acting p d packets ∧ l.isIn p = true
  · obtain ⟨p, d, packets, hPc, hIn⟩ := hActing
    have hOut := hHeld.pcs x
    rw [hPc] at hOut
    have hEvents : l.onGo i x (s.pc x) = onDecision i x d := by
      rw [hPc]
      exact if_pos hIn
    rw [hEvents]
    obtain rfl | rfl | rfl := hOut.decided p d packets rfl hIn
    · rw [hPc]
      apply hHeld.session (Std.Refl.refl s.node)
      intro pc n hNext
      cases hNext
      exact outgoing_routing hOut
    · have hDone := hHeld.reflect hPc hIn
      rw [hPc]
      exact hDone
    · have hDone := hHeld.accept hPc hIn
      have hFree := hRoom p ss packets hPc
      have hNext : Concurrent.next C x env (.acting p (.route ss) packets) s.node =
          .done (.routing packets) { s.node with router := s.node.router ++
            [{ channel := ss.channel, sid := ss.sid, packet := some p, signal := 0 }] } :=
        congrArg (Outcome.done _) (if_pos hFree)
      rw [hPc, System.session, hNext]
      exact hDone
  · have hOther : ∀ p d packets, s.pc x = .acting p d packets → l.isIn p = false := by
      intro p d packets hPc
      by_contra hIn
      exact hActing ⟨p, d, packets, hPc, Bool.eq_true_of_not_eq_false hIn⟩
    have hEvents : l.onGo i x (s.pc x) = [] := by
      cases hPc : s.pc x with
      | acting p d packets =>
        rw [onGo, hOther p d packets hPc]
        rfl
      | idle | kill | auth | logon | fetch | publish | storing | routing => rfl
    rw [hEvents]
    exact hHeld.next hEntry hOther

/-! ### Workers -/

theorem Held.take (hHeld : l.Held h ss i s) {it : RouterItem} {rest : List RouterItem}
    (hRouter : s.node.router = it :: rest) (hWorker : w < routerWorkerNum) (hFree : s.hands w = .free) :
    l.Ledger h ss i [] s { s with
      node := { s.node with router := rest }
      hands := Function.update s.hands w (.item it) } := by
  have hItems := hHeld.router
  rw [hRouter] at hItems
  have hSpare : routerWorkerNum ≤ w → l.holding (.item it) = 0 := fun hw => absurd hWorker (not_lt.mpr hw)
  have hSum := hHeld.sum_hands hSpare
  apply Ledger.of_eq
  · refine hHeld.replace hHeld.pcs ?_ rfl ?_ hSpare hHeld.published
    · intro it' hit
      exact hItems it' ((List.sublist_cons_self it rest).filter _ |>.subset hit)
    · exact fun hOn => hItems it (List.mem_filter.mpr ⟨List.mem_cons_self, hOn⟩)
  · have hOne : l.holding (.item it) = if l.isOn it then 1 else 0 := rfl
    have hNone : l.holding (s.hands w) = 0 := by
      rw [hFree]
      rfl
    rw [hOne, hNone] at hSum
    simp only [ahead, hRouter, List.filter_cons]
    split at hSum
    · rename_i hOn
      rw [if_pos hOn, List.length_cons]
      omega
    · rename_i hOff
      rw [if_neg hOff]
      omega
  · rfl
  · exact fun y => rfl

theorem Held.workOther (hHeld : l.Held h ss i s) (hOther : l.holding (s.hands w) = 0) :
    l.Ledger h ss i [] s (s.worker w (work C env (s.hands w))) := by
  have hUnmoved : l.Unmoved s.node (work C env (s.hands w) s.node).state :=
    unmoved_work (holding_eq_zero.mp hOther)
  unfold System.worker
  cases hWork : work C env (s.hands w) s.node with
  | done hand n =>
    rw [hWork] at hUnmoved
    have hNone : l.holding hand = 0 := by
      rw [holding_eq_zero] at hOther ⊢
      rcases packet_work hWork with hFree | hSame
      · rw [hFree]
        rfl
      · rwa [hSame]
    exact hHeld.quiet hUnmoved (hHeld.outgoing hUnmoved) rfl (carried_of_holding hNone)
      (hNone.trans hOther.symm)
  | panic n =>
    rw [hWork] at hUnmoved
    exact hHeld.keep hUnmoved (hHeld.outgoing hUnmoved) rfl

/-- A worker that goes on with the text changes nothing else. -/
theorem Held.workOn (hHeld : l.Held h ss i s)
    (hWork : work C env (s.hands w) s.node = .done hand s.node) (hHand : l.Carried h ss i hand)
    (hSame : l.holding hand = l.holding (s.hands w)) :
    l.Ledger h ss i [] s (s.worker w (work C env (s.hands w))) := by
  unfold System.worker
  rw [hWork]
  exact hHeld.quiet (Std.Refl.refl s.node) hHeld.pcs rfl hHand hSame

theorem Held.workAway (hHeld : l.Held h ss i s) {it : RouterItem} {p : Packet}
    (hHand : s.hands w = .item it) (hPacket : it.packet = some p) (hIn : l.isIn p = true)
    (hChannel : it.channel = ss.channel) (hNode : i ≠ h) :
    l.Ledger h ss i [.crossed] s { s with
      node := { s.node with published := s.node.published ++ [(it.channel, p)] }
      hands := Function.update s.hands w .free } := by
  have hSum : _ + l.holding (s.hands w) = _ + l.holding .free := hHeld.sum_hands fun _ => rfl
  have hOne : l.holding (s.hands w) = 1 := by
    rw [hHand, holding, Hand.packet, hPacket, Option.any_some, hIn]
    rfl
  have hFilter : (s.node.published ++ [(it.channel, p)]).filter (l.isIn ·.2) =
      s.node.published.filter (l.isIn ·.2) ++ [(it.channel, p)] := by
    rw [List.filter_append, List.filter_singleton, hIn]
    rfl
  have hZero : l.holding .free = 0 := rfl
  rw [hOne, hZero] at hSum
  constructor
  · refine hHeld.replace hHeld.pcs hHeld.router rfl trivial (fun _ => rfl) ?_
    intro e he
    rw [hFilter] at he
    rcases List.mem_append.mp he with hOld | hNew
    · exact hHeld.published e hOld
    · cases List.mem_singleton.mp hNew
      exact hChannel
  · exact fun _ _ _ => rfl
  · exact fun y _ => rfl
  · simp only [balance, if_neg hNode, ahead, posted, hFilter, List.length_append,
      List.length_singleton]
    change _ = _ + 0 + 0
    omega
  · simp only [outlying, if_neg hNode, ahead, List.count_singleton_self]
    change _ ≤ _ + 0
    omega

theorem holding_eq_one (hHold : l.holding hand ≠ 0) :
    ∃ p, hand.packet = some p ∧ l.isIn p = true ∧ l.holding hand = 1 := by
  unfold holding at hHold ⊢
  cases hPacket : hand.packet with
  | none =>
    rw [hPacket] at hHold
    exact absurd rfl hHold
  | some p =>
    rw [hPacket, Option.any_some] at hHold
    have hIn : l.isIn p = true := by
      by_contra hOut
      exact hHold (if_neg hOut)
    exact ⟨p, rfl, hIn, if_pos hIn⟩

/-- What a worker of node `i` makes of the text: the hand it has then, and the node. -/
inductive Worked (l : Letter C) (h : Fin k) (ss : SessionStatus) (i : Fin k) (n : Node) :
    Hand → Hand → Node → Prop where
  | here (it : RouterItem) (hBound : l.Bound ss it) (hHere : it.channel = n.channel) (hNode : i = h) :
    l.Worked h ss i n (.item it) (.found it) n
  | away (it : RouterItem) (p : Packet) (hPacket : it.packet = some p) (hIn : l.isIn p = true)
      (hBound : l.Bound ss it) (hNonempty : it.channel ≠ []) (hAway : it.channel ≠ n.channel)
      (hNode : i ≠ h) :
    l.Worked h ss i n (.item it) .free { n with published := n.published ++ [(it.channel, p)] }
  | decided (it : RouterItem) (p : Packet) (hPacket : it.packet = some p) (hIn : l.isIn p = true)
      (hBound : l.Bound ss it) (hNode : i = h) :
    l.Worked h ss i n (.found it) (.acting it.sid p .toMe) n
  | written (p : Packet) (hIn : l.isIn p = true) (hNode : i = h) (hSome : (n.sessions ss.sid).isSome) :
    l.Worked h ss i n (.acting ss.sid p .toMe) .free
      ((n.updateSession ss.sid (Session.buffer p)).updateSession ss.sid (Session.relay p))

theorem work_letter (hHeld : l.Held h ss i (S i)) (hSeated : l.Seated h ss S)
    (hHold : l.holding ((S i).hands w) ≠ 0) (hReaches : ((S i).hands w).reaches env = true) :
    ∃ hand n, work C env ((S i).hands w) (S i).node = .done hand n ∧
      l.Worked h ss i (S i).node ((S i).hands w) hand n := by
  obtain ⟨p, hPacket, hIn, _⟩ := holding_eq_one hHold
  have hCarried := hHeld.hands w
  obtain ⟨sess, hs, hLogin, j, hj, hBare⟩ := hSeated.session
  generalize (S i).hands w = hand at hHold hReaches hPacket hCarried ⊢
  have hOn : ∀ it : RouterItem, it.packet = some p → l.isOn it = true := by
    intro it hp
    rw [isOn, hp]
    exact hIn
  cases hand with
  | free => cases hPacket
  | item it =>
    have hBound := hCarried (hOn it hPacket)
    by_cases hHere : it.channel = (S i).node.channel
    · have hNode : i = h := (hSeated.channel i).mp (hHere.symm.trans hBound.channel)
      have hMap : (S i).node.sessionMap it.sid = true := by
        rw [hNode, hBound.sid]
        exact hSeated.registered
      exact ⟨_, _, work_item_here (.inr hHere) hMap env, .here it hBound hHere hNode⟩
    · have hNonempty : it.channel ≠ [] := hBound.channel ▸ hSeated.nonempty
      have hNode : i ≠ h := fun hEq =>
        hHere (hBound.channel.trans ((hSeated.channel i).mpr hEq).symm)
      exact ⟨_, _, work_item_away hNonempty hHere hPacket hReaches,
        .away it p hPacket hIn hBound hNonempty hHere hNode⟩
  | found it =>
    obtain ⟨hBound, rfl⟩ := hCarried (hOn it hPacket)
    have hTo : newJID p.envelope.to_ = .ok l.recipient := by
      rw [hBound.intact p hPacket hIn]
      exact l.addressed
    have hDecide : routeDecide C it.sid p (S i).node = .done .toMe (S i).node := by
      rw [hBound.sid]
      exact routeDecide_toMe hs hLogin (toOption_eq_some_iff.mp hj) hTo hBare
    exact ⟨_, _, work_found_packet hBound.signal hPacket hDecide env,
      .decided it p hPacket hIn hBound rfl⟩
  | acting y q d =>
    cases hPacket
    obtain ⟨rfl, rfl, rfl⟩ := hCarried hIn
    exact ⟨_, _, bind_done (routeAct_toMe (S i).node ss.sid p) _,
      .written p hIn rfl (Option.isSome_of_mem hs)⟩

theorem Held.workWritten (hHeld : l.Held h ss h s) {p : Packet} (hIn : l.isIn p = true)
    (hHand : s.hands w = .acting ss.sid p .toMe) (hSome : (s.node.sessions ss.sid).isSome) :
    l.Ledger h ss h [] s { s with
      node := (s.node.updateSession ss.sid (Session.buffer p)).updateSession ss.sid (Session.relay p)
      hands := Function.update s.hands w .free } := by
  have hWrites := writes_toMe hSome hIn
  have hSum : _ + l.holding (s.hands w) = _ + l.holding .free := hHeld.sum_hands fun _ => rfl
  have hOne : l.holding (s.hands w) = 1 := by
    rw [hHand]
    exact if_pos hIn
  have hZero : l.holding .free = 0 := rfl
  rw [hOne, hZero] at hSum
  constructor
  · refine hHeld.replace ?_ hHeld.router rfl trivial (fun _ => rfl) hHeld.published
    intro x
    apply (hHeld.pcs x).mono
    intro hx
    rwa [isSome_updateSession, isSome_updateSession]
  · exact fun _ _ _ => rfl
  · intro y hy
    have hOther : y ≠ ss.sid := hy.resolve_left (not_not.mpr rfl)
    rw [hWrites, if_neg hOther]
    rfl
  · have hSid := hWrites ss.sid
    rw [if_pos rfl] at hSid
    have hRest : ∀ f f', let n := s.node
        ((n.updateSession ss.sid f).updateSession ss.sid f').router = n.router ∧
        ((n.updateSession ss.sid f).updateSession ss.sid f').published = n.published :=
      fun _ _ => ⟨rfl, rfl⟩
    simp only [balance, if_true, hSid, ahead, posted, (hRest _ _).1, (hRest _ _).2, List.count_nil]
    omega
  · simp only [outlying, if_true, List.count_nil, le_refl]

theorem Held.work (hHeld : l.Held h ss i (S i)) (hSeated : l.Seated h ss S)
    (hReaches : ((S i).hands w).reaches env = true) :
    l.Ledger h ss i (l.onWork (S i).node.channel ((S i).hands w)) (S i)
      ((S i).worker w (Concurrent.work C env ((S i).hands w))) := by
  by_cases hOther : l.holding ((S i).hands w) = 0
  · have hEvents : l.onWork (k := k) (S i).node.channel ((S i).hands w) = [] := by
      cases hHand : (S i).hands w with
      | item it =>
        rw [hHand, holding_eq_zero] at hOther
        have hOff : l.isOn it = false := hOther
        exact if_neg fun hAway => by simp [hOff] at hAway
      | free | found | acting => rfl
    rw [hEvents]
    exact hHeld.workOther hOther
  · obtain ⟨hand, n, hWork, hWorked⟩ := work_letter hHeld hSeated hOther hReaches
    have hOn : Concurrent.work C env ((S i).hands w) (S i).node = .done hand (S i).node →
        l.Carried h ss i hand → l.holding hand = l.holding ((S i).hands w) →
        l.Ledger h ss i [] (S i) ((S i).worker w (Concurrent.work C env ((S i).hands w))) :=
      hHeld.workOn
    generalize hHand : (S i).hands w = hand₀ at hWorked hWork hOn hOther ⊢
    cases hWorked with
    | here it hBound hHere hNode =>
      rw [show l.onWork (k := k) (S i).node.channel (.item it) = [] from
        if_neg fun hAway => hAway.2.2 hHere]
      exact hOn hWork (fun _ => ⟨hBound, hNode⟩) rfl
    | away it p hPacket hIn hBound hNonempty hAway hNode =>
      have hItem : l.isOn it = true := by
        rw [isOn, hPacket]
        exact hIn
      rw [show l.onWork (k := k) (S i).node.channel (.item it) = [.crossed] from
        if_pos ⟨hItem, hNonempty, hAway⟩, System.worker, hWork]
      exact hHeld.workAway hHand hPacket hIn hBound.channel hNode
    | decided it p hPacket hIn hBound hNode =>
      refine hOn hWork (fun _ => ⟨hBound.sid, rfl, hNode⟩) ?_
      simp only [holding, Hand.packet, hPacket]
      rfl
    | written p hIn hNode hSome =>
      subst hNode
      rw [System.worker, hWork]
      exact hHeld.workWritten hIn hHand hSome

theorem unmoved_connect (hNew : s.node.sessions x = none) (sess : Session) (hs : sess.written = []) :
    l.Unmoved s.node { s.node with sessions := Function.update s.node.sessions x (some sess) } := by
  refine ⟨?_, rfl, rfl, ?_⟩
  · intro y hy
    rcases eq_or_ne y x with rfl | hne
    · simp only [Function.update_self, Option.isSome_some]
    · simpa only [Function.update_of_ne hne] using hy
  · intro y
    unfold writes
    rcases eq_or_ne y x with rfl | hne
    · simp only [Function.update_self, hNew, Option.map_some, hs, List.countP_nil, Option.map_none,
        Option.getD_some, Option.getD_none]
    · simp only [Function.update_of_ne hne]

theorem Held.step {consumers : Nat} {a : Action} (hHeld : l.Held h ss i (S i))
    (hSeated : l.Seated h ss S) (hConveys : Conveys C S (.within i a))
    (hStep : step C consumers (S i) a = some t) :
    l.Ledger h ss i (l.events S (.within i a)) (S i) t := by
  cases stepped_of_step C hStep with
  | connect x hSid hNew =>
    have hUnmoved := unmoved_connect (l := l) hNew
      (newSession (S i).node.channel x (S i).node.nodeid) rfl
    exact hHeld.keep hUnmoved (hHeld.outgoing hUnmoved) rfl
  | register x | clean sid rest | dtake ch db | dexec ch i db =>
    exact hHeld.keep (.of_sessions rfl rfl rfl) hHeld.pcs rfl
  | recv x input hIdle sess hs => exact hHeld.recv (Option.isSome_of_mem hs) input
  | go x env hBusy =>
    apply hHeld.go (hSeated.entry i)
    intro p ss' packets hPc
    apply hConveys
    rw [hPc]
    rfl
  | close x env sess hs =>
    have hUnmoved : l.Unmoved (S i).node (closeSession C x env (S i).node).state :=
      unmoved_closeSession x env _
    exact hHeld.keep hUnmoved (hHeld.outgoing hUnmoved) rfl
  | take w it rest hRouter hWorker hFree => exact hHeld.take hRouter hWorker hFree
  | work w env hBusy => exact hHeld.work hSeated hConveys

/-! ### Data channels -/

theorem Held.unpublish (hHeld : l.Held h ss i s) {m : Nat} {e : Bytes × Packet}
    (he : s.node.published[m]? = some e) :
    l.Held h ss i (s.unpublish m) ∧
      l.balance h ss i (s.unpublish m) + (if l.isIn e.2 then 1 else 0) = l.balance h ss i s := by
  have hErase : (e :: s.node.published.eraseIdx m).Perm s.node.published := by
    obtain ⟨hm, rfl⟩ := List.getElem?_eq_some_iff.mp he
    exact List.getElem_cons_eraseIdx_perm hm
  have hLength := (hErase.filter (l.isIn ·.2)).length_eq
  constructor
  · refine ⟨hHeld.pcs, hHeld.router, hHeld.hands, hHeld.spare, ?_⟩
    intro e' he'
    exact hHeld.published e' (((List.eraseIdx_sublist ..).filter _).subset he')
  · have hBalance : l.balance h ss i (s.unpublish m) = l.ahead s +
      ((s.node.published.eraseIdx m).filter (l.isIn ·.2)).length +
        if i = h then l.writes s.node ss.sid else 0 := rfl
    rw [List.filter_cons] at hLength
    rw [hBalance, balance, posted, ← hLength]
    by_cases hIn : l.isIn e.2 = true
    · rw [if_pos hIn, if_pos hIn, List.length_cons]
      omega
    · rw [if_neg hIn, if_neg hIn]
      omega

/-- The recipient's node reads the text and looks the recipient up once more. -/
theorem dataChannelHandler_raw (hEntry : entry C n l.recipient.stringWithoutResource = some ss)
    (hRoom : n.router.length < routerQueueSize) :
    dataChannelHandler C l.raw env n = .done () { n with router := n.router ++
      [{ channel := ss.channel, sid := ss.sid, packet := some l.packet, signal := 0 }] } := by
  have hGet := (get_toSessionid (C := C) rfl n).trans hEntry
  obtain ⟨ssb, hFound, rfl⟩ := Option.map_eq_some_iff.mp hGet
  unfold dataChannelHandler Node.routePacket
  simp only [l.read, l.direct, if_false, l.addressed]
  rw [bind_done (read_apply _ n), hFound]
  exact congrArg (Outcome.done _) (if_pos hRoom)

theorem Held.handle (hHeld : l.Held h ss i s) {e : Bytes × Packet} (env : Env)
    (hHere : l.isIn e.2 = true → i = h)
    (hEntry : entry C s.node l.recipient.stringWithoutResource = some ss)
    (hRoom : s.node.router.length < routerQueueSize)
    (hRead : e.2.raw = none → ∀ q ∈ (newPacket C (e.2.toJson C)).toOption,
      q.envelope.type = msgTypeGroupChat) :
    let t := s.handle (dataChannelHandler C (e.2.toJson C) env)
    l.Held h ss i t ∧ (∀ y, l.writes t.node y = l.writes s.node y) ∧
      l.balance h ss i t = l.balance h ss i s + (if l.isIn e.2 then 1 else 0) ∧
      l.outlying h i t ≤ l.outlying h i s := by
  intro t
  by_cases hIn : l.isIn e.2 = true
  · have hRaw : e.2.raw = some l.raw := of_decide_eq_true hIn
    have hJson : e.2.toJson C = l.raw := by rw [Packet.toJson, hRaw]
    have hDone : t = { s with node := { s.node with router := s.node.router ++
        [{ channel := ss.channel, sid := ss.sid, packet := some l.packet, signal := 0 }] } } := by
      change s.handle (dataChannelHandler C (e.2.toJson C) env) = _
      rw [hJson, System.handle, dataChannelHandler_raw hEntry hRoom]
    have hOn : l.isOn { channel := ss.channel, sid := ss.sid, packet := some l.packet, signal := 0 } =
        true := decide_eq_true (newPacket_raw l.read)
    have hBound : l.Bound ss
        { channel := ss.channel, sid := ss.sid, packet := some l.packet, signal := 0 } := by
      refine ⟨rfl, rfl, rfl, ?_⟩
      rintro q hq _
      cases hq
      rfl
    obtain ⟨hHeld', hAhead⟩ := hHeld.enqueue hOn hBound hHeld.pcs
    rw [← hDone] at hHeld' hAhead
    have hPosted : l.posted t.node = l.posted s.node := by
      rw [hDone]
      rfl
    have hWrites : ∀ y, l.writes t.node y = l.writes s.node y := by
      rw [hDone]
      exact fun y => rfl
    refine ⟨hHeld', hWrites, ?_, ?_⟩
    · simp only [balance, hAhead, hPosted, hWrites, if_pos hIn]
      omega
    · simp only [outlying, if_pos (hHere hIn), le_refl]
  · have hOther : ∀ q, newPacket C (e.2.toJson C) = .ok q → q.envelope.type ≠ msgTypeGroupChat →
        l.isIn q = false := by
      intro q hq hType
      cases hRaw : e.2.raw with
      | none => exact absurd (hRead hRaw q (toOption_eq_some_iff.mpr hq)) hType
      | some m =>
        have hJson : e.2.toJson C = m := by rw [Packet.toJson, hRaw]
        rw [hJson] at hq
        rw [isIn, newPacket_raw hq, ← hRaw]
        exact Bool.eq_false_of_not_eq_true hIn
    have hUnmoved : l.Unmoved s.node (dataChannelHandler C (e.2.toJson C) env s.node).state :=
      unmoved_dataChannelHandler hOther
    obtain ⟨crashed, hDone⟩ := exists_handle s (dataChannelHandler C (e.2.toJson C) env)
    have hLedger : l.Ledger h ss i [] s t := by
      change l.Ledger h ss i [] s (s.handle (dataChannelHandler C (e.2.toJson C) env))
      rw [hDone]
      exact hHeld.keep hUnmoved (hHeld.outgoing hUnmoved) rfl
    refine ⟨hLedger.held, ?_, ?_, ?_⟩
    · change ∀ y, l.writes (s.handle (dataChannelHandler C (e.2.toJson C) env)).node y = _
      rw [hDone]
      exact hUnmoved.writes
    · rw [if_neg hIn]
      simpa only [List.count_nil, Nat.add_zero] using hLedger.balance
    · simpa only [List.count_nil, Nat.add_zero] using hLedger.outlying

end Steps

/-! ## All nodes together -/

section Cluster

variable {k : Nat} {h : Fin k} {ss : SessionStatus} {S T : Cluster k}

/-- What a move with these events does to the books of all nodes. -/
structure Books (l : Letter C) (h : Fin k) (ss : SessionStatus) (E : List (Event k))
    (S T : Cluster k) : Prop where
  held : ∀ i, l.Held h ss i (T i)
  others : ∀ i y, i ≠ h ∨ y ≠ ss.sid →
    l.writes (T i).node y = l.writes (S i).node y + E.count (.reflected i y)
  balance : ∑ i, l.balance h ss i (T i) =
    ∑ i, l.balance h ss i (S i) + E.count .accepted + E.count (.reflected h ss.sid)
  outlying : ∑ i, l.outlying h i (T i) + E.count .crossed ≤ ∑ i, l.outlying h i (S i) + E.count .accepted

theorem held_update {i : Fin k} {t : System} (hHeld : ∀ i, l.Held h ss i (S i))
    (ht : l.Held h ss i t) (j : Fin k) : l.Held h ss j (Function.update S i t j) := by
  rcases eq_or_ne j i with rfl | hne
  · rwa [Function.update_self]
  · rw [Function.update_of_ne hne]
    exact hHeld j

theorem Ledger.books {i : Fin k} {E : List (Event k)} {t : System} (hHeld : ∀ i, l.Held h ss i (S i))
    (hLedger : l.Ledger h ss i E (S i) t) : l.Books h ss E S (Function.update S i t) := by
  constructor
  · exact held_update hHeld hLedger.held
  · intro j y hy
    rcases eq_or_ne j i with rfl | hne
    · rw [Function.update_self]
      exact hLedger.others y hy
    · rw [Function.update_of_ne hne, hLedger.mine j y hne]
      rfl
  · have hSum := sum_move (l.balance h ss) S (Finset.mem_univ i) t
    have hNode := hLedger.balance
    omega
  · have hSum := sum_move (l.outlying h) S (Finset.mem_univ i) t
    have hNode := hLedger.outlying
    omega

theorem books_move {consumers : Nat} {a : Move k} (hHeld : ∀ i, l.Held h ss i (S i))
    (hSeated : l.Seated h ss S) (hConveys : Conveys C S a) (hMove : move C consumers S a = some T) :
    l.Books h ss (l.events S a) S T := by
  cases moved_of_move hMove with
  | within i a t hStep => exact Ledger.books hHeld ((hHeld i).step hSeated hConveys hStep)
  | deliver i j m env e he hChannel sent hSent =>
    obtain ⟨hRoom, hRead⟩ := hConveys
    obtain ⟨hTaken, hErase⟩ := (hHeld i).unpublish he
    have hSentHeld : ∀ j, l.Held h ss j (sent j) := by
      rw [hSent]
      exact held_update hHeld hTaken
    have hSame : ∀ j, (sent j).node.router = (S j).node.router ∧
        entry C (sent j).node l.recipient.stringWithoutResource = some ss ∧
        (∀ y, l.writes (sent j).node y = l.writes (S j).node y) ∧
        l.outlying h j (sent j) = l.outlying h j (S j) := by
      intro j
      rw [hSent]
      rcases eq_or_ne j i with rfl | hne
      · rw [Function.update_self]
        exact ⟨rfl, hSeated.entry j, fun _ => rfl, rfl⟩
      · rw [Function.update_of_ne hne]
        exact ⟨rfl, hSeated.entry j, fun _ => rfl, rfl⟩
    have hHere : l.isIn e.2 = true → j = h := by
      intro hIn
      have hTo := (hHeld i).published e (List.mem_filter.mpr ⟨List.mem_of_getElem? he, hIn⟩)
      exact (hSeated.channel j).mp (hChannel.symm.trans hTo)
    obtain ⟨hDone, hWrites, hBalance, hOutlying⟩ := (hSentHeld j).handle env hHere
      (hSame j).2.1 ((hSame j).1 ▸ hRoom) (hRead e he)
    constructor
    · exact held_update hSentHeld hDone
    · intro i' y _
      rcases eq_or_ne i' j with rfl | hne
      · rw [Function.update_self, hWrites, (hSame i').2.2.1]
        rfl
      · rw [Function.update_of_ne hne, (hSame i').2.2.1]
        rfl
    · have hFirst := sum_move (l.balance h ss) S (Finset.mem_univ i) ((S i).unpublish m)
      have hSecond := sum_move (l.balance h ss) sent (Finset.mem_univ j)
        ((sent j).handle (dataChannelHandler C (e.2.toJson C) env))
      rw [← hSent] at hFirst
      simp only [events, List.count_nil]
      omega
    · have hSecond := sum_move (l.outlying h) sent (Finset.mem_univ j)
        ((sent j).handle (dataChannelHandler C (e.2.toJson C) env))
      have hFirst : ∑ j, l.outlying h j (sent j) = ∑ j, l.outlying h j (S j) :=
        Finset.sum_congr rfl fun j _ => (hSame j).2.2.2
      simp only [events, List.count_nil]
      omega

structure Absent (l : Letter C) (s : System) : Prop where
  pcs : ∀ x, ∀ p ∈ (s.pc x).packets, l.isIn p = false
  router : ∀ it ∈ s.node.router, l.isOn it = false
  hands : ∀ w, l.holding (s.hands w) = 0
  published : ∀ e ∈ s.node.published, l.isIn e.2 = false

theorem Absent.held {s : System} (hAbsent : l.Absent s) (i : Fin k) : l.Held h ss i s where
  pcs x := by
    have hNone : ∀ p ∈ (s.pc x).packets, l.isIn p ≠ true := fun p hp =>
      Bool.eq_false_iff.mp (hAbsent.pcs x p hp)
    refine ⟨fun p hp hIn => absurd hIn (hNone p hp), fun p hp hIn => absurd hIn (hNone p hp), ?_⟩
    intro p d packets hPc hIn
    rw [hPc] at hNone
    exact absurd hIn (hNone p List.mem_cons_self)
  router it hit := by
    obtain ⟨hMem, hOn⟩ := List.mem_filter.mp hit
    rw [hAbsent.router it hMem] at hOn
    cases hOn
  hands w := carried_of_holding (hAbsent.hands w)
  spare w _ := hAbsent.hands w
  published e he := by
    obtain ⟨hMem, hIn⟩ := List.mem_filter.mp he
    rw [hAbsent.published e hMem] at hIn
    cases hIn

theorem Absent.ahead {s : System} (hAbsent : l.Absent s) : l.ahead s = 0 := by
  have hRouter : s.node.router.filter l.isOn = [] :=
    List.filter_eq_nil_iff.mpr fun it hit => Bool.eq_false_iff.mp (hAbsent.router it hit)
  simp only [Letter.ahead, hRouter, hAbsent.hands, List.length_nil, Finset.sum_const_zero, Nat.add_zero]

theorem Absent.balance {s : System} (hAbsent : l.Absent s) (i : Fin k) :
    l.balance h ss i s = if i = h then l.writes s.node ss.sid else 0 := by
  have hPosted : s.node.published.filter (l.isIn ·.2) = [] :=
    List.filter_eq_nil_iff.mpr fun e he => Bool.eq_false_iff.mp (hAbsent.published e he)
  simp only [Letter.balance, posted, hAbsent.ahead, hPosted, List.length_nil, Nat.zero_add]

theorem Absent.outlying {s : System} (hAbsent : l.Absent s) (i : Fin k) : l.outlying h i s = 0 := by
  simp only [Letter.outlying, hAbsent.ahead, ite_self]

/-- All queues are empty, and no worker holds an item. -/
def Drained (S : Cluster k) : Prop :=
  ∀ i, (S i).node.router = [] ∧ (S i).node.published = [] ∧ ∀ w, (S i).hands w = .free

theorem balance_of_drained (hDrained : Drained S) (l : Letter C) (h : Fin k) (ss : SessionStatus)
    (i : Fin k) : l.balance h ss i (S i) = if i = h then l.writes (S i).node ss.sid else 0 := by
  obtain ⟨hRouter, hPublished, hHands⟩ := hDrained i
  have hNone : ∀ w, l.holding ((S i).hands w) = 0 := by
    intro w
    rw [hHands]
    rfl
  simp only [balance, ahead, posted, hRouter, hPublished, hNone, List.filter_nil, List.length_nil,
    Finset.sum_const_zero, Nat.zero_add]

theorem sum_seat (l : Letter C) (h : Fin k) (ss : SessionStatus) (S : Cluster k) :
    ∑ i, (if i = h then l.writes (S i).node ss.sid else 0) = l.writes (S h).node ss.sid := by
  rw [Finset.sum_ite_eq' Finset.univ h, if_pos (Finset.mem_univ h)]

/-- The move is taken while the recipient is found, and hands packets on. -/
def Conveyed (l : Letter C) (h : Fin k) (ss : SessionStatus) (S : Cluster k) (a : Move k) : Prop :=
  l.Seated h ss S ∧ Conveys C S a

end Cluster

/-- While the directory says where the recipient is, a message to one user is written to
that session once for every time it is accepted, and to another session only if that
session's own user sent it there. It crosses between nodes at most once. -/
theorem letter_written_once (C : Codec) (consumers : Nat) {k : Nat} (l : Letter C) {h : Fin k}
    {ss : SessionStatus} {S₀ S : Cluster k} {moves : List (Move k)} (hAbsent : ∀ i, l.Absent (S₀ i))
    (hRun : run (move C consumers) S₀ moves = some S)
    (hConveyed : Guarded (move C consumers) (l.Conveyed h ss) S₀ moves) :
    let history := collect (move C consumers) l.events S₀ moves
    (∀ i y, i ≠ h ∨ y ≠ ss.sid →
      l.writes (S i).node y = l.writes (S₀ i).node y + history.count (.reflected i y)) ∧
    l.writes (S h).node ss.sid ≤ l.writes (S₀ h).node ss.sid +
      history.count (.reflected h ss.sid) + history.count .accepted ∧
    (Drained S → l.writes (S h).node ss.sid = l.writes (S₀ h).node ss.sid +
      history.count (.reflected h ss.sid) + history.count .accepted) ∧
    history.count .crossed ≤ history.count .accepted ∧
    ∀ i y sess, (S i).node.sessions y = some sess → ∀ data ∈ sess.written, l.isWritten data = true →
      data.bytes C = l.raw ++ [endFlag] := by
  intro history
  have hBooks : l.Books h ss history S₀ S := by
    refine guarded_induction (P := fun moves S => l.Books h ss
      (collect (move C consumers) l.events S₀ moves) S₀ S) ?_ ?_ hRun hConveyed
    · exact ⟨fun i => (hAbsent i).held i, fun _ _ _ => rfl, rfl, le_refl _⟩
    · rintro moves T a U hRun _ hBooks ⟨hSeated, hConveys⟩ hMove
      have hNext := books_move hBooks.held hSeated hConveys hMove
      rw [collect_snoc hRun]
      refine ⟨hNext.held, ?_, ?_, ?_⟩
      · intro i y hy
        rw [hNext.others i y hy, hBooks.others i y hy, List.count_append, Nat.add_assoc]
      · have hOld := hBooks.balance
        have hNew := hNext.balance
        simp only [List.count_append]
        omega
      · have hOld := hBooks.outlying
        have hNew := hNext.outlying
        simp only [List.count_append]
        omega
  have hStart : ∑ i, l.balance h ss i (S₀ i) = l.writes (S₀ h).node ss.sid := by
    rw [← sum_seat l h ss S₀]
    exact Finset.sum_congr rfl fun i _ => (hAbsent i).balance i
  have hBalance := hBooks.balance
  have hSeat : l.writes (S h).node ss.sid ≤ ∑ i, l.balance h ss i (S i) := by
    rw [← sum_seat l h ss S]
    exact Finset.sum_le_sum fun i _ => Nat.le_add_left _ _
  refine ⟨hBooks.others, ?_, ?_, ?_, fun _ _ _ _ _ _ => l.bytes_of_isWritten⟩
  · omega
  · intro hDrained
    have hEnd : ∑ i, l.balance h ss i (S i) = l.writes (S h).node ss.sid := by
      rw [← sum_seat l h ss S]
      exact Finset.sum_congr rfl fun i _ => balance_of_drained hDrained l h ss i
    omega
  · have hOutlying := hBooks.outlying
    have hNone : ∑ i, l.outlying h i (S₀ i) = 0 :=
      Finset.sum_eq_zero fun i _ => (hAbsent i).outlying i
    omega

/-! ## A message to another node -/

instance {k : Nat} (l : Letter C) (h : Fin k) (ss : SessionStatus) (S : Cluster k) :
    Decidable (l.Seated h ss S) :=
  decidable_of_iff
    ((∀ i, entry C (S i).node l.recipient.stringWithoutResource = some ss) ∧ ss.channel ≠ [] ∧
      (∀ i, (S i).node.channel = ss.channel ↔ i = h) ∧ (S h).node.sessionMap ss.sid = true ∧
      ∃ sess ∈ (S h).node.sessions ss.sid, sess.status.status = .login ∧
        ∃ j ∈ (newJID sess.status.jid).toOption,
          j.stringWithoutResource = l.recipient.stringWithoutResource)
    ⟨fun ⟨h₁, h₂, h₃, h₄, h₅⟩ => ⟨h₁, h₂, h₃, h₄, h₅⟩,
      fun h => ⟨h.entry, h.nonempty, h.channel, h.registered, h.session⟩⟩

instance {k : Nat} (S : Cluster k) : (a : Move k) → Decidable (Conveys C S a)
  | .within i (.go x _) => inferInstanceAs (Decidable
      (routes ((S i).pc x) = true → (S i).node.router.length < routerQueueSize))
  | .within i (.work w env) => inferInstanceAs (Decidable (((S i).hands w).reaches env = true))
  | .within _ (.connect _) | .within _ (.register _) | .within _ .clean | .within _ (.recv _ _)
  | .within _ (.close _ _) | .within _ (.take _) | .within _ (.dtake _) | .within _ (.dexec _ _) =>
    isTrue trivial
  | .deliver i j m _ => inferInstanceAs (Decidable ((S j).node.router.length < routerQueueSize ∧
      ∀ e ∈ (S i).node.published[m]?, e.2.raw = none →
        ∀ q ∈ (newPacket C (e.2.toJson C)).toOption, q.envelope.type = msgTypeGroupChat))

instance {k : Nat} (l : Letter C) (h : Fin k) (ss : SessionStatus) (S : Cluster k) (a : Move k) :
    Decidable (l.Conveyed h ss S a) := inferInstanceAs (Decidable (_ ∧ _))

theorem recipient_parses : (newJID (text "bob@x")).toOption.isSome = true := by decide

def aliceToBob : Letter PlainJson.codec where
  raw := PlainJson.writeFrame { id := text "m1", from_ := text "alice@x", to_ := text "bob@x", type := 1 }
  packet := PlainJson.received { id := text "m1", from_ := text "alice@x", to_ := text "bob@x", type := 1 }
  recipient := parsedJID (text "bob@x") recipient_parses
  read := by decide +kernel
  direct := by decide
  addressed := rfl

def aliceWrites : List (Move 2) :=
  .within 0 (.recv (text "a1") { frame := aliceToBob.raw, env := groupEnv [] }) ::
    aliceRoutes [] 1 ++ [.deliver 0 1 0 (groupEnv [])] ++ handsOver []

theorem letter_written_once_bob : ∃ S, let S₀ := twoNodes [seat "n2:4281" "b2" "bob@x"]
    let history := collect (move PlainJson.codec 20) aliceToBob.events S₀ aliceWrites
    run (move PlainJson.codec 20) S₀ aliceWrites = some S ∧
      aliceToBob.writes (S 1).node (text "b2") = 1 ∧
      history = [.accepted, .crossed] ∧
      aliceToBob.writes (S 1).node (text "b2") ≤ aliceToBob.writes (S₀ 1).node (text "b2") +
        history.count (.reflected 1 (text "b2")) + history.count .accepted := by
  have hExists : ∃ S, run (move PlainJson.codec 20) (twoNodes [seat "n2:4281" "b2" "bob@x"]) aliceWrites =
      some S ∧ aliceToBob.writes (S 1).node (text "b2") = 1 := exists_run (by decide +kernel)
  obtain ⟨S, hRun, hOnce⟩ := hExists
  have hAbsent : ∀ i, aliceToBob.Absent (twoNodes [seat "n2:4281" "b2" "bob@x"] i) := by
    intro i
    refine ⟨fun _ _ hp => (by cases hp), fun _ hit => (by cases hit), fun _ => rfl, fun _ he => by cases he⟩
  have hConveyed : Guarded (move PlainJson.codec 20)
      (aliceToBob.Conveyed 1 (seat "n2:4281" "b2" "bob@x"))
      (twoNodes [seat "n2:4281" "b2" "bob@x"]) aliceWrites := by decide +kernel
  obtain ⟨_, hLess, _⟩ := letter_written_once PlainJson.codec 20 aliceToBob hAbsent hRun hConveyed
  exact ⟨S, hRun, hOnce, by decide +kernel, hLess⟩

end Letter

end Sara
