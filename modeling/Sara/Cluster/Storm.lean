import Sara.Cluster.Once

/-! # Group messages between nodes

A data channel that receives a copy of a group message expands it once more, to a copy
for every member. So copies are not used up by crossing: a session is written to once for
the message and once more for every copy of another member that crossed between nodes,
and with recipients on two nodes there is always a copy left that has to cross.
-/

namespace Sara.Concurrent

open Lib Lib.Prog Lib.Transition Saradb

set_option autoImplicit false

section Exact

variable (C : Codec) {k : Nat} (S₀ : Cluster k) (i₀ : Fin k) (x : Bytes) (g : GroupMessage)

def LiveOnly (q : Packet → Bool) : Prop :=
  ∀ p, q p = true → (entry C (S₀ i₀).node p.envelope.to_).isSome

/-- The copies `ps` were put into the router, but for those whose users are not logged in. -/
structure Entered (ps : List Packet) (n n' : Node) : Prop where
  length : n'.router.length ≤ n.router.length + ps.length
  load : ∀ q, LiveOnly C S₀ i₀ q → (n'.router.filterMap RouterItem.packet).countP q =
    (n.router.filterMap RouterItem.packet).countP q + ps.countP q

/-- What a step of node `i` does to the copies there: it keeps them, or it writes one. -/
inductive Passing (i : Fin k) (s t : System) : Prop where
  | kept (hLoad : ∀ q, LiveOnly C S₀ i₀ q → load q x t = load q x s)
      (hRelays : ∀ y, relays t.node y = relays s.node y)
  | wrote (p : Packet) (ss : SessionStatus) (hGoes : Goes C S₀ i₀ g p ss)
      (hHere : ss.channel = (S₀ i).node.channel)
      (hLoad : ∀ q, load q x t + (if q p then 1 else 0) = load q x s)
      (hRelays : ∀ y, relays t.node y = relays s.node y + if y = ss.sid then 1 else 0)

def Decided : Pc → Prop
  | .acting p d _ => d = (entry C (S₀ i₀).node p.envelope.to_).elim .store .route
  | .idle | .kill _ _ _ | .auth _ _ | .logon _ | .fetch _ | .publish _ | .storing _ _ | .routing _ => True

/-- No queue overflows: there is room for a copy, or for an expansion. -/
def Roomy (S : Cluster k) : Move k → Prop
  | .within i _ => (S i).node.router.length < routerQueueSize
  | .deliver _ j _ _ => (S j).node.router.length + g.targets.length ≤ routerQueueSize

def received (S : Cluster k) : Move k → List Bytes
  | .within _ _ => []
  | .deliver i _ m _ => ((S i).node.published[m]?.map fun e => e.2.envelope.to_).toList

def away (i : Fin k) (p : Packet) : Bool :=
  (entry C (S₀ i₀).node p.envelope.to_).any fun ss => ss.channel ≠ (S₀ i).node.channel

end Exact

variable {C : Codec} {k : Nat} {S₀ S T : Cluster k} {i₀ i : Fin k} {x : Bytes} {g : GroupMessage}

/-! ## Into the router -/

section Router

variable {ps qs : List Packet} {p : Packet} {n n' n'' : Node}

theorem Entered.trans (h : Entered C S₀ i₀ ps n n') (h' : Entered C S₀ i₀ qs n' n'') :
    Entered C S₀ i₀ (ps ++ qs) n n'' where
  length := by
    have hFirst := h.length
    have hSecond := h'.length
    rw [List.length_append]
    omega
  load q hq := by
    rw [h'.load q hq, h.load q hq, List.countP_append]
    omega

theorem Entered.of_still (h : Still n n') : Entered C S₀ i₀ [] n n' where
  length := by rw [h.router]; exact Nat.le_add_right ..
  load q _ := by rw [h.router]; rfl

theorem entered_store (hStill : Still n n') (hNone : entry C (S₀ i₀).node p.envelope.to_ = none) :
    Entered C S₀ i₀ [p] n n' where
  length := by rw [hStill.router]; exact Nat.le_add_right ..
  load q hq := by
    have hFalse : q p = false := by
      by_contra hTrue
      have hSome := hq p (Bool.not_eq_false _ ▸ hTrue)
      rw [hNone] at hSome
      cases hSome
    rw [hStill.router, List.countP_singleton, hFalse]
    rfl

theorem entered_route (hRoom : n.router.length < routerQueueSize) {channel sid : Bytes} :
    Entered C S₀ i₀ [p] n (n.route { channel := channel, sid := sid, packet := some p, signal := 0 }) := by
  unfold Node.route
  rw [if_pos hRoom]
  constructor
  · simp
  · intro q _
    simp [List.filterMap_append]

theorem entered_routePacket (hPlace : Placement C S₀) (hCopy : g.Copy p) (hFixed : Fixed (S₀ i).node n)
    (hRoom : n.router.length < routerQueueSize) :
    Entered C S₀ i₀ [p] n (Node.routePacket C p n).state := by
  obtain ⟨r, hr, hBare⟩ := GroupMessage.exists_newJID_of_mem hCopy.to_
  have hEntry := (get_toSessionid (C := C) hBare n).trans (hPlace.entry_eq hFixed i₀ _)
  unfold Node.routePacket
  simp only [hr]
  rw [bind_done (read_apply _ n)]
  cases hGet : n.get r.toSessionid with
  | some ssb => exact entered_route hRoom
  | none =>
    rw [hGet] at hEntry
    exact entered_store (still_storePacket hCopy.id n) hEntry.symm

theorem entered_forM (hPlace : Placement C S₀) (hGenuine : g.Genuine) (hCopies : ∀ p ∈ ps, g.Copy p)
    (hFixed : Fixed (S₀ i).node n) (hRoom : n.router.length + ps.length ≤ routerQueueSize) :
    Entered C S₀ i₀ ps n (ps.forM (Node.routePacket C) n).state := by
  induction ps generalizing n with
  | nil => exact .of_still (Std.Refl.refl n)
  | cons p ps ih =>
    have hCopy := hCopies p List.mem_cons_self
    rw [List.length_cons] at hRoom
    have hHead : n.router.length < routerQueueSize := by omega
    have hEntered : Entered C S₀ i₀ [p] n (Node.routePacket C p n).state :=
      entered_routePacket hPlace hCopy hFixed hHead
    obtain ⟨n', hDone, hQueued⟩ : ∃ n', Node.routePacket C p n = .done () n' ∧
        Queued C S₀ i₀ g [p] n n' := queued_routePacket hPlace hGenuine hCopy hFixed
    have hForM : (p :: ps).forM (Node.routePacket C) n = ps.forM (Node.routePacket C) n' :=
      bind_done hDone _
    rw [hDone] at hEntered
    have hLength : n'.router.length ≤ n.router.length + 1 := hEntered.length
    have hRest := ih (fun q hq => hCopies q (List.mem_cons_of_mem p hq)) (hFixed.trans hQueued.fixed)
      (by omega)
    rw [hForM]
    exact hEntered.trans hRest

theorem generateGroupPackets_found {packet : Packet} {env : Env}
    (hFrom : packet.envelope.from_ = g.from_) (hGid : packet.envelope.gid = g.gid)
    (hFound : foundUsers n g.gid g.from_jid.domain env = some g.users)
    (hMember : g.from_jid.user <:+: g.users) :
    ∃ packets n', generateGroupPackets packet env n = .done (.ok packets) n' := by
  have hMembers : ∃ n', groupMembers g.gid g.from_jid.domain env n = .done (some g.users) n' := by
    unfold foundUsers at hFound
    split at hFound
    · rename_i users n' hDone
      rw [hFound] at hDone
      exact ⟨n', hDone⟩
    · cases hFound
  obtain ⟨n', hDone⟩ := hMembers
  unfold generateGroupPackets
  rw [hFrom, g.from_ok, bind_done (deref_ok g.from_jid n), hGid, bind_done hDone]
  simp only [hMember, if_true]
  rw [genGroupPackets_eq]
  exact ⟨_, n', rfl⟩

theorem entered_dataChannelHandler (hPlace : Placement C S₀) {p' : Packet} {ss : SessionStatus}
    (hGoes : Goes C S₀ i₀ g p ss) {message : Bytes} (hRead : newPacket C message = .ok p')
    (hSame : p'.envelope = p.envelope) (hFixed : Fixed (S₀ i).node n) {env : Env}
    (hFound : foundUsers n g.gid g.from_jid.domain env = some g.users)
    (hMember : g.from_jid.user <:+: g.users)
    (hRoom : n.router.length + g.targets.length ≤ routerQueueSize) :
    ∃ packets, packets.map (·.envelope.to_) = g.targets ∧
      Queued C S₀ i₀ g packets n (dataChannelHandler C message env n).state ∧
      Entered C S₀ i₀ packets n (dataChannelHandler C message env n).state := by
  have hFrom : p'.envelope.from_ = g.from_ := hSame ▸ hGoes.copy.from_
  have hGid : p'.envelope.gid = g.gid := hSame ▸ hGoes.copy.gid
  have hType : p'.envelope.type = msgTypeGroupChat := hSame ▸ hGoes.copy.type
  obtain ⟨packets, n', hDone⟩ := generateGroupPackets_found hFrom hGid hFound hMember
  obtain ⟨hTo, hCopies⟩ := GroupMessage.generated hFrom hGid hFound hDone
  have hStill := still_generateGroupPackets p' env n
  rw [hDone] at hStill
  have hHandler : dataChannelHandler C message env n = packets.forM (Node.routePacket C) n' := by
    unfold dataChannelHandler
    simp only [hRead, hType, if_true]
    rw [bind_done hDone]
  have hFixed' := hFixed.trans hStill.fixed
  refine ⟨packets, hTo, ?_, ?_⟩
  · have hStart : Queued C S₀ i₀ g [] n n' := .of_still hStill
    rw [hHandler]
    exact hStart.trans (queued_forM hPlace hGoes.genuine hCopies hFixed')
  · have hStart : Entered C S₀ i₀ [] n n' := .of_still hStill
    have hLength : packets.length = g.targets.length := by rw [← hTo, List.length_map]
    have hRouter : n'.router = n.router := hStill.router
    rw [hHandler]
    refine hStart.trans (entered_forM hPlace hGoes.genuine hCopies hFixed' ?_)
    rw [hRouter, hLength]
    exact hRoom

end Router

/-! ## Steps of a node -/

section Steps

variable {s : System}

theorem passing_session {pc : Pc} {n : Node} (ps : List Packet) (hQueued : Queued C S₀ i₀ g ps s.node n)
    (hEntered : Entered C S₀ i₀ ps s.node n) (hPackets : (s.pc x).packets = ps ++ pc.packets) :
    Passing C S₀ i₀ x g i s { s with node := n, pc := Function.update s.pc x pc } := by
  refine .kept ?_ hQueued.relays
  intro q hq
  have hLoad := hEntered.load q hq
  simp only [load, Function.update_self, hPackets, List.countP_append, hQueued.published]
  omega

theorem Flow.go_passing (hPlace : Placement C S₀) (hGenuine : g.Genuine)
    (hSelf : g.sender.stringWithoutResource ∉ g.targets) (hSends : Sends S₀ i₀ x g)
    (h : Flow C S₀ i₀ x g i s) (hDecided : Decided C S₀ i₀ (s.pc x)) {y : Bytes}
    (hBusy : s.pc y ≠ .idle) (hRoom : s.node.router.length < routerQueueSize) (env : Env) :
    Passing C S₀ i₀ x g i s (s.session y (next C y env (s.pc y))) ∧
      Decided C S₀ i₀ ((s.session y (next C y env (s.pc y))).pc x) := by
  obtain ⟨rfl, rfl⟩ : i = i₀ ∧ y = x := by
    by_contra hNot
    exact hBusy (h.others y (not_and_or.mp hNot))
  have hSender := h.sender
  have hNone : Queued C S₀ i g [] s.node s.node := .of_still (Std.Refl.refl s.node)
  have hStays : Entered C S₀ i [] s.node s.node := .of_still (Std.Refl.refl s.node)
  have hPc : ∀ pc, Function.update s.pc y pc y = pc := fun _ => Function.update_self ..
  match hNow : s.pc y with
  | .idle => exact absurd hNow hBusy
  | .routing [] =>
    refine ⟨passing_session [] hNone hStays (by rw [hNow]; rfl), ?_⟩
    simp only [System.session, next, pure_apply, hPc, Decided]
  | .routing (p :: packets) =>
    rw [hNow] at hSender
    have hCopy := hSender p List.mem_cons_self
    obtain ⟨sess₀, hs₀, hLogin, hj⟩ := hSends
    obtain ⟨sess, hs, hStatus⟩ := h.fixed.session hs₀
    obtain ⟨r, hr, hBare⟩ := GroupMessage.exists_newJID_of_mem hCopy.to_
    rw [← hStatus] at hLogin hj
    have hOther : g.sender.stringWithoutResource ≠ r.stringWithoutResource := by
      intro hEq
      rw [hEq, hBare] at hSelf
      exact hSelf hCopy.to_
    have hFrom : newJID p.envelope.from_ = .ok g.from_jid := hCopy.from_ ▸ g.from_ok
    have hDecide := routeDecide_other (C := C) hs hLogin hj hr hFrom hOther
    rw [if_pos hGenuine, get_toSessionid hBare, hPlace.entry_eq h.fixed i] at hDecide
    have hNext : next C y env (.routing (p :: packets)) s.node = .done (.acting p _ packets) s.node :=
      bind_done hDecide _
    unfold System.session
    rw [hNext]
    refine ⟨passing_session [] hNone hStays (by rw [hNow]; rfl), ?_⟩
    simp only [hPc, Decided]
  | .acting p d packets =>
    rw [hNow] at hSender hDecided
    obtain ⟨hCopy, _, _⟩ := hSender
    obtain ⟨n, hAct, hQueued, hEntered⟩ : ∃ n, routeAct C y p d s.node = .done () n ∧
        Queued C S₀ i g [p] s.node n ∧ Entered C S₀ i [p] s.node n := by
      rw [hDecided]
      cases hEntry : entry C (S₀ i).node p.envelope.to_ with
      | none =>
        obtain ⟨n, hStore, hQueued⟩ : ∃ n, storePacket C p s.node = .done () n ∧
            Queued C S₀ i g [p] s.node n := queued_storePacket hCopy s.node
        have hStill := still_storePacket (C := C) hCopy.id s.node
        rw [hStore] at hStill
        exact ⟨n, hStore, hQueued, entered_store hStill hEntry⟩
      | some ss => exact ⟨_, rfl, queued_route ⟨hCopy, hGenuine, hEntry⟩ s.node, entered_route hRoom⟩
    have hNext : next C y env (.acting p d packets) s.node = .done (.routing packets) n :=
      bind_done hAct _
    unfold System.session
    rw [hNext]
    refine ⟨passing_session [p] hQueued hEntered (by rw [hNow]; rfl), ?_⟩
    simp only [hPc, Decided]
  | .kill _ _ _ | .auth _ _ | .logon _ | .fetch _ | .publish _ | .storing _ _ =>
    rw [hNow] at hSender
    exact hSender.elim

theorem passing_hand {w : Nat} (hWorker : w < routerWorkerNum) {hand : Hand} {n : Node}
    (hRouter : n.router = s.node.router) (hRelays : ∀ y, relays n y = relays s.node y)
    (hCount : ∀ q : Packet → Bool, hand.packet.toList.countP q + (n.published.map Prod.snd).countP q =
      (s.hands w).packet.toList.countP q + (s.node.published.map Prod.snd).countP q) :
    Passing C S₀ i₀ x g i s { s with node := n, hands := Function.update s.hands w hand } := by
  refine .kept ?_ hRelays
  intro q _
  have hOne := hCount q
  have hSum := sum_move (fun (_ : Nat) (hand : Hand) => hand.packet.toList.countP q) s.hands
    (Finset.mem_range.mpr hWorker) hand
  simp only [load, hRouter]
  omega

theorem Flow.take_passing {w : Nat} {it : RouterItem} {rest : List RouterItem}
    (hRouter : s.node.router = it :: rest) (hWorker : w < routerWorkerNum)
    (hFree : s.hands w = .free) :
    Passing C S₀ i₀ x g i s { s with
      node := { s.node with router := rest }
      hands := Function.update s.hands w (.item it) } := by
  refine .kept ?_ fun y => rfl
  intro q _
  have hSum := sum_move (fun (_ : Nat) (hand : Hand) => hand.packet.toList.countP q) s.hands
    (Finset.mem_range.mpr hWorker) (.item it)
  have hOld : (s.hands w).packet = none := by rw [hFree]; rfl
  have hNew : (Hand.item it).packet = it.packet := rfl
  have hItems : (s.node.router.filterMap RouterItem.packet).countP q =
      it.packet.toList.countP q + (rest.filterMap RouterItem.packet).countP q := by
    rw [hRouter]
    cases hPacket : it.packet with
    | none => simp [List.filterMap_cons_none hPacket]
    | some p =>
      rw [List.filterMap_cons_some hPacket, List.countP_cons, Option.toList_some, List.countP_singleton]
      omega
  simp only [hOld, hNew, Option.toList_none, List.countP_nil] at hSum
  simp only [load]
  omega

theorem relays_written {n : Node} {z : Bytes} (hSome : (n.sessions z).isSome) (p : Packet) (y : Bytes) :
    relays ((n.updateSession z (Session.buffer p)).updateSession z (Session.relay p)) y =
      relays n y + if y = z then 1 else 0 := by
  obtain ⟨s, hs⟩ := Option.isSome_iff_exists.mp hSome
  unfold relays
  rcases eq_or_ne y z with rfl | hne
  · rw [Node.updateSession_self, Node.updateSession_self, hs]
    simp [Session.buffer, Session.relay, Written.isRelay]
  · rw [Node.updateSession_of_ne _ hne, Node.updateSession_of_ne _ hne, if_neg hne]
    rfl

theorem Flow.work_passing (hPlace : Placement C S₀) (h : Flow C S₀ i₀ x g i s) {w : Nat}
    (hBusy : s.hands w ≠ .free) {env : Env}
    (hPublish : ∀ it, s.hands w = .item it → env.publish it.channel = true) :
    Passing C S₀ i₀ x g i s (s.worker w (Concurrent.work C env (s.hands w))) := by
  have hWorker := h.worker_lt hBusy
  have hCarrying := h.hands w
  unfold System.worker
  cases hHand : s.hands w with
  | free => exact absurd hHand hBusy
  | item it =>
    rw [hHand] at hCarrying
    obtain ⟨p, ss, hGoes, rfl⟩ := hCarrying
    by_cases hHere : ss.channel = (S₀ i).node.channel
    · have hMap : s.node.sessionMap ss.sid = true := by
        rw [h.fixed.sessionMap]
        exact (hGoes.placed hPlace hHere).1
      rw [work_item_here (.inr (hHere.trans h.fixed.channel.symm)) hMap]
      exact passing_hand hWorker rfl (fun _ => rfl) fun q => by simp only [hHand, Hand.packet]
    · have hNonempty : ss.channel ≠ [] := by
        obtain ⟨h', _, _, hChannel, _⟩ := hPlace.right i₀ _ ss hGoes.entry
        rw [hChannel]
        exact hPlace.channel_ne h'
      rw [work_item_away hNonempty (fun hEq => hHere (hEq.trans h.fixed.channel)) rfl (hPublish _ hHand)]
      refine passing_hand hWorker rfl (fun _ => rfl) fun q => ?_
      simp only [hHand, Hand.packet, Option.toList_none, List.countP_nil, Option.toList_some,
        List.map_append, List.map_singleton, List.countP_append]
      omega
  | found it =>
    rw [hHand] at hCarrying
    obtain ⟨⟨p, ss, hGoes, rfl⟩, hHere⟩ := hCarrying
    obtain ⟨_, sess₀, j, hs₀, hLogin, hj, hBare⟩ := hGoes.placed hPlace hHere
    obtain ⟨sess, hs, hStatus⟩ := h.fixed.session hs₀
    obtain ⟨r, hr, hTo⟩ := GroupMessage.exists_newJID_of_mem hGoes.copy.to_
    rw [← hStatus] at hLogin hj
    have hDecide : routeDecide C ss.sid p s.node = .done .toMe s.node :=
      routeDecide_toMe hs hLogin hj hr (hBare.trans hTo.symm)
    rw [work_found_packet rfl rfl hDecide]
    exact passing_hand hWorker rfl (fun _ => rfl) fun q => by simp only [hHand, Hand.packet]
  | acting z p d =>
    rw [hHand] at hCarrying
    obtain ⟨rfl, ss, hGoes, hHere, rfl⟩ := hCarrying
    have hWork : Concurrent.work C env (.acting ss.sid p .toMe) s.node = .done .free
        ((s.node.updateSession ss.sid (Session.buffer p)).updateSession ss.sid (Session.relay p)) :=
      bind_done (routeAct_toMe s.node ss.sid p) _
    obtain ⟨_, sess₀, _, hs₀, _⟩ := hGoes.placed hPlace hHere
    obtain ⟨sess, hs, _⟩ := h.fixed.session hs₀
    rw [hWork]
    refine .wrote p ss hGoes hHere ?_ (relays_written (by rw [hs]; rfl) p)
    intro q
    have hSum := sum_move (fun (_ : Nat) (hand : Hand) => hand.packet.toList.countP q) s.hands
      (Finset.mem_range.mpr hWorker) .free
    have hRest : ∀ f f', let n := (s.node.updateSession ss.sid f).updateSession ss.sid f'
      n.router = s.node.router ∧ n.published = s.node.published := fun _ _ => ⟨rfl, rfl⟩
    have hOld : (s.hands w).packet = some p := by rw [hHand]; rfl
    have hNew : Hand.free.packet = none := rfl
    simp only [hOld, hNew, Option.toList_none, List.countP_nil, Option.toList_some,
      List.countP_singleton] at hSum
    simp only [load, (hRest _ _).1, (hRest _ _).2]
    omega

end Steps

/-! ## All nodes together -/

section Law

structure Spreads (C : Codec) (S₀ : Cluster k) (i₀ : Fin k) (x : Bytes) (g : GroupMessage)
    (S : Cluster k) : Prop where
  flow : ∀ i, Flow C S₀ i₀ x g i (S i)
  decided : ∀ i, Decided C S₀ i₀ ((S i).pc x)

/-- What a move does to the copies: a node passes them on, or a data channel receives one
and expands it. -/
inductive Spread (C : Codec) (S₀ : Cluster k) (i₀ : Fin k) (x : Bytes) (g : GroupMessage)
    (S : Cluster k) : Move k → Cluster k → Prop where
  | within (i : Fin k) (a : Action) (t : System) (hPassing : Passing C S₀ i₀ x g i (S i) t) :
    Spread C S₀ i₀ x g S (.within i a) (Function.update S i t)
  | deliver (i j : Fin k) (m : Nat) (env : Env) (e : Bytes × Packet) (sent : Cluster k) (t : System)
      (packets : List Packet) (hMessage : (S i).node.published[m]? = some e)
      (hSent : sent = Function.update S i ((S i).unpublish m))
      (hTo : packets.map (·.envelope.to_) = g.targets)
      (hLoad : ∀ q, LiveOnly C S₀ i₀ q → load q x t = load q x (sent j) + packets.countP q)
      (hRelays : ∀ y, relays t.node y = relays (sent j).node y) :
    Spread C S₀ i₀ x g S (.deliver i j m env) (Function.update sent j t)

variable (hPlace : Placement C S₀) (hSends : Sends S₀ i₀ x g) (hGenuine : g.Genuine)
variable (hSelf : g.sender.stringWithoutResource ∉ g.targets) (hMember : g.from_jid.user <:+: g.users)

include hPlace hSends hGenuine hSelf

theorem Spreads.step (h : Spreads C S₀ i₀ x g S) {consumers : Nat} {a : Action} {t : System}
    (hStep : step C consumers (S i) a = some t) (hRouted : Routed C g S (.within i a))
    (hRoomy : Roomy g S (.within i a)) :
    Passing C S₀ i₀ x g i (S i) t ∧ Flow C S₀ i₀ x g i t ∧ Decided C S₀ i₀ (t.pc x) := by
  cases stepped_of_step C hStep with
  | go y env hBusy =>
    obtain ⟨hPassing, hDecided⟩ := (h.flow i).go_passing hPlace hGenuine hSelf hSends (h.decided i) hBusy
      hRoomy env
    exact ⟨hPassing, ((h.flow i).go hPlace hSelf hSends hBusy env).1, hDecided⟩
  | take w it rest hRouter hWorker hFree =>
    exact ⟨Flow.take_passing hRouter hWorker hFree, ((h.flow i).take hRouter hWorker hFree).1, h.decided i⟩
  | work w env hBusy =>
    have hReaches : ((S i).hands w).reaches env = true := hRouted
    have hPublish : ∀ it, (S i).hands w = .item it → env.publish it.channel = true := by
      intro it hHand
      rwa [hHand] at hReaches
    refine ⟨(h.flow i).work_passing hPlace hBusy hPublish, ((h.flow i).work hPlace hBusy hPublish).1, ?_⟩
    unfold System.worker
    cases work C env ((S i).hands w) (S i).node with
    | done hand n => exact h.decided i
    | panic n => exact h.decided i
  | connect | register | clean | recv | close | dtake | dexec => exact hRouted.elim

include hMember

theorem spreads_move (h : Spreads C S₀ i₀ x g S) {consumers : Nat} {m : Move k}
    (hMove : move C consumers S m = some T) (hRouted : Routed C g S m) (hRoomy : Roomy g S m) :
    Spread C S₀ i₀ x g S m T ∧ Spreads C S₀ i₀ x g T := by
  cases moved_of_move hMove with
  | within i a t hStep =>
    obtain ⟨hPassing, hFlow, hDecided⟩ := h.step hPlace hSends hGenuine hSelf hStep hRouted hRoomy
    refine ⟨.within i a t hPassing, flow_update h.flow hFlow, ?_⟩
    intro j
    rcases eq_or_ne j i with rfl | hne
    · rwa [Function.update_self]
    · rw [Function.update_of_ne hne]
      exact h.decided j
  | deliver i j m env e hMessage hChannel sent hSent =>
    obtain ⟨hFound, hRead⟩ := hRouted
    obtain ⟨p', hp', hSame⟩ := Option.map_eq_some_iff.mp (hRead e hMessage)
    obtain ⟨ss, hGoes, _⟩ := (h.flow i).published e (List.mem_of_getElem? hMessage)
    have hFlows : ∀ j, Flow C S₀ i₀ x g j (sent j) := by
      rw [hSent]
      exact flow_update h.flow ((h.flow i).unpublish m)
    have hSame' : ∀ j, (sent j).node.router = (S j).node.router ∧ (sent j).pc = (S j).pc ∧
        foundUsers (sent j).node g.gid g.from_jid.domain env =
          foundUsers (S j).node g.gid g.from_jid.domain env := by
      intro j
      rw [hSent]
      rcases eq_or_ne j i with rfl | hne
      · rw [Function.update_self]
        exact ⟨rfl, rfl, foundUsers_unpublish ..⟩
      · rw [Function.update_of_ne hne]
        exact ⟨rfl, rfl, rfl⟩
    have hRoom : (sent j).node.router.length + g.targets.length ≤ routerQueueSize := by
      rw [(hSame' j).1]
      exact hRoomy
    obtain ⟨packets, hTo, hQueued, hEntered⟩ := entered_dataChannelHandler hPlace hGoes
      (toOption_eq_some_iff.mp hp') hSame (hFlows j).fixed ((hSame' j).2.2.trans hFound) hMember hRoom
    obtain ⟨crashed, hHandle⟩ := exists_handle (sent j) (dataChannelHandler C (e.2.toJson C) env)
    have hAway : ¬ Near C S₀ i₀ g := by
      intro hNear
      rw [((h.flow i).near hNear).1] at hMessage
      cases hMessage
    have hDone := (hFlows j).queued (fun hNear => absurd hNear hAway) hQueued crashed
    rw [hHandle]
    constructor
    · refine .deliver i j m env e sent _ packets hMessage hSent hTo ?_ hQueued.relays
      intro q hq
      have hLoad := hEntered.load q hq
      simp only [load, hQueued.published]
      omega
    · refine ⟨flow_update hFlows hDone, ?_⟩
      intro j'
      rcases eq_or_ne j' j with rfl | hne
      · rw [Function.update_self]
        exact (hSame' j').2.1 ▸ h.decided j'
      · rw [Function.update_of_ne hne]
        exact (hSame' j').2.1 ▸ h.decided j'

end Law

/-! ## How many copies there are -/

theorem liveOnly_leadsTo (h : Fin k) (y : Bytes) :
    LiveOnly C S₀ i₀ fun p => leadsTo C S₀ i₀ g h y p.envelope.to_ := by
  intro p hp
  obtain ⟨_, ss, hEntry, _⟩ := leadsTo_iff.mp hp
  rw [hEntry]
  rfl

/-- Writing a copy turns one that is under way into one that is written. -/
theorem tally_passing (hPlace : Placement C S₀) {s t : System} (hPassing : Passing C S₀ i₀ x g i s t)
    (h : Fin k) (y : Bytes) : tally C S₀ i₀ x g h y i t = tally C S₀ i₀ x g h y i s := by
  cases hPassing with
  | kept hLoad hRelays => rw [tally, tally, hLoad _ (liveOnly_leadsTo h y), hRelays]
  | wrote p ss hGoes hHere hLoad hRelays =>
    have hOne := hLoad fun p => leadsTo C S₀ i₀ g h y p.envelope.to_
    have hLeads : leadsTo C S₀ i₀ g h y p.envelope.to_ = true ↔ i = h ∧ y = ss.sid := by
      constructor
      · intro hTrue
        obtain ⟨_, ss', hEntry, hChannel, hSid⟩ := leadsTo_iff.mp hTrue
        cases hGoes.entry.symm.trans hEntry
        exact ⟨hPlace.channel_inj i h (hHere.symm.trans hChannel), hSid.symm⟩
      · rintro ⟨rfl, rfl⟩
        exact leadsTo_of_goes hGoes hHere
    rw [tally, tally, hRelays]
    by_cases hMine : i = h ∧ y = ss.sid
    · rw [if_pos (hLeads.mpr hMine)] at hOne
      rw [if_pos hMine.1, if_pos hMine.1, if_pos hMine.2]
      omega
    · rw [if_neg fun hTrue => hMine (hLeads.mp hTrue)] at hOne
      rcases not_and_or.mp hMine with hNode | hSid
      · rw [if_neg hNode, if_neg hNode]
        omega
      · rw [if_neg hSid, Nat.add_zero]
        omega

/-- A copy that is received is replaced by one for every member. -/
theorem tally_spread (hPlace : Placement C S₀) {m : Move k} (hSpread : Spread C S₀ i₀ x g S m T)
    (h : Fin k) (y : Bytes) :
    ∑ i, tally C S₀ i₀ x g h y i (T i) + (received S m).countP (leadsTo C S₀ i₀ g h y) =
      ∑ i, tally C S₀ i₀ x g h y i (S i) +
        (received S m).length * g.targets.countP (leadsTo C S₀ i₀ g h y) := by
  cases hSpread with
  | within i a t hPassing =>
    have hSum := sum_move (tally C S₀ i₀ x g h y) S (Finset.mem_univ i) t
    rw [tally_passing hPlace hPassing h y] at hSum
    simp only [received, List.countP_nil, List.length_nil, Nat.zero_mul]
    omega
  | deliver i j m env e sent t packets hMessage hSent hTo hLoad hRelays =>
    have hErase : tally C S₀ i₀ x g h y i ((S i).unpublish m) + _ = _ := tally_unpublish hMessage h y
    have hFirst := sum_move (tally C S₀ i₀ x g h y) S (Finset.mem_univ i) ((S i).unpublish m)
    rw [← hSent] at hFirst
    have hSecond := sum_move (tally C S₀ i₀ x g h y) sent (Finset.mem_univ j) t
    have hCount : packets.countP (fun p => leadsTo C S₀ i₀ g h y p.envelope.to_) =
        g.targets.countP (leadsTo C S₀ i₀ g h y) := by
      rw [← hTo, List.countP_map]
      rfl
    have hAdd : tally C S₀ i₀ x g h y j t = tally C S₀ i₀ x g h y j (sent j) +
        g.targets.countP (leadsTo C S₀ i₀ g h y) := by
      rw [tally, tally, hLoad _ (liveOnly_leadsTo h y), hRelays, hCount]
      omega
    simp only [received, hMessage, Option.map_some, Option.toList_some, List.countP_singleton,
      List.length_singleton, Nat.one_mul]
    omega

/-! ## The message is accepted -/

section Accepted

variable {input : Input} {packet : Packet}

theorem begin_accepted {n n' : Node} {pc : Pc} {sess : Session} (hs : n.sessions x = some sess)
    (hLogin : sess.status.status = .login) (hRequest : request C input = .group packet)
    (hFrom : packet.envelope.from_ = g.from_) (hGid : packet.envelope.gid = g.gid)
    (hFound : foundUsers n g.gid g.from_jid.domain input.env = some g.users)
    (hBegin : begin C x input n = .done pc n') (hBusy : pc ≠ .idle) :
    g.from_jid.user <:+: g.users ∧ ∃ packets, pc = .routing packets ∧
      packets.map (·.envelope.to_) = g.targets ∧ ∀ p ∈ packets, g.Copy p := by
  obtain hIdle | hRouting := (begin_group hs hLogin hRequest hFrom hGid hFound).2 pc n' hBegin
  · exact absurd hIdle hBusy
  refine ⟨?_, hRouting⟩
  have hConn : sess.status.status ≠ .conn := by rw [hLogin]; decide
  unfold begin at hBegin
  rw [bind_done (Node.session_eq hs), if_neg hConn] at hBegin
  split at hBegin
  · obtain ⟨_, _, _, hPure⟩ := bind_eq_done_iff.mp hBegin
    cases hPure
    exact absurd rfl hBusy
  simp only [hRequest] at hBegin
  obtain ⟨r, u, hGenerate, hRest⟩ := bind_eq_done_iff.mp hBegin
  cases r with
  | error e =>
    obtain ⟨_, _, _, hPure⟩ := bind_eq_done_iff.mp hRest
    cases hPure
    exact absurd rfl hBusy
  | ok packets =>
    obtain ⟨f, users, hJid, hMembers, hUser, _⟩ := generateGroupPackets_ok hGenerate
    rw [hFrom, g.from_ok] at hJid
    cases hJid
    rw [hGid] at hMembers
    rw [foundUsers, hMembers] at hFound
    cases hFound
    exact hUser

theorem spreads_accepted (hPlace : Placement C S₀) (hSends : Sends S₀ i₀ x g)
    (hRequest : request C input = .group packet) (hFrom : packet.envelope.from_ = g.from_)
    (hGid : packet.envelope.gid = g.gid)
    (hFound : foundUsers (S₀ i₀).node g.gid g.from_jid.domain input.env = some g.users)
    {consumers : Nat} {S₁ : Cluster k}
    (hMove : move C consumers S₀ (.within i₀ (.recv x input)) = some S₁)
    (hAccepted : (S₁ i₀).pc x ≠ .idle) :
    g.from_jid.user <:+: g.users ∧ Spreads C S₀ i₀ x g S₁ ∧ ∃ packets,
      (S₁ i₀).pc x = .routing packets ∧ packets.map (·.envelope.to_) = g.targets ∧
      ∀ h y, ∑ i, tally C S₀ i₀ x g h y i (S₁ i) =
        relays (S₀ h).node y + g.targets.countP (leadsTo C S₀ i₀ g h y) := by
  have hFlow := (flow_accepted hPlace hSends hRequest hFrom hGid hFound hMove).1
  obtain ⟨t, hStep, rfl⟩ := Option.map_eq_some_iff.mp hMove
  rw [Function.update_self] at hAccepted
  obtain ⟨sess, hs, hLogin, _⟩ := hSends
  cases stepped_of_step C hStep with
  | recv =>
    have hStill := (begin_group hs hLogin hRequest hFrom hGid hFound).1
    unfold System.session at hAccepted hFlow ⊢
    cases hBegin : begin C x input (S₀ i₀).node with
    | panic n =>
      rw [hBegin] at hAccepted
      exact absurd (Function.update_self ..) hAccepted
    | done pc n =>
      rw [hBegin] at hAccepted hFlow hStill
      rw [Outcome.state_done] at hStill
      simp only [Function.update_self] at hAccepted
      obtain ⟨hMember, packets, rfl, hTo, hCopies⟩ :=
        begin_accepted hs hLogin hRequest hFrom hGid hFound hBegin hAccepted
      refine ⟨hMember, ⟨hFlow, ?_⟩, packets, ?_, hTo, ?_⟩
      · intro i
        rcases eq_or_ne i i₀ with rfl | hne
        · simp only [Function.update_self]
          trivial
        · rw [Function.update_of_ne hne, hPlace.pc i x]
          trivial
      · simp only [Function.update_self]
      · intro h y
        let t : System := { S₀ i₀ with node := n, pc := Function.update (S₀ i₀).pc x (.routing packets) }
        have hSum := sum_move (tally C S₀ i₀ x g h y) S₀ (Finset.mem_univ i₀) t
        have hOld : ∑ i, tally C S₀ i₀ x g h y i (S₀ i) = relays (S₀ h).node y := by
          simp only [tally_start hPlace, Finset.sum_ite_eq', Finset.mem_univ, if_true]
        have hCount : packets.countP (fun p => leadsTo C S₀ i₀ g h y p.envelope.to_) =
            g.targets.countP (leadsTo C S₀ i₀ g h y) := by
          rw [← hTo, List.countP_map]
          rfl
        have hNew : tally C S₀ i₀ x g h y i₀ t =
            g.targets.countP (leadsTo C S₀ i₀ g h y) + tally C S₀ i₀ x g h y i₀ (S₀ i₀) := by
          rw [← hCount]
          simp only [tally, load, t, Function.update_self, hStill.router, hStill.published, hStill.relays,
            hPlace.pc i₀ x, Pc.packets, List.countP_nil]
          omega
        change ∑ i, tally C S₀ i₀ x g h y i (Function.update S₀ i₀ t i) = _
        omega

end Accepted

/-- The copies of a group message are counted. Those for a session that are under way and
those written to it are one for the message and one for each copy received by a data
channel, but for the copies received that were for that session themselves. -/
theorem group_copies_counted (C : Codec) (consumers : Nat) {k : Nat} {S₀ S₁ S : Cluster k} {i₀ : Fin k}
    {x : Bytes} {g : GroupMessage} {input : Input} {packet : Packet} {moves : List (Move k)}
    (hPlace : Placement C S₀) (hSends : Sends S₀ i₀ x g) (hGenuine : g.Genuine)
    (hSelf : g.sender.stringWithoutResource ∉ g.targets) (hRequest : request C input = .group packet)
    (hFrom : packet.envelope.from_ = g.from_) (hGid : packet.envelope.gid = g.gid)
    (hFound : foundUsers (S₀ i₀).node g.gid g.from_jid.domain input.env = some g.users)
    (hMove : move C consumers S₀ (.within i₀ (.recv x input)) = some S₁)
    (hAccepted : (S₁ i₀).pc x ≠ .idle) (hRun : run (move C consumers) S₁ moves = some S)
    (hRouted : Guarded (move C consumers) (fun T m => Routed C g T m ∧ Roomy g T m) S₁ moves)
    (h : Fin k) (y : Bytes) :
    let crossed := collect (move C consumers) received S₁ moves
    let copy := leadsTo C S₀ i₀ g h y
    relays (S h).node y + ∑ i, load (fun p => copy p.envelope.to_) x (S i) + crossed.countP copy =
      relays (S₀ h).node y + (crossed.length + 1) * g.targets.countP copy := by
  intro crossed copy
  obtain ⟨hMember, hSpreads, _, _, _, hStart⟩ :=
    spreads_accepted hPlace hSends hRequest hFrom hGid hFound hMove hAccepted
  have hAll : Spreads C S₀ i₀ x g S ∧ ∑ i, tally C S₀ i₀ x g h y i (S i) + crossed.countP copy =
      relays (S₀ h).node y + (crossed.length + 1) * g.targets.countP copy := by
    refine guarded_induction (P := fun ms T => Spreads C S₀ i₀ x g T ∧
      ∑ i, tally C S₀ i₀ x g h y i (T i) + (collect (move C consumers) received S₁ ms).countP copy =
        relays (S₀ h).node y +
          ((collect (move C consumers) received S₁ ms).length + 1) * g.targets.countP copy)
      ⟨hSpreads, ?_⟩ ?_ hRun hRouted
    · rw [hStart h y]
      simp only [collect, List.countP_nil, List.length_nil, Nat.zero_add, Nat.one_mul, Nat.add_zero, copy]
    · rintro ms T m U hRun _ ⟨hSpreads, hCount⟩ ⟨hRouted, hRoomy⟩ hMove
      obtain ⟨hSpread, hNext⟩ :=
        spreads_move hPlace hSends hGenuine hSelf hMember hSpreads hMove hRouted hRoomy
      refine ⟨hNext, ?_⟩
      have hTally : ∑ i, tally C S₀ i₀ x g h y i (U i) + (received T m).countP copy =
          ∑ i, tally C S₀ i₀ x g h y i (T i) + (received T m).length * g.targets.countP copy :=
        tally_spread hPlace hSpread h y
      rw [collect_snoc hRun, List.countP_append, List.length_append]
      simp only [Nat.add_mul] at hCount ⊢
      omega
  have hSplit : ∑ i, tally C S₀ i₀ x g h y i (S i) =
      ∑ i, load (fun p => copy p.envelope.to_) x (S i) + relays (S h).node y := by
    simp only [tally, Finset.sum_add_distrib, Finset.sum_ite_eq', Finset.mem_univ, if_true, copy]
  have hCount := hAll.2
  rw [hSplit] at hCount
  omega

/-! ## Alice and bob on one node, carol on another -/

instance {k : Nat} (g : GroupMessage) (S : Cluster k) : (m : Move k) → Decidable (Roomy g S m)
  | .within i _ => inferInstanceAs (Decidable ((S i).node.router.length < routerQueueSize))
  | .deliver _ j _ _ =>
    inferInstanceAs (Decidable ((S j).node.router.length + g.targets.length ≤ routerQueueSize))

def threeMembers : List String := ["alice", "bob", "carol"]

def bobAndCarol : Cluster 2 := twoNodes [seat "n1:4281" "b2" "bob@x", seat "n2:4281" "c3" "carol@x"]

theorem placement_bobAndCarol : Placement PlainJson.codec bobAndCarol :=
  placement_twoNodes (by decide +kernel) (by decide +kernel)

/-- Bob gets his copy, carol's copy goes to the second node, and from there one for bob
comes back to the first. -/
def backAndForth : List (Move 2) :=
  let env := groupEnv threeMembers
  List.replicate 5 (.within 0 (.go (text "a1") env)) ++ [.within 0 (.take 0)] ++
    List.replicate 3 (.within 0 (.work 0 env)) ++ [.within 0 (.take 0), .within 0 (.work 0 env)] ++
    [.deliver 0 1 0 env, .within 1 (.take 0), .within 1 (.work 0 env), .deliver 1 0 0 env]

theorem backAndForth_runs : ∃ S₁, move PlainJson.codec 20 bobAndCarol
      (.within 0 (.recv (text "a1") (groupInput threeMembers))) = some S₁ ∧
    (S₁ 0).pc (text "a1") ≠ .idle ∧
    Guarded (move PlainJson.codec 20) (fun T m => Routed PlainJson.codec (aliceGroup "alice,bob,carol") T m ∧
      Roomy (aliceGroup "alice,bob,carol") T m) S₁ backAndForth ∧
    collect (move PlainJson.codec 20) received S₁ backAndForth = [text "carol@x", text "bob@x"] ∧
    ∃ S, run (move PlainJson.codec 20) S₁ backAndForth = some S ∧ relays (S 0).node (text "b2") = 1 := by
  refine ⟨_, rfl, ?_, ?_, ?_, ?_⟩
  · decide +kernel
  · decide +kernel
  · decide +kernel
  · exact exists_run (by decide +kernel)

theorem group_copies_counted_bob : ∃ S₁ S,
    move PlainJson.codec 20 bobAndCarol (.within 0 (.recv (text "a1") (groupInput threeMembers))) = some S₁ ∧
    run (move PlainJson.codec 20) S₁ backAndForth = some S ∧ relays (S 0).node (text "b2") = 1 ∧
    let crossed := [text "carol@x", text "bob@x"]
    let copy := leadsTo PlainJson.codec bobAndCarol 0 (aliceGroup "alice,bob,carol") 0 (text "b2")
    relays (S 0).node (text "b2") + ∑ i, load (fun p => copy p.envelope.to_) (text "a1") (S i) +
        crossed.countP copy =
      relays (bobAndCarol 0).node (text "b2") +
        (crossed.length + 1) * (aliceGroup "alice,bob,carol").targets.countP copy := by
  obtain ⟨S₁, hMove, hAccepted, hRouted, hCrossed, S, hRun, hOnce⟩ := backAndForth_runs
  have hRequest : request PlainJson.codec (groupInput threeMembers) = .group _ := rfl
  have hCounted := group_copies_counted PlainJson.codec 20 placement_bobAndCarol
    (sends_alice _ "alice,bob,carol") rfl (by decide +kernel) hRequest rfl rfl rfl hMove hAccepted hRun
    hRouted 0 (text "b2")
  rw [hCrossed] at hCounted
  exact ⟨S₁, S, hMove, hRun, hOnce, hCounted⟩

/-! ## Recipients on two nodes -/

theorem liveOnly_away (i : Fin k) : LiveOnly C S₀ i₀ (away C S₀ i₀ i) := by
  intro p hp
  obtain ⟨ss, hEntry, _⟩ := (Option.any_eq_true _ _).mp hp
  rw [hEntry]
  rfl

theorem load_away_passing {s t : System} (hPassing : Passing C S₀ i₀ x g i s t) :
    load (away C S₀ i₀ i) x t = load (away C S₀ i₀ i) x s := by
  cases hPassing with
  | kept hLoad hRelays => exact hLoad _ (liveOnly_away i)
  | wrote p ss hGoes hHere hLoad hRelays =>
    have hOne := hLoad (away C S₀ i₀ i)
    have hHome : away C S₀ i₀ i p = false := by simp [away, hGoes.entry, hHere]
    rwa [hHome, if_neg Bool.false_ne_true, Nat.add_zero] at hOne

/-- A copy that has to cross is passed on, or replaced by another one. -/
theorem exists_away_spread {m : Move k} (hSpread : Spread C S₀ i₀ x g S m T)
    (hTwo : ∀ j : Fin k, ∃ a ∈ g.targets, ∃ ss, entry C (S₀ i₀).node a = some ss ∧
      ss.channel ≠ (S₀ j).node.channel)
    (h : ∃ i, 0 < load (away C S₀ i₀ i) x (S i)) : ∃ i, 0 < load (away C S₀ i₀ i) x (T i) := by
  cases hSpread with
  | within i a t hPassing =>
    obtain ⟨j, hj⟩ := h
    refine ⟨j, ?_⟩
    rcases eq_or_ne j i with rfl | hne
    · rw [Function.update_self, load_away_passing hPassing]
      exact hj
    · rwa [Function.update_of_ne hne]
  | deliver i j m env e sent t packets hMessage hSent hTo hLoad hRelays =>
    refine ⟨j, ?_⟩
    obtain ⟨a, ha, ss, hEntry, hAway⟩ := hTwo j
    rw [← hTo] at ha
    obtain ⟨p, hp, rfl⟩ := List.mem_map.mp ha
    have hHas : away C S₀ i₀ j p = true := by simp [away, hEntry, hAway]
    have hPositive : 0 < packets.countP (away C S₀ i₀ j) := List.countP_pos_iff.mpr ⟨p, hp, hHas⟩
    rw [Function.update_self, hLoad _ (liveOnly_away j)]
    omega

/-- With recipients on two nodes a group message never settles: as long as no queue
overflows and no call fails, a copy for a recipient on another node is under way. -/
theorem group_never_settles (C : Codec) (consumers : Nat) {k : Nat} {S₀ S₁ S : Cluster k} {i₀ : Fin k}
    {x : Bytes} {g : GroupMessage} {input : Input} {packet : Packet} {moves : List (Move k)}
    (hPlace : Placement C S₀) (hSends : Sends S₀ i₀ x g) (hGenuine : g.Genuine)
    (hSelf : g.sender.stringWithoutResource ∉ g.targets)
    (hTwo : ∀ j : Fin k, ∃ a ∈ g.targets, ∃ ss, entry C (S₀ i₀).node a = some ss ∧
      ss.channel ≠ (S₀ j).node.channel)
    (hRequest : request C input = .group packet)
    (hFrom : packet.envelope.from_ = g.from_) (hGid : packet.envelope.gid = g.gid)
    (hFound : foundUsers (S₀ i₀).node g.gid g.from_jid.domain input.env = some g.users)
    (hMove : move C consumers S₀ (.within i₀ (.recv x input)) = some S₁)
    (hAccepted : (S₁ i₀).pc x ≠ .idle) (hRun : run (move C consumers) S₁ moves = some S)
    (hRouted : Guarded (move C consumers) (fun T m => Routed C g T m ∧ Roomy g T m) S₁ moves) :
    ∃ i, 0 < load (away C S₀ i₀ i) x (S i) := by
  obtain ⟨hMember, hSpreads, packets, hPc, hTo, _⟩ :=
    spreads_accepted hPlace hSends hRequest hFrom hGid hFound hMove hAccepted
  have hAll : Spreads C S₀ i₀ x g S ∧ ∃ i, 0 < load (away C S₀ i₀ i) x (S i) := by
    refine guarded_induction (P := fun _ T => Spreads C S₀ i₀ x g T ∧
      ∃ i, 0 < load (away C S₀ i₀ i) x (T i)) ⟨hSpreads, i₀, ?_⟩ ?_ hRun hRouted
    · obtain ⟨a, ha, ss, hEntry, hAway⟩ := hTwo i₀
      rw [← hTo] at ha
      obtain ⟨p, hp, rfl⟩ := List.mem_map.mp ha
      have hHas : away C S₀ i₀ i₀ p = true := by simp [away, hEntry, hAway]
      have hPositive : 0 < packets.countP (away C S₀ i₀ i₀) := List.countP_pos_iff.mpr ⟨p, hp, hHas⟩
      simp only [load, hPc, Pc.packets]
      omega
    · rintro _ T m U _ _ ⟨hSpreads, hLeft⟩ ⟨hRouted, hRoomy⟩ hMove
      obtain ⟨hSpread, hNext⟩ :=
        spreads_move hPlace hSends hGenuine hSelf hMember hSpreads hMove hRouted hRoomy
      exact ⟨hNext, exists_away_spread hSpread hTwo hLeft⟩
  exact hAll.2

theorem group_never_settles_bob : ∃ S₁ S,
    move PlainJson.codec 20 bobAndCarol (.within 0 (.recv (text "a1") (groupInput threeMembers))) = some S₁ ∧
    run (move PlainJson.codec 20) S₁ backAndForth = some S ∧
    ∃ i, 0 < load (away PlainJson.codec bobAndCarol 0 i) (text "a1") (S i) := by
  obtain ⟨S₁, hMove, hAccepted, hRouted, _, S, hRun, _⟩ := backAndForth_runs
  have hRequest : request PlainJson.codec (groupInput threeMembers) = .group _ := rfl
  have hTwo : ∀ j : Fin 2, ∃ a ∈ (aliceGroup "alice,bob,carol").targets, ∃ ss,
      entry PlainJson.codec (bobAndCarol 0).node a = some ss ∧
        ss.channel ≠ (bobAndCarol j).node.channel := by
    refine Fin.forall_fin_two.mpr ⟨?_, ?_⟩
    · exact ⟨text "carol@x", by decide +kernel, seat "n2:4281" "c3" "carol@x", by decide +kernel,
        by decide +kernel⟩
    · exact ⟨text "bob@x", by decide +kernel, seat "n1:4281" "b2" "bob@x", by decide +kernel,
        by decide +kernel⟩
  exact ⟨S₁, S, hMove, hRun, group_never_settles PlainJson.codec 20 placement_bobAndCarol
    (sends_alice _ "alice,bob,carol") rfl (by decide +kernel) hTwo hRequest rfl rfl rfl hMove hAccepted
    hRun hRouted⟩

end Sara.Concurrent
