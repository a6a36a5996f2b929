import Sara.Cluster.Group
import Sara.Types.PlainJson
import Mathlib.Data.List.Nodup

/-! # Group messages are written once

The copies for one session are counted wherever they are: with the sender, in the
routers, in the hands of workers, in the data channels. A copy is used up when it is
written, and a step of a node makes no further one. A data channel does: it expands
every copy once more. With the recipients on the sender's node, or with one recipient
only, nothing is gained by that, and no session is written to twice.
-/

namespace Sara.Concurrent

open Lib Lib.Prog Lib.Transition Saradb

set_option autoImplicit false

/-! ## Copies under way -/

def Pc.packets : Pc → List Packet
  | .routing packets => packets
  | .acting packet _ packets => packet :: packets
  | .idle | .kill _ _ _ | .auth _ _ | .logon _ | .fetch _ | .publish _ | .storing _ _ => []

def load (q : Packet → Bool) (x : Bytes) (s : System) : Nat :=
  (s.pc x).packets.countP q + (s.node.router.filterMap RouterItem.packet).countP q +
    (∑ w ∈ Finset.range routerWorkerNum, (s.hands w).packet.toList.countP q) +
    (s.node.published.map Prod.snd).countP q

section Flow

variable (C : Codec) {k : Nat} (S₀ : Cluster k) (i₀ : Fin k) (x : Bytes) (g : GroupMessage)

/-- A copy, and where the directory sends it. -/
structure Goes (p : Packet) (ss : SessionStatus) : Prop where
  copy : g.Copy p
  genuine : g.Genuine
  entry : entry C (S₀ i₀).node p.envelope.to_ = some ss

def Bound (it : RouterItem) : Prop :=
  ∃ p ss, Goes C S₀ i₀ g p ss ∧ it = { channel := ss.channel, sid := ss.sid, packet := some p, signal := 0 }

def Sending : Pc → Prop
  | .idle => True
  | .routing packets => ∀ p ∈ packets, g.Copy p
  | .acting p d packets => g.Copy p ∧ (∀ q ∈ packets, g.Copy q) ∧
    (d = .ignore ∨ d = .store ∨ ∃ ss, d = .route ss ∧ Goes C S₀ i₀ g p ss)
  | .kill _ _ _ | .auth _ _ | .logon _ | .fetch _ | .publish _ | .storing _ _ => False

def Carrying (channel : Bytes) : Hand → Prop
  | .free => True
  | .item it => Bound C S₀ i₀ g it
  | .found it => Bound C S₀ i₀ g it ∧ it.channel = channel
  | .acting y p d => d = .toMe ∧ ∃ ss, Goes C S₀ i₀ g p ss ∧ ss.channel = channel ∧ ss.sid = y

def Near : Prop :=
  ∀ a ∈ g.live C (S₀ i₀).node, ∀ ss ∈ entry C (S₀ i₀).node a, ss.channel = (S₀ i₀).node.channel

/-- Node `i` holds copies of the message and nothing else, and only the sender routes. -/
structure Flow (i : Fin k) (s : System) : Prop where
  fixed : Fixed (S₀ i).node s.node
  others : ∀ y, i ≠ i₀ ∨ y ≠ x → s.pc y = .idle
  sender : Sending C S₀ i₀ g (s.pc x)
  router : ∀ it ∈ s.node.router, Bound C S₀ i₀ g it
  hands : ∀ w, Carrying C S₀ i₀ g (S₀ i).node.channel (s.hands w)
  spare : ∀ w, routerWorkerNum ≤ w → s.hands w = .free
  published : ∀ e ∈ s.node.published, ∃ ss, Goes C S₀ i₀ g e.2 ss ∧ e.1 = ss.channel
  near : Near C S₀ i₀ g → s.node.published = [] ∧
    (i ≠ i₀ → s.node.router = [] ∧ ∀ w, s.hands w = .free)

def leadsTo (h : Fin k) (y a : Bytes) : Bool :=
  g.Genuine && (entry C (S₀ i₀).node a).any fun ss => ss.channel = (S₀ h).node.channel && ss.sid = y

/-- The copies for session `y` of node `h` that are on node `i`, and those written there. -/
def tally (h : Fin k) (y : Bytes) (i : Fin k) (s : System) : Nat :=
  load (fun p => leadsTo C S₀ i₀ g h y p.envelope.to_) x s + if i = h then relays s.node y else 0

/-- A step of node `i` that makes no further copy. -/
def Moves (i : Fin k) (s t : System) : Prop :=
  Flow C S₀ i₀ x g i t ∧ ∀ h y, tally C S₀ i₀ x g h y i t ≤ tally C S₀ i₀ x g h y i s

/-- The copies `ps` were put into the router, or stored. -/
structure Queued (ps : List Packet) (n n' : Node) : Prop where
  fixed : Fixed n n'
  published : n'.published = n.published
  relays : ∀ y, relays n' y = relays n y
  router : ∀ it ∈ n'.router, it ∈ n.router ∨ Bound C S₀ i₀ g it
  load : ∀ q : Packet → Bool,
    (n'.router.filterMap RouterItem.packet).countP q ≤ (n.router.filterMap RouterItem.packet).countP q + ps.countP q

end Flow

variable {C : Codec} {k : Nat} {S₀ : Cluster k} {i₀ : Fin k} {x : Bytes} {g : GroupMessage}

/-! ## Into the router -/

section Queue

variable {ps qs : List Packet} {p : Packet} {ss : SessionStatus} {n n' n'' : Node} {i : Fin k}

theorem Queued.of_still (h : Still n n') : Queued C S₀ i₀ g ps n n' where
  fixed := h.fixed
  published := h.published
  relays := h.relays
  router it hit := .inl (h.router ▸ hit)
  load q := by
    rw [h.router]
    omega

theorem Queued.trans (h : Queued C S₀ i₀ g ps n n') (h' : Queued C S₀ i₀ g qs n' n'') :
    Queued C S₀ i₀ g (ps ++ qs) n n'' where
  fixed := h.fixed.trans h'.fixed
  published := h'.published.trans h.published
  relays y := (h'.relays y).trans (h.relays y)
  router it hit := by
    rcases h'.router it hit with hOld | hNew
    · exact h.router it hOld
    · exact .inr hNew
  load q := by
    have hFirst := h.load q
    have hSecond := h'.load q
    rw [List.countP_append]
    omega

theorem queued_route (hGoes : Goes C S₀ i₀ g p ss) (n : Node) : Queued C S₀ i₀ g [p] n
    (n.route { channel := ss.channel, sid := ss.sid, packet := some p, signal := 0 }) := by
  unfold Node.route
  split
  · refine ⟨⟨rfl, rfl, rfl, fun _ => rfl⟩, rfl, fun _ => rfl, ?_, ?_⟩
    · intro it hit
      rcases List.mem_append.mp hit with hOld | hLast
      · exact .inl hOld
      · exact .inr ⟨p, ss, hGoes, List.mem_singleton.mp hLast⟩
    · intro q
      simp [List.filterMap_append]
  · exact Queued.of_still (Std.Refl.refl n)

theorem queued_storePacket (hCopy : g.Copy p) (n : Node) :
    ∃ n', storePacket C p n = .done () n' ∧ Queued C S₀ i₀ g [p] n n' := by
  obtain ⟨r, hr, _⟩ := GroupMessage.exists_newJID_of_mem hCopy.to_
  have hStill := still_storePacket (C := C) hCopy.id n
  unfold storePacket at hStill ⊢
  rw [hr] at hStill ⊢
  exact ⟨_, rfl, .of_still hStill⟩

theorem Placement.entry_eq (hPlace : Placement C S₀) (hFixed : Fixed (S₀ i).node n) (i₀ : Fin k)
    (a : Bytes) : entry C n a = entry C (S₀ i₀).node a := by
  rw [← hPlace.shared i i₀ a]
  unfold entry Node.get
  rw [hFixed.store]

theorem get_toSessionid {r : JID} {a : Bytes} (h : r.stringWithoutResource = a) (n : Node) :
    (n.get r.toSessionid).map C.unmarshalStatus = entry C n a := by
  rw [entry, JID.toSessionid, h]

theorem queued_routePacket (hPlace : Placement C S₀) (hGenuine : g.Genuine) (hCopy : g.Copy p)
    (hFixed : Fixed (S₀ i).node n) :
    ∃ n', Node.routePacket C p n = .done () n' ∧ Queued C S₀ i₀ g [p] n n' := by
  obtain ⟨r, hr, hBare⟩ := GroupMessage.exists_newJID_of_mem hCopy.to_
  have hEntry := (get_toSessionid (C := C) hBare n).trans (hPlace.entry_eq hFixed i₀ _)
  unfold Node.routePacket
  simp only [hr]
  rw [bind_done (read_apply _ n)]
  cases hGet : n.get r.toSessionid with
  | some ssb =>
    rw [hGet] at hEntry
    exact ⟨_, rfl, queued_route ⟨hCopy, hGenuine, hEntry.symm⟩ n⟩
  | none => exact queued_storePacket hCopy n

theorem queued_forM (hPlace : Placement C S₀) (hGenuine : g.Genuine) (hCopies : ∀ p ∈ ps, g.Copy p)
    (hFixed : Fixed (S₀ i).node n) :
    Queued C S₀ i₀ g ps n (ps.forM (Node.routePacket C) n).state := by
  induction ps generalizing n with
  | nil => exact Queued.of_still (Std.Refl.refl n)
  | cons p ps ih =>
    obtain ⟨n', hDone, hQueued⟩ : ∃ n', Node.routePacket C p n = .done () n' ∧
        Queued C S₀ i₀ g [p] n n' :=
      queued_routePacket hPlace hGenuine (hCopies p List.mem_cons_self) hFixed
    have hRest := ih (fun q hq => hCopies q (List.mem_cons_of_mem p hq)) (hFixed.trans hQueued.fixed)
    have hForM : (p :: ps).forM (Node.routePacket C) n = ps.forM (Node.routePacket C) n' :=
      bind_done hDone _
    rw [hForM]
    exact hQueued.trans hRest

end Queue

/-- Copies may enter the router of a node, unless they are all to stay on another. -/
theorem Flow.queued {s : System} {i : Fin k} {n : Node} {ps : List Packet}
    (h : Flow C S₀ i₀ x g i s) (hNear : Near C S₀ i₀ g → i = i₀)
    (hQueued : Queued C S₀ i₀ g ps s.node n) (crashed : Bool) :
    Flow C S₀ i₀ x g i { s with node := n, crashed := crashed } where
  fixed := h.fixed.trans hQueued.fixed
  others := h.others
  sender := h.sender
  router it hit := by
    rcases hQueued.router it hit with hOld | hNew
    · exact h.router it hOld
    · exact hNew
  hands := h.hands
  spare := h.spare
  published := by
    rw [hQueued.published]
    exact h.published
  near hAll := ⟨hQueued.published.trans (h.near hAll).1, fun hNode => absurd (hNear hAll) hNode⟩

/-! ## The session of the sender -/

def Sends (S : Cluster k) (i : Fin k) (x : Bytes) (g : GroupMessage) : Prop :=
  ∃ sess, (S i).node.sessions x = some sess ∧ sess.status.status = .login ∧
    newJID sess.status.jid = .ok g.sender

section Session

variable {s : System} {i : Fin k}

theorem Flow.setPc (h : Flow C S₀ i₀ x g i₀ s) {pc : Pc} {n : Node} {ps : List Packet}
    (hQueued : Queued C S₀ i₀ g ps s.node n) (hSending : Sending C S₀ i₀ g pc) :
    Flow C S₀ i₀ x g i₀ { s with node := n, pc := Function.update s.pc x pc } := by
  refine { h.queued (fun _ => rfl) hQueued s.crashed with others := ?_, sender := ?_ }
  · rintro y (hNode | hne)
    · exact absurd rfl hNode
    · exact (Function.update_of_ne hne ..).trans (h.others y (.inr hne))
  · simpa only [Function.update_self] using hSending

theorem Flow.session (h : Flow C S₀ i₀ x g i₀ s) {pc : Pc} {n : Node} (ps : List Packet)
    (hQueued : Queued C S₀ i₀ g ps s.node n) (hSending : Sending C S₀ i₀ g pc)
    (hPackets : (s.pc x).packets = ps ++ pc.packets) :
    Moves C S₀ i₀ x g i₀ s { s with node := n, pc := Function.update s.pc x pc } := by
  refine ⟨h.setPc hQueued hSending, ?_⟩
  intro h' y
  have hLoad := hQueued.load fun p => leadsTo C S₀ i₀ g h' y p.envelope.to_
  simp only [tally, load, Function.update_self, hPackets, List.countP_append, hQueued.published,
    hQueued.relays]
  omega

theorem sending_decided (hPlace : Placement C S₀) (hSelf : g.sender.stringWithoutResource ∉ g.targets)
    (hSends : Sends S₀ i₀ x g) {p : Packet} {packets : List Packet} {n : Node}
    (hFixed : Fixed (S₀ i₀).node n) (hCopy : g.Copy p) (hCopies : ∀ q ∈ packets, g.Copy q) :
    ∃ d, routeDecide C x p n = .done d n ∧ Sending C S₀ i₀ g (.acting p d packets) := by
  obtain ⟨sess₀, hs₀, hLogin, hj⟩ := hSends
  obtain ⟨sess, hs, hStatus⟩ := hFixed.session hs₀
  obtain ⟨r, hr, hBare⟩ := GroupMessage.exists_newJID_of_mem hCopy.to_
  rw [← hStatus] at hLogin hj
  have hOther : g.sender.stringWithoutResource ≠ r.stringWithoutResource := by
    intro hEq
    rw [hEq, hBare] at hSelf
    exact hSelf hCopy.to_
  have hFrom : newJID p.envelope.from_ = .ok g.from_jid := hCopy.from_ ▸ g.from_ok
  refine ⟨_, routeDecide_other hs hLogin hj hr hFrom hOther, hCopy, hCopies, ?_⟩
  rw [get_toSessionid hBare, hPlace.entry_eq hFixed i₀]
  by_cases hGenuine : g.Genuine
  · rw [if_pos hGenuine]
    cases hEntry : entry C (S₀ i₀).node p.envelope.to_ with
    | none => exact .inr (.inl rfl)
    | some ss => exact .inr (.inr ⟨ss, rfl, hCopy, hGenuine, hEntry⟩)
  · rw [if_neg hGenuine]
    exact .inl rfl

theorem Flow.go (hPlace : Placement C S₀) (hSelf : g.sender.stringWithoutResource ∉ g.targets)
    (hSends : Sends S₀ i₀ x g) (h : Flow C S₀ i₀ x g i s) {y : Bytes} (hBusy : s.pc y ≠ .idle)
    (env : Env) : Moves C S₀ i₀ x g i s (s.session y (next C y env (s.pc y))) := by
  obtain ⟨rfl, rfl⟩ : i = i₀ ∧ y = x := by
    by_contra hNot
    exact hBusy (h.others y (not_and_or.mp hNot))
  have hSender := h.sender
  match hPc : s.pc y with
  | .idle => exact absurd hPc hBusy
  | .routing [] =>
    exact h.session [] (.of_still (Std.Refl.refl s.node)) trivial (by rw [hPc]; rfl)
  | .routing (p :: packets) =>
    rw [hPc] at hSender
    obtain ⟨d, hDecide, hActing⟩ := sending_decided hPlace hSelf hSends h.fixed
      (hSender p List.mem_cons_self) fun q hq => hSender q (List.mem_cons_of_mem p hq)
    have hNext : next C y env (.routing (p :: packets)) s.node = .done (.acting p d packets) s.node :=
      bind_done hDecide _
    unfold System.session
    rw [hNext]
    exact h.session [] (.of_still (Std.Refl.refl s.node)) hActing (by rw [hPc]; rfl)
  | .acting p d packets =>
    rw [hPc] at hSender
    obtain ⟨hCopy, hCopies, hDecision⟩ := hSender
    obtain ⟨n, hAct, hQueued⟩ : ∃ n, routeAct C y p d s.node = .done () n ∧
        Queued C S₀ i g [p] s.node n := by
      obtain rfl | rfl | ⟨ss, rfl, hGoes⟩ := hDecision
      · exact ⟨_, rfl, .of_still (Std.Refl.refl s.node)⟩
      · exact queued_storePacket hCopy s.node
      · exact ⟨_, rfl, queued_route hGoes s.node⟩
    have hNext : next C y env (.acting p d packets) s.node = .done (.routing packets) n :=
      bind_done hAct _
    unfold System.session
    rw [hNext]
    exact h.session [p] hQueued hCopies (by rw [hPc]; rfl)
  | .kill _ _ _ | .auth _ _ | .logon _ | .fetch _ | .publish _ | .storing _ _ =>
    rw [hPc] at hSender
    exact hSender.elim

end Session

/-! ## The workers -/

section Worker

variable {s : System} {i : Fin k} {w : Nat}

theorem Flow.worker_lt (h : Flow C S₀ i₀ x g i s) (hBusy : s.hands w ≠ .free) : w < routerWorkerNum := by
  by_contra hNot
  exact hBusy (h.spare w (not_lt.mp hNot))

theorem Flow.hand (h : Flow C S₀ i₀ x g i s) (hBusy : s.hands w ≠ .free) {hand : Hand} {n : Node}
    (hFixed : Fixed s.node n) (hRouter : n.router = s.node.router)
    (hCarrying : Carrying C S₀ i₀ g (S₀ i).node.channel hand)
    (hPublished : ∀ e ∈ n.published, e ∈ s.node.published ∨
      ∃ ss, Goes C S₀ i₀ g e.2 ss ∧ e.1 = ss.channel)
    (hNear : Near C S₀ i₀ g → i = i₀ → n.published = s.node.published)
    (hCount : ∀ h' y, let q := fun p : Packet => leadsTo C S₀ i₀ g h' y p.envelope.to_
      hand.packet.toList.countP q + (n.published.map Prod.snd).countP q +
          (if i = h' then relays n y else 0) ≤
        (s.hands w).packet.toList.countP q + (s.node.published.map Prod.snd).countP q +
          if i = h' then relays s.node y else 0) :
    Moves C S₀ i₀ x g i s { s with node := n, hands := Function.update s.hands w hand } := by
  have hWorker := h.worker_lt hBusy
  constructor
  · refine ⟨h.fixed.trans hFixed, h.others, h.sender, ?_, ?_, ?_, ?_, ?_⟩
    · rw [hRouter]
      exact h.router
    · intro w'
      rcases eq_or_ne w' w with rfl | hne
      · simpa only [Function.update_self] using hCarrying
      · simpa only [Function.update_of_ne hne] using h.hands w'
    · intro w' hw'
      have hne : w' ≠ w := by omega
      exact (Function.update_of_ne hne ..).trans (h.spare w' hw')
    · intro e he
      rcases hPublished e he with hOld | hNew
      · exact h.published e hOld
      · exact hNew
    · intro hAll
      obtain ⟨hEmpty, hFar⟩ := h.near hAll
      have hHere : i = i₀ := by
        by_contra hNode
        exact hBusy ((hFar hNode).2 w)
      exact ⟨(hNear hAll hHere).trans hEmpty, fun hNode => absurd hHere hNode⟩
  · intro h' y
    have hOne := hCount h' y
    have hSum := sum_move (fun (_ : Nat) (hand : Hand) => hand.packet.toList.countP
      fun p => leadsTo C S₀ i₀ g h' y p.envelope.to_) s.hands (Finset.mem_range.mpr hWorker) hand
    simp only [tally, load, hRouter] at hOne ⊢
    omega

/-- The session a copy goes to is on the node whose channel the directory names. -/
theorem Goes.placed (hPlace : Placement C S₀) {p : Packet} {ss : SessionStatus}
    (hGoes : Goes C S₀ i₀ g p ss) (hHere : ss.channel = (S₀ i).node.channel) :
    (S₀ i).node.sessionMap ss.sid = true ∧ ∃ sess j, (S₀ i).node.sessions ss.sid = some sess ∧
      sess.status.status = .login ∧ newJID sess.status.jid = .ok j ∧
      j.stringWithoutResource = p.envelope.to_ := by
  obtain ⟨h, sess, j, hChannel, hMap, hs, hLogin, hj, hBare⟩ := hPlace.right i₀ _ ss hGoes.entry
  cases hPlace.channel_inj h i (hChannel.symm.trans hHere)
  exact ⟨hMap, sess, j, hs, hLogin, hj, hBare⟩

theorem leadsTo_of_goes {p : Packet} {ss : SessionStatus} (hGoes : Goes C S₀ i₀ g p ss)
    (hHere : ss.channel = (S₀ i).node.channel) :
    leadsTo C S₀ i₀ g i ss.sid p.envelope.to_ = true := by
  simpa [leadsTo, hGoes.entry, hHere] using hGoes.genuine

theorem Flow.workItem (hPlace : Placement C S₀) (h : Flow C S₀ i₀ x g i s) {it : RouterItem}
    (hHand : s.hands w = .item it) {env : Env} (hPublish : env.publish it.channel = true) :
    Moves C S₀ i₀ x g i s (s.worker w (work C env (.item it))) := by
  have hBusy : s.hands w ≠ .free := by simp [hHand]
  have hBound := h.hands w
  rw [hHand] at hBound
  obtain ⟨p, ss, hGoes, rfl⟩ := id hBound
  unfold System.worker
  by_cases hHere : ss.channel = (S₀ i).node.channel
  · have hMap : s.node.sessionMap ss.sid = true := by
      rw [h.fixed.sessionMap]
      exact (hGoes.placed hPlace hHere).1
    rw [work_item_here (.inr (hHere.trans h.fixed.channel.symm)) hMap]
    refine h.hand hBusy (.refl _) rfl ⟨hBound, hHere⟩ (fun e he => .inl he) (fun _ _ => rfl) ?_
    intro h' y
    simp only [hHand, Hand.packet, le_refl]
  · have hNonempty : ss.channel ≠ [] := by
      obtain ⟨h', _, _, hChannel, _⟩ := hPlace.right i₀ _ ss hGoes.entry
      rw [hChannel]
      exact hPlace.channel_ne h'
    rw [work_item_away hNonempty (fun hEq => hHere (hEq.trans h.fixed.channel)) rfl hPublish]
    refine h.hand hBusy ⟨rfl, rfl, rfl, fun _ => rfl⟩ rfl trivial ?_ ?_ ?_
    · intro e he
      rcases List.mem_append.mp he with hOld | hLast
      · exact .inl hOld
      · rw [List.mem_singleton.mp hLast]
        exact .inr ⟨ss, hGoes, rfl⟩
    · rintro hNear rfl
      have hLive : p.envelope.to_ ∈ g.live C (S₀ i).node :=
        List.mem_filter.mpr ⟨hGoes.copy.to_, by rw [hGoes.entry]; rfl⟩
      exact absurd (hNear _ hLive ss hGoes.entry) hHere
    · intro h' y
      have hRelays : ∀ published, relays { s.node with published := published } y =
        relays s.node y := fun _ => rfl
      simp only [hHand, Hand.packet, Option.toList_none, List.countP_nil, Option.toList_some,
        List.map_append, List.map_singleton, List.countP_append, hRelays]
      omega

theorem Flow.workFound (hPlace : Placement C S₀) (h : Flow C S₀ i₀ x g i s) {it : RouterItem}
    (hHand : s.hands w = .found it) (env : Env) :
    Moves C S₀ i₀ x g i s (s.worker w (work C env (.found it))) := by
  have hBusy : s.hands w ≠ .free := by simp [hHand]
  have hBound := h.hands w
  rw [hHand] at hBound
  obtain ⟨⟨p, ss, hGoes, rfl⟩, hHere⟩ := hBound
  obtain ⟨_, sess₀, j, hs₀, hLogin, hj, hBare⟩ := hGoes.placed hPlace hHere
  obtain ⟨sess, hs, hStatus⟩ := h.fixed.session hs₀
  obtain ⟨r, hr, hTo⟩ := GroupMessage.exists_newJID_of_mem hGoes.copy.to_
  rw [← hStatus] at hLogin hj
  have hDecide : routeDecide C ss.sid p s.node = .done .toMe s.node :=
    routeDecide_toMe hs hLogin hj hr (hBare.trans hTo.symm)
  unfold System.worker
  rw [work_found_packet rfl rfl hDecide]
  refine h.hand hBusy (.refl _) rfl ⟨rfl, ss, hGoes, hHere, rfl⟩ (fun e he => .inl he)
    (fun _ _ => rfl) ?_
  intro h' y
  simp only [hHand, Hand.packet, le_refl]

def Session.buffer (p : Packet) (s : Session) : Session :=
  { s with pkgBuff := s.pkgBuff.insert p.envelope.id p }

def Session.relay (p : Packet) (s : Session) : Session := { s with written := s.written ++ [.relay p] }

theorem routeAct_toMe (n : Node) (z : Bytes) (p : Packet) : routeAct C z p .toMe n =
    .done () ((n.updateSession z (Session.buffer p)).updateSession z (Session.relay p)) := rfl

/-- A copy is written once to the session it is handed to, and to no other. -/
theorem relays_toMe (n : Node) (z y : Bytes) (p : Packet) :
    relays ((n.updateSession z (Session.buffer p)).updateSession z (Session.relay p)) y ≤
      relays n y + if y = z then 1 else 0 := by
  unfold relays
  rcases eq_or_ne y z with rfl | hne
  · rw [Node.updateSession_self, Node.updateSession_self]
    cases n.sessions y with
    | none => simp
    | some s => simp [Session.buffer, Session.relay, Written.isRelay]
  · rw [Node.updateSession_of_ne _ hne, Node.updateSession_of_ne _ hne]
    omega

theorem Flow.workActing (h : Flow C S₀ i₀ x g i s) {z : Bytes} {p : Packet} {d : Decision}
    (hHand : s.hands w = .acting z p d) (env : Env) :
    Moves C S₀ i₀ x g i s (s.worker w (work C env (.acting z p d))) := by
  have hBusy : s.hands w ≠ .free := by simp [hHand]
  have hBound := h.hands w
  rw [hHand] at hBound
  obtain ⟨rfl, ss, hGoes, hHere, rfl⟩ := hBound
  have hWork : work C env (.acting ss.sid p .toMe) s.node = .done .free
      ((s.node.updateSession ss.sid (Session.buffer p)).updateSession ss.sid (Session.relay p)) :=
    bind_done (routeAct_toMe s.node ss.sid p) _
  have hFixed := (Fixed.updateSession s.node ss.sid (f := Session.buffer p) fun _ => rfl).trans
    (Fixed.updateSession _ ss.sid (f := Session.relay p) fun _ => rfl)
  unfold System.worker
  rw [hWork]
  refine h.hand hBusy hFixed rfl trivial (fun e he => .inl he) (fun _ _ => rfl) ?_
  intro h' y
  have hRelays := relays_toMe s.node ss.sid y p
  have hPublished : ∀ f f', ((s.node.updateSession ss.sid f).updateSession ss.sid f').published =
    s.node.published := fun _ _ => rfl
  simp only [hHand, Hand.packet, Option.toList_none, List.countP_nil, Option.toList_some,
    List.countP_singleton, hPublished]
  by_cases hMine : i = h' ∧ y = ss.sid
  · obtain ⟨rfl, rfl⟩ := hMine
    rw [leadsTo_of_goes hGoes hHere]
    simp only [if_true] at hRelays ⊢
    omega
  · split
    · rename_i hNode
      rw [if_neg fun hEq => hMine ⟨hNode, hEq⟩] at hRelays
      omega
    · omega

theorem Flow.work (hPlace : Placement C S₀) (h : Flow C S₀ i₀ x g i s) (hBusy : s.hands w ≠ .free)
    {env : Env} (hPublish : ∀ it, s.hands w = .item it → env.publish it.channel = true) :
    Moves C S₀ i₀ x g i s (s.worker w (Concurrent.work C env (s.hands w))) := by
  cases hHand : s.hands w with
  | free => exact absurd hHand hBusy
  | item it => exact h.workItem hPlace hHand (hPublish it hHand)
  | found it => exact h.workFound hPlace hHand env
  | acting z p d => exact h.workActing hHand env

theorem Flow.take (h : Flow C S₀ i₀ x g i s) {it : RouterItem} {rest : List RouterItem}
    (hRouter : s.node.router = it :: rest) (hWorker : w < routerWorkerNum)
    (hFree : s.hands w = .free) :
    Moves C S₀ i₀ x g i s { s with
      node := { s.node with router := rest }
      hands := Function.update s.hands w (.item it) } := by
  have hItems := h.router
  rw [hRouter] at hItems
  have hCarrying : Carrying C S₀ i₀ g (S₀ i).node.channel (.item it) := hItems it List.mem_cons_self
  constructor
  · refine ⟨⟨h.fixed.channel, h.fixed.sessionMap, h.fixed.store, h.fixed.status⟩, h.others, h.sender,
      fun it' hit => hItems it' (List.mem_cons_of_mem it hit), ?_, ?_, h.published, ?_⟩
    · intro w'
      rcases eq_or_ne w' w with rfl | hne
      · simpa only [Function.update_self] using hCarrying
      · simpa only [Function.update_of_ne hne] using h.hands w'
    · intro w' hw'
      have hne : w' ≠ w := by omega
      exact (Function.update_of_ne hne ..).trans (h.spare w' hw')
    · intro hNear
      obtain ⟨hEmpty, hFar⟩ := h.near hNear
      refine ⟨hEmpty, fun hNode => ?_⟩
      have hNone := (hFar hNode).1
      rw [hRouter] at hNone
      cases hNone
  · intro h' y
    have hSum := sum_move (fun (_ : Nat) (hand : Hand) => hand.packet.toList.countP
      fun p => leadsTo C S₀ i₀ g h' y p.envelope.to_) s.hands (Finset.mem_range.mpr hWorker) (.item it)
    have hRelays : relays { s.node with router := rest } y = relays s.node y := rfl
    obtain ⟨p, _, _, hPacket⟩ := hCarrying
    have hOld : (s.hands w).packet = none := by
      rw [hFree]
      rfl
    have hItem : it.packet = some p := by rw [hPacket]
    have hNew : (Hand.item it).packet = some p := hItem
    simp only [hOld, hNew, Option.toList_none, List.countP_nil, Option.toList_some,
      List.countP_singleton] at hSum
    simp only [tally, load, hRouter, hRelays]
    rw [List.filterMap_cons_some hItem, List.countP_cons]
    omega

end Worker

/-! ## The data channels -/

section Channel

variable {s : System} {i : Fin k} {m : Nat} {env : Env}

theorem Flow.unpublish (h : Flow C S₀ i₀ x g i s) (m : Nat) :
    Flow C S₀ i₀ x g i (s.unpublish m) where
  fixed := ⟨h.fixed.channel, h.fixed.sessionMap, h.fixed.store, h.fixed.status⟩
  others := h.others
  sender := h.sender
  router := h.router
  hands := h.hands
  spare := h.spare
  published e he := h.published e (List.mem_of_mem_eraseIdx he)
  near hNear := by
    obtain ⟨hEmpty, hFar⟩ := h.near hNear
    refine ⟨?_, hFar⟩
    rw [System.unpublish, hEmpty]
    rfl

theorem tally_unpublish {e : Bytes × Packet} (he : s.node.published[m]? = some e) (h : Fin k)
    (y : Bytes) : tally C S₀ i₀ x g h y i (s.unpublish m) +
      (if leadsTo C S₀ i₀ g h y e.2.envelope.to_ then 1 else 0) = tally C S₀ i₀ x g h y i s := by
  have hErase : (e :: s.node.published.eraseIdx m).Perm s.node.published := by
    obtain ⟨hm, rfl⟩ := List.getElem?_eq_some_iff.mp he
    exact List.getElem_cons_eraseIdx_perm hm
  have hCount := (hErase.map Prod.snd).countP_eq fun p => leadsTo C S₀ i₀ g h y p.envelope.to_
  rw [List.map_cons, List.countP_cons] at hCount
  have hRelays : relays (s.unpublish m).node y = relays s.node y := rfl
  simp only [tally, load, hRelays]
  simp only [System.unpublish]
  omega

/-- A copy read from the data channel is expanded like the message itself. -/
theorem queued_dataChannelHandler (hPlace : Placement C S₀) {p p' : Packet} {ss : SessionStatus}
    (hGoes : Goes C S₀ i₀ g p ss) {message : Bytes} (hRead : newPacket C message = .ok p')
    (hSame : p'.envelope = p.envelope) {n : Node} (hFixed : Fixed (S₀ i).node n)
    (hFound : foundUsers n g.gid g.from_jid.domain env = some g.users) :
    ∃ packets, (∀ q : Bytes → Bool, packets.countP (fun p => q p.envelope.to_) ≤ g.targets.countP q) ∧
      Queued C S₀ i₀ g packets n (dataChannelHandler C message env n).state := by
  have hFrom : p'.envelope.from_ = g.from_ := hSame ▸ hGoes.copy.from_
  have hGid : p'.envelope.gid = g.gid := hSame ▸ hGoes.copy.gid
  have hType : p'.envelope.type = msgTypeGroupChat := hSame ▸ hGoes.copy.type
  have hStill := still_generateGroupPackets p' env n
  unfold dataChannelHandler
  simp only [hRead, hType, if_true]
  rw [bind_apply]
  match hResult : generateGroupPackets p' env n with
  | .panic n' | .done (.error _) n' =>
    rw [hResult] at hStill
    exact ⟨[], fun q => Nat.zero_le _, .of_still hStill⟩
  | .done (.ok packets) n' =>
    rw [hResult] at hStill
    obtain ⟨hTo, hCopies⟩ := GroupMessage.generated hFrom hGid hFound hResult
    refine ⟨packets, ?_, ?_⟩
    · intro q
      rw [← hTo, List.countP_map]
      rfl
    · have hStart : Queued C S₀ i₀ g [] n n' := .of_still hStill
      exact hStart.trans (queued_forM hPlace hGoes.genuine hCopies (hFixed.trans hStill.fixed))

theorem foundUsers_unpublish (s : System) (m : Nat) (gid domain : Bytes) (env : Env) :
    foundUsers (s.unpublish m).node gid domain env = foundUsers s.node gid domain env := by
  have hGet : (s.unpublish m).node.get (groupUsersKey gid domain) =
    s.node.get (groupUsersKey gid domain) := rfl
  unfold foundUsers groupMembers
  rw [bind_done (read_apply _ _), bind_done (read_apply _ _), hGet]
  cases s.node.get (groupUsersKey gid domain) with
  | some users => rfl
  | none =>
    cases env.groupUsers gid with
    | error e => rfl
    | ok ulist =>
      by_cases hLength : 1 < ulist.length
      · simp only [if_pos hLength]
        rfl
      · simp only [if_neg hLength]
        rfl

end Channel

/-! ## All nodes together -/

section Cluster

variable {S : Cluster k} {i : Fin k}

/-- Where the recipients may be: not the sender itself, and, if the message is from the
sender, different users who are all on the sender's node or only one. -/
structure Confined (C : Codec) (S : Cluster k) (i : Fin k) (g : GroupMessage) : Prop where
  self : g.sender.stringWithoutResource ∉ g.targets
  nodup : g.Genuine → (g.live C (S i).node).Nodup
  spread : g.Genuine → Near C S i g ∨ (g.live C (S i).node).length ≤ 1

theorem leadsTo_iff {h : Fin k} {y a : Bytes} : leadsTo C S₀ i₀ g h y a = true ↔
    g.Genuine ∧ ∃ ss, entry C (S₀ i₀).node a = some ss ∧ ss.channel = (S₀ h).node.channel ∧ ss.sid = y := by
  simp [leadsTo, Option.any_eq_true]

theorem address_of_leadsTo (hPlace : Placement C S₀) {h : Fin k} {y a : Bytes}
    (hLeads : leadsTo C S₀ i₀ g h y a = true) : ∃ sess j, (S₀ h).node.sessions y = some sess ∧
      newJID sess.status.jid = .ok j ∧ j.stringWithoutResource = a := by
  obtain ⟨_, ss, hEntry, hChannel, rfl⟩ := leadsTo_iff.mp hLeads
  obtain ⟨h', sess, j, hChannel', _, hs, _, hj, hBare⟩ := hPlace.right i₀ a ss hEntry
  cases hPlace.channel_inj h h' (hChannel.symm.trans hChannel')
  exact ⟨sess, j, hs, hj, hBare⟩

theorem leadsTo_inj (hPlace : Placement C S₀) {h : Fin k} {y a b : Bytes}
    (ha : leadsTo C S₀ i₀ g h y a = true) (hb : leadsTo C S₀ i₀ g h y b = true) : a = b := by
  obtain ⟨sess, j, hs, hj, rfl⟩ := address_of_leadsTo hPlace ha
  obtain ⟨sess', j', hs', hj', rfl⟩ := address_of_leadsTo hPlace hb
  cases hs.symm.trans hs'
  cases hj.symm.trans hj'
  rfl

theorem countP_targets (h : Fin k) (y : Bytes) :
    g.targets.countP (leadsTo C S₀ i₀ g h y) =
      (g.live C (S₀ i₀).node).countP (leadsTo C S₀ i₀ g h y) := by
  rw [GroupMessage.live, List.countP_filter]
  refine List.countP_congr ?_
  intro a _
  constructor
  · intro hLeads
    obtain ⟨_, ss, hEntry, _⟩ := leadsTo_iff.mp hLeads
    simp [hLeads, hEntry]
  · intro hBoth
    exact (Bool.and_eq_true_iff.mp hBoth).1

theorem countP_targets_le_one (hPlace : Placement C S₀) (hConfined : Confined C S₀ i₀ g) (h : Fin k)
    (y : Bytes) : g.targets.countP (leadsTo C S₀ i₀ g h y) ≤ 1 := by
  by_cases hSome : ∃ a, leadsTo C S₀ i₀ g h y a = true
  · obtain ⟨a, ha⟩ := hSome
    have hNodup := hConfined.nodup (leadsTo_iff.mp ha).1
    calc g.targets.countP (leadsTo C S₀ i₀ g h y)
        = (g.live C (S₀ i₀).node).countP (leadsTo C S₀ i₀ g h y) := countP_targets h y
      _ ≤ (g.live C (S₀ i₀).node).countP (· == a) := by
        refine List.countP_mono_left ?_
        intro b _ hb
        exact beq_iff_eq.mpr (leadsTo_inj hPlace hb ha)
      _ ≤ 1 := List.nodup_iff_count_le_one.mp hNodup a
  · have hNone : g.targets.countP (leadsTo C S₀ i₀ g h y) = 0 :=
      List.countP_eq_zero.mpr fun a _ ha => hSome ⟨a, ha⟩
    omega

theorem countP_targets_sender (hPlace : Placement C S₀) (hSends : Sends S₀ i₀ x g)
    (hConfined : Confined C S₀ i₀ g) : g.targets.countP (leadsTo C S₀ i₀ g i₀ x) = 0 := by
  refine List.countP_eq_zero.mpr ?_
  intro a hMem ha
  obtain ⟨sess, j, hs, hj, rfl⟩ := address_of_leadsTo hPlace ha
  obtain ⟨sess', hs', _, hSender⟩ := hSends
  cases hs.symm.trans hs'
  cases hj.symm.trans hSender
  exact hConfined.self hMem

/-- Where there is one recipient, another expansion replaces the copy. -/
theorem countP_targets_le_copy {p : Packet} {ss : SessionStatus} (hGoes : Goes C S₀ i₀ g p ss)
    (hSingle : (g.live C (S₀ i₀).node).length ≤ 1) (h : Fin k) (y : Bytes) :
    g.targets.countP (leadsTo C S₀ i₀ g h y) ≤
      if leadsTo C S₀ i₀ g h y p.envelope.to_ then 1 else 0 := by
  have hMem : p.envelope.to_ ∈ g.live C (S₀ i₀).node :=
    List.mem_filter.mpr ⟨hGoes.copy.to_, by rw [hGoes.entry]; rfl⟩
  rw [countP_targets]
  match hLive : g.live C (S₀ i₀).node with
  | [] =>
    rw [hLive] at hMem
    cases hMem
  | [a] =>
    rw [hLive] at hMem
    rw [List.mem_singleton.mp hMem, List.countP_singleton]
  | a :: b :: rest =>
    rw [hLive, List.length_cons, List.length_cons] at hSingle
    omega

def Hand.reaches (env : Env) : Hand → Bool
  | .item it => env.publish it.channel
  | .free | .found _ | .acting _ _ _ => true

/-- The steps of routing: a session routes its packets, a worker takes an item or works on
it and its calls to other nodes succeed, a data channel receives what was sent to it and
finds the same members. -/
def Routed (C : Codec) (g : GroupMessage) (S : Cluster k) : Move k → Prop
  | .within i (.work w env) => ((S i).hands w).reaches env = true
  | .within _ (.take _) | .within _ (.go _ _) => True
  | .within _ (.connect _) | .within _ (.register _) | .within _ .clean | .within _ (.recv _ _)
  | .within _ (.close _ _) | .within _ (.dtake _) | .within _ (.dexec _ _) => False
  | .deliver i j m env => foundUsers (S j).node g.gid g.from_jid.domain env = some g.users ∧
    ∀ e ∈ (S i).node.published[m]?,
      (newPacket C (e.2.toJson C)).toOption.map (·.envelope) = some e.2.envelope

/-- Every node is in the flow, and there are no more copies than before. -/
def Conserves (C : Codec) (S₀ : Cluster k) (i₀ : Fin k) (x : Bytes) (g : GroupMessage)
    (S T : Cluster k) : Prop :=
  (∀ i, Flow C S₀ i₀ x g i (T i)) ∧
    ∀ h y, ∑ i, tally C S₀ i₀ x g h y i (T i) ≤ ∑ i, tally C S₀ i₀ x g h y i (S i)

theorem flow_update {t : System} (hFlow : ∀ i, Flow C S₀ i₀ x g i (S i))
    (ht : Flow C S₀ i₀ x g i t) (j : Fin k) : Flow C S₀ i₀ x g j (Function.update S i t j) := by
  rcases eq_or_ne j i with rfl | hne
  · rw [Function.update_self]
    exact ht
  · rw [Function.update_of_ne hne]
    exact hFlow j

theorem Moves.conserves {t : System} (hFlow : ∀ i, Flow C S₀ i₀ x g i (S i))
    (h : Moves C S₀ i₀ x g i (S i) t) : Conserves C S₀ i₀ x g S (Function.update S i t) := by
  refine ⟨flow_update hFlow h.1, ?_⟩
  intro h' y
  have hSum := sum_move (tally C S₀ i₀ x g h' y) S (Finset.mem_univ i) t
  have hLess := h.2 h' y
  omega

theorem tally_queued {s : System} {n : Node} {ps : List Packet}
    (hQueued : Queued C S₀ i₀ g ps s.node n) (crashed : Bool) (h : Fin k) (y : Bytes) :
    tally C S₀ i₀ x g h y i { s with node := n, crashed := crashed } ≤ tally C S₀ i₀ x g h y i s +
      ps.countP fun p => leadsTo C S₀ i₀ g h y p.envelope.to_ := by
  have hLoad := hQueued.load fun p => leadsTo C S₀ i₀ g h y p.envelope.to_
  simp only [tally, load, hQueued.published, hQueued.relays]
  omega

theorem Confined.deliver (hPlace : Placement C S₀) (hConfined : Confined C S₀ i₀ g)
    (hFlow : ∀ i, Flow C S₀ i₀ x g i (S i)) {j : Fin k} {m : Nat} {env : Env} {e : Bytes × Packet}
    (he : (S i).node.published[m]? = some e)
    (hGuard : Routed C g S (.deliver i j m env)) :
    let sent := Function.update S i ((S i).unpublish m)
    Conserves C S₀ i₀ x g S
      (Function.update sent j ((sent j).handle (dataChannelHandler C (e.2.toJson C) env))) := by
  intro sent
  obtain ⟨hFound, hRead⟩ := hGuard
  obtain ⟨p', hp', hSame⟩ := Option.map_eq_some_iff.mp (hRead e he)
  obtain ⟨ss, hGoes, _⟩ := (hFlow i).published e (List.mem_of_getElem? he)
  have hAway : ¬ Near C S₀ i₀ g := by
    intro hNear
    rw [((hFlow i).near hNear).1] at he
    cases he
  have hSent : ∀ j, Flow C S₀ i₀ x g j (sent j) := flow_update hFlow ((hFlow i).unpublish m)
  have hFound' : foundUsers (sent j).node g.gid g.from_jid.domain env = some g.users := by
    rcases eq_or_ne j i with rfl | hne
    · simp only [sent, Function.update_self, foundUsers_unpublish, hFound]
    · simp only [sent, Function.update_of_ne hne, hFound]
  obtain ⟨packets, hCount, hQueued⟩ := queued_dataChannelHandler hPlace hGoes
    (toOption_eq_some_iff.mp hp') hSame (hSent j).fixed hFound'
  obtain ⟨crashed, hHandle⟩ := exists_handle (sent j) (dataChannelHandler C (e.2.toJson C) env)
  have hDone := (hSent j).queued (fun hNear => absurd hNear hAway) hQueued crashed
  rw [← hHandle] at hDone
  refine ⟨flow_update hSent hDone, ?_⟩
  intro h y
  -- The copy is taken out of node `i`, and what its expansion adds to node `j` is no more.
  have hErase : tally C S₀ i₀ x g h y i ((S i).unpublish m) + _ = _ := tally_unpublish he h y
  have hAdd : tally C S₀ i₀ x g h y j _ ≤ _ := tally_queued hQueued crashed h y
  rw [← hHandle] at hAdd
  have hTargets := hCount (leadsTo C S₀ i₀ g h y)
  have hSingle := (hConfined.spread hGoes.genuine).resolve_left hAway
  have hCopy := countP_targets_le_copy hGoes hSingle h y
  have hFirst : (∑ j, tally C S₀ i₀ x g h y j (sent j)) + _ = _ :=
    sum_move (tally C S₀ i₀ x g h y) S (Finset.mem_univ i) ((S i).unpublish m)
  have hSecond := sum_move (tally C S₀ i₀ x g h y) sent (Finset.mem_univ j)
    ((sent j).handle (dataChannelHandler C (e.2.toJson C) env))
  omega

theorem conserves_move (hPlace : Placement C S₀) (hSends : Sends S₀ i₀ x g)
    (hConfined : Confined C S₀ i₀ g) (hFlow : ∀ i, Flow C S₀ i₀ x g i (S i)) {consumers : Nat}
    {a : Move k} {T : Cluster k} (hMove : move C consumers S a = some T) (hGuard : Routed C g S a) :
    Conserves C S₀ i₀ x g S T := by
  cases moved_of_move hMove with
  | within i a t hStep =>
    cases stepped_of_step C hStep with
    | go y env hBusy =>
      exact Moves.conserves hFlow ((hFlow i).go hPlace hConfined.self hSends hBusy env)
    | take w it rest hRouter hWorker hFree =>
      exact Moves.conserves hFlow ((hFlow i).take hRouter hWorker hFree)
    | work w env hBusy =>
      refine Moves.conserves hFlow ((hFlow i).work hPlace hBusy fun it hHand => ?_)
      have hReaches : ((S i).hands w).reaches env = true := hGuard
      rwa [hHand] at hReaches
    | connect | register | clean | recv | close | dtake | dexec => exact hGuard.elim
  | deliver i j m env e he hChannel sent hSent =>
    cases hSent
    exact hConfined.deliver hPlace hFlow he hGuard

/-! ## The message is accepted -/

theorem flow_start (hPlace : Placement C S₀) (i : Fin k) : Flow C S₀ i₀ x g i (S₀ i) where
  fixed := .refl _
  others y _ := hPlace.pc i y
  sender := by
    rw [hPlace.pc i x]
    trivial
  router it hit := by
    rw [hPlace.router i] at hit
    cases hit
  hands w := by
    rw [hPlace.hands i w]
    trivial
  spare w _ := hPlace.hands i w
  published e he := by
    rw [hPlace.published i] at he
    cases he
  near _ := ⟨hPlace.published i, fun _ => ⟨hPlace.router i, hPlace.hands i⟩⟩

theorem tally_start (hPlace : Placement C S₀) (h : Fin k) (y : Bytes) (i : Fin k) :
    tally C S₀ i₀ x g h y i (S₀ i) = if i = h then relays (S₀ i).node y else 0 := by
  have hHands : ∀ w, ((S₀ i).hands w).packet = none := by
    intro w
    rw [hPlace.hands i w]
    rfl
  simp only [tally, load, hPlace.pc i x, hPlace.router i, hPlace.published i, hHands, Pc.packets,
    List.filterMap_nil, List.map_nil, List.countP_nil, Option.toList_none, Finset.sum_const_zero,
    Nat.zero_add]

theorem begin_group {input : Input} {packet : Packet} {n : Node} {sess : Session}
    (hs : n.sessions x = some sess) (hLogin : sess.status.status = .login)
    (hRequest : request C input = .group packet) (hFrom : packet.envelope.from_ = g.from_)
    (hGid : packet.envelope.gid = g.gid)
    (hFound : foundUsers n g.gid g.from_jid.domain input.env = some g.users) :
    Still n (begin C x input n).state ∧ ∀ pc n', begin C x input n = .done pc n' →
      pc = .idle ∨ ∃ packets, pc = .routing packets ∧ packets.map (·.envelope.to_) = g.targets ∧
        ∀ p ∈ packets, g.Copy p := by
  have hConn : sess.status.status ≠ .conn := by rw [hLogin]; decide
  have hAnswer : ∀ p, Keeps Still (answer x p) := fun p => still_sendMessage x rfl
  unfold begin
  rw [bind_done (Node.session_eq hs), if_neg hConn]
  split
  · refine ⟨((keeps_session x).bind fun s => ?_).bind (fun _ => Keeps.pure _) n, ?_⟩
    · split
      · exact still_sendMessage x rfl
      · exact Keeps.pure _
    · intro pc n' hDone
      obtain ⟨_, _, _, hPure⟩ := bind_eq_done_iff.mp hDone
      cases hPure
      exact .inl rfl
  simp only [hRequest]
  constructor
  · refine ((still_generateGroupPackets packet input.env).bind fun r => ?_) n
    cases r with
    | ok packets => exact (hAnswer _).bind fun _ => Keeps.pure _
    | error e => exact (hAnswer _).bind fun _ => Keeps.pure _
  · intro pc n' hDone
    obtain ⟨r, u, hGenerate, hRest⟩ := bind_eq_done_iff.mp hDone
    cases r with
    | ok packets =>
      obtain ⟨_, _, _, hPure⟩ := bind_eq_done_iff.mp hRest
      cases hPure
      exact .inr ⟨packets, rfl, GroupMessage.generated hFrom hGid hFound hGenerate⟩
    | error e =>
      obtain ⟨_, _, _, hPure⟩ := bind_eq_done_iff.mp hRest
      cases hPure
      exact .inl rfl

theorem session_group {input : Input} {packet : Packet} (hSends : Sends S₀ i₀ x g)
    (hRequest : request C input = .group packet) (hFrom : packet.envelope.from_ = g.from_)
    (hGid : packet.envelope.gid = g.gid)
    (hFound : foundUsers (S₀ i₀).node g.gid g.from_jid.domain input.env = some g.users) :
    ∃ pc n, (S₀ i₀).session x (begin C x input) =
        { S₀ i₀ with node := n, pc := Function.update (S₀ i₀).pc x pc } ∧
      Still (S₀ i₀).node n ∧ Sending C S₀ i₀ g pc ∧
      ∀ q : Bytes → Bool, pc.packets.countP (fun p => q p.envelope.to_) ≤ g.targets.countP q := by
  obtain ⟨sess, hs, hLogin, _⟩ := hSends
  obtain ⟨hStill, hForm⟩ := begin_group hs hLogin hRequest hFrom hGid hFound
  unfold System.session
  cases hBegin : begin C x input (S₀ i₀).node with
  | panic n =>
    rw [hBegin] at hStill
    exact ⟨.idle, n, rfl, hStill, trivial, fun q => Nat.zero_le _⟩
  | done pc n =>
    rw [hBegin] at hStill
    refine ⟨pc, n, rfl, hStill, ?_⟩
    obtain rfl | ⟨packets, rfl, hTo, hCopies⟩ := hForm pc n hBegin
    · exact ⟨trivial, fun q => Nat.zero_le _⟩
    · refine ⟨hCopies, fun q => ?_⟩
      rw [← hTo, List.countP_map]
      rfl

theorem flow_accepted (hPlace : Placement C S₀) (hSends : Sends S₀ i₀ x g) {input : Input}
    {packet : Packet} (hRequest : request C input = .group packet)
    (hFrom : packet.envelope.from_ = g.from_) (hGid : packet.envelope.gid = g.gid)
    (hFound : foundUsers (S₀ i₀).node g.gid g.from_jid.domain input.env = some g.users)
    {consumers : Nat} {S₁ : Cluster k}
    (hMove : move C consumers S₀ (.within i₀ (.recv x input)) = some S₁) :
    (∀ i, Flow C S₀ i₀ x g i (S₁ i)) ∧ ∀ h y, ∑ i, tally C S₀ i₀ x g h y i (S₁ i) ≤
      relays (S₀ h).node y + g.targets.countP (leadsTo C S₀ i₀ g h y) := by
  obtain ⟨t, hStep, rfl⟩ := Option.map_eq_some_iff.mp hMove
  obtain ⟨pc, n, hSession, hStill, hSending, hCount⟩ := session_group hSends hRequest hFrom hGid hFound
  cases stepped_of_step C hStep with
  | recv =>
    have hQueued : Queued C S₀ i₀ g [] (S₀ i₀).node n := .of_still hStill
    have hFlow := (flow_start (x := x) hPlace i₀).setPc hQueued hSending
    rw [← hSession] at hFlow
    refine ⟨flow_update (flow_start hPlace) hFlow, ?_⟩
    intro h y
    have hSum := sum_move (tally C S₀ i₀ x g h y) S₀ (Finset.mem_univ i₀)
      ((S₀ i₀).session x (begin C x input))
    have hOld : ∑ i, tally C S₀ i₀ x g h y i (S₀ i) = relays (S₀ h).node y := by
      simp only [tally_start hPlace, Finset.sum_ite_eq', Finset.mem_univ, if_true]
    have hNew : tally C S₀ i₀ x g h y i₀ ((S₀ i₀).session x (begin C x input)) =
        pc.packets.countP (fun p => leadsTo C S₀ i₀ g h y p.envelope.to_) +
          tally C S₀ i₀ x g h y i₀ (S₀ i₀) := by
      rw [hSession]
      simp only [tally, load, Function.update_self, hStill.router, hStill.published, hStill.relays,
        hPlace.pc i₀ x, Pc.packets, List.countP_nil]
      omega
    have hPackets := hCount (leadsTo C S₀ i₀ g h y)
    omega

end Cluster

/-- A group message is written at most once to every session, and not to the sender's. -/
theorem group_written_once (C : Codec) (consumers : Nat) {k : Nat} {S₀ S₁ S : Cluster k} {i₀ : Fin k}
    {x : Bytes} {g : GroupMessage} {input : Input} {packet : Packet} {moves : List (Move k)}
    (hPlace : Placement C S₀) (hSends : Sends S₀ i₀ x g) (hRequest : request C input = .group packet)
    (hFrom : packet.envelope.from_ = g.from_) (hGid : packet.envelope.gid = g.gid)
    (hFound : foundUsers (S₀ i₀).node g.gid g.from_jid.domain input.env = some g.users)
    (hConfined : Confined C S₀ i₀ g)
    (hAccepted : move C consumers S₀ (.within i₀ (.recv x input)) = some S₁)
    (hRun : run (move C consumers) S₁ moves = some S)
    (hRouted : Guarded (move C consumers) (Routed C g) S₁ moves) :
    (∀ h y, relays (S h).node y ≤ relays (S₀ h).node y + 1) ∧
      relays (S i₀).node x ≤ relays (S₀ i₀).node x := by
  have hStart := flow_accepted hPlace hSends hRequest hFrom hGid hFound hAccepted
  have hAll : (∀ i, Flow C S₀ i₀ x g i (S i)) ∧ ∀ h y, ∑ i, tally C S₀ i₀ x g h y i (S i) ≤
      relays (S₀ h).node y + g.targets.countP (leadsTo C S₀ i₀ g h y) := by
    refine guarded_induction (P := fun _ T => (∀ i, Flow C S₀ i₀ x g i (T i)) ∧
      ∀ h y, ∑ i, tally C S₀ i₀ x g h y i (T i) ≤
        relays (S₀ h).node y + g.targets.countP (leadsTo C S₀ i₀ g h y)) hStart ?_ hRun hRouted
    rintro _ T a U _ _ ⟨hFlow, hTotal⟩ hGuard hMove
    obtain ⟨hFlow', hLess⟩ := conserves_move hPlace hSends hConfined hFlow hMove hGuard
    exact ⟨hFlow', fun h y => (hLess h y).trans (hTotal h y)⟩
  have hWritten : ∀ h y, relays (S h).node y ≤
      relays (S₀ h).node y + g.targets.countP (leadsTo C S₀ i₀ g h y) := by
    intro h y
    have hHere : relays (S h).node y ≤ tally C S₀ i₀ x g h y h (S h) := by
      rw [tally, if_pos rfl]
      omega
    have hMember := Finset.single_le_sum (fun i _ => Nat.zero_le (tally C S₀ i₀ x g h y i (S i)))
      (Finset.mem_univ h)
    exact (hHere.trans hMember).trans (hAll.2 h y)
  constructor
  · intro h y
    have hOne := countP_targets_le_one hPlace hConfined h y
    have hLess := hWritten h y
    omega
  · have hNone := countP_targets_sender hPlace hSends hConfined
    have hLess := hWritten i₀ x
    omega

/-! ## Members on two nodes -/

instance (C : Codec) {k : Nat} (g : GroupMessage) (S : Cluster k) :
    (a : Move k) → Decidable (Routed C g S a)
  | .within i (.work w env) => inferInstanceAs (Decidable (((S i).hands w).reaches env = true))
  | .within _ (.take _) | .within _ (.go _ _) => isTrue trivial
  | .within _ (.connect _) | .within _ (.register _) | .within _ .clean | .within _ (.recv _ _)
  | .within _ (.close _ _) | .within _ (.dtake _) | .within _ (.dexec _ _) => isFalse id
  | .deliver i j m env => inferInstanceAs (Decidable (
      foundUsers (S j).node g.gid g.from_jid.domain env = some g.users ∧
      ∀ e ∈ (S i).node.published[m]?,
        (newPacket C (e.2.toJson C)).toOption.map (·.envelope) = some e.2.envelope))

/-- A node on which the sessions of the directory that name its channel are logged in. -/
def seated (dir : List SessionStatus) (channel : Bytes) : System where
  node :=
    { nodeid := channel
      channel := channel
      sessions := fun y => (dir.find? fun ss => ss.channel = channel ∧ ss.sid = y).map fun ss =>
        { status := ss, pkgBuff := ∅, written := [], connClosed := false }
      sessionMap := fun y => (dir.find? fun ss => ss.channel = channel ∧ ss.sid = y).isSome
      cleanSession := []
      db := Database.start fun key => (dir.find? fun ss => sessionPerfix ++ ss.jid = key).map
        fun ss => .string (PlainJson.codec.marshalStatus ss) none
      router := []
      oflCache := fun _ => none
      published := [] }
  pc _ := .idle
  hands _ := .free
  dispatching _ := false
  crashed := false

theorem placement_seated {k : Nat} {dir : List SessionStatus} {channels : Fin k → Bytes}
    (hNonempty : ∀ i, channels i ≠ []) (hInj : ∀ i j, channels i = channels j → i = j)
    (hSids : (dir.map (·.sid)).Nodup)
    (hDir : ∀ ss ∈ dir, PlainJson.codec.unmarshalStatus (PlainJson.codec.marshalStatus ss) = ss ∧
      (∃ h, ss.channel = channels h) ∧ ss.status = .login ∧
      (newJID ss.jid).toOption.map JID.stringWithoutResource = some ss.jid) :
    Placement PlainJson.codec fun i => seated dir (channels i) where
  channel_ne := hNonempty
  channel_inj := hInj
  shared _ _ _ := rfl
  right i a ss hEntry := by
    obtain ⟨ssb, hGet, rfl⟩ := Option.map_eq_some_iff.mp hEntry
    have hStore : (dir.find? fun ss => sessionPerfix ++ ss.jid = sessionPerfix ++ a).map
        PlainJson.codec.marshalStatus = some ssb := by
      rw [← hGet]
      unfold seated Node.get Redis.get Database.start
      simp only
      cases dir.find? fun ss => sessionPerfix ++ ss.jid = sessionPerfix ++ a with
      | none => rfl
      | some ss => rfl
    obtain ⟨ss, hFind, rfl⟩ := Option.map_eq_some_iff.mp hStore
    obtain ⟨hRead, ⟨h, hChannel⟩, hLogin, hJid⟩ := hDir ss (List.mem_of_find?_eq_some hFind)
    obtain ⟨j, hj, hBare⟩ := Option.map_eq_some_iff.mp hJid
    have hAddress : ss.jid = a := by simpa using List.find?_some hFind
    have hSeat : (dir.find? fun s => s.channel = channels h ∧ s.sid = ss.sid) = some ss := by
      cases hFound : dir.find? fun s => s.channel = channels h ∧ s.sid = ss.sid with
      | none =>
        have hNot := List.find?_eq_none.mp hFound ss (List.mem_of_find?_eq_some hFind)
        simp [hChannel] at hNot
      | some s =>
        have hSame : s.channel = channels h ∧ s.sid = ss.sid := by simpa using List.find?_some hFound
        exact congrArg some (List.inj_on_of_nodup_map hSids (List.mem_of_find?_eq_some hFound)
          (List.mem_of_find?_eq_some hFind) hSame.2)
    rw [hRead]
    refine ⟨h, { status := ss, pkgBuff := ∅, written := [], connClosed := false }, j, hChannel, ?_, ?_,
      hLogin, toOption_eq_some_iff.mp hj, hBare.trans hAddress⟩
    · simp only [seated, hSeat, Option.isSome_some]
    · simp only [seated, hSeat, Option.map_some]
  router _ := rfl
  published _ := rfl
  pc _ _ := rfl
  hands _ _ := rfl

/-- Alice on the first node, the others on the second. -/
def twoNodes (others : List SessionStatus) : Cluster 2 := fun i =>
  seated (seat "n1:4281" "a1" "alice@x" :: others) (if i = 0 then text "n1:4281" else text "n2:4281")

theorem placement_twoNodes {others : List SessionStatus}
    (h : ∀ ss ∈ seat "n1:4281" "a1" "alice@x" :: others,
      PlainJson.codec.unmarshalStatus (PlainJson.codec.marshalStatus ss) = ss ∧
      (∃ h : Fin 2, ss.channel = if h = 0 then text "n1:4281" else text "n2:4281") ∧
      ss.status = .login ∧ (newJID ss.jid).toOption.map JID.stringWithoutResource = some ss.jid)
    (hSids : ((seat "n1:4281" "a1" "alice@x" :: others).map (·.sid)).Nodup) :
    Placement PlainJson.codec (twoNodes others) :=
  placement_seated (by decide) (by decide) hSids h

/-- An outside that knows one group and reaches every node. -/
def groupEnv (members : List String) : Env where
  __ := Env.plain true
  groupUsers _ := .ok (members.map text)
  publish _ := true

def groupInput (members : List String) : Input where
  frame := PlainJson.writeFrame
    { id := text "m1", from_ := text "alice@x", gid := text "g1", type := msgTypeGroupChat }
  env := groupEnv members

theorem sender_parses : (newJID (text "alice@x")).toOption.isSome = true := by decide

def aliceGroup (members : String) : GroupMessage where
  sender := parsedJID (text "alice@x") sender_parses
  from_ := text "alice@x"
  from_jid := parsedJID (text "alice@x") sender_parses
  gid := text "g1"
  users := text members
  from_ok := rfl

def aliceRoutes (members : List String) (copies : Nat) : List (Move 2) :=
  List.replicate (2 * copies + 1) (.within 0 (.go (text "a1") (groupEnv members))) ++
    (List.replicate copies [.within 0 (.take 0), .within 0 (.work 0 (groupEnv members))]).flatten

def handsOver (members : List String) : List (Move 2) :=
  .within 1 (.take 0) :: List.replicate 3 (.within 1 (.work 0 (groupEnv members)))

def toBob : List (Move 2) :=
  aliceRoutes ["alice", "bob"] 1 ++ [.deliver 0 1 0 (groupEnv ["alice", "bob"])] ++
    handsOver ["alice", "bob"]

def toBobAndCarol : List (Move 2) :=
  let members := ["alice", "bob", "carol"]
  aliceRoutes members 2 ++ [.deliver 0 1 0 (groupEnv members), .deliver 0 1 0 (groupEnv members)] ++
    (List.replicate 3 (handsOver members)).flatten

theorem sends_alice (others : List SessionStatus) (members : String) :
    Sends (twoNodes others) 0 (text "a1") (aliceGroup members) := by
  refine ⟨{ status := seat "n1:4281" "a1" "alice@x", pkgBuff := ∅, written := [], connClosed := false },
    ?_, rfl, rfl⟩
  simp [twoNodes, seated, seat]

theorem group_written_once_bob :
    ∃ S₁ S, move PlainJson.codec 20 (twoNodes [seat "n2:4281" "b2" "bob@x"])
        (.within 0 (.recv (text "a1") (groupInput ["alice", "bob"]))) = some S₁ ∧
      run (move PlainJson.codec 20) S₁ toBob = some S ∧ relays (S 1).node (text "b2") = 1 ∧
      (∀ h y, relays (S h).node y ≤
        relays (twoNodes [seat "n2:4281" "b2" "bob@x"] h).node y + 1) ∧
      relays (S 0).node (text "a1") ≤
        relays (twoNodes [seat "n2:4281" "b2" "bob@x"] 0).node (text "a1") := by
  have hRun : ∃ S₁, move PlainJson.codec 20 (twoNodes [seat "n2:4281" "b2" "bob@x"])
      (.within 0 (.recv (text "a1") (groupInput ["alice", "bob"]))) = some S₁ ∧
      (∃ S, run (move PlainJson.codec 20) S₁ toBob = some S ∧ relays (S 1).node (text "b2") = 1) ∧
      Guarded (move PlainJson.codec 20) (Routed PlainJson.codec (aliceGroup "alice,bob")) S₁ toBob := by
    refine ⟨_, rfl, exists_run (by decide +kernel), by decide +kernel⟩
  obtain ⟨S₁, hAccepted, ⟨S, hRun, hOnce⟩, hRouted⟩ := hRun
  have hConfined : Confined PlainJson.codec (twoNodes [seat "n2:4281" "b2" "bob@x"]) 0
      (aliceGroup "alice,bob") :=
    ⟨by decide +kernel, fun _ => by decide +kernel, fun _ => .inr (by decide +kernel)⟩
  have hRequest : request PlainJson.codec (groupInput ["alice", "bob"]) = .group _ := rfl
  obtain ⟨hWritten, hSender⟩ := group_written_once PlainJson.codec 20
    (placement_twoNodes (by decide +kernel) (by decide +kernel)) (sends_alice _ "alice,bob")
    hRequest rfl rfl rfl hConfined hAccepted hRun hRouted
  exact ⟨S₁, S, hAccepted, hRun, hOnce, hWritten, hSender⟩

/-- Each copy that reaches the second node is expanded to a copy for bob and one for carol. -/
theorem group_written_twice :
    let S₀ := twoNodes [seat "n2:4281" "b2" "bob@x", seat "n2:4281" "c3" "carol@x"]
    let g := aliceGroup "alice,bob,carol"
    let input := groupInput ["alice", "bob", "carol"]
    Placement PlainJson.codec S₀ ∧ Sends S₀ 0 (text "a1") g ∧ (g.users.splitOn comma).Nodup ∧
    (∃ packet, request PlainJson.codec input = .group packet ∧ packet.envelope.from_ = g.from_ ∧
      packet.envelope.gid = g.gid) ∧
    foundUsers (S₀ 0).node g.gid g.from_jid.domain input.env = some g.users ∧
    ∃ S₁, move PlainJson.codec 20 S₀ (.within 0 (.recv (text "a1") input)) = some S₁ ∧
      Guarded (move PlainJson.codec 20) (Routed PlainJson.codec g) S₁ toBobAndCarol ∧
      ∃ S, run (move PlainJson.codec 20) S₁ toBobAndCarol = some S ∧
        relays (S₀ 1).node (text "b2") = 0 ∧ relays (S 1).node (text "b2") = 2 := by
  intro S₀ g input
  refine ⟨placement_twoNodes (by decide +kernel) (by decide +kernel), sends_alice _ _,
    by decide +kernel, ⟨_, rfl, rfl, rfl⟩, rfl, _, rfl, by decide +kernel, ?_⟩
  exact exists_run (by decide +kernel)

end Sara.Concurrent
