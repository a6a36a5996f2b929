import Sara.Cluster.Group
import Sara.Cluster.Users
import Sara.Core.Addresses
import Sara.Core.Unauthenticated

/-! # What crashes a node

The goroutines that no connection owns, the reader of the data channel and the workers
of the router, do not recover from a panic: what they can be handed decides whether the
process survives.
-/

namespace Sara

open Lib Lib.Prog Lib.Transition Saradb

set_option autoImplicit false

variable {C : Codec} {n : Node} {env : Env} {p : Packet}

/-! ## The data channel -/

theorem returns_node_routePacket (p : Packet) : Returns (Node.routePacket C p) := by
  unfold Node.routePacket
  cases hr : newJID p.envelope.to_ with
  | error e => exact Returns.pure _
  | ok r =>
    refine (Returns.read _).bind fun found => ?_
    cases found with
    | some ssb => exact Returns.modify _
    | none => exact returns_storePacket hr

theorem returns_routeCopies {f : JID} (hf : newJID p.envelope.from_ = .ok f) : Returns (do
    match ← generateGroupPackets p env with
    | .ok packets => packets.forM (Node.routePacket C)
    | .error _ => return ()) := by
  refine (returns_generateGroupPackets hf).bind fun r => ?_
  cases r with
  | ok packets => exact Returns.forM fun q _ => returns_node_routePacket q
  | error e => exact Returns.pure _

theorem groupMembers_none {n' : Node} {gid domain : Bytes}
    (h : groupMembers gid domain env n = .done none n') : n' = n := by
  obtain ⟨_, members, hDone⟩ | ⟨_, us, hDone⟩ := Unauthenticated.groupMembers_cases n gid domain env
  · cases hDone.symm.trans h
    rfl
  · cases hDone.symm.trans h

theorem generateGroupPackets_none {f : JID} (hf : newJID p.envelope.from_ = .ok f)
    (hNone : foundUsers n p.envelope.gid f.domain env = none) :
    generateGroupPackets p env n = .done (.error (text "group_notfound")) n := by
  obtain ⟨found, n', hDone⟩ := returns_groupMembers p.envelope.gid f.domain n
  have hFound : found = none := by
    rw [foundUsers, hDone] at hNone
    exact hNone
  cases hFound
  cases groupMembers_none hDone
  unfold generateGroupPackets
  rw [hf, bind_done (deref_ok f n), bind_done hDone]
  rfl

/-- The message is no packet, has no address to go to, or is for an unknown group. -/
def Undeliverable (C : Codec) (n : Node) (message : Bytes) (env : Env) : Prop :=
  ∀ p, newPacket C message = .ok p →
    if p.envelope.type = msgTypeGroupChat then
      ∀ f, newJID p.envelope.from_ = .ok f → foundUsers n p.envelope.gid f.domain env = none
    else ∀ r, newJID p.envelope.to_ ≠ .ok r

/-- The reader survives a message, and drops it if it cannot be delivered, exactly if a group
message has a sender with an address. -/
theorem handler_survives_iff (C : Codec) (n : Node) (message : Bytes) (env : Env) :
    (∃ n', dataChannelHandler C message env n = .done () n' ∧
      (Undeliverable C n message env → n' = n)) ↔
    ∀ p, newPacket C message = .ok p → p.envelope.type = msgTypeGroupChat →
      ∃ f, newJID p.envelope.from_ = .ok f := by
  unfold dataChannelHandler Undeliverable
  cases hPacket : newPacket C message with
  | error e =>
    constructor
    · intro _ p hp
      cases hp
    · exact fun _ => ⟨n, rfl, fun _ => rfl⟩
  | ok p =>
    simp only [Except.ok.injEq, forall_eq']
    by_cases hType : p.envelope.type = msgTypeGroupChat
    · simp only [if_pos hType]
      constructor
      · rintro ⟨n', hDone, _⟩ _
        obtain ⟨_, _, hGenerate, _⟩ := bind_eq_done_iff.mp hDone
        obtain ⟨f, _, hDeref, _⟩ := bind_eq_done_iff.mp hGenerate
        exact ⟨f, (deref_eq_done_iff.mp hDeref).1⟩
      · intro hFrom
        obtain ⟨f, hf⟩ := hFrom hType
        obtain ⟨_, n', hDone⟩ := returns_routeCopies (C := C) hf n
        refine ⟨n', hDone, fun hNone => ?_⟩
        rw [bind_done (generateGroupPackets_none hf (hNone f hf))] at hDone
        cases hDone
        rfl
    · simp only [if_neg hType]
      refine ⟨fun _ hGroup => absurd hGroup hType, fun _ => ?_⟩
      obtain ⟨_, n', hDone⟩ := returns_node_routePacket (C := C) p n
      refine ⟨n', hDone, fun hNone => ?_⟩
      unfold Node.routePacket at hDone
      cases hr : newJID p.envelope.to_ with
      | ok r => exact absurd hr (hNone r)
      | error e =>
        rw [hr] at hDone
        cases hDone
        rfl

def nameless : Bytes :=
  PlainJson.writeFrame { id := text "1", from_ := text "alice", gid := text "g1", type := msgTypeGroupChat }

theorem nameless_crashes :
    (newPacket PlainJson.codec nameless).toOption.isSome = true ∧
      dataChannelHandler PlainJson.codec nameless (Env.plain true) Concurrent.node01.node =
        .panic Concurrent.node01.node ∧
      (Concurrent.node01.handle
        (dataChannelHandler PlainJson.codec nameless (Env.plain true))).crashed = true :=
  ⟨rfl, rfl, rfl⟩

/-! ## The workers of the router -/

namespace Concurrent

/-- The item a caller makes: one with a packet has no signal, one without kills. -/
def called (channel sid : Bytes) (packet : Option Packet) : RouterItem where
  channel := channel
  sid := sid
  packet := packet
  signal := if packet.isSome then 0 else killSignal

/-- One iteration of a worker comes to its end. Between its parts the others run, so that
each part finds a node of its own. -/
def Survives (C : Codec) (env : Env) (it : RouterItem) (look decide act : Node) : Prop :=
  ∃ hand n, work C env (.item it) look = .done hand n ∧ (hand = .free ∨
    ∃ hand' n', work C env hand decide = .done hand' n' ∧
      ∃ hand'' n'', work C env hand' act = .done hand'' n'')

def KillReaches (C : Codec) (env : Env) (it : RouterItem) (n : Node) : Prop :=
  it.packet = none → it.channel ≠ [] → it.channel ≠ n.channel →
    ∃ p, (work C env (.item it) n).state.published = n.published ++ [(it.channel, p)]

/-- Kills are for sessions of this node. A packet that cannot be sent has an address, and so
has one for a session that is logged in here, as has its sender unless it is for that user. -/
def Handled (env : Env) (look decide : Node) (channel sid : Bytes) : Option Packet → Prop
  | none => channel = [] ∨ channel = look.channel
  | some p =>
    if channel = [] ∨ channel = look.channel then
      look.sessionMap sid = true → ∀ s j, decide.sessions sid = some s → s.status.status = .login →
        newJID s.status.jid = .ok j → ∃ r, newJID p.envelope.to_ = .ok r ∧
          (j.stringWithoutResource = r.stringWithoutResource ∨ ∃ f, newJID p.envelope.from_ = .ok f)
    else env.publish channel = true ∨ ∃ r, newJID p.envelope.to_ = .ok r

variable {H : List (Bytes × JID)} {look decide : Node} {channel sid : Bytes}

theorem work_item_unknown {it : RouterItem} (hHere : it.channel = [] ∨ it.channel = n.channel)
    (hMap : n.sessionMap it.sid = false) : work C env (.item it) n = .done .free n := by
  simp only [work, bind_done (read_apply _ n), id, hHere, if_true, hMap, Bool.false_eq_true, if_false,
    pure_apply]

theorem work_item_store {it : RouterItem} (hAway : ¬ (it.channel = [] ∨ it.channel = n.channel))
    (hPacket : it.packet = some p) (hPublish : env.publish it.channel = false) :
    work C env (.item it) n = (do storePacket C p; return .free : Prog Node Hand) n := by
  simp only [work, bind_done (read_apply _ n), id, hAway, if_false, hPacket, Option.elim_some,
    bind_done (deref_ok p n), hPublish, Bool.false_eq_true]

theorem work_item_nil {it : RouterItem} (hAway : ¬ (it.channel = [] ∨ it.channel = n.channel))
    (hPacket : it.packet = none) : work C env (.item it) n = .panic n := by
  simp only [work, bind_done (read_apply _ n), id, hAway, if_false, hPacket, Option.elim_none]
  rfl

theorem work_found_kill {s : System} (h : Known H s) {it : RouterItem} {sess : Session}
    (hSignal : it.signal = killSignal) (hs : s.node.sessions it.sid = some sess) :
    ∃ n', work C env (.found it) s.node = .done .free n' := by
  have hSent : (sendMessage it.sid (.signal killSignal) s.node).state.sessions it.sid =
      some { sess with written := sess.written ++ [.signal killSignal] } := by
    simp [sendMessage, hs]
  obtain ⟨n', hClose⟩ : ∃ n', closeSession C it.sid env
      (sendMessage it.sid (.signal killSignal) s.node).state = .done () n' := by
    refine closeSession_returns hSent ?_ ?_
    · intro hLogin
      obtain ⟨j, hj⟩ := h.exists_user hs hLogin
      exact ⟨j, hj⟩
    · intro id p hp
      obtain ⟨_, r, _, hr, _⟩ := h.buffers it.sid sess hs id p hp
      exact ⟨r, hr⟩
  refine ⟨n', ?_⟩
  have hKill : kill C it.sid env s.node = .done () n' := hClose
  have hNonzero : killSignal ≠ 0 := by decide
  simp only [work, hSignal, ne_eq, hNonzero, not_false_eq_true, if_true, bind_done hKill, pure_apply]

theorem work_found_returns_iff {it : RouterItem} {act : Node} (hSignal : it.signal = 0)
    (hPacket : it.packet = some p) :
    (∃ hand n', work C env (.found it) n = .done hand n' ∧
      ∃ hand' n'', work C env hand act = .done hand' n'') ↔
      ∃ d n', routeDecide C it.sid p n = .done d n' := by
  constructor
  · rintro ⟨hand, n', hWork, _⟩
    simp only [work, hSignal, ne_eq, not_true_eq_false, if_false, hPacket, Option.elim_some,
      bind_done (deref_ok p n)] at hWork
    obtain ⟨d, u, hDecide, _⟩ := bind_eq_done_iff.mp hWork
    exact ⟨d, u, hDecide⟩
  · rintro ⟨d, n', hDecide⟩
    obtain ⟨rfl, _⟩ := routeDecide_done hDecide
    refine ⟨_, _, work_found_packet hSignal hPacket hDecide env, ?_⟩
    exact ((routeAct_returns hDecide).bind fun _ => Returns.pure Hand.free) act

theorem survives_here {act : Node} {s : System} (h : Known H s) {packet : Option Packet}
    (hHere : channel = [] ∨ channel = look.channel)
    (hMade : look.sessionMap sid = true → (s.node.sessions sid).isSome) :
    Survives C env (called channel sid packet) look s.node act ↔
      Handled env look s.node channel sid packet := by
  cases hMap : look.sessionMap sid with
  | false =>
    constructor
    · intro _
      cases packet with
      | none => exact hHere
      | some p => simp [Handled, hHere, hMap]
    · exact fun _ => ⟨.free, look, work_item_unknown hHere hMap, .inl rfl⟩
  | true =>
    have hFound : work C env (.item (called channel sid packet)) look =
        .done (.found (called channel sid packet)) look := work_item_here hHere hMap env
    obtain ⟨sess, hs⟩ := Option.isSome_iff_exists.mp (hMade hMap)
    cases packet with
    | none =>
      refine ⟨fun _ => hHere, fun _ => ?_⟩
      have hKill : ∃ n', work C env (.found (called channel sid none)) s.node = .done .free n' :=
        work_found_kill h rfl hs
      obtain ⟨n', hKill⟩ := hKill
      exact ⟨_, _, hFound, .inr ⟨_, _, hKill, _, _, rfl⟩⟩
    | some p =>
      have hLook : Survives C env (called channel sid (some p)) look s.node act ↔
          ∃ d n', routeDecide C sid p s.node = .done d n' := by
        constructor
        · rintro ⟨hand, n, hWork, hRest⟩
          cases hFound.symm.trans hWork
          exact (work_found_returns_iff rfl rfl).mp (hRest.resolve_left fun hEq => (by cases hEq))
        · exact fun hDecide => ⟨_, _, hFound, .inr ((work_found_returns_iff rfl rfl).mpr hDecide)⟩
      simp only [hLook, Handled, if_pos hHere, hMap, true_imp_iff]
      by_cases hLogin : sess.status.status = .login
      · obtain ⟨j, hj⟩ := h.exists_user hs hLogin
        rw [routeDecide_returns_iff hs hLogin hj]
        constructor
        · intro hAddressed s' j' hs' _ hj'
          cases hs.symm.trans hs'
          cases hj.symm.trans hj'
          exact hAddressed
        · exact fun hAll => hAll sess j hs hLogin hj
      · constructor
        · intro _ s' j' hs' hLogin'
          cases hs.symm.trans hs'
          exact absurd hLogin' hLogin
        · refine fun _ => ⟨.ignore, s.node, ?_⟩
          unfold routeDecide
          rw [bind_done (Node.session_eq hs), if_pos hLogin]
          rfl

theorem survives_away {act : Node} {packet : Option Packet}
    (hAway : ¬ (channel = [] ∨ channel = look.channel)) :
    Survives C env (called channel sid packet) look decide act ↔
      Handled env look decide channel sid packet := by
  cases packet with
  | none =>
    constructor
    · rintro ⟨hand, n, hWork, _⟩
      have hPanic : work C env (.item (called channel sid none)) look = .panic look :=
        work_item_nil hAway rfl
      cases hPanic.symm.trans hWork
    · exact fun hHere => absurd hHere hAway
  | some p =>
    simp only [Handled, if_neg hAway]
    cases hPublish : env.publish channel with
    | true =>
      refine ⟨fun _ => .inl rfl, fun _ => ?_⟩
      obtain ⟨hNonempty, hOther⟩ := not_or.mp hAway
      have hSent : work C env (.item (called channel sid (some p))) look =
          .done .free { look with published := look.published ++ [(channel, p)] } :=
        work_item_away hNonempty hOther rfl hPublish
      exact ⟨_, _, hSent, .inl rfl⟩
    | false =>
      have hStore : work C env (.item (called channel sid (some p))) look =
          (do storePacket C p; return .free : Prog Node Hand) look := work_item_store hAway rfl hPublish
      simp only [Bool.false_eq_true, false_or]
      constructor
      · rintro ⟨hand, n, hWork, _⟩
        rw [hStore] at hWork
        obtain ⟨_, _, hPacket, _⟩ := bind_eq_done_iff.mp hWork
        obtain ⟨r, _, hDeref, _⟩ := bind_eq_done_iff.mp hPacket
        exact ⟨r, (deref_eq_done_iff.mp hDeref).1⟩
      · rintro ⟨r, hr⟩
        obtain ⟨_, n', hDone⟩ := returns_storePacket (C := C) hr look
        exact ⟨.free, n', hStore.trans (bind_done hDone _), .inl rfl⟩

theorem isSome_move {consumers k : Nat} {S T : Cluster k} {m : Move k}
    (hMove : move C consumers S m = some T) {i : Fin k} {x : Bytes}
    (h : ((S i).node.sessions x).isSome) : ((T i).node.sessions x).isSome := by
  cases moved_of_move hMove with
  | within j a t hStep =>
    rcases eq_or_ne i j with rfl | hne
    · rw [Function.update_self]
      by_contra hNone
      rw [none_of_step hStep (Option.not_isSome_iff_eq_none.mp hNone)] at h
      cases h
    · rwa [Function.update_of_ne hne]
  | deliver j i' m env e hMessage hChannel sent hSent =>
    have hTaken : ((sent i).node.sessions x).isSome := by
      rw [hSent]
      rcases eq_or_ne i j with rfl | hne
      · rwa [Function.update_self]
      · rwa [Function.update_of_ne hne]
    rcases eq_or_ne i i' with rfl | hne
    · rw [Function.update_self]
      obtain ⟨crashed, hHandle⟩ := exists_handle (sent i) (dataChannelHandler C (e.2.toJson C) env)
      rw [hHandle]
      exact ((users_dataChannelHandler _ env (sent i).node).sessions x).trans hTaken
    · rwa [Function.update_of_ne hne]

theorem isSome_run {consumers k : Nat} {S T : Cluster k} {ms : List (Move k)}
    (hRun : run (move C consumers) S ms = some T) {i : Fin k} {x : Bytes}
    (h : ((S i).node.sessions x).isSome) : ((T i).node.sessions x).isSome :=
  run_induction (P := fun _ T => ((T i).node.sessions x).isSome) h
    (fun _ _ _ _ _ hOld hMove => isSome_move hMove hOld) hRun

/-- One iteration of a worker comes to its end, and a kill reaches the session's node, exactly
if the item can be handled here. -/
theorem worker_survives_iff (C : Codec) (consumers : Nat) {k : Nat} (nodeid channel : Fin k → Bytes)
    (st : Fin k → Store) {ms ms' : List (Move k)} {S S' : Cluster k}
    (hLook : run (move C consumers) (fun i => start (nodeid i) (channel i) (st i)) ms = some S)
    (hDecide : run (move C consumers) S ms' = some S') (i : Fin k) (act : Node) (env : Env)
    (ch sid : Bytes) (packet : Option Packet) :
    Survives C env (called ch sid packet) (S i).node (S' i).node act ∧
      KillReaches C env (called ch sid packet) (S i).node ↔
    Handled env (S i).node (S' i).node ch sid packet := by
  have hRun : run (move C consumers) (fun i => start (nodeid i) (channel i) (st i)) (ms ++ ms') =
      some S' := by rw [run_append, hLook, Option.bind_some, hDecide]
  have hSurvives : Survives C env (called ch sid packet) (S i).node (S' i).node act ↔
      Handled env (S i).node (S' i).node ch sid packet := by
    by_cases hHere : ch = [] ∨ ch = (S i).node.channel
    · refine survives_here (known_run hRun i) hHere fun hMap => ?_
      exact isSome_run hDecide ((known_run hLook i).mapped sid (.inl hMap))
    · exact survives_away hHere
  constructor
  · exact fun h => hSurvives.mp h.1
  · refine fun hHandled => ⟨hSurvives.mpr hHandled, ?_⟩
    intro hNone hNonempty hAway
    cases packet with
    | none => exact absurd hHandled (not_or.mpr ⟨hNonempty, hAway⟩)
    | some p => cases hNone

theorem worker_survives_here :
    ∃ S : Cluster 1, run (move PlainJson.codec 20) (fun _ => node01)
        (firstLogin.map (Move.within 0)) = some S ∧
      (S 0).node.sessionMap (text "a1") = true ∧
      Survives PlainJson.codec (Env.plain true) (called (text "node01:4281") (text "a1") none)
        (S 0).node (S 0).node (S 0).node ∧
      KillReaches PlainJson.codec (Env.plain true) (called (text "node01:4281") (text "a1") none)
        (S 0).node := by
  have hExists : ∃ S : Cluster 1, run (move PlainJson.codec 20) (fun _ => node01)
      (firstLogin.map (Move.within 0)) = some S ∧ (S 0).node.sessionMap (text "a1") = true ∧
        (S 0).node.channel = text "node01:4281" := exists_run (by decide +kernel)
  obtain ⟨S, hRun, hMap, hChannel⟩ := hExists
  refine ⟨S, hRun, hMap, (worker_survives_iff PlainJson.codec 20 (fun _ => text "node01")
    (fun _ => text "node01:4281") (fun _ _ => none) hRun (run_nil S) 0 (S 0).node (Env.plain true)
    (text "node01:4281") (text "a1") none).mpr ?_⟩
  exact .inr hChannel.symm

def movedNodes : Cluster 2 := fun i =>
  if i = 0 then start (text "n1") (text "n1:4281") fun _ => none
  else start (text "n2") (text "n2:4281") fun key =>
    if key = alice.toSessionid then
      some (.string (PlainJson.codec.marshalStatus
        { seat "n1:4281" "a1" "alice@x" with nodeid := text "n1", ct := 1473755000 }) none)
    else none

def movesOver : List (Move 2) :=
  (logsIn "a1" "1" "alice@x" 7).map (Move.within 0) ++ (logsIn "b2" "2" "alice@x" 1).map (Move.within 1)

/-- The worker dereferences the packet the kill does not have. -/
theorem remote_kill_crashes :
    (∃ S, run (move PlainJson.codec 20) movedNodes movesOver = some S ∧
      Redis.get (S 0).node.db.store alice.toSessionid =
        Redis.get (S 1).node.db.store alice.toSessionid ∧
      (S 1).node.router = [called (text "n1:4281") (text "a1") none]) ∧
    ∃ T, run (move PlainJson.codec 20) movedNodes
        (movesOver ++ [.within 1 (.take 0), .within 1 (.work 0 (Env.plain true))]) = some T ∧
      (T 1).crashed = true ∧ (T 1).node.published = [] ∧
      ((T 0).node.sessions (text "a1")).map (·.status.status) = some .login :=
  ⟨exists_run (by decide +kernel), exists_run (by decide +kernel)⟩

end Concurrent

end Sara
