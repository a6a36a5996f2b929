import Sara.Core.Frame
import Sara.Core.Groups

/-! # Addresses

Routing compares addresses, the directory and the offline store compare the keys printed
of them. For texts that are addresses this is all the same. Several functions use the
result of `newJID` without a look at its error. Which addresses of a packet they come to
decides whether the packet is handled to its end, or the handler panics and recovers.
-/

namespace Sara

open Lib Lib.Prog Saradb

set_option autoImplicit false

/-- Two addresses are the same user's for the router exactly if they are for the directory
and for the offline store, and an address is read back from what is printed of it. -/
theorem identity_agrees (s t : Bytes) (j k : JID) (n : Node) (_hs : newJID s = .ok j)
    (ht : newJID t = .ok k) :
    ((j.user = k.user ∧ j.domain = k.domain ↔ equalWithoutResource j t n = .done true n) ∧
      (j.user = k.user ∧ j.domain = k.domain ↔ j.toSessionid = k.toSessionid) ∧
      (j.user = k.user ∧ j.domain = k.domain ↔ j.toOfflineKey = k.toOfflineKey)) ∧
    newJID j.string = .ok j ∧ newJID j.stringWithoutResource = .ok j.withoutResource := by
  refine ⟨⟨?_, ?_, ?_⟩, j.newJID_string, j.newJID_bare⟩
  · rw [equalWithoutResource_ok ht, ← JID.bare_eq_iff]
    simp
  · rw [JID.toSessionid_inj, JID.bare_eq_iff]
  · rw [JID.toOfflineKey_inj, JID.bare_eq_iff]

theorem bobAtWork_parses : (newJID (text "bob@x/work")).toOption.isSome = true := by decide

theorem bobAtHome_parses : (newJID (text "bob@x/home")).toOption.isSome = true := by decide

theorem identity_agrees_bob :
    equalWithoutResource (parsedJID (text "bob@x/work") bobAtWork_parses) (text "bob@x/home") bareNode =
      .done true bareNode :=
  (identity_agrees (text "bob@x/work") (text "bob@x/home")
    (parsedJID (text "bob@x/work") bobAtWork_parses) (parsedJID (text "bob@x/home") bobAtHome_parses)
    bareNode rfl rfl).1.1.mp (by decide)

section Returns

variable {C : Codec} {n n' : Node} {x : Bytes} {p : Packet} {env : Env}

/-! ## Functions that return -/

theorem returns_storePacket {r : JID} (hr : newJID p.envelope.to_ = .ok r) :
    Returns (storePacket C p) := by
  unfold storePacket
  rw [hr]
  exact Returns.bind (fun n => ⟨r, n, rfl⟩) fun _ => Returns.modify _

theorem returns_groupMembers (gid domain : Bytes) : Returns (groupMembers gid domain env) := by
  refine (Returns.read _).bind fun found => ?_
  cases found with
  | some users => exact Returns.pure _
  | none =>
    simp only
    split
    · exact Returns.pure _
    · split
      · exact (Returns.modify _).bind fun _ => Returns.pure _
      · exact Returns.pure _

/-- A sender with an address is all that an expansion needs. -/
theorem returns_generateGroupPackets {f : JID} (hf : newJID p.envelope.from_ = .ok f) :
    Returns (generateGroupPackets p env) := by
  unfold generateGroupPackets
  rw [hf]
  refine Returns.bind (fun n => ⟨f, n, rfl⟩) fun from_jid => ?_
  refine (returns_groupMembers _ _).bind fun found => ?_
  cases found with
  | none => exact Returns.pure _
  | some users =>
    simp only
    split
    · rw [genGroupPackets_eq]
      exact Returns.bind (fun n => ⟨_, n, rfl⟩) fun _ => Returns.pure _
    · exact Returns.pure _

/-- What a close stores, in the order it visits the buffer. -/
theorem visit_addressed {buff : PkgBuff}
    (h : ∀ (id : Bytes) (p : Packet), buff[id]? = some p → ∃ r, newJID p.envelope.to_ = .ok r)
    (hp : p ∈ env.visit (buff.toList.map Prod.snd)) : ∃ r, newJID p.envelope.to_ = .ok r := by
  obtain ⟨⟨id, q⟩, hq, rfl⟩ := List.mem_map.mp ((env.visit_perm _).mem_iff.mp hp)
  exact h id q (Std.ExtTreeMap.mem_toList_iff_getElem?_eq_some.mp hq)

theorem closeSession_returns {s : Session} (hs : n.sessions x = some s)
    (hUser : s.status.status = .login → ∃ j, newJID s.status.jid = .ok j)
    (hBuffer : ∀ (id : Bytes) (p : Packet), s.pkgBuff[id]? = some p →
      ∃ r, newJID p.envelope.to_ = .ok r) : ∃ n', closeSession C x env n = .done () n' := by
  by_cases hClose : s.status.status = .close
  · exact ⟨n, closeSession_of_close C hs hClose env⟩
  have hStore : Returns (pkgBuffToStore C env s.pkgBuff) := by
    refine Returns.forM fun p hp => ?_
    obtain ⟨r, hr⟩ := visit_addressed hBuffer hp
    exact returns_storePacket hr
  obtain ⟨_, n', hDone⟩ := hStore (n.closed x s)
  exact ⟨n', (closeSession_of_open C hs hClose hUser env).trans hDone⟩

/-- What was decided can be done. -/
theorem routeAct_returns {d : Decision} (h : routeDecide C x p n = .done d n') :
    Returns (routeAct C x p d) := by
  cases d with
  | ignore => exact Returns.pure _
  | toMe => exact (Returns.modify _).bind fun _ => Returns.modify _
  | notify e => exact Returns.modify _
  | route ss => exact Returns.modify _
  | store =>
    obtain ⟨_, hIgnore | ⟨_, _, r, _, _, _, hr, _⟩⟩ := routeDecide_done h
    · cases hIgnore
    · exact returns_storePacket hr

end Returns

/-! ## A session that is logged in -/

section LoggedIn

variable {C : Codec} {n n' : Node} {x : Bytes} {p : Packet} {j : JID}

def LoggedIn (x : Bytes) (j : JID) (n : Node) : Prop :=
  ∃ s, n.sessions x = some s ∧ s.status.status = .login ∧ newJID s.status.jid = .ok j

/-- The status of the session is what it was. -/
def Stays (x : Bytes) (n n' : Node) : Prop :=
  (n'.sessions x).map (·.status) = (n.sessions x).map (·.status)

instance : Std.Refl (Stays x) where
  refl _ := rfl

instance : IsTrans Node (Stays x) where
  trans _ _ _ h h' := Eq.trans h' h

theorem LoggedIn.stays (h : LoggedIn x j n) (hStays : Stays x n n') : LoggedIn x j n' := by
  obtain ⟨s, hs, hLogin, hj⟩ := h
  unfold Stays at hStays
  rw [hs, Option.map_some] at hStays
  obtain ⟨s', hs', hSame⟩ := Option.map_eq_some_iff.mp hStays
  exact ⟨s', hs', hSame ▸ hLogin, hSame ▸ hj⟩

theorem Stays.updateSession {y : Bytes} {f : Session → Session} (hf : ∀ s, (f s).status = s.status) :
    Stays x n (n.updateSession y f) :=
  n.map_updateSession y hf x

theorem stays_sendMessage (y : Bytes) (data : Written) : Keeps (Stays x) (sendMessage y data) :=
  fun _ => .updateSession fun _ => rfl

theorem stays_send (ds : List Dispatch) : Keeps (Stays x) (modify fun n => n.send ds) :=
  fun _ => rfl

theorem stays_routeAct (y : Bytes) (p : Packet) (d : Decision) :
    Keeps (Stays x) (routeAct C y p d) := by
  refine routeAct_keeps (fun _ => .updateSession fun _ => rfl) (stays_sendMessage y _)
    (fun _ => stays_sendMessage y _) ?_ (storePacket_keeps stays_send p) d
  intro item _ n
  obtain ⟨router, hRoute⟩ := route_router n item
  simp only [Stays, modify_apply, Outcome.state_done, hRoute]

theorem stays_routePacket (y : Bytes) (p : Packet) : Keeps (Stays x) (routePacket C y p) :=
  (keeps_routeDecide y p).bind fun d => stays_routeAct y p d

/-- A look survives if both addresses it compares are addresses. -/
theorem routeDecide_returns_iff {s : Session} (hs : n.sessions x = some s)
    (hLogin : s.status.status = .login) (hj : newJID s.status.jid = .ok j) :
    (∃ d n', routeDecide C x p n = .done d n') ↔ ∃ r, newJID p.envelope.to_ = .ok r ∧
      (j.stringWithoutResource = r.stringWithoutResource ∨ ∃ f, newJID p.envelope.from_ = .ok f) := by
  constructor
  · rintro ⟨d, n', h⟩
    unfold routeDecide at h
    rw [bind_done (Node.session_eq hs), if_neg (not_not.mpr hLogin), hj, bind_done (deref_ok j n)] at h
    obtain ⟨_, _, hToMe, hRest⟩ := bind_eq_done_iff.mp h
    obtain ⟨rfl, r, hr, rfl⟩ := equalWithoutResource_done hToMe
    refine ⟨r, hr, ?_⟩
    by_cases hSame : j.stringWithoutResource = r.stringWithoutResource
    · exact .inl hSame
    · rw [decide_eq_false hSame, if_neg Bool.false_ne_true] at hRest
      obtain ⟨_, _, hFromMe, _⟩ := bind_eq_done_iff.mp hRest
      obtain ⟨_, f, hf, _⟩ := equalWithoutResource_done hFromMe
      exact .inr ⟨f, hf⟩
  · rintro ⟨r, hr, hEither⟩
    by_cases hSame : j.stringWithoutResource = r.stringWithoutResource
    · exact ⟨.toMe, n, routeDecide_toMe hs hLogin hj hr hSame⟩
    · obtain ⟨f, hf⟩ := hEither.resolve_left hSame
      exact ⟨_, n, routeDecide_other hs hLogin hj hr hf hSame⟩

theorem routePacket_returns_iff (h : LoggedIn x j n) :
    (∃ n', routePacket C x p n = .done () n') ↔ ∃ r, newJID p.envelope.to_ = .ok r ∧
      (j.stringWithoutResource = r.stringWithoutResource ∨ ∃ f, newJID p.envelope.from_ = .ok f) := by
  obtain ⟨s, hs, hLogin, hj⟩ := h
  rw [← routeDecide_returns_iff (C := C) hs hLogin hj]
  constructor
  · rintro ⟨n', h⟩
    obtain ⟨d, m, hDecide, _⟩ := bind_eq_done_iff.mp h
    exact ⟨d, m, hDecide⟩
  · rintro ⟨d, m, hDecide⟩
    obtain ⟨_, n', hAct⟩ := routeAct_returns hDecide m
    exact ⟨n', bind_eq_done_iff.mpr ⟨d, m, hDecide, hAct⟩⟩

theorem routeAll_returns (h : LoggedIn x j n) {packets : List Packet}
    (hTo : ∀ q ∈ packets, ∃ r, newJID q.envelope.to_ = .ok r)
    (hFrom : ∀ q ∈ packets, ∃ f, newJID q.envelope.from_ = .ok f) :
    ∃ n', packets.forM (routePacket C x) n = .done () n' := by
  induction packets generalizing n with
  | nil => exact ⟨n, rfl⟩
  | cons q packets ih =>
    obtain ⟨r, hr⟩ := hTo q List.mem_cons_self
    obtain ⟨m, hRoute⟩ := (routePacket_returns_iff h).mpr ⟨r, hr, .inr (hFrom q List.mem_cons_self)⟩
    have hStays := stays_routePacket (C := C) (x := x) x q n
    rw [hRoute] at hStays
    obtain ⟨n', hRest⟩ := ih (h.stays hStays) (fun q hq => hTo q (List.mem_cons_of_mem _ hq))
      fun q hq => hFrom q (List.mem_cons_of_mem _ hq)
    exact ⟨n', bind_eq_done_iff.mpr ⟨(), m, hRoute, hRest⟩⟩

/-- The copies of a group message are from its sender, and every member has an address. -/
theorem generated_addressed {env : Env} {packets : List Packet} {q : Packet}
    (h : generateGroupPackets p env n = .done (.ok packets) n') (hq : q ∈ packets) :
    q.envelope.from_ = p.envelope.from_ ∧ ∃ r, newJID q.envelope.to_ = .ok r := by
  obtain ⟨f, users, _, _, _, hPackets⟩ := generateGroupPackets_ok h
  rw [genGroupPackets_eq] at hPackets
  cases hPackets
  obtain ⟨⟨toUser, k⟩, _, rfl⟩ := List.mem_map.mp hq
  obtain ⟨j, hj⟩ := exists_newJIDByUidDomain toUser f.domain
  refine ⟨rfl, j.withoutResource, ?_⟩
  simp only [memberAddress, hj]
  exact j.newJID_bare

end LoggedIn

/-! ## A frame -/

section Frame

variable {C : Codec} {n n' : Node} {x : Bytes} {p : Packet} {j : JID} {i : Input}

def IsServerAck (e : Envelope) : Prop := e.type = msgTypeState ∧ e.to_ = serverAckName

def IsGroup (e : Envelope) : Prop := e.type = msgTypeGroupChat

/-- The addresses that the handler uses are addresses. -/
structure Addressed (j : JID) (e : Envelope) : Prop where
  group : ¬ IsServerAck e → IsGroup e → ∃ f, newJID e.from_ = .ok f
  chat : ¬ IsServerAck e → ¬ IsGroup e → ∃ r, newJID e.to_ = .ok r ∧
    (j.stringWithoutResource = r.stringWithoutResource ∨ ∃ f, newJID e.from_ = .ok f)

theorem serverAck_returns (h : LoggedIn x j n) (p : Packet) : ∃ n', serverAck x p n = .done () n' := by
  obtain ⟨s, hs, _, hj⟩ := h
  unfold serverAck
  rw [bind_done (Node.session_eq hs), hj, bind_done (deref_ok j n), bind_done (read_apply _ n)]
  cases n.oflCache p.envelope.id with
  | some ids => exact ⟨_, rfl⟩
  | none => exact ⟨_, rfl⟩

theorem group_returns_iff (h : LoggedIn x j n) (env : Env) :
    (∃ n', handleRequest C x env (.group p) n = .done () n') ↔
      ∃ f, newJID p.envelope.from_ = .ok f := by
  constructor
  · rintro ⟨n', hDone⟩
    obtain ⟨_, _, hGenerate, _⟩ := bind_eq_done_iff.mp hDone
    obtain ⟨f, _, hDeref, _⟩ := bind_eq_done_iff.mp hGenerate
    exact ⟨f, (deref_eq_done_iff.mp hDeref).1⟩
  · rintro ⟨f, hf⟩
    have hReturns : Returns (generateGroupPackets p env) := returns_generateGroupPackets hf
    obtain ⟨r, m, hGenerate⟩ := hReturns n
    have hStays := keeps_generateGroupPackets (R := Stays x) (fun _ _ _ => stays_send _) p env n
    rw [hGenerate] at hStays
    simp only [handleRequest]
    rw [bind_done hGenerate]
    cases r with
    | error gerr => exact ⟨_, rfl⟩
    | ok packets =>
      have hAnswer := stays_sendMessage (x := x) x
        (.answer (newPacketAck p.envelope.id env.timestamp13)) m
      refine routeAll_returns ((h.stays hStays).stays hAnswer)
        (fun q hq => (generated_addressed hGenerate hq).2) ?_
      intro q hq
      exact ⟨f, (generated_addressed hGenerate hq).1 ▸ hf⟩

theorem chat_returns_iff (h : LoggedIn x j n) (env : Env) :
    (∃ n', handleRequest C x env (.chat p) n = .done () n') ↔ ∃ r, newJID p.envelope.to_ = .ok r ∧
      (j.stringWithoutResource = r.stringWithoutResource ∨ ∃ f, newJID p.envelope.from_ = .ok f) := by
  simp only [handleRequest]
  split
  · have hAnswer := stays_sendMessage (x := x) x
      (.answer (newPacketAck p.envelope.id env.timestamp13)) n
    exact routePacket_returns_iff (h.stays hAnswer)
  · exact routePacket_returns_iff h

/-- A frame of a user is handled to its end exactly if it has the addresses it needs. -/
theorem handleFrame_returns_iff (h : LoggedIn x j n) (hBeat : i.frame ≠ [heartBeat])
    (hPacket : newPacket C i.frame = .ok p) :
    (∃ n', handleFrame C x i n = .done () n') ↔ Addressed j p.envelope := by
  have hHandle : handleFrame C x i n = handleRequest C x i.env (request C i) n := by
    obtain ⟨s, hs, hLogin, _⟩ := h
    unfold handleFrame
    rw [bind_done (Node.session_eq hs), hLogin, if_neg (by decide), if_neg hBeat]
  rw [hHandle]
  unfold request
  rw [hPacket]
  simp only
  split
  · rename_i hAck
    exact ⟨fun _ => ⟨absurd hAck, absurd hAck⟩, fun _ => serverAck_returns h _⟩
  rename_i hAck
  split
  · rename_i hGroup
    rw [group_returns_iff h]
    exact ⟨fun hFrom => ⟨fun _ _ => hFrom, fun _ hChat => absurd hGroup hChat⟩,
      fun hAddressed => hAddressed.group hAck hGroup⟩
  · rename_i hGroup
    rw [chat_returns_iff h]
    exact ⟨fun hTo => ⟨fun _ hIs => absurd hIs hGroup, fun _ _ => hTo⟩,
      fun hAddressed => hAddressed.chat hAck hGroup⟩

end Frame

/-! ## What the sender is told -/

/-- One notice about the packet is sent, and nothing is routed or stored. -/
structure Notified (x id : Bytes) (n n' : Node) : Prop where
  sent : ∃ s s' before reason after, n.sessions x = some s ∧ n'.sessions x = some s' ∧
    s'.written = s.written ++ before ++ .answer (newPacketSysNotify id reason) :: after ∧
    ∀ w ∈ before ++ after, ∀ reason', w ≠ .answer (newPacketSysNotify id reason')
  router : n'.router = n.router
  published : n'.published = n.published
  db : n'.db = n.db

open GoJson

theorem newPacket_heartBeat (O : Outside) (p : Packet) : newPacket (codec O) [heartBeat] ≠ .ok p := by
  intro h
  cases h

/-- A frame is handled to its end, and its sender told of a bad receiver, exactly if it has
the addresses the handler uses: the code that would tell comes after the panic. -/
theorem malformed_answered_iff {O : Outside} {n : Node} {x : Bytes} {s : Session} {j : JID} {i : Input}
    {p : Packet} (hs : n.sessions x = some s) (hLogin : s.status.status = .login)
    (hj : newJID s.status.jid = .ok j) (hPacket : newPacket (codec O) i.frame = .ok p) :
    (∃ n', handleFrame (codec O) x i n = .done () n' ∧
      (¬ IsServerAck p.envelope → ¬ IsGroup p.envelope →
        p.envelope.from_ = j.stringWithoutResource → (∀ r, newJID p.envelope.to_ ≠ .ok r) →
          Notified x p.envelope.id n n')) ↔
    Addressed j p.envelope := by
  have hBeat : i.frame ≠ [heartBeat] := by
    intro hFrame
    exact newPacket_heartBeat O p (hFrame ▸ hPacket)
  have hReturns := handleFrame_returns_iff ⟨s, hs, hLogin, hj⟩ hBeat hPacket
  constructor
  · rintro ⟨n', hDone, _⟩
    exact hReturns.mp ⟨n', hDone⟩
  · intro hAddressed
    obtain ⟨n', hDone⟩ := hReturns.mpr hAddressed
    refine ⟨n', hDone, ?_⟩
    intro hAck hGroup _ hNone
    obtain ⟨r, hr, _⟩ := hAddressed.chat hAck hGroup
    exact absurd hr (hNone r)

def aliceSession : Session where
  status :=
    { sid := text "s1"
      jid := text "alice@a.com"
      status := .login
      nodeid := text "node01"
      channel := text "node01:4281"
      ct := 0 }
  pkgBuff := ∅
  written := []
  connClosed := false

/-- A node on which only alice is logged in. -/
def aliceNode : Node :=
  { bareNode with sessions := Function.update (fun _ => none) (text "s1") (some aliceSession) }

/-- A message for an address without a domain. -/
def toNowhere : Envelope := { toBob with to_ := text "bob" }

/-- The handler panics on it, and alice is told nothing. -/
theorem notice_not_sent :
    (newPacket (codec outside) (PlainJson.writeFrame toNowhere)).toOption.map (·.envelope) =
      some toNowhere ∧
    toNowhere.from_ = aliceJid.stringWithoutResource ∧ (newJID toNowhere.to_).toOption = none ∧
    (handleFrame (codec outside) (text "s1") ⟨PlainJson.writeFrame toNowhere, Env.plain true⟩
      aliceNode).panicked = true ∧
    ((handleFrame (codec outside) (text "s1") ⟨PlainJson.writeFrame toNowhere, Env.plain true⟩
      aliceNode).state.sessions (text "s1")).map (·.written) = some [] := by
  decide +kernel

theorem malformed_answered_toBob :
    ∃ n', handleFrame (codec outside) (text "s1") ⟨PlainJson.writeFrame toBob, Env.plain true⟩ aliceNode =
        .done () n' ∧
      (¬ IsServerAck toBob → ¬ IsGroup toBob → toBob.from_ = aliceJid.stringWithoutResource →
        (∀ r, newJID toBob.to_ ≠ .ok r) → Notified (text "s1") toBob.id aliceNode n') := by
  have hPacket : newPacket (codec outside) (PlainJson.writeFrame toBob) = .ok (PlainJson.received toBob) :=
    toOption_eq_some_iff.mp (by decide +kernel)
  have hJid : newJID aliceSession.status.jid = .ok aliceJid := by decide
  have hSession : aliceNode.sessions (text "s1") = some aliceSession := by
    simp [aliceNode]
  refine (malformed_answered_iff (i := ⟨PlainJson.writeFrame toBob, Env.plain true⟩)
    hSession rfl hJid hPacket).mpr ⟨fun _ hGroup => ?_, fun _ _ => ?_⟩
  · exact absurd hGroup (by decide : toBob.type ≠ msgTypeGroupChat)
  · obtain ⟨r, hr⟩ : ∃ r, newJID toBob.to_ = .ok r := ⟨_, rfl⟩
    exact ⟨r, hr, .inr ⟨aliceJid, by decide⟩⟩

end Sara
