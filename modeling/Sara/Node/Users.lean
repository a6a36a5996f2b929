import Sara.Node.Frame

/-! # The user of a session

A session has no address until it logs on with credentials that were accepted, and
then keeps it. What its goroutine and the workers have decided about a packet was
decided for that user: a packet it is to keep is for the user, a packet it is to
route or to store is from the user.
-/

namespace Sara

open Lib Lib.Prog Lib.Transition Saradb

set_option autoImplicit false

/-- The packet is for the user with this address. -/
def IsFor (jid : Bytes) (p : Packet) : Prop :=
  ∃ j r, newJID jid = .ok j ∧ newJID p.envelope.to_ = .ok r ∧
    r.stringWithoutResource = j.stringWithoutResource

/-- An item is a kill, or a packet with an address. -/
def RouterItem.Addressed (it : RouterItem) : Prop :=
  (it.packet = none ∧ it.signal = killSignal) ∨
    ∃ p r, it.packet = some p ∧ it.signal = 0 ∧ newJID p.envelope.to_ = .ok r

/-- What may happen to a session, logging on apart. -/
structure Ages (s s' : Session) : Prop where
  jid : s'.status.jid = s.status.jid
  login : s'.status.status = .login → s.status.status = .login
  conn : s'.status.status = .conn → s.status.status = .conn
  buffer : ∀ (id : Bytes) (p : Packet), s'.pkgBuff[id]? = some p →
    s.pkgBuff[id]? = some p ∨ IsFor s.status.jid p

theorem Ages.refl (s : Session) : Ages s s := ⟨rfl, id, id, fun _ _ h => .inl h⟩

/-- What may happen to a node while nobody connects or logs on. -/
structure Users (n n' : Node) : Prop where
  sessions : ∀ y, (n'.sessions y).isSome = (n.sessions y).isSome
  ages : ∀ y s', n'.sessions y = some s' → ∃ s, n.sessions y = some s ∧ Ages s s'
  sessionMap : n'.sessionMap = n.sessionMap
  router : ∀ it ∈ n'.router, it ∈ n.router ∨ it.Addressed

instance : Std.Refl Users where
  refl _ := ⟨fun _ => rfl, fun _ s hs => ⟨s, hs, .refl s⟩, rfl, fun _ h => .inl h⟩

instance : IsTrans Node Users where
  trans _ _ _ h h' := by
    refine ⟨fun y => (h'.sessions y).trans (h.sessions y), ?_, h'.sessionMap.trans h.sessionMap, ?_⟩
    · intro y s'' hs''
      obtain ⟨s', hs', hAges'⟩ := h'.ages y s'' hs''
      obtain ⟨s, hs, hAges⟩ := h.ages y s' hs'
      refine ⟨s, hs, hAges'.jid.trans hAges.jid, fun hLogin => hAges.login (hAges'.login hLogin),
        fun hConn => hAges.conn (hAges'.conn hConn), ?_⟩
      intro id p hp
      rcases hAges'.buffer id p hp with hOld | hFor
      · exact hAges.buffer id p hOld
      · exact .inr (hAges.jid ▸ hFor)
    · intro it hit
      rcases h'.router it hit with hOld | hNew
      · exact h.router it hOld
      · exact .inr hNew

section Programs

variable {C : Codec} {n n' : Node} {x : Bytes}

theorem Users.session (h : Users n n') {s : Session} (hs : n.sessions x = some s) :
    ∃ s', n'.sessions x = some s' ∧ Ages s s' := by
  have hSome := h.sessions x
  rw [hs] at hSome
  obtain ⟨s', hs'⟩ := Option.isSome_iff_exists.mp hSome
  obtain ⟨s₀, hs₀, hAges⟩ := h.ages x s' hs'
  cases hs.symm.trans hs₀
  exact ⟨s', hs', hAges⟩

theorem Users.of_sessions (hSessions : n'.sessions = n.sessions)
    (hMap : n'.sessionMap = n.sessionMap) (hRouter : ∀ it ∈ n'.router, it ∈ n.router) :
    Users n n' := by
  refine ⟨fun y => by rw [hSessions], ?_, hMap, fun it hit => .inl (hRouter it hit)⟩
  intro y s hs
  exact ⟨s, hSessions ▸ hs, .refl s⟩

theorem Users.updateSession {f : Session → Session}
    (hAges : ∀ s, n.sessions x = some s → Ages s (f s)) : Users n (n.updateSession x f) := by
  refine ⟨?_, ?_, rfl, fun _ h => .inl h⟩
  · intro y
    rcases eq_or_ne y x with rfl | hne
    · rw [Node.updateSession_self, Option.isSome_map]
    · rw [Node.updateSession_of_ne n hne]
  · intro y s' hs'
    rcases eq_or_ne y x with rfl | hne
    · rw [Node.updateSession_self] at hs'
      obtain ⟨s, hs, rfl⟩ := Option.map_eq_some_iff.mp hs'
      exact ⟨s, hs, hAges s hs⟩
    · rw [Node.updateSession_of_ne n hne] at hs'
      exact ⟨s', hs', .refl s'⟩

theorem users_sendMessage (x : Bytes) (data : Written) : Keeps Users (sendMessage x data) :=
  fun _ => .updateSession fun _ _ => ⟨rfl, id, id, fun _ _ h => .inl h⟩

theorem users_send (ds : List Dispatch) : Keeps Users (modify fun n => n.send ds) :=
  fun _ => .of_sessions rfl rfl fun _ h => h

theorem users_closeSession (x : Bytes) (env : Env) : Keeps Users (closeSession C x env) :=
  closeSession_keeps users_send (fun _ _ => .of_sessions rfl rfl fun _ h => h)
    (fun _ _ => .updateSession fun _ _ => ⟨rfl, fun hLogin => (by cases hLogin),
      fun hConn => (by cases hConn), fun _ _ h => .inl h⟩) x env

theorem route_users {item : RouterItem} (hItem : item.Addressed) : Users n (n.route item) := by
  unfold Node.route
  split
  · refine ⟨fun _ => rfl, fun _ s hs => ⟨s, hs, .refl s⟩, rfl, ?_⟩
    intro it hit
    rcases List.mem_append.mp hit with hOld | hNew
    · exact .inl hOld
    · cases List.mem_singleton.mp hNew
      exact .inr hItem
  · exact Std.Refl.refl n

theorem permits_users : Permits Users C where
  sendMessage x data _ := users_sendMessage x data
  closeSession := users_closeSession
  verifyKill _ _ := route_users (.inl ⟨rfl, rfl⟩)
  cache _ _ _ := users_send _

theorem users_serverAck (x : Bytes) (packet : Packet) : Keeps Users (serverAck x packet) := by
  refine serverAck_keeps users_send ?_ x packet
  intro x id n
  refine .updateSession fun s _ => ⟨rfl, fun h => h, fun h => h, ?_⟩
  intro key p hp
  rw [Std.ExtTreeMap.getElem?_erase] at hp
  split at hp
  · cases hp
  · exact .inl hp

theorem users_loginReply (x : Bytes) (packet : Packet) : Keeps Users (loginReply C x packet) :=
  loginReply_keeps (fun _ _ _ => .of_sessions rfl rfl fun _ h => h) x packet

theorem users_routeAct {packet : Packet} {d : Decision}
    (hToMe : d = .toMe → ∀ s, n.sessions x = some s → IsFor s.status.jid packet)
    (hRoute : ∀ ss, d = .route ss → ∃ r, newJID packet.envelope.to_ = .ok r) :
    Users n (routeAct C x packet d n).state := by
  cases d with
  | ignore => exact Std.Refl.refl n
  | toMe =>
    have hAdd : Users n (pkgBuffAdd x packet n).state := by
      refine .updateSession fun s hs => ⟨rfl, id, id, ?_⟩
      intro id p hp
      rw [Std.ExtTreeMap.getElem?_insert] at hp
      split at hp
      · cases hp
        exact .inr (hToMe rfl s hs)
      · exact .inl hp
    exact IsTrans.trans _ _ _ hAdd (users_sendMessage x (.relay packet) _)
  | notify e => exact users_sendMessage x _ n
  | route ss =>
    obtain ⟨r, hr⟩ := hRoute ss rfl
    exact route_users (.inr ⟨packet, r, rfl, rfl, hr⟩)
  | store => exact storePacket_keeps users_send packet n

end Programs

/-! ## What is known of a user -/

/-- The session has not logged on. -/
def Unused (n : Node) (x : Bytes) : Prop :=
  ∃ sess, n.sessions x = some sess ∧ sess.status.jid = [] ∧ sess.status.status ≠ .login

/-- The session belongs to a user whose credentials were accepted. -/
def UserOf (H : List (Bytes × JID)) (n : Node) (x : Bytes) (j : JID) : Prop :=
  ∃ sess, n.sessions x = some sess ∧ newJID sess.status.jid = .ok j ∧
    sess.status.status ≠ .conn ∧ (x, j) ∈ H

def Decision.Known (H : List (Bytes × JID)) (n : Node) (x : Bytes) (p : Packet) : Decision → Prop
  | .ignore | .notify _ => True
  | .toMe => ∃ j r, UserOf H n x j ∧ newJID p.envelope.to_ = .ok r ∧
    r.stringWithoutResource = j.stringWithoutResource
  | .route _ | .store => ∃ j r f, UserOf H n x j ∧ newJID p.envelope.to_ = .ok r ∧
    newJID p.envelope.from_ = .ok f ∧ f.stringWithoutResource = j.stringWithoutResource

section Known

variable {C : Codec} {H H' : List (Bytes × JID)} {n n' : Node} {x : Bytes} {p : Packet} {d : Decision}

theorem Unused.mono (h : Unused n x) (hUsers : Users n n') : Unused n' x := by
  obtain ⟨sess, hs, hJid, hLogin⟩ := h
  obtain ⟨sess', hs', hAges⟩ := hUsers.session hs
  exact ⟨sess', hs', hAges.jid.trans hJid, fun hLogin' => hLogin (hAges.login hLogin')⟩

theorem UserOf.mono {j : JID} (h : UserOf H n x j) (hH : H ⊆ H') (hUsers : Users n n') :
    UserOf H' n' x j := by
  obtain ⟨sess, hs, hj, hConn, hMem⟩ := h
  obtain ⟨sess', hs', hAges⟩ := hUsers.session hs
  exact ⟨sess', hs', hAges.jid ▸ hj, fun hConn' => hConn (hAges.conn hConn'), hH hMem⟩

theorem Unused.not_userOf (h : Unused n x) (j : JID) : ¬ UserOf H n x j := by
  rintro ⟨sess', hs', hj, _⟩
  obtain ⟨sess, hs, hJid, _⟩ := h
  cases hs.symm.trans hs'
  rw [hJid] at hj
  cases hj

/-- What was decided for a user stays true as long as users do. -/
theorem Decision.Known.imp (h : d.Known H n x p) (hImp : ∀ j, UserOf H n x j → UserOf H' n' x j) :
    d.Known H' n' x p := by
  cases d with
  | ignore | notify => trivial
  | toMe =>
    obtain ⟨j, r, hUser, hRest⟩ := h
    exact ⟨j, r, hImp j hUser, hRest⟩
  | route | store =>
    obtain ⟨j, r, f, hUser, hRest⟩ := h
    exact ⟨j, r, f, hImp j hUser, hRest⟩

/-- The checks of `RoutePacket` are made against the address the session logged on with. -/
theorem known_routeDecide
    (hUser : ∀ sess, n.sessions x = some sess → Unused n x ∨ ∃ j, UserOf H n x j)
    (h : routeDecide C x p n = .done d n') : d.Known H n x p := by
  obtain ⟨_, rfl | ⟨sess, j, r, hs, hLogin, hj, hr, hCases⟩⟩ := routeDecide_done h
  · trivial
  have hUserOf : UserOf H n x j := by
    rcases hUser sess hs with ⟨sess', hs', _, hNot⟩ | ⟨k, sess', hs', hk, hRest⟩
    · cases hs.symm.trans hs'
      exact absurd hLogin hNot
    · cases hs.symm.trans hs'
      cases hj.symm.trans hk
      exact ⟨sess, hs, hj, hRest⟩
  obtain ⟨rfl, hSame⟩ | ⟨f, hf, hMine, rfl⟩ := hCases
  · exact ⟨j, r, hUserOf, hr, hSame.symm⟩
  · cases n.get r.toSessionid with
    | none => exact ⟨j, r, f, hUserOf, hr, hf, hMine.symm⟩
    | some ssb => exact ⟨j, r, f, hUserOf, hr, hf, hMine.symm⟩

theorem Decision.Known.users_routeAct (h : d.Known H n x p) : Users n (routeAct C x p d n).state := by
  refine Sara.users_routeAct ?_ ?_
  · rintro rfl sess hs
    obtain ⟨j, r, ⟨sess', hs', hj, _⟩, hr, hSame⟩ := h
    cases hs.symm.trans hs'
    exact ⟨j, r, hj, hr, hSame⟩
  · rintro ss rfl
    obtain ⟨_, r, _, _, hr, _⟩ := h
    exact ⟨r, hr⟩

end Known

namespace Concurrent

/-! ## The invariant -/

/-- The credentials a step accepts: the session and the address. -/
def auths (s : System) : Action → List (Bytes × JID)
  | .go x env =>
    match s.pc x with
    | .auth packet jid => if env.auth jid.user packet.envelope.pwd then [(x, jid)] else []
    | _ => []
  | _ => []

def Pc.Known (H : List (Bytes × JID)) (n : Node) (x : Bytes) : Pc → Prop
  | .idle | .fetch _ | .publish _ | .storing _ _ | .routing _ => True
  | .kill packet jid _ | .auth packet jid => newJID packet.envelope.jid = .ok jid ∧ Unused n x
  | .logon packet => ∃ j, newJID packet.envelope.jid = .ok j ∧ (x, j) ∈ H ∧ Unused n x
  | .acting p d _ => d.Known H n x p

def Hand.Known (H : List (Bytes × JID)) (n : Node) : Hand → Prop
  | .free => True
  | .item it | .found it => it.Addressed
  | .acting x p d => d.Known H n x p

structure Known (H : List (Bytes × JID)) (s : System) : Prop where
  users : ∀ x sess, s.node.sessions x = some sess → Unused s.node x ∨ ∃ j, UserOf H s.node x j
  buffers : ∀ x sess, s.node.sessions x = some sess →
    ∀ (id : Bytes) (p : Packet), sess.pkgBuff[id]? = some p → IsFor sess.status.jid p
  mapped : ∀ x, s.node.sessionMap x = true ∨ s.dispatching x = true → (s.node.sessions x).isSome
  pcs : ∀ x, (s.pc x).Known H s.node x
  router : ∀ it ∈ s.node.router, it.Addressed
  hands : ∀ w, (s.hands w).Known H s.node

theorem known_start (nodeid channel : Bytes) (st : Store) : Known [] (start nodeid channel st) where
  users _ _ h := by cases h
  buffers _ _ h := by cases h
  mapped _ h := by rcases h with h | h <;> cases h
  pcs _ := trivial
  router _ h := by cases h
  hands _ := trivial

variable {C : Codec} {consumers : Nat} {H H' : List (Bytes × JID)} {s t : System} {a : Action}
variable {n n' : Node} {x : Bytes} {env : Env}

theorem Known.exists_user (h : Known H s) {sess : Session} (hs : s.node.sessions x = some sess)
    (hLogin : sess.status.status = .login) : ∃ j, newJID sess.status.jid = .ok j := by
  rcases h.users x sess hs with ⟨sess', hs', _, hNot⟩ | ⟨j, sess', hs', hj, _⟩
  · cases hs.symm.trans hs'
    exact absurd hLogin hNot
  · cases hs.symm.trans hs'
    exact ⟨j, hj⟩

theorem Pc.Known.imp {pc : Pc} (h : pc.Known H n x) (hH : H ⊆ H')
    (hUnused : Unused n x → Unused n' x) (hUser : ∀ j, UserOf H n x j → UserOf H' n' x j) :
    pc.Known H' n' x := by
  cases pc with
  | idle | fetch | publish | storing | routing => trivial
  | kill | auth => exact ⟨h.1, hUnused h.2⟩
  | logon =>
    obtain ⟨j, hj, hMem, hNot⟩ := h
    exact ⟨j, hj, hH hMem, hUnused hNot⟩
  | acting p d packets => exact Decision.Known.imp h hUser

theorem Hand.Known.imp {hand : Hand} (h : hand.Known H n)
    (hUser : ∀ x j, UserOf H n x j → UserOf H' n' x j) : hand.Known H' n' := by
  cases hand with
  | free => trivial
  | item | found => exact h
  | acting x p d => exact Decision.Known.imp h (hUser x)

/-- A step that connects nobody and logs nobody on, from what it does to the parts. -/
theorem Known.step (h : Known H s) (hH : H ⊆ H') (hUsers : Users s.node t.node)
    (hDispatching : t.dispatching = s.dispatching)
    (hPcs : ∀ x, t.pc x = s.pc x ∨ (t.pc x).Known H' t.node x)
    (hHands : ∀ w, t.hands w = s.hands w ∨ (t.hands w).Known H' t.node) : Known H' t where
  users x sess' hs' := by
    obtain ⟨sess, hs, _⟩ := hUsers.ages x sess' hs'
    rcases h.users x sess hs with hUnused | ⟨j, hUser⟩
    · exact .inl (hUnused.mono hUsers)
    · exact .inr ⟨j, hUser.mono hH hUsers⟩
  buffers x sess' hs' id p hp := by
    obtain ⟨sess, hs, hAges⟩ := hUsers.ages x sess' hs'
    rw [hAges.jid]
    rcases hAges.buffer id p hp with hOld | hNew
    · exact h.buffers x sess hs id p hOld
    · exact hNew
  mapped x hx := by
    rw [hUsers.sessionMap, hDispatching] at hx
    rw [hUsers.sessions]
    exact h.mapped x hx
  pcs x := by
    rcases hPcs x with hSame | hNew
    · rw [hSame]
      exact (h.pcs x).imp hH (·.mono hUsers) fun _ hUser => hUser.mono hH hUsers
    · exact hNew
  router it hit := by
    rcases hUsers.router it hit with hOld | hNew
    · exact h.router it hOld
    · exact hNew
  hands w := by
    rcases hHands w with hSame | hNew
    · rw [hSame]
      exact (h.hands w).imp fun _ _ hUser => hUser.mono hH hUsers
    · exact hNew

/-! ## The goroutine of a session -/

theorem begin_users (x : Bytes) (i : Input) : Users n (begin C x i n).state :=
  permits_users.begin fun packet _ _ _ _ _ => users_serverAck x packet n

theorem begin_known {i : Input} {pc : Pc} (h : begin C x i n = .done pc n')
    (hUser : ∀ sess, n.sessions x = some sess → Unused n x ∨ ∃ j, UserOf H n x j) :
    pc.Known H n' x := by
  cases hs : n.sessions x with
  | none =>
    unfold begin at h
    rw [bind_panic (Node.session_eq_panic hs)] at h
    cases h
  | some sess =>
    by_cases hConn : sess.status.status = .conn
    · have hUnused : Unused n x := by
        rcases hUser sess hs with hUnused | ⟨j, sess', hs', _, hOpen, _⟩
        · exact hUnused
        · cases hs.symm.trans hs'
          exact absurd hConn hOpen
      unfold begin at h
      rw [bind_done (Node.session_eq hs), if_pos hConn] at h
      obtain ⟨r, _, hGet, hPure⟩ := bind_eq_done_iff.mp h
      match r with
      | none =>
        cases hPure
        trivial
      | some (packet, jid, some ss) =>
        cases hPure
        obtain ⟨rfl, hj⟩ := verifyGet_done hGet
        exact ⟨hj, hUnused⟩
      | some (packet, jid, none) =>
        cases hPure
        obtain ⟨rfl, hj⟩ := verifyGet_done hGet
        exact ⟨hj, hUnused⟩
    · obtain rfl | ⟨packets, rfl⟩ := begin_done_of_open h hs hConn
      · trivial
      · trivial

theorem next_users {pc : Pc} (h : pc.Known H n x) (hLogon : ∀ packet, pc ≠ .logon packet) :
    Users n (next C x env pc n).state := by
  refine permits_users.next ?_ ?_ ?_ ?_
  · exact fun packet hPc => absurd hPc (hLogon packet)
  · exact fun packet _ => users_loginReply x packet n
  · intro d ds _ _
    unfold sendNext
    split
    · exact Std.Refl.refl n
    · exact .of_sessions rfl rfl fun _ h => h
  · rintro packet d packets rfl
    exact Decision.Known.users_routeAct h

theorem verifyAuth_done {packet : Packet} {jid : JID}
    (h : verifyAuth C x packet jid env n = .done true n') :
    env.auth jid.user packet.envelope.pwd = true ∧ n' = n := by
  unfold verifyAuth at h
  split at h
  · rename_i hAuth
    cases h
    exact ⟨hAuth, rfl⟩
  · obtain ⟨_, _, _, hPure⟩ := bind_eq_done_iff.mp h
    cases hPure

/-- A goroutine goes on knowing what it knew, and a login goes on once accepted. -/
theorem next_known {pc pc' : Pc} (hPc : pc.Known H n x)
    (hUser : ∀ sess, n.sessions x = some sess → Unused n x ∨ ∃ j, UserOf H n x j) (hH : H ⊆ H')
    (hAuth : ∀ packet jid, pc = .auth packet jid → env.auth jid.user packet.envelope.pwd = true →
      (x, jid) ∈ H')
    (h : next C x env pc n = .done pc' n') : pc'.Known H' n' x := by
  have hDone := next_done h
  match pc with
  | .idle | .routing [] | .storing [] _ =>
    cases hDone
    trivial
  | .kill packet jid ss =>
    cases hDone
    have hUsers : Users n (next C x env (.kill packet jid ss) n).state :=
      next_users hPc fun _ hEq => (by cases hEq)
    rw [h] at hUsers
    exact ⟨hPc.1, hPc.2.mono hUsers⟩
  | .auth packet jid =>
    obtain ⟨ok, u, hVerify, hPure⟩ := bind_eq_done_iff.mp h
    cases ok with
    | true =>
      cases hPure
      obtain ⟨hAccepted, rfl⟩ := verifyAuth_done hVerify
      exact ⟨jid, hPc.1, hAuth packet jid rfl hAccepted, hPc.2⟩
    | false =>
      cases hPure
      trivial
  | .logon packet =>
    cases hDone
    trivial
  | .fetch packet =>
    obtain ⟨reply, rfl⟩ := hDone
    trivial
  | .publish reply =>
    obtain ⟨ds, rfl⟩ := hDone
    trivial
  | .storing (d :: ds) reply =>
    obtain rfl | rfl := hDone
    · trivial
    · trivial
  | .routing (packet :: packets) =>
    obtain ⟨d, u, hDecide, hPure⟩ := bind_eq_done_iff.mp h
    cases hPure
    obtain ⟨rfl, _⟩ := routeDecide_done hDecide
    refine (known_routeDecide hUser hDecide).imp fun j hUserOf => ?_
    exact hUserOf.mono hH (Std.Refl.refl _)
  | .acting packet d packets =>
    cases hDone
    trivial

/-- A session that had no user is replaced, and nothing was known of it. -/
theorem Known.replace (h : Known H s) (hH : H ⊆ H') {sess : Session}
    (hSessions : t.node.sessions = Function.update s.node.sessions x (some sess))
    (hNot : ∀ j, ¬ UserOf H s.node x j) (hNew : Unused t.node x ∨ ∃ j, UserOf H' t.node x j)
    (hBuffer : ∀ (id : Bytes) (p : Packet), sess.pkgBuff[id]? = some p → IsFor sess.status.jid p)
    (hMapped : ∀ y, y ≠ x → t.node.sessionMap y = true ∨ t.dispatching y = true →
      s.node.sessionMap y = true ∨ s.dispatching y = true)
    (hPc : (t.pc x).Known H' t.node x) (hPcs : ∀ y, y ≠ x → t.pc y = s.pc y)
    (hRouter : t.node.router = s.node.router) (hHands : t.hands = s.hands) : Known H' t := by
  have hOther : ∀ {y}, y ≠ x → t.node.sessions y = s.node.sessions y := by
    intro y hne
    rw [hSessions, Function.update_of_ne hne]
  have hSelf : t.node.sessions x = some sess := by rw [hSessions, Function.update_self]
  have hUnused : ∀ {y}, y ≠ x → Unused s.node y → Unused t.node y := by
    rintro y hne ⟨sess', hs', hRest⟩
    exact ⟨sess', (hOther hne).trans hs', hRest⟩
  have hUser : ∀ y j, UserOf H s.node y j → UserOf H' t.node y j := by
    rintro y j hUser
    rcases eq_or_ne y x with rfl | hne
    · exact absurd hUser (hNot j)
    · obtain ⟨sess', hs', hj, hOpen, hMem⟩ := hUser
      exact ⟨sess', (hOther hne).trans hs', hj, hOpen, hH hMem⟩
  constructor
  · intro y sess' hs'
    rcases eq_or_ne y x with rfl | hne
    · exact hNew
    · rw [hOther hne] at hs'
      rcases h.users y sess' hs' with hOld | ⟨j, hOld⟩
      · exact .inl (hUnused hne hOld)
      · exact .inr ⟨j, hUser y j hOld⟩
  · intro y sess' hs'
    rcases eq_or_ne y x with rfl | hne
    · cases hSelf.symm.trans hs'
      exact hBuffer
    · exact h.buffers y sess' ((hOther hne).symm.trans hs')
  · intro y hy
    rcases eq_or_ne y x with rfl | hne
    · rw [hSelf]
      rfl
    · rw [hOther hne]
      exact h.mapped y (hMapped y hne hy)
  · intro y
    rcases eq_or_ne y x with rfl | hne
    · exact hPc
    · rw [hPcs y hne]
      exact (h.pcs y).imp hH (hUnused hne) (hUser y)
  · rw [hRouter]
    exact h.router
  · intro w
    rw [hHands]
    exact (h.hands w).imp hUser

/-- Logging on gives an unused session its user. -/
theorem Known.logon (h : Known H s) (hH : H ⊆ H') {packet : Packet} (hPc : s.pc x = .logon packet) :
    Known H' (s.session x (next C x env (s.pc x))) := by
  have hNow := h.pcs x
  rw [hPc] at hNow
  obtain ⟨j, hj, hMem, hUnused⟩ := hNow
  obtain ⟨sess, hs, hJid, _⟩ := id hUnused
  have hSessions := congrArg Node.sessions (Node.updateSession_eq hs fun s =>
    { s with status :=
      { s.status with jid := packet.envelope.jid, status := .login, ct := env.timestamp10 } })
  rw [hPc]
  refine h.replace hH hSessions hUnused.not_userOf ?_ ?_ (fun y _ hy => hy) ?_ ?_ rfl rfl
  · exact .inr ⟨j, _, (congrFun hSessions x).trans (Function.update_self ..), hj,
      fun hConn => (by cases hConn), hH hMem⟩
  · intro id p hp
    obtain ⟨_, _, hNone, _⟩ := h.buffers x sess hs id p hp
    rw [hJid] at hNone
    cases hNone
  · have hFetch : (s.session x (next C x env (.logon packet))).pc x = .fetch packet :=
      Function.update_self ..
    rw [hFetch]
    trivial
  · exact fun y hne => Function.update_of_ne hne ..

theorem Known.connect (h : Known H s) (hNone : s.node.sessions x = none) :
    Known H { s with
      node := { s.node with
        sessions := Function.update s.node.sessions x
          (some (newSession s.node.channel x s.node.nodeid)) }
      dispatching := Function.update s.dispatching x true } := by
  have hNot : ∀ j, ¬ UserOf H s.node x j := by
    rintro j ⟨sess, hs, _⟩
    cases hNone.symm.trans hs
  have hUnused : ¬ Unused s.node x := by
    rintro ⟨sess, hs, _⟩
    cases hNone.symm.trans hs
  refine h.replace (List.Subset.refl H) rfl hNot ?_ ?_ ?_ ?_ (fun _ _ => rfl) rfl rfl
  · exact .inl ⟨_, Function.update_self .., rfl, fun hLogin => (by cases hLogin)⟩
  · intro id p hp
    rw [newSession, Std.ExtTreeMap.getElem?_empty] at hp
    cases hp
  · intro y hne hy
    simpa only [Function.update_of_ne hne] using hy
  · exact (h.pcs x).imp (List.Subset.refl H) (fun hOld => absurd hOld hUnused)
      fun j hUser => absurd hUser (hNot j)

/-! ## The workers -/

theorem work_users {hand : Hand} (h : hand.Known H n) : Users n (work C env hand n).state := by
  refine permits_users.work users_send (fun _ _ _ _ _ => .of_sessions rfl rfl fun _ h => h) ?_
  rintro x packet d rfl
  exact Decision.Known.users_routeAct h

theorem work_known {hand hand' : Hand} (hHand : hand.Known H n)
    (hUser : ∀ x sess, n.sessions x = some sess → Unused n x ∨ ∃ j, UserOf H n x j)
    (h : work C env hand n = .done hand' n') : hand'.Known H n' := by
  cases hand with
  | free =>
    cases h
    trivial
  | item it =>
    obtain ⟨_, _, hRead, hWork⟩ := bind_eq_done_iff.mp h
    cases hRead
    split at hWork
    · split at hWork
      · cases hWork
        exact hHand
      · cases hWork
        trivial
    · obtain ⟨_, _, _, hPublish⟩ := bind_eq_done_iff.mp hWork
      split at hPublish
      · obtain ⟨_, _, _, hPure⟩ := bind_eq_done_iff.mp hPublish
        cases hPure
        trivial
      · obtain ⟨_, _, _, hPure⟩ := bind_eq_done_iff.mp hPublish
        cases hPure
        trivial
  | found it =>
    simp only [work] at h
    split at h
    · split at h
      · obtain ⟨_, _, _, hPure⟩ := bind_eq_done_iff.mp h
        cases hPure
        trivial
      · cases h
        trivial
    · obtain ⟨packet, _, hDeref, hRest⟩ := bind_eq_done_iff.mp h
      obtain ⟨_, rfl⟩ := deref_eq_done_iff.mp hDeref
      obtain ⟨d, u, hDecide, hPure⟩ := bind_eq_done_iff.mp hRest
      cases hPure
      obtain ⟨rfl, _⟩ := routeDecide_done hDecide
      exact known_routeDecide (hUser it.sid) hDecide
  | acting x packet d =>
    obtain ⟨_, _, _, hPure⟩ := bind_eq_done_iff.mp h
    cases hPure
    trivial

/-! ## Runs -/

theorem mem_auths {packet : Packet} {jid : JID} (hPc : s.pc x = .auth packet jid)
    (hAuth : env.auth jid.user packet.envelope.pwd = true) : (x, jid) ∈ auths s (.go x env) := by
  simp [auths, hPc, hAuth]

/-- What a step of the goroutine of `x` leaves of the rest of the system. -/
theorem Known.session (h : Known H s) (hH : H ⊆ H') {m : Prog Node Pc}
    (hUsers : Users s.node (m s.node).state)
    (hPc : ∀ pc n', m s.node = .done pc n' → pc.Known H' n' x) : Known H' (s.session x m) := by
  unfold System.session
  cases hm : m s.node with
  | done pc n' =>
    rw [hm] at hUsers
    refine h.step hH hUsers rfl ?_ fun _ => .inl rfl
    intro y
    rcases eq_or_ne y x with rfl | hne
    · refine .inr ?_
      simp only [Function.update_self]
      exact hPc pc n' hm
    · exact .inl (Function.update_of_ne hne ..)
  | panic n' =>
    rw [hm] at hUsers
    refine h.step hH hUsers rfl ?_ fun _ => .inl rfl
    intro y
    rcases eq_or_ne y x with rfl | hne
    · refine .inr ?_
      simp only [Function.update_self]
      trivial
    · exact .inl (Function.update_of_ne hne ..)

theorem Known.worker (h : Known H s) {w : Nat} :
    Known H (s.worker w (work C env (s.hands w))) := by
  have hUsers : Users s.node (work C env (s.hands w) s.node).state := work_users (h.hands w)
  unfold System.worker
  cases hWork : work C env (s.hands w) s.node with
  | done hand n' =>
    rw [hWork] at hUsers
    refine h.step (List.Subset.refl H) hUsers rfl (fun _ => .inl rfl) ?_
    intro w'
    rcases eq_or_ne w' w with rfl | hne
    · refine .inr ?_
      simp only [Function.update_self]
      exact work_known (h.hands w') h.users hWork
    · exact .inl (Function.update_of_ne hne ..)
  | panic n' =>
    rw [hWork] at hUsers
    exact h.step (List.Subset.refl H) hUsers rfl (fun _ => .inl rfl) fun _ => .inl rfl

theorem known_step (h : Known H s) (hStep : step C consumers s a = some t) :
    Known (H ++ auths s a) t := by
  cases stepped_of_step C hStep with
  | connect x hSid hNew =>
    simp only [auths, List.append_nil]
    exact h.connect hNew
  | register x hDispatching =>
    simp only [auths, List.append_nil]
    refine { h with mapped := ?_ }
    intro y hy
    rcases eq_or_ne y x with rfl | hne
    · exact h.mapped y (.inr hDispatching)
    · simp only [Function.update_of_ne hne] at hy
      exact h.mapped y hy
  | clean sid rest =>
    simp only [auths, List.append_nil]
    refine { h with mapped := ?_ }
    intro y hy
    rcases eq_or_ne y sid with rfl | hne
    · simp only [Function.update_self, Bool.false_eq_true, false_or] at hy
      exact h.mapped y (.inr hy)
    · simp only [Function.update_of_ne hne] at hy
      exact h.mapped y hy
  | recv x i hIdle sess hs =>
    simp only [auths, List.append_nil]
    exact h.session (List.Subset.refl H) (begin_users x i) fun _ _ hDone =>
      begin_known hDone (h.users x)
  | go x env hBusy =>
    have hH : H ⊆ H ++ auths s (.go x env) := List.subset_append_left ..
    by_cases hLogon : ∃ packet, s.pc x = .logon packet
    · obtain ⟨packet, hPc⟩ := hLogon
      exact h.logon hH hPc
    · refine h.session hH (next_users (h.pcs x) fun packet hPc => hLogon ⟨packet, hPc⟩) ?_
      intro pc n' hDone
      refine next_known (h.pcs x) (h.users x) hH ?_ hDone
      exact fun packet jid hPc hAuth => List.mem_append_right _ (mem_auths hPc hAuth)
  | close x env sess hs =>
    simp only [auths, List.append_nil]
    exact h.step (List.Subset.refl H) (users_closeSession x env s.node) rfl (fun _ => .inl rfl)
      fun _ => .inl rfl
  | take w it rest hRouter hWorker hFree =>
    simp only [auths, List.append_nil]
    have hRest : ∀ it' ∈ rest, it' ∈ s.node.router := by
      intro it' hit'
      rw [hRouter]
      exact List.mem_cons_of_mem it hit'
    refine h.step (List.Subset.refl H) (.of_sessions rfl rfl hRest) rfl (fun _ => .inl rfl) ?_
    intro w'
    rcases eq_or_ne w' w with rfl | hne
    · refine .inr ?_
      simp only [Function.update_self]
      exact h.router it (hRouter ▸ List.mem_cons_self)
    · exact .inl (Function.update_of_ne hne ..)
  | work w env hBusy =>
    simp only [auths, List.append_nil]
    exact h.worker
  | dtake ch db hTake | dexec ch i db hExec =>
    simp only [auths, List.append_nil]
    exact h.step (List.Subset.refl H) (.of_sessions rfl rfl fun _ hit => hit) rfl (fun _ => .inl rfl)
      fun _ => .inl rfl

end Concurrent

end Sara
