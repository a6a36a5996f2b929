import Sara.Core.Serialised

/-! # Group messages

A group message is expanded into one packet for each other member. The members
come as one text, in which the sender's name is looked for as a part of that
text. The copies are addressed exactly; what they carry is what the reader of
the message kept of it, which leaves the content out.
-/

namespace Sara

open Lib Lib.Prog

set_option autoImplicit false

section Expansion

variable {packet : Packet} {env : Env} {n n' : Node} {packets : List Packet} {f : JID}

theorem generateGroupPackets_eq (hf : newJID packet.envelope.from_ = .ok f) {users : Bytes}
    (hMembers : groupMembers packet.envelope.gid f.domain env n = .done (some users) n') :
    ∃ packets, genGroupPackets users packet f env = .ok packets ∧
      generateGroupPackets packet env n =
        .done (if f.user <:+: users then .ok packets else .error (text "no_permission")) n' := by
  refine ⟨_, genGroupPackets_eq users packet f env, ?_⟩
  unfold generateGroupPackets
  rw [hf, bind_done (deref_ok f n), bind_done hMembers]
  simp only [genGroupPackets_eq]
  split_ifs
  · rfl
  · rfl

/-- The list of members that an expansion uses: the cached one, or the callback's. -/
def HasMembers (n : Node) (env : Env) (gid domain : Bytes) (ids : List Bytes) : Prop :=
  n.get (groupUsersKey gid domain) = some (List.intercalate [comma] ids) ∨
    n.get (groupUsersKey gid domain) = none ∧ env.groupUsers gid = .ok ids

theorem HasMembers.groupMembers {gid domain : Bytes} {ids : List Bytes}
    (h : HasMembers n env gid domain ids) (hTwo : 1 < ids.length) :
    ∃ n', groupMembers gid domain env n = .done (some (List.intercalate [comma] ids)) n' := by
  unfold Sara.groupMembers
  rw [bind_done (read_apply _ n)]
  rcases h with hCached | ⟨hNone, hCalled⟩
  · rw [hCached]
    exact ⟨n, rfl⟩
  · rw [hNone, hCalled]
    simp only [if_pos hTwo]
    exact ⟨_, rfl⟩

end Expansion

/-! ## Who may send -/

section Membership

theorem prefix_of_append_cons {u a b : Bytes} {c : UInt8} (hc : c ∉ u) (h : u <+: a ++ c :: b) :
    u <+: a := by
  rcases List.prefix_or_prefix_of_prefix h (List.prefix_append a (c :: b)) with hu | ⟨w, rfl⟩
  · exact hu
  · have hw : w <+: c :: b := (List.prefix_append_right_inj a).mp h
    cases w with
    | nil => simp
    | cons d w =>
      obtain ⟨rfl, -⟩ := List.cons_prefix_cons.mp hw
      exact absurd (by simp) hc

/-- A text without the separator stands on one side of it. -/
theorem infix_of_append_cons {u a b : Bytes} {c : UInt8} (hc : c ∉ u) (h : u <:+: a ++ c :: b) :
    u <:+: a ∨ u <:+: b := by
  induction a with
  | nil =>
    rcases List.infix_cons_iff.mp h with hPrefix | hInfix
    · exact .inl (prefix_of_append_cons (a := []) hc hPrefix).isInfix
    · exact .inr hInfix
  | cons x a ih =>
    rcases List.infix_cons_iff.mp h with hPrefix | hInfix
    · exact .inl (prefix_of_append_cons (a := x :: a) hc hPrefix).isInfix
    · rcases ih hInfix with ha | hb
      · exact .inl (List.infix_cons ha)
      · exact .inr hb

theorem infix_intercalate_iff {u : Bytes} {ids : List Bytes} (hu : comma ∉ u) (hIds : ids ≠ []) :
    u <:+: List.intercalate [comma] ids ↔ ∃ id ∈ ids, u <:+: id := by
  induction ids with
  | nil => exact absurd rfl hIds
  | cons x ids ih =>
    cases ids with
    | nil => simp
    | cons y ids =>
      rw [List.intercalate_cons_cons, List.append_assoc, List.singleton_append]
      constructor
      · intro h
        rcases infix_of_append_cons hu h with hx | hRest
        · exact ⟨x, List.mem_cons_self, hx⟩
        · obtain ⟨id, hId, hInfix⟩ := (ih (List.cons_ne_nil y ids)).mp hRest
          exact ⟨id, List.mem_cons_of_mem x hId, hInfix⟩
      · rintro ⟨id, hId, hInfix⟩
        rcases List.mem_cons.mp hId with rfl | hId
        · exact hInfix.trans (List.prefix_append _ _).isInfix
        · have hRest := (ih (List.cons_ne_nil y ids)).mpr ⟨id, hId, hInfix⟩
          exact hRest.trans (((List.suffix_cons _ _).trans (List.suffix_append _ _)).isInfix)

theorem mem_infix_intercalate {u : Bytes} {ids : List Bytes} (h : u ∈ ids) (hu : comma ∉ u) :
    u <:+: List.intercalate [comma] ids :=
  (infix_intercalate_iff hu (List.ne_nil_of_mem h)).mpr ⟨u, h, List.infix_rfl⟩

/-- No list passes the name of the sender off as a member's: not inside another name,
and not across two of them. -/
def Unmistaken (u : Bytes) (ids : List Bytes) : Prop :=
  (comma ∉ u → ∀ id ∈ ids, u <:+: id → u ∈ ids) ∧
    (comma ∈ u → ¬ u <:+: List.intercalate [comma] ids)

theorem unmistaken_iff {u : Bytes} {ids : List Bytes} (hIds : ∀ id ∈ ids, comma ∉ id)
    (hNe : ids ≠ []) :
    Unmistaken u ids ↔ (u <:+: List.intercalate [comma] ids → u ∈ ids) := by
  by_cases hu : comma ∈ u
  · have hNot : u ∉ ids := fun h => hIds u h hu
    simp [Unmistaken, hu, hNot]
  · simp [Unmistaken, hu, infix_intercalate_iff hu hNe]

/-- The check of the sender is exact precisely if its name is not mistaken. -/
theorem membership_exact_iff {packet : Packet} {env : Env} {n : Node} {f : JID} {ids : List Bytes}
    (hFrom : newJID packet.envelope.from_ = .ok f) (hTwo : 1 < ids.length)
    (hIds : ∀ id ∈ ids, comma ∉ id ∧ atSign ∉ id)
    (hMembers : HasMembers n env packet.envelope.gid f.domain ids) :
    (∃ r n', generateGroupPackets packet env n = .done r n' ∧
      ((∃ packets, r = .ok packets) ↔ f.user ∈ ids) ∧
      (f.user ∉ ids → r = .error (text "no_permission"))) ↔ Unmistaken f.user ids := by
  have hNe : ids ≠ [] := List.length_pos_iff.mp (by omega)
  rw [unmistaken_iff (fun id hId => (hIds id hId).1) hNe]
  obtain ⟨n', hFound⟩ := hMembers.groupMembers hTwo
  obtain ⟨packets, -, hEq⟩ := generateGroupPackets_eq hFrom hFound
  rw [hEq]
  constructor
  · rintro ⟨r, m, hr, hIff, -⟩ hInfix
    rw [if_pos hInfix] at hr
    cases hr
    exact hIff.mp ⟨packets, rfl⟩
  · intro hExact
    by_cases hInfix : f.user <:+: List.intercalate [comma] ids
    · rw [if_pos hInfix]
      exact ⟨_, n', rfl, ⟨fun _ => hExact hInfix, fun _ => ⟨packets, rfl⟩⟩,
        fun hNot => absurd (hExact hInfix) hNot⟩
    · have hNot : f.user ∉ ids := fun h => hInfix (mem_infix_intercalate h (hIds _ h).1)
      rw [if_neg hInfix]
      refine ⟨_, n', rfl, ⟨?_, fun h => absurd h hNot⟩, fun _ => rfl⟩
      rintro ⟨_, hOk⟩
      cases hOk

def groupMessage (sender : String) : Packet :=
  { envelope := { id := text "m1", from_ := text sender, type := msgTypeGroupChat, gid := text "g1" } }

def friends : List Bytes := [text "alice", text "bob"]

def friendsEnv : Env := { Env.plain true with groupUsers := fun _ => .ok friends }

def bareNode : Node where
  nodeid := text "node01"
  channel := text "node01:4281"
  sessions _ := none
  sessionMap _ := false
  cleanSession := []
  db := Saradb.Database.start fun _ => none
  router := []
  oflCache _ := none
  published := []

def addressees : Outcome Node (Except Bytes (List Packet)) → Option (List Bytes)
  | .done (.ok packets) _ => some (packets.map (·.envelope.to_))
  | _ => none

theorem part_of_name_admitted : text "lic" ∉ friends ∧
    addressees (generateGroupPackets (groupMessage "lic@a.com") friendsEnv bareNode) =
      some [text "alice@a.com", text "bob@a.com"] := by
  decide +kernel

def aliceJid : JID where
  user := text "alice"
  domain := text "a.com"
  resource := []
  user_at := by decide
  domain_at := by decide
  domain_slash := by decide
  resource_at := by decide
  resource_slash := by decide

theorem membership_exact_alice :
    ∃ r n', generateGroupPackets (groupMessage "alice@a.com") friendsEnv bareNode = .done r n' ∧
      ((∃ packets, r = .ok packets) ↔ aliceJid.user ∈ friends) ∧
      (aliceJid.user ∉ friends → r = .error (text "no_permission")) := by
  have hFrom : newJID (groupMessage "alice@a.com").envelope.from_ = .ok aliceJid := by decide
  have hMembers : HasMembers bareNode friendsEnv (groupMessage "alice@a.com").envelope.gid
      aliceJid.domain friends := .inr ⟨rfl, rfl⟩
  refine (membership_exact_iff hFrom (by decide) (by decide) hMembers).mpr ?_
  unfold Unmistaken
  decide

end Membership

/-! ## Who is sent a copy -/

section Addresses

theorem newJID_member {x d : Bytes} (hx : atSign ∉ x) (hAt : atSign ∉ d) (hSlash : slash ∉ d) :
    ∃ j, newJID (x ++ [atSign] ++ d) = .ok j ∧ j.user = x ∧ j.domain = d := by
  let bare : JID := ⟨x, d, [], hx, hAt, hSlash, List.not_mem_nil, List.not_mem_nil⟩
  exact ⟨bare.withoutResource, bare.newJID_bare, rfl, rfl⟩

theorem memberAddress_eq {x d : Bytes} (hx : atSign ∉ x) (hAt : atSign ∉ d) (hSlash : slash ∉ d) :
    memberAddress d x = x ++ [atSign] ++ d := by
  obtain ⟨j, hj, rfl, rfl⟩ := newJID_member hx hAt hSlash
  simp only [memberAddress, newJIDByUidDomain, hj]
  rfl

theorem forall₂_zipIdx {α β : Type} {R : α → β → Prop} {g : α × Nat → β} {l : List α}
    (h : ∀ x ∈ l, ∀ i, R x (g (x, i))) (k : Nat) : List.Forall₂ R l ((l.zipIdx k).map g) := by
  induction l generalizing k with
  | nil => exact .nil
  | cons x l ih =>
    exact .cons (h x List.mem_cons_self k) (ih (fun y hy => h y (List.mem_cons_of_mem x hy)) (k + 1))

structure CopyFor (packet : Packet) (f : JID) (x : Bytes) (q : Packet) : Prop where
  to_ : q.envelope.to_ = x ++ [atSign] ++ f.domain
  parsed : ∃ j, newJID q.envelope.to_ = .ok j ∧ j.user = x ∧ j.domain = f.domain
  from_ : q.envelope.from_ = packet.envelope.from_
  gid : q.envelope.gid = packet.envelope.gid
  type : q.envelope.type = msgTypeGroupChat

/-- The expansion makes one copy for each member other than the sender, in order. -/
theorem expansion_exact {packet : Packet} {env : Env} {ids : List Bytes} (hTwo : 1 < ids.length)
    (hIds : ∀ id ∈ ids, comma ∉ id ∧ atSign ∉ id) :
    ∀ f, newJID packet.envelope.from_ = .ok f →
      ∃ packets, genGroupPackets (List.intercalate [comma] ids) packet f env = .ok packets ∧
        List.Forall₂ (CopyFor packet f) (ids.filter (· ≠ f.user)) packets := by
  intro f _
  refine ⟨_, genGroupPackets_eq _ packet f env, ?_⟩
  have hNe : ids ≠ [] := List.length_pos_iff.mp (by omega)
  rw [List.splitOn_intercalate comma (fun id hId => (hIds id hId).1) hNe]
  refine forall₂_zipIdx ?_ 0
  intro x hx i
  have hAt := (hIds x (List.mem_filter.mp hx).1).2
  have hTo := memberAddress_eq hAt f.domain_at f.domain_slash
  refine ⟨hTo, ?_, rfl, rfl, rfl⟩
  simp only [hTo]
  exact newJID_member hAt f.domain_at f.domain_slash

theorem expansion_exact_friends :
    ∃ packets, genGroupPackets (text "alice,bob") (groupMessage "alice@a.com") aliceJid friendsEnv =
      .ok packets ∧ List.Forall₂ (CopyFor (groupMessage "alice@a.com") aliceJid) [text "bob"] packets := by
  have hFrom : newJID (groupMessage "alice@a.com").envelope.from_ = .ok aliceJid := by decide
  have hTwo : 1 < friends.length := by decide
  exact expansion_exact hTwo (by decide) aliceJid hFrom

end Addresses

/-! ## What a copy carries -/

section Content

open GoJson Lib.Json

/-- The member of a text that gjson finds, as a value. An absent one is a null. -/
def valueAt (p : Bytes) (name : String) : Except Bytes Value :=
  match Gjson.get p (text name) with
  | none => .ok .null
  | some raw => (parse raw).elim (.error raw) .ok

def payloadOf (p : Bytes) : Except Bytes Value := valueAt p "payload"

def vsnOf (p : Bytes) : Except Bytes Value :=
  match valueAt p "vsn" with
  | .ok (.str []) => .ok .null
  | v => v

structure Bare (q : Packet) : Prop where
  payload : q.payload = none
  entity : q.entity = none
  vsn : q.vsn = []
  delay : q.delay = none
  raw : q.raw = none

variable {O : Outside} {packet q : Packet}

theorem Bare.isText (h : Bare q) :
    IsText (.obj [(text "envelope", .obj (envelopeMembers q.envelope))]) (q.toJson (codec O)) := by
  have hPrint : q.toJson (codec O) =
      print (.obj [(text "envelope", .obj (envelopeMembers q.envelope))]) := by
    rw [Packet.toJson, h.raw]
    simp [codec, Except.toOption, marshalPacket, baseTexts, h.payload, h.entity, h.vsn, h.delay,
      writeObject, writeMembers, print, printMembers]
  rw [hPrint]
  refine (spells_print_obj (n := 2) ?_).isText
  intro m hm
  cases List.mem_singleton.mp hm
  exact ⟨body_name _ rfl, spells_envelope q.envelope⟩

theorem Bare.valueAt (h : Bare q) {name : String} (hName : text "envelope" ≠ text name) :
    valueAt (q.toJson (codec O)) name = .ok .null := by
  have hText : IsText _ (q.toJson (codec O)) := h.isText
  have hFinds := Gjson.finds_get hText (text name)
  have hNone : [(text "envelope", Value.obj (envelopeMembers q.envelope))].find?
      (Gjson.isNamed (text name)) = none := by
    have hKey : Gjson.keyName (text "envelope") = text "envelope" := rfl
    simp [Gjson.isNamed, hKey, hName]
  unfold Sara.valueAt
  cases hGet : Gjson.get (q.toJson (codec O)) (text name) with
  | none => rfl
  | some raw =>
    rw [hGet] at hFinds
    obtain ⟨m, _, hm, -⟩ := hFinds
    rw [hNone] at hm
    cases hm

theorem Bare.content (h : Bare q) :
    payloadOf (q.toJson (codec O)) = .ok .null ∧ vsnOf (q.toJson (codec O)) = .ok .null := by
  have hVsn : Sara.valueAt (q.toJson (codec O)) "vsn" = .ok .null := h.valueAt (by decide)
  refine ⟨h.valueAt (by decide), ?_⟩
  rw [vsnOf, hVsn]

theorem bare_copies {C : Codec} {p users : Bytes} {f : JID} {env env' : Env} {packets : List Packet}
    (hPacket : newPacket C p = .ok packet)
    (h : genGroupPackets users (stamped packet env') f env = .ok packets) (hq : q ∈ packets) :
    Bare q := by
  rw [genGroupPackets_eq] at h
  cases h
  obtain ⟨toUser, -, rfl⟩ := List.mem_map.mp hq
  rw [newPacket_eq hPacket]
  exact ⟨rfl, rfl, rfl, rfl, rfl⟩

/-- The ids that the expansion goes through, in the list as it is cached. -/
def memberIds (n : Node) (env : Env) (gid domain : Bytes) : Option (List Bytes) :=
  match n.get (groupUsersKey gid domain), env.groupUsers gid with
  | some users, _ => some (users.splitOn comma)
  | none, .ok ulist => if 1 < ulist.length then some ((List.intercalate [comma] ulist).splitOn comma) else none
  | none, .error _ => none

theorem memberIds_of_groupMembers {gid domain users : Bytes} {env : Env} {n n' : Node}
    (h : groupMembers gid domain env n = .done (some users) n') :
    memberIds n env gid domain = some (users.splitOn comma) := by
  unfold groupMembers at h
  rw [bind_done (read_apply _ n)] at h
  unfold memberIds
  cases hCached : n.get (groupUsersKey gid domain) with
  | some cached =>
    rw [hCached] at h
    cases h
    rfl
  | none =>
    rw [hCached] at h
    cases hCalled : env.groupUsers gid with
    | error e =>
      rw [hCalled] at h
      cases h
    | ok ulist =>
      rw [hCalled] at h
      by_cases hTwo : 1 < ulist.length
      · simp only [if_pos hTwo] at h ⊢
        cases h
        rfl
      · simp only [if_neg hTwo] at h
        cases h

theorem genGroupPackets_eq_nil_iff {users : Bytes} {f : JID} {env : Env} {packets : List Packet}
    (h : genGroupPackets users packet f env = .ok packets) :
    packets = [] ↔ ∀ id ∈ users.splitOn comma, id = f.user := by
  rw [genGroupPackets_eq] at h
  cases h
  rw [List.map_eq_nil_iff, List.zipIdx_eq_nil_iff, List.filter_eq_nil_iff]
  simp

/-- The copies carry the content of the message exactly if there is none, or if there is no
member but the sender. -/
theorem content_kept_iff {p : Bytes} {env : Env} {n n' : Node} {packets : List Packet}
    (hPacket : newPacket (codec O) p = .ok packet)
    (h : generateGroupPackets (stamped packet env) env n = .done (.ok packets) n') :
    (∀ q ∈ packets, payloadOf (q.toJson (codec O)) = payloadOf p ∧
      vsnOf (q.toJson (codec O)) = vsnOf p) ↔
    (∃ f ids, newJID packet.envelope.from_ = .ok f ∧
      memberIds n env packet.envelope.gid f.domain = some ids ∧ ∀ id ∈ ids, id = f.user) ∨
    payloadOf p = .ok .null ∧ vsnOf p = .ok .null := by
  obtain ⟨f, users, hFrom, hUsers, -, hMade⟩ := generateGroupPackets_ok h
  have hIds := memberIds_of_groupMembers hUsers
  have hContent (q : Packet) (hq : q ∈ packets) := (bare_copies hPacket hMade hq).content (O := O)
  constructor
  · intro hKept
    cases packets with
    | nil => exact .inl ⟨f, _, hFrom, hIds, (genGroupPackets_eq_nil_iff hMade).mp rfl⟩
    | cons q packets =>
      have hq := hContent q List.mem_cons_self
      have hSame := hKept q List.mem_cons_self
      exact .inr ⟨hSame.1.symm.trans hq.1, hSame.2.symm.trans hq.2⟩
  · rintro (⟨f', ids, hFrom', hIds', hOnly⟩ | ⟨hPayload, hVsn⟩) q hq
    · cases hFrom.symm.trans hFrom'
      cases hIds.symm.trans hIds'
      rw [(genGroupPackets_eq_nil_iff hMade).mpr hOnly] at hq
      cases hq
    · rw [hPayload, hVsn]
      exact hContent q hq

def greeting : Bytes :=
  writeObject [(text "envelope", print (.obj (envelopeMembers (groupMessage "alice@a.com").envelope))),
    (text "payload", print (.str (text "hello")))]

def written (O : Outside) : Outcome Node (Except Bytes (List Packet)) → List Bytes
  | .done (.ok packets) _ => packets.map (·.toJson (codec O))
  | _ => []

theorem greeting_lost :
    (payloadOf greeting).toOption.map print = some (print (.str (text "hello"))) ∧
      ((newPacket (codec outside) greeting).toOption.map fun packet =>
        (written outside (generateGroupPackets (stamped packet friendsEnv) friendsEnv bareNode)).map
          fun q => (payloadOf q).toOption.map print) = some [some (print .null)] := by
  decide +kernel

theorem content_kept_bare :
    ∃ packets n', generateGroupPackets
        (stamped (PlainJson.received (groupMessage "alice@a.com").envelope) friendsEnv) friendsEnv bareNode =
          .done (.ok packets) n' ∧
      ∀ q ∈ packets,
        payloadOf (q.toJson (codec outside)) =
          payloadOf (PlainJson.writeFrame (groupMessage "alice@a.com").envelope) ∧
        vsnOf (q.toJson (codec outside)) =
          vsnOf (PlainJson.writeFrame (groupMessage "alice@a.com").envelope) := by
  have hPacket : newPacket (codec outside) (PlainJson.writeFrame (groupMessage "alice@a.com").envelope) =
      .ok (PlainJson.received (groupMessage "alice@a.com").envelope) :=
    Prog.toOption_eq_some_iff.mp (by decide +kernel)
  have hFrom : newJID (stamped (PlainJson.received (groupMessage "alice@a.com").envelope)
      friendsEnv).envelope.from_ = .ok aliceJid := by decide
  have hMembers : HasMembers bareNode friendsEnv (text "g1") aliceJid.domain friends := .inr ⟨rfl, rfl⟩
  obtain ⟨n', hFound⟩ := hMembers.groupMembers (by decide)
  obtain ⟨packets, -, hDone⟩ := generateGroupPackets_eq hFrom hFound
  rw [if_pos (by decide)] at hDone
  refine ⟨packets, n', hDone, (content_kept_iff hPacket hDone).mpr (.inr ⟨?_, ?_⟩)⟩
  · have hNone : Gjson.get (PlainJson.writeFrame (groupMessage "alice@a.com").envelope) (text "payload") =
        none := by decide +kernel
    rw [payloadOf, valueAt, hNone]
  · have hNone : Gjson.get (PlainJson.writeFrame (groupMessage "alice@a.com").envelope) (text "vsn") =
        none := by decide +kernel
    rw [vsnOf, valueAt, hNone]

end Content

end Sara
