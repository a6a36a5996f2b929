import Sara.Types.GoJson
import Sara.Types.PlainJson
import Sara.Core.Frame

/-! # The two readers of a packet

A received packet is read by `newPacket`, which looks for the envelope with gjson,
and a stored one by `newBasePacket`, which decodes the whole text. Where the first
succeeds, the second finds the same envelope exactly on the texts of one object
whose members have their types, and in which all members that pass for the
envelope add up to the first one spelled so.
-/

namespace Sara.GoJson

open Lib Lib.Json Saradb

set_option autoImplicit false

section Members

/-- The field of a packet that a member is read into. -/
def packetField (m : Bytes × Value) : Option Bytes := (fieldOf packetFields (unquote m.1)).map (·.1)

def isString : Value → Bool
  | .null | .str _ => true
  | _ => false

def isEntity : Value → Bool
  | .null => true
  | .obj ms => ms.all fun m => (fieldOf entityFields (unquote m.1)).isNone || isString m.2
  | _ => false

/-- The value has the type of the field it is read into, the envelope apart. -/
def fits (m : Bytes × Value) : Bool :=
  (packetField m = some (text "payload") → (numbers m.2).all inRange) ∧
    (packetField m = some (text "entity") → isEntity m.2) ∧
    (packetField m = some (text "vsn") → isString m.2)

/-- All members read as the envelope, one over the other. -/
def overlay (ms : List (Bytes × Value)) (e : Envelope) : Option Envelope :=
  (ms.filter fun m => packetField m = some (text "envelope")).foldlM
    (fun e m => setStruct envelopeFields m.2 e) e

/-- One well-formed object, with values of the right types, in which the envelopes
found add up to the first member of that very name. -/
def Consistent (p : Bytes) : Prop :=
  ∃ ms m, IsText (.obj ms) p ∧ ms.find? (Gjson.isNamed (text "envelope")) = some m ∧
    overlay ms {} = setStruct envelopeFields m.2 {} ∧ ∀ m ∈ ms, fits m = true

theorem fieldOf_mem {α : Type} {fields : List (Field α)} {key : Bytes} {f : Field α}
    (h : fieldOf fields key = some f) : f ∈ fields := by
  rcases Option.or_eq_some_iff.mp h with h | ⟨-, h⟩ <;> exact List.mem_of_find?_eq_some h

theorem isSome_setString {α : Type} (set : Bytes → α → α) (v : Value) (a : α) :
    (setString set v a).isSome = isString v := by
  cases v <;> rfl

theorem isSome_setMember_entity (m : Bytes × Value) (a : Entity) :
    (setMember entityFields a m).isSome =
      ((fieldOf entityFields (unquote m.1)).isNone || isString m.2) := by
  unfold setMember
  cases hField : fieldOf entityFields (unquote m.1) with
  | none => rfl
  | some f =>
    have hMem := fieldOf_mem hField
    simp only [entityFields, List.mem_cons, List.not_mem_nil, or_false] at hMem
    simp only [Option.isNone_some, Bool.false_or]
    rcases hMem with rfl | rfl <;> simp only [isSome_setString]

theorem isSome_foldlM_entity (ms : List (Bytes × Value)) (a : Entity) :
    (ms.foldlM (setMember entityFields) a).isSome =
      ms.all fun m => (fieldOf entityFields (unquote m.1)).isNone || isString m.2 := by
  induction ms generalizing a with
  | nil => rfl
  | cons m ms ih =>
    have hm := isSome_setMember_entity m a
    rw [List.foldlM_cons, List.all_cons, ← hm]
    cases hSet : setMember entityFields a m with
    | none => rfl
    | some a' => simpa using ih a'

theorem isSome_setEntity (v : Value) (p : BasePacket) : (setEntity v p).isSome = isEntity v := by
  cases v with
  | obj ms =>
    simp only [setEntity, setStruct, Option.isSome_map, isSome_foldlM_entity]
    rfl
  | null | bool _ | num _ | str _ | arr _ => rfl

theorem isSome_setPayload (v : Value) (p : BasePacket) :
    (setPayload v p).isSome = (numbers v).all inRange := by
  unfold setPayload
  split
  · rfl
  · cases (numbers v).all inRange <;> rfl

theorem envelope_setPayload {v : Value} {p p' : BasePacket} (h : setPayload v p = some p') :
    p'.envelope = p.envelope := by
  unfold setPayload at h
  split at h
  · cases h; rfl
  · split_ifs at h
    cases h; rfl

theorem envelope_setEntity {v : Value} {p p' : BasePacket} (h : setEntity v p = some p') :
    p'.envelope = p.envelope := by
  unfold setEntity at h
  split at h
  · cases h; rfl
  · obtain ⟨e, -, rfl⟩ := Option.map_eq_some_iff.mp h
    rfl

theorem envelope_setVsn {v : Value} {p p' : BasePacket}
    (h : setString (fun s (p : BasePacket) => { p with vsn := s }) v p = some p') :
    p'.envelope = p.envelope := by
  cases v <;> cases h <;> rfl

/-- A setter that leaves the envelope alone succeeds or not whatever the envelope is. -/
theorem exists_keeps_iff {r : Option BasePacket} {p : BasePacket} {c : Bool} (hSome : r.isSome = c)
    (hKeeps : ∀ p', r = some p' → p'.envelope = p.envelope) (e : Envelope) :
    (∃ p', r = some p' ∧ p'.envelope = e) ↔ p.envelope = e ∧ c = true := by
  rw [← hSome]
  constructor
  · rintro ⟨p', rfl, rfl⟩
    exact ⟨(hKeeps p' rfl).symm, rfl⟩
  · rintro ⟨rfl, h⟩
    obtain ⟨p', rfl⟩ := Option.isSome_iff_exists.mp h
    exact ⟨p', rfl, hKeeps p' rfl⟩

theorem overlay_cons (m : Bytes × Value) (ms : List (Bytes × Value)) (e : Envelope) :
    overlay (m :: ms) e = (overlay [m] e).bind (overlay ms) := by
  unfold overlay
  by_cases hm : packetField m = some (text "envelope")
  · simp [hm]
  · simp [hm]

theorem exists_setMember_iff (m : Bytes × Value) (p : BasePacket) (e : Envelope) :
    (∃ p', setMember packetFields p m = some p' ∧ p'.envelope = e) ↔
      overlay [m] p.envelope = some e ∧ fits m = true := by
  have hNames : [text "envelope", text "payload", text "entity", text "vsn"].Nodup := by decide
  simp only [List.nodup_cons, List.mem_cons, List.not_mem_nil, or_false, not_or] at hNames
  obtain ⟨⟨hEP, hEE, hEV⟩, ⟨hPE, hPV⟩, hNV, -⟩ := hNames
  cases hField : fieldOf packetFields (unquote m.1) with
  | none => simp [setMember, overlay, fits, packetField, hField]
  | some f =>
    have hMem := fieldOf_mem hField
    have hSet : setMember packetFields p m = f.2 m.2 p := by simp only [setMember, hField]
    have hName : packetField m = some f.1 := by simp only [packetField, hField, Option.map_some]
    simp only [packetFields, List.mem_cons, List.not_mem_nil, or_false] at hMem
    rw [hSet]
    rcases hMem with rfl | rfl | rfl | rfl
    · simp [overlay, fits, hName, hEP, hEE, hEV]
    · rw [exists_keeps_iff (isSome_setPayload m.2 p) fun _ => envelope_setPayload]
      simp [overlay, fits, hName, hPE, hPV, Ne.symm hEP]
    · rw [exists_keeps_iff (isSome_setEntity m.2 p) fun _ => envelope_setEntity]
      simp [overlay, fits, hName, hNV, Ne.symm hEE, Ne.symm hPE]
    · rw [exists_keeps_iff (isSome_setString _ m.2 p) fun _ => envelope_setVsn]
      simp [overlay, fits, hName, Ne.symm hEV, Ne.symm hPV, Ne.symm hNV]

/-- Decoding a whole packet goes through exactly if every member fits, and the
envelope it ends with is the overlay of those found. -/
theorem exists_foldlM_iff (ms : List (Bytes × Value)) (p : BasePacket) (e : Envelope) :
    (∃ p', ms.foldlM (setMember packetFields) p = some p' ∧ p'.envelope = e) ↔
      overlay ms p.envelope = some e ∧ ∀ m ∈ ms, fits m = true := by
  induction ms generalizing p with
  | nil => simp [overlay]
  | cons m ms ih =>
    rw [overlay_cons, List.forall_mem_cons]
    constructor
    · rintro ⟨p'', hFold, hEnv⟩
      rw [List.foldlM_cons] at hFold
      obtain ⟨p', hSet, hRest⟩ := Option.bind_eq_some_iff.mp hFold
      obtain ⟨hOverlay, hFits⟩ := (exists_setMember_iff m p p'.envelope).mp ⟨p', hSet, rfl⟩
      obtain ⟨hOverlay', hFits'⟩ := (ih p').mp ⟨p'', hRest, hEnv⟩
      exact ⟨Option.bind_eq_some_iff.mpr ⟨_, hOverlay, hOverlay'⟩, hFits, hFits'⟩
    · rintro ⟨hOverlay, hFits, hFits'⟩
      obtain ⟨e', hOverlay, hOverlay'⟩ := Option.bind_eq_some_iff.mp hOverlay
      obtain ⟨p', hSet, rfl⟩ := (exists_setMember_iff m p e').mpr ⟨hOverlay, hFits⟩
      obtain ⟨p'', hRest, hEnv⟩ := (ih p').mpr ⟨hOverlay', hFits'⟩
      refine ⟨p'', ?_, hEnv⟩
      rw [List.foldlM_cons, hSet]
      exact hRest

end Members

section Agreement

variable {O : Outside} {p : Bytes} {packet : Packet}

theorem ok_of_elim {α : Type} {o : Option α} {e : Bytes} {a : α}
    (h : o.elim (Except.error e) .ok = .ok a) : o = some a := by
  cases o with
  | none => cases h
  | some b => cases h; rfl

theorem newPacket_ok (h : newPacket (codec O) p = .ok packet) :
    ∃ raw, Gjson.get p (text "envelope") = some raw ∧ unmarshalEnvelope raw = some packet.envelope := by
  unfold newPacket at h
  cases hGet : (codec O).get p (text "envelope") with
  | none => rw [hGet] at h; cases h
  | some raw =>
    rw [hGet] at h
    cases hRead : unmarshalEnvelope raw with
    | none => simp [codec, hRead] at h; cases h
    | some e =>
      simp [codec, hRead] at h
      cases h
      exact ⟨raw, hGet, hRead⟩

/-- gjson and `encoding/json` read the same value out of a well-formed text. -/
theorem unmarshal_first (h : newPacket (codec O) p = .ok packet) {ms : List (Bytes × Value)}
    (hText : IsText (.obj ms) p) : ∃ m, ms.find? (Gjson.isNamed (text "envelope")) = some m ∧
      setStruct envelopeFields m.2 {} = some packet.envelope := by
  obtain ⟨raw, hGet, hRead⟩ := newPacket_ok h
  have hFinds := Gjson.finds_get hText (text "envelope")
  rw [hGet] at hFinds
  obtain ⟨m, n, hm, hSpells⟩ := hFinds
  refine ⟨m, hm, ?_⟩
  rw [unmarshalEnvelope, parse_eq_some.mpr hSpells.isText] at hRead
  exact hRead

theorem newBasePacket_ok {b : BasePacket} (h : newBasePacket (codec O) p = .ok b) :
    ∃ v, IsText v p ∧ setStruct packetFields v { envelope := {} } = some b := by
  have hRead : unmarshalBasePacket p = some b := ok_of_elim h
  obtain ⟨v, hv, hSet⟩ := Option.bind_eq_some_iff.mp hRead
  exact ⟨v, parse_eq_some.mp hv, hSet⟩

theorem agree_iff (h : newPacket (codec O) p = .ok packet) :
    (∃ b, newBasePacket (codec O) p = .ok b ∧ b.envelope = packet.envelope) ↔ Consistent p := by
  constructor
  · rintro ⟨b, hb, hEnv⟩
    obtain ⟨v, hText, hSet⟩ := newBasePacket_ok hb
    cases v with
    | null =>
      -- a lone null holds no envelope for gjson to find
      obtain ⟨raw, hGet, -⟩ := newPacket_ok h
      rw [Gjson.get_null hText] at hGet
      cases hGet
    | obj ms =>
      obtain ⟨m, hm, hFirst⟩ := unmarshal_first h hText
      obtain ⟨hOverlay, hFits⟩ := (exists_foldlM_iff ms _ packet.envelope).mp ⟨b, hSet, hEnv⟩
      exact ⟨ms, m, hText, hm, hOverlay.trans hFirst.symm, hFits⟩
    | bool _ | num _ | str _ | arr _ => cases hSet
  · rintro ⟨ms, m, hText, hm, hOverlay, hFits⟩
    obtain ⟨m', hm', hFirst⟩ := unmarshal_first h hText
    rw [hm] at hm'
    cases hm'
    obtain ⟨b, hSet, hEnv⟩ :=
      (exists_foldlM_iff ms { envelope := {} } packet.envelope).mpr ⟨hOverlay.trans hFirst, hFits⟩
    have hRead : unmarshalBasePacket p = some b := by
      rw [unmarshalBasePacket, parse_eq_some.mpr hText]
      exact hSet
    refine ⟨b, ?_, hEnv⟩
    simp only [newBasePacket, codec, hRead, Option.elim_some]

/-- What `newPacket` accepts is read again with the same envelope exactly if the
text is consistent, and a consistent text stored for a user comes with the login. -/
theorem readers_agree_iff (h : newPacket (codec O) p = .ok packet) :
    ((∃ b, newBasePacket (codec O) p = .ok b ∧ b.envelope = packet.envelope) ↔ Consistent p) ∧
      (Consistent p → ∀ (n n' : Node) (x key : Bytes) (s : Session) (j : JID) (q reply : Packet),
        n.sessions x = some s → newJID s.status.jid = .ok j →
        Redis.hget n.db.store (indexKey j.toOfflineKey) key = some (packet.toJson (codec O)) →
        loginReply (codec O) x q n = .done reply n' →
        ∃ d ∈ reply.delay, ∃ b ∈ d.packets, b.envelope = packet.envelope) := by
  refine ⟨agree_iff h, ?_⟩
  intro hConsistent n n' x key s j q reply hs hj hStored hReply
  obtain ⟨b, hb, hEnv⟩ := (agree_iff h).mpr hConsistent
  rw [loginReply_eq hs hj] at hReply
  cases hReply
  have hJson : packet.toJson (codec O) = p := by rw [Packet.toJson, newPacket_raw h]
  rw [hJson] at hStored
  have hMem : b ∈ offlinePackets (codec O) n j := by
    refine List.mem_filterMap.mpr ⟨p, (Redis.mem_of_hget hStored).2, ?_⟩
    rw [hb]
    rfl
  exact ⟨_, rfl, b, hMem, hEnv⟩

def outside : Outside where
  describe _ := text "unexpected end of JSON input"
  marshalStatus := PlainJson.codec.marshalStatus
  unmarshalStatus := PlainJson.codec.unmarshalStatus

def toBob : Envelope :=
  { id := text "m1", from_ := text "alice@a.com", to_ := text "bob@a.com", type := msgTypeChat }

/-- The second member passes for the envelope of the packet too. -/
def twoEnvelopes : Bytes :=
  writeObject [(text "envelope", print (.obj (envelopeMembers toBob))),
    (text "Envelope", print (.obj [stringMember "from" (text "carol@a.com")]))]

theorem readers_disagree :
    ((newPacket (codec outside) (PlainJson.writeFrame toBob ++ text " .")).toOption.isSome ∧
      (newBasePacket (codec outside) (PlainJson.writeFrame toBob ++ text " .")).toOption = none) ∧
    (newPacket (codec outside) twoEnvelopes).toOption.map (·.envelope) = some toBob ∧
      (newBasePacket (codec outside) twoEnvelopes).toOption.map (·.envelope) =
        some { toBob with from_ := text "carol@a.com" } := by
  decide +kernel

theorem readers_agree_toBob :
    newPacket (codec outside) (PlainJson.writeFrame toBob) = .ok (PlainJson.received toBob) ∧
      Consistent (PlainJson.writeFrame toBob) := by
  have h : newPacket (codec outside) (PlainJson.writeFrame toBob) = .ok (PlainJson.received toBob) :=
    Prog.toOption_eq_some_iff.mp (by decide +kernel)
  have hBase : newBasePacket (codec outside) (PlainJson.writeFrame toBob) = .ok { envelope := toBob } :=
    Prog.toOption_eq_some_iff.mp (by decide +kernel)
  exact ⟨h, (readers_agree_iff h).1.mp ⟨_, hBase, rfl⟩⟩

end Agreement

end Sara.GoJson
