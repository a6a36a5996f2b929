import Sara.Core.Decoders
import Sara.Core.Session

/-! # Envelopes on the wire

A packet the server made itself is written field by field, and the reader finds
its envelope again. A packet it received is sent on as the bytes it came in, so
what the server put into the envelope since then stays behind.
-/

namespace Sara.GoJson

open Lib Lib.Json

set_option autoImplicit false

/-- The packet objects that are routed or sent as answers. -/
inductive Outgoing (O : Outside) : Packet → Prop where
  | received {frame : Bytes} {packet : Packet} (env : Env) :
      newPacket (codec O) frame = .ok packet → Outgoing O (stamped packet env)
  | group {users : Bytes} {packet q : Packet} {fromJid : JID} {env : Env} {packets : List Packet} :
      genGroupPackets users packet fromJid env = .ok packets → q ∈ packets → Outgoing O q
  | sysNotify (id msg : Bytes) : Outgoing O (newPacketSysNotify id msg)
  | authFail (id msg : Bytes) : Outgoing O (newPacketAuthFail id msg)
  | authSuccess (id : Bytes) : Outgoing O (newPacketAuthSuccess id)
  | opened (id : Bytes) (packets : List BasePacket) :
      Outgoing O ((newPacketAuthSuccess id).addDelay packets)
  | ack (id timestamp13 : Bytes) : Outgoing O (newPacketAck id timestamp13)

def Utf8 (e : Envelope) : Prop :=
  ∀ s ∈ [e.id, e.jid, e.from_, e.to_, e.ct, e.pwd, e.gid], isUtf8 s = true

theorem writable_of_utf8 {e : Envelope} (h : Utf8 e) (hType : e.type < 2 ^ 64) (hAck : e.ack < 2 ^ 64) :
    Writable e := by
  simp only [Utf8, List.forall_mem_cons] at h
  obtain ⟨hId, hJid, hFrom, hTo, hCt, hPwd, hGid, -⟩ := h
  exact ⟨hId, hJid, hFrom, hTo, hType, hAck, hCt, hPwd, hGid⟩

variable {O : Outside} {q : Packet}

/-- A packet without the bytes of a client is read back as it was written. -/
theorem newPacket_toJson (hRaw : q.raw = none) (h : Writable q.envelope) :
    ∃ r, newPacket (codec O) (q.toJson (codec O)) = .ok r ∧ r.envelope = q.envelope := by
  have hJson : q.toJson (codec O) = marshalPacket q := by
    rw [Packet.toJson, hRaw]
    rfl
  refine ⟨{ envelope := q.envelope, raw := some (marshalPacket q) }, ?_, rfl⟩
  have hGet : (codec O).get (marshalPacket q) (text "envelope") = _ := get_marshalPacket q
  have hRead : (codec O).unmarshalEnvelope (print (.obj (envelopeMembers q.envelope))) =
      .ok q.envelope := by
    simp only [codec, unmarshalEnvelope_print h, Option.elim_some]
  rw [hJson, newPacket, hGet]
  simp only [hRead]
  rfl

theorem Outgoing.cases_raw (h : Outgoing O q) :
    (∃ frame packet env, newPacket (codec O) frame = .ok packet ∧ q = stamped packet env) ∨
      q.raw = none ∧ q.envelope.type ≤ msgTypeSystem ∧ q.envelope.ack = 0 := by
  cases h with
  | received env hPacket => exact .inl ⟨_, _, env, hPacket, rfl⟩
  | group hPackets hq =>
    rw [genGroupPackets_eq] at hPackets
    cases hPackets
    obtain ⟨toUser, -, rfl⟩ := List.mem_map.mp hq
    exact .inr ⟨rfl, Nat.le_of_ble_eq_true rfl, rfl⟩
  | sysNotify | authFail | authSuccess | opened | ack => exact .inr ⟨rfl, Nat.le_of_ble_eq_true rfl, rfl⟩

/-- A packet keeps its envelope on the wire exactly if the bytes it is sent as, in
case a client wrote them, carry the time the server put into it. -/
theorem envelope_kept_iff (h : Outgoing O q) (hUtf8 : q.raw = none → Utf8 q.envelope) :
    (∃ r, newPacket (codec O) (q.toJson (codec O)) = .ok r ∧ r.envelope = q.envelope) ↔
      ∀ frame ∈ q.raw, ∃ r, newPacket (codec O) frame = .ok r ∧ r.envelope.ct = q.envelope.ct := by
  rcases h.cases_raw with ⟨frame, packet, env, hPacket, rfl⟩ | ⟨hRaw, hType, hAck⟩
  · have hFrame : packet.raw = some frame := newPacket_raw hPacket
    have hRaw : (stamped packet env).raw = some frame := hFrame
    have hJson : (stamped packet env).toJson (codec O) = frame := by rw [Packet.toJson, hRaw]
    rw [hJson, hRaw]
    constructor
    · rintro ⟨r, hr, hEnv⟩ _ ⟨⟩
      exact ⟨r, hr, by rw [hEnv]⟩
    · intro hKept
      obtain ⟨r, hr, hCt⟩ := hKept frame rfl
      rw [hPacket] at hr
      cases hr
      refine ⟨packet, hPacket, ?_⟩
      simp only [stamped] at hCt ⊢
      rw [← hCt]
  · constructor
    · intro _ frame hFrame
      rw [hRaw] at hFrame
      cases hFrame
    · intro _
      have hSmall : msgTypeSystem < 2 ^ 64 := by decide
      refine newPacket_toJson hRaw (writable_of_utf8 (hUtf8 hRaw) (hType.trans_lt hSmall) ?_)
      rw [hAck]
      decide

/-- A message of a client that says nothing of the time is sent on without it. -/
theorem time_not_sent : Outgoing outside (stamped (PlainJson.received toBob) (Env.plain true)) ∧
    (newPacket (codec outside) ((stamped (PlainJson.received toBob) (Env.plain true)).toJson
      (codec outside))).toOption.map (·.envelope.ct) = some [] ∧
    (stamped (PlainJson.received toBob) (Env.plain true)).envelope.ct = text "1473755000000" := by
  have hPacket : newPacket (codec outside) (PlainJson.writeFrame toBob) = .ok (PlainJson.received toBob) :=
    Prog.toOption_eq_some_iff.mp (by decide +kernel)
  exact ⟨.received _ hPacket, by decide +kernel⟩

def refusal : Packet := newPacketAuthFail (text "m1") failToken

theorem envelope_kept_refusal : Outgoing outside refusal ∧
    ∃ r, newPacket (codec outside) (refusal.toJson (codec outside)) = .ok r ∧
      r.envelope = refusal.envelope := by
  have hOutgoing : Outgoing outside refusal := .authFail _ _
  have hUtf8 : Utf8 refusal.envelope := by
    unfold Utf8
    decide +kernel
  refine ⟨hOutgoing, (envelope_kept_iff hOutgoing fun _ => hUtf8).mpr ?_⟩
  intro frame hFrame
  cases hFrame

end Sara.GoJson
