import Sara.Types.Jid

/-! # Packets and session records

The two JSON readers and the JSON writer are library code. They enter as the
fields of `Codec`; a result that relies on one of their documented laws names
the law as a hypothesis. `newPacket` reads the envelope only and keeps the raw
bytes, so payload and version of a received packet stay unset.
-/

namespace Sara

set_option autoImplicit false

structure Envelope where
  id : Bytes := []
  jid : Bytes := []
  from_ : Bytes := []
  to_ : Bytes := []
  type : Nat := 0
  ack : Nat := 0
  ct : Bytes := []
  pwd : Bytes := []
  gid : Bytes := []
deriving DecidableEq

structure Entity where
  result : Bytes
  reason : Bytes
deriving DecidableEq

structure BasePacket where
  envelope : Envelope
  payload : Option Bytes := none
  entity : Option Entity := none
  vsn : Bytes := []
deriving DecidableEq

structure Delay where
  total : Nat
  packets : List BasePacket
deriving DecidableEq

structure Packet extends BasePacket where
  delay : Option Delay := none
  raw : Option Bytes := none
deriving DecidableEq

inductive Status where
  | conn
  | login
  | close
deriving DecidableEq

structure SessionStatus where
  sid : Bytes
  jid : Bytes
  status : Status
  nodeid : Bytes
  channel : Bytes
  ct : Int
deriving DecidableEq

/-- The JSON functions the server calls. `get` answers with the raw text of the
value at a path, `unmarshalStatus` with whatever fields it could fill. -/
structure Codec where
  get : Bytes → Bytes → Option Bytes
  unmarshalEnvelope : Bytes → Except Bytes Envelope
  unmarshalBasePacket : Bytes → Except Bytes BasePacket
  marshalPacket : Packet → Except Bytes Bytes
  marshalStatus : SessionStatus → Bytes
  unmarshalStatus : Bytes → SessionStatus

namespace Packet

def addDelay (p : Packet) (packets : List BasePacket) : Packet :=
  { p with delay := some { total := packets.length, packets := packets } }

def toJson (C : Codec) (p : Packet) : Bytes :=
  match p.raw with
  | some raw => raw
  | none => (C.marshalPacket p).toOption.getD []

end Packet

def newBasePacket (C : Codec) (jsonData : Bytes) : Except Bytes BasePacket :=
  C.unmarshalBasePacket jsonData

def newPacket (C : Codec) (jsonData : Bytes) : Except Bytes Packet :=
  match C.get jsonData (text "envelope") with
  | none => .error (text "error_packet")
  | some envelopeRaw =>
    (C.unmarshalEnvelope envelopeRaw).map fun envelope =>
      { envelope := envelope, raw := some jsonData }

def newPacketWithEntity (id result reason : Bytes) (msgtype : Nat) : Packet :=
  { envelope := { id := id, type := msgtype }, entity := some { result := result, reason := reason } }

def newPacketSysNotify (id msg : Bytes) : Packet :=
  newPacketWithEntity id (text "sys_notify") msg msgTypeSystem

def newPacketAuthFail (id msg : Bytes) : Packet :=
  newPacketWithEntity id (text "error") msg msgTypeOpenSession

def newPacketAuthSuccess (id : Bytes) : Packet :=
  newPacketWithEntity id (text "ok") [] msgTypeOpenSession

def newPacketAck (id timestamp13 : Bytes) : Packet :=
  { envelope := { id := id, type := msgTypeState, ct := timestamp13 } }

/-- A received packet is its envelope and its bytes. -/
theorem newPacket_eq {C : Codec} {jsonData : Bytes} {p : Packet} (h : newPacket C jsonData = .ok p) :
    p = { envelope := p.envelope, raw := some jsonData } := by
  unfold newPacket at h
  split at h
  · cases h
  · rename_i envelopeRaw _
    cases hEnvelope : C.unmarshalEnvelope envelopeRaw with
    | error e => rw [hEnvelope] at h; cases h
    | ok envelope => rw [hEnvelope] at h; cases h; rfl

theorem newPacket_raw {C : Codec} {jsonData : Bytes} {p : Packet}
    (h : newPacket C jsonData = .ok p) : p.raw = some jsonData := by
  rw [newPacket_eq h]

end Sara
