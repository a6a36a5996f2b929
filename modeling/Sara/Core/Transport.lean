import Sara.Core.Frame
import Sara.Core.ReadLoop
import Sara.Types.PlainJson

/-! # One message, one frame

A message reaches the server as a frame of a TCP stream or as a WebSocket message, and is
relayed as it came, with a delimiter behind it. The framing of the peer relies on there
being no delimiter and no placeholder within the message. A TCP frame has neither; of a
WebSocket message nobody looks at more than the envelope.
-/

namespace Sara

open Lib Lib.Prog Lib.Framing

set_option autoImplicit false

inductive Transport where
  | tcp
  | ws
deriving DecidableEq

def Transport.recv : Transport → List Bytes → List Bytes
  | .tcp, chunks => (Decoder.recv chunks).1
  | .ws, messages => messages.filter (· ≠ [])

/-- What `WritePacket` sends. A WebSocket needs no delimiter, and shows the two signals as
text. -/
def Transport.writePacket : Transport → Bytes → Bytes
  | .tcp, packet => packet
  | .ws, packet =>
    let r := packet.dropLast
    if r = [heartBeat] then text "\\02" else if r = [killSignal] then text "\\03" else r

theorem Transport.ne_nil_of_mem {t : Transport} {reads : List Bytes} {m : Bytes}
    (h : m ∈ t.recv reads) : m ≠ [] := by
  cases t with
  | tcp => exact ((Decoder.kept_recv reads).packets m h).1
  | ws => exact of_decide_eq_true (List.mem_filter.mp h).2

/-! ## Relaying -/

/-- A packet that a node has made of the message: that of the sender stamps it, that of the
recipient may have read it again. -/
def AcceptedAs (C : Codec) (m : Bytes) (q : Packet) : Prop :=
  ∃ p env, newPacket C m = .ok p ∧ (q = p ∨ q = stamped p env)

theorem AcceptedAs.toJson {C : Codec} {m : Bytes} {q : Packet} (h : AcceptedAs C m q) :
    q.toJson C = m := by
  obtain ⟨p, env, hp, rfl | rfl⟩ := h
  · rw [Packet.toJson, newPacket_raw hp]
  · rw [Packet.toJson, stamped, newPacket_raw hp]

theorem routePacket_writes {C : Codec} {n : Node} {y : Bytes} {sess : Session} {j r : JID} {q : Packet}
    (hs : n.sessions y = some sess) (hLogin : sess.status.status = .login)
    (hj : newJID sess.status.jid = .ok j) (hr : newJID q.envelope.to_ = .ok r)
    (hSame : j.stringWithoutResource = r.stringWithoutResource) :
    ∃ n', routePacket C y q n = .done () n' ∧
      (n'.sessions y).map (·.written) = some (sess.written ++ [.relay q]) :=
  ⟨_, routePacket_toMe hs hLogin hj hr hSame, by simp⟩

/-- A message that was accepted and is relayed to a TCP session is one frame for the peer exactly
if it came as a TCP frame itself, or holds neither the delimiter nor the placeholder. -/
theorem relayed_message_one_frame_iff (C : Codec) {t : Transport} {reads : List Bytes} {m : Bytes}
    (hm : m ∈ t.recv reads) {q : Packet} (hq : AcceptedAs C m q) {n : Node} {y : Bytes}
    {sess : Session} {j r : JID} (hs : n.sessions y = some sess)
    (hLogin : sess.status.status = .login) (hj : newJID sess.status.jid = .ok j)
    (hr : newJID q.envelope.to_ = .ok r)
    (hSame : j.stringWithoutResource = r.stringWithoutResource) :
    (∃ n' data, routePacket C y q n = .done () n' ∧
      (n'.sessions y).map (·.written) = some (sess.written ++ [data]) ∧
      (Decoder.decodePacket (Transport.tcp.writePacket (data.bytes C)) []).1 = [m]) ↔
    t = .tcp ∨ Decoder.Plain m := by
  have hNonempty := Transport.ne_nil_of_mem hm
  obtain ⟨n', hDone, hWritten⟩ := routePacket_writes (C := C) hs hLogin hj hr hSame
  have hBytes : Transport.tcp.writePacket ((Written.relay q).bytes C) = Decoder.frame m := by
    rw [Transport.writePacket, Written.bytes, hq.toJson, Decoder.frame]
  have hPlain : t = .tcp ∨ Decoder.Plain m ↔ Decoder.Plain m := by
    refine ⟨?_, .inr⟩
    rintro (rfl | hPlain)
    · exact ((Decoder.kept_recv reads).packets m hm).2
    · exact hPlain
  rw [hPlain, ← Decoder.decodePacket_frame_iff hNonempty, ← hBytes]
  constructor
  · rintro ⟨u, data, hDone', hWritten', hDecoded⟩
    cases hDone.symm.trans hDone'
    have hData : data = .relay q := by simpa [hWritten] using hWritten'.symm
    rwa [hData] at hDecoded
  · exact fun hDecoded => ⟨n', .relay q, hDone, hWritten, hDecoded⟩

/-! ## A message with something behind it -/

def greetingEnvelope : Envelope :=
  { id := text "m1", from_ := text "alice@x", to_ := text "bob@x", type := msgTypeChat }

def bobsSession : Session where
  status :=
    { sid := text "b2", jid := text "bob@x", status := .login, nodeid := text "n1"
      channel := text "n1:4281", ct := 0 }
  pkgBuff := ∅
  written := []
  connClosed := false

def bobsNode : Node where
  nodeid := text "n1"
  channel := text "n1:4281"
  sessions y := if y = text "b2" then some bobsSession else none
  sessionMap y := y = text "b2"
  cleanSession := []
  db := Saradb.Database.start fun _ => none
  router := []
  oflCache := fun _ => none
  published := []

theorem bobsNode_session : bobsNode.sessions (text "b2") = some bobsSession := rfl

theorem relayed_message_one_frame_tcp :
    ∃ n' data, routePacket PlainJson.codec (text "b2") (PlainJson.received greetingEnvelope) bobsNode =
        .done () n' ∧
      (n'.sessions (text "b2")).map (·.written) = some ([] ++ [data]) ∧
      (Decoder.decodePacket (Transport.tcp.writePacket (data.bytes PlainJson.codec)) []).1 =
        [PlainJson.writeFrame greetingEnvelope] := by
  have hFrame : PlainJson.writeFrame greetingEnvelope ∈
      Transport.tcp.recv [Decoder.frame (PlainJson.writeFrame greetingEnvelope)] := by decide +kernel
  have hAccepted : AcceptedAs PlainJson.codec (PlainJson.writeFrame greetingEnvelope)
      (PlainJson.received greetingEnvelope) :=
    ⟨PlainJson.received greetingEnvelope, Env.plain true, rfl, .inl rfl⟩
  exact (relayed_message_one_frame_iff PlainJson.codec hFrame hAccepted bobsNode_session rfl rfl rfl
    rfl).mpr (.inl rfl)

def greetingAndKill : Bytes := PlainJson.writeFrame greetingEnvelope ++ [endFlag, killSignal]

/-- As a WebSocket message it is accepted, and the peer reads the signal as the server's. -/
theorem websocket_message_two_frames :
    greetingAndKill ∈ Transport.ws.recv [greetingAndKill] ∧
    ∃ q, AcceptedAs PlainJson.codec greetingAndKill q ∧
      ∃ n', routePacket PlainJson.codec (text "b2") q bobsNode = .done () n' ∧
        (n'.sessions (text "b2")).map (·.written) = some [.relay q] ∧
        (Decoder.decodePacket (Transport.tcp.writePacket ((Written.relay q).bytes PlainJson.codec)) []).1 =
          [PlainJson.writeFrame greetingEnvelope, [killSignal]] := by
  let q : Packet := { envelope := greetingEnvelope, raw := some greetingAndKill }
  have hTo : newJID q.envelope.to_ = newJID bobsSession.status.jid := rfl
  obtain ⟨n', hDone, hWritten⟩ :=
    routePacket_writes (C := PlainJson.codec) bobsNode_session rfl rfl hTo rfl
  exact ⟨by decide +kernel, q, ⟨q, Env.plain true, rfl, .inl rfl⟩, n', hDone, hWritten, by decide +kernel⟩

end Sara
