import Sara.Types.Packet

/-! # JSON without escapes

An executable codec for the texts in which no string needs an escape, as in the
packets of the client scripts. On such texts it agrees with the JSON libraries
of the server, so concrete runs can be evaluated with it. A packet is written
with its envelope only.
-/

namespace Sara.PlainJson

set_option autoImplicit false

def quote : UInt8 := 34
def colon : UInt8 := 58
def openBrace : UInt8 := 123
def closeBrace : UInt8 := 125

def unquoted (b : Bytes) : Bytes := b.filter (· ≠ quote)

def isDigit (b : UInt8) : Bool := 48 ≤ b && b ≤ 57

def readNat (b : Bytes) : Nat :=
  (b.filter isDigit).foldl (fun n d => 10 * n + (d.toNat - 48)) 0

def writeNat (n : Nat) : Bytes := text (toString n)

/-- The fields of an object whose text was split at the quotes. The piece after a
key is a lone colon before a string, and holds the digits of a number. -/
def readFields : List Bytes → List (Bytes × Bytes)
  | key :: mid :: rest =>
    if mid = [colon] then
      match rest with
      | value :: _ :: rest => (key, value) :: readFields rest
      | _ => []
    else (key, mid) :: readFields rest
  | _ => []

def readEnvelope (raw : Bytes) : Except Bytes Envelope :=
  match raw.splitOn quote with
  | [b] :: pieces =>
    if b = openBrace then
      let field (key : String) : Bytes := ((readFields pieces).lookup (text key)).getD []
      .ok {
        id := field "id"
        jid := field "jid"
        from_ := field "from"
        to_ := field "to"
        type := readNat (field "type")
        ack := readNat (field "ack")
        ct := field "ct"
        pwd := field "pwd"
        gid := field "gid" }
    else .error (text "invalid character looking for beginning of value")
  | _ => .error (text "unexpected end of JSON input")

/-- The object under a key that stands first in the text. -/
def getObject (json key : Bytes) : Option Bytes :=
  let head := [openBrace, quote] ++ key ++ [quote, colon]
  if head.isPrefixOf json then
    let rest := json.drop head.length
    some (rest.takeWhile (· ≠ closeBrace) ++ [closeBrace])
  else none

def stringField (key : String) (value : Bytes) : Option Bytes :=
  if value = [] then none else some ([quote] ++ text key ++ [quote, colon, quote] ++ value ++ [quote])

def natField (key : String) (n : Nat) : Bytes := [quote] ++ text key ++ [quote, colon] ++ writeNat n

def writeEnvelope (e : Envelope) : Bytes :=
  let fields : List (Option Bytes) :=
    [some ([quote] ++ text "id" ++ [quote, colon, quote] ++ e.id ++ [quote]),
      stringField "jid" e.jid, stringField "from" e.from_, stringField "to" e.to_,
      some (natField "type" e.type), if e.ack = 0 then none else some (natField "ack" e.ack),
      stringField "ct" e.ct, stringField "pwd" e.pwd, stringField "gid" e.gid]
  [openBrace] ++ List.intercalate [comma] (fields.filterMap id) ++ [closeBrace]

def writeFrame (e : Envelope) : Bytes :=
  [openBrace, quote] ++ text "envelope" ++ [quote, colon] ++ writeEnvelope e ++ [closeBrace]

/-- The packet the server makes of such a frame. -/
def received (e : Envelope) : Packet := { envelope := e, raw := some (writeFrame e) }

def writeStatus : Status → Bytes
  | .conn => text "conn"
  | .login => text "login"
  | .close => text "close"

def readStatus (b : Bytes) : Status :=
  if b = text "login" then .login else if b = text "conn" then .conn else .close

def statusPieces (s : SessionStatus) : List Bytes :=
  [[openBrace], text "Sid", [colon], unquoted s.sid, [comma], text "Jid", [colon], unquoted s.jid,
    [comma], text "Status", [colon], writeStatus s.status, [comma], text "Nodeid", [colon],
    unquoted s.nodeid, [comma], text "Channel", [colon], unquoted s.channel, [comma], text "Ct",
    unquoted ([colon] ++ writeNat s.ct.toNat ++ [closeBrace])]

def codec : Codec where
  get := getObject
  unmarshalEnvelope := readEnvelope
  unmarshalBasePacket data :=
    match getObject data (text "envelope") with
    | none => .ok { envelope := {} }
    | some raw => (readEnvelope raw).map fun e => { envelope := e }
  marshalPacket p := .ok (writeFrame p.envelope)
  marshalStatus s := List.intercalate [quote] (statusPieces s)
  unmarshalStatus data :=
    let piece (i : Nat) : Bytes := (data.splitOn quote).getD i []
    { sid := piece 3
      jid := piece 7
      status := readStatus (piece 11)
      nodeid := piece 15
      channel := piece 19
      ct := readNat (piece 22) }

theorem quote_notMem_unquoted (b : Bytes) : quote ∉ unquoted b := by
  simp [unquoted]

theorem unquoted_of_notMem {b : Bytes} (h : quote ∉ b) : unquoted b = b := by
  refine List.filter_eq_self.mpr ?_
  intro c hc
  have hne : c ≠ quote := fun hEq => h (hEq ▸ hc)
  simpa using hne

theorem quote_notMem_statusPieces (s : SessionStatus) : ∀ piece ∈ statusPieces s, quote ∉ piece := by
  have hStatus : quote ∉ writeStatus s.status := by
    cases s.status with
    | conn | login | close => decide
  have hFixed : ∀ piece ∈ [[openBrace], text "Sid", [colon], [comma], text "Jid", text "Status",
      text "Nodeid", text "Channel", text "Ct"], quote ∉ piece := by decide
  simp only [List.forall_mem_cons] at hFixed
  simp [statusPieces, hFixed, hStatus, quote_notMem_unquoted]

theorem splitOn_marshalStatus (s : SessionStatus) :
    (codec.marshalStatus s).splitOn quote = statusPieces s :=
  List.splitOn_intercalate quote (quote_notMem_statusPieces s) (List.cons_ne_nil _ _)

/-- A session id without a quote is read back as written. -/
theorem unmarshalStatus_sid {s : SessionStatus} (h : quote ∉ s.sid) :
    (codec.unmarshalStatus (codec.marshalStatus s)).sid = s.sid := by
  have hPiece : (codec.unmarshalStatus (codec.marshalStatus s)).sid =
      ((codec.marshalStatus s).splitOn quote).getD 3 [] := rfl
  rw [hPiece, splitOn_marshalStatus]
  exact unquoted_of_notMem h

theorem unmarshalStatus_channel {s : SessionStatus} (h : quote ∉ s.channel) :
    (codec.unmarshalStatus (codec.marshalStatus s)).channel = s.channel := by
  have hPiece : (codec.unmarshalStatus (codec.marshalStatus s)).channel =
      ((codec.marshalStatus s).splitOn quote).getD 19 [] := rfl
  rw [hPiece, splitOn_marshalStatus]
  exact unquoted_of_notMem h

end Sara.PlainJson
