import Sara.Types.Gjson
import Sara.Types.Packet
import Mathlib.Data.Nat.Digits.Defs
import Mathlib.Data.Nat.Digits.Lemmas

/-! # The packets in JSON

What `encoding/json` makes of the packet types. A struct is filled member by
member: the name decides the field, exactly or else up to case, a later member
overwrites an earlier one, a null leaves the field alone, and a value of another
type is an error of the whole call. The errors' texts and the records of the
sessions are left to an outside.
-/

namespace Sara.GoJson

open Lib.Json

set_option autoImplicit false

section Structs

/-- Letters are compared without their case. The Kelvin sign and the long s count
as letters. -/
def fold : Bytes → Bytes
  | 197 :: 191 :: s => 83 :: fold s
  | 226 :: 132 :: 170 :: s => 75 :: fold s
  | b :: s => (if 97 ≤ b && b ≤ 122 then b - 32 else b) :: fold s
  | [] => []

abbrev Field (α : Type) := Bytes × (Value → α → Option α)

def fieldOf {α : Type} (fields : List (Field α)) (key : Bytes) : Option (Field α) :=
  (fields.find? fun f => f.1 = key).or (fields.find? fun f => fold f.1 = fold key)

def setMember {α : Type} (fields : List (Field α)) (a : α) (m : Bytes × Value) : Option α :=
  match fieldOf fields (unquote m.1) with
  | none => some a
  | some f => f.2 m.2 a

def setStruct {α : Type} (fields : List (Field α)) (v : Value) (a : α) : Option α :=
  match v with
  | .null => some a
  | .obj ms => ms.foldlM (setMember fields) a
  | _ => none

def setString {α : Type} (set : Bytes → α → α) (v : Value) (a : α) : Option α :=
  match v with
  | .null => some a
  | .str s => some (set (unquote s) a)
  | _ => none

def readNat (d : Bytes) : Nat := d.foldl (fun n b => 10 * n + (b.toNat - 48)) 0

def parseUint (d : Bytes) : Option Nat :=
  if d.all isDigit && readNat d < 2 ^ 64 then some (readNat d) else none

def setUint {α : Type} (set : Nat → α → α) (v : Value) (a : α) : Option α :=
  match v with
  | .null => some a
  | .num d => (parseUint d).map fun n => set n a
  | _ => none

end Structs

section Reading

def envelopeFields : List (Field Envelope) :=
  [(text "id", setString fun s e => { e with id := s }),
    (text "jid", setString fun s e => { e with jid := s }),
    (text "from", setString fun s e => { e with from_ := s }),
    (text "to", setString fun s e => { e with to_ := s }),
    (text "type", setUint fun n e => { e with type := n }),
    (text "ack", setUint fun n e => { e with ack := n }),
    (text "ct", setString fun s e => { e with ct := s }),
    (text "pwd", setString fun s e => { e with pwd := s }),
    (text "gid", setString fun s e => { e with gid := s })]

def entityFields : List (Field Entity) :=
  [(text "result", setString fun s e => { e with result := s }),
    (text "reason", setString fun s e => { e with reason := s })]

/-- A number is a `float64` where no type asks for another: one that would round
to an infinity is an error. -/
def inRange (d : Bytes) : Bool :=
  let d := if d.head? = some minus then d.tail else d
  let whole := d.takeWhile isDigit
  let rest := d.dropWhile isDigit
  let part := if rest.head? = some 46 then rest.tail.takeWhile isDigit else []
  let power := (rest.dropWhile fun b => b ≠ 69 && b ≠ 101).tail
  let mantissa := readNat (whole ++ part)
  let up := if power.head? = some minus then 0 else readNat (power.filter isDigit)
  let down := part.length + if power.head? = some minus then readNat power.tail else 0
  mantissa * 10 ^ up < (2 ^ 1024 - 2 ^ 970) * 10 ^ down

/-- The payload is any value. It is kept as a text of it. -/
def setPayload (v : Value) (p : BasePacket) : Option BasePacket :=
  match v with
  | .null => some { p with payload := none }
  | v => if (numbers v).all inRange then some { p with payload := some (print v) } else none

def setEntity (v : Value) (p : BasePacket) : Option BasePacket :=
  match v with
  | .null => some { p with entity := none }
  | v => (setStruct entityFields v (p.entity.getD { result := [], reason := [] })).map fun e =>
      { p with entity := some e }

def packetFields : List (Field BasePacket) :=
  [(text "envelope", fun v p => (setStruct envelopeFields v p.envelope).map fun e =>
      { p with envelope := e }),
    (text "payload", setPayload),
    (text "entity", setEntity),
    (text "vsn", setString fun s p => { p with vsn := s })]

def unmarshalEnvelope (data : Bytes) : Option Envelope :=
  (parse data).bind fun v => setStruct envelopeFields v {}

def unmarshalBasePacket (data : Bytes) : Option BasePacket :=
  (parse data).bind fun v => setStruct packetFields v { envelope := {} }

end Reading

section Writing

def decimal (n : Nat) : Bytes :=
  if n = 0 then [48] else ((Nat.digits 10 n).map fun d => UInt8.ofNat (48 + d)).reverse

def stringMember (name : String) (s : Bytes) : Bytes × Value := (text name, .str (escape s))

def uintMember (name : String) (n : Nat) : Bytes × Value := (text name, .num (decimal n))

/-- A field marked `omitempty`. -/
def optString (name : String) (s : Bytes) : List (Bytes × Value) :=
  if s = [] then [] else [stringMember name s]

def optUint (name : String) (n : Nat) : List (Bytes × Value) :=
  if n = 0 then [] else [uintMember name n]

def envelopeMembers (e : Envelope) : List (Bytes × Value) :=
  [stringMember "id" e.id] ++ optString "jid" e.jid ++ optString "from" e.from_ ++
    optString "to" e.to_ ++ [uintMember "type" e.type] ++ optUint "ack" e.ack ++ optString "ct" e.ct ++
    optString "pwd" e.pwd ++ optString "gid" e.gid

def entityMembers (e : Entity) : List (Bytes × Value) :=
  optString "result" e.result ++ optString "reason" e.reason

/-- The members of an object whose values are at hand as texts. -/
def writeMembers : List (Bytes × Bytes) → Bytes
  | [] => []
  | [(name, t)] => quote :: (name ++ quote :: colon :: t)
  | (name, t) :: m :: ms => quote :: (name ++ quote :: colon :: (t ++ comma :: writeMembers (m :: ms)))

def writeObject (ms : List (Bytes × Bytes)) : Bytes := openBrace :: (writeMembers ms ++ [closeBrace])

def baseTexts (p : BasePacket) : List (Bytes × Bytes) :=
  [(text "envelope", print (.obj (envelopeMembers p.envelope)))] ++
    (p.payload.map fun t => (text "payload", t)).toList ++
    (p.entity.map fun e => (text "entity", print (.obj (entityMembers e)))).toList ++
    if p.vsn = [] then [] else [(text "vsn", print (.str (escape p.vsn)))]

def writeItems : List Bytes → Bytes
  | [] => []
  | [t] => t
  | t :: u :: ts => t ++ comma :: writeItems (u :: ts)

def delayTexts (d : Delay) : List (Bytes × Bytes) :=
  (text "total", decimal d.total) ::
    if d.packets = [] then []
    else
      [(text "packets",
        openBracket :: (writeItems (d.packets.map fun p => writeObject (baseTexts p)) ++ [closeBracket]))]

def marshalPacket (p : Packet) : Bytes :=
  writeObject (baseTexts p.toBasePacket ++
    (p.delay.map fun d => (text "delay", writeObject (delayTexts d))).toList)

end Writing

section Numbers

theorem isDigit_decimal (n : Nat) : ∀ b ∈ decimal n, isDigit b = true := by
  unfold decimal
  split_ifs with h
  · exact List.all_eq_true.mp rfl
  · intro b hb
    simp only [List.mem_reverse, List.mem_map] at hb
    obtain ⟨d, hd, rfl⟩ := hb
    have hLt : d < 10 := Nat.digits_lt_base (by decide) hd
    have hAll : ∀ m : Fin 10, isDigit (UInt8.ofNat (48 + m)) = true := by decide
    exact hAll ⟨d, hLt⟩

theorem readNat_reverse {l : List Nat} (h : ∀ d ∈ l, d < 10) :
    readNat (l.map fun d => UInt8.ofNat (48 + d)).reverse = Nat.ofDigits 10 l := by
  induction l with
  | nil => rfl
  | cons d l ih =>
    have hLt := h d List.mem_cons_self
    have hd : (UInt8.ofNat (48 + d)).toNat = 48 + d := by
      rw [UInt8.toNat_ofNat', Nat.mod_eq_of_lt (by omega)]
    have hRest := ih fun e he => h e (List.mem_cons_of_mem d he)
    unfold readNat at hRest ⊢
    rw [List.map_cons, List.reverse_cons, List.foldl_append, hRest, List.foldl_cons, List.foldl_nil, hd,
      Nat.ofDigits_cons]
    omega

theorem readNat_decimal (n : Nat) : readNat (decimal n) = n := by
  unfold decimal
  split_ifs with h
  · rw [h]
    rfl
  · rw [readNat_reverse fun d hd => Nat.digits_lt_base (by decide) hd, Nat.ofDigits_digits]

theorem parseUint_decimal {n : Nat} (h : n < 2 ^ 64) : parseUint (decimal n) = some n := by
  have hDigits : (decimal n).all isDigit = true := List.all_eq_true.mpr (isDigit_decimal n)
  simp only [parseUint, hDigits, readNat_decimal, h, decide_true, Bool.and_self, if_true]

theorem head?_decimal {n : Nat} (h : n ≠ 0) :
    ∃ b, (decimal n).head? = some b ∧ b ≠ 48 ∧ b ≠ minus := by
  have hNe : Nat.digits 10 n ≠ [] := Nat.digits_ne_nil_iff_ne_zero.mpr h
  have hLt : (Nat.digits 10 n).getLast hNe < 10 :=
    Nat.digits_lt_base (by decide) (List.getLast_mem hNe)
  have hAll : ∀ m : Fin 10, m.val ≠ 0 → UInt8.ofNat (48 + m) ≠ 48 ∧ UInt8.ofNat (48 + m) ≠ minus := by
    decide
  refine ⟨UInt8.ofNat (48 + (Nat.digits 10 n).getLast hNe), ?_,
    hAll ⟨_, hLt⟩ (Nat.getLast_digit_ne_zero 10 h)⟩
  rw [decimal, if_neg h, List.head?_reverse, List.getLast?_map, List.getLast?_eq_getLast_of_ne_nil hNe]
  rfl

theorem isNumber_decimal (n : Nat) : isNumber (decimal n) = true := by
  by_cases h : n = 0
  · rw [h]
    rfl
  · have hDigit := isDigit_decimal n
    have hTake : (decimal n).takeWhile isDigit = decimal n := List.takeWhile_eq_self_iff.mpr hDigit
    have hDrop : (decimal n).dropWhile isDigit = [] := List.dropWhile_eq_nil_iff.mpr hDigit
    have hNumeral : (decimal n).all isNumeral = true := by
      refine List.all_eq_true.mpr fun b hb => ?_
      simp only [isNumeral, hDigit b hb, Bool.true_or]
    obtain ⟨b, hHead, hZero, hMinus⟩ := head?_decimal h
    have hNil : decimal n ≠ [] := by
      intro hEq
      rw [hEq] at hHead
      cases hHead
    simp [isNumber, hHead, hZero, hMinus, hTake, hDrop, hNumeral, hNil, isFraction]

end Numbers

section RoundTrip

/-- What the writer can write and the reader reads back: strings of UTF-8 and
numbers of 64 bits. -/
structure Writable (e : Envelope) : Prop where
  id : isUtf8 e.id = true
  jid : isUtf8 e.jid = true
  from_ : isUtf8 e.from_ = true
  to_ : isUtf8 e.to_ = true
  type : e.type < 2 ^ 64
  ack : e.ack < 2 ^ 64
  ct : isUtf8 e.ct = true
  pwd : isUtf8 e.pwd = true
  gid : isUtf8 e.gid = true

variable {α : Type} {fields : List (Field α)}

theorem setMember_string (set : Bytes → α → α) {name : String} {s : Bytes}
    (hField : fieldOf fields (unquote (text name)) = some (text name, setString set))
    (hs : isUtf8 s = true) (a : α) : setMember fields a (stringMember name s) = some (set s a) := by
  simp only [setMember, stringMember, hField, setString, unquote_escape hs]

theorem setMember_uint (set : Nat → α → α) {name : String} {n : Nat}
    (hField : fieldOf fields (unquote (text name)) = some (text name, setUint set))
    (hn : n < 2 ^ 64) (a : α) : setMember fields a (uintMember name n) = some (set n a) := by
  simp only [setMember, uintMember, hField, setUint, parseUint_decimal hn, Option.map_some]

/-- An omitted field is one that already has its empty value. -/
theorem foldlM_optString (set : Bytes → α → α) {name : String} {s : Bytes}
    (hField : fieldOf fields (unquote (text name)) = some (text name, setString set))
    (hs : isUtf8 s = true) {a : α} (ha : set [] a = a) :
    (optString name s).foldlM (setMember fields) a = some (set s a) := by
  unfold optString
  split_ifs with hNil
  · rw [hNil, ha]
    rfl
  · rw [List.foldlM_cons, setMember_string set hField hs]
    rfl

theorem foldlM_optUint (set : Nat → α → α) {name : String} {n : Nat}
    (hField : fieldOf fields (unquote (text name)) = some (text name, setUint set))
    (hn : n < 2 ^ 64) {a : α} (ha : set 0 a = a) :
    (optUint name n).foldlM (setMember fields) a = some (set n a) := by
  unfold optUint
  split_ifs with hZero
  · rw [hZero, ha]
    rfl
  · rw [List.foldlM_cons, setMember_uint set hField hn]
    rfl

theorem setStruct_envelopeMembers {e : Envelope} (h : Writable e) :
    setStruct envelopeFields (.obj (envelopeMembers e)) {} = some e := by
  have hId (a : Envelope) : setMember envelopeFields a (stringMember "id" e.id) =
      some { a with id := e.id } :=
    setMember_string (fun s (e : Envelope) => { e with id := s }) rfl h.id a
  have hType (a : Envelope) : setMember envelopeFields a (uintMember "type" e.type) =
      some { a with type := e.type } :=
    setMember_uint (fun n (e : Envelope) => { e with type := n }) rfl h.type a
  have hJid (a : Envelope) (ha : a.jid = []) :
      (optString "jid" e.jid).foldlM (setMember envelopeFields) a = some { a with jid := e.jid } :=
    foldlM_optString (fun s (e : Envelope) => { e with jid := s }) rfl h.jid (by rw [← ha])
  have hFrom (a : Envelope) (ha : a.from_ = []) :
      (optString "from" e.from_).foldlM (setMember envelopeFields) a = some { a with from_ := e.from_ } :=
    foldlM_optString (fun s (e : Envelope) => { e with from_ := s }) rfl h.from_ (by rw [← ha])
  have hTo (a : Envelope) (ha : a.to_ = []) :
      (optString "to" e.to_).foldlM (setMember envelopeFields) a = some { a with to_ := e.to_ } :=
    foldlM_optString (fun s (e : Envelope) => { e with to_ := s }) rfl h.to_ (by rw [← ha])
  have hAck (a : Envelope) (ha : a.ack = 0) :
      (optUint "ack" e.ack).foldlM (setMember envelopeFields) a = some { a with ack := e.ack } :=
    foldlM_optUint (fun n (e : Envelope) => { e with ack := n }) rfl h.ack (by rw [← ha])
  have hCt (a : Envelope) (ha : a.ct = []) :
      (optString "ct" e.ct).foldlM (setMember envelopeFields) a = some { a with ct := e.ct } :=
    foldlM_optString (fun s (e : Envelope) => { e with ct := s }) rfl h.ct (by rw [← ha])
  have hPwd (a : Envelope) (ha : a.pwd = []) :
      (optString "pwd" e.pwd).foldlM (setMember envelopeFields) a = some { a with pwd := e.pwd } :=
    foldlM_optString (fun s (e : Envelope) => { e with pwd := s }) rfl h.pwd (by rw [← ha])
  have hGid (a : Envelope) (ha : a.gid = []) :
      (optString "gid" e.gid).foldlM (setMember envelopeFields) a = some { a with gid := e.gid } :=
    foldlM_optString (fun s (e : Envelope) => { e with gid := s }) rfl h.gid (by rw [← ha])
  simp only [setStruct, envelopeMembers, List.foldlM_append, List.foldlM_cons, List.foldlM_nil,
    Option.bind_eq_bind, Option.pure_def, Option.bind_some, hId, hType, hJid, hFrom, hTo, hAck, hCt, hPwd,
    hGid]

theorem body_name (name : String) (h : (text name).all isPlain = true) : Body (text name) :=
  .of_plain (List.all_eq_true.mp h)

theorem spells_stringMember {name : String} (h : (text name).all isPlain = true) (s : Bytes) :
    Body (stringMember name s).1 ∧ Spells 1 (stringMember name s).2 (print (stringMember name s).2) :=
  ⟨body_name name h, rfl, body_escape s⟩

theorem spells_uintMember {name : String} (h : (text name).all isPlain = true) (n : Nat) :
    Body (uintMember name n).1 ∧ Spells 1 (uintMember name n).2 (print (uintMember name n).2) :=
  ⟨body_name name h, rfl, isNumber_decimal n⟩

theorem mem_optString {name : String} {s : Bytes} {m : Bytes × Value} (h : m ∈ optString name s) :
    m = stringMember name s := by
  unfold optString at h
  split_ifs at h
  · cases h
  · exact List.mem_singleton.mp h

theorem mem_optUint {name : String} {n : Nat} {m : Bytes × Value} (h : m ∈ optUint name n) :
    m = uintMember name n := by
  unfold optUint at h
  split_ifs at h
  · cases h
  · exact List.mem_singleton.mp h

theorem spells_envelope (e : Envelope) :
    Spells 2 (.obj (envelopeMembers e)) (print (.obj (envelopeMembers e))) := by
  refine spells_print_obj ?_
  intro m hm
  simp only [envelopeMembers, List.mem_append, List.mem_singleton] at hm
  rcases hm with (((((((rfl | hm) | hm) | hm) | rfl) | hm) | hm) | hm) | hm
  · exact spells_stringMember rfl e.id
  · rw [mem_optString hm]
    exact spells_stringMember rfl e.jid
  · rw [mem_optString hm]
    exact spells_stringMember rfl e.from_
  · rw [mem_optString hm]
    exact spells_stringMember rfl e.to_
  · exact spells_uintMember rfl e.type
  · rw [mem_optUint hm]
    exact spells_uintMember rfl e.ack
  · rw [mem_optString hm]
    exact spells_stringMember rfl e.ct
  · rw [mem_optString hm]
    exact spells_stringMember rfl e.pwd
  · rw [mem_optString hm]
    exact spells_stringMember rfl e.gid

theorem unmarshalEnvelope_print {e : Envelope} (h : Writable e) :
    unmarshalEnvelope (print (.obj (envelopeMembers e))) = some e := by
  rw [unmarshalEnvelope, parse_eq_some.mpr (spells_envelope e).isText]
  exact setStruct_envelopeMembers h

theorem ends_writeMembers (ms : List (Bytes × Bytes)) :
    ∃ rest, Ends rest ∧ ∀ name t, writeObject ((name, t) :: ms) =
      openBrace :: quote :: (name ++ quote :: colon :: (t ++ rest)) := by
  cases ms with
  | nil => exact ⟨[closeBrace], .cons rfl _, fun name t => by simp [writeObject, writeMembers]⟩
  | cons m ms =>
    exact ⟨comma :: (writeMembers (m :: ms) ++ [closeBrace]), .cons rfl _,
      fun name t => by simp [writeObject, writeMembers]⟩

/-- gjson finds the envelope of a written packet, whatever follows it. -/
theorem get_marshalPacket (p : Packet) :
    Gjson.get (marshalPacket p) (text "envelope") = some (print (.obj (envelopeMembers p.envelope))) := by
  obtain ⟨ms, hms⟩ : ∃ ms, marshalPacket p =
      writeObject ((text "envelope", print (.obj (envelopeMembers p.envelope))) :: ms) := ⟨_, rfl⟩
  obtain ⟨rest, hEnds, hWrite⟩ := ends_writeMembers ms
  have hInside : Gjson.Inside [] (text "envelope") := Gjson.inside_of_body (body_name _ rfl) rfl
  have hValue := Gjson.nextValue_of_spells (spells_envelope p.envelope) hEnds
  have hColon (s : Bytes) : Gjson.nextValue (colon :: s) = Gjson.nextValue s := rfl
  have hName : Gjson.keyName (text "envelope") = text "envelope" := rfl
  have hDrop (s : Bytes) : ((openBrace :: s).dropWhile fun b => b ≠ openBrace && b ≠ openBracket) =
      openBrace :: s := rfl
  rw [hms, hWrite, Gjson.get, hDrop]
  simp only [if_true, List.length_cons, Gjson.parseObject, Gjson.nextKey,
    Gjson.parseString_of_inside hInside, List.reverse_nil, List.nil_append, Option.bind_some, hColon, hValue,
    hName]

end RoundTrip

/-- What the two libraries do not settle here: how an error reads, and the records
of the sessions. -/
structure Outside where
  describe : Bytes → Bytes
  marshalStatus : SessionStatus → Bytes
  unmarshalStatus : Bytes → SessionStatus

def codec (O : Outside) : Codec where
  get := Gjson.get
  unmarshalEnvelope data := (unmarshalEnvelope data).elim (.error (O.describe data)) .ok
  unmarshalBasePacket data := (unmarshalBasePacket data).elim (.error (O.describe data)) .ok
  marshalPacket p := .ok (marshalPacket p)
  marshalStatus := O.marshalStatus
  unmarshalStatus := O.unmarshalStatus

end Sara.GoJson
