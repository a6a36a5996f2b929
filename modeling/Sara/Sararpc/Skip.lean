import Sara.Sararpc.Connection

/-! # Requests with other fields

A reader of a struct skips the fields it does not know. What is skipped is exactly the
value of the field, whatever it is made of, as long as it does not nest too deep; the
values of a map may nest on from there. So a request with more fields than the server
knows, in any order, is understood as one without them.
-/

namespace Sara.EmsgInfPush

open Lib Lib.Reading Thrift

set_option autoImplicit false

/-- What bytes may be: a value of a type, the fields of a struct, the elements of a list or a set,
the entries of a map; with the depth that there is left for them. -/
inductive Kind where
  | value (depth : Nat) (t : TType)
  | fields (depth : Nat)
  | elems (depth : Nat) (t : TType) (n : Nat)
  | entries (depth : Nat) (k v : TType) (n : Nat)

def writeMapBegin (k v : TType) (size : Nat) : Bytes := k.toByte :: v.toByte :: writeI32 size

inductive Written : Kind → Bytes → Prop where
  | bool {d : Nat} (b : UInt8) : Written (.value (d + 1) .bool) [b]
  | byte {d : Nat} (b : UInt8) : Written (.value (d + 1) .byte) [b]
  | i16 {d : Nat} {bytes : Bytes} (h : bytes.length = 2) : Written (.value (d + 1) .i16) bytes
  | i32 {d : Nat} {bytes : Bytes} (h : bytes.length = 4) : Written (.value (d + 1) .i32) bytes
  | i64 {d : Nat} {bytes : Bytes} (h : bytes.length = 8) : Written (.value (d + 1) .i64) bytes
  | double {d : Nat} {bytes : Bytes} (h : bytes.length = 8) : Written (.value (d + 1) .double) bytes
  | string {d : Nat} {v : Bytes} (h : v.length < 2147483648) : Written (.value (d + 1) .string) (writeString v)
  | struct {d : Nat} {bytes : Bytes} (h : Written (.fields d) bytes) : Written (.value (d + 1) .struct) bytes
  | list {d n : Nat} {t : TType} {bytes : Bytes} (hKnown : ∀ b, t ≠ .other b) (hSize : n < 2147483648)
      (h : Written (.elems d t n) bytes) : Written (.value (d + 1) .list) (writeListBegin t n ++ bytes)
  | set {d n : Nat} {t : TType} {bytes : Bytes} (hKnown : ∀ b, t ≠ .other b) (hSize : n < 2147483648)
      (h : Written (.elems d t n) bytes) : Written (.value (d + 1) .set) (writeListBegin t n ++ bytes)
  | map {d n : Nat} {k v : TType} {bytes : Bytes} (hKey : ∀ b, k ≠ .other b) (hValue : ∀ b, v ≠ .other b)
      (hSize : n < 2147483648) (h : Written (.entries d k v n) bytes) :
      Written (.value (d + 1) .map) (writeMapBegin k v n ++ bytes)
  | stop {d : Nat} : Written (.fields d) writeFieldStop
  | field {d id : Nat} {t : TType} {bytes rest : Bytes} (hStop : t ≠ .stop) (hKnown : ∀ b, t ≠ .other b)
      (hId : id < 65536) (h : Written (.value d t) bytes) (hRest : Written (.fields d) rest) :
      Written (.fields d) (writeFieldBegin t id ++ (bytes ++ rest))
  | noElems {d : Nat} {t : TType} : Written (.elems d t 0) []
  | elem {d n : Nat} {t : TType} {bytes rest : Bytes} (h : Written (.value d t) bytes)
      (hRest : Written (.elems d t n) rest) : Written (.elems d t (n + 1)) (bytes ++ rest)
  | noEntries {d : Nat} {k v : TType} : Written (.entries d k v 0) []
  | entry {d n : Nat} {k v : TType} {key bytes rest : Bytes} (hKey : Written (.value d k) key)
      (h : Written (.value defaultRecursionDepth v) bytes) (hRest : Written (.entries d k v n) rest) :
      Written (.entries d k v (n + 1)) (key ++ (bytes ++ rest))

/-- How the bytes of each kind are skipped, with any fuel that is enough for them. -/
def Skips : Kind → Bytes → Prop
  | .value d t, bytes => ∀ fuel, bytes.length ≤ fuel → Consumes (skipWith (skipLoop fuel) d t) bytes ()
  | .fields d, bytes => ∀ fuel loops, bytes.length ≤ fuel → bytes.length ≤ loops →
      Consumes (skipFields (skipWith (skipLoop fuel) d) loops) bytes ()
  | .elems d t n, bytes => ∀ fuel, bytes.length ≤ fuel →
      Consumes (repeatedly (skipWith (skipLoop fuel) d t) n) bytes ()
  | .entries d k v n, bytes => ∀ fuel, bytes.length < fuel →
      Consumes (repeatedly (do
        skipWith (skipLoop fuel) d k
        let _ ← attempt (skipLoop fuel v)) n) bytes ()

theorem consumes_number {bytes : Bytes} {n : Nat} (h : bytes.length = n) :
    Consumes (do
      let buf ← readFull read n
      pure (bigEndian buf)) bytes (bigEndian bytes) := by
  subst h
  exact (consumes_readFull bytes).map rfl

theorem consumes_fieldTypeOnly {t : TType} {id : Nat} (hStop : t ≠ .stop) (hKnown : ∀ b, t ≠ .other b)
    (hId : id < 65536) : Consumes fieldTypeOnly (writeFieldBegin t id) t := by
  refine (consumes_readByte t.toByte).attempt.bind ?_
  simp only [TType.ofByte_toByte hKnown, if_neg hStop]
  exact (consumes_readI16 hId).attempt.map rfl

theorem consumes_readMapBegin {k v : TType} {size : Nat} (hKey : ∀ b, k ≠ .other b)
    (hValue : ∀ b, v ≠ .other b) (hSize : size < 2147483648) :
    Consumes readMapBegin (writeMapBegin k v size) (k, v, size) := by
  refine (consumes_readByte k.toByte).bind ((consumes_readByte v.toByte).bind ?_)
  refine (consumes_readI32 (by omega)).map ?_
  rw [if_neg (by omega), TType.ofByte_toByte hKey, TType.ofByte_toByte hValue]

theorem Written.skips {kind : Kind} {bytes : Bytes} (h : Written kind bytes) : Skips kind bytes := by
  induction h with
  | bool b | byte b => exact fun fuel _ => (consumes_readByte b).map rfl
  | i16 h | i32 h | i64 h | double h => exact fun fuel _ => (consumes_number h).map rfl
  | string h => exact fun fuel _ => (consumes_readString h).map rfl
  | struct _ ih =>
    intro fuel hFuel s rest n hs
    refine ih fuel (s.bytes.length + 1) hFuel ?_ s rest n hs
    rw [hs.bytes, List.length_append]
    omega
  | list hKnown hSize _ ih | set hKnown hSize _ ih =>
    intro fuel hFuel
    refine (consumes_readListBegin hKnown hSize).bind (ih fuel ?_)
    rw [List.length_append] at hFuel
    omega
  | map hKey hValue hSize _ ih =>
    intro fuel hFuel
    refine (consumes_readMapBegin hKey hValue hSize).bind (ih fuel ?_)
    rw [List.length_append, writeMapBegin, List.length_cons] at hFuel
    omega
  | stop =>
    intro fuel loops _ hLoops
    cases loops with
    | zero => cases hLoops
    | succ loops =>
      have hStop : Consumes fieldTypeOnly writeFieldStop .stop :=
        (consumes_readByte TType.stop.toByte).attempt.map rfl
      exact hStop.map rfl
  | @field d id t bytes rest hStop hKnown hId _ _ ih ihRest =>
    intro fuel loops hFuel hLoops
    rw [List.length_append, List.length_append, writeFieldBegin, List.length_cons] at hFuel hLoops
    cases loops with
    | zero => omega
    | succ loops =>
      refine (consumes_fieldTypeOnly hStop hKnown hId).bind ?_
      rw [if_neg hStop]
      exact (ih fuel (by omega)).bind (ihRest fuel loops (by omega) (by omega))
  | noElems | noEntries => exact fun fuel _ => Consumes.pure ()
  | elem _ _ ih ihRest =>
    intro fuel hFuel
    rw [List.length_append] at hFuel
    exact (ih fuel (by omega)).bind (ihRest fuel (by omega))
  | @entry d n k v key bytes rest _ _ _ ihKey ih ihRest =>
    intro fuel hFuel
    rw [List.length_append, List.length_append] at hFuel
    cases fuel with
    | zero => omega
    | succ fuel =>
      have hValue := (ih fuel (by omega)).attempt
      have hEntry : Consumes (do
          skipWith (skipLoop (fuel + 1)) d k
          let _ ← attempt (skipLoop (fuel + 1) v)) (key ++ bytes) () :=
        (ihKey (fuel + 1) (by omega)).bind (hValue.map rfl)
      rw [← List.append_assoc]
      exact hEntry.bind (ihRest (fuel + 1) (by omega))

theorem consumes_skip {t : TType} {bytes : Bytes} (h : Written (.value defaultRecursionDepth t) bytes) :
    Consumes (skip t) bytes () := by
  intro s rest n hs
  unfold skip
  rw [state_bind]
  refine h.skips s.bytes.length ?_ s rest n hs
  rw [hs.bytes, List.length_append]
  omega

/-! ## The arguments of a request -/

/-- A field of the arguments: one that is known, or a value of any type under another number. -/
inductive ArgField where
  | licence (v : Bytes)
  | sn (v : Bytes)
  | content (v : Bytes)
  | other (id : Nat) (t : TType) (bytes : Bytes)

namespace ArgField

def write : ArgField → Bytes
  | licence v => writeFieldBegin .string 1 ++ writeString v
  | sn v => writeFieldBegin .string 2 ++ writeString v
  | content v => writeFieldBegin .string 3 ++ writeString v
  | other id t bytes => writeFieldBegin t id ++ bytes

def set (p : ProcessArgs) : ArgField → ProcessArgs
  | licence v => { p with licence := v }
  | sn v => { p with sn := v }
  | content v => { p with content := v }
  | other _ _ _ => p

def Sound : ArgField → Prop
  | licence v | sn v | content v => v.length < 2147483648
  | other id t bytes => (id ≠ 1 ∧ id ≠ 2 ∧ id ≠ 3) ∧ id < 65536 ∧ t ≠ .stop ∧ (∀ b, t ≠ .other b) ∧
      Written (.value defaultRecursionDepth t) bytes

end ArgField

/-- What the fields say, the last of those with the same number. -/
def argsOf (fields : List ArgField) : ProcessArgs := fields.foldl ArgField.set ⟨[], [], []⟩

theorem readField_other (p : ProcessArgs) (t : TType) {id : Nat} (h : id ≠ 1 ∧ id ≠ 2 ∧ id ≠ 3) :
    p.readField t id = (do
      skip t
      pure p) := by
  obtain ⟨h₁, h₂, h₃⟩ := h
  match id with
  | 0 | _ + 4 => rfl
  | 1 => exact absurd rfl h₁
  | 2 => exact absurd rfl h₂
  | 3 => exact absurd rfl h₃

theorem fields_argFields (fields : List ArgField) (h : ∀ f ∈ fields, f.Sound) (p : ProcessArgs) :
    Fields ProcessArgs.readField p (fields.flatMap ArgField.write ++ writeFieldStop)
      (fields.foldl ArgField.set p) := by
  induction fields generalizing p with
  | nil => exact Fields.stop p
  | cons f fields ih =>
    have hRest := ih (fun g hg => h g (List.mem_cons_of_mem f hg)) (f.set p)
    have hSound := h f List.mem_cons_self
    rw [List.flatMap_cons, List.append_assoc, List.foldl_cons]
    cases f with
    | licence v | sn v | content v =>
      rw [ArgField.write, List.append_assoc]
      exact Fields.string (by decide) hSound rfl hRest
    | other id t bytes =>
      obtain ⟨hOther, hId, hStop, hKnown, hWritten⟩ := hSound
      rw [ArgField.write, List.append_assoc]
      refine .field hStop hKnown hId ?_ hRest
      rw [readField_other p t hOther]
      exact (consumes_skip hWritten).map rfl

/-- A request with any fields in any order, unknown ones among them, does what the last of each of
its known fields say. -/
theorem unknown_fields_ignored (errorText : TError → Bytes) {fields : List ArgField}
    (hSound : ∀ f ∈ fields, f.Sound) {seqId : Nat} (hSeqId : seqId < 4294967296) {payload rest : Bytes}
    (hPayload : payload = writeMessageBegin process .call seqId ++
      (fields.flatMap ArgField.write ++ writeFieldStop))
    (hMax : payload.length ≤ defaultMaxLength) {chunks : List Chunk}
    (hBytes : bytesOf chunks = flush payload ++ rest) :
    ∃ t, processRequest errorText ⟨chunks, 0⟩ =
        (.ok ⟨[(argsOf fields).content], resultReply process seqId success, true⟩, t) ∧ t.At rest 0 := by
  have hArgs : Consumes ProcessArgs.read (fields.flatMap ArgField.write ++ writeFieldStop) (argsOf fields) :=
    (fields_argFields fields hSound ⟨[], [], []⟩).consumes
  have hRequest : Consumes (processRequest errorText) payload
      ⟨[(argsOf fields).content], resultReply process seqId success, true⟩ := by
    rw [hPayload]
    refine (consumes_readMessageBegin .call (by decide) hSeqId).bind ?_
    simp only [processorFor, if_pos]
    exact consumes_processorFunction errorText seqId handleProcess hArgs
  rw [processRequest_eq] at hRequest ⊢
  refine hRequest.framed ?_ hMax ⟨hBytes, rfl, by decide⟩
  rw [hPayload, writeMessageBegin, List.append_assoc, List.append_assoc, List.length_append, writeI32,
    length_putUint32]
  omega

/-- A map from a number to a struct with a list of strings. -/
def extraMap : Bytes :=
  writeMapBegin .i32 .struct 1 ++ (writeI32 5 ++ ((writeFieldBegin .list 9 ++
    ((writeListBegin .string 1 ++ (writeString (text "x") ++ [])) ++ writeFieldStop)) ++ []))

theorem written_extraMap : Written (.value defaultRecursionDepth .map) extraMap := by
  refine .map nofun nofun (by decide) (.entry (.i32 rfl) (.struct ?_) .noEntries)
  refine .field nofun nofun (by decide) ?_ .stop
  exact .list nofun (by decide) (.elem (.string (by decide)) .noElems)

def withExtras : List ArgField :=
  [.content (text "old"), .other 7 .map extraMap, .content (text "hello"), .other 0 .bool [1],
    .licence (text "licence")]

theorem unknown_fields_ignored_hello : ∃ t, processRequest (fun _ => [])
      ⟨single (flush (writeMessageBegin process .call 1 ++
        (withExtras.flatMap ArgField.write ++ writeFieldStop)) ++ []), 0⟩ =
    (.ok ⟨[text "hello"], resultReply process 1 success, true⟩, t) ∧ t.At [] 0 := by
  have hSound : ∀ f ∈ withExtras, f.Sound := by
    intro f hf
    simp only [withExtras, List.mem_cons, List.not_mem_nil, or_false] at hf
    rcases hf with rfl | rfl | rfl | rfl | rfl
    · exact (by decide : (text "old").length < 2147483648)
    · exact ⟨by decide, by decide, nofun, nofun, written_extraMap⟩
    · exact (by decide : (text "hello").length < 2147483648)
    · exact ⟨by decide, by decide, nofun, nofun, .bool 1⟩
    · exact (by decide : (text "licence").length < 2147483648)
  exact unknown_fields_ignored (fun _ => []) hSound (by decide) rfl (by decide) (bytesOf_single _)

end Sara.EmsgInfPush
