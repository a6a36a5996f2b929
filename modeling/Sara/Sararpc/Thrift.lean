import Sara.Lib.Reading
import Sara.Types.Defines

/-! # The binary protocol over framed transport

What goes over a connection between two nodes: numbers in big-endian order, strings after
their length, structs as fields with a type and a number, and each message in a frame
after its length. The bytes of the peer come in pieces of any size, none of them empty.
-/

namespace Sara.Thrift

open Lib Lib.Reading

set_option autoImplicit false

inductive TType where
  | stop | bool | byte | double | i16 | i32 | i64 | string | struct | map | set | list
  | other (b : UInt8)
deriving DecidableEq

namespace TType

def toByte : TType → UInt8
  | stop => 0
  | bool => 2
  | byte => 3
  | double => 4
  | i16 => 6
  | i32 => 8
  | i64 => 10
  | string => 11
  | struct => 12
  | map => 13
  | set => 14
  | list => 15
  | other b => b

def ofByte (b : UInt8) : TType :=
  match b.toNat with
  | 0 => stop
  | 2 => bool
  | 3 => byte
  | 4 => double
  | 6 => i16
  | 8 => i32
  | 10 => i64
  | 11 => string
  | 12 => struct
  | 13 => map
  | 14 => set
  | 15 => list
  | _ => other b

end TType

inductive TMessageType where
  | call | reply | exception
deriving DecidableEq

def TMessageType.toNat : TMessageType → Nat
  | call => 1
  | reply => 2
  | exception => 3

inductive TError where
  | eof
  | incorrectFrameSize (size : Nat)
  | notEnough (frameSize n : Nat)
  | badVersion
  | invalidDataLength
  | depthLimit
  | unknownType (t : TType)
  | application (type_ : Nat) (message : Bytes)
deriving DecidableEq

def unknownMethod : Nat := 1
def invalidMessageType : Nat := 2
def wrongMethodName : Nat := 3
def badSequenceId : Nat := 4
def protocolError : Nat := 7

/-! ## Numbers -/

def putUint16 (n : Nat) : Bytes := [UInt8.ofNat (n / 256), UInt8.ofNat n]

def putUint32 (n : Nat) : Bytes :=
  [UInt8.ofNat (n / 16777216), UInt8.ofNat (n / 65536), UInt8.ofNat (n / 256), UInt8.ofNat n]

/-- Of two or of four bytes; those of a negative number make one from the upper half. -/
def bigEndian (bytes : Bytes) : Nat := bytes.foldl (fun n b => n * 256 + b.toNat) 0

@[simp] theorem length_putUint16 (n : Nat) : (putUint16 n).length = 2 := rfl

@[simp] theorem length_putUint32 (n : Nat) : (putUint32 n).length = 4 := rfl

theorem bigEndian_putUint16 {n : Nat} (h : n < 65536) : bigEndian (putUint16 n) = n := by
  simp only [bigEndian, putUint16, List.foldl_cons, List.foldl_nil, UInt8.toNat_ofNat']
  omega

theorem bigEndian_putUint32 {n : Nat} (h : n < 4294967296) : bigEndian (putUint32 n) = n := by
  simp only [bigEndian, putUint32, List.foldl_cons, List.foldl_nil, UInt8.toNat_ofNat']
  omega

/-! ## Writing -/

def writeI16 (n : Nat) : Bytes := putUint16 n

def writeI32 (n : Nat) : Bytes := putUint32 n

def writeString (value : Bytes) : Bytes := writeI32 value.length ++ value

def writeFieldBegin (t : TType) (id : Nat) : Bytes := t.toByte :: writeI16 id

def writeFieldStop : Bytes := [TType.stop.toByte]

def writeListBegin (t : TType) (size : Nat) : Bytes := t.toByte :: writeI32 size

def version1 : Nat := 0x80010000

def writeMessageBegin (name : Bytes) (t : TMessageType) (seqId : Nat) : Bytes :=
  writeI32 (version1 + t.toNat) ++ writeString name ++ writeI32 seqId

/-- The frame that a flush sends for what has been written. -/
def flush (buf : Bytes) : Bytes := putUint32 buf.length ++ buf

/-! ## The transport -/

/-- A piece of the stream, as one read of the connection gives it. -/
structure Chunk where
  head : UInt8
  tail : Bytes
deriving DecidableEq

def Chunk.bytes (c : Chunk) : Bytes := c.head :: c.tail

/-- What the peer has sent and is not read yet, and what is left of the current frame. -/
structure Input where
  chunks : List Chunk
  frameSize : Nat
deriving DecidableEq

def bytesOf (chunks : List Chunk) : Bytes := chunks.flatMap Chunk.bytes

def Input.bytes (s : Input) : Bytes := bytesOf s.chunks

def Input.receive (s : Input) (chunks : List Chunk) : Input := { s with chunks := s.chunks ++ chunks }

def defaultMaxLength : Nat := 16384000

abbrev Read := Reading Input TError

/-- A read of the buffered connection gives no more than the piece it is at. -/
def readerRead (n : Nat) : Read Bytes := fun s =>
  match n, s.chunks with
  | 0, _ => (.ok [], s)
  | _ + 1, [] => (.error .eof, s)
  | n + 1, c :: chunks =>
    match c.tail.drop n with
    | [] => (.ok (c.head :: c.tail.take n), { s with chunks := chunks })
    | b :: tail => (.ok (c.head :: c.tail.take n), { s with chunks := ⟨b, tail⟩ :: chunks })

/-- Reads until there are `n` bytes more. A read that does not fail gives one at least. -/
def readFullLoop (read : Nat → Read Bytes) : Nat → Nat → Bytes → Read Bytes
  | _, 0, buf => pure buf
  | 0, _ + 1, _ => fail .eof
  | fuel + 1, n + 1, buf => do
    let got ← read (n + 1)
    readFullLoop read fuel (n + 1 - got.length) (buf ++ got)

def readFull (read : Nat → Read Bytes) (n : Nat) : Read Bytes := readFullLoop read n n []

def readFrameHeader : Read Nat := do
  let buf ← readFull readerRead 4
  let size := bigEndian buf
  if size > defaultMaxLength then fail (.incorrectFrameSize size) else pure size

def nextFrame : Read Unit := do
  let s ← state
  if s.frameSize = 0 then
    let size ← readFrameHeader
    modify fun s => { s with frameSize := size }
  else pure ()

/-- The size of the frame is a `uint32`: what is read beyond it makes it very large. -/
def subUint32 (a b : Nat) : Nat := (a + 4294967296 - b) % 4294967296

def readInFrame (n : Nat) : Read Bytes := do
  let got ← readerRead n
  modify fun s => { s with frameSize := subUint32 s.frameSize got.length }
  pure got

/-- More than the frame has left is an error, after what it has left was read. An error of
that read is not returned, and the read is made all the same. -/
def read (n : Nat) : Read Bytes := do
  nextFrame
  let s ← state
  if s.frameSize < n then
    match ← attempt (do nextFrame; readInFrame s.frameSize) with
    | .ok _ => fail (.notEnough s.frameSize n)
    | .error _ => readInFrame n
  else readInFrame n

def readByte : Read UInt8 := do
  nextFrame
  let s ← state
  if s.frameSize < 1 then fail (.notEnough s.frameSize 1)
  else do
    let got ← readInFrame 1
    pure (got.headD 0)

/-! ## Reading -/

def readI16 : Read Nat := do
  let buf ← readFull read 2
  pure (bigEndian buf)

def readI32 : Read Nat := do
  let buf ← readFull read 4
  pure (bigEndian buf)

def readI64 : Read Nat := do
  let buf ← readFull read 8
  pure (bigEndian buf)

def readLimit : Nat := 32768

/-- The bytes of a string, at most `readLimit` at a time. -/
def readBodyLoop : Nat → Nat → Read Bytes
  | 0, _ => pure []
  | fuel + 1, size =>
    if size = 0 then pure []
    else do
      let b ← readFull read (min size readLimit)
      let rest ← readBodyLoop fuel (size - readLimit)
      pure (b ++ rest)

def readStringBody (size : Nat) : Read Bytes := do
  let s ← state
  if size > s.frameSize then fail .invalidDataLength else readBodyLoop size size

/-- A length in the upper half is a negative one. -/
def readString : Read Bytes := do
  let size ← readI32
  if size ≥ 2147483648 then fail .invalidDataLength else readStringBody size

/-- Messages of the old form begin with the length of their name, which is not negative. -/
def readMessageRest (size : Nat) : Read (Bytes × Nat × Nat) :=
  if size ≥ 2147483648 then
    if size / 65536 * 65536 ≠ version1 then fail .badVersion
    else do
      let name ← readString
      let seqId ← readI32
      pure (name, size % 256, seqId)
  else do
    let name ← readStringBody size
    let b ← readByte
    let seqId ← readI32
    pure (name, b.toNat, seqId)

def readMessageBegin : Read (Bytes × Nat × Nat) := do
  let size ← readI32
  readMessageRest size

def readFieldBegin : Read (TType × Nat) := do
  let b ← readByte
  let t := TType.ofByte b
  if t = .stop then pure (t, 0)
  else do
    let id ← readI16
    pure (t, id)

def readListBegin : Read (TType × Nat) := do
  let b ← readByte
  let size ← readI32
  if size ≥ 2147483648 then fail .invalidDataLength else pure (TType.ofByte b, size)

def readMapBegin : Read (TType × TType × Nat) := do
  let k ← readByte
  let v ← readByte
  let size ← readI32
  if size ≥ 2147483648 then fail .invalidDataLength else pure (TType.ofByte k, TType.ofByte v, size)

/-! ## Skipping -/

def defaultRecursionDepth : Nat := 64

/-- The type of the next field where the error of reading it is not looked at. -/
def fieldTypeOnly : Read TType := do
  match ← attempt readByte with
  | .error _ => pure .stop
  | .ok b =>
    let t := TType.ofByte b
    if t = .stop then pure t
    else do
      let _ ← attempt readI16
      pure t

/-- Each field takes a byte at least. -/
def skipFields (skip : TType → Read Unit) : Nat → Read Unit
  | 0 => fail .eof
  | fuel + 1 => do
    let t ← fieldTypeOnly
    if t = .stop then pure ()
    else do
      skip t
      skipFields skip fuel

/-- The values of a map are skipped from the full depth again, and their errors are lost. -/
def skipWith (skipValue : TType → Read Unit) : Nat → TType → Read Unit
  | 0, _ => fail .depthLimit
  | depth + 1, t =>
    match t with
    | .stop => pure ()
    | .bool | .byte => do
      let _ ← readByte
    | .i16 => do
      let _ ← readI16
    | .i32 => do
      let _ ← readI32
    | .i64 | .double => do
      let _ ← readI64
    | .string => do
      let _ ← readString
    | .struct => do
      let s ← state
      skipFields (skipWith skipValue depth) (s.bytes.length + 1)
    | .map => do
      let (k, v, size) ← readMapBegin
      repeatedly (do
        skipWith skipValue depth k
        let _ ← attempt (skipValue v)) size
    | .set | .list => do
      let (e, size) ← readListBegin
      repeatedly (skipWith skipValue depth e) size
    | .other b => fail (.unknownType (.other b))

/-- A map takes six bytes, so they nest less deep than there are bytes. -/
def skipLoop : Nat → TType → Read Unit
  | 0 => fun _ => fail .eof
  | fuel + 1 => skipWith (skipLoop fuel) defaultRecursionDepth

def skip (t : TType) : Read Unit := do
  let s ← state
  skipLoop (s.bytes.length + 1) t

/-! ## Structs -/

def readFieldsLoop {ρ : Type} (field : ρ → TType → Nat → Read ρ) : Nat → ρ → Read ρ
  | 0, _ => fail .eof
  | fuel + 1, r => do
    let (t, id) ← readFieldBegin
    if t = .stop then pure r
    else do
      let r ← field r t id
      readFieldsLoop field fuel r

/-- The fields of a struct one after the other, until the stop. -/
def readStruct {ρ : Type} (field : ρ → TType → Nat → Read ρ) (r : ρ) : Read ρ := do
  let s ← state
  readFieldsLoop field (s.bytes.length + 1) r

/-! ## What the transport gives -/

/-- What is there to read, and how much of it belongs to the frame. -/
structure Input.At (s : Input) (bs : Bytes) (size : Nat) : Prop where
  bytes : s.bytes = bs
  frameSize : s.frameSize = size
  small : size < 4294967296

theorem Input.At.receive {s : Input} {bs : Bytes} {size : Nat} (h : s.At bs size) (chunks : List Chunk) :
    (s.receive chunks).At (bs ++ bytesOf chunks) size where
  bytes := by
    rw [← h.bytes]
    exact List.flatMap_append
  frameSize := h.frameSize
  small := h.small

theorem Input.At.chunks_eq_nil {s : Input} {size : Nat} (h : s.At [] size) : s.chunks = [] := by
  have hBytes := h.bytes
  cases hChunks : s.chunks with
  | nil => rfl
  | cons c chunks =>
    rw [Input.bytes, bytesOf, hChunks, List.flatMap_cons, Chunk.bytes] at hBytes
    cases hBytes

theorem readerRead_eq {s : Input} (h : s.bytes ≠ []) (n : Nat) :
    ∃ got t, readerRead (n + 1) s = (.ok got, t) ∧ got ≠ [] ∧ got.length ≤ n + 1 ∧
      s.bytes = got ++ t.bytes ∧ t.frameSize = s.frameSize := by
  obtain ⟨chunks, frameSize⟩ := s
  cases chunks with
  | nil => exact absurd rfl h
  | cons c chunks =>
    have hSplit : c.bytes = (c.head :: c.tail.take n) ++ c.tail.drop n := by
      rw [List.cons_append, List.take_append_drop]
      rfl
    have hLength : (c.head :: c.tail.take n).length ≤ n + 1 := by
      rw [List.length_cons, List.length_take]
      omega
    cases hDrop : c.tail.drop n with
    | nil =>
      refine ⟨c.head :: c.tail.take n, ⟨chunks, frameSize⟩, ?_, by simp, hLength, ?_, rfl⟩
      · simp only [readerRead, hDrop]
      · rw [hDrop, List.append_nil] at hSplit
        simp only [Input.bytes, bytesOf, List.flatMap_cons, hSplit]
    | cons b tail =>
      refine ⟨c.head :: c.tail.take n, ⟨⟨b, tail⟩ :: chunks, frameSize⟩, ?_, by simp, hLength, ?_, rfl⟩
      · simp only [readerRead, hDrop]
      · rw [hDrop] at hSplit
        simp only [Input.bytes, bytesOf, List.flatMap_cons, hSplit, List.append_assoc]
        rfl

/-- A read that gives what is there, out of the current frame or not. -/
def Gives (read : Nat → Read Bytes) (framed : Bool) : Prop :=
  ∀ (s : Input) (n : Nat), s.bytes ≠ [] → s.frameSize < 4294967296 → (framed = true → n + 1 ≤ s.frameSize) →
    ∃ got t, read (n + 1) s = (.ok got, t) ∧ got ≠ [] ∧ got.length ≤ n + 1 ∧ s.bytes = got ++ t.bytes ∧
      t.frameSize = s.frameSize - if framed then got.length else 0

theorem gives_readerRead : Gives readerRead false := by
  intro s n hBytes _ _
  exact readerRead_eq hBytes n

theorem subUint32_of_le {a b : Nat} (ha : a < 4294967296) (hb : b ≤ a) : subUint32 a b = a - b := by
  unfold subUint32
  omega

theorem Input.bytes_resize (s : Input) (size : Nat) : ({ s with frameSize := size }).bytes = s.bytes := rfl

theorem Input.frameSize_resize (s : Input) (size : Nat) : ({ s with frameSize := size }).frameSize = size := rfl

theorem readInFrame_eq {s : Input} (h : s.bytes ≠ []) (n : Nat) :
    ∃ got t, readInFrame (n + 1) s = (.ok got, t) ∧ got ≠ [] ∧ got.length ≤ n + 1 ∧
      s.bytes = got ++ t.bytes ∧ t.frameSize = subUint32 s.frameSize got.length := by
  obtain ⟨got, t, hRead, hNonempty, hLength, hBytes, hFrame⟩ := readerRead_eq h n
  refine ⟨got, { t with frameSize := subUint32 t.frameSize got.length }, ?_, hNonempty, hLength, ?_, ?_⟩
  · unfold readInFrame
    rw [bind_ok hRead, modify_bind, pure_apply]
  · exact hBytes.trans (congrArg (got ++ ·) (Input.bytes_resize t _).symm)
  · exact (Input.frameSize_resize t _).trans (by rw [hFrame])

theorem nextFrame_inside {s : Input} (h : 0 < s.frameSize) : nextFrame s = (.ok (), s) := by
  unfold nextFrame
  rw [state_bind, if_neg (by omega)]
  rfl

theorem read_inside {s : Input} {n : Nat} (hPos : 0 < s.frameSize) (h : n ≤ s.frameSize) :
    read n s = readInFrame n s := by
  unfold read
  rw [bind_ok (nextFrame_inside hPos), state_bind, if_neg (by omega)]

theorem gives_read : Gives read true := by
  intro s n hBytes hSmall hEnough
  have hFits := hEnough rfl
  obtain ⟨got, t, hRead, hNonempty, hLength, hSplit, hFrame⟩ := readInFrame_eq hBytes n
  refine ⟨got, t, ?_, hNonempty, hLength, hSplit, ?_⟩
  · rw [read_inside (by omega) hFits, hRead]
  · rw [hFrame, if_pos rfl, subUint32_of_le hSmall (by omega)]

theorem split_of_append {a b c d : Bytes} (h : a ++ b = c ++ d) (hLength : c.length ≤ a.length) :
    c ++ a.drop c.length = a ∧ d = a.drop c.length ++ b := by
  have hTake := congrArg (List.take c.length) h
  have hDrop := congrArg (List.drop c.length) h
  rw [List.take_left, List.take_append_of_le_length hLength] at hTake
  rw [List.drop_left, List.drop_append_of_le_length hLength] at hDrop
  refine ⟨?_, hDrop.symm⟩
  conv_lhs => rw [← hTake, List.length_take, Nat.min_eq_left hLength]
  exact List.take_append_drop ..

/-- However the stream was cut, the bytes asked for are put together again. -/
theorem readFullLoop_eq {read : Nat → Read Bytes} {framed : Bool} (hGives : Gives read framed)
    (bytes rest buf : Bytes) (fuel : Nat) (hFuel : bytes.length ≤ fuel) {s : Input}
    (hBytes : s.bytes = bytes ++ rest) (hSmall : s.frameSize < 4294967296)
    (hEnough : framed = true → bytes.length ≤ s.frameSize) :
    ∃ t, readFullLoop read fuel bytes.length buf s = (.ok (buf ++ bytes), t) ∧ t.bytes = rest ∧
      t.frameSize = s.frameSize - if framed then bytes.length else 0 := by
  induction fuel generalizing bytes buf s with
  | zero =>
    obtain rfl : bytes = [] := List.length_eq_zero_iff.mp (by omega)
    exact ⟨s, by simp [readFullLoop, pure_apply], hBytes, by simp⟩
  | succ fuel ih =>
    cases bytes with
    | nil => exact ⟨s, by simp [readFullLoop, pure_apply], hBytes, by simp⟩
    | cons b bytes =>
      have hNonempty : s.bytes ≠ [] := by simp [hBytes]
      obtain ⟨got, t, hRead, hGot, hLength, hSplit, hFrame⟩ := hGives s bytes.length hNonempty hSmall hEnough
      rw [List.length_cons] at hEnough hFuel
      have hGotPos : 0 < got.length := List.length_pos_iff.mpr hGot
      -- the bytes read are the first of those asked for
      obtain ⟨hAll, hDrop⟩ := split_of_append (hBytes.symm.trans hSplit) (by simpa using hLength)
      have hLeft : ((b :: bytes).drop got.length).length = bytes.length + 1 - got.length := by
        rw [List.length_drop, List.length_cons]
      have hAfter : t.frameSize ≤ s.frameSize := by
        rw [hFrame]
        omega
      obtain ⟨u, hLoop, hRest, hEnd⟩ := ih ((b :: bytes).drop got.length) (buf ++ got)
        (by omega) hDrop (by omega) (by
          intro hFramed
          have hFits := hEnough hFramed
          rw [hFrame, if_pos hFramed]
          omega)
      refine ⟨u, ?_, hRest, ?_⟩
      · rw [hLeft] at hLoop
        rw [List.length_cons, readFullLoop, bind_ok hRead, hLoop, List.append_assoc, hAll]
      · rw [hEnd, hFrame, hLeft, List.length_cons]
        cases framed with
        | false => rfl
        | true =>
          have hFits := hEnough rfl
          simp only [if_true]
          omega

/-- The program reads these bytes, all out of the frame, and gives this result. -/
def Consumes {α : Type} (m : Read α) (bytes : Bytes) (a : α) : Prop :=
  ∀ (s : Input) (rest : Bytes) (n : Nat), s.At (bytes ++ rest) (bytes.length + n) →
    ∃ t, m s = (.ok a, t) ∧ t.At rest n

namespace Consumes

variable {α β : Type} {m : Read α} {f : α → Read β} {a : α} {b : β} {bytes bytes' : Bytes}

theorem pure (a : α) : Consumes (pure a) [] a := by
  intro s rest n h
  rw [List.length_nil, Nat.zero_add] at h
  exact ⟨s, rfl, h⟩

theorem bind (h : Consumes m bytes a) (h' : Consumes (f a) bytes' b) :
    Consumes (m >>= f) (bytes ++ bytes') b := by
  intro s rest n hs
  rw [List.append_assoc, List.length_append, Nat.add_assoc] at hs
  obtain ⟨t, hm, ht⟩ := h s (bytes' ++ rest) (bytes'.length + n) hs
  obtain ⟨u, hf, hu⟩ := h' t rest n ht
  exact ⟨u, (bind_ok hm).trans hf, hu⟩

theorem map (h : Consumes m bytes a) (h' : f a = Pure.pure b) : Consumes (m >>= f) bytes b := by
  have hPure : Consumes (f a) [] b := by
    rw [h']
    exact pure b
  have hBind := h.bind hPure
  rwa [List.append_nil] at hBind

theorem attempt (h : Consumes m bytes a) : Consumes (Reading.attempt m) bytes (.ok a) := by
  intro s rest n hs
  obtain ⟨t, hm, ht⟩ := h s rest n hs
  refine ⟨t, ?_, ht⟩
  change (Except.ok (m s).1, (m s).2) = _
  rw [hm]

end Consumes

theorem consumes_readFull (bytes : Bytes) : Consumes (readFull read bytes.length) bytes bytes := by
  intro s rest n h
  have hFrame := h.frameSize
  have hSmall := h.small
  obtain ⟨t, hLoop, hRest, hEnd⟩ := readFullLoop_eq gives_read bytes rest [] bytes.length Nat.le.refl h.bytes
    (by omega) (by omega)
  refine ⟨t, hLoop, hRest, ?_, by omega⟩
  rw [hEnd, if_pos rfl]
  omega

/-! ## Reading back what was written -/

theorem consumes_readByte (b : UInt8) : Consumes readByte [b] b := by
  intro s rest n h
  have hFrame := h.frameSize
  have hSmall := h.small
  rw [List.length_singleton] at hFrame hSmall
  obtain ⟨got, t, hRead, hGot, hLength, hSplit, hEnd⟩ :=
    readInFrame_eq (s := s) (by simp [h.bytes]) 0
  obtain ⟨c, rfl⟩ : ∃ c, got = [c] := List.length_eq_one_iff.mp
    (Nat.le_antisymm hLength (List.length_pos_iff.mpr hGot))
  have hBytes : c :: t.bytes = b :: rest := hSplit.symm.trans h.bytes
  obtain ⟨rfl, hRest⟩ := List.cons.inj hBytes
  refine ⟨t, ?_, hRest, ?_, by omega⟩
  · unfold readByte
    rw [bind_ok (nextFrame_inside (by omega)), state_bind, if_neg (by omega), bind_ok hRead]
    rfl
  · rw [hEnd, List.length_singleton, subUint32_of_le (by omega) (by omega)]
    omega

theorem consumes_readI16 {n : Nat} (h : n < 65536) : Consumes readI16 (writeI16 n) n := by
  refine (consumes_readFull (writeI16 n)).map ?_
  rw [writeI16, bigEndian_putUint16 h]

theorem consumes_readI32 {n : Nat} (h : n < 4294967296) : Consumes readI32 (writeI32 n) n := by
  refine (consumes_readFull (writeI32 n)).map ?_
  rw [writeI32, bigEndian_putUint32 h]

theorem consumes_readBodyLoop (value : Bytes) (fuel : Nat) (hFuel : value.length ≤ fuel) :
    Consumes (readBodyLoop fuel value.length) value value := by
  induction fuel generalizing value with
  | zero =>
    obtain rfl : value = [] := List.length_eq_zero_iff.mp (by omega)
    exact Consumes.pure []
  | succ fuel ih =>
    cases value with
    | nil => exact Consumes.pure []
    | cons b value =>
      have hTake : ((b :: value).take readLimit).length = min (b :: value).length readLimit := by
        rw [List.length_take, Nat.min_comm]
      have hDrop : ((b :: value).drop readLimit).length = (b :: value).length - readLimit :=
        List.length_drop ..
      have hLess : ((b :: value).drop readLimit).length ≤ fuel := by
        rw [hDrop, readLimit]
        rw [List.length_cons] at hFuel ⊢
        omega
      have hFirst := consumes_readFull ((b :: value).take readLimit)
      have hRest := ih ((b :: value).drop readLimit) hLess
      rw [hTake] at hFirst
      rw [hDrop] at hRest
      have hBoth : Consumes (do
          let first ← readFull read (min (b :: value).length readLimit)
          let rest ← readBodyLoop fuel ((b :: value).length - readLimit)
          pure (first ++ rest)) ((b :: value).take readLimit ++ (b :: value).drop readLimit)
          ((b :: value).take readLimit ++ (b :: value).drop readLimit) := hFirst.bind (hRest.map rfl)
      rw [List.take_append_drop] at hBoth
      unfold readBodyLoop
      rw [if_neg (by rw [List.length_cons]; omega)]
      exact hBoth

theorem consumes_readStringBody (value : Bytes) : Consumes (readStringBody value.length) value value := by
  intro s rest n h
  have hFrame := h.frameSize
  unfold readStringBody
  rw [state_bind, if_neg (by omega)]
  exact consumes_readBodyLoop value value.length Nat.le.refl s rest n h

theorem consumes_readString {value : Bytes} (h : value.length < 2147483648) :
    Consumes readString (writeString value) value := by
  refine (consumes_readI32 (by omega)).bind ?_
  rw [if_neg (by omega)]
  exact consumes_readStringBody value

/-- The types that are not unknown ones. -/
theorem TType.ofByte_toByte {t : TType} (h : ∀ b, t ≠ .other b) : TType.ofByte t.toByte = t := by
  cases t with
  | other b => exact absurd rfl (h b)
  | stop | bool | byte | double | i16 | i32 | i64 | string | struct | map | set | list => rfl

theorem consumes_readFieldBegin {t : TType} {id : Nat} (hStop : t ≠ .stop) (hKnown : ∀ b, t ≠ .other b)
    (hId : id < 65536) : Consumes readFieldBegin (writeFieldBegin t id) (t, id) := by
  refine (consumes_readByte t.toByte).bind ?_
  rw [TType.ofByte_toByte hKnown, if_neg hStop]
  exact (consumes_readI16 hId).map rfl

theorem consumes_fieldStop : Consumes readFieldBegin writeFieldStop (.stop, 0) :=
  (consumes_readByte TType.stop.toByte).map rfl

theorem consumes_readListBegin {t : TType} {size : Nat} (hKnown : ∀ b, t ≠ .other b)
    (hSize : size < 2147483648) : Consumes readListBegin (writeListBegin t size) (t, size) := by
  refine (consumes_readByte t.toByte).bind ?_
  refine (consumes_readI32 (by omega)).map ?_
  rw [if_neg (by omega), TType.ofByte_toByte hKnown]

theorem consumes_readMessageRest {name : Bytes} (t : TMessageType) {seqId : Nat}
    (hName : name.length < 2147483648) (hSeqId : seqId < 4294967296) :
    Consumes (readMessageRest (version1 + t.toNat)) (writeString name ++ writeI32 seqId)
      (name, t.toNat, seqId) := by
  have hType : t.toNat < 256 := by cases t <;> decide
  have hVersion : version1 = 2147549184 := rfl
  unfold readMessageRest
  rw [if_pos (by omega), if_neg (by rw [not_not]; omega)]
  refine (consumes_readString hName).bind ((consumes_readI32 hSeqId).map ?_)
  rw [show (version1 + t.toNat) % 256 = t.toNat by omega]

theorem version_lt (t : TMessageType) : version1 + t.toNat < 4294967296 := by
  cases t <;> decide

theorem consumes_readMessageBegin {name : Bytes} (t : TMessageType) {seqId : Nat}
    (hName : name.length < 2147483648) (hSeqId : seqId < 4294967296) :
    Consumes readMessageBegin (writeMessageBegin name t seqId) (name, t.toNat, seqId) := by
  unfold writeMessageBegin
  rw [List.append_assoc]
  exact (consumes_readI32 (version_lt t)).bind (consumes_readMessageRest t hName hSeqId)

/-- The bytes of the fields of a struct, as they make one record out of another. -/
inductive Fields {ρ : Type} (field : ρ → TType → Nat → Read ρ) : ρ → Bytes → ρ → Prop where
  | stop (r : ρ) : Fields field r writeFieldStop r
  | field {r r₁ r₂ : ρ} {t : TType} {id : Nat} {bytes rest : Bytes} (hStop : t ≠ .stop)
      (hKnown : ∀ b, t ≠ .other b) (hId : id < 65536) (hField : Consumes (field r t id) bytes r₁)
      (hRest : Fields field r₁ rest r₂) : Fields field r (writeFieldBegin t id ++ (bytes ++ rest)) r₂

theorem Fields.consumes_loop {ρ : Type} {field : ρ → TType → Nat → Read ρ} {r r' : ρ} {bytes : Bytes}
    (h : Fields field r bytes r') (fuel : Nat) (hFuel : bytes.length ≤ fuel) :
    Consumes (readFieldsLoop field fuel r) bytes r' := by
  induction h generalizing fuel with
  | stop r =>
    cases fuel with
    | zero => cases hFuel
    | succ fuel => exact consumes_fieldStop.map rfl
  | field hStop hKnown hId hField _ ih =>
    cases fuel with
    | zero =>
      rw [List.length_append, writeFieldBegin, List.length_cons] at hFuel
      omega
    | succ fuel =>
      refine (consumes_readFieldBegin hStop hKnown hId).bind ?_
      simp only [if_neg hStop]
      refine hField.bind (ih fuel ?_)
      rw [List.length_append, List.length_append, writeFieldBegin, List.length_cons] at hFuel
      omega

theorem Fields.consumes {ρ : Type} {field : ρ → TType → Nat → Read ρ} {r r' : ρ} {bytes : Bytes}
    (h : Fields field r bytes r') : Consumes (readStruct field r) bytes r' := by
  intro s rest n hs
  unfold readStruct
  rw [state_bind]
  refine h.consumes_loop _ ?_ s rest n hs
  rw [hs.bytes, List.length_append]
  omega

/-! ## Messages in frames -/

theorem readFrameHeader_eq {s : Input} {rest : Bytes} {size : Nat} (h : s.At (putUint32 size ++ rest) 0)
    (hSmall : size < 4294967296) :
    ∃ t, t.At rest 0 ∧ readFrameHeader s = (if size > defaultMaxLength then
      fail (.incorrectFrameSize size) else pure size : Read Nat) t := by
  have hFrame := h.frameSize
  obtain ⟨t, hLoop, hRest, hSame⟩ := readFullLoop_eq gives_readerRead (putUint32 size) rest [] 4 Nat.le.refl
    h.bytes (by omega) nofun
  have hFull : readFull readerRead 4 s = (.ok (putUint32 size), t) := hLoop
  have hZero : t.frameSize = 0 := by
    rw [hSame, hFrame]
    rfl
  refine ⟨t, ⟨hRest, hZero, by omega⟩, ?_⟩
  unfold readFrameHeader
  rw [bind_ok hFull, bigEndian_putUint32 hSmall]

theorem nextFrame_header {s : Input} {rest : Bytes} {size : Nat} (h : s.At (putUint32 size ++ rest) 0)
    (hMax : size ≤ defaultMaxLength) : ∃ t, nextFrame s = (.ok (), t) ∧ t.At rest size := by
  have hSmall : size < 4294967296 := Nat.lt_of_le_of_lt hMax (by decide)
  obtain ⟨t, ht, hHeader⟩ := readFrameHeader_eq h hSmall
  rw [if_neg (by omega), pure_apply] at hHeader
  refine ⟨{ t with frameSize := size }, ?_, (Input.bytes_resize t size).trans ht.bytes, rfl, hSmall⟩
  unfold nextFrame
  rw [state_bind, if_pos h.frameSize, bind_ok hHeader]
  rfl

theorem nextFrame_too_long {s : Input} {rest : Bytes} {size : Nat} (h : s.At (putUint32 size ++ rest) 0)
    (hSmall : size < 4294967296) (hMax : defaultMaxLength < size) :
    ∃ t, nextFrame s = (.error (.incorrectFrameSize size), t) ∧ t.At rest 0 := by
  obtain ⟨t, ht, hHeader⟩ := readFrameHeader_eq h hSmall
  rw [if_pos hMax] at hHeader
  refine ⟨t, ?_, ht⟩
  unfold nextFrame
  rw [state_bind, if_pos h.frameSize, bind_error hHeader]

theorem read_newFrame {s t : Input} (h : nextFrame s = (.ok (), t)) (hPos : 0 < t.frameSize) (n : Nat) :
    read n s = read n t := by
  unfold read
  rw [bind_ok h, bind_ok (nextFrame_inside hPos)]

/-- A program that begins with a number reads on in the next frame. -/
theorem readI32_bind_newFrame {β : Type} {f : Nat → Read β} {s t : Input} (h : nextFrame s = (.ok (), t))
    (hPos : 0 < t.frameSize) : (readI32 >>= f) s = (readI32 >>= f) t :=
  bind_congr_start (bind_congr_start (bind_congr_start (read_newFrame h hPos 4)))

/-- A message alone in its frame. -/
theorem Consumes.framed {β : Type} {f : Nat → Read β} {payload rest : Bytes} {b : β}
    (h : Consumes (readI32 >>= f) payload b) (hPos : 0 < payload.length)
    (hMax : payload.length ≤ defaultMaxLength) {s : Input} (hs : s.At (flush payload ++ rest) 0) :
    ∃ t, (readI32 >>= f) s = (.ok b, t) ∧ t.At rest 0 := by
  rw [flush, List.append_assoc] at hs
  obtain ⟨u, hNext, hu⟩ := nextFrame_header hs hMax
  obtain ⟨t, hRead, ht⟩ := h u rest 0 hu
  refine ⟨t, ?_, ht⟩
  rw [readI32_bind_newFrame hNext (by rw [hu.frameSize]; exact hPos), hRead]

theorem readI32_too_long {β : Type} {f : Nat → Read β} {s : Input} {rest : Bytes} {size : Nat}
    (h : s.At (putUint32 size ++ rest) 0) (hSmall : size < 4294967296) (hMax : defaultMaxLength < size) :
    ∃ t, (readI32 >>= f) s = (.error (.incorrectFrameSize size), t) := by
  obtain ⟨t, hNext, _⟩ := nextFrame_too_long h hSmall hMax
  have hRead : read 4 s = (.error (.incorrectFrameSize size), t) := by
    unfold read
    exact bind_error hNext
  exact ⟨t, bind_error (bind_error (bind_error hRead))⟩

/-- At the end of the connection. -/
theorem readI32_eof {β : Type} {f : Nat → Read β} {s : Input} (h : s.At [] 0) :
    (readI32 >>= f) s = (.error .eof, s) := by
  have hReader : readerRead 4 s = (.error .eof, s) := by
    unfold readerRead
    rw [h.chunks_eq_nil]
  have hHeader : readFrameHeader s = (.error .eof, s) := bind_error (bind_error hReader)
  have hNext : nextFrame s = (.error .eof, s) := by
    unfold nextFrame
    rw [state_bind, if_pos h.frameSize, bind_error hHeader]
  have hRead : read 4 s = (.error .eof, s) := bind_error hNext
  exact bind_error (bind_error (bind_error hRead))

/-! ## Out of frame -/

/-- After an empty frame the header of the next one is read where its error is lost. If that one
is too long, the read goes on without a frame, and what it reads is taken off a size of zero. -/
theorem readI32_after_empty {s : Input} {rest : Bytes} {size v : Nat}
    (h : s.At (putUint32 0 ++ (putUint32 size ++ (writeI32 v ++ rest))) 0) (hSmall : size < 4294967296)
    (hMax : defaultMaxLength < size) (hv : v < 4294967296) :
    ∃ t, readI32 s = (.ok v, t) ∧ t.At rest 4294967292 := by
  obtain ⟨s₁, hEmpty, h₁⟩ := nextFrame_header h (Nat.zero_le _)
  obtain ⟨s₂, hLong, h₂⟩ := nextFrame_too_long h₁ hSmall hMax
  have hNonempty : s₂.bytes ≠ [] := by simp [h₂.bytes, writeI32, putUint32]
  obtain ⟨got, s₃, hGot, hSome, hLength, hSplit, hFrame⟩ := readInFrame_eq hNonempty 3
  rw [h₂.frameSize] at hFrame
  have hRead : read 4 s = (.ok got, s₃) := by
    unfold read
    rw [bind_ok hEmpty, state_bind, if_pos (by rw [h₁.frameSize]; decide), attempt_bind, bind_error hLong]
    exact hGot
  obtain ⟨hAll, hDrop⟩ := split_of_append (h₂.bytes.symm.trans hSplit) hLength
  have hLeft : ((writeI32 v).drop got.length).length = 4 - got.length := List.length_drop ..
  have hPos : 0 < got.length := List.length_pos_iff.mpr hSome
  have hSize : s₃.frameSize = 4294967296 - got.length := by
    rw [hFrame, subUint32]
    omega
  obtain ⟨t, hLoop, hRest, hEnd⟩ := readFullLoop_eq gives_read ((writeI32 v).drop got.length) rest got 3
    (by omega) hDrop (by omega) (by omega)
  have hFull : readFull read 4 s = (.ok (writeI32 v), t) := by
    unfold readFull
    rw [readFullLoop, bind_ok hRead, List.nil_append, ← hLeft, hLoop, hAll]
  refine ⟨t, ?_, hRest, ?_, by decide⟩
  · unfold readI32
    rw [bind_ok hFull, writeI32, bigEndian_putUint32 hv]
    rfl
  · rw [hEnd, if_pos rfl, hLeft, hSize]
    omega

end Sara.Thrift
