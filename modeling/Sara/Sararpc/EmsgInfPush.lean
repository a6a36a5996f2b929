import Sara.Lib.Transition
import Sara.Sararpc.Thrift

/-! # Calls over a connection

The messages that a node sends to another and what the server there makes of them. A
client makes one call after the other over a connection and reads the answer of each;
the connection is not used again after a call that failed.
-/

namespace Sara.EmsgInfPush

open Lib Lib.Reading Lib.Transition Thrift

set_option autoImplicit false

structure ProcessArgs where
  licence : Bytes
  sn : Bytes
  content : Bytes
deriving DecidableEq

structure ProcessBatchArgs where
  licence : Bytes
  sn : Bytes
  contents : List Bytes
deriving DecidableEq

namespace ProcessArgs

def write (p : ProcessArgs) : Bytes :=
  writeFieldBegin .string 1 ++ (writeString p.licence ++
    (writeFieldBegin .string 2 ++ (writeString p.sn ++
      (writeFieldBegin .string 3 ++ (writeString p.content ++ writeFieldStop)))))

/-- The type of a field that is known is not looked at. -/
def readField (p : ProcessArgs) (t : TType) : Nat → Read ProcessArgs
  | 1 => do
    let v ← readString
    pure { p with licence := v }
  | 2 => do
    let v ← readString
    pure { p with sn := v }
  | 3 => do
    let v ← readString
    pure { p with content := v }
  | _ => do
    skip t
    pure p

def read : Read ProcessArgs := readStruct readField ⟨[], [], []⟩

end ProcessArgs

def readStrings : Nat → Read (List Bytes)
  | 0 => pure []
  | size + 1 => do
    let v ← readString
    let vs ← readStrings size
    pure (v :: vs)

namespace ProcessBatchArgs

def write (p : ProcessBatchArgs) : Bytes :=
  writeFieldBegin .string 1 ++ (writeString p.licence ++
    (writeFieldBegin .string 2 ++ (writeString p.sn ++
      (writeFieldBegin .list 3 ++ ((writeListBegin .string p.contents.length ++
        p.contents.flatMap writeString) ++ writeFieldStop)))))

def readField (p : ProcessBatchArgs) (t : TType) : Nat → Read ProcessBatchArgs
  | 1 => do
    let v ← readString
    pure { p with licence := v }
  | 2 => do
    let v ← readString
    pure { p with sn := v }
  | 3 => do
    let (_, size) ← readListBegin
    let vs ← readStrings size
    pure { p with contents := vs }
  | _ => do
    skip t
    pure p

def read : Read ProcessBatchArgs := readStruct readField ⟨[], [], []⟩

end ProcessBatchArgs

/-- The result of either method: what it returned, if that is set. -/
def writeResult (success : Option Bytes) : Bytes :=
  match success with
  | some v => writeFieldBegin .string 0 ++ (writeString v ++ writeFieldStop)
  | none => writeFieldStop

def readResultField (success : Option Bytes) (t : TType) : Nat → Read (Option Bytes)
  | 0 => do
    let v ← readString
    pure (some v)
  | _ => do
    skip t
    pure success

def readResult : Read (Option Bytes) := readStruct readResultField none

structure TApplicationException where
  message : Bytes
  type_ : Nat

namespace TApplicationException

def write (x : TApplicationException) : Bytes :=
  (if x.message = [] then [] else writeFieldBegin .string 1 ++ writeString x.message) ++
    (writeFieldBegin .i32 2 ++ (writeI32 x.type_ ++ writeFieldStop))

def readField (x : TApplicationException) (t : TType) : Nat → Read TApplicationException
  | 1 =>
    if t = .string then do
      let v ← readString
      pure { x with message := v }
    else do
      skip t
      pure x
  | 2 =>
    if t = .i32 then do
      let v ← readI32
      pure { x with type_ := v }
    else do
      skip t
      pure x
  | _ => do
    skip t
    pure x

def read : Read TApplicationException := readStruct readField ⟨[], 0⟩

end TApplicationException

/-! ## The server -/

/-- What a request does: the messages for the data channel, the bytes of the answer, and
whether the connection is read on. -/
structure Served where
  contents : List Bytes
  reply : Bytes
  goesOn : Bool
deriving DecidableEq

def process : Bytes := text "process"
def processBatch : Bytes := text "process_batch"
def success : Bytes := text "success"

/-- The handler puts the contents into the data channel of its node; the licence is not looked at. -/
def handleProcess (args : ProcessArgs) : List Bytes × Bytes := ([args.content], success)

def handleProcessBatch (args : ProcessBatchArgs) : List Bytes × Bytes := (args.contents, success)

def exceptionReply (name : Bytes) (seqId : Nat) (x : TApplicationException) : Bytes :=
  flush (writeMessageBegin name .exception seqId ++ x.write)

def resultReply (name : Bytes) (seqId : Nat) (retval : Bytes) : Bytes :=
  flush (writeMessageBegin name .reply seqId ++ writeResult (some retval))

section Server

-- what an error prints
variable (errorText : TError → Bytes)

/-- The handler does not fail. -/
def processorFunction {α : Type} (name : Bytes) (read : Read α) (handler : α → List Bytes × Bytes)
    (seqId : Nat) : Read Served := do
  match ← attempt read with
  | .error err => pure ⟨[], exceptionReply name seqId ⟨errorText err, protocolError⟩, false⟩
  | .ok args => pure ⟨(handler args).1, resultReply name seqId (handler args).2, true⟩

def processorProcess (seqId : Nat) : Read Served :=
  processorFunction errorText process ProcessArgs.read handleProcess seqId

def processorProcessBatch (seqId : Nat) : Read Served :=
  processorFunction errorText processBatch ProcessBatchArgs.read handleProcessBatch seqId

/-- A method that is not there is answered, and the error ends the connection all the same. -/
def processorFor (head : Bytes × Nat × Nat) : Read Served :=
  match head with
  | (name, _, seqId) =>
    if name = process then processorProcess errorText seqId
    else if name = processBatch then processorProcessBatch errorText seqId
    else do
      let _ ← attempt (skip .struct)
      pure ⟨[], exceptionReply name seqId ⟨text "Unknown function " ++ name, unknownMethod⟩, false⟩

def processRequest : Read Served := readMessageBegin >>= processorFor errorText

end Server

/-! ## The client -/

inductive Call where
  | process (args : ProcessArgs)
  | processBatch (args : ProcessBatchArgs)
deriving DecidableEq

namespace Call

def name : Call → Bytes
  | process _ => EmsgInfPush.process
  | processBatch _ => EmsgInfPush.processBatch

def args : Call → Bytes
  | process args => args.write
  | processBatch args => args.write

def contents : Call → List Bytes
  | process args => [args.content]
  | processBatch args => args.contents

/-- The message that is sent in one frame. -/
def payload (c : Call) (seqId : Nat) : Bytes := writeMessageBegin c.name .call seqId ++ c.args

end Call

/-- The answer to the call with this number, and no other. -/
def recvReply (name : Bytes) (seqId : Nat) : Read Bytes := do
  let (method, mTypeId, seqId') ← readMessageBegin
  if method ≠ name then fail (.application wrongMethodName (name ++ text " failed: wrong method name"))
  else if seqId ≠ seqId' then
    fail (.application badSequenceId (name ++ text " failed: out of sequence response"))
  else if mTypeId = TMessageType.exception.toNat then do
    let x ← TApplicationException.read
    fail (.application x.type_ x.message)
  else if mTypeId ≠ TMessageType.reply.toNat then
    fail (.application invalidMessageType (name ++ text " failed: invalid message type"))
  else do
    let result ← readResult
    pure (result.getD [])

/-! ## What was written is what is read -/

/-- No length is negative when it is read back. -/
def Call.Sound : Call → Prop
  | process a => a.licence.length < 2147483648 ∧ a.sn.length < 2147483648 ∧ a.content.length < 2147483648
  | processBatch a => a.licence.length < 2147483648 ∧ a.sn.length < 2147483648 ∧
      a.contents.length < 2147483648 ∧ ∀ v ∈ a.contents, v.length < 2147483648

theorem Fields.string {ρ : Type} {field : ρ → TType → Nat → Read ρ} {r r' : ρ} {id : Nat}
    {value rest : Bytes} {put : Bytes → ρ} (hId : id < 65536) (hValue : value.length < 2147483648)
    (hField : field r .string id = readString >>= fun v => pure (put v))
    (hRest : Fields field (put value) rest r') :
    Fields field r (writeFieldBegin .string id ++ (writeString value ++ rest)) r' := by
  refine .field nofun nofun hId ?_ hRest
  rw [hField]
  exact (consumes_readString hValue).map rfl

theorem consumes_processArgs {a : ProcessArgs} (h : (Call.process a).Sound) :
    Consumes ProcessArgs.read a.write a := by
  obtain ⟨hLicence, hSn, hContent⟩ := h
  apply Fields.consumes
  unfold ProcessArgs.write
  refine Fields.string (by decide) hLicence rfl ?_
  refine Fields.string (by decide) hSn rfl ?_
  refine Fields.string (by decide) hContent rfl ?_
  exact Fields.stop _

theorem consumes_readStrings {vs : List Bytes} (h : ∀ v ∈ vs, v.length < 2147483648) :
    Consumes (readStrings vs.length) (vs.flatMap writeString) vs := by
  induction vs with
  | nil => exact Consumes.pure []
  | cons v vs ih =>
    rw [List.flatMap_cons]
    refine (consumes_readString (h v List.mem_cons_self)).bind ?_
    exact (ih fun u hu => h u (List.mem_cons_of_mem v hu)).map rfl

theorem consumes_processBatchArgs {a : ProcessBatchArgs} (h : (Call.processBatch a).Sound) :
    Consumes ProcessBatchArgs.read a.write a := by
  obtain ⟨hLicence, hSn, hSize, hContents⟩ := h
  apply Fields.consumes
  unfold ProcessBatchArgs.write
  refine Fields.string (by decide) hLicence rfl ?_
  refine Fields.string (by decide) hSn rfl ?_
  refine .field nofun nofun (by decide) ?_ (Fields.stop _)
  refine (@consumes_readListBegin .string _ nofun hSize).bind ?_
  exact (consumes_readStrings hContents).map rfl

theorem Call.length_name (c : Call) : c.name.length ≤ 13 := by
  cases c with
  | process => exact (by decide : EmsgInfPush.process.length ≤ 13)
  | processBatch => exact (by decide : EmsgInfPush.processBatch.length ≤ 13)

section Requests

variable (errorText : TError → Bytes)

theorem consumes_processorFunction {α : Type} {name bytes : Bytes} {read : Read α} {a : α} (seqId : Nat)
    (handler : α → List Bytes × Bytes) (h : Consumes read bytes a) :
    Consumes (processorFunction errorText name read handler seqId) bytes
      ⟨(handler a).1, resultReply name seqId (handler a).2, true⟩ :=
  h.attempt.map rfl

/-- The message after its first number, which says what kind it is. -/
def Call.payloadRest (c : Call) (seqId : Nat) : Bytes := (writeString c.name ++ writeI32 seqId) ++ c.args

theorem Call.payload_eq (c : Call) (seqId : Nat) :
    c.payload seqId = writeI32 (version1 + TMessageType.call.toNat) ++ c.payloadRest seqId := by
  unfold payload payloadRest writeMessageBegin
  simp only [List.append_assoc]

theorem consumes_requestRest {c : Call} (h : c.Sound) {seqId : Nat} (hSeqId : seqId < 4294967296) :
    Consumes (readMessageRest (version1 + TMessageType.call.toNat) >>= processorFor errorText)
      (c.payloadRest seqId) ⟨c.contents, resultReply c.name seqId success, true⟩ := by
  have hName := c.length_name
  refine (consumes_readMessageRest .call (by omega) hSeqId).bind ?_
  cases c with
  | process a =>
    simp only [processorFor, Call.name, if_pos]
    exact consumes_processorFunction errorText seqId handleProcess (consumes_processArgs h)
  | processBatch a =>
    have hOther : processBatch ≠ process := by decide
    simp only [processorFor, Call.name, if_neg hOther, if_pos]
    exact consumes_processorFunction errorText seqId handleProcessBatch (consumes_processBatchArgs h)

theorem processRequest_eq :
    processRequest errorText = readI32 >>= fun v => readMessageRest v >>= processorFor errorText :=
  bind_assoc ..

theorem consumes_processRequest {c : Call} (h : c.Sound) {seqId : Nat} (hSeqId : seqId < 4294967296) :
    Consumes (processRequest errorText) (c.payload seqId)
      ⟨c.contents, resultReply c.name seqId success, true⟩ := by
  rw [c.payload_eq, processRequest_eq]
  exact (consumes_readI32 (version_lt .call)).bind (consumes_requestRest errorText h hSeqId)

theorem consumes_recvReply {name : Bytes} (hName : name.length < 2147483648) {seqId : Nat}
    (hSeqId : seqId < 4294967296) {retval : Bytes} (hRetval : retval.length < 2147483648) :
    Consumes (recvReply name seqId)
      (writeMessageBegin name .reply seqId ++ writeResult (some retval)) retval := by
  refine (consumes_readMessageBegin .reply hName hSeqId).bind ?_
  have hReply : TMessageType.reply.toNat ≠ TMessageType.exception.toNat := by decide
  simp only [ne_eq, not_true_eq_false, if_false, if_neg hReply]
  refine Consumes.map (a := some retval) ?_ rfl
  apply Fields.consumes
  exact Fields.string (by decide) hRetval rfl (Fields.stop _)

end Requests

end Sara.EmsgInfPush
