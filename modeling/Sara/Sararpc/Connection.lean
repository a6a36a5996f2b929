import Sara.Lib.Transition
import Sara.Sararpc.EmsgInfPush

/-! # Calls over a connection

A client makes one call after the other over a connection and reads the answer of each;
the connection is not used again after a call that failed. The network cuts what either
side sends into pieces as it likes.

The server takes what the client sends, call by call and as it was given, and every
answer is that of the call it is read for. A call fails if and only if its message is
longer than a frame may be. A peer that wants to can send longer messages than that.
-/

namespace Sara.EmsgInfPush

open Lib Lib.Reading Lib.Transition Thrift

set_option autoImplicit false

namespace Call

def size (c : Call) : Nat := (c.payload 0).length

def fits (c : Call) : Bool := c.size ≤ defaultMaxLength

/-- What the call returns, if it does not fail. -/
def outcome (c : Call) : Option Bytes := if c.fits then some success else none

theorem length_payload (c : Call) (seqId : Nat) : (c.payload seqId).length = c.size := by
  simp [size, payload, writeMessageBegin, writeI32]

theorem payload_pos (c : Call) (seqId : Nat) : 0 < (c.payload seqId).length := by
  simp only [payload, writeMessageBegin, writeI32, List.length_append, length_putUint32]
  omega

end Call

theorem length_writeString (value : Bytes) : (writeString value).length = 4 + value.length := by
  simp [writeString, writeI32]

theorem length_le_flatMap_writeString (vs : List Bytes) :
    vs.length ≤ (vs.flatMap writeString).length ∧
      ∀ v ∈ vs, v.length ≤ (vs.flatMap writeString).length := by
  induction vs with
  | nil => exact ⟨Nat.le.refl, nofun⟩
  | cons v vs ih =>
    rw [List.flatMap_cons, List.length_append, length_writeString, List.length_cons]
    refine ⟨by omega, List.forall_mem_cons.mpr ⟨by omega, ?_⟩⟩
    intro u hu
    have hLe := ih.2 u hu
    omega

theorem Call.sound_of_size {c : Call} (h : c.size < 2147483648) : c.Sound := by
  unfold size payload at h
  rw [List.length_append] at h
  cases c with
  | process a =>
    simp only [args, ProcessArgs.write, List.length_append, length_writeString] at h
    exact ⟨by omega, by omega, by omega⟩
  | processBatch a =>
    simp only [args, ProcessBatchArgs.write, List.length_append, length_writeString] at h
    obtain ⟨hMany, hEach⟩ := length_le_flatMap_writeString a.contents
    refine ⟨by omega, by omega, by omega, ?_⟩
    intro v hv
    have hLe := hEach v hv
    omega

/-! ## The connection -/

structure Conn where
  /-- The number of the last call. -/
  seqId : Nat
  /-- The method whose answer the client waits for. -/
  pending : Option Bytes
  server : Input
  client : Input
  serving : Bool
  dataCh : List Bytes
  results : List (Except TError Bytes)

def Conn.opened : Conn where
  seqId := 0
  pending := none
  server := ⟨[], 0⟩
  client := ⟨[], 0⟩
  serving := true
  dataCh := []
  results := []

inductive Act where
  | send (call : Call) (chunks : List Chunk)
  | serve (chunks : List Chunk)
  | recv

def Act.call : Act → Option Call
  | .send call _ => some call
  | .serve _ | .recv => none

section Step

variable (errorText : TError → Bytes)

def step (c : Conn) : Act → Option Conn
  | .send call chunks =>
    let seqId := (c.seqId + 1) % 4294967296
    if c.pending = none ∧ c.results.all Except.isOk ∧ bytesOf chunks = flush (call.payload seqId) then
      some { c with seqId := seqId, pending := some call.name, server := c.server.receive chunks }
    else none
  | .serve chunks =>
    if c.serving = false ∨ c.server.chunks = [] then none
    else
      match processRequest errorText c.server with
      | (.error _, server) => some { c with server := server, serving := false }
      | (.ok served, server) =>
        if bytesOf chunks = served.reply then
          some { c with
            server := server
            client := c.client.receive chunks
            serving := served.goesOn
            dataCh := c.dataCh ++ served.contents }
        else none
  | .recv =>
    match c.pending with
    | none => none
    | some name =>
      if c.serving ∧ c.client.chunks = [] then none
      else
        let (result, client) := recvReply name c.seqId c.client
        some { c with pending := none, client := client, results := c.results ++ [result] }

end Step

/-! ## The phases of a call -/

def taken (calls : List Call) : List Bytes := (calls.filter Call.fits).flatMap Call.contents

/-- The calls that have returned, with what they returned and what the server took. -/
structure Settled (calls : List Call) (c : Conn) : Prop where
  results : c.results.map Except.toOption = calls.map Call.outcome
  dataCh : c.dataCh = taken calls

/-- Before a call, after its message was sent, after it was taken or refused, and after a call
that failed. -/
inductive Phase : List Call → Conn → Prop where
  | idle {calls : List Call} {c : Conn} (h : Settled calls c) (hSeqId : c.seqId < 4294967296)
      (hPending : c.pending = none) (hServing : c.serving = true) (hServer : c.server.At [] 0)
      (hClient : c.client.At [] 0) : Phase calls c
  | sent {calls : List Call} {call : Call} {c : Conn} (h : Settled calls c) (hSeqId : c.seqId < 4294967296)
      (hSmall : call.size < 4294967296) (hPending : c.pending = some call.name) (hServing : c.serving = true)
      (hServer : c.server.At (flush (call.payload c.seqId)) 0) (hClient : c.client.At [] 0) :
      Phase (calls ++ [call]) c
  | served {calls : List Call} {call : Call} {c : Conn} (hFits : call.fits = true)
      (hResults : c.results.map Except.toOption = calls.map Call.outcome)
      (hData : c.dataCh = taken (calls ++ [call])) (hSeqId : c.seqId < 4294967296)
      (hPending : c.pending = some call.name) (hServing : c.serving = true) (hServer : c.server.At [] 0)
      (hClient : c.client.At (resultReply call.name c.seqId success) 0) : Phase (calls ++ [call]) c
  | refused {calls : List Call} {call : Call} {c : Conn} (h : Settled calls c) (hFits : call.fits = false)
      (hPending : c.pending = some call.name) (hServing : c.serving = false) (hClient : c.client.At [] 0) :
      Phase (calls ++ [call]) c
  | failed {calls : List Call} {c : Conn} (h : Settled calls c) (hFailed : c.results.all Except.isOk = false)
      (hPending : c.pending = none) (hServing : c.serving = false) : Phase calls c

/-- Reading a message begins with a number. -/
theorem recvReply_eq (name : Bytes) (seqId : Nat) : ∃ f, recvReply name seqId = readI32 >>= f :=
  ⟨_, bind_assoc ..⟩

theorem length_reply (name : Bytes) (seqId : Nat) :
    (writeMessageBegin name .reply seqId ++ writeResult (some success)).length = name.length + 27 := by
  have hSuccess : success.length = 7 := by decide
  simp only [writeMessageBegin, writeResult, writeFieldBegin, writeFieldStop, writeI16, writeI32,
    List.length_append, List.length_cons, List.length_nil, length_writeString, length_putUint32,
    length_putUint16, hSuccess]
  omega

theorem taken_concat_of_fits (calls : List Call) {call : Call} (h : call.fits = true) :
    taken (calls ++ [call]) = taken calls ++ call.contents := by
  simp [taken, List.filter_append, h]

theorem taken_concat_of_not_fits (calls : List Call) {call : Call} (h : call.fits = false) :
    taken (calls ++ [call]) = taken calls := by
  simp [taken, List.filter_append, h]

section Steps

variable {errorText : TError → Bytes} {calls : List Call} {c c' : Conn}

theorem Phase.send (h : Phase calls c) {call : Call} {chunks : List Chunk} (hSmall : call.size < 4294967296)
    (hStep : step errorText c (.send call chunks) = some c') : Phase (calls ++ [call]) c' := by
  obtain ⟨⟨hNone, hOk, hBytes⟩, hEq⟩ := Option.ite_none_right_eq_some.mp hStep
  cases hEq
  cases h with
  | idle hSettled hSeqId hPending hServing hServer hClient =>
    refine .sent ⟨hSettled.results, hSettled.dataCh⟩ (Nat.mod_lt _ (by decide)) hSmall rfl hServing ?_ hClient
    have hReceived := hServer.receive chunks
    rwa [hBytes, List.nil_append] at hReceived
  | sent _ _ _ hPending | served _ _ _ _ hPending | refused _ _ hPending => cases hNone.symm.trans hPending
  | failed _ hFailed => cases hOk.symm.trans hFailed

theorem Phase.serve (h : Phase calls c) {chunks : List Chunk}
    (hStep : step errorText c (.serve chunks) = some c') : Phase calls c' := by
  obtain ⟨hReady, hStep⟩ := Option.ite_none_left_eq_some.mp hStep
  obtain ⟨hServes, hChunks⟩ := not_or.mp hReady
  cases h with
  | idle _ _ _ _ hServer | served _ _ _ _ _ _ hServer => exact absurd hServer.chunks_eq_nil hChunks
  | refused _ _ _ hServing | failed _ _ _ hServing => exact absurd hServing hServes
  | @sent calls call _ hSettled hSeqId hSmall hPending hServing hServer hClient =>
    have hProcess := processRequest_eq errorText
    have hLength := call.length_payload c.seqId
    cases hFits : call.fits with
    | true =>
      have hMax : call.size ≤ defaultMaxLength := of_decide_eq_true hFits
      have hSound : call.Sound := Call.sound_of_size (Nat.lt_of_le_of_lt hMax (by decide))
      have hConsumes := consumes_processRequest errorText hSound hSeqId
      rw [hProcess] at hConsumes
      rw [← List.append_nil (flush _)] at hServer
      obtain ⟨t, hRead, ht⟩ := hConsumes.framed (call.payload_pos c.seqId) (by omega) hServer
      rw [hProcess, hRead] at hStep
      obtain ⟨hReply, hEq⟩ := Option.ite_none_right_eq_some.mp hStep
      cases hEq
      have hReceived := hClient.receive chunks
      rw [hReply, List.nil_append] at hReceived
      refine .served hFits hSettled.results ?_ hSeqId hPending rfl ht hReceived
      rw [taken_concat_of_fits calls hFits, hSettled.dataCh]
    | false =>
      have hMax : ¬call.size ≤ defaultMaxLength := of_decide_eq_false hFits
      rw [flush] at hServer
      obtain ⟨t, hRead⟩ := readI32_too_long hServer (by omega) (by omega)
      rw [hProcess, hRead] at hStep
      cases hStep
      exact .refused ⟨hSettled.results, hSettled.dataCh⟩ hFits hPending rfl hClient

theorem Phase.recv (h : Phase calls c) (hStep : step errorText c .recv = some c') : Phase calls c' := by
  cases h with
  | idle _ _ hPending | failed _ _ hPending =>
    simp only [step, hPending] at hStep
    cases hStep
  | sent _ _ _ hPending hServing _ hClient =>
    simp only [step, hPending] at hStep
    obtain ⟨hWaits, _⟩ := Option.ite_none_left_eq_some.mp hStep
    exact absurd ⟨hServing, hClient.chunks_eq_nil⟩ hWaits
  | @served calls call _ hFits hResults hData hSeqId hPending hServing hServer hClient =>
    simp only [step, hPending] at hStep
    obtain ⟨_, hEq⟩ := Option.ite_none_left_eq_some.mp hStep
    obtain ⟨f, hRecv⟩ := recvReply_eq call.name c.seqId
    have hName := call.length_name
    have hConsumes := @consumes_recvReply call.name (by omega) c.seqId hSeqId success (by decide)
    rw [hRecv] at hConsumes
    rw [resultReply, ← List.append_nil (flush _)] at hClient
    have hLength := length_reply call.name c.seqId
    obtain ⟨t, hRead, ht⟩ := hConsumes.framed (by omega) (by rw [defaultMaxLength]; omega) hClient
    rw [hRecv, hRead] at hEq
    cases hEq
    refine .idle ⟨?_, hData⟩ hSeqId rfl hServing hServer ht
    simp [hResults, Call.outcome, hFits, Except.toOption]
  | @refused calls call _ hSettled hFits hPending hServing hClient =>
    simp only [step, hPending] at hStep
    obtain ⟨_, hEq⟩ := Option.ite_none_left_eq_some.mp hStep
    obtain ⟨f, hRecv⟩ := recvReply_eq call.name c.seqId
    rw [hRecv, readI32_eof hClient] at hEq
    cases hEq
    refine .failed ⟨?_, ?_⟩ ?_ rfl hServing
    · simp [hSettled.results, Call.outcome, hFits, Except.toOption]
    · rw [taken_concat_of_not_fits calls hFits]
      exact hSettled.dataCh
    · simp [Except.isOk, Except.toBool]

theorem Phase.next (h : Phase calls c) {a : Act} (hSmall : ∀ call ∈ a.call, call.size < 4294967296)
    (hStep : step errorText c a = some c') : Phase (calls ++ a.call.toList) c' := by
  cases a with
  | send call chunks => exact h.send (hSmall call rfl) hStep
  | serve chunks =>
    rw [Act.call, Option.toList_none, List.append_nil]
    exact h.serve hStep
  | recv =>
    rw [Act.call, Option.toList_none, List.append_nil]
    exact h.recv hStep

end Steps

/-- A stream that arrives byte by byte. -/
def single (bytes : Bytes) : List Chunk := bytes.map fun b => ⟨b, []⟩

/-- The limit on frames holds for no one who sends an empty frame and the header of one that is too
long first: any message after them is taken, up to the length that a number can give. -/
theorem limit_bypassed (errorText : TError → Bytes) {call : Call} (hSound : call.Sound)
    (hSize : call.size ≤ 4294967296) {size seqId : Nat} (hMax : defaultMaxLength < size)
    (hSmall : size < 4294967296) (hSeqId : seqId < 4294967296) {chunks : List Chunk} {rest : Bytes}
    (hBytes : bytesOf chunks = putUint32 0 ++ (putUint32 size ++ (call.payload seqId ++ rest))) :
    ∃ t, processRequest errorText ⟨chunks, 0⟩ =
        (.ok ⟨call.contents, resultReply call.name seqId success, true⟩, t) ∧ t.bytes = rest := by
  rw [call.payload_eq, List.append_assoc] at hBytes
  have hLength := call.length_payload seqId
  rw [call.payload_eq, List.length_append, writeI32, length_putUint32] at hLength
  obtain ⟨u, hVersion, hu⟩ := readI32_after_empty (s := ⟨chunks, 0⟩) ⟨hBytes, rfl, by decide⟩ hSmall hMax
    (version_lt .call)
  obtain ⟨t, hRest, ht⟩ := consumes_requestRest errorText hSound hSeqId u rest
    (4294967292 - (call.payloadRest seqId).length) ⟨hu.bytes, by rw [hu.frameSize]; omega, by omega⟩
  refine ⟨t, ?_, ht.bytes⟩
  rw [processRequest_eq, bind_ok hVersion, hRest]

theorem bytesOf_single (bytes : Bytes) : bytesOf (single bytes) = bytes := by
  induction bytes with
  | nil => rfl
  | cons b bytes ih =>
    change b :: bytesOf (single bytes) = b :: bytes
    rw [ih]

theorem Call.size_process (licence sn content : Bytes) :
    (Call.process ⟨licence, sn, content⟩).size = 41 + licence.length + sn.length + content.length := by
  have hProcess : EmsgInfPush.process.length = 7 := by decide
  simp only [Call.size, Call.payload, Call.args, Call.name, ProcessArgs.write, writeMessageBegin, writeI32,
    writeFieldBegin, writeI16, writeFieldStop, List.length_append, List.length_cons, List.length_nil,
    length_putUint16, length_putUint32, length_writeString, hProcess]
  omega

def large : Call := .process ⟨[], [], List.replicate 20000000 0⟩

theorem size_large : large.size = 20000041 := by
  unfold large
  rw [Call.size_process, List.length_replicate]
  rfl

/-- A message that no frame has room for. -/
theorem limit_bypassed_large : large.fits = false ∧ ∃ t, processRequest (fun _ => [])
      ⟨single (putUint32 0 ++ (putUint32 4294967295 ++ (large.payload 1 ++ []))), 0⟩ =
    (.ok ⟨large.contents, resultReply large.name 1 success, true⟩, t) ∧ t.bytes = [] := by
  have hSize := size_large
  refine ⟨decide_eq_false (by rw [hSize]; decide), ?_⟩
  exact limit_bypassed (fun _ => []) (Call.sound_of_size (by omega) : large.Sound) (by omega)
    (by decide : defaultMaxLength < 4294967295) (by decide) (by decide) (bytesOf_single _)

end Sara.EmsgInfPush
