import Sara.Types.Defines
import Sara.Lib.Framing
import Mathlib.Data.List.Chain
import Mathlib.Data.List.TakeWhile

/-! # Framing of the TCP byte stream

`decodePacket` is the decoder called after every read, `recv` the read loop's
use of it. The read loop carries an unfinished piece from one read to the next.
The loss described below happens at one kind of boundary only.
-/

namespace Sara.Decoder

open Lib.Framing

set_option autoImplicit false

def decodeLoop (part : Bytes) (size : Nat) (lastByte : UInt8)
    (acc : List Bytes × Bytes) (piece : Bytes × Nat) : List Bytes × Bytes :=
  let (packet, i) := piece
  if packet.length > 0 then
    if i = 0 ∧ part.length > 0 then (acc.1 ++ [part ++ packet], acc.2)
    else if i = size ∧ lastByte ≠ endFlag then (acc.1, packet)
    else (acc.1 ++ [packet], acc.2)
  else acc

def decodePacket (data part : Bytes) : List Bytes × Bytes :=
  -- placeholders at the end of the buffer are cut off
  let data := data.takeWhile (· ≠ 0)
  match data.getLast? with
  | none => ([], part)
  | some lastByte =>
    let dataList := data.splitOn endFlag
    let size := dataList.length - 1
    if size > 0 then
      dataList.zipIdx.foldl (decodeLoop part size lastByte) ([], [])
    else
      let packet := if part.length > 0 then part ++ dataList.headD [] else dataList.headD []
      if lastByte ≠ endFlag then ([], packet) else ([packet], [])

/-- The read loop: the returned part replaces the carried one after every read. -/
def recvStep (state : List Bytes × Bytes) (data : Bytes) : List Bytes × Bytes :=
  let (packetList, newPart) := decodePacket data state.2
  (state.1 ++ packetList, newPart)

def recv (chunks : List Bytes) : List Bytes × Bytes := chunks.foldl recvStep ([], [])

/-- The bytes `sendMessage` hands to the connection for one message. -/
def frame (data : Bytes) : Bytes := data ++ [endFlag]

def reference (s : Bytes) : List Bytes × Bytes := cut endFlag s

/-- A read may begin with the delimiter only where the read before it ended
with one. The first read is free. -/
def CleanCuts (chunks : List Bytes) : Prop :=
  chunks.IsChain fun c c' => c'.head? = some endFlag → c.getLast? = some endFlag

theorem foldl_decodeLoop (part : Bytes) (size : Nat) (lastByte : UInt8) (pieces : List Bytes)
    (hne : pieces ≠ []) (i : Nat) (hi : 0 < i) (hSize : size + 1 = i + pieces.length)
    (hLast : lastByte ≠ endFlag ↔ pieces.getLast hne ≠ []) (packets : List Bytes) :
    (pieces.zipIdx i).foldl (decodeLoop part size lastByte) (packets, []) =
      (packets ++ pieces.dropLast.filter (· ≠ []), pieces.getLast hne) := by
  induction pieces generalizing i packets with
  | nil => exact absurd rfl hne
  | cons piece rest ih =>
    rw [List.zipIdx_cons, List.foldl_cons]
    cases rest with
    | nil =>
      have hLast' : lastByte ≠ endFlag ↔ piece ≠ [] := by simpa using hLast
      have hEnd : i = size := by simp only [List.length_singleton] at hSize; omega
      cases piece with
      | nil => simp [decodeLoop]
      | cons b bs => simp [decodeLoop, hEnd, hLast', show size ≠ 0 by omega]
    | cons next rest =>
      have hRest : next :: rest ≠ [] := List.cons_ne_nil _ _
      have hInner : i ≠ size := by simp only [List.length_cons] at hSize; omega
      have hStep : decodeLoop part size lastByte (packets, []) (piece, i) =
          (packets ++ [piece].filter (· ≠ []), []) := by
        cases piece with
        | nil => simp [decodeLoop]
        | cons b bs => simp [decodeLoop, hInner, show i ≠ 0 by omega]
      rw [hStep, ih hRest (i + 1) (by omega) (by simp only [List.length_cons] at hSize ⊢; omega)
        (by simpa using hLast), List.dropLast_cons_of_ne_nil hRest, List.append_assoc,
        ← List.filter_append, List.singleton_append, List.getLast_cons hRest]

/-- The first piece is a packet together with the carried part, unless it is
empty: then the loop skips it and the part goes with it. -/
theorem decodeLoop_first (part u : Bytes) (size : Nat) (hSize : 0 < size) (lastByte : UInt8) :
    decodeLoop part size lastByte ([], []) (u, 0) =
      (if u = [] then [] else [part ++ u], []) := by
  have hInner : (0 : Nat) ≠ size := by omega
  cases u with
  | nil => simp [decodeLoop]
  | cons b bs => cases part <;> simp [decodeLoop, hInner]

theorem decodePacket_eq (data part : Bytes) (hData : data ≠ []) (hNul : 0 ∉ data)
    (hPart : endFlag ∉ part) :
    decodePacket data part =
      reference ((if data.head? = some endFlag then [] else part) ++ data) := by
  have hTake : data.takeWhile (· ≠ 0) = data := by
    rw [List.takeWhile_eq_self_iff]
    intro b hb
    exact decide_eq_true fun h0 => hNul (h0 ▸ hb)
  obtain ⟨lastByte, hLastByte⟩ : ∃ b, data.getLast? = some b :=
    ⟨_, List.getLast?_eq_some_getLast hData⟩
  simp only [decodePacket, hTake, hLastByte]
  rcases segment_cases endFlag data with hFree | ⟨u, v, hu, rfl⟩
  · have hHead : data.head? ≠ some endFlag := fun h => hFree (List.mem_of_head? h)
    have hLast : lastByte ≠ endFlag := fun h => hFree (h ▸ List.mem_of_getLast? hLastByte)
    have hBoth : endFlag ∉ part ++ data := by simp [hPart, hFree]
    rw [List.splitOn_eq_singleton hFree, if_neg hHead, reference, cut_of_not_mem hBoth]
    cases part <;> simp [hLast]
  · have hPieces : v.splitOn endFlag ≠ [] := List.splitOn_ne_nil endFlag v
    have hSize : 0 < (v.splitOn endFlag).length := List.length_pos_iff.mpr hPieces
    have hLast : lastByte ≠ endFlag ↔ (v.splitOn endFlag).getLast hPieces ≠ [] := by
      have h := cut_snd_eq_nil_iff endFlag hData
      rw [cut_segment endFlag hu, hLastByte, Option.some_inj] at h
      exact not_congr h.symm
    rw [List.splitOn_append_cons_self_of_not_mem hu, List.length_cons, Nat.add_sub_cancel,
      if_pos hSize, List.zipIdx_cons, List.foldl_cons, decodeLoop_first part u _ hSize,
      foldl_decodeLoop part _ lastByte _ hPieces _ (by omega) (by omega) hLast]
    cases u with
    | nil =>
      rw [if_pos rfl, if_pos (by simp), reference]
      change _ = cut endFlag ([] ++ endFlag :: v)
      rw [cut_segment endFlag hu]
      rfl
    | cons b bs =>
      have hHead : b ≠ endFlag := fun h => hu (h ▸ List.mem_cons_self)
      have hJoined : endFlag ∉ part ++ b :: bs := by simp [hPart, hu]
      have hStart : (b :: bs ++ endFlag :: v).head? ≠ some endFlag := by simpa using hHead
      rw [if_neg (List.cons_ne_nil b bs), if_neg hStart, ← List.append_assoc, reference,
        cut_segment endFlag hJoined]
      simp [cut]

theorem decodePacket_part_free (data part : Bytes) (hData : data ≠ []) (hNul : 0 ∉ data)
    (hPart : endFlag ∉ part) : endFlag ∉ (decodePacket data part).2 := by
  rw [decodePacket_eq data part hData hNul hPart]
  exact not_mem_cut_snd endFlag _

theorem decodePacket_part_eq_nil_iff (data part : Bytes) (hData : data ≠ []) (hNul : 0 ∉ data)
    (hPart : endFlag ∉ part) :
    (decodePacket data part).2 = [] ↔ data.getLast? = some endFlag := by
  rw [decodePacket_eq data part hData hNul hPart, reference,
    cut_snd_eq_nil_iff endFlag (List.append_ne_nil_of_right_ne_nil _ hData),
    List.getLast?_append_of_ne_nil _ hData]

theorem decodePacket_eq_reference_iff (data part : Bytes) (hData : data ≠ []) (hNul : 0 ∉ data)
    (hPart : endFlag ∉ part) :
    decodePacket data part = reference (part ++ data) ↔
      ¬(part ≠ [] ∧ data.head? = some endFlag) := by
  rw [decodePacket_eq data part hData hNul hPart]
  by_cases hHead : data.head? = some endFlag
  · rw [if_pos hHead, List.nil_append]
    constructor
    · -- the two results hold different numbers of bytes
      intro h hBad
      have hLost : 0 < part.length := List.length_pos_iff.mpr hBad.1
      have hWeight := congrArg weight h
      rw [reference, reference, weight_cut, weight_cut, List.filter_append, List.length_append,
        filter_ne_of_not_mem hPart] at hWeight
      omega
    · intro h
      have hEmpty : part = [] := by
        by_contra hne
        exact h ⟨hne, hHead⟩
      rw [hEmpty, List.nil_append]
  · rw [if_neg hHead]
    constructor
    · intro _ hBad
      exact hHead hBad.2
    · intro _
      rfl

theorem decodePacket_eq_reference_middle :
    decodePacket (text "b" ++ [endFlag] ++ text "c") (text "a") =
      reference (text "a" ++ (text "b" ++ [endFlag] ++ text "c")) :=
  (decodePacket_eq_reference_iff (text "b" ++ [endFlag] ++ text "c") (text "a") (by decide)
    (by decide) (by decide)).mpr (by decide)

theorem weight_recvStep (state : List Bytes × Bytes) (c : Bytes) (hData : c ≠ []) (hNul : 0 ∉ c)
    (hPart : endFlag ∉ state.2) :
    weight (recvStep state c) + (if c.head? = some endFlag then state.2.length else 0) =
      weight state + (c.filter (· ≠ endFlag)).length := by
  obtain ⟨out, part⟩ := state
  change endFlag ∉ part at hPart
  have hStep := congrArg weight (decodePacket_eq c part hData hNul hPart)
  rw [reference, weight_cut, List.filter_append, List.length_append] at hStep
  simp only [recvStep, weight, List.map_append, List.sum_append] at hStep ⊢
  split at hStep
  · rename_i h
    rw [if_pos h]
    simp only [List.filter_nil, List.length_nil, Nat.zero_add] at hStep
    omega
  · rename_i h
    rw [if_neg h]
    rw [filter_ne_of_not_mem hPart] at hStep
    omega

theorem weight_recv_le (chunks : List Bytes) (hChunks : ∀ c ∈ chunks, c ≠ [] ∧ 0 ∉ c)
    (state : List Bytes × Bytes) (hPart : endFlag ∉ state.2) :
    weight (chunks.foldl recvStep state) ≤
      weight state + (chunks.flatten.filter (· ≠ endFlag)).length := by
  induction chunks generalizing state with
  | nil => simp
  | cons c chunks ih =>
    obtain ⟨hData, hNul⟩ := hChunks c List.mem_cons_self
    have hStep := weight_recvStep state c hData hNul hPart
    have hRest := ih (fun c' h => hChunks c' (List.mem_cons_of_mem c h)) (recvStep state c)
      (decodePacket_part_free c state.2 hData hNul hPart)
    rw [List.foldl_cons, List.flatten_cons, List.filter_append, List.length_append]
    omega

/-- The read loop from any carried part. A part is dropped for good: the bytes
kept afterwards are too few, so equality fails at the first bad boundary. -/
theorem recv_from_iff (chunks : List Bytes) (hChunks : ∀ c ∈ chunks, c ≠ [] ∧ 0 ∉ c)
    (out : List Bytes) (part : Bytes) (hPart : endFlag ∉ part) :
    chunks.foldl recvStep (out, part) =
        (out ++ (reference (part ++ chunks.flatten)).1, (reference (part ++ chunks.flatten)).2) ↔
      (∀ c ∈ chunks.head?, c.head? = some endFlag → part = []) ∧ CleanCuts chunks := by
  induction chunks generalizing out part with
  | nil => simp [reference, cut_of_not_mem hPart, CleanCuts]
  | cons c chunks ih =>
    obtain ⟨hData, hNul⟩ := hChunks c List.mem_cons_self
    have hRest : ∀ c' ∈ chunks, c' ≠ [] ∧ 0 ∉ c' := fun c' h =>
      hChunks c' (List.mem_cons_of_mem c h)
    have hFree := decodePacket_part_free c part hData hNul hPart
    by_cases hBad : c.head? = some endFlag ∧ part ≠ []
    · -- the dropped part is missing from the weight of every later state
      have hStep := weight_recvStep (out, part) c hData hNul hPart
      have hLe := weight_recv_le chunks hRest (recvStep (out, part) c) hFree
      have hLost : 0 < part.length := List.length_pos_iff.mpr hBad.2
      rw [if_pos hBad.1] at hStep
      constructor
      · intro hEq
        have hWeight := congrArg weight hEq
        have hWhole := weight_cut endFlag (part ++ (c :: chunks).flatten)
        rw [List.filter_append, filter_ne_of_not_mem hPart, List.flatten_cons, List.filter_append,
          List.length_append, List.length_append] at hWhole
        rw [List.foldl_cons] at hWeight
        simp only [weight, reference, List.flatten_cons, List.map_append, List.sum_append]
          at hWeight hStep hLe hWhole
        omega
      · rintro ⟨hFirst, _⟩
        exact absurd (hFirst c rfl hBad.1) hBad.2
    · have hKeep : (if c.head? = some endFlag then [] else part) = part := by
        split
        · rename_i h
          by_contra hNe
          exact hBad ⟨h, fun h0 => hNe h0.symm⟩
        · rfl
      have hStep : decodePacket c part = reference (part ++ c) := by
        rw [decodePacket_eq c part hData hNul hPart, hKeep]
      have hSplit : reference (part ++ (c :: chunks).flatten) =
          ((decodePacket c part).1 ++
              (reference ((decodePacket c part).2 ++ chunks.flatten)).1,
            (reference ((decodePacket c part).2 ++ chunks.flatten)).2) := by
        rw [List.flatten_cons, ← List.append_assoc, hStep]
        exact cut_append endFlag (part ++ c) chunks.flatten
      have hNext := ih hRest (out ++ (decodePacket c part).1) (decodePacket c part).2 hFree
      rw [decodePacket_part_eq_nil_iff c part hData hNul hPart] at hNext
      rw [hSplit, List.foldl_cons, ← List.append_assoc]
      refine hNext.trans ?_
      rw [CleanCuts, CleanCuts, List.isChain_cons]
      constructor
      · intro h
        refine ⟨fun c' hc' hHead => ?_, h⟩
        obtain rfl : c = c' := by simpa using hc'
        by_contra hNe
        exact hBad ⟨hHead, hNe⟩
      · exact And.right

theorem reference_frames (messages : List Bytes)
    (hMessages : ∀ m ∈ messages, m ≠ [] ∧ endFlag ∉ m) :
    reference (messages.flatMap frame) = (messages, []) := by
  induction messages with
  | nil => rfl
  | cons m messages ih =>
    obtain ⟨hm, hFree⟩ := hMessages m List.mem_cons_self
    have hRest := ih fun m' h => hMessages m' (List.mem_cons_of_mem m h)
    rw [reference] at hRest ⊢
    rw [List.flatMap_cons, frame, List.append_assoc, List.singleton_append,
      cut_segment endFlag hFree, hRest]
    simp [hm]

/-- The read loop recovers the stream, whatever the reads are, exactly when no
read begins with the delimiter of a message begun by an earlier read. -/
theorem recv_eq_reference_iff (chunks : List Bytes) (hChunks : ∀ c ∈ chunks, c ≠ [] ∧ 0 ∉ c) :
    (recv chunks = reference chunks.flatten ↔ CleanCuts chunks) ∧
      ∀ messages : List Bytes, (∀ m ∈ messages, m ≠ [] ∧ endFlag ∉ m) →
        chunks.flatten = messages.flatMap frame →
        (recv chunks = (messages, []) ↔ CleanCuts chunks) := by
  have hAll : recv chunks = reference chunks.flatten ↔ CleanCuts chunks := by
    have h := recv_from_iff chunks hChunks [] [] List.not_mem_nil
    simpa [recv] using h
  refine ⟨hAll, fun messages hMessages hStream => ?_⟩
  rwa [hStream, reference_frames messages hMessages] at hAll

theorem recv_two_messages :
    recv [text "a", text "b" ++ [endFlag], [endFlag], text "c" ++ [endFlag]] =
      ([text "ab", text "c"], []) := by
  have h := (recv_eq_reference_iff
    [text "a", text "b" ++ [endFlag], [endFlag], text "c" ++ [endFlag]] (by decide)).1.mpr
      (by simp only [CleanCuts]; decide)
  rw [h]
  decide

theorem recv_loses_message :
    (∀ c ∈ [text "ab", [endFlag]], c ≠ [] ∧ 0 ∉ c) ∧
      recv [text "ab", [endFlag]] ≠ reference [text "ab", [endFlag]].flatten := by
  decide

end Sara.Decoder
