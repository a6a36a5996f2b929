import Sara.Core.Decoder
import Sara.Lib.Transition

/-! # The read loop of a TCP connection

The loop reads into a buffer, hands the packets of each read to the session, carries the
unfinished piece over to the next read and adjusts the length of the buffer to what it
got. Whatever a client sends, packets and part are clean. The length of the buffer is not
kept within its limits, and three bytes are a length it never leaves.
-/

namespace Sara

open Lib Lib.Framing Lib.Transition

set_option autoImplicit false

/-! ## Frames of a stream -/

namespace Decoder

def Plain (m : Bytes) : Prop := 0 ∉ m ∧ endFlag ∉ m

instance (m : Bytes) : Decidable (Plain m) := inferInstanceAs (Decidable (_ ∧ _))

theorem decodePacket_takeWhile (data part : Bytes) :
    decodePacket data part = decodePacket (data.takeWhile (· ≠ 0)) part := by
  simp only [decodePacket, List.takeWhile_takeWhile, and_self, Bool.decide_eq_true]

theorem plain_decodePacket (data : Bytes) {part : Bytes} (hPart : Plain part) :
    (∀ m ∈ (decodePacket data part).1, m ≠ [] ∧ Plain m) ∧ Plain (decodePacket data part).2 := by
  rw [decodePacket_takeWhile]
  by_cases hData : data.takeWhile (· ≠ 0) = []
  · rw [hData]
    exact ⟨fun m hm => (by cases hm), hPart⟩
  · have hNul : 0 ∉ data.takeWhile (· ≠ 0) := fun h0 => by simpa using List.mem_takeWhile_imp h0
    rw [decodePacket_eq _ part hData hNul hPart.2]
    have hStream : 0 ∉ (if (data.takeWhile (· ≠ 0)).head? = some endFlag then [] else part) ++
        data.takeWhile (· ≠ 0) := by
      split
      · exact hNul
      · rw [List.mem_append]
        exact fun h => h.elim hPart.1 hNul
    refine ⟨?_, fun h => hStream (mem_of_mem_cut_snd h).2, fun h => (mem_of_mem_cut_snd h).1 rfl⟩
    intro m hm
    refine ⟨(mem_of_mem_cut (a := 0) hm).1, fun h => hStream ((mem_of_mem_cut hm).2 h).2,
      fun h => ((mem_of_mem_cut hm).2 h).1 rfl⟩

theorem decodePacket_sublist (data : Bytes) {part : Bytes} (hPart : Plain part) :
    ((decodePacket data part).1.flatten ++ (decodePacket data part).2).Sublist (part ++ data) := by
  have hTake : (data.takeWhile (· ≠ 0)).Sublist data := (List.takeWhile_prefix _).sublist
  rw [decodePacket_takeWhile]
  by_cases hData : data.takeWhile (· ≠ 0) = []
  · rw [hData]
    exact List.sublist_append_left part data
  · have hNul : 0 ∉ data.takeWhile (· ≠ 0) := fun h0 => by simpa using List.mem_takeWhile_imp h0
    rw [decodePacket_eq _ part hData hNul hPart.2, reference, flatten_cut]
    apply List.filter_sublist.trans
    apply List.Sublist.append _ hTake
    split
    · exact List.nil_sublist part
    · exact List.Sublist.refl part

structure Kept (read : Bytes) (state : List Bytes × Bytes) : Prop where
  packets : ∀ m ∈ state.1, m ≠ [] ∧ Plain m
  part : Plain state.2
  sublist : (state.1.flatten ++ state.2).Sublist read

theorem Kept.recvStep {read : Bytes} {state : List Bytes × Bytes} (h : Kept read state) (c : Bytes) :
    Kept (read ++ c) (recvStep state c) := by
  obtain ⟨hPackets, hPart⟩ := plain_decodePacket c h.part
  constructor
  · intro m hm
    rcases List.mem_append.mp hm with hOld | hNew
    · exact h.packets m hOld
    · exact hPackets m hNew
  · exact hPart
  · have hStep := (decodePacket_sublist c h.part).append_left state.1.flatten
    rw [← List.append_assoc, ← List.append_assoc, ← List.flatten_append] at hStep
    exact hStep.trans (h.sublist.append_right c)

theorem kept_recv (chunks : List Bytes) : Kept chunks.flatten (recv chunks) := by
  induction chunks using List.reverseRecOn with
  | nil =>
    constructor
    · intro m hm
      cases hm
    · exact ⟨List.not_mem_nil, List.not_mem_nil⟩
    · exact List.Sublist.refl []
  | append_singleton chunks c ih =>
    rw [List.flatten_append, List.flatten_singleton, recv, List.foldl_append]
    exact ih.recvStep c

/-- After any reads the packets are clean, so is the part, and together they are what is
left of the bytes read. -/
theorem recv_clean (chunks : List Bytes) :
    (∀ m ∈ (recv chunks).1, m ≠ [] ∧ 0 ∉ m ∧ endFlag ∉ m) ∧
      (0 ∉ (recv chunks).2 ∧ endFlag ∉ (recv chunks).2) ∧
      ((recv chunks).1.flatten ++ (recv chunks).2).Sublist chunks.flatten :=
  ⟨(kept_recv chunks).packets, (kept_recv chunks).part, (kept_recv chunks).sublist⟩

theorem decodePacket_frame_iff {m : Bytes} (hm : m ≠ []) :
    (decodePacket (frame m) []).1 = [m] ↔ Plain m := by
  constructor
  · intro h
    have hNil : Plain [] := ⟨List.not_mem_nil, List.not_mem_nil⟩
    exact ((plain_decodePacket (frame m) hNil).1 m (h ▸ List.mem_cons_self)).2
  · rintro ⟨hNul, hFlag⟩
    have hFrame : 0 ∉ frame m := by
      rw [frame, List.mem_append]
      exact fun h => h.elim hNul (by decide)
    have hEmpty : frame m ≠ [] := List.append_ne_nil_of_right_ne_nil _ (List.cons_ne_nil _ _)
    rw [decodePacket_eq _ [] hEmpty hFrame List.not_mem_nil, ite_self, List.nil_append]
    have hOne := congrArg Prod.fst (reference_frames [m] fun m' h' => by
      cases List.mem_singleton.mp h'
      exact ⟨hm, hFlag⟩)
    simpa using hOne

end Decoder

/-! ## The buffer -/

namespace ReadLoop

def maxBufLen : Nat := 4096

/-- `make` fails long before an `int` overflows. -/
def changeBuffLen (buff_len n : Nat) : Nat :=
  -- two bytes may be a signal, not a packet
  if 2 < n then
    let resized :=
      if n = buff_len then buff_len + buff_len / 4
      else if n < buff_len then buff_len - buff_len / 4
      else buff_len
    if maxBufLen < resized then maxBufLen
    else if resized < n then n + n / 4
    else resized
  else buff_len

/-- A read returns no more bytes than the buffer has room for. -/
def resize (buff_len n : Nat) : Option Nat :=
  if n ≤ buff_len then some (changeBuffLen buff_len n) else none

/-- A read without a packet hands nothing to the session. -/
def handed (results : List (List Bytes)) (packetList : List Bytes) : List (List Bytes) :=
  if 0 < packetList.length then results ++ [packetList] else results

structure Reader where
  results : List (List Bytes)
  part : Bytes
  buffLen : Nat

def Reader.new : Reader := { results := [], part := [], buffLen := 1024 }

def read (r : Reader) (data : Bytes) : Option Reader :=
  if data.length ≤ r.buffLen then
    some {
      results := handed r.results (Decoder.decodePacket data r.part).1
      part := (Decoder.decodePacket data r.part).2
      buffLen := changeBuffLen r.buffLen data.length }
  else none

theorem flatten_handed (results : List (List Bytes)) (packetList : List Bytes) :
    (handed results packetList).flatten = results.flatten ++ packetList := by
  cases packetList with
  | nil => exact (List.append_nil _).symm
  | cons p ps => simp [handed]

theorem nil_mem_handed (results : List (List Bytes)) (packetList : List Bytes) :
    [] ∈ handed results packetList ↔ [] ∈ results := by
  cases packetList with
  | nil => rfl
  | cons p ps => simp [handed]

/-- The loop is the decoder folded over the reads, and the buffer resized to their lengths. -/
theorem read_run {chunks : List Bytes} {r : Reader} (h : run read Reader.new chunks = some r) :
    Decoder.recv chunks = (r.results.flatten, r.part) ∧ [] ∉ r.results ∧
      run resize Reader.new.buffLen (chunks.map List.length) = some r.buffLen := by
  induction chunks using List.reverseRecOn generalizing r with
  | nil =>
    cases h
    exact ⟨rfl, List.not_mem_nil, rfl⟩
  | append_singleton chunks c ih =>
    obtain ⟨s, hRun, hRead⟩ := run_snoc_iff.mp h
    obtain ⟨hRecv, hResults, hSizes⟩ := ih hRun
    unfold read at hRead
    split at hRead
    · rename_i hFits
      cases hRead
      refine ⟨?_, ?_, ?_⟩
      · rw [flatten_handed, Decoder.recv, List.foldl_append, ← Decoder.recv, hRecv]
        rfl
      · rwa [nil_mem_handed]
      · rw [List.map_append, List.map_singleton]
        apply run_snoc_iff.mpr
        exact ⟨s.buffLen, hSizes, if_pos hFits⟩
    · cases hRead

section Limits

variable {b b' n : Nat}

theorem resize_cases (h : resize b n = some b') :
    n ≤ 2 ∧ b' = b ∨ 2 < n ∧ n = b ∧ b' = min (b + b / 4) maxBufLen ∨
      2 < n ∧ n < b ∧ maxBufLen < b - b / 4 ∧ b' = maxBufLen ∨
      2 < n ∧ n < b ∧ b - b / 4 ≤ maxBufLen ∧ n ≤ b - b / 4 ∧ b' = b - b / 4 ∨
      2 < n ∧ n < b ∧ b - b / 4 ≤ maxBufLen ∧ b - b / 4 < n ∧ b' = n + n / 4 := by
  unfold resize at h
  split at h
  · rename_i hFits
    cases h
    unfold changeBuffLen
    rcases Nat.lt_or_ge 2 n with hSome | hSignal
    · rw [if_pos hSome]
      rcases Nat.lt_or_eq_of_le hFits with hFree | hFull
      · simp only [if_neg hFree.ne, if_pos hFree]
        split_ifs
        all_goals omega
      · simp only [if_pos hFull]
        split_ifs
        all_goals omega
    · rw [if_neg hSignal.not_gt]
      exact .inl ⟨hSignal, rfl⟩
  · cases h

theorem three_le_resize (hb : 3 ≤ b) (h : resize b n = some b') : 3 ≤ b' := by
  have hMax : maxBufLen = 4096 := rfl
  rcases resize_cases h with hSame | hFull | hCapped | hLess | hRead
  all_goals omega

theorem resize_within_iff (hb : 1 ≤ b ∧ b ≤ maxBufLen) (h : resize b n = some b') :
    1 ≤ b' ∧ b' ≤ maxBufLen ↔ (n < b → n + n / 4 ≤ maxBufLen) := by
  have hMax : maxBufLen = 4096 := rfl
  rcases resize_cases h with hSame | hFull | hCapped | hLess | hRead
  all_goals omega

theorem resize_full (hb : 2 < b) : resize b b = some (min (b + b / 4) maxBufLen) := by
  have hSome : resize b b = some (changeBuffLen b b) := if_pos le_rfl
  have hCases := resize_cases hSome
  rw [hSome]
  congr 1
  omega

end Limits

/-- The buffer stays within its limits exactly if no read leaves some of it free and is too
long for its own length and a quarter to be within the limit. -/
theorem buffer_within_limits_iff {sizes : List Nat} {b : Nat}
    (h : run resize Reader.new.buffLen sizes = some b) :
    (∀ done len, done <+: sizes → run resize Reader.new.buffLen done = some len →
      1 ≤ len ∧ len ≤ maxBufLen) ↔
    Guarded resize (fun len n => n < len → n + n / 4 ≤ maxBufLen) Reader.new.buffLen sizes := by
  symm
  apply guarded_iff_forall_run (P := fun len => 1 ≤ len ∧ len ≤ maxBufLen) _ _ h
  · intro len n len' hLen hStep
    exact resize_within_iff hLen hStep
  · decide

theorem buffer_exceeds_limit :
    run resize Reader.new.buffLen [1024, 1280, 1600, 2000, 2500, 3125, 3906, 4000] = some 5000 ∧
      maxBufLen < 5000 := by
  decide

theorem buffer_within_limits_full :
    run resize Reader.new.buffLen [1024, 1280, 100] = some 1200 ∧
      ∀ done len, done <+: [1024, 1280, 100] → run resize Reader.new.buffLen done = some len →
        1 ≤ len ∧ len ≤ maxBufLen := by
  have hRun : run resize Reader.new.buffLen [1024, 1280, 100] = some 1200 := by decide
  exact ⟨hRun, (buffer_within_limits_iff hRun).mpr (by decide)⟩

/-! ## Growing again -/

theorem three_le_run {sizes : List Nat} {b : Nat}
    (h : run resize Reader.new.buffLen sizes = some b) : 3 ≤ b := by
  refine run_induction (P := fun _ len => 3 ≤ len) ?_ ?_ h
  · decide
  · intro _ len n len' _ hLen hStep
    exact three_le_resize hLen hStep

theorem run_three {sizes : List Nat} {b : Nat} (h : run resize 3 sizes = some b) : b = 3 := by
  refine run_induction (P := fun _ len => len = 3) rfl ?_ h
  intro _ len n len' _ hLen hStep
  have hCases := resize_cases hStep
  simp only [maxBufLen] at hCases
  omega

theorem exists_run_max {b : Nat} (hb : 4 ≤ b) : ∃ sizes, run resize b sizes = some maxBufLen := by
  induction hLeft : maxBufLen - b using Nat.strongRecOn generalizing b with
  | ind left ih =>
    have hFull := resize_full (b := b) (by omega)
    by_cases hDone : maxBufLen ≤ b + b / 4
    · refine ⟨[b], ?_⟩
      rw [run_cons, hFull, Nat.min_eq_right hDone]
      rfl
    · rw [Nat.min_eq_left (by omega)] at hFull
      obtain ⟨sizes, hRun⟩ := ih (maxBufLen - (b + b / 4)) (by omega) (b := b + b / 4) (by omega) rfl
      exact ⟨b :: sizes, run_cons_iff.mpr ⟨_, hFull, hRun⟩⟩

/-- A full read makes the buffer longer, and the limit can be reached again, exactly if the
buffer is not down to three bytes. -/
theorem buffer_grows_iff {sizes : List Nat} {b : Nat}
    (h : run resize Reader.new.buffLen sizes = some b) :
    (b < maxBufLen → 2 < b → (b < changeBuffLen b b ↔ b ≠ 3)) ∧
      ((∃ more, run resize b more = some maxBufLen) ↔ b ≠ 3) := by
  constructor
  · intro hBelow hSome
    have hFull := resize_full hSome
    rw [resize, if_pos le_rfl, Option.some_inj] at hFull
    rw [hFull]
    omega
  · constructor
    · rintro ⟨more, hMore⟩ rfl
      cases run_three hMore
    · intro hThree
      have hLeast := three_le_run h
      exact exists_run_max (by omega)

/-- A client that sends three bytes at a time, and then whatever it wants. -/
theorem buffer_pinned :
    run resize Reader.new.buffLen (List.replicate 22 3) = some 3 ∧ changeBuffLen 3 3 = 3 ∧
      ∀ more b, run resize 3 more = some b → b = 3 := by
  refine ⟨by decide, by decide, ?_⟩
  intro more b h
  exact run_three h

theorem buffer_grows_short :
    (4 < maxBufLen → 2 < 4 → (4 < changeBuffLen 4 4 ↔ 4 ≠ 3)) ∧
      ((∃ more, run resize 4 more = some maxBufLen) ↔ 4 ≠ 3) :=
  @buffer_grows_iff (List.replicate 21 3) 4 (by decide)

end ReadLoop

end Sara
