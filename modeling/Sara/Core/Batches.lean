import Sara.Core.Traces
import Sara.Lib.Batch

/-! # How reads batch the frames

The frames of a client come in results, cut as the reads happen to cut them. One
recover covers a whole result, and a result that closes the session is handled to its
end, while later results are not delivered. So the cut can be told from the outside,
unless the frames behind the first one that panics or closes the session are frames
that leave no trace.
-/

namespace Sara

open Lib Lib.Prog Saradb

set_option autoImplicit false

section Batches

variable {C : Codec} {x : Bytes} {n : Node}

def resultsOf (batches : List (List Input)) : List ReadPacketResult := batches.map .packets

theorem recvResults_state (C : Codec) (x : Bytes) (batches : List (List Input)) (n : Node) :
    (recvResults C x (resultsOf batches) n).state =
      Batch.readAll (handleFrame C x) (gone x) n batches := by
  induction batches generalizing n with
  | nil => rfl
  | cons b batches ih =>
    have hCons : recvResults C x (resultsOf (b :: batches)) n =
      (deliver C x (.packets b) >>= fun _ => recvResults C x (resultsOf batches)) n := rfl
    rw [hCons]
    cases hs : n.sessions x with
    | none =>
      have hGone : gone x n = true := by
        rw [gone, hs]
        rfl
      have hDeliver : deliver C x (.packets b) n = .panic n := bind_panic (Node.session_eq_panic hs) _
      rw [Batch.readAll_shut hGone, bind_panic hDeliver]
      rfl
    | some s =>
      have hDeliver : deliver C x (.packets b) n = .done () (Batch.read (handleFrame C x) (gone x) n b) := by
        unfold deliver Batch.read
        rw [bind_done (Node.session_eq hs), gone_eq hs]
        split
        · rfl
        · rfl
      rw [bind_done hDeliver, ih]
      rfl

/-! ## What is seen -/

/-- What can be seen of a session on its node: its status and buffer, the answers sent and the
packets routed. -/
structure Seen where
  status : Option Status
  pkgBuff : Option PkgBuff
  written : Option (List Written)
  router : List RouterItem
  published : List (Bytes × Packet)

def seen (x : Bytes) (n : Node) : Seen where
  status := (n.sessions x).map (·.status.status)
  pkgBuff := (n.sessions x).map (·.pkgBuff)
  written := (n.sessions x).map (·.written)
  router := n.router
  published := n.published

/-- The frames handled, with a record of the calls of the database that they lead to. -/
def recorded (C : Codec) (x : Bytes) : Input → Prog (Node × List (List Dispatch)) PUnit :=
  Batch.logged (frameCalls C x) (handleFrame C x)

def issued (C : Codec) (x : Bytes) (n : Node) (batches : List (List Input)) : List (List Dispatch) :=
  (Batch.readAll (recorded C x) (fun s => gone x s.1) (n, []) batches).2

theorem issued_db (hSound : Sound x n) (batches : List (List Input)) :
    (recvResults C x (resultsOf batches) n).state.db = sendAll n.db (issued C x n batches) := by
  let P : Node × List (List Dispatch) → Prop := fun s => Sound x s.1 ∧ s.1.db = sendAll n.db s.2
  have hStep : ∀ i s, P s → P (recorded C x i s).state := by
    rintro i ⟨m, calls⟩ ⟨hSound, hDb⟩
    rw [recorded, Batch.logged_state]
    refine ⟨sound_handleFrame hSound i, ?_⟩
    obtain ⟨s, hs, hSess⟩ := hSound
    simp only [sendAll_append, ← hDb]
    exact handleFrame_db hs hSess i
  have hAll : P (Batch.readAll (recorded C x) (fun s => gone x s.1) (n, []) batches) :=
    Batch.readAll_induction hStep ⟨hSound, rfl⟩ batches
  rw [recvResults_state, ← Batch.readAll_logged (frameCalls C x) (n, []) batches]
  exact hAll.2

/-- Behind the first frame that panics no frame leaves a trace, and none behind the first frame
that closes the session, up to one that panics then. -/
def Unmarked (C : Codec) (x : Bytes) : Node → List Input → Prop
  | _, [] => True
  | n, i :: rest => ∀ s, n.sessions x = some s →
    (Panics C s i → ∀ j, newJID s.status.jid = .ok j → ∀ k ∈ rest, Unheard C n s j k) ∧
    (Closes C s i → Batch.SilentUntil (Drops C s) (UnheardClosed C n s) rest) ∧
    (¬ Panics C s i → ¬ Closes C s i → Unmarked C x (handleFrame C x i n).state rest)

section Cut

variable {s : Session} {j : JID}

/-! ## What is seen behind such a frame -/

def looked (x : Bytes) (s : Node × List (List Dispatch)) : Seen × List (List Dispatch) := (seen x s.1, s.2)

def load (x : Bytes) (s : Node × List (List Dispatch)) : Nat := weight x s.1 + s.2.length

theorem load_eq_of_looked {s t : Node × List (List Dispatch)} (h : looked x s = looked x t) :
    load x s = load x t := by
  have hWeight : ∀ n : Node, weight x n =
      ((seen x n).written.map List.length).getD 0 + (seen x n).router.length := by
    intro n
    unfold weight seen
    cases n.sessions x with
    | none => rfl
    | some s => rfl
  obtain ⟨hSeen, hCalls⟩ := Prod.mk.inj h
  rw [load, load, hWeight, hWeight, hSeen, hCalls]

theorem load_recorded (i : Input) (s : Node × List (List Dispatch)) :
    load x s ≤ load x (recorded C x i s).state := by
  have hLouder : weight x s.1 ≤ weight x (handleFrame C x i s.1).state := allows_louder.handleFrame i s.1
  rw [recorded, Batch.logged_state]
  simp only [load, List.length_append]
  omega

theorem seen_erased {id : Bytes} (hs : n.sessions x = some s) (hBuff : s.pkgBuff[id]? ≠ none) :
    seen x (n.updateSession x fun s => { s with pkgBuff := s.pkgBuff.erase id }) ≠ seen x n := by
  intro hSame
  have hErased := congrArg Seen.pkgBuff hSame
  simp only [seen, Node.updateSession_self, hs, Option.map_some, Option.some.injEq] at hErased
  rw [← hErased, Std.ExtTreeMap.getElem?_erase_self] at hBuff
  exact hBuff rfl

/-- Frames behind a close, in its result. -/
theorem closed_prefix_iff (hs : n.sessions x = some s) (hClose : s.status.status = .close)
    (calls : List (List Dispatch)) (rest : List Input) :
    (∀ first, first <+: rest →
      looked x (Batch.batch (recorded C x) (n, calls) first) = looked x (n, calls)) ↔
    Batch.SilentUntil (Drops C s) (UnheardClosed C n s) rest := by
  refine Batch.forall_prefix_iff ?_ ?_ ?_ rest
  · intro i hDrops
    obtain ⟨hPanic, hNone⟩ := closed_drops hs hClose hDrops
    rw [recorded, Batch.logged_panic hPanic, hNone, List.append_nil]
  · intro i hDrops hUnheard
    obtain ⟨hDone, hNone⟩ := closed_unheard hs hClose hDrops hUnheard
    rw [recorded, Batch.logged_done hDone, hNone, List.append_nil]
  · intro i hDrops hHeard hSame
    have hLoad := load_eq_of_looked hSame
    rw [recorded, Batch.logged_state] at hSame hLoad
    simp only [load, List.length_append] at hLoad
    have hLouder : weight x n ≤ weight x (handleFrame C x i n).state := allows_louder.handleFrame i n
    cases closed_heard hs hClose hDrops hHeard with
    | weight hWeight => omega
    | calls hCalls =>
      have hPos := List.length_pos_iff.mpr hCalls
      omega
    | removed id hBuff _ hDone =>
      rw [hDone] at hSame
      exact seen_erased hs hBuff (congrArg Prod.fst hSame)

/-- Frames behind a panic, in any results. -/
theorem login_suffix_iff (hs : n.sessions x = some s) (hLogin : s.status.status = .login)
    (hj : newJID s.status.jid = .ok j) (hOpen : gone x n = false) (calls : List (List Dispatch))
    (rest : List Input) :
    (∀ later, later <:+ rest → ∀ bs : List (List Input), bs.flatten = later →
      looked x (Batch.readAll (recorded C x) (fun s => gone x s.1) (n, calls) bs) = looked x (n, calls)) ↔
    ∀ i ∈ rest, Unheard C n s j i := by
  have hSilent : ∀ (m : Node) (t : Session), m.sessions x = some t → t.status = s.status →
      ∀ i, Unheard C m t j i → (recorded C x i (m, calls)).state = (m, calls) := by
    intro m t ht hStatus i hUnheard
    obtain ⟨hSame, hNone⟩ := login_unheard ht (hStatus ▸ hLogin) (hStatus ▸ hj) hUnheard
    rw [recorded, Batch.logged_state]
    simp only [hSame, hNone, List.append_nil]
  refine Batch.forall_suffix_iff ?_ (hSilent n s hs rfl) ?_ rest
  · exact hOpen
  intro i hHeard later hLater hSame
  have hLoad := load_eq_of_looked hSame
  have hRest : load x (recorded C x i (n, calls)).state ≤ load x
      (Batch.read (recorded C x) (fun s => gone x s.1) (recorded C x i (n, calls)).state later) :=
    Batch.read_induction (P := fun t => load x (recorded C x i (n, calls)).state ≤ load x t)
      (fun k t h => h.trans (load_recorded k t)) le_rfl later
  rw [hLoad, recorded, Batch.logged_state] at hRest
  simp only [load, List.length_append] at hRest
  have hLouder : weight x n ≤ weight x (handleFrame C x i n).state := allows_louder.handleFrame i n
  cases login_heard hs hLogin hj hHeard with
  | weight hWeight => omega
  | calls hCalls =>
    have hPos := List.length_pos_iff.mpr hCalls
    omega
  | removed id hBuff hNone hDone =>
    -- nothing behind the removal is heard, so the entry stays removed
    let t : Session := { s with pkgBuff := s.pkgBuff.erase id }
    let m : Node := n.updateSession x fun s => { s with pkgBuff := s.pkgBuff.erase id }
    have ht : m.sessions x = some t := by
      rw [Node.updateSession_self, hs]
      rfl
    have hAfter : (recorded C x i (n, calls)).state = (m, calls) := by
      rw [recorded, Batch.logged_state]
      simp only [hDone, hNone, Outcome.state_done, List.append_nil, m]
    have hRead : Batch.read (recorded C x) (fun s => gone x s.1) (m, calls) later = (m, calls) :=
      Batch.read_silent (hSilent m t ht rfl) fun k hk => (hLater k hk).erased rfl rfl rfl rfl
    rw [hAfter, hRead] at hSame
    exact seen_erased hs hBuff (congrArg Prod.fst hSame)

theorem independent_iff (hSound : Sound x n) (hOpen : gone x n = false) (calls : List (List Dispatch))
    (frames : List Input) :
    Batch.Independent (recorded C x) (fun s => gone x s.1) (looked x) (n, calls) frames ↔
      Unmarked C x n frames := by
  induction frames generalizing n calls with
  | nil => exact Iff.rfl
  | cons i rest ih =>
    obtain ⟨s, hs, hSess⟩ := id hSound
    have hNotClosed : s.status.status ≠ .close := by
      rw [ne_eq, ← hSess.connClosed, ← gone_eq hs, hOpen]
      decide
    have hUnmarked : Unmarked C x n (i :: rest) ↔
        (Panics C s i → ∀ j, newJID s.status.jid = .ok j → ∀ k ∈ rest, Unheard C n s j k) ∧
        (Closes C s i → Batch.SilentUntil (Drops C s) (UnheardClosed C n s) rest) ∧
        (¬ Panics C s i → ¬ Closes C s i → Unmarked C x (handleFrame C x i n).state rest) := by
      constructor
      · exact fun h => h s hs
      · rintro h s' hs'
        cases hs.symm.trans hs'
        exact h
    rw [hUnmarked]
    unfold Batch.Independent
    by_cases hPanics : Panics C s i
    · obtain ⟨data, hPanic⟩ := handleFrame_panics hs hPanics
      obtain ⟨hLogin, _, j, _, hj, _⟩ := id hPanics
      have hs' : (wrote x data n).sessions x = some { s with written := s.written ++ data } := by
        rw [wrote, Node.updateSession_self, hs]
        rfl
      have hOpen' : gone x (wrote x data n) = false := (gone_eq hs').trans ((gone_eq hs).symm.trans hOpen)
      rw [recorded, Batch.logged_panic hPanic]
      simp only
      rw [← recorded, login_suffix_iff hs' hLogin hj hOpen']
      constructor
      · intro h
        refine ⟨fun _ j' hj' k hk => ?_, fun hCloses => absurd hPanics (not_panics_of_closes hCloses),
          fun hNot => absurd hPanics hNot⟩
        cases hj.symm.trans hj'
        exact (unheard_congr rfl rfl rfl rfl j k).mp (h k hk)
      · intro h k hk
        exact (unheard_congr rfl rfl rfl rfl j k).mpr (h.1 hPanics j hj k hk)
    by_cases hCloses : Closes C s i
    · obtain ⟨_, m, hDone, hClosing⟩ := handleFrame_closes hs hSess hCloses
      obtain ⟨s', hs', hClose, hJid, hBuff, hConn, _⟩ := hClosing.session
      rw [recorded, Batch.logged_done hDone]
      simp only [gone_eq hs', hConn, if_true]
      rw [← recorded, closed_prefix_iff hs' hClose, Batch.silentUntil_congr (drops_congr hJid)
        (unheardClosed_congr hClosing.oflCache hBuff)]
      exact ⟨fun h => ⟨fun hNot => absurd hNot hPanics, fun _ => h, fun _ hNot => absurd hCloses hNot⟩,
        fun h => h.2.1 hCloses⟩
    · obtain ⟨m, hDone, hStill⟩ := handleFrame_goes_on hs hSess hNotClosed hPanics hCloses
      have hNext := sound_handleFrame (C := C) hSound i
      rw [hDone, Outcome.state_done] at hNext ⊢
      rw [recorded, Batch.logged_done hDone]
      simp only [hStill, Bool.false_eq_true, if_false]
      rw [← recorded, ih hNext hStill]
      exact ⟨fun h => ⟨fun hNot => absurd hNot hPanics, fun hNot => absurd hNot hCloses, fun _ _ => h⟩,
        fun h => h.2.2 hPanics hCloses⟩

end Cut

/-- All ways to cut the frames into results come to the same, for the session and for the calls of
the database, exactly if the connection is closed already or the frames behind the first one that
panics or closes the session leave no trace. -/
theorem batching_invisible_iff (C : Codec) (x : Bytes) (n : Node) (hSound : Sound x n)
    (frames : List Input) :
    (∀ batches : List (List Input), (recvResults C x (resultsOf batches) n).state.db =
      sendAll n.db (issued C x n batches)) ∧
    ((∀ batches batches' : List (List Input), batches.flatten = frames → batches'.flatten = frames →
      seen x (recvResults C x (resultsOf batches) n).state =
        seen x (recvResults C x (resultsOf batches') n).state ∧
      issued C x n batches = issued C x n batches') ↔
    gone x n = true ∨ Unmarked C x n frames) := by
  refine ⟨issued_db hSound, ?_⟩
  have hStays : ∀ i, Keeps (fun s t : Node × List (List Dispatch) => gone x s.1 = true → gone x t.1 = true)
      (recorded C x i) := by
    intro i s hGone
    rw [recorded, Batch.logged_state]
    exact allows_staysGone.handleFrame i s.1 hGone
  have hCut := Batch.forall_readAll_iff (looked x) hStays (n, []) frames
  have hLooked : ∀ batches : List (List Input),
      looked x (Batch.readAll (recorded C x) (fun s => gone x s.1) (n, []) batches) =
        (seen x (recvResults C x (resultsOf batches) n).state, issued C x n batches) := by
    intro batches
    rw [recvResults_state, ← Batch.readAll_logged (frameCalls C x) (n, []) batches]
    rfl
  simp only [hLooked, Prod.mk.injEq] at hCut
  rw [hCut]
  cases hGone : gone x n with
  | true => exact iff_of_true (.inl rfl) (.inl rfl)
  | false => rw [independent_iff hSound hGone]

open GoJson

def nowhereInput : Input := ⟨PlainJson.writeFrame toNowhere, Env.plain true⟩

def beatInput : Input := ⟨[heartBeat], Env.plain true⟩

def garbageInput : Input := ⟨text "?", Env.plain true⟩

def ackedInput : Input := ⟨PlainJson.writeFrame { toBob with ack := 1 }, Env.plain true⟩

def chatInput : Input := ⟨PlainJson.writeFrame toBob, Env.plain true⟩

theorem sound_aliceNode : Sound (text "s1") aliceNode := by
  refine ⟨aliceSession, by simp [aliceNode], fun _ => ⟨aliceJid, by decide⟩, ?_, by simp [aliceSession]⟩
  intro id p hp
  rw [aliceSession, Std.ExtTreeMap.getElem?_empty] at hp
  cases hp

theorem batching_invisible_alice :
    seen (text "s1") (recvResults (codec outside) (text "s1")
        (resultsOf [[garbageInput], [chatInput]]) aliceNode).state =
      seen (text "s1") (recvResults (codec outside) (text "s1")
        (resultsOf [[garbageInput, chatInput]]) aliceNode).state ∧
    issued (codec outside) (text "s1") aliceNode [[garbageInput], [chatInput]] =
      issued (codec outside) (text "s1") aliceNode [[garbageInput, chatInput]] := by
  have hGarbage : ∃ e, newPacket (codec outside) garbageInput.frame = .error e := by
    cases hPacket : newPacket (codec outside) garbageInput.frame with
    | error e => exact ⟨e, rfl⟩
    | ok p =>
      have hNone : (newPacket (codec outside) garbageInput.frame).toOption = none := by decide +kernel
      rw [hPacket] at hNone
      cases hNone
  have hPacket : newPacket (codec outside) chatInput.frame = .ok (PlainJson.received toBob) :=
    toOption_eq_some_iff.mp (by decide +kernel)
  have hSession : aliceNode.sessions (text "s1") = some aliceSession := by simp [aliceNode]
  have hUnmarked : Unmarked (codec outside) (text "s1") aliceNode [garbageInput, chatInput] := by
    intro s hs
    cases hSession.symm.trans hs
    have hCloses : Closes (codec outside) aliceSession garbageInput := .inr ⟨rfl, by decide, hGarbage⟩
    refine ⟨fun hPanics => absurd hPanics (not_panics_of_closes hCloses), fun _ => ?_,
      fun _ hNot => absurd hCloses hNot⟩
    refine .inr ⟨.inr ?_, trivial⟩
    have hRequest : request (codec outside) chatInput =
        .chat (stamped (PlainJson.received toBob) (Env.plain true)) := by
      unfold request
      rw [hPacket]
      rfl
    rw [hRequest]
    rfl
  exact (batching_invisible_iff (codec outside) (text "s1") aliceNode sound_aliceNode
    [garbageInput, chatInput]).2.mpr (.inr hUnmarked) _ _ rfl rfl

def sentToAlice (batches : List (List Input)) : Option (List Written) :=
  ((recvResults (codec outside) (text "s1") (resultsOf batches) aliceNode).state.sessions
    (text "s1")).map (·.written)

/-- A heartbeat is answered only if it is not read together with a frame that panics, and a
message only if it is read together with the frame that closes the session. -/
theorem batching_visible :
    sentToAlice [[nowhereInput], [beatInput]] = some [.signal heartBeat] ∧
      sentToAlice [[nowhereInput, beatInput]] = some [] ∧
    (sentToAlice [[garbageInput], [ackedInput]]).map List.length = some 1 ∧
      (sentToAlice [[garbageInput, ackedInput]]).map List.length = some 2 := by
  decide +kernel

end Batches

end Sara
