import Sara.Core.Offline

/-! # The mailbox of one user

Every message for a user is in one of three places: the buffer of a session that waits
for its ack, the user's offline index, or nowhere any more because it was acknowledged.
The place says what the index holds once the queued commands are executed. Commands that
respect the places of all messages keep it so, in whatever order they are executed.
-/

namespace Sara.Mailbox

open Lib Saradb

set_option autoImplicit false

inductive Place where
  | buffer (x : Bytes)
  | index
  | acked
deriving DecidableEq

section Box

variable (C : Codec) (J : JID) (old : List Bytes) (mail : List Packet) (place : Bytes → Place)

/-- A field of the index is one of the messages, or was there before them. -/
def Entry (field value : Bytes) : Prop :=
  (∃ p ∈ mail, p.envelope.id = field ∧ value = p.toJson C) ∨
    field ∈ old ∧ ∀ b, newBasePacket C value = .ok b → b.envelope.id ∈ old

/-- The command writes to the index only what belongs there, and removes only what was acked. -/
def Tame (c : Cmd) : Prop :=
  c.key = offlineIndex J →
    match c with
    | .hset _ field value =>
      place field = .index ∧ ∃ p ∈ mail, p.envelope.id = field ∧ value = p.toJson C
    | .hdel _ field => ∀ p ∈ mail, p.envelope.id = field → place field = .acked
    | .set _ _ | .setex _ _ _ | .del _ => False

structure Box (db : Database) : Prop where
  inj : ∀ p ∈ mail, ∀ q ∈ mail, p.envelope.id = q.envelope.id → p = q
  hash : IndexHash db.store J.toOfflineKey
  entries : ∀ field value, Redis.hget db.store (offlineIndex J) field = some value →
    Entry C old mail field value
  pending : ∀ c ∈ db.pending, Tame C J mail place c

/-- What the place of a message means for the index, up to what is queued. -/
def Place.InDb (db : Database) (p : Packet) : Place → Prop
  | .buffer _ => Redis.hget db.store (offlineIndex J) p.envelope.id = none
  | .index => Stored C db J p
  | .acked => Redis.hget db.store (offlineIndex J) p.envelope.id = none ∨
      .hdel (offlineIndex J) p.envelope.id ∈ db.pending

/-- The messages that are in their places stay there. -/
def Settled (db db' : Database) : Prop :=
  ∀ p ∈ mail, (place p.envelope.id).InDb C J db p → (place p.envelope.id).InDb C J db' p

variable {C J old mail place} {db db' : Database} {c : Cmd}

theorem Settled.refl (db : Database) : Settled C J mail place db db := fun _ _ h => h

theorem Settled.trans {db'' : Database} (h : Settled C J mail place db db')
    (h' : Settled C J mail place db' db'') : Settled C J mail place db db'' :=
  fun p hp hIn => h' p hp (h p hp hIn)

theorem Tame.of_ne (h : c.key ≠ offlineIndex J) : Tame C J mail place c := fun hKey => absurd hKey h

/-- With nothing queued, the places may change and messages may be added. -/
theorem Box.of_quiet (h : Box C J old mail place db) (hQuiet : db.pending = []) {mail' : List Packet}
    (hMail : ∀ p ∈ mail, p ∈ mail')
    (hInj : ∀ p ∈ mail', ∀ q ∈ mail', p.envelope.id = q.envelope.id → p = q) (place' : Bytes → Place) :
    Box C J old mail' place' db where
  inj := hInj
  hash := h.hash
  entries field value hGet := by
    rcases h.entries field value hGet with ⟨p, hp, hEq⟩ | hOld
    · exact .inl ⟨p, hMail p hp, hEq⟩
    · exact .inr hOld
  pending c hc := by
    rw [hQuiet] at hc
    cases hc

theorem Tame.cases (h : Tame C J mail place c) :
    c.key ≠ offlineIndex J ∨
    (∃ p ∈ mail, c = .hset (offlineIndex J) p.envelope.id (p.toJson C) ∧
      place p.envelope.id = .index) ∨
    ∃ field, c = .hdel (offlineIndex J) field ∧
      ∀ p ∈ mail, p.envelope.id = field → place field = .acked := by
  by_cases hKey : c.key = offlineIndex J
  · have hTame := h hKey
    cases c with
    | hset key field value =>
      obtain ⟨hPlace, p, hp, rfl, rfl⟩ := hTame
      have hSame : key = offlineIndex J := hKey
      exact .inr (.inl ⟨p, hp, by rw [hSame], hPlace⟩)
    | hdel key field =>
      have hSame : key = offlineIndex J := hKey
      exact .inr (.inr ⟨field, by rw [hSame], hTame⟩)
    | set | setex | del => exact hTame.elim
  · exact .inl hKey

theorem Box.exec (h : Box C J old mail place db) (hc : Tame C J mail place c) :
    IndexHash (Redis.exec db.store c) J.toOfflineKey ∧
      ∀ field value, Redis.hget (Redis.exec db.store c) (offlineIndex J) field = some value →
        Entry C old mail field value := by
  rcases hc.cases with hKey | ⟨p, hp, rfl, _⟩ | ⟨f, rfl, _⟩
  · refine ⟨h.hash.exec c fun hEq => absurd hEq hKey, ?_⟩
    intro field value hGet
    rw [Redis.hget_exec_of_ne (Ne.symm hKey)] at hGet
    exact h.entries field value hGet
  · refine ⟨h.hash.exec _ fun _ => rfl, ?_⟩
    intro field value hGet
    rw [hget_hset_offlineIndex h.hash] at hGet
    split at hGet
    · rename_i hField
      exact .inl ⟨p, hp, hField, (Option.some.inj hGet).symm⟩
    · exact h.entries field value hGet
  · refine ⟨h.hash.exec _ fun _ => rfl, ?_⟩
    intro field value hGet
    rw [Redis.hget_exec_hdel] at hGet
    split at hGet
    · cases hGet
    · exact h.entries field value hGet

theorem Box.hget_exec (h : Box C J old mail place db) (hc : Tame C J mail place c) {p : Packet}
    (hp : p ∈ mail) :
    Redis.hget (Redis.exec db.store c) (offlineIndex J) p.envelope.id =
        Redis.hget db.store (offlineIndex J) p.envelope.id ∧
      c ≠ .hset (offlineIndex J) p.envelope.id (p.toJson C) ∧
        c ≠ .hdel (offlineIndex J) p.envelope.id ∨
    c = .hset (offlineIndex J) p.envelope.id (p.toJson C) ∧ place p.envelope.id = .index ∧
      Redis.hget (Redis.exec db.store c) (offlineIndex J) p.envelope.id = some (p.toJson C) ∨
    c = .hdel (offlineIndex J) p.envelope.id ∧ place p.envelope.id = .acked ∧
      Redis.hget (Redis.exec db.store c) (offlineIndex J) p.envelope.id = none := by
  rcases hc.cases with hKey | ⟨q, hq, rfl, hPlace⟩ | ⟨f, rfl, hAcked⟩
  · refine .inl ⟨Redis.hget_exec_of_ne (Ne.symm hKey), ?_, ?_⟩
    · rintro rfl
      exact hKey rfl
    · rintro rfl
      exact hKey rfl
  · by_cases hId : q.envelope.id = p.envelope.id
    · cases h.inj q hq p hp hId
      refine .inr (.inl ⟨rfl, hPlace, ?_⟩)
      rw [hget_hset_offlineIndex h.hash, if_pos rfl]
    · refine .inl ⟨?_, ?_, ?_⟩
      · rw [hget_hset_offlineIndex h.hash, if_neg hId]
      · exact fun hEq => hId (Redis.Cmd.hset.inj hEq).2.1
      · exact fun hEq => by cases hEq
  · by_cases hId : f = p.envelope.id
    · subst hId
      refine .inr (.inr ⟨rfl, hAcked p hp rfl, ?_⟩)
      rw [Redis.hget_exec_hdel, if_pos rfl]
    · refine .inl ⟨?_, ?_, ?_⟩
      · rw [Redis.hget_exec_hdel, if_neg hId]
      · exact fun hEq => by cases hEq
      · exact fun hEq => hId (Redis.Cmd.hdel.inj hEq).2

/-- One of the commands is executed; all others of the queues stay. -/
theorem Box.settled_exec (h : Box C J old mail place db) (hc : Tame C J mail place c)
    (hStore : db'.store = Redis.exec db.store c)
    (hPending : ∀ e ∈ db.pending, e = c ∨ e ∈ db'.pending) : Settled C J mail place db db' := by
  intro p hp hIn
  have hNow := h.hget_exec hc hp
  rw [← hStore] at hNow
  cases hPlace : place p.envelope.id with
  | buffer x =>
    rw [hPlace] at hIn hNow
    rcases hNow with ⟨hSame, _⟩ | ⟨_, hIndex, _⟩ | ⟨_, hAcked, _⟩
    · exact hSame.trans hIn
    · cases hIndex
    · cases hAcked
  | index =>
    rw [hPlace] at hIn hNow
    rcases hNow with ⟨hSame, hNot, _⟩ | ⟨_, _, hGet⟩ | ⟨_, hAcked, _⟩
    · rcases hIn with hGet | hQueued
      · exact .inl (hSame.trans hGet)
      · rcases hPending _ hQueued with hEq | hStill
        · exact absurd hEq.symm hNot
        · exact .inr hStill
    · exact .inl hGet
    · cases hAcked
  | acked =>
    rw [hPlace] at hIn hNow
    rcases hNow with ⟨hSame, _, hNot⟩ | ⟨_, hIndex, _⟩ | ⟨_, _, hNone⟩
    · rcases hIn with hNone | hQueued
      · exact .inl (hSame.trans hNone)
      · rcases hPending _ hQueued with hEq | hStill
        · exact absurd hEq.symm hNot
        · exact .inr hStill
    · cases hIndex
    · exact .inl hNone

theorem settled_of_store (hStore : db'.store = db.store)
    (hPending : ∀ e ∈ db.pending, e ∈ db'.pending) : Settled C J mail place db db' := by
  intro p _ hIn
  cases hPlace : place p.envelope.id with
  | buffer x =>
    rw [hPlace, Place.InDb, ← hStore] at hIn
    exact hIn
  | index =>
    rw [hPlace, Place.InDb, Stored, ← hStore] at hIn
    exact hIn.imp_right (hPending _)
  | acked =>
    rw [hPlace, Place.InDb, ← hStore] at hIn
    exact hIn.imp_right (hPending _)

theorem Box.sendOne (h : Box C J old mail place db) {d : Dispatch} (hd : Tame C J mail place d.cmd)
    (hSend : db.sendOne d = some db') :
    Box C J old mail place db' ∧ Settled C J mail place db db' := by
  cases d with
  | direct c =>
    rw [Database.sendOne_direct hSend]
    obtain ⟨hHash, hEntries⟩ := h.exec hd
    exact ⟨⟨h.inj, hHash, hEntries, h.pending⟩, h.settled_exec hd rfl fun _ he => .inr he⟩
  | queued ch c =>
    have hMem := fun e => (Database.pending_enqueue db ch c).mem_iff (a := e)
    cases hSend
    refine ⟨⟨h.inj, h.hash, h.entries, ?_⟩, settled_of_store rfl ?_⟩
    · intro e he
      rcases List.mem_cons.mp ((hMem e).mp he) with rfl | hOld
      · exact hd
      · exact h.pending e hOld
    · exact fun e he => (hMem e).mpr (List.mem_cons_of_mem c he)

theorem Box.send (h : Box C J old mail place db) {ds : List Dispatch}
    (hds : ∀ d ∈ ds, Tame C J mail place d.cmd) :
    Box C J old mail place (db.send ds) ∧ Settled C J mail place db (db.send ds) := by
  induction ds generalizing db with
  | nil => exact ⟨h, Settled.refl db⟩
  | cons d ds ih =>
    unfold Database.send
    cases hSend : db.sendOne d with
    | none => exact ⟨h, Settled.refl db⟩
    | some db' =>
      obtain ⟨hBox, hSettled⟩ := h.sendOne (hds d List.mem_cons_self) hSend
      obtain ⟨hBox', hSettled'⟩ := ih hBox fun e he => hds e (List.mem_cons_of_mem d he)
      exact ⟨hBox', hSettled.trans hSettled'⟩

theorem Box.take (h : Box C J old mail place db) {consumers : Nat} {ch : Chan}
    (hTake : db.take consumers ch = some db') :
    Box C J old mail place db' ∧ Settled C J mail place db db' := by
  have hMem := fun e => (Database.pending_take hTake).mem_iff (a := e)
  have hStore := Database.take_store hTake
  refine ⟨⟨h.inj, ?_, ?_, fun c hc => h.pending c ((hMem c).mp hc)⟩,
    settled_of_store hStore fun e he => (hMem e).mpr he⟩
  · rw [hStore]
    exact h.hash
  · rw [hStore]
    exact h.entries

theorem Box.execHeld (h : Box C J old mail place db) {ch : Chan} {i : Nat}
    (hExec : db.execHeld ch i = some db') :
    Box C J old mail place db' ∧ Settled C J mail place db db' := by
  obtain ⟨c, _, hStore, hPerm⟩ := Database.pending_execHeld hExec
  have hMem := fun e => hPerm.mem_iff (a := e)
  have hTame := h.pending c ((hMem c).mpr List.mem_cons_self)
  obtain ⟨hHash, hEntries⟩ := h.exec hTame
  refine ⟨⟨h.inj, ?_, ?_, fun e he => h.pending e ((hMem e).mpr (List.mem_cons_of_mem c he))⟩,
    h.settled_exec hTame hStore fun e he => List.mem_cons.mp ((hMem e).mp he)⟩
  · rw [hStore]
    exact hHash
  · rw [hStore]
    exact hEntries

/-! ## Storing and removing messages -/

theorem tame_offlineWrites {p : Packet} (hp : p ∈ mail) (hPlace : place p.envelope.id = .index)
    (hId : p.envelope.id ≠ offlineIndex J) (r : JID) :
    ∀ d ∈ offlineWrites C r p, Tame C J mail place d.cmd := by
  have hSet : Tame C J mail place (.hset (indexKey r.toOfflineKey) p.envelope.id (p.toJson C)) :=
    fun _ => ⟨hPlace, p, hp, rfl, rfl⟩
  have hKey : Tame C J mail place (storeKey p.envelope.id (p.toJson C) offlineExpired) := by
    refine .of_ne ?_
    unfold storeKey
    split
    · exact hId
    · exact hId
  unfold offlineWrites putExWithIdx
  split
  · simp only [List.forall_mem_cons]
    exact ⟨hSet, hKey, by simp⟩
  · simp only [List.forall_mem_cons]
    exact ⟨hSet, hKey, by simp⟩

theorem Box.stored_offlineWrites (h : Box C J old mail place db) {p : Packet} (hp : p ∈ mail)
    (hPlace : place p.envelope.id = .index) (hId : p.envelope.id ≠ offlineIndex J) {r : JID}
    (hr : r.toOfflineKey = J.toOfflineKey) : Stored C (db.send (offlineWrites C r p)) J p := by
  have hTame := tame_offlineWrites (C := C) hp hPlace hId r
  -- the first command makes the message stored, and the second one keeps it so
  have hAfter : ∀ d ds db', (∀ e ∈ d :: ds, Tame C J mail place e.cmd) → db.sendOne d = some db' →
      Stored C db' J p → Stored C (db.send (d :: ds)) J p := by
    intro d ds db' hds hSend hNow
    have hBox := (h.sendOne (hds d List.mem_cons_self) hSend).1
    have hRest := (hBox.send fun e he => hds e (List.mem_cons_of_mem d he)).2 p hp
    rw [hPlace] at hRest
    unfold Database.send
    rw [hSend]
    exact hRest hNow
  unfold offlineWrites putExWithIdx at hTame ⊢
  rw [hr] at hTame ⊢
  split
  · rename_i hSession
    rw [if_pos hSession] at hTame
    obtain ⟨db', hSend⟩ := Option.isSome_iff_exists.mp
      (Database.sendOne_hset h.hash p.envelope.id (p.toJson C))
    refine hAfter _ _ db' hTame hSend (.inl ?_)
    rw [Database.sendOne_direct hSend]
    exact (hget_hset_offlineIndex h.hash ..).trans (if_pos rfl)
  · rename_i hMessage
    rw [if_neg hMessage] at hTame
    refine hAfter _ _ _ hTame rfl (.inr ?_)
    exact (Database.pending_enqueue db .message _).mem_iff.mpr List.mem_cons_self

theorem tame_deleteByIdxKey {field : Bytes} (hId : field ≠ offlineIndex J)
    (hAcked : ∀ p ∈ mail, p.envelope.id = field → place field = .acked) (idx : Bytes) :
    ∀ d ∈ deleteByIdxKey idx field, Tame C J mail place d.cmd := by
  simp only [deleteByIdxKey, delete, List.forall_mem_cons]
  exact ⟨fun _ => hAcked, .of_ne hId, by simp⟩

end Box

end Sara.Mailbox
