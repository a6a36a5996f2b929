import Sara.Core.Session

/-! # Offline messages in the database

The messages kept for a user are the fields of one hash. A ledger says which
packets were ever sent and which messages a recipient has acknowledged; under
commands that a ledger allows, a message that is stored or about to be stored
stays so until it is acknowledged.
-/

namespace Sara

open Lib Saradb

set_option autoImplicit false

def offlineIndex (r : JID) : Bytes := indexKey r.toOfflineKey

/-- Sent packets have distinct ids; `acked` is by offline index and message id. -/
structure Ledger where
  sent : Packet → Prop
  acked : Bytes → Bytes → Prop
  sent_inj : ∀ {p q : Packet}, sent p → sent q → p.envelope.id = q.envelope.id → p = q

/-- A command that would replace or drop a whole offline index. -/
def clobbers : Cmd → Bool
  | .set key _ | .setex key _ _ | .del key => offlinePerfix.isPrefixOf key
  | .hset _ _ _ | .hdel _ _ => false

theorem offlinePerfix_isPrefixOf (r : JID) : offlinePerfix.isPrefixOf (offlineIndex r) = true := by
  refine List.isPrefixOf_iff_prefix.mpr ?_
  simp only [offlineIndex, indexKey, JID.toOfflineKey, List.append_assoc]
  exact List.prefix_append ..

/-- Only a hash command spares an offline index it is about. -/
theorem field?_isSome_of_not_clobbers {c : Cmd} {r : JID} (h : clobbers c = false)
    (hKey : c.key = offlineIndex r) : c.field?.isSome := by
  cases c with
  | hset | hdel => rfl
  | set key value | setex key ttl value | del key =>
    have hPerfix := offlinePerfix_isPrefixOf r
    rw [← show key = offlineIndex r from hKey] at hPerfix
    rw [clobbers, hPerfix] at h
    cases h

theorem hget_hset_offlineIndex {st : Store} {r : JID} (h : IndexHash st r.toOfflineKey)
    (field value f : Bytes) : Redis.hget (Redis.exec st (.hset (offlineIndex r) field value))
      (offlineIndex r) f = if field = f then some value else Redis.hget st (offlineIndex r) f :=
  Redis.hget_exec_hset st (offlineIndex r) field value h f

/-- A stored message, or one whose write is queued. -/
def Stored (C : Codec) (db : Database) (r : JID) (p : Packet) : Prop :=
  Redis.hget db.store (offlineIndex r) p.envelope.id = some (p.toJson C) ∨
    .hset (offlineIndex r) p.envelope.id (p.toJson C) ∈ db.pending

instance (C : Codec) (db : Database) (r : JID) (p : Packet) : Decidable (Stored C db r p) :=
  inferInstanceAs (Decidable (_ ∨ _))

namespace Ledger

variable (L : Ledger) (C : Codec)

/-- What a command may do to the offline indexes: store what was sent, remove what was acked. -/
def Allows : Cmd → Prop
  | .hset key field value =>
    ∀ r, key = offlineIndex r → ∃ p, L.sent p ∧ p.envelope.id = field ∧ value = p.toJson C
  | .hdel key field => ∀ r, key = offlineIndex r → L.acked key field
  | .set _ _ | .setex _ _ _ | .del _ => True

def Sends (d : Dispatch) : Prop := L.Allows C d.cmd ∧ ∀ c, d = .direct c → clobbers c = false

structure Safe (db : Database) : Prop where
  hashes : ∀ r : JID, IndexHash db.store r.toOfflineKey
  pending : ∀ c ∈ db.pending, L.Allows C c

/-- A message stays stored until it is acknowledged. -/
def Kept (db db' : Database) : Prop :=
  ∀ r p, L.sent p → Stored C db r p → Stored C db' r p ∨ L.acked (offlineIndex r) p.envelope.id

variable {L C}

theorem Kept.refl (db : Database) : L.Kept C db db := fun _ _ _ h => .inl h

theorem Kept.trans {db db' db'' : Database} (h : L.Kept C db db') (h' : L.Kept C db' db'') :
    L.Kept C db db'' := by
  intro r p hSent hStored
  rcases h r p hSent hStored with hStored | hAcked
  · exact h' r p hSent hStored
  · exact .inr hAcked

theorem hashes_exec {st : Store} {c : Cmd} (h : ∀ r : JID, IndexHash st r.toOfflineKey)
    (hc : clobbers c = false) (r : JID) : IndexHash (Redis.exec st c) r.toOfflineKey :=
  (h r).exec c fun hKey => field?_isSome_of_not_clobbers hc hKey

theorem hget_exec {st : Store} {c : Cmd} {r : JID} {p : Packet}
    (hHash : IndexHash st r.toOfflineKey) (hSent : L.sent p) (hAllows : L.Allows C c)
    (hc : clobbers c = false)
    (hGet : Redis.hget st (offlineIndex r) p.envelope.id = some (p.toJson C)) :
    Redis.hget (Redis.exec st c) (offlineIndex r) p.envelope.id = some (p.toJson C) ∨
      L.acked (offlineIndex r) p.envelope.id := by
  by_cases hKey : c.key = offlineIndex r
  · cases c with
    | hset key field value =>
      have hSame : key = offlineIndex r := hKey
      subst hSame
      rw [hget_hset_offlineIndex hHash]
      split
      · rename_i hField
        obtain ⟨q, hq, hId, rfl⟩ := hAllows r rfl
        rw [L.sent_inj hq hSent (hId.trans hField)]
        exact .inl rfl
      · exact .inl hGet
    | hdel key field =>
      have hSame : key = offlineIndex r := hKey
      subst hSame
      rw [Redis.hget_exec_hdel]
      split
      · rename_i hField
        exact .inr (hField ▸ hAllows r rfl)
      · exact .inl hGet
    | set | setex | del =>
      have hField := field?_isSome_of_not_clobbers hc hKey
      cases hField
  · rw [Redis.hget_exec_of_ne (Ne.symm hKey)]
    exact .inl hGet

theorem Safe.sendOne {db db' : Database} {d : Dispatch} (h : L.Safe C db) (hd : L.Sends C d)
    (hSend : db.sendOne d = some db') : L.Safe C db' ∧ L.Kept C db db' := by
  cases d with
  | direct c =>
    rw [Database.sendOne_direct hSend]
    have hc := hd.2 c rfl
    refine ⟨⟨hashes_exec h.hashes hc, h.pending⟩, ?_⟩
    rintro r p hSent (hGet | hPending)
    · rcases hget_exec (h.hashes r) hSent hd.1 hc hGet with hGet' | hAcked
      · exact .inl (.inl hGet')
      · exact .inr hAcked
    · exact .inl (.inr hPending)
  | queued ch c =>
    have hMem := fun e => (Database.pending_enqueue db ch c).mem_iff (a := e)
    cases hSend
    refine ⟨⟨h.hashes, ?_⟩, ?_⟩
    · intro e he
      rcases List.mem_cons.mp ((hMem e).mp he) with rfl | hOld
      · exact hd.1
      · exact h.pending e hOld
    · rintro r p _ (hGet | hPending)
      · exact .inl (.inl hGet)
      · exact .inl (.inr ((hMem _).mpr (List.mem_cons_of_mem c hPending)))

theorem Safe.send {db : Database} {ds : List Dispatch} (h : L.Safe C db)
    (hds : ∀ d ∈ ds, L.Sends C d) : L.Safe C (db.send ds) ∧ L.Kept C db (db.send ds) := by
  induction ds generalizing db with
  | nil => exact ⟨h, Kept.refl db⟩
  | cons d ds ih =>
    unfold Database.send
    cases hSend : db.sendOne d with
    | none => exact ⟨h, Kept.refl db⟩
    | some db' =>
      obtain ⟨hSafe, hKept⟩ := h.sendOne (hds d List.mem_cons_self) hSend
      obtain ⟨hSafe', hKept'⟩ := ih hSafe fun e he => hds e (List.mem_cons_of_mem d he)
      exact ⟨hSafe', hKept.trans hKept'⟩

/-- A key that is written at once begins like a session key, so it is no offline index. -/
theorem not_clobbers_of_is4s {c : Cmd} (h : is4s c.key) : clobbers c = false := by
  have hne : ∀ key : Bytes, is4s key → offlinePerfix.isPrefixOf key = false := by
    intro key hKey
    by_contra hOffline
    obtain ⟨a, rfl⟩ := List.isPrefixOf_iff_prefix.mp hKey
    obtain ⟨b, hb⟩ : offlinePerfix <+: sessionPerfix ++ a := by simpa using hOffline
    have hHead : (offlinePerfix ++ b).head? = (sessionPerfix ++ a).head? := by rw [hb]
    have hText : (text "o").head? = (text "s").head? := hHead
    revert hText
    decide
  cases c with
  | hset | hdel => rfl
  | set key | setex key | del key => exact hne key h

/-- Every direct command of `PutExWithIdx` is on an index or on such a key. -/
theorem sends_putExWithIdx {idx key value : Bytes} {ex : Int}
    (h : L.Allows C (.hset (indexKey idx) key value)) :
    ∀ d ∈ putExWithIdx idx key value ex, L.Sends C d := by
  have hStore : L.Allows C (storeKey key value ex) := by
    unfold storeKey
    split
    · trivial
    · trivial
  have hKey : (storeKey key value ex).key = key := by
    unfold storeKey
    split
    · rfl
    · rfl
  unfold putExWithIdx
  split
  · rename_i hSession
    simp only [List.forall_mem_cons]
    refine ⟨⟨h, ?_⟩, ⟨hStore, ?_⟩, by simp⟩
    · rintro c hc
      cases hc
      rfl
    · rintro c hc
      cases hc
      exact not_clobbers_of_is4s (hKey.symm ▸ hSession)
  · simp only [List.forall_mem_cons]
    exact ⟨⟨h, fun c hc => by cases hc⟩, ⟨hStore, fun c hc => by cases hc⟩, by simp⟩

theorem sends_putEx (key value : Bytes) (ex : Int) : ∀ d ∈ putEx key value ex, L.Sends C d := by
  unfold putEx
  split
  · rename_i hSession
    simp only [List.forall_mem_cons]
    refine ⟨⟨trivial, ?_⟩, by simp⟩
    rintro c hc
    cases hc
    exact not_clobbers_of_is4s hSession
  · simp only [List.forall_mem_cons]
    exact ⟨⟨trivial, fun c hc => by cases hc⟩, by simp⟩

theorem sends_deleteByIdxKey {idx key : Bytes} (h : L.Allows C (.hdel (indexKey idx) key)) :
    ∀ d ∈ deleteByIdxKey idx key, L.Sends C d := by
  simp only [deleteByIdxKey, delete, List.forall_mem_cons]
  exact ⟨⟨h, fun c hc => by cases hc⟩, ⟨trivial, fun c hc => by cases hc⟩, by simp⟩

theorem sends_offlineWrites {p : Packet} (hSent : L.sent p) (r : JID) :
    ∀ d ∈ offlineWrites C r p, L.Sends C d :=
  sends_putExWithIdx fun _ _ => ⟨p, hSent, rfl, rfl⟩

/-- What is handed over to the offline store is stored or on its way there. -/
theorem Safe.stored_offlineWrites {db : Database} (h : L.Safe C db) {p : Packet} (hSent : L.sent p)
    (r : JID) : Stored C (db.send (offlineWrites C r p)) r p ∨
      L.acked (offlineIndex r) p.envelope.id := by
  have hSends := sends_offlineWrites (C := C) hSent r
  unfold offlineWrites putExWithIdx at hSends ⊢
  split
  · rename_i hSession
    rw [if_pos hSession] at hSends
    obtain ⟨db', hSend⟩ := Option.isSome_iff_exists.mp
      (Database.sendOne_hset (h.hashes r) p.envelope.id (p.toJson C))
    have hRest := (h.sendOne (hSends _ List.mem_cons_self) hSend).1.send
      fun d hd => hSends d (List.mem_cons_of_mem _ hd)
    have hNow : Stored C db' r p := by
      rw [Database.sendOne_direct hSend]
      refine .inl ?_
      exact (hget_hset_offlineIndex (h.hashes r) ..).trans (if_pos rfl)
    unfold Database.send
    rw [hSend]
    exact hRest.2 r p hSent hNow
  · rename_i hMessage
    rw [if_neg hMessage] at hSends
    let db' := db.enqueue .message (.hset (indexKey r.toOfflineKey) p.envelope.id (p.toJson C))
    have hSend : db.sendOne (.queued .message (.hset (indexKey r.toOfflineKey) p.envelope.id
        (p.toJson C))) = some db' := rfl
    have hRest := (h.sendOne (hSends _ List.mem_cons_self) hSend).1.send
      fun d hd => hSends d (List.mem_cons_of_mem _ hd)
    have hNow : Stored C db' r p :=
      .inr ((Database.pending_enqueue db .message _).mem_iff.mpr List.mem_cons_self)
    unfold Database.send
    rw [hSend]
    exact hRest.2 r p hSent hNow

theorem Safe.take {consumers : Nat} {db db' : Database} {ch : Chan} (h : L.Safe C db)
    (hTake : db.take consumers ch = some db') : L.Safe C db' ∧ L.Kept C db db' := by
  have hMem := fun c => (Database.pending_take hTake).mem_iff (a := c)
  refine ⟨⟨?_, fun c hc => h.pending c ((hMem c).mp hc)⟩, ?_⟩
  · rw [Database.take_store hTake]
    exact h.hashes
  · rintro r p _ (hGet | hPending)
    · exact .inl (.inl (by rwa [Database.take_store hTake]))
    · exact .inl (.inr ((hMem _).mpr hPending))

theorem Safe.execHeld {db db' : Database} {ch : Chan} {i : Nat} (h : L.Safe C db)
    (hExec : db.execHeld ch i = some db') (hClobber : ∀ c ∈ (db.held ch)[i]?, clobbers c = false) :
    L.Safe C db' ∧ L.Kept C db db' := by
  obtain ⟨c, hc, hStore, hPerm⟩ := Database.pending_execHeld hExec
  have hMem := fun e => hPerm.mem_iff (a := e)
  have hAllows := h.pending c ((hMem c).mpr List.mem_cons_self)
  refine ⟨⟨?_, fun e he => h.pending e ((hMem e).mpr (List.mem_cons_of_mem c he))⟩, ?_⟩
  · rw [hStore]
    exact hashes_exec h.hashes (hClobber c hc)
  · rintro r p hSent (hGet | hPending)
    · rcases hget_exec (h.hashes r) hSent hAllows (hClobber c hc) hGet with hGet' | hAcked
      · exact .inl (.inl (by rwa [hStore]))
      · exact .inr hAcked
    · rcases List.mem_cons.mp ((hMem _).mp hPending) with rfl | hRest
      · refine .inl (.inl ?_)
        rw [hStore]
        exact (hget_hset_offlineIndex (h.hashes r) ..).trans (if_pos rfl)
      · exact .inl (.inr hRest)

end Ledger

end Sara
