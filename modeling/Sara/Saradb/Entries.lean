import Sara.Saradb.Database

/-! # Where the fields of a hash come from

Only `HSET` makes a field. So whatever holds of the fields that were there at first and
of those every caller sets holds of all fields of all hashes, whichever commands are
still queued and in whatever order the workers execute them.
-/

namespace Sara.Saradb

open Lib

set_option autoImplicit false

/-- Every field the command sets is as it may be. -/
def Enters (W : Bytes → Bytes → Bytes → Prop) (c : Cmd) : Prop :=
  ∀ key field value, c = .hset key field value → W key field value

namespace Database

/-- Every field of a hash, and every one that is about to be set, is as it may be. -/
structure Entries (W : Bytes → Bytes → Bytes → Prop) (db : Database) : Prop where
  store : ∀ key field value, Redis.hget db.store key field = some value → W key field value
  pending : ∀ c ∈ db.pending, Enters W c

variable {W : Bytes → Bytes → Bytes → Prop} {db db' : Database}

theorem Entries.start {st : Store}
    (h : ∀ key field value, Redis.hget st key field = some value → W key field value) :
    (start st).Entries W :=
  ⟨h, fun _ hc => by cases hc⟩

/-- The commands of one database on a store another one has written to. -/
theorem Entries.setStore (h : db.Entries W) (h' : db'.Entries W) :
    Entries W { db with store := db'.store } :=
  ⟨h'.store, h.pending⟩

theorem Entries.exec (h : db.Entries W) {c : Cmd} (hc : Enters W c) :
    Entries W { db with store := Redis.exec db.store c } := by
  refine ⟨?_, h.pending⟩
  intro key field value hGet
  rcases Redis.hget_exec_cases hGet with hOld | hSet
  · exact h.store key field value hOld
  · exact hc key field value hSet

theorem Entries.sendOne (h : db.Entries W) {d : Dispatch} (hd : Enters W d.cmd)
    (hSend : db.sendOne d = some db') : db'.Entries W := by
  cases d with
  | direct c =>
    rw [sendOne_direct hSend]
    exact h.exec hd
  | queued ch c =>
    cases hSend
    refine ⟨h.store, ?_⟩
    intro e he
    rcases List.mem_cons.mp ((pending_enqueue db ch c).mem_iff.mp he) with rfl | hOld
    · exact hd
    · exact h.pending e hOld

theorem Entries.send (h : db.Entries W) {ds : List Dispatch} (hds : ∀ d ∈ ds, Enters W d.cmd) :
    (db.send ds).Entries W := by
  induction ds generalizing db with
  | nil => exact h
  | cons d ds ih =>
    unfold Database.send
    cases hSend : db.sendOne d with
    | none => exact h
    | some db' =>
      apply ih (h.sendOne (hds d List.mem_cons_self) hSend)
      exact fun e he => hds e (List.mem_cons_of_mem d he)

theorem Entries.take (h : db.Entries W) {consumers : Nat} {ch : Chan}
    (hTake : db.take consumers ch = some db') : db'.Entries W := by
  constructor
  · rw [take_store hTake]
    exact h.store
  · exact fun c hc => h.pending c ((pending_take hTake).mem_iff.mp hc)

theorem Entries.execHeld (h : db.Entries W) {ch : Chan} {i : Nat}
    (hExec : db.execHeld ch i = some db') : db'.Entries W := by
  obtain ⟨c, _, hStore, hPerm⟩ := pending_execHeld hExec
  have hc := h.pending c (hPerm.mem_iff.mpr List.mem_cons_self)
  constructor
  · rw [hStore]
    exact (h.exec hc).store
  · exact fun e he => h.pending e (hPerm.mem_iff.mpr (List.mem_cons_of_mem c he))

end Database

/-! ## The calls -/

section Calls

variable {W : Bytes → Bytes → Bytes → Prop}

end Calls

end Sara.Saradb
