import Sara.Core.Session
import Sara.Types.PlainJson
import Mathlib.Data.Set.Insert

/-! # What storing a message may touch

Messages, the session directory, the group cache and all indexes share one key
space, and a stored message is a key named by the client. Storing it and later
deleting it is harmless to the rest of the key space exactly when that name is
not a key of another family.
-/

namespace Sara.Store

open Lib Saradb

set_option autoImplicit false

def sessionKeys : Set Bytes := Set.range JID.toSessionid

def groupKeys : Set Bytes := Set.range fun g : Bytes × Bytes => groupUsersKey g.1 g.2

/-- The index of each node, and the one in which all nodes are registered. -/
def nodeIndexes (nodeids : Set Bytes) : Set Bytes := indexKey '' insert (text "sara") nodeids

def otherOfflineIndexes (to_jid : JID) : Set Bytes :=
  {key | ∃ j : JID, j.stringWithoutResource ≠ to_jid.stringWithoutResource ∧
    key = indexKey j.toOfflineKey}

def protectedKeys (nodeids : Set Bytes) (to_jid : JID) : Set Bytes :=
  sessionKeys ∪ groupKeys ∪ nodeIndexes nodeids ∪ otherOfflineIndexes to_jid

theorem head?_groupUsersKey (gid domain : Bytes) :
    (groupUsersKey gid domain).head? = (text "g").head? := rfl

theorem head?_offlineIndex (j : JID) : (indexKey j.toOfflineKey).head? = (text "o").head? := rfl

theorem ne_of_head? {a b : Bytes} (h : a.head? ≠ b.head?) : a ≠ b := fun hEq => h (hEq ▸ rfl)

/-- The recipient's own offline index belongs to another family only where a node
is named like it. -/
theorem offlineIndex_mem_iff (nodeids : Set Bytes) (to_jid : JID) :
    indexKey to_jid.toOfflineKey ∈ protectedKeys nodeids to_jid ↔ to_jid.toOfflineKey ∈ nodeids := by
  constructor
  · rintro (((⟨j, hj⟩ | ⟨g, hg⟩) | ⟨node, rfl | hNode, hEq⟩) | ⟨j, hne, hEq⟩)
    · refine absurd hj (ne_of_head? ?_)
      rw [j.head?_toSessionid, head?_offlineIndex]
      decide
    · refine absurd hg (ne_of_head? ?_)
      rw [head?_groupUsersKey, head?_offlineIndex]
      decide
    · refine absurd hEq (ne_of_head? ?_)
      rw [head?_offlineIndex]
      decide
    · rwa [← indexKey_inj.mp hEq]
    · rw [indexKey_inj, JID.toOfflineKey_inj] at hEq
      exact absurd hEq.symm hne
  · intro h
    exact .inl (.inr ⟨_, .inr h, rfl⟩)

theorem offlineWrites_key {C : Codec} {to_jid : JID} {p : Packet} {d : Dispatch}
    (h : d ∈ offlineWrites C to_jid p) :
    d.cmd.key = indexKey to_jid.toOfflineKey ∨ d.cmd.key = p.envelope.id := by
  unfold offlineWrites putExWithIdx at h
  split at h
  · rcases List.mem_pair.mp h with rfl | rfl
    · exact .inl rfl
    · exact .inr rfl
  · rcases List.mem_pair.mp h with rfl | rfl
    · exact .inl rfl
    · exact .inr rfl

theorem deleteByIdxKey_key {idx key : Bytes} {d : Dispatch} (h : d ∈ deleteByIdxKey idx key) :
    d.cmd.key = indexKey idx ∨ d.cmd.key = key := by
  rcases List.mem_pair.mp h with rfl | rfl
  · exact .inl rfl
  · exact .inr rfl

/-- Stored under no keys yet, the message leaves both its keys behind. -/
theorem execDirect_offlineWrites (C : Codec) (to_jid : JID) (p : Packet) :
    execDirect (fun _ => none) (offlineWrites C to_jid p) =
      Function.update (Function.update (fun _ => none) (indexKey to_jid.toOfflineKey)
        (some (.hash ((∅ : Redis.Hash Bytes Bytes).insert p.envelope.id (p.toJson C)))))
        p.envelope.id (some (.string (p.toJson C) (some offlineExpired))) := by
  unfold offlineWrites putExWithIdx
  split <;> rfl

/-- Storing a message, and deleting it after the ack, leaves every other key family
alone whatever the store holds, exactly for the ids outside those families. -/
theorem storing_keeps_protected_iff (C : Codec) (nodeids : Set Bytes) (p : Packet) (to_jid : JID)
    (hTo : newJID p.envelope.to_ = .ok to_jid) :
    (∀ n, storePacket C p n = .done () (n.send (offlineWrites C to_jid p))) ∧
    ((∀ st : Saradb.Store, ∀ key ∈ protectedKeys nodeids to_jid,
      execDirect st (offlineWrites C to_jid p) key = st key ∧
        execDirect st (deleteByIdxKey to_jid.toOfflineKey p.envelope.id) key = st key) ↔
    p.envelope.id ∉ protectedKeys nodeids to_jid ∧ to_jid.toOfflineKey ∉ nodeids) := by
  constructor
  · intro n
    unfold storePacket
    rw [hTo]
    rfl
  rw [← offlineIndex_mem_iff]
  constructor
  · intro h
    constructor
    · intro hMem
      have hSame := (h (fun _ => none) _ hMem).1
      rw [execDirect_offlineWrites, Function.update_self] at hSame
      cases hSame
    · intro hMem
      have hSame := (h (fun _ => none) _ hMem).1
      rw [execDirect_offlineWrites] at hSame
      rcases eq_or_ne (indexKey to_jid.toOfflineKey) p.envelope.id with hEq | hne
      · rw [hEq, Function.update_self] at hSame
        cases hSame
      · rw [Function.update_of_ne hne, Function.update_self] at hSame
        cases hSame
  · rintro ⟨hId, hIndex⟩ st key hKey
    have hneIndex : key ≠ indexKey to_jid.toOfflineKey := fun h => hIndex (h ▸ hKey)
    have hneId : key ≠ p.envelope.id := fun h => hId (h ▸ hKey)
    constructor
    · apply execDirect_of_forall_ne
      intro d hd
      rcases offlineWrites_key hd with hEq | hEq
      · rwa [hEq]
      · rwa [hEq]
    · apply execDirect_of_forall_ne
      intro d hd
      rcases deleteByIdxKey_key hd with hEq | hEq
      · rwa [hEq]
      · rwa [hEq]

def carol : JID := parsedJID (text "carol@x") (by decide)

def greeting : Packet :=
  PlainJson.received
    { id := text "m1", from_ := text "alice@x", to_ := text "carol@x", type := 1 }

theorem greeting_unprotected : text "m1" ∉ protectedKeys {text "node01"} carol := by
  rintro (((⟨j, hj⟩ | ⟨g, hg⟩) | ⟨node, hNode, hEq⟩) | ⟨j, -, hEq⟩)
  · refine absurd hj (ne_of_head? ?_)
    rw [j.head?_toSessionid]
    decide
  · refine absurd hg (ne_of_head? ?_)
    rw [head?_groupUsersKey]
    decide
  · obtain rfl | rfl := hNode
    · exact absurd hEq (by decide)
    · exact absurd hEq (by decide)
  · refine absurd hEq (ne_of_head? ?_)
    rw [head?_offlineIndex]
    decide

def bobStatus : SessionStatus :=
  { sid := text "5a", jid := text "bob@x", status := .login, nodeid := text "node01",
    channel := text "node01:4281", ct := 1473755000 }

def bobOnline : Saradb.Store :=
  Redis.exec (fun _ => none) (.set (text "session_bob@x") (PlainJson.codec.marshalStatus bobStatus))

theorem bob_protected : text "session_bob@x" ∈ protectedKeys {text "node01"} carol :=
  .inl (.inl (.inl ⟨parsedJID (text "bob@x") (by decide), by decide⟩))

theorem storing_greeting_keeps_bob :
    text "session_bob@x" ∈ protectedKeys {text "node01"} carol ∧
      execDirect bobOnline (offlineWrites PlainJson.codec carol greeting) (text "session_bob@x") =
        bobOnline (text "session_bob@x") := by
  have hNode : carol.toOfflineKey ∉ ({text "node01"} : Set Bytes) := by
    intro h
    exact absurd (Set.mem_singleton_iff.mp h) (by decide)
  exact ⟨bob_protected, (((storing_keeps_protected_iff PlainJson.codec {text "node01"} greeting carol
    (by decide)).2.mpr ⟨greeting_unprotected, hNode⟩) bobOnline _ bob_protected).1⟩

/-- A message to one user, with an id that is the directory key of another. -/
def hijack : Packet :=
  PlainJson.received
    { id := text "session_bob@x", from_ := text "alice@x", to_ := text "carol@x", type := 1 }

theorem storing_hijack_overwrites_bob :
    text "session_bob@x" ∈ protectedKeys {text "node01"} carol ∧
      newPacket PlainJson.codec (PlainJson.writeFrame hijack.envelope) = .ok hijack ∧
      newJID hijack.envelope.to_ = .ok carol ∧
      Redis.get bobOnline (text "session_bob@x") = some (PlainJson.codec.marshalStatus bobStatus) ∧
      Redis.get (execDirect bobOnline (offlineWrites PlainJson.codec carol hijack))
        (text "session_bob@x") = some (hijack.toJson PlainJson.codec) ∧
      PlainJson.codec.marshalStatus bobStatus ≠ hijack.toJson PlainJson.codec := by
  exact ⟨bob_protected, by decide, by decide, by decide, by decide, by decide⟩

end Sara.Store
