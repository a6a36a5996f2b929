import Sara.Saradb.Database
import Mathlib.Data.List.Induction
import Mathlib.Data.List.Perm.Subperm

/-! # Reads of an index over time

A value put under an index is kept twice: under its own key, with a time to live,
and as a field of the index, which has none. What a read of the index should
return are the values whose key is still there. The field stays behind when the
key runs out, or is deleted by way of another index.
-/

namespace Sara.Saradb

open Lib

set_option autoImplicit false

inductive Op where
  | put (idx key value : Bytes) (ex : Nat) (pos : 0 < ex)
  | del (idx key : Bytes)
  | advance (seconds : Nat)

namespace Op

def key? : Op → Option Bytes
  | .put _ key _ _ _ | .del _ key => some key
  | .advance _ => none

def exec (st : Store) : Op → Store
  | .put idx key value ex _ => execDirect st (putExWithIdx idx key value ex)
  | .del idx key => execDirect st (deleteByIdxKey idx key)
  | .advance t => Redis.tick t st

def run (ops : List Op) : Store := ops.foldl exec fun _ => none

end Op

/-! ## What the index should hold -/

/-- The values put under each index whose key has neither been deleted nor run out
since, and the time left for each key. -/
structure Live where
  value : Bytes → Bytes → Option Bytes
  left : Bytes → Nat

namespace Live

def start : Live := { value := fun _ _ => none, left := fun _ => 0 }

def step (l : Live) : Op → Live
  | .put idx key value ex _ =>
    { value := fun i k => if i = idx ∧ k = key then some value else l.value i k
      left := Function.update l.left key ex }
  | .del _ key => { l with value := fun i k => if k = key then none else l.value i k }
  | .advance t =>
    { value := fun i k => if l.left k ≤ t then none else l.value i k
      left := fun k => l.left k - t }

def run (ops : List Op) : Live := ops.foldl step start

end Live

/-- What the calls leave in an index: the time does not count, and neither does
another index. -/
def Entries.step (idx : Bytes) (e : Bytes → Option Bytes) : Op → Bytes → Option Bytes
  | .put i key value _ _ => if i = idx then Function.update e key (some value) else e
  | .del i key => if i = idx then Function.update e key none else e
  | .advance _ => e

def entries (idx : Bytes) (ops : List Op) : Bytes → Option Bytes :=
  ops.foldl (Entries.step idx) fun _ => none

def countByIdx (st : Store) (idx : Bytes) : Option Nat := Redis.hlen st (indexKey idx)

/-- A read of the index returns exactly the live values, and the count is right. -/
def ReadsLive (st : Store) (l : Live) (idx : Bytes) : Prop :=
  ∃ keys vals : List Bytes, keys.Nodup ∧ (∀ k, k ∈ keys ↔ (l.value idx k).isSome) ∧
    getByIdx st idx = some vals ∧ vals.Perm (keys.filterMap (l.value idx)) ∧
    countByIdx st idx = some keys.length

/-- What is in the index is live: no key was deleted by way of another index or ran
out since it was put under this one. -/
def Fresh (idx : Bytes) (ops : List Op) : Prop :=
  ∀ k, (entries idx ops k).isSome → ((Live.run ops).value idx k).isSome

/-! ## The index along a run -/

section Index

variable {idx : Bytes} {st : Store}

/-- The index is a hash with just these fields. -/
structure Holds (st : Store) (idx : Bytes) (e : Bytes → Option Bytes) : Prop where
  hash : IndexHash st idx
  fields : ∀ k, Redis.hget st (indexKey idx) k = e k

theorem Holds.congr {st' : Store} {e : Bytes → Option Bytes} (h : Holds st idx e)
    (hEq : st' (indexKey idx) = st (indexKey idx)) : Holds st' idx e := by
  refine ⟨?_, fun k => ?_⟩
  · unfold IndexHash
    rw [hEq]
    exact h.hash
  · rw [← h.fields k, Redis.hget, Redis.hget, hEq]

theorem storeKey_key (key value : Bytes) (ex : Int) : (storeKey key value ex).key = key := by
  unfold storeKey
  split <;> rfl

theorem Holds.put {e : Bytes → Option Bytes} (h : Holds st idx e) {key : Bytes}
    (hKey : key ≠ indexKey idx) (value : Bytes) (ex : Int) :
    Holds (execDirect st (putExWithIdx idx key value ex)) idx (Function.update e key (some value)) := by
  let c : Cmd := .hset (indexKey idx) key value
  have hSet : Holds (Redis.exec st c) idx (Function.update e key (some value)) := by
    refine ⟨h.hash.exec c fun _ => rfl, fun k => ?_⟩
    rw [Redis.hget_exec_hset st _ key value h.hash, h.fields]
    by_cases hk : key = k
    · rw [if_pos hk, hk, Function.update_self]
    · rw [if_neg hk, Function.update_of_ne (Ne.symm hk)]
  refine hSet.congr ?_
  have hOther : indexKey idx ≠ (storeKey key value ex).key := by
    rw [storeKey_key]
    exact Ne.symm hKey
  unfold putExWithIdx
  split
  · have hSome : (Redis.exec? st c).isSome = true := by
      rw [Redis.exec?, Option.isSome_map, Redis.apply_isSome rfl]
      exact h.hash
    obtain ⟨st', hst'⟩ := Option.isSome_iff_exists.mp hSome
    have hExec : Redis.exec st c = st' := by rw [Redis.exec, hst', Option.getD_some]
    have hDirect : execDirect st [.direct c, .direct (storeKey key value ex)] =
        execDirect st' [.direct (storeKey key value ex)] := by
      rw [execDirect, hst']
    rw [hDirect, hExec]
    refine execDirect_of_forall_ne st' _ ?_
    intro d hd
    cases List.mem_singleton.mp hd
    exact hOther
  · exact Redis.exec_of_ne _ _ hOther

theorem Holds.del {e : Bytes → Option Bytes} (h : Holds st idx e) {key : Bytes}
    (hKey : key ≠ indexKey idx) :
    Holds (execDirect st (deleteByIdxKey idx key)) idx (Function.update e key none) := by
  let c : Cmd := .hdel (indexKey idx) key
  have hDel : Holds (Redis.exec st c) idx (Function.update e key none) := by
    refine ⟨h.hash.exec c fun _ => rfl, fun k => ?_⟩
    rw [Redis.hget_exec_hdel, h.fields]
    by_cases hk : key = k
    · rw [if_pos hk, hk, Function.update_self]
    · rw [if_neg hk, Function.update_of_ne (Ne.symm hk)]
  exact hDel.congr (Redis.exec_of_ne (Redis.exec st c) (.del key) (Ne.symm hKey))

theorem Holds.step {e : Bytes → Option Bytes} (h : Holds st idx e) {op : Op}
    (hFree : op.key? ≠ some (indexKey idx)) : Holds (op.exec st) idx (Entries.step idx e op) := by
  cases op with
  | put i key value ex pos =>
    have hKey : key ≠ indexKey idx := fun hEq => hFree (congrArg some hEq)
    simp only [Op.exec, Entries.step]
    split_ifs with hi
    · rw [hi]
      exact h.put hKey value ex
    · refine h.congr (execDirect_of_forall_ne st _ ?_)
      intro d hd
      have hIndex : indexKey idx ≠ indexKey i := fun hEq => hi (indexKey_inj.mp hEq).symm
      have hStore : indexKey idx ≠ (storeKey key value ex).key := by
        rw [storeKey_key]
        exact Ne.symm hKey
      unfold putExWithIdx at hd
      split at hd <;> simp only [List.mem_cons, List.not_mem_nil, or_false] at hd <;>
        rcases hd with rfl | rfl <;> assumption
  | del i key =>
    have hKey : key ≠ indexKey idx := fun hEq => hFree (congrArg some hEq)
    simp only [Op.exec, Entries.step]
    split_ifs with hi
    · rw [hi]
      exact h.del hKey
    · refine h.congr (execDirect_of_forall_ne st _ ?_)
      intro d hd
      have hIndex : indexKey idx ≠ indexKey i := fun hEq => hi (indexKey_inj.mp hEq).symm
      simp only [deleteByIdxKey, delete, List.mem_cons, List.not_mem_nil, or_false] at hd
      rcases hd with rfl | rfl
      · exact hIndex
      · exact Ne.symm hKey
  | advance t => exact h.congr (Redis.after_of_fields h.hash)

theorem holds_run {ops : List Op} (hFree : ∀ op ∈ ops, op.key? ≠ some (indexKey idx)) :
    Holds (Op.run ops) idx (entries idx ops) := by
  induction ops using List.reverseRecOn with
  | nil => exact ⟨rfl, fun k => rfl⟩
  | append_singleton ops op ih =>
    have hLast := ih fun op' hop' => hFree op' (List.mem_append_left _ hop')
    have hStep := hLast.step (hFree op (by simp))
    simpa only [Op.run, entries, List.foldl_append, List.foldl_cons, List.foldl_nil] using hStep

end Index

/-! ## The index against the live values -/

section Reading

variable {idx : Bytes}

/-- A live value is the one in the index. -/
theorem entries_of_live (ops : List Op) {k v : Bytes} (h : (Live.run ops).value idx k = some v) :
    entries idx ops k = some v := by
  induction ops using List.reverseRecOn generalizing v with
  | nil => cases h
  | append_singleton ops op ih =>
    simp only [Live.run, entries, List.foldl_append, List.foldl_cons, List.foldl_nil] at h ih ⊢
    generalize ops.foldl Live.step Live.start = l at h ih
    generalize ops.foldl (Entries.step idx) (fun _ => none) = e at ih ⊢
    cases op with
    | put i key value ex pos =>
      simp only [Live.step, Entries.step] at h ⊢
      by_cases hi : i = idx
      · by_cases hk : k = key
        · rw [if_pos ⟨hi.symm, hk⟩] at h
          rw [if_pos hi, hk, Function.update_self, h]
        · rw [if_neg fun hBoth => hk hBoth.2] at h
          rw [if_pos hi, Function.update_of_ne hk, ih h]
      · rw [if_neg fun hBoth => hi hBoth.1.symm] at h
        rw [if_neg hi, ih h]
    | del i key =>
      simp only [Live.step, Entries.step] at h ⊢
      split_ifs at h with hk
      split_ifs with hi
      · rw [Function.update_of_ne hk, ih h]
      · exact ih h
    | advance t =>
      simp only [Live.step, Entries.step] at h ⊢
      split_ifs at h
      exact ih h

/-- For an index whose own key is not used as a key, reads are right exactly while
the index is fresh. -/
theorem reads_live_iff {ops : List Op} (hFree : ∀ op ∈ ops, op.key? ≠ some (indexKey idx)) :
    ReadsLive (Op.run ops) (Live.run ops) idx ↔ Fresh idx ops := by
  have hHolds := holds_run hFree
  obtain ⟨h, hHash⟩ := Option.isSome_iff_exists.mp hHolds.hash
  have hFields (k : Bytes) : h[k]? = entries idx ops k := by
    rw [← hHolds.fields k, Redis.hget, hHash, Option.bind_some]
  have hKeys (k : Bytes) : k ∈ h.keys ↔ (entries idx ops k).isSome := by
    rw [Std.ExtTreeMap.mem_keys, Std.ExtTreeMap.mem_iff_isSome_getElem?, hFields]
  have hLive (k : Bytes) (hk : ((Live.run ops).value idx k).isSome) : k ∈ h.keys := by
    obtain ⟨v, hv⟩ := Option.isSome_iff_exists.mp hk
    rw [hKeys, entries_of_live ops hv]
    rfl
  constructor
  · -- as many keys are live as are in the index, so none is left over
    rintro ⟨keys, vals, hNodup, hMem, -, -, hCount⟩ k hk
    have hSize : h.keys.length = keys.length := by
      rw [countByIdx, Redis.hlen, hHash, Option.map_some, Option.some.injEq] at hCount
      rw [Std.ExtTreeMap.length_keys, hCount]
    have hSubset : keys ⊆ h.keys := fun k' hk' => hLive k' ((hMem k').mp hk')
    have hPerm := (List.subperm_of_subset hNodup hSubset).perm_of_length_le (Nat.le_of_eq hSize)
    exact (hMem k).mp (hPerm.mem_iff.mpr ((hKeys k).mpr hk))
  · intro hFresh
    refine ⟨h.keys, h.toList.map Prod.snd, Std.ExtTreeMap.nodup_keys,
      fun k => ⟨fun hk => hFresh k ((hKeys k).mp hk), hLive k⟩, ?_, ?_, ?_⟩
    · rw [getByIdx, Redis.hvals, hHash, Option.map_some]
    · have hValue : ∀ p ∈ h.toList, (Live.run ops).value idx p.1 = some p.2 := by
        intro p hp
        have hEntry := Std.ExtTreeMap.mem_toList_iff_getElem?_eq_some.mp hp
        rw [hFields] at hEntry
        obtain ⟨v, hv⟩ := Option.isSome_iff_exists.mp (hFresh p.1 (by rw [hEntry]; rfl))
        rw [hv, ← entries_of_live ops hv, hEntry]
      have hVals : h.keys.filterMap ((Live.run ops).value idx) = h.toList.map Prod.snd := by
        rw [← Std.ExtTreeMap.map_fst_toList_eq_keys, List.filterMap_map]
        exact (List.filterMap_congr hValue).trans (congrFun List.filterMap_eq_map _)
      rw [hVals]
    · rw [countByIdx, Redis.hlen, hHash, Option.map_some, Std.ExtTreeMap.length_keys]

/-- A value for two seconds, and a wait. -/
def waited (seconds : Nat) : List Op :=
  [.put (text "idx") (text "key1") (text "val1") 2 (by decide), .advance seconds]

/-- The key is gone after two seconds, and its value is still read from the index. -/
theorem expired_value_read :
    Redis.get (Op.run (waited 3)) (text "key1") = none ∧
      (Live.run (waited 3)).value (text "idx") (text "key1") = none ∧
      getByIdx (Op.run (waited 3)) (text "idx") = some [text "val1"] ∧
      countByIdx (Op.run (waited 3)) (text "idx") = some 1 := by
  decide +kernel

theorem reads_live_in_time : ReadsLive (Op.run (waited 1)) (Live.run (waited 1)) (text "idx") := by
  refine (reads_live_iff (by decide +kernel)).mpr ?_
  intro k hk
  have hPut : entries (text "idx") (waited 1) = Function.update (fun _ => none) (text "key1")
      (some (text "val1")) := rfl
  rw [hPut] at hk
  rcases eq_or_ne k (text "key1") with rfl | hne
  · decide +kernel
  · rw [Function.update_of_ne hne] at hk
    cases hk

end Reading

end Sara.Saradb
