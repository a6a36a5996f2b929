import Mathlib.Tactic.Common
import Mathlib.Data.List.Basic
import Mathlib.Logic.Function.Basic

/-! # A key-value store with strings and hashes

One flat key space. A key holds a string, possibly with a time to live, or a
hash of fields. A command is atomic: it succeeds with a new store or, on a value
of the wrong type, fails and leaves the store alone.
-/

namespace Sara.Lib.Redis

set_option autoImplicit false

section Definitions

variable {K V : Type} [DecidableEq K] [Ord K] [Std.TransOrd K]

abbrev Hash (K V : Type) [Ord K] := Std.ExtTreeMap K V compare

inductive Value (K V : Type) [Ord K] where
  | string (value : V) (ttl : Option Nat)
  | hash (fields : Hash K V)

abbrev Store (K V : Type) [Ord K] := K → Option (Value K V)

inductive Cmd (K V : Type) where
  | set (key : K) (value : V)
  | setex (key : K) (ttl : Nat) (value : V)
  | del (key : K)
  | hset (key field : K) (value : V)
  | hdel (key field : K)
deriving DecidableEq

def Cmd.key : Cmd K V → K
  | .set k _ | .setex k _ _ | .del k | .hset k _ _ | .hdel k _ => k

/-- A hash whose last field is removed is removed with it. -/
def Value.ofHash (h : Hash K V) : Option (Value K V) := if h.isEmpty then none else some (.hash h)

/-- The value a command leaves under its own key; no answer is an error reply. -/
def Cmd.apply : Cmd K V → Option (Value K V) → Option (Option (Value K V))
  | .set _ v, _ => some (some (.string v none))
  | .setex _ ttl v, _ => if ttl = 0 then none else some (some (.string v (some ttl)))
  | .del _, _ => some none
  | .hset _ f v, none => some (some (.hash ((∅ : Hash K V).insert f v)))
  | .hset _ f v, some (.hash h) => some (some (.hash (h.insert f v)))
  | .hset _ _ _, some (.string _ _) => none
  | .hdel _ _, none => some none
  | .hdel _ f, some (.hash h) => some (Value.ofHash (h.erase f))
  | .hdel _ _, some (.string _ _) => none

def exec? (st : Store K V) (c : Cmd K V) : Option (Store K V) :=
  (c.apply (st c.key)).map (Function.update st c.key)

def exec (st : Store K V) (c : Cmd K V) : Store K V := (exec? st c).getD st

def execAll (st : Store K V) (cs : List (Cmd K V)) : Store K V := cs.foldl exec st

/-- A missing key and a hash both make `GET` answer with an error. -/
def get (st : Store K V) (k : K) : Option V :=
  match st k with
  | some (.string v _) => some v
  | _ => none

/-- The fields of a value, with no answer for a string. -/
def Value.fields : Option (Value K V) → Option (Hash K V)
  | none => some ∅
  | some (.hash h) => some h
  | some (.string _ _) => none

def hkeys (st : Store K V) (k : K) : Option (List K) := (Value.fields (st k)).map (·.keys)

def hvals (st : Store K V) (k : K) : Option (List V) :=
  (Value.fields (st k)).map fun h => h.toList.map Prod.snd

def hlen (st : Store K V) (k : K) : Option Nat := (Value.fields (st k)).map (·.size)

/-- A string that outlives its time is gone; the fields of a hash have none. -/
def Value.after (t : Nat) : Option (Value K V) → Option (Value K V)
  | some (.string v (some ttl)) => if ttl ≤ t then none else some (.string v (some (ttl - t)))
  | v => v

/-- The store after `t` seconds. -/
def tick (t : Nat) (st : Store K V) : Store K V := fun k => Value.after t (st k)

def hget (st : Store K V) (k f : K) : Option V := (Value.fields (st k)).bind (·[f]?)

/-- What a command does to the value under its key, errors included. -/
def Cmd.act (c : Cmd K V) (v : Option (Value K V)) : Option (Value K V) := (c.apply v).getD v

/-- The field of a hash command. -/
def Cmd.field? : Cmd K V → Option K
  | .hset _ f _ | .hdel _ f => some f
  | .set _ _ | .setex _ _ _ | .del _ => none

/-- What a hash command does to the fields. -/
def Cmd.actHash : Cmd K V → Hash K V → Hash K V
  | .hset _ f v, h => h.insert f v
  | .hdel _ f, h => h.erase f
  | .set _ _, h | .setex _ _ _, h | .del _, h => h

/-- Two commands that are the same, touch different keys, or touch different
fields of one hash. -/
def Cmd.Indep (c d : Cmd K V) : Prop :=
  c = d ∨ c.key ≠ d.key ∨ (c.field?.isSome ∧ d.field?.isSome ∧ c.field? ≠ d.field?)

instance [DecidableEq V] (c d : Cmd K V) : Decidable (c.Indep d) :=
  inferInstanceAs (Decidable (_ ∨ _))

end Definitions

theorem Cmd.Indep.symm {K V : Type} {c d : Cmd K V} (h : c.Indep d) : d.Indep c := by
  obtain rfl | hk | ⟨hc, hd, hne⟩ := h
  · exact .inl rfl
  · exact .inr (.inl (Ne.symm hk))
  · exact .inr (.inr ⟨hd, hc, Ne.symm hne⟩)

section Exec

variable {K V : Type} [DecidableEq K] [Ord K] [Std.TransOrd K]

theorem exec_eq_update (st : Store K V) (c : Cmd K V) :
    exec st c = Function.update st c.key (c.act (st c.key)) := by
  unfold exec exec? Cmd.act
  cases c.apply (st c.key) with
  | none => simp
  | some v => rfl

theorem exec_key (st : Store K V) (c : Cmd K V) : exec st c c.key = c.act (st c.key) := by
  rw [exec_eq_update, Function.update_self]

theorem exec_of_ne (st : Store K V) (c : Cmd K V) {k : K} (h : k ≠ c.key) : exec st c k = st k := by
  rw [exec_eq_update, Function.update_of_ne h]

theorem get_exec_of_ne {st : Store K V} {c : Cmd K V} {k : K} (h : k ≠ c.key) :
    get (exec st c) k = get st k := by
  simp only [get, exec_of_ne st c h]

theorem hget_exec_of_ne {st : Store K V} {c : Cmd K V} {k f : K} (h : k ≠ c.key) :
    hget (exec st c) k f = hget st k f := by
  simp only [hget, exec_of_ne st c h]

theorem execAll_of_forall_ne (st : Store K V) (cs : List (Cmd K V)) {k : K}
    (h : ∀ c ∈ cs, k ≠ c.key) : execAll st cs k = st k := by
  induction cs generalizing st with
  | nil => rfl
  | cons c cs ih =>
    have hc := h c List.mem_cons_self
    rw [execAll, List.foldl_cons]
    exact (ih (exec st c) fun d hd => h d (List.mem_cons_of_mem c hd)).trans (exec_of_ne st c hc)

end Exec

section Fields

variable {K V : Type} [Ord K] [Std.TransOrd K]

@[simp] theorem fields_ofHash (h : Hash K V) : Value.fields (Value.ofHash h) = some h := by
  unfold Value.ofHash
  split
  · rename_i hEmpty
    rw [Std.ExtTreeMap.isEmpty_iff.mp hEmpty]
    rfl
  · rfl

/-- A hash command works on the fields, whatever way an empty hash is kept. -/
theorem act_of_fields {c : Cmd K V} (hc : c.field?.isSome) {v : Option (Value K V)} {h : Hash K V}
    (hv : Value.fields v = some h) : c.act v = Value.ofHash (c.actHash h) := by
  cases c with
  | set | setex | del => cases hc
  | hset k f x =>
    have hNe : ∀ m : Hash K V, (m.insert f x).isEmpty = false := by simp
    match v, hv with
    | none, hv =>
      cases hv
      simp [Cmd.act, Cmd.apply, Cmd.actHash, Value.ofHash, hNe]
    | some (.hash m), hv =>
      cases hv
      simp [Cmd.act, Cmd.apply, Cmd.actHash, Value.ofHash, hNe]
  | hdel k f =>
    match v, hv with
    | none, hv =>
      cases hv
      simp [Cmd.act, Cmd.apply, Cmd.actHash, Value.ofHash]
    | some (.hash m), hv =>
      cases hv
      simp [Cmd.act, Cmd.apply, Cmd.actHash]

theorem act_of_string {c : Cmd K V} (hc : c.field?.isSome) {v : Option (Value K V)}
    (hv : Value.fields v = none) : c.act v = v := by
  match v, hv with
  | some (.string x ttl), _ =>
    cases c with
    | set | setex | del => cases hc
    | hset | hdel => rfl

theorem fields_act {c : Cmd K V} (hc : c.field?.isSome) (v : Option (Value K V)) :
    Value.fields (c.act v) = (Value.fields v).map c.actHash := by
  cases hv : Value.fields v with
  | none => rw [act_of_string hc hv, hv]; rfl
  | some h => rw [act_of_fields hc hv, fields_ofHash]; rfl

omit [Std.TransOrd K] in
theorem after_of_fields {t : Nat} {v : Option (Value K V)} (hv : (Value.fields v).isSome) :
    Value.after t v = v := by
  match v with
  | none | some (.hash h) => rfl
  | some (.string x ttl) => cases hv

/-- A hash command answers with an error exactly on a string. -/
theorem apply_isSome {c : Cmd K V} (hc : c.field?.isSome) (v : Option (Value K V)) :
    (c.apply v).isSome = (Value.fields v).isSome := by
  cases c with
  | set | setex | del => cases hc
  | hset k f x =>
    match v with
    | none | some (.hash m) | some (.string y ttl) => rfl
  | hdel k f =>
    match v with
    | none | some (.hash m) | some (.string y ttl) => rfl

end Fields

section Success

variable {K V : Type} [DecidableEq K] [Ord K] [Std.TransOrd K]

/-- An independent command succeeds or fails alike before and after another. -/
theorem exec?_isSome_exec {c d : Cmd K V} (h : c.Indep d) (st : Store K V) :
    (exec? (exec st d) c).isSome = (exec? st c).isSome := by
  simp only [exec?, Option.isSome_map]
  by_cases hk : c.key = d.key
  · obtain rfl | hne | ⟨hc, hd, _⟩ := h
    · rw [exec_key]
      cases hc : c.field? with
      | some f => rw [apply_isSome (by rw [hc]; rfl), apply_isSome (by rw [hc]; rfl),
          fields_act (by rw [hc]; rfl), Option.isSome_map]
      | none =>
        cases c with
        | set | del => rfl
        | setex => simp only [Cmd.apply]
        | hset | hdel => cases hc
    · exact absurd hk hne
    · rw [hk, exec_key, apply_isSome hc, apply_isSome hc, fields_act hd, Option.isSome_map]
  · rw [exec_of_ne st d hk]

theorem exec?_isSome_execAll (st : Store K V) (c : Cmd K V) (cs : List (Cmd K V))
    (h : ∀ d ∈ cs, d.Indep c) : (exec? (execAll st cs) c).isSome = (exec? st c).isSome := by
  induction cs generalizing st with
  | nil => rfl
  | cons d cs ih =>
    have hd := h d List.mem_cons_self
    rw [execAll, List.foldl_cons, ← exec?_isSome_exec hd.symm st]
    exact ih (exec st d) fun e he => h e (List.mem_cons_of_mem d he)

end Success

section Lawful

variable {K V : Type} [DecidableEq K] [Ord K] [Std.TransOrd K] [Std.LawfulEqOrd K]

omit [DecidableEq K] in
theorem exists_hget_of_mem_hvals {st : Store K V} {k : K} {v : V} (h : v ∈ (hvals st k).getD []) :
    ∃ f, hget st k f = some v := by
  unfold hvals at h
  cases hk : Value.fields (st k) with
  | none =>
    rw [hk] at h
    cases h
  | some m =>
    rw [hk] at h
    obtain ⟨⟨f, v'⟩, hMem, rfl⟩ := List.mem_map.mp h
    refine ⟨f, ?_⟩
    rw [hget, hk]
    exact Std.ExtTreeMap.mem_toList_iff_getElem?_eq_some.mp hMem

omit [DecidableEq K] in
theorem mem_of_hget {st : Store K V} {k f : K} {v : V} (h : hget st k f = some v) :
    f ∈ (hkeys st k).getD [] ∧ v ∈ (hvals st k).getD [] := by
  obtain ⟨m, hm, hf⟩ := Option.bind_eq_some_iff.mp h
  have hMem := Std.ExtTreeMap.mem_toList_iff_getElem?_eq_some.mpr hf
  rw [hkeys, hvals, hm]
  refine ⟨Std.ExtTreeMap.mem_keys.mpr ?_, List.mem_map_of_mem hMem⟩
  exact Std.ExtTreeMap.mem_iff_isSome_getElem?.mpr (by rw [hf]; rfl)

theorem hget_exec_hset (st : Store K V) (k f : K) (v : V) (hHash : (Value.fields (st k)).isSome)
    (g : K) : hget (exec st (.hset k f v)) k g = if f = g then some v else hget st k g := by
  have hKey := exec_key st (.hset k f v)
  obtain ⟨h, hk⟩ := Option.isSome_iff_exists.mp hHash
  rw [hget, hget, show exec st (.hset k f v) k = _ from hKey, fields_act rfl]
  simp [Cmd.key, Cmd.actHash, hk, Std.ExtTreeMap.getElem?_insert]

omit [DecidableEq K] [Std.LawfulEqOrd K] in
/-- A key holds a string or a hash. -/
theorem hget_eq_none_of_get {st : Store K V} {k : K} {v : V} (h : get st k = some v) (f : K) :
    hget st k f = none := by
  unfold get at h
  split at h
  · rename_i hk
    rw [hget, hk]
    rfl
  · cases h

/-- A field that is set to what it holds. -/
theorem exec_hset_of_hget {st : Store K V} {k f : K} {v : V} (h : hget st k f = some v) :
    exec st (.hset k f v) = st := by
  obtain ⟨m, hm, hf⟩ := Option.bind_eq_some_iff.mp h
  have hInsert : m.insert f v = m := by
    apply Std.ExtTreeMap.ext_getElem?
    intro g
    rw [Std.ExtTreeMap.getElem?_insert]
    split
    · rename_i hSame
      rw [← Std.LawfulEqOrd.eq_of_compare hSame, hf]
    · rfl
  have hKey : st k = some (.hash m) := by
    cases hk : st k with
    | none =>
      rw [hk] at hm
      cases hm
      simp at hf
    | some value =>
      cases value with
      | string w ttl =>
        rw [hk] at hm
        cases hm
      | hash h' =>
        rw [hk] at hm
        cases hm
        rfl
  rw [exec_eq_update]
  simp only [Cmd.key, Cmd.act, Cmd.apply, hKey, hInsert, Option.getD_some]
  rw [← hKey, Function.update_eq_self]

theorem hget_exec_hdel (st : Store K V) (k f g : K) :
    hget (exec st (.hdel k f)) k g = if f = g then none else hget st k g := by
  have hKey := exec_key st (.hdel k f)
  rw [hget, hget, show exec st (.hdel k f) k = _ from hKey, fields_act rfl]
  cases hk : Value.fields (st k) <;>
    simp [Cmd.key, Cmd.actHash, hk, Std.ExtTreeMap.getElem?_erase]

/-- A field of a hash is there before the command, or the command sets it. -/
theorem hget_exec_cases {st : Store K V} {c : Cmd K V} {k f : K} {v : V}
    (h : hget (exec st c) k f = some v) : hget st k f = some v ∨ c = .hset k f v := by
  by_cases hKey : k = c.key
  · have hAct : (Value.fields (c.act (st k))).bind (·[f]?) = some v := by
      rw [hKey, ← exec_key, ← hKey]
      exact h
    cases c with
    | hset key field value =>
      have hSame : k = key := hKey
      subst hSame
      rw [fields_act rfl, Option.bind_map] at hAct
      obtain ⟨m, hm, hField⟩ := Option.bind_eq_some_iff.mp hAct
      simp only [Function.comp_apply, Cmd.actHash, Std.ExtTreeMap.getElem?_insert] at hField
      split at hField
      · rename_i hEq
        cases hField
        exact .inr (by rw [Std.LawfulEqOrd.eq_of_compare hEq])
      · exact .inl (Option.bind_eq_some_iff.mpr ⟨m, hm, hField⟩)
    | hdel key field =>
      have hSame : k = key := hKey
      subst hSame
      rw [hget_exec_hdel] at h
      split at h
      · cases h
      · exact .inl h
    | set key value | del key =>
      simp [Cmd.act, Cmd.apply, Value.fields] at hAct
    | setex key ttl value =>
      simp only [Cmd.act, Cmd.apply] at hAct
      split at hAct
      · exact .inl hAct
      · cases hAct
  · rw [hget_exec_of_ne hKey] at h
    exact .inl h

omit [Std.LawfulEqOrd K] in
/-- `HDEL` makes no string and removes none. -/
theorem get_exec_hdel (st : Store K V) (k f g : K) : get (exec st (.hdel k f)) g = get st g := by
  rcases eq_or_ne g k with rfl | hne
  · have hKey := exec_key st (.hdel g f)
    rw [get, get, show exec st (.hdel g f) g = _ from hKey]
    cases hg : st g with
    | none => simp [Cmd.key, Cmd.act, Cmd.apply, hg]
    | some v =>
      cases v with
      | string v ttl => simp [Cmd.key, Cmd.act, Cmd.apply, hg]
      | hash h =>
        simp only [Cmd.key, Cmd.act, Cmd.apply, hg, Option.getD_some, Value.ofHash]
        cases (h.erase f).isEmpty with
        | true => rfl
        | false => rfl
  · exact get_exec_of_ne hne

theorem actHash_comm {c d : Cmd K V} (hc : c.field?.isSome) (hd : d.field?.isSome)
    (hne : c.field? ≠ d.field?) (h : Hash K V) :
    c.actHash (d.actHash h) = d.actHash (c.actHash h) := by
  obtain ⟨f, hf⟩ := Option.isSome_iff_exists.mp hc
  obtain ⟨g, hg⟩ := Option.isSome_iff_exists.mp hd
  have hfg : f ≠ g := by
    rintro rfl
    exact hne (hf.trans hg.symm)
  apply Std.ExtTreeMap.ext_getElem?
  intro a
  cases c with
  | set | setex | del => cases hf
  | hset k f' x | hdel k f' =>
    cases hf
    cases d with
    | set | setex | del => cases hg
    | hset k g' y | hdel k g' =>
      cases hg
      simp only [Cmd.actHash, Std.ExtTreeMap.getElem?_insert, Std.ExtTreeMap.getElem?_erase,
        Std.LawfulEqOrd.compare_eq_iff_eq]
      by_cases ha : f = a
      · have hb : g ≠ a := fun hb => hfg (ha.trans hb.symm)
        simp [ha, hb]
      · simp [ha]

theorem act_comm {c d : Cmd K V} (hc : c.field?.isSome) (hd : d.field?.isSome)
    (hne : c.field? ≠ d.field?) (v : Option (Value K V)) :
    c.act (d.act v) = d.act (c.act v) := by
  cases hv : Value.fields v with
  | none =>
    rw [act_of_string hd hv, act_of_string hc hv, act_of_string hd hv]
  | some h =>
    rw [act_of_fields hc ((fields_act hd v).trans (by rw [hv]; rfl)),
      act_of_fields hd ((fields_act hc v).trans (by rw [hv]; rfl)), actHash_comm hc hd hne]

theorem exec_comm {c d : Cmd K V} (h : c.Indep d) (st : Store K V) :
    exec (exec st c) d = exec (exec st d) c := by
  simp only [exec_eq_update]
  by_cases hk : c.key = d.key
  · obtain rfl | hne | ⟨hc, hd, hne⟩ := h
    · rfl
    · exact absurd hk hne
    · rw [hk]
      simp [act_comm hc hd hne]
  · rw [Function.update_of_ne hk, Function.update_of_ne (Ne.symm hk), Function.update_comm hk]

theorem execAll_exec_comm (st : Store K V) (c : Cmd K V) (cs : List (Cmd K V))
    (h : ∀ d ∈ cs, d.Indep c) : execAll (exec st c) cs = exec (execAll st cs) c := by
  induction cs generalizing st with
  | nil => rfl
  | cons d cs ih =>
    have hd := h d List.mem_cons_self
    simp only [execAll, List.foldl_cons] at ih ⊢
    rw [← exec_comm hd, ih (exec st d) fun e he => h e (List.mem_cons_of_mem d he)]

theorem execAll_perm {cs ds : List (Cmd K V)} (h : cs.Perm ds) (hPair : cs.Pairwise Cmd.Indep)
    (st : Store K V) : execAll st cs = execAll st ds := by
  induction h generalizing st with
  | nil => rfl
  | cons c _ ih => exact ih hPair.of_cons (exec st c)
  | swap c d cs =>
    have hdc : d.Indep c := List.rel_of_pairwise_cons hPair List.mem_cons_self
    simp only [execAll, List.foldl_cons]
    rw [exec_comm hdc]
  | trans h₁ _ ih₁ ih₂ =>
    rw [ih₁ hPair, ih₂ (hPair.perm h₁ Cmd.Indep.symm)]

end Lawful

end Sara.Lib.Redis
