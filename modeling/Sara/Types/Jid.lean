import Sara.Types.Defines
import Sara.Lib.Framing

/-! # User addresses

An address is `user@domain/resource`. It is built by `newJID` only, so its parts
never hold the separators that the parser split at; the fields say so.
-/

namespace Sara

open Lib.Framing

set_option autoImplicit false

def atSign : UInt8 := 64
def slash : UInt8 := 47
def comma : UInt8 := 44

@[ext]
structure JID where
  user : Bytes
  domain : Bytes
  resource : Bytes
  user_at : atSign ∉ user
  domain_at : atSign ∉ domain
  domain_slash : slash ∉ domain
  resource_at : atSign ∉ resource
  resource_slash : slash ∉ resource
deriving DecidableEq

/-- `arr2[1]` when the host part splits in two, else nothing. -/
def resourceOf (arr2 : List Bytes) : Bytes :=
  match arr2 with
  | [_, resource] => resource
  | _ => []

theorem resourceOf_mem {arr2 : List Bytes} {b : UInt8} (h : b ∈ resourceOf arr2) :
    ∃ piece ∈ arr2, b ∈ piece := by
  unfold resourceOf at h
  split at h
  · exact ⟨_, by simp, h⟩
  · cases h

/-- The error carries the rejected text. -/
def newJID (str : Bytes) : Except Bytes JID :=
  if h : 1 < (str.splitOn atSign).length then
    have hUser : (str.splitOn atSign)[0] ∈ str.splitOn atSign := List.getElem_mem _
    have hHost : (str.splitOn atSign)[1] ∈ str.splitOn atSign := List.getElem_mem h
    let arr2 := (str.splitOn atSign)[1].splitOn slash
    have hDomain : arr2.head (List.splitOn_ne_nil slash _) ∈ arr2 := List.head_mem _
    .ok {
      user := (str.splitOn atSign)[0]
      domain := arr2.head (List.splitOn_ne_nil slash _)
      resource := resourceOf arr2
      user_at := fun hb => (mem_of_mem_splitOn hUser hb).1 rfl
      domain_at := fun hb =>
        (mem_of_mem_splitOn hHost (mem_of_mem_splitOn hDomain hb).2).1 rfl
      domain_slash := fun hb => (mem_of_mem_splitOn hDomain hb).1 rfl
      resource_at := fun hb =>
        let ⟨_, hPiece, hb⟩ := resourceOf_mem hb
        (mem_of_mem_splitOn hHost (mem_of_mem_splitOn hPiece hb).2).1 rfl
      resource_slash := fun hb =>
        let ⟨_, hPiece, hb⟩ := resourceOf_mem hb
        (mem_of_mem_splitOn hPiece hb).1 rfl }
  else .error (text "fail format of jid :" ++ str)

namespace JID

def stringWithoutResource (j : JID) : Bytes := j.user ++ [atSign] ++ j.domain

def string (j : JID) : Bytes :=
  if j.resource ≠ [] then j.user ++ [atSign] ++ (j.domain ++ [slash] ++ j.resource)
  else j.user ++ [atSign] ++ j.domain

def withoutResource (j : JID) : JID :=
  { j with resource := [], resource_at := List.not_mem_nil, resource_slash := List.not_mem_nil }

def toSessionid (j : JID) : Bytes := sessionPerfix ++ j.stringWithoutResource

def toOfflineKey (j : JID) : Bytes := offlinePerfix ++ j.stringWithoutResource

end JID

/-- The address of a text that is one. -/
def parsedJID (str : Bytes) (h : (newJID str).toOption.isSome = true) : JID :=
  (newJID str).toOption.get h

def newJIDByUidDomain (uid domain : Bytes) : Except Bytes JID := newJID (uid ++ [atSign] ++ domain)

theorem exists_newJIDByUidDomain (uid domain : Bytes) :
    ∃ j, newJIDByUidDomain uid domain = .ok j := by
  have hLength : 1 < ((uid ++ [atSign] ++ domain).splitOn atSign).length := by
    rw [List.append_assoc, List.singleton_append, List.splitOn_append_cons_self, List.length_append]
    have hUid := List.length_pos_of_ne_nil (List.splitOn_ne_nil atSign uid)
    have hDomain := List.length_pos_of_ne_nil (List.splitOn_ne_nil atSign domain)
    omega
  unfold newJIDByUidDomain newJID
  rw [dif_pos hLength]
  exact ⟨_, rfl⟩

/-- An address with a user and a host in it. -/
theorem newJID_host {user host : Bytes} (hUser : atSign ∉ user) (hHost : atSign ∉ host) :
    ∃ r, newJID (user ++ [atSign] ++ host) = .ok r ∧ r.user = user ∧
      r.domain = (host.splitOn slash).head (List.splitOn_ne_nil slash host) ∧
      r.resource = resourceOf (host.splitOn slash) := by
  have hSplit : (user ++ [atSign] ++ host).splitOn atSign = [user, host] := by
    rw [List.append_assoc, List.singleton_append, List.splitOn_append_cons_self_of_not_mem hUser,
      List.splitOn_eq_singleton hHost]
  unfold newJID
  simp only [hSplit]
  exact ⟨_, rfl, rfl, rfl, rfl⟩

theorem JID.newJID_bare (j : JID) : newJID j.stringWithoutResource = .ok j.withoutResource := by
  obtain ⟨r, hr, hUser, hDomain, hResource⟩ := newJID_host j.user_at j.domain_at
  simp only [List.splitOn_eq_singleton j.domain_slash] at hDomain hResource
  have hSame : r = j.withoutResource := JID.ext hUser hDomain hResource
  rw [stringWithoutResource, hr, hSame]

/-- What is printed is read back. -/
theorem JID.newJID_string (j : JID) : newJID j.string = .ok j := by
  unfold string
  split
  · have hAt : atSign ∉ j.domain ++ [slash] ++ j.resource := by
      have hSlash : atSign ≠ slash := by decide
      simp [j.domain_at, j.resource_at, hSlash]
    have hHost : (j.domain ++ [slash] ++ j.resource).splitOn slash = [j.domain, j.resource] := by
      rw [List.append_assoc, List.singleton_append,
        List.splitOn_append_cons_self_of_not_mem j.domain_slash,
        List.splitOn_eq_singleton j.resource_slash]
    obtain ⟨r, hr, hUser, hDomain, hResource⟩ := newJID_host j.user_at hAt
    simp only [hHost] at hDomain hResource
    have hSame : r = j := JID.ext hUser hDomain hResource
    rw [hr, hSame]
  · rename_i hNone
    have hSame : j.withoutResource = j := JID.ext rfl rfl (not_not.mp hNone).symm
    exact j.newJID_bare.trans (by rw [hSame])

/-- The printed address determines user and domain. -/
theorem JID.bare_inj {j k : JID} (h : j.stringWithoutResource = k.stringWithoutResource) :
    j.user = k.user ∧ j.domain = k.domain := by
  have hj := List.splitOn_append_cons_self_of_not_mem j.user_at j.domain
  have hk := List.splitOn_append_cons_self_of_not_mem k.user_at k.domain
  have hEq : j.user ++ atSign :: j.domain = k.user ++ atSign :: k.domain := by
    simpa [stringWithoutResource] using h
  rw [hEq, hk, List.splitOn_eq_singleton j.domain_at, List.splitOn_eq_singleton k.domain_at] at hj
  simpa [eq_comm] using hj

theorem JID.bare_eq_iff {j k : JID} :
    j.stringWithoutResource = k.stringWithoutResource ↔ j.user = k.user ∧ j.domain = k.domain := by
  constructor
  · exact bare_inj
  · rintro ⟨hUser, hDomain⟩
    rw [stringWithoutResource, stringWithoutResource, hUser, hDomain]

theorem JID.toSessionid_inj {j k : JID} :
    j.toSessionid = k.toSessionid ↔ j.stringWithoutResource = k.stringWithoutResource :=
  List.append_right_inj _

theorem JID.toOfflineKey_inj {j k : JID} :
    j.toOfflineKey = k.toOfflineKey ↔ j.stringWithoutResource = k.stringWithoutResource :=
  List.append_right_inj _

theorem JID.head?_toSessionid (j : JID) : j.toSessionid.head? = (text "s").head? := rfl

theorem JID.head?_toOfflineKey (j : JID) : j.toOfflineKey.head? = (text "o").head? := rfl

end Sara
