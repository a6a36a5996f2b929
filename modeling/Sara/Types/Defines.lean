import Mathlib.Tactic.Common

/-! # Shared constants of the message server

A Go `string` and a `[]byte` are both a finite sequence of bytes, and the
conversions between them copy the bytes. One type serves for both.
-/

namespace Sara

set_option autoImplicit false

abbrev Bytes := List UInt8

/-- Named, as the one below, so that all modules use the same proof. -/
instance (priority := high) lawfulBEqBytes : LawfulBEq Bytes := inferInstance

instance (priority := high) neZeroTwo : @NeZero Nat Zero.ofOfNat0 2 := ⟨Nat.succ_ne_zero 1⟩

/-- The bytes of a literal of the source. All of them are ASCII. -/
def text (s : String) : Bytes := s.toList.map fun c => UInt8.ofNat c.toNat

/-- A printed uuid: hexadecimal digits, and dashes. -/
def isUuid (x : Bytes) : Bool :=
  x ≠ [] && x.all fun b => (48 ≤ b && b ≤ 57) || (97 ≤ b && b ≤ 102) || b = 45

def endFlag : UInt8 := 1
def heartBeat : UInt8 := 2
def killSignal : UInt8 := 3

def msgTypeOpenSession : Nat := 0
def msgTypeChat : Nat := 1
def msgTypeGroupChat : Nat := 2
def msgTypeState : Nat := 3
def msgTypeSystem : Nat := 4

def failType : Bytes := text "fail_type"
def failToken : Bytes := text "fail_token"
def failPacket : Bytes := text "fail_packet"

def sessionPerfix : Bytes := text "session_"
def offlinePerfix : Bytes := text "offline_"
def groupPerfix : Bytes := text "group_"
def idxSuffix : Bytes := text "_idx"

def serverAckName : Bytes := text "server_ack"

def routerQueueSize : Nat := 100000
def offlineExpired : Nat := 3600 * 24 * 7

end Sara
