import Sara.Types.Gjson

/-! # The configuration

The entries that `init` puts into the map have a default and no value. What is
set has both. The getters look for an entry first and assert the type of its
value then, so that of an entry without a value they make a panic.
-/

namespace Sara.Gjson

open Lib.Json

set_option autoImplicit false

section Results

/-- The values of `float64`, with what is done with one. -/
structure Floats where
  Float64 : Type
  parseFloat : Bytes → Float64
  formatFloat : Float64 → Bytes
  isZero : Float64 → Bool
  toInt64 : Float64 → Int

inductive Result (F : Floats) where
  | null
  | lit (b : Bool)
  | num (x : F.Float64)
  | str (s : Bytes)
  | json (raw : Bytes)

variable (F : Floats)

/-- The first byte of the text tells the type, and the rest of a word is not looked at. -/
def result (raw : Bytes) : Result F :=
  match raw with
  | [] => .null
  | b :: rest =>
    if b = quote then .str (keyName rest.dropLast)
    else if b = openBrace || b = openBracket then .json raw
    else if b = minus || isDigit b then .num (F.parseFloat raw)
    else if b = 116 then .lit true
    else if b = 102 then .lit false
    else .null

/-- The digits after those that have made `n`. A number that does not fit ends the reading
with the largest that does; any other byte is an error. -/
def parseUint (n : Nat) : Bytes → Option Nat
  | [] => some n
  | b :: s =>
    if isDigit b then
      if 2 ^ 64 ≤ 10 * n + (b.toNat - 48) then some (2 ^ 64 - 1)
      else parseUint (10 * n + (b.toNat - 48)) s
    else none

def parseDigits (digits : Bytes) : Option Nat :=
  if digits.isEmpty then none else parseUint 0 digits

/-- The number alone: the error is dropped by those who ask. -/
def parseInt : Bytes → Int
  | [] => 0
  | b :: s =>
    if b = minus then -Int.ofNat (Nat.min ((parseDigits s).getD 0) 9223372036854775808)
    else
      let digits := if b = 43 then s else b :: s
      Int.ofNat (Nat.min ((parseDigits digits).getD 0) 9223372036854775807)

namespace Result

variable {F}

def string : Result F → Bytes
  | .null => text "null"
  | .lit false => text "false"
  | .num x => F.formatFloat x
  | .str s => s
  | .json raw => raw
  | .lit true => text "true"

def bool : Result F → Bool
  | .lit b => b
  | .str s => s ≠ [] && s ≠ text "0"
  | .num x => !F.isZero x
  | _ => false

def int : Result F → Int
  | .lit true => 1
  | .str s => parseInt s
  | .num x => F.toInt64 x
  | _ => 0

end Result

end Results

end Sara.Gjson

namespace Sara.Config

open Gjson (Floats Result result)

set_option autoImplicit false

inductive Val where
  | string (s : Bytes)
  | int (n : Int)
  | bool (b : Bool)
  deriving DecidableEq

structure ConfVo where
  key : Bytes
  val : Option Val
  dflt : Option Val
  deriving DecidableEq

abbrev Conf := Bytes → Option ConfVo

/-- How a program ends that does not go on. -/
inductive Halt where
  | exit
  | panic
  deriving DecidableEq

def newConfVoKeyDef (key : Bytes) (dflt : Val) : ConfVo := ⟨key, none, some dflt⟩

def newConfVoKeyVal (key : Bytes) (val : Val) : ConfVo := ⟨key, some val, some val⟩

def configs : List ConfVo :=
  [newConfVoKeyDef (text "port") (.int 4222),
    newConfVoKeyDef (text "wsport") (.int 4224),
    newConfVoKeyDef (text "tlsport") (.int 4333),
    newConfVoKeyDef (text "rpcport") (.int 4280),
    newConfVoKeyDef (text "logfile") (.string (text "/tmp/sara.log")),
    newConfVoKeyDef (text "loglevel") (.int 3),
    newConfVoKeyDef (text "dbaddr") (.string (text "localhost:6379")),
    newConfVoKeyDef (text "dbpool") (.int 1000),
    newConfVoKeyDef (text "nodeaddr") (.string (text "localhost:4281")),
    newConfVoKeyDef (text "callback") (.string []),
    newConfVoKeyDef (text "dc") (.string (text "dc01"))]

def register (conf : Conf) (c : ConfVo) : Conf := Function.update conf c.key (some c)

def init : Conf := configs.foldl register fun _ => none

def set (conf : Conf) (k : Bytes) (val : Val) : Conf := register conf (newConfVoKeyVal k val)

def setString (conf : Conf) (k val : Bytes) : Conf := set conf k (.string val)
def setInt (conf : Conf) (k : Bytes) (val : Int) : Conf := set conf k (.int val)
def setBool (conf : Conf) (k : Bytes) (val : Bool) : Conf := set conf k (.bool val)

/-- The three getters: `cast` is the type that is asserted. -/
def get {α : Type} (cast : Val → Option α) (conf : Conf) (k : Bytes) (dflt : α) : Except Halt α :=
  match conf k with
  | some c =>
    match c.val.bind cast with
    | some val => .ok val
    | none => .error .panic
  | none => .ok dflt

def Val.string? : Val → Option Bytes
  | .string s => some s
  | _ => none

def Val.int? : Val → Option Int
  | .int n => some n
  | _ => none

def Val.bool? : Val → Option Bool
  | .bool b => some b
  | _ => none

def getString : Conf → Bytes → Bytes → Except Halt Bytes := get Val.string?
def getInt : Conf → Bytes → Int → Except Halt Int := get Val.int?
def getBool : Conf → Bytes → Bool → Except Halt Bool := get Val.bool?

def getDef (conf : Conf) (k : Bytes) : Option Val := (conf k).bind (·.dflt)

/-! ## The file -/

inductive Kind where
  | string
  | int
  | bool
  deriving DecidableEq

namespace Kind

def Carrier : Kind → Type
  | .string => Bytes
  | .int => Int
  | .bool => Bool

def wrap : (kind : Kind) → kind.Carrier → Val
  | .string => Val.string
  | .int => Val.int
  | .bool => Val.bool

def cast : (kind : Kind) → Val → Option kind.Carrier
  | .string => Val.string?
  | .int => Val.int?
  | .bool => Val.bool?

def read {F : Floats} : (kind : Kind) → Result F → kind.Carrier
  | .string => Result.string
  | .int => Result.int
  | .bool => Result.bool

def set : (kind : Kind) → Conf → Bytes → kind.Carrier → Conf
  | .string => setString
  | .int => setInt
  | .bool => setBool

def get : (kind : Kind) → Conf → Bytes → kind.Carrier → Except Halt kind.Carrier
  | .string => getString
  | .int => getInt
  | .bool => getBool

end Kind

/-- The keys that are looked for after `nodeid`, in this order. -/
def keys : List (Bytes × Kind) :=
  [(text "port", .int), (text "wsport", .int), (text "tlsport", .int), (text "wssport", .int),
    (text "rpcport", .int), (text "accesstoken", .string), (text "logfile", .string),
    (text "loglevel", .int), (text "dbaddr", .string), (text "dbpool", .int),
    (text "nodeaddr", .string), (text "callback", .string), (text "dc", .string),
    (text "certfile", .string), (text "keyfile", .string), (text "enable_auth", .bool),
    (text "enable_offline_callback", .bool), (text "enable_tcp", .bool), (text "enable_tls", .bool),
    (text "enable_ws", .bool), (text "enable_wss", .bool)]

section Load

variable (F : Floats) (j : Bytes)

def loadKey (conf : Conf) (row : Bytes × Kind) : Conf :=
  match Gjson.get j row.1 with
  | some raw => row.2.set conf row.1 (row.2.read (result F raw))
  | none => conf

/-- The text of `nodeid` in the file, which must not be empty. -/
def fileNodeid : Option Bytes :=
  ((Gjson.get j (text "nodeid")).map fun raw => (result F raw).string).filter (· ≠ [])

def loadNodeid (conf : Conf) : Except Halt Conf :=
  match fileNodeid F j with
  | some nodeid => .ok (setString conf (text "nodeid") nodeid)
  | none =>
    match getString conf (text "nodeid") [] with
    | .error halt => .error halt
    | .ok nid => if nid = [] then .error .exit else .ok conf

/-- A file that cannot be read leaves the map as it is. -/
def loadFromConf (file : Option Bytes) (conf : Conf) : Except Halt Conf :=
  match file with
  | none => .ok conf
  | some j => (loadNodeid F j conf).map fun conf => keys.foldl (loadKey F j) conf

end Load

/-! ## What the getters find -/

theorem register_self (conf : Conf) (c : ConfVo) : register conf c c.key = some c :=
  Function.update_self ..

theorem register_of_ne (conf : Conf) {c : ConfVo} {k : Bytes} (h : k ≠ c.key) :
    register conf c k = conf k := Function.update_of_ne h ..

theorem mem_of_foldl_register {cs : List ConfVo} {conf : Conf} {k : Bytes} {c : ConfVo}
    (h : cs.foldl register conf k = some c) : c ∈ cs ∨ conf k = some c := by
  induction cs generalizing conf with
  | nil => exact .inr h
  | cons b cs ih =>
    rcases ih h with hRest | hFirst
    · exact .inl (List.mem_cons_of_mem b hRest)
    · by_cases hk : k = b.key
      · subst hk
        rw [register_self] at hFirst
        cases hFirst
        exact .inl List.mem_cons_self
      · rw [register_of_ne conf hk] at hFirst
        exact .inr hFirst

/-- What is only registered has no value yet. -/
theorem val_init {k : Bytes} {c : ConfVo} (h : init k = some c) : c.val = none := by
  have hConfigs : ∀ c ∈ configs, c.val = none := by decide
  rcases mem_of_foldl_register h with hMem | hNone
  · exact hConfigs c hMem
  · cases hNone

namespace Kind

variable (kind : Kind) (conf : Conf) (k : Bytes)

theorem set_eq (val : kind.Carrier) : kind.set conf k val = Config.set conf k (kind.wrap val) := by
  cases kind <;> rfl

theorem get_eq : kind.get = Config.get kind.cast := by
  cases kind <;> rfl

theorem cast_wrap (val : kind.Carrier) : kind.cast (kind.wrap val) = some val := by
  cases kind <;> rfl

variable {kind conf k}

theorem get_of_none (h : conf k = none) (d : kind.Carrier) : kind.get conf k d = .ok d := by
  simp only [get_eq, Config.get, h]

theorem get_of_val_none {c : ConfVo} (h : conf k = some c) (hVal : c.val = none) (d : kind.Carrier) :
    kind.get conf k d = .error .panic := by
  simp only [get_eq, Config.get, h, hVal, Option.bind_none]

theorem get_of_set {val : kind.Carrier} (h : conf k = some (newConfVoKeyVal k (kind.wrap val)))
    (d : kind.Carrier) : kind.get conf k d = .ok val := by
  simp only [get_eq, Config.get, h, newConfVoKeyVal, Option.bind_some, cast_wrap]

end Kind

section Load

variable {F : Floats} {j : Bytes}

/-- What the file makes of one entry. -/
def loaded (F : Floats) (j : Bytes) (kind : Kind) (k : Bytes) (old : Option ConfVo) : Option ConfVo :=
  match Gjson.get j k with
  | some raw => some (newConfVoKeyVal k (kind.wrap (kind.read (result F raw))))
  | none => old

theorem loadKey_self (conf : Conf) (k : Bytes) (kind : Kind) :
    loadKey F j conf (k, kind) k = loaded F j kind k (conf k) := by
  unfold loadKey loaded
  cases Gjson.get j k with
  | none => rfl
  | some raw =>
    simp only [Kind.set_eq]
    exact register_self conf (newConfVoKeyVal k (kind.wrap (kind.read (result F raw))))

theorem loadKey_of_ne (conf : Conf) {row : Bytes × Kind} {k : Bytes} (h : k ≠ row.1) :
    loadKey F j conf row k = conf k := by
  unfold loadKey
  cases Gjson.get j row.1 with
  | none => rfl
  | some raw =>
    simp only [Kind.set_eq]
    exact register_of_ne conf h

theorem foldl_loadKey_of_notMem {rows : List (Bytes × Kind)} (conf : Conf) {k : Bytes}
    (h : k ∉ rows.map Prod.fst) : rows.foldl (loadKey F j) conf k = conf k := by
  induction rows generalizing conf with
  | nil => rfl
  | cons row rows ih =>
    rw [List.map_cons, List.mem_cons, not_or] at h
    rw [List.foldl_cons, ih _ h.2, loadKey_of_ne conf h.1]

theorem foldl_loadKey_of_mem {rows : List (Bytes × Kind)} (conf : Conf) {k : Bytes} {kind : Kind}
    (hRows : (rows.map Prod.fst).Nodup) (h : (k, kind) ∈ rows) :
    rows.foldl (loadKey F j) conf k = loaded F j kind k (conf k) := by
  induction rows generalizing conf with
  | nil => cases h
  | cons row rows ih =>
    obtain ⟨hFresh, hRest⟩ := List.nodup_cons.mp hRows
    rw [List.foldl_cons]
    rcases List.mem_cons.mp h with rfl | hMem
    · rw [foldl_loadKey_of_notMem _ hFresh, loadKey_self]
    · have hne : k ≠ row.1 := by
        rintro rfl
        exact hFresh (List.mem_map.mpr ⟨_, hMem, rfl⟩)
      rw [ih _ hRest hMem, loadKey_of_ne conf hne]

theorem nodup_keys : (keys.map Prod.fst).Nodup := by decide +kernel

theorem nodeid_notMem_keys : text "nodeid" ∉ keys.map Prod.fst := by decide +kernel

theorem loadFromConf_of_nodeid {nodeid : Bytes} (h : fileNodeid F j = some nodeid) :
    loadFromConf F (some j) init =
      .ok (keys.foldl (loadKey F j) (setString init (text "nodeid") nodeid)) := by
  simp only [loadFromConf, loadNodeid, h]
  rfl

theorem loadFromConf_of_no_nodeid (h : fileNodeid F j = none) :
    loadFromConf F (some j) init = .error .exit := by
  simp only [loadFromConf, loadNodeid, h]
  rfl

theorem fileNodeid_eq_some {nodeid : Bytes} (h : fileNodeid F j = some nodeid) :
    ∃ raw, Gjson.get j (text "nodeid") = some raw ∧ nodeid = (result F raw).string := by
  unfold fileNodeid at h
  obtain ⟨hMap, -⟩ := Option.filter_eq_some_iff.mp h
  obtain ⟨raw, hRaw, hString⟩ := Option.map_eq_some_iff.mp hMap
  exact ⟨raw, hRaw, hString.symm⟩

end Load

def recognised : List (Bytes × Kind) := (text "nodeid", .string) :: keys

/-- Every entry is as the file says, or as it was. -/
theorem loadFromConf_apply {F : Floats} {j : Bytes} {conf : Conf}
    (h : loadFromConf F (some j) init = .ok conf) {k : Bytes} {kind : Kind}
    (hKey : (k, kind) ∈ recognised) : conf k = loaded F j kind k (init k) := by
  cases hNodeid : fileNodeid F j with
  | none =>
    rw [loadFromConf_of_no_nodeid hNodeid] at h
    cases h
  | some nodeid =>
    rw [loadFromConf_of_nodeid hNodeid] at h
    cases h
    rcases List.mem_cons.mp hKey with hFirst | hMem
    · cases hFirst
      obtain ⟨raw, hRaw, rfl⟩ := fileNodeid_eq_some hNodeid
      rw [foldl_loadKey_of_notMem _ nodeid_notMem_keys]
      simp only [loaded, hRaw]
      exact register_self init (newConfVoKeyVal (text "nodeid") (.string (result F raw).string))
    · have hne : k ≠ text "nodeid" := by
        rintro rfl
        exact nodeid_notMem_keys (List.mem_map.mpr ⟨_, hMem, rfl⟩)
      rw [foldl_loadKey_of_mem _ nodup_keys hMem]
      congr 1
      exact register_of_ne init hne

/-- What a reader of the documentation expects under a key: the value in the file, else the
default that is declared, else the caller's. -/
def expected (F : Floats) (file : Option Bytes) (kind : Kind) (k : Bytes) (d : kind.Carrier) : Val :=
  match file.bind fun j => Gjson.get j k with
  | some raw => kind.wrap (kind.read (result F raw))
  | none => (getDef init k).getD (kind.wrap d)

section Lookups

variable {F : Floats} {file : Option Bytes} {conf : Conf} {k : Bytes} {kind : Kind}

theorem loadFromConf_ok_iff :
    (∃ conf, loadFromConf F file init = .ok conf) ↔ ∀ j, file = some j → (fileNodeid F j).isSome := by
  cases file with
  | none =>
    constructor
    · intro _ j hj
      cases hj
    · intro _
      exact ⟨init, rfl⟩
  | some j =>
    cases hNodeid : fileNodeid F j with
    | none =>
      rw [loadFromConf_of_no_nodeid hNodeid]
      simp [hNodeid]
    | some nodeid =>
      rw [loadFromConf_of_nodeid hNodeid]
      simp [hNodeid]

theorem loadFromConf_lookup (h : loadFromConf F file init = .ok conf) (hKey : (k, kind) ∈ recognised) :
    conf k = match file.bind fun j => Gjson.get j k with
      | some raw => some (newConfVoKeyVal k (kind.wrap (kind.read (result F raw))))
      | none => init k := by
  cases file with
  | none =>
    cases h
    rfl
  | some j => exact loadFromConf_apply h hKey

variable (hLoad : loadFromConf F file init = .ok conf) (hKey : (k, kind) ∈ recognised)

include hLoad hKey

theorem get_given {raw : Bytes} (hFile : (file.bind fun j => Gjson.get j k) = some raw)
    (d : kind.Carrier) : kind.get conf k d = .ok (kind.read (result F raw)) := by
  have hEntry := loadFromConf_lookup hLoad hKey
  rw [hFile] at hEntry
  exact Kind.get_of_set hEntry d

variable (hFile : (file.bind fun j => Gjson.get j k) = none)

include hFile

theorem get_undeclared (hInit : init k = none) (d : kind.Carrier) : kind.get conf k d = .ok d := by
  have hEntry := loadFromConf_lookup hLoad hKey
  rw [hFile] at hEntry
  exact Kind.get_of_none (hEntry.trans hInit) d

theorem get_declared {c : ConfVo} (hInit : init k = some c) (d : kind.Carrier) :
    kind.get conf k d = .error .panic := by
  have hEntry := loadFromConf_lookup hLoad hKey
  rw [hFile] at hEntry
  exact Kind.get_of_val_none (hEntry.trans hInit) (val_init hInit) d

end Lookups

/-- A file is loaded exactly if it is missing or names the node. A key is then found as it
should be exactly if the file has it or `init` has not registered it. -/
theorem lookup_expected_iff (F : Floats) (file : Option Bytes) {k : Bytes} {kind : Kind}
    (hKey : (k, kind) ∈ recognised) (d : kind.Carrier) :
    ((∃ conf, loadFromConf F file init = .ok conf) ↔
      ∀ j, file = some j → (fileNodeid F j).isSome) ∧
    ∀ conf, loadFromConf F file init = .ok conf →
      ((kind.get conf k d).map kind.wrap = .ok (expected F file kind k d) ↔
        ((init k).isSome → (file.bind fun j => Gjson.get j k).isSome)) := by
  refine ⟨loadFromConf_ok_iff, ?_⟩
  intro conf hLoad
  unfold expected
  cases hFile : file.bind fun j => Gjson.get j k with
  | some raw =>
    rw [get_given hLoad hKey hFile d]
    simp [Except.map]
  | none =>
    cases hInit : init k with
    | none =>
      rw [get_undeclared hLoad hKey hFile hInit d]
      simp [Except.map, getDef, hInit]
    | some c =>
      rw [get_declared hLoad hKey hFile hInit d]
      simp [Except.map]

/-- Whole numbers in place of floating point ones. -/
def wholeNumbers : Floats where
  Float64 := Int
  parseFloat := Gjson.parseInt
  formatFloat n := text (toString n)
  isZero n := n = 0
  toInt64 n := n

/-- The file of the first of two nodes, as the documentation has it. -/
def firstNode : Bytes :=
  text "\x7b\n" ++
    text "    \"accesstoken\":\"123456\",\n" ++
    text "    \"nodeid\":\"n01\",\n" ++
    text "    \"nodeaddr\": \"192.168.0.101:4281\",\n" ++
    text "    \"dbaddr\": \"192.168.0.100:6379\",\n" ++
    text "    \"dbpool\":1000\n" ++
    text "\x7d"

theorem firstNode_nodeid : fileNodeid wholeNumbers firstNode = some (text "n01") := by
  decide +kernel

/-- A server with this file stops where it asks for its log file, the first thing it asks for. -/
theorem lookup_panics :
    ∃ conf, loadFromConf wholeNumbers (some firstNode) init = .ok conf ∧
      getString conf (text "logfile") [] = .error .panic ∧
      getInt conf (text "port") 4222 = .error .panic := by
  have hLoad := loadFromConf_of_nodeid firstNode_nodeid
  have hLogfile : (text "logfile", .string) ∈ recognised := by decide +kernel
  have hPort : (text "port", .int) ∈ recognised := by decide +kernel
  refine ⟨_, hLoad, ?_, ?_⟩
  · exact get_declared hLoad hLogfile (by decide +kernel) rfl []
  · exact get_declared hLoad hPort (by decide +kernel) rfl (4222 : Int)

theorem lookup_expected_dbpool :
    ∃ conf, loadFromConf wholeNumbers (some firstNode) init = .ok conf ∧
      (getInt conf (text "dbpool") 100).map Val.int = .ok (Val.int 1000) := by
  obtain ⟨hLoad, hGet⟩ :=
    @lookup_expected_iff wholeNumbers (some firstNode) (text "dbpool") .int (by decide +kernel) (100 : Int)
  have hNodeid : ∀ j, some firstNode = some j → (fileNodeid wholeNumbers j).isSome := by
    intro j hj
    rw [← Option.some.inj hj, firstNode_nodeid]
    rfl
  obtain ⟨conf, hConf⟩ := hLoad.mpr hNodeid
  have hExpected : expected wholeNumbers (some firstNode) .int (text "dbpool") (100 : Int) = .int 1000 := by
    decide +kernel
  refine ⟨conf, hConf, ?_⟩
  rw [← hExpected]
  exact (hGet conf hConf).mpr (by decide +kernel)

end Sara.Config
