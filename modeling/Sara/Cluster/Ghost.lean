import Sara.Node.LoginRefinement
import Sara.Types.PlainJson

/-! # Ghost sessions

A node that crashes leaves the entries of its sessions in the store. When it starts
again it reads the index of its sessions and queues a removal for each of them. The
nodes share one store; each has the queues of its own process, which are lost with it.
A login writes index and entry straight away, a close queues the removal of both.
-/

namespace Sara.Ghost

open Lib Lib.Transition Saradb

set_option autoImplicit false

/-- Where `cleanGhostSession` stands: the commands of the registration, then those of
`deleteByIdx`, each list as far as it is not handed over yet. -/
inductive Cleaning where
  | off
  | registering (ds : List Dispatch)
  | deleting (ds : List Dispatch)
deriving DecidableEq

def Cleaning.todo : Cleaning → List Dispatch
  | .off => []
  | .registering ds | .deleting ds => ds

/-- `writing` are the calls of `storeSessionStatus` under way, one for each session. -/
structure Process where
  up : Bool
  queue : Chan → List Cmd
  held : Chan → List Cmd
  writing : Bytes → List Dispatch
  cleaning : Cleaning

inductive Act where
  | restart (timestamp13 : Bytes)
  | clean
  | login (x : Bytes) (st : SessionStatus)
  | write (x : Bytes)
  | close (st : SessionStatus)
  | take (ch : Chan)
  | exec (ch : Chan) (m : Nat)
  | crash

/-- The process neither stops nor closes a session. -/
def Act.serves : Act → Bool
  | .close _ | .crash => false
  | .restart _ | .clean | .login _ _ | .write _ | .take _ | .exec _ _ => true

namespace Process

def down : Process where
  up := false
  queue _ := []
  held _ := []
  writing _ := []
  cleaning := .off

def db (p : Process) (st : Store) : Database := { store := st, queue := p.queue, held := p.held }

def setDb (p : Process) (db : Database) : Process := { p with queue := db.queue, held := db.held }

/-- The commands that are not executed yet, but for those of a login. -/
def outstanding (p : Process) : List Cmd :=
  p.cleaning.todo.map Dispatch.cmd ++ (p.db fun _ => none).pending

end Process

def registration (nodeid timestamp13 : Bytes) : List Dispatch :=
  putExWithIdx (text "sara") nodeid (nodeid ++ timestamp13) 0

def issue (db : Database) (d : Dispatch) (ds : List Dispatch) : Database × List Dispatch :=
  match db.sendOne d with
  | none => (db, [])
  | some db => (db, ds)

/-- A step of one process on the store that all share. Sessions are accepted only after
`cleanGhostSession` has returned. -/
def Process.step (C : Codec) (consumers : Nat) (nodeid : Bytes) (st : Store) (p : Process) :
    Act → Option (Store × Process)
  | .restart timestamp13 =>
    if p.up then none
    else some (st, { p with up := true, cleaning := .registering (registration nodeid timestamp13) })
  | .clean =>
    match p.cleaning with
    | .off => none
    | .registering [] => some (st, { p with cleaning := .deleting (deleteByIdx st nodeid) })
    | .registering (d :: ds) =>
      let (db, ds) := issue (p.db st) d ds
      some (db.store, { p.setDb db with cleaning := .registering ds })
    | .deleting [] => some (st, { p with cleaning := .off })
    | .deleting (d :: ds) =>
      let (db, ds) := issue (p.db st) d ds
      some (db.store, { p.setDb db with cleaning := .deleting ds })
  | .login x ss =>
    if p.up ∧ p.cleaning = .off ∧ p.writing x = [] ∧ ss.nodeid = nodeid then
      (newJID ss.jid).toOption.map fun j =>
        let ds := putExWithIdx ss.nodeid j.toSessionid (C.marshalStatus ss) (-1)
        (st, { p with writing := Function.update p.writing x ds })
    else none
  | .write x =>
    match p.writing x with
    | [] => none
    | d :: ds =>
      let (db, ds) := issue (p.db st) d ds
      some (db.store, { p.setDb db with writing := Function.update p.writing x ds })
  | .close ss =>
    if p.up ∧ p.cleaning = .off ∧ ss.nodeid = nodeid then some (st, p.setDb (dropEntry (p.db st) ss))
    else none
  | .take ch => ((p.db st).take consumers ch).map fun db => (db.store, p.setDb db)
  | .exec ch m => ((p.db st).execHeld ch m).map fun db => (db.store, p.setDb db)
  | .crash => if p.up then some (st, .down) else none

structure State (ι : Type) where
  store : Store
  nodes : ι → Process

def start (ι : Type) (st : Store) : State ι := { store := st, nodes := fun _ => .down }

def step {ι : Type} [DecidableEq ι] (C : Codec) (consumers : Nat) (nodeid : ι → Bytes) (s : State ι)
    (a : ι × Act) : Option (State ι) :=
  ((s.nodes a.1).step C consumers (nodeid a.1) s.store a.2).map fun r =>
    { store := r.1, nodes := Function.update s.nodes a.1 r.2 }

/-- The key under which a step of a login writes an entry. -/
def Process.logged (p : Process) : Act → List Bytes
  | .write x =>
    match p.writing x with
    | .direct (.set key _) :: _ => [key]
    | _ => []
  | _ => []

def logged {ι : Type} (s : State ι) (a : ι × Act) : List Bytes := (s.nodes a.1).logged a.2

/-! ## What a process does -/

def Removes : Cmd → Prop
  | .set key _ | .setex key _ _ | .hset key _ _ => is4s key = false
  | .del _ | .hdel _ _ => True

theorem get_of_removes {c : Cmd} (h : Removes c) {key : Bytes} (hKey : is4s key = true) (st : Store) :
    Redis.get (Redis.exec st c) key = Redis.get st key ∨
      c = .del key ∧ Redis.get (Redis.exec st c) key = none := by
  by_cases hSame : key = c.key
  · cases c with
    | set k v | setex k ttl v | hset k f v =>
      have hOther : is4s k = false := h
      rw [hSame] at hKey
      exact absurd hKey (Bool.eq_false_iff.mp hOther)
    | del k =>
      refine .inr ⟨congrArg Redis.Cmd.del hSame.symm, ?_⟩
      rw [Redis.get, hSame, Redis.exec_key]
      rfl
    | hdel k f => exact .inl (Redis.get_exec_hdel st k f key)
  · exact .inl (Redis.get_exec_of_ne hSame)

def Stores : Dispatch → Prop
  | .direct (.hset key _ _) => is4s key = false
  | .direct (.set _ _) => True
  | _ => False

section Process

variable {C : Codec} {consumers : Nat} {nodeid : Bytes} {st st' : Store} {p p' : Process} {a : Act}

namespace Process

structure Formed (p : Process) : Prop where
  removes : ∀ c ∈ p.outstanding, Removes c
  queued : ∀ d ∈ p.cleaning.todo, ∃ ch c, d = .queued ch c
  stores : ∀ x, ∀ d ∈ p.writing x, Stores d
  fresh : ∀ ds, p.cleaning = .registering ds → ∀ key, .del key ∉ p.outstanding
  down : p.up = false → p.outstanding = [] ∧ p.cleaning = .off

theorem formed_down : Formed .down where
  removes _ hc := by cases hc
  queued _ hd := by cases hd
  stores _ _ hd := by cases hd
  fresh _ h := by cases h
  down _ := ⟨rfl, rfl⟩

/-- What a step does to the store, and to the commands that are not executed yet. -/
inductive Effect (nodeid : Bytes) (st : Store) (p : Process) (st' : Store) (p' : Process) : Act → Prop where
  | calm (a : Act) (hStore : st' = st) (hLogged : p.logged a = [])
      (hOut : p'.outstanding.Perm p.outstanding) : Effect nodeid st p st' p' a
  | restart (timestamp13 : Bytes) (hDown : p.up = false) (hStore : st' = st)
      (hOut : p'.outstanding = (registration nodeid timestamp13).map Dispatch.cmd) :
      Effect nodeid st p st' p' (.restart timestamp13)
  | read (hReady : p.cleaning = .registering []) (hStore : st' = st)
      (hOut : p'.outstanding = (deleteByIdx st nodeid).map Dispatch.cmd ++ p.outstanding) :
      Effect nodeid st p st' p' .clean
  | index (x key field value : Bytes) (hKey : is4s key = false) (hLogged : p.logged (.write x) = [])
      (hStore : st' = Redis.exec st (.hset key field value))
      (hOut : p'.outstanding = p.outstanding) : Effect nodeid st p st' p' (.write x)
  | store (x key value : Bytes) (hLogged : p.logged (.write x) = [key])
      (hStore : st' = Redis.exec st (.set key value)) (hOut : p'.outstanding = p.outstanding) :
      Effect nodeid st p st' p' (.write x)
  | close (ss : SessionStatus) (hOff : p.cleaning = .off) (hUp : p.up = true) (hStore : st' = st)
      (hOut : ∀ c ∈ p'.outstanding, c ∈ p.outstanding ∨ Removes c) :
      Effect nodeid st p st' p' (.close ss)
  | exec (ch : Chan) (m : Nat) (c : Cmd) (hStore : st' = Redis.exec st c)
      (hOut : p.outstanding.Perm (c :: p'.outstanding)) : Effect nodeid st p st' p' (.exec ch m)
  | crash (hStore : st' = st) (hOut : p'.outstanding = []) : Effect nodeid st p st' p' .crash

theorem mem_outstanding_of_held {c : Cmd} {ch : Chan} (h : c ∈ p.held ch) : c ∈ p.outstanding :=
  List.mem_append_right _ (Database.mem_pending.mpr ⟨ch, .inr h⟩)

theorem outstanding_enqueue (p : Process) (st : Store) (ch : Chan) (c : Cmd) (ds : List Dispatch)
    {cl cl' : Cleaning} (hTodo : cl.todo = .queued ch c :: ds) (hTodo' : cl'.todo = ds)
    (hCleaning : p.cleaning = cl) :
    outstanding { p.setDb ((p.db st).enqueue ch c) with cleaning := cl' } |>.Perm p.outstanding := by
  have hPending := Database.pending_enqueue (p.db st) ch c
  unfold outstanding
  rw [hCleaning, hTodo, hTodo']
  exact (hPending.append_left _).trans List.perm_middle

/-- A step after which there are no further commands. -/
theorem Formed.of_outstanding (h : Formed p) (hUp : p'.up = p.up)
    (hOff : p.cleaning = .off → p'.cleaning = .off)
    (hTodo : ∀ d ∈ p'.cleaning.todo, d ∈ p.cleaning.todo)
    (hRegistering : ∀ ds, p'.cleaning = .registering ds → ∃ ds', p.cleaning = .registering ds')
    (hStores : ∀ x, ∀ d ∈ p'.writing x, Stores d)
    (hOut : ∀ c ∈ p'.outstanding, c ∈ p.outstanding) : Formed p' where
  removes c hc := h.removes c (hOut c hc)
  queued d hd := h.queued d (hTodo d hd)
  stores := hStores
  fresh ds hReg key hDel := by
    obtain ⟨ds', hOld⟩ := hRegistering ds hReg
    exact h.fresh ds' hOld key (hOut _ hDel)
  down hDown := by
    obtain ⟨hNone, hOld⟩ := h.down (hUp ▸ hDown)
    refine ⟨List.eq_nil_iff_forall_not_mem.mpr fun c hc => ?_, hOff hOld⟩
    have hMem := hOut c hc
    rw [hNone] at hMem
    cases hMem

theorem is4s_of_index (h : is4s (indexKey nodeid) = false) : is4s nodeid = false := by
  cases hSession : is4s nodeid with
  | false => rfl
  | true =>
    have hPrefix : sessionPerfix <+: indexKey nodeid :=
      (List.isPrefixOf_iff_prefix.mp hSession).trans (List.prefix_append _ _)
    rw [is4s, List.isPrefixOf_iff_prefix.mpr hPrefix] at h
    cases h

theorem registration_eq (h : is4s nodeid = false) (timestamp13 : Bytes) :
    registration nodeid timestamp13 =
      [.queued .message (.hset (indexKey (text "sara")) nodeid (nodeid ++ timestamp13)),
        .queued .message (.set nodeid (nodeid ++ timestamp13))] := by
  rw [registration, putExWithIdx, h]
  rfl

theorem mem_deleteByIdx {d : Dispatch} (h : d ∈ deleteByIdx st nodeid) :
    ∃ ch key, d = .queued ch (.del key) := by
  unfold deleteByIdx at h
  split at h
  · cases h
  · rcases List.mem_append.mp h with hKeys | hIndex
    · obtain ⟨key, _, hDel⟩ := List.mem_flatMap.mp hKeys
      exact ⟨_, key, List.mem_singleton.mp hDel⟩
    · exact ⟨_, _, List.mem_singleton.mp hIndex⟩

theorem removes_of_mem_dropEntry {db : Database} {ss : SessionStatus} {c : Cmd}
    (h : c ∈ (dropEntry db ss).pending) : c ∈ db.pending ∨ Removes c := by
  rcases mem_pending_dropEntry h with hOld | ⟨j, _, rfl | rfl⟩
  · exact .inl hOld
  · exact .inr trivial
  · exact .inr trivial

theorem Formed.restart (h : Formed p) (hNode : is4s (indexKey nodeid) = false) (hDown : p.up = false)
    (timestamp13 : Bytes) :
    let q := { p with up := true, cleaning := .registering (registration nodeid timestamp13) }
    Formed q ∧ q.outstanding = (registration nodeid timestamp13).map Dispatch.cmd := by
  intro q
  have hNone : (p.db fun _ => none).pending = [] := (List.append_eq_nil_iff.mp (h.down hDown).1).2
  have hOut : q.outstanding = (registration nodeid timestamp13).map Dispatch.cmd := by
    change List.map _ _ ++ (p.db fun _ => none).pending = _
    rw [hNone, List.append_nil]
    rfl
  refine ⟨⟨?_, ?_, h.stores, ?_, fun hUp => by cases hUp⟩, hOut⟩
  · rw [hOut, registration_eq (is4s_of_index hNode)]
    intro c hc
    rcases List.mem_pair.mp hc with rfl | rfl
    · change is4s (indexKey (text "sara")) = false
      decide
    · exact is4s_of_index hNode
  · intro d hd
    change d ∈ registration nodeid timestamp13 at hd
    rw [registration_eq (is4s_of_index hNode)] at hd
    rcases List.mem_pair.mp hd with rfl | rfl
    · exact ⟨_, _, rfl⟩
    · exact ⟨_, _, rfl⟩
  · intro _ _ key hDel
    rw [hOut, registration_eq (is4s_of_index hNode)] at hDel
    rcases List.mem_pair.mp hDel with hEq | hEq
    · cases hEq
    · cases hEq

theorem Formed.read (h : Formed p) (hReady : p.cleaning = .registering []) (nodeid : Bytes) (st : Store) :
    let q := { p with cleaning := .deleting (deleteByIdx st nodeid) }
    Formed q ∧ q.outstanding = (deleteByIdx st nodeid).map Dispatch.cmd ++ p.outstanding := by
  intro q
  have hOut : q.outstanding = (deleteByIdx st nodeid).map Dispatch.cmd ++ p.outstanding := by
    unfold outstanding
    rw [hReady]
    rfl
  refine ⟨⟨?_, ?_, h.stores, ?_, ?_⟩, hOut⟩
  · rw [hOut]
    intro c hc
    rcases List.mem_append.mp hc with hNew | hOld
    · obtain ⟨d, hd, rfl⟩ := List.mem_map.mp hNew
      obtain ⟨ch, key, rfl⟩ := mem_deleteByIdx hd
      trivial
    · exact h.removes c hOld
  · intro d hd
    obtain ⟨ch, key, rfl⟩ := mem_deleteByIdx hd
    exact ⟨ch, _, rfl⟩
  · intro _ hReg
    cases hReg
  · intro hDown
    cases hReady.symm.trans (h.down hDown).2

theorem Formed.close (h : Formed p) (hUp : p.up = true) (hOff : p.cleaning = .off) (ss : SessionStatus)
    (st : Store) : let q := p.setDb (dropEntry (p.db st) ss)
    Formed q ∧ ∀ c ∈ q.outstanding, c ∈ p.outstanding ∨ Removes c := by
  intro q
  have hOut : ∀ c ∈ q.outstanding, c ∈ p.outstanding ∨ Removes c := by
    intro c hc
    rcases List.mem_append.mp hc with hTodo | hPending
    · exact .inl (List.mem_append_left _ hTodo)
    · rcases removes_of_mem_dropEntry hPending with hOld | hNew
      · exact .inl (List.mem_append_right _ hOld)
      · exact .inr hNew
  refine ⟨⟨?_, h.queued, h.stores, ?_, ?_⟩, hOut⟩
  · intro c hc
    rcases hOut c hc with hOld | hNew
    · exact h.removes c hOld
    · exact hNew
  · intro ds hReg
    cases hOff.symm.trans hReg
  · intro hDown
    cases hUp.symm.trans hDown

theorem Formed.issue (h : Formed p) {d : Dispatch} {ds : List Dispatch} {cl : Cleaning}
    (hTodo : p.cleaning.todo = d :: ds) (hTodo' : cl.todo = ds)
    (hRegistering : ∀ ds, cl = .registering ds → ∃ ds', p.cleaning = .registering ds') (st : Store) :
    let r := Ghost.issue (p.db st) d ds
    let q := { p.setDb r.1 with cleaning := cl }
    r.2 = ds ∧ r.1.store = st ∧ Formed q ∧ q.outstanding.Perm p.outstanding := by
  obtain ⟨ch, c, rfl⟩ := h.queued d (hTodo ▸ List.mem_cons_self)
  have hOut := p.outstanding_enqueue st ch c ds hTodo hTodo' rfl
  refine ⟨rfl, rfl, h.of_outstanding rfl ?_ ?_ hRegistering h.stores fun c hc => hOut.mem_iff.mp hc, hOut⟩
  · intro hOff
    rw [hOff] at hTodo
    cases hTodo
  · intro d hd
    rw [hTodo]
    exact List.mem_cons_of_mem _ (hTodo' ▸ hd)

theorem stores_update (h : Formed p) {x : Bytes} {ds : List Dispatch} (hStores : ∀ d ∈ ds, Stores d)
    (y : Bytes) : ∀ d ∈ Function.update p.writing x ds y, Stores d := by
  rcases eq_or_ne y x with rfl | hne
  · rwa [Function.update_self]
  · rw [Function.update_of_ne hne]
    exact h.stores y

theorem stores_putExWithIdx (h : is4s (indexKey nodeid) = false) (j : JID) (value : Bytes) :
    ∀ d ∈ putExWithIdx nodeid j.toSessionid value (-1), Stores d := by
  rw [putExWithIdx_toSessionid]
  intro d hd
  rcases List.mem_pair.mp hd with rfl | rfl
  · exact h
  · trivial

theorem Formed.write (h : Formed p) {x : Bytes} {d : Dispatch} {ds : List Dispatch}
    (hWriting : p.writing x = d :: ds) (st : Store) :
    let r := Ghost.issue (p.db st) d ds
    let q := { p.setDb r.1 with writing := Function.update p.writing x r.2 }
    Formed q ∧ Effect nodeid st p r.1.store q (.write x) := by
  have hStores := h.stores x
  rw [hWriting] at hStores
  have hFormed : ∀ ds', (∀ d ∈ ds', Stores d) →
      Formed { p with writing := Function.update p.writing x ds' } := by
    intro ds' hds
    exact h.of_outstanding rfl id (fun _ hd => hd) (fun ds hReg => ⟨ds, hReg⟩) (stores_update h hds)
      fun c hc => hc
  have hRest : ∀ d' ∈ ds, Stores d' := fun d' hd' => hStores d' (List.mem_cons_of_mem d hd')
  match d, hStores d List.mem_cons_self with
  | .direct (.hset key field value), hKey =>
    have hLogged : p.logged (.write x) = [] := by
      simp only [logged, hWriting]
    cases hExec : Redis.exec? st (.hset key field value) with
    | none =>
      have hIssue : Ghost.issue (p.db st) (.direct (.hset key field value)) ds = (p.db st, []) := by
        simp only [Ghost.issue, Database.sendOne, Process.db, hExec, Option.map_none]
      rw [hIssue]
      exact ⟨hFormed [] fun _ hd => (by cases hd), .calm _ rfl hLogged (.refl _)⟩
    | some st' =>
      have hIssue : Ghost.issue (p.db st) (.direct (.hset key field value)) ds =
          ({ p.db st with store := st' }, ds) := by
        simp only [Ghost.issue, Database.sendOne, Process.db, hExec, Option.map_some]
      have hStore : st' = Redis.exec st (.hset key field value) := by
        rw [Redis.exec, hExec]
        rfl
      rw [hIssue]
      exact ⟨hFormed ds hRest, .index x key field value hKey hLogged hStore rfl⟩
  | .direct (.set key value), _ =>
    have hLogged : p.logged (.write x) = [key] := by
      simp only [logged, hWriting]
    exact ⟨hFormed ds hRest, .store x key value hLogged rfl rfl⟩

theorem Formed.step (h : Formed p) (hNode : is4s (indexKey nodeid) = false)
    (hStep : p.step C consumers nodeid st a = some (st', p')) :
    Formed p' ∧ Effect nodeid st p st' p' a := by
  have hKeep : ∀ db : Database, (∀ c ∈ db.pending, c ∈ (p.db st).pending) → Formed (p.setDb db) := by
    intro db hPending
    refine h.of_outstanding rfl id (fun _ hd => hd) (fun ds hReg => ⟨ds, hReg⟩) h.stores ?_
    intro c hc
    rcases List.mem_append.mp hc with hTodo | hQueued
    · exact List.mem_append_left _ hTodo
    · exact List.mem_append_right _ (hPending c hQueued)
  cases a with
  | restart timestamp13 =>
    obtain ⟨hDown, hEq⟩ := Option.ite_none_left_eq_some.mp hStep
    cases hEq
    have hDown : p.up = false := by simpa using hDown
    obtain ⟨hFormed, hOut⟩ := h.restart hNode hDown timestamp13
    exact ⟨hFormed, .restart timestamp13 hDown rfl hOut⟩
  | clean =>
    simp only [Process.step] at hStep
    match hCleaning : p.cleaning with
    | .off =>
      rw [hCleaning] at hStep
      cases hStep
    | .registering [] =>
      rw [hCleaning] at hStep
      cases hStep
      obtain ⟨hFormed, hOut⟩ := h.read hCleaning nodeid st
      exact ⟨hFormed, .read hCleaning rfl hOut⟩
    | .registering (d :: ds) =>
      rw [hCleaning] at hStep
      have hTodo : p.cleaning.todo = d :: ds := by rw [hCleaning]; rfl
      have hTodo' : (Cleaning.registering ds).todo = ds := rfl
      obtain ⟨hRest, hStore, hFormed, hOut⟩ := h.issue hTodo hTodo' (fun _ _ => ⟨_, hCleaning⟩) st
      simp only [hRest, hStore] at hStep
      cases hStep
      exact ⟨hFormed, .calm _ rfl rfl hOut⟩
    | .deleting [] =>
      rw [hCleaning] at hStep
      cases hStep
      have hOut : outstanding { p with cleaning := .off } = p.outstanding := by
        unfold outstanding
        rw [hCleaning]
        rfl
      refine ⟨h.of_outstanding rfl (fun _ => rfl) (fun _ hd => (by cases hd))
        (fun _ hReg => (by cases hReg)) h.stores (fun c hc => hOut ▸ hc), .calm _ rfl rfl ?_⟩
      rw [hOut]
    | .deleting (d :: ds) =>
      rw [hCleaning] at hStep
      have hTodo : p.cleaning.todo = d :: ds := by rw [hCleaning]; rfl
      have hTodo' : (Cleaning.deleting ds).todo = ds := rfl
      obtain ⟨hRest, hStore, hFormed, hOut⟩ := h.issue hTodo hTodo' (fun _ hReg => (by cases hReg)) st
      simp only [hRest, hStore] at hStep
      cases hStep
      exact ⟨hFormed, .calm _ rfl rfl hOut⟩
  | login x ss =>
    obtain ⟨⟨_, _, _, rfl⟩, hEq⟩ := Option.ite_none_right_eq_some.mp hStep
    obtain ⟨j, _, hDone⟩ := Option.map_eq_some_iff.mp hEq
    cases hDone
    have hStores := stores_putExWithIdx hNode j (C.marshalStatus ss)
    exact ⟨h.of_outstanding rfl id (fun _ hd => hd) (fun ds hReg => ⟨ds, hReg⟩)
      (stores_update h hStores) fun c hc => hc, .calm _ rfl rfl (.refl _)⟩
  | write x =>
    simp only [Process.step] at hStep
    cases hWriting : p.writing x with
    | nil =>
      rw [hWriting] at hStep
      cases hStep
    | cons d ds =>
      rw [hWriting] at hStep
      cases hStep
      exact h.write hWriting st
  | close ss =>
    obtain ⟨⟨hUp, hOff, _⟩, hEq⟩ := Option.ite_none_right_eq_some.mp hStep
    cases hEq
    obtain ⟨hFormed, hOut⟩ := h.close hUp hOff ss st
    exact ⟨hFormed, .close ss hOff hUp rfl hOut⟩
  | take ch =>
    obtain ⟨db, hTake, hEq⟩ := Option.map_eq_some_iff.mp hStep
    cases hEq
    have hPerm := Database.pending_take hTake
    exact ⟨hKeep db fun c hc => hPerm.mem_iff.mp hc,
      .calm _ (Database.take_store hTake) rfl (hPerm.append_left _)⟩
  | exec ch m =>
    obtain ⟨db, hExec, hEq⟩ := Option.map_eq_some_iff.mp hStep
    cases hEq
    obtain ⟨c, _, hStore, hPerm⟩ := Database.pending_execHeld hExec
    refine ⟨hKeep db fun c' hc => hPerm.mem_iff.mpr (List.mem_cons_of_mem c hc), .exec ch m c hStore ?_⟩
    exact (hPerm.append_left _).trans List.perm_middle
  | crash =>
    obtain ⟨_, hEq⟩ := Option.ite_none_right_eq_some.mp hStep
    cases hEq
    exact ⟨formed_down, .crash rfl rfl⟩

/-- A process that has registered does not do so again while it runs. -/
theorem step_serves (hStep : p.step C consumers nodeid st a = some (st', p')) (hServes : a.serves = true)
    (hUp : p.up = true) (hDone : ∀ ds, p.cleaning ≠ .registering ds) :
    p'.up = true ∧ ∀ ds, p'.cleaning ≠ .registering ds := by
  cases a with
  | restart timestamp13 =>
    obtain ⟨hDown, _⟩ := Option.ite_none_left_eq_some.mp hStep
    exact absurd hUp hDown
  | close | crash => cases hServes
  | clean =>
    simp only [Process.step] at hStep
    match hCleaning : p.cleaning with
    | .off =>
      rw [hCleaning] at hStep
      cases hStep
    | .registering ds => exact absurd hCleaning (hDone ds)
    | .deleting [] | .deleting (d :: ds) =>
      rw [hCleaning] at hStep
      cases hStep
      exact ⟨hUp, fun _ hReg => by cases hReg⟩
  | login x ss =>
    obtain ⟨_, hEq⟩ := Option.ite_none_right_eq_some.mp hStep
    obtain ⟨j, _, hLogin⟩ := Option.map_eq_some_iff.mp hEq
    cases hLogin
    exact ⟨hUp, hDone⟩
  | write x =>
    simp only [Process.step] at hStep
    split at hStep
    · cases hStep
    · cases hStep
      exact ⟨hUp, hDone⟩
  | take ch =>
    obtain ⟨db, _, hEq⟩ := Option.map_eq_some_iff.mp hStep
    cases hEq
    exact ⟨hUp, hDone⟩
  | exec ch m =>
    obtain ⟨db, _, hEq⟩ := Option.map_eq_some_iff.mp hStep
    cases hEq
    exact ⟨hUp, hDone⟩

/-- A step removes an entry, or a login writes it. -/
theorem Effect.get (h : Formed p) (hEffect : Effect nodeid st p st' p' a) {key : Bytes}
    (hKey : is4s key = true) :
    Redis.get st' key = Redis.get st key ∨ Redis.get st' key = none ∨ key ∈ p.logged a := by
  cases hEffect with
  | calm _ hStore | restart _ _ hStore | read _ hStore | close _ _ _ hStore | crash hStore =>
    rw [hStore]
    exact .inl rfl
  | index x k field value hOther hLogged hStore =>
    rw [hStore]
    have hRemoves : Removes (.hset k field value) := hOther
    rcases get_of_removes hRemoves hKey st with hSame | ⟨_, hNone⟩
    · exact .inl hSame
    · exact .inr (.inl hNone)
  | store x k value hLogged hStore =>
    rcases eq_or_ne key k with rfl | hne
    · rw [hLogged]
      exact .inr (.inr List.mem_cons_self)
    · rw [hStore]
      exact .inl (Redis.get_exec_of_ne hne)
  | exec ch m c hStore hOut =>
    rw [hStore]
    have hRemoves := h.removes c (hOut.mem_iff.mpr List.mem_cons_self)
    rcases get_of_removes hRemoves hKey st with hSame | ⟨_, hNone⟩
    · exact .inl hSame
    · exact .inr (.inl hNone)

/-- While it serves, a process has no further removals, and drops one by executing it. -/
theorem Effect.outstanding (hEffect : Effect nodeid st p st' p' a) (hServes : a.serves = true)
    (hUp : p.up = true) (hDone : ∀ ds, p.cleaning ≠ .registering ds) (key : Bytes) :
    (.del key ∈ p'.outstanding → .del key ∈ p.outstanding) ∧
      (.del key ∈ p.outstanding → .del key ∈ p'.outstanding ∨ Redis.get st' key = none) := by
  cases hEffect with
  | calm _ _ _ hOut => exact ⟨hOut.mem_iff.mp, fun hDel => .inl (hOut.mem_iff.mpr hDel)⟩
  | restart _ hDown => cases hUp.symm.trans hDown
  | read hReady => exact absurd hReady (hDone [])
  | index _ _ _ _ _ _ _ hOut | store _ _ _ _ _ hOut =>
    rw [hOut]
    exact ⟨id, .inl⟩
  | close | crash => cases hServes
  | exec ch m c hStore hOut =>
    refine ⟨fun hDel => hOut.mem_iff.mpr (List.mem_cons_of_mem c hDel), ?_⟩
    intro hDel
    rcases List.mem_cons.mp (hOut.mem_iff.mp hDel) with rfl | hRest
    · refine .inr ?_
      rw [hStore]
      have hNone : Redis.exec st (.del key) key = none := Redis.exec_key st (.del key)
      rw [Redis.get, hNone]
    · exact .inl hRest

end Process

end Process

/-! ## The cleaning of one node -/

section Cleaning

variable {ι : Type} [DecidableEq ι] {C : Codec} {consumers : Nat} {nodeid : ι → Bytes}
variable {s t u : State ι} {a : ι × Act} {n : ι} {written : List Bytes}

def entryAt (C : Codec) (st : Store) (key : Bytes) : Option SessionStatus :=
  (Redis.get st key).map C.unmarshalStatus

def Listed (st : Store) (nodeid key : Bytes) : Prop :=
  key ∈ (Redis.hkeys st (indexKey nodeid)).getD []

/-- The index of the node lists exactly the entries that name the node. -/
def Agree (C : Codec) (st : Store) (nodeid : Bytes) : Prop :=
  ∀ key, is4s key = true → ∀ ss ∈ entryAt C st key, ss.nodeid = nodeid ↔ Listed st nodeid key

/-- No login writes an entry whose removal by node `n` is yet to be executed. -/
def Waits (n : ι) (s : State ι) (a : ι × Act) : Prop :=
  ∀ key ∈ logged s a, .del key ∉ (s.nodes n).outstanding

instance {ι : Type} (n : ι) (s : State ι) (a : ι × Act) : Decidable (Waits n s a) :=
  inferInstanceAs (Decidable (∀ key ∈ logged s a, .del key ∉ (s.nodes n).outstanding))

theorem step_formed (h : ∀ i, (s.nodes i).Formed) (hNodes : ∀ i, is4s (indexKey (nodeid i)) = false)
    (hStep : step C consumers nodeid s a = some t) : ∀ i, (t.nodes i).Formed := by
  obtain ⟨⟨st, p⟩, hProcess, rfl⟩ := Option.map_eq_some_iff.mp hStep
  intro i
  rcases eq_or_ne i a.1 with rfl | hne
  · simp only [Function.update_self]
    exact ((h a.1).step (hNodes a.1) hProcess).1
  · simp only [Function.update_of_ne hne]
    exact h i

theorem run_formed (hNodes : ∀ i, is4s (indexKey (nodeid i)) = false) {st : Store}
    {history : List (ι × Act)}
    (hRun : run (step C consumers nodeid) (start ι st) history = some s) : ∀ i, (s.nodes i).Formed :=
  run_induction (P := fun _ s => ∀ i, (s.nodes i).Formed) (fun _ => Process.formed_down)
    (fun _ _ _ _ _ h hStep => step_formed h hNodes hStep) hRun

/-- Between the look at the index in `s` and `t`, in which logins wrote to the keys `written`. -/
structure Cleans (nodeid : ι → Bytes) (n : ι) (s t : State ι) (written : List Bytes) : Prop where
  formed : ∀ i, (t.nodes i).Formed
  up : (t.nodes n).up = true
  done : ∀ ds, (t.nodes n).cleaning ≠ .registering ds
  deletes : ∀ key, is4s key = true → .del key ∈ (t.nodes n).outstanding →
    Listed s.store (nodeid n) key ∧ key ∉ written ∧
      (Redis.get t.store key = Redis.get s.store key ∨ Redis.get t.store key = none)
  owed : ∀ key, is4s key = true → Listed s.store (nodeid n) key →
    .del key ∈ (t.nodes n).outstanding ∨ Redis.get t.store key = none ∨ key ∈ written

theorem del_mem_deleteByIdx {st : Store} {nodeid key : Bytes} (hNode : is4s (indexKey nodeid) = false)
    (hKey : is4s key = true) :
    .del key ∈ (deleteByIdx st nodeid).map Dispatch.cmd ↔ Listed st nodeid key := by
  have hIndex : key ≠ indexKey nodeid := by
    rintro rfl
    cases hKey.symm.trans hNode
  unfold deleteByIdx Listed
  cases Redis.hkeys st (indexKey nodeid) with
  | none => simp
  | some ids => simp [delete, Dispatch.cmd, hIndex]

theorem cleans_read (h : ∀ i, (s.nodes i).Formed) (hNodes : ∀ i, is4s (indexKey (nodeid i)) = false)
    (hReady : (s.nodes n).cleaning = .registering [])
    (hStep : step C consumers nodeid s (n, .clean) = some t) : Cleans nodeid n s t [] := by
  have hFormed := step_formed h hNodes hStep
  obtain ⟨hStore, hNode⟩ : t.store = s.store ∧
      t.nodes n = { s.nodes n with cleaning := .deleting (deleteByIdx s.store (nodeid n)) } := by
    obtain ⟨r, hProcess, rfl⟩ := Option.map_eq_some_iff.mp hStep
    simp only [Process.step, hReady] at hProcess
    cases hProcess
    exact ⟨rfl, Function.update_self ..⟩
  have hUp : (s.nodes n).up = true := by
    cases hDown : (s.nodes n).up with
    | true => rfl
    | false => cases hReady.symm.trans ((h n).down hDown).2
  have hOut := ((h n).read hReady (nodeid n) s.store).2
  have hDel : ∀ key, is4s key = true →
      (.del key ∈ (t.nodes n).outstanding ↔ Listed s.store (nodeid n) key) := by
    intro key hKey
    rw [hNode, hOut, List.mem_append, del_mem_deleteByIdx (hNodes n) hKey,
      or_iff_left ((h n).fresh [] hReady key)]
  refine ⟨hFormed, ?_, ?_, ?_, ?_⟩
  · rw [hNode]
    exact hUp
  · rw [hNode]
    exact fun _ hReg => by cases hReg
  · intro key hKey hMem
    refine ⟨(hDel key hKey).mp hMem, List.not_mem_nil, .inl ?_⟩
    rw [hStore]
  · exact fun key hKey hListed => .inl ((hDel key hKey).mpr hListed)

theorem Cleans.step (h : Cleans nodeid n s t written)
    (hNodes : ∀ i, is4s (indexKey (nodeid i)) = false) (hServes : a.1 = n → a.2.serves = true)
    (hWaits : Waits n t a) (hStep : step C consumers nodeid t a = some u) :
    Cleans nodeid n s u (written ++ logged t a) := by
  have hFormed := step_formed h.formed hNodes hStep
  obtain ⟨⟨st, p⟩, hProcess, rfl⟩ := Option.map_eq_some_iff.mp hStep
  obtain ⟨_, hEffect⟩ := (h.formed a.1).step (hNodes a.1) hProcess
  have hGet : ∀ key, is4s key = true → Redis.get st key = Redis.get t.store key ∨
      Redis.get st key = none ∨ key ∈ logged t a := fun key hKey => hEffect.get (h.formed a.1) hKey
  have hNode : ((Function.update t.nodes a.1 p n).up = true ∧
        ∀ ds, (Function.update t.nodes a.1 p n).cleaning ≠ .registering ds) ∧
      ∀ key, (.del key ∈ (Function.update t.nodes a.1 p n).outstanding →
          .del key ∈ (t.nodes n).outstanding) ∧
        (.del key ∈ (t.nodes n).outstanding →
          .del key ∈ (Function.update t.nodes a.1 p n).outstanding ∨ Redis.get st key = none) := by
    rcases eq_or_ne n a.1 with rfl | hne
    · rw [Function.update_self]
      exact ⟨Process.step_serves hProcess (hServes rfl) h.up h.done,
        hEffect.outstanding (hServes rfl) h.up h.done⟩
    · rw [Function.update_of_ne hne]
      exact ⟨⟨h.up, h.done⟩, fun key => ⟨id, .inl⟩⟩
  obtain ⟨⟨hUp, hDone⟩, hOut⟩ := hNode
  refine ⟨hFormed, hUp, hDone, ?_, ?_⟩
  · intro key hKey hDel
    have hOld := (hOut key).1 hDel
    obtain ⟨hListed, hWritten, hSame⟩ := h.deletes key hKey hOld
    have hLogged : key ∉ logged t a := fun hMem => hWaits key hMem hOld
    refine ⟨hListed, fun hMem => (List.mem_append.mp hMem).elim hWritten hLogged, ?_⟩
    rcases hGet key hKey with hEq | hNone | hMem
    · change Redis.get st key = _ ∨ Redis.get st key = none
      rwa [hEq]
    · exact .inr hNone
    · exact absurd hMem hLogged
  · intro key hKey hListed
    rcases h.owed key hKey hListed with hDel | hNone | hMem
    · rcases (hOut key).2 hDel with hStill | hGone
      · exact .inl hStill
      · exact .inr (.inl hGone)
    · rcases hGet key hKey with hEq | hGone | hMem
      · exact .inr (.inl (hEq.trans hNone))
      · exact .inr (.inl hGone)
      · exact .inr (.inr (List.mem_append_right _ hMem))
    · exact .inr (.inr (List.mem_append_left _ hMem))

theorem cleans_run {s' : State ι} {moves : List (ι × Act)} (h : Cleans nodeid n s s' written)
    (hNodes : ∀ i, is4s (indexKey (nodeid i)) = false)
    (hServes : ∀ a ∈ moves, a.1 = n → a.2.serves = true)
    (hWaits : Guarded (Ghost.step C consumers nodeid) (Waits n) s' moves)
    (hRun : run (Ghost.step C consumers nodeid) s' moves = some t) :
    Cleans nodeid n s t (written ++ collect (Ghost.step C consumers nodeid) logged s' moves) := by
  induction moves generalizing s' written with
  | nil =>
    cases hRun
    rwa [collect, List.append_nil]
  | cons a moves ih =>
    obtain ⟨u, hStep, hRest⟩ := run_cons_iff.mp hRun
    have hNext := h.step hNodes (hServes a List.mem_cons_self) hWaits.1 hStep
    have hAll := ih hNext (fun b hb => hServes b (List.mem_cons_of_mem a hb)) (hWaits.2 u hStep) hRest
    rw [collect, hStep, ← List.append_assoc]
    exact hAll

end Cleaning

def twoIds (i : Fin 2) : Bytes := if i = 0 then text "n1" else text "n2"

def bound (i : Fin 2) (jid : String) : SessionStatus where
  sid := text "s" ++ twoIds i
  jid := text jid
  status := .login
  nodeid := twoIds i
  channel := twoIds i ++ text ":4281"
  ct := 1

def login (i : Fin 2) (jid : String) : List (Fin 2 × Act) :=
  [(i, .login (text jid) (bound i jid)), (i, .write (text jid)), (i, .write (text jid))]

def boot (i : Fin 2) : List (Fin 2 × Act) :=
  [(i, .restart (text "1500000000000")), (i, .clean), (i, .clean)]

def drain (i : Fin 2) (ch : Chan) : List (Fin 2 × Act) := [(i, .take ch), (i, .exec ch 0)]

def bothUp : List (Fin 2 × Act) :=
  boot 0 ++ [(0, .clean), (0, .clean), (0, .clean)] ++ boot 1 ++ [(1, .clean), (1, .clean), (1, .clean)]

/-- The index of node 0 lists one session, and `cleanGhostSession` returns. -/
def sweep : List (Fin 2 × Act) := [(0, .clean), (0, .clean), (0, .clean)]

def drainAll : List (Fin 2 × Act) :=
  drain 0 .session ++ drain 0 .message ++ drain 0 .message ++ drain 0 .message

/-- Bob moved to node 1 while node 0 was down; node 0 removes the entry that node 1 wrote. It
also removes the entry of a login of its own that comes before the queued removal. -/
theorem moved_session_removed : ∃ s,
    let moves := bothUp ++ login 0 "bob@x" ++ [(0, .crash)] ++ login 1 "bob@x" ++ boot 0
    run (step PlainJson.codec 20 twoIds) (start (Fin 2) fun _ => none) moves = some s ∧
    (s.nodes 0).cleaning = .registering [] ∧
    (∃ ss ∈ entryAt PlainJson.codec s.store (text "session_bob@x"), ss.nodeid = twoIds 1) ∧
    ∃ s' ∈ step PlainJson.codec 20 twoIds s (0, .clean),
      (collect (step PlainJson.codec 20 twoIds) logged s' (sweep ++ drainAll) = [] ∧
        ∃ t ∈ run (step PlainJson.codec 20 twoIds) s' (sweep ++ drainAll),
          entryAt PlainJson.codec t.store (text "session_bob@x") = none) ∧
      text "session_bob@x" ∈ collect (step PlainJson.codec 20 twoIds) logged s'
        (sweep ++ login 0 "bob@x" ++ drainAll) ∧
      ∃ t ∈ run (step PlainJson.codec 20 twoIds) s' (sweep ++ login 0 "bob@x" ++ drainAll),
        entryAt PlainJson.codec t.store (text "session_bob@x") = none :=
  exists_run (by decide +kernel)

/-- A node that restarts removes the entries that name it and no others, if its index lists
exactly these when it is read, and no login writes such an entry before its removal. -/
theorem ghosts_removed (C : Codec) (consumers : Nat) {ι : Type} [DecidableEq ι] {nodeid : ι → Bytes}
    (hNodes : ∀ i, is4s (indexKey (nodeid i)) = false) {st : Store} {history moves : List (ι × Act)}
    {n : ι} {s s' t : State ι}
    (hHistory : run (step C consumers nodeid) (start ι st) history = some s)
    (hReady : (s.nodes n).cleaning = .registering []) (hAgree : Agree C s.store (nodeid n))
    (hRead : step C consumers nodeid s (n, .clean) = some s')
    (hRun : run (step C consumers nodeid) s' moves = some t)
    (hServes : ∀ a ∈ moves, a.1 = n → a.2.serves = true)
    (hWaits : Guarded (step C consumers nodeid) (Waits n) s' moves) :
    let written := collect (step C consumers nodeid) logged s' moves
    (∀ ch, ∀ key, is4s key = true → .del key ∈ (t.nodes n).held ch → key ∉ written ∧
      ∀ ss ∈ entryAt C t.store key, ss.nodeid = nodeid n) ∧
    ((t.nodes n).outstanding = [] → ∀ key, is4s key = true → ∀ ss ∈ entryAt C s.store key,
      ss.nodeid = nodeid n → entryAt C t.store key = none ∨ key ∈ written) := by
  intro written
  have hFormed := run_formed hNodes hHistory
  have hCleans : Cleans nodeid n s t written :=
    cleans_run (cleans_read hFormed hNodes hReady hRead) hNodes hServes hWaits hRun
  constructor
  · intro ch key hKey hHeld
    obtain ⟨hListed, hWritten, hSame⟩ := hCleans.deletes key hKey (Process.mem_outstanding_of_held hHeld)
    refine ⟨hWritten, fun ss hss => ?_⟩
    rcases hSame with hSame | hNone
    · rw [entryAt, hSame] at hss
      exact (hAgree key hKey ss hss).mpr hListed
    · rw [entryAt, hNone] at hss
      cases hss
  · intro hDrained key hKey ss hss hOwn
    rcases hCleans.owed key hKey ((hAgree key hKey ss hss).mp hOwn) with hDel | hNone | hMem
    · rw [hDrained] at hDel
      cases hDel
    · rw [entryAt, hNone]
      exact .inl rfl
    · exact .inr hMem


def logins : List Cmd :=
  let value i jid := PlainJson.codec.marshalStatus (bound i jid)
  [.hset (text "n1_idx") (text "session_bob@x") (value 0 "bob@x"),
    .set (text "session_bob@x") (value 0 "bob@x"),
    .hset (text "n2_idx") (text "session_alice@x") (value 1 "alice@x"),
    .set (text "session_alice@x") (value 1 "alice@x")]

theorem agree_logins : Agree PlainJson.codec (Redis.execAll (fun _ => none) logins) (twoIds 0) := by
  have hOthers : ∀ c ∈ logins, is4s c.key = true →
      ∀ ss ∈ entryAt PlainJson.codec (Redis.execAll (fun _ => none) logins) c.key,
        ss.nodeid = twoIds 0 ↔
          c.key ∈ (Redis.hkeys (Redis.execAll (fun _ => none) logins) (indexKey (twoIds 0))).getD [] := by
    decide +kernel
  intro key hKey ss hss
  by_cases hMem : ∃ c ∈ logins, key = c.key
  · obtain ⟨c, hc, rfl⟩ := hMem
    exact hOthers c hc hKey ss hss
  · have hNone : Redis.execAll (fun _ => none) logins key = none :=
      Redis.execAll_of_forall_ne _ logins fun c hc hEq => hMem ⟨c, hc, hEq⟩
    rw [entryAt, Redis.get, hNone] at hss
    cases hss

theorem ghosts_removed_bob : ∃ s s' t,
    let moves := sweep ++ drainAll ++ login 1 "bob@x"
    run (step PlainJson.codec 20 twoIds) (start (Fin 2) fun _ => none)
      (bothUp ++ login 0 "bob@x" ++ login 1 "alice@x" ++ [(0, .crash)] ++ boot 0) = some s ∧
    step PlainJson.codec 20 twoIds s (0, .clean) = some s' ∧
    run (step PlainJson.codec 20 twoIds) s' moves = some t ∧ (t.nodes 0).outstanding = [] ∧
    ∀ key, is4s key = true → ∀ ss ∈ entryAt PlainJson.codec s.store key, ss.nodeid = twoIds 0 →
      entryAt PlainJson.codec t.store key = none ∨
        key ∈ collect (step PlainJson.codec 20 twoIds) logged s' moves := by
  have hExists : ∃ s, run (step PlainJson.codec 20 twoIds) (start (Fin 2) fun _ => none)
      (bothUp ++ login 0 "bob@x" ++ login 1 "alice@x" ++ [(0, .crash)] ++ boot 0) = some s ∧
      (s.nodes 0).cleaning = .registering [] ∧
      ∃ s' ∈ step PlainJson.codec 20 twoIds s (0, .clean),
        Guarded (step PlainJson.codec 20 twoIds) (Waits 0) s' (sweep ++ drainAll ++ login 1 "bob@x") ∧
        ∃ t ∈ run (step PlainJson.codec 20 twoIds) s' (sweep ++ drainAll ++ login 1 "bob@x"),
          (t.nodes 0).outstanding = [] :=
    exists_run (by decide +kernel)
  obtain ⟨s, hHistory, hReady, s', hRead, hWaits, t, hRun, hDrained⟩ := hExists
  have hStore : some s.store = some (Redis.execAll (fun _ => none) logins) :=
    (congrArg (Option.map State.store) hHistory).symm.trans rfl
  have hAgree : Agree PlainJson.codec s.store (twoIds 0) := by
    rw [Option.some.inj hStore]
    exact agree_logins
  have hServes : ∀ a ∈ sweep ++ drainAll ++ login 1 "bob@x", a.1 = 0 → a.2.serves = true := by
    decide +kernel
  refine ⟨s, s', t, hHistory, hRead, hRun, hDrained, ?_⟩
  exact (ghosts_removed PlainJson.codec 20 (by decide +kernel) hHistory hReady hAgree hRead hRun hServes
    hWaits).2 hDrained

/-! ## The node takes the steps of a process

A node that has cleaned up and only handles logins is such a process, seen through what its
goroutines are about to write and the queues of its database.
-/

section Refinement

open Concurrent (View LoginStep Valid Pc System Action LoginsOnly)

variable {C : Codec} {consumers : Nat} {v v' : View} {a : Action}

def writes : Pc → List Dispatch
  | .storing ds _ => ds
  | _ => []

def serving (v : View) : Process where
  up := true
  queue := v.db.queue
  held := v.db.held
  writing := writes ∘ v.pc
  cleaning := .off

def alone (C : Codec) (consumers : Nat) (nodeid : Bytes) (r : Store × Process) (a : Act) :
    Option (Store × Process) := r.2.step C consumers nodeid r.1 a

theorem writes_update (pc : Bytes → Pc) (x : Bytes) (pc' : Pc) :
    writes ∘ Function.update pc x pc' = Function.update (writes ∘ pc) x (writes pc') :=
  Function.comp_update ..

theorem step_close (hValid : Valid C v) {x : Bytes} {st : SessionStatus} (hStatus : v.status x = some st) :
    (serving v).step C consumers v.nodeid v.db.store (.close st) =
      some (v.db.store, serving (v.closed x st)) :=
  if_pos ⟨rfl, rfl, (hValid.own x st hStatus).2.1⟩

theorem step_publish (hValid : Valid C v) {x : Bytes} {reply : Packet} {st : SessionStatus} {jid : JID}
    (hPc : v.pc x = .publish reply) (hStatus : v.status x = some st) (hJid : newJID st.jid = .ok jid) :
    (serving v).step C consumers v.nodeid v.db.store (.login x st) = some (v.db.store,
      serving (v.setPc x (.storing (putExWithIdx st.nodeid jid.toSessionid (C.marshalStatus st) (-1))
        reply))) := by
  have hFree : (serving v).writing x = [] := congrArg writes hPc
  refine (if_pos ⟨rfl, rfl, hFree, (hValid.own x st hStatus).2.1⟩).trans ?_
  simp only [hJid, serving, View.setPc, writes_update, writes]
  rfl

theorem step_store {x : Bytes} {d : Dispatch} {ds ds' : List Dispatch} {reply : Packet} {db : Database}
    (hPc : v.pc x = .storing (d :: ds) reply) (hIssue : issue v.db d ds = (db, ds')) :
    (serving v).step C consumers v.nodeid v.db.store (.write x) =
      some (db.store, serving { v.setPc x (.storing ds' reply) with db := db }) := by
  have hWriting : (serving v).writing x = d :: ds := congrArg writes hPc
  have hSame : issue ((serving v).db v.db.store) d ds = (db, ds') := hIssue
  simp only [Process.step, hWriting, hSame]
  simp only [serving, View.setPc, writes_update, writes]
  rfl

theorem loginStep_nodeid (h : LoginStep C v a v') : v'.nodeid = v.nodeid := by
  cases h <;> rfl

theorem serving_step (hValid : Valid C v) (hStep : LoginStep C v a v')
    (hTake : ∀ ch, a = .dtake ch → ∃ db, v.db.take consumers ch = some db ∧ v' = { v with db := db }) :
    ∃ as, run (alone C consumers v.nodeid) (v.db.store, serving v) as = some (v'.db.store, serving v') := by
  have hOne : ∀ a, (serving v).step C consumers v.nodeid v.db.store a = some (v'.db.store, serving v') →
      ∃ as, run (alone C consumers v.nodeid) (v.db.store, serving v) as =
        some (v'.db.store, serving v') :=
    fun a h => ⟨[a], run_cons_iff.mpr ⟨_, h, rfl⟩⟩
  have hNone : v'.db = v.db → writes ∘ v'.pc = writes ∘ v.pc → ∃ as, run (alone C consumers v.nodeid)
      (v.db.store, serving v) as = some (v'.db.store, serving v') := by
    intro hDb hPc
    refine ⟨[], ?_⟩
    simp only [run_nil, serving, hDb, hPc]
  have hSkip : ∀ x pc, writes (v.pc x) = [] → writes pc = [] →
      writes ∘ Function.update v.pc x pc = writes ∘ v.pc := by
    intro x pc hOld hNew
    rw [writes_update, hNew]
    exact Function.update_eq_self_iff.mpr hOld.symm
  cases hStep with
  | crash | closeAgain | connect | register | clean | take | find | drop | killClosed =>
    exact hNone rfl rfl
  | look x i st packet jid _ _ hPc =>
    refine hNone rfl (hSkip x _ (congrArg writes hPc) ?_)
    split <;> rfl
  | refuse x i st _ _ hPc => exact hNone rfl (hSkip x _ (congrArg writes hPc) rfl)
  | routeKill x env packet jid ss hPc | routerFull x env packet jid ss hPc | auth x env packet jid hPc
  | reject x env packet jid st hPc | logon x env packet st hPc | fetch x env packet reply hPc
  | answer x env reply hPc => exact hNone rfl (hSkip x _ (congrArg writes hPc) rfl)
  | publish x env reply st jid hPc hStatus hJid => exact hOne _ (step_publish hValid hPc hStatus hJid)
  | store x env d ds reply db hPc hSend =>
    refine hOne _ (step_store hPc ?_)
    rw [issue, hSend]
  | storeFails x env d ds reply hPc hSend =>
    refine hOne _ (step_store hPc ?_)
    rw [issue, hSend]
    rfl
  | close x env st hStatus =>
    refine hOne _ ((step_close hValid hStatus).trans ?_)
    rw [View.closed, dropEntry_store]
  | kill w env it st _ hStatus =>
    refine hOne _ ((step_close hValid hStatus).trans ?_)
    rw [View.setHand, View.closed, dropEntry_store]
    rfl
  | dtake ch m db =>
    obtain ⟨db', hTaken, hEq⟩ := hTake ch rfl
    cases congrArg View.db hEq
    refine hOne (.take ch) ?_
    have hDb : ((serving v).db v.db.store).take consumers ch = some db := hTaken
    simp only [Process.step, hDb]
    rfl
  | dexec ch i db hExec =>
    refine hOne (.exec ch i) ?_
    have hDb : ((serving v).db v.db.store).execHeld ch i = some db := hExec
    simp only [Process.step, hDb]
    rfl

/-- The runs of a node that handles logins only are runs of a process that has cleaned up. -/
theorem serving_run {nodeid channel : Bytes} {st : Store} {t : System} {as : List Action}
    (hRun : run (Concurrent.step C consumers) (Concurrent.start nodeid channel st) as = some t)
    (hOnly : Guarded (Concurrent.step C consumers) LoginsOnly (Concurrent.start nodeid channel st) as) :
    ∃ bs, run (alone C consumers nodeid) (st, { Process.down with up := true }) bs =
      some (t.view.db.store, serving t.view) := by
  have hAll : Concurrent.Buffers t.node ∧ Valid C t.view ∧ t.view.nodeid = nodeid ∧
      ∃ bs, run (alone C consumers nodeid) (st, { Process.down with up := true }) bs =
        some (t.view.db.store, serving t.view) := by
    refine guarded_induction (P := fun _ t => Concurrent.Buffers t.node ∧ Valid C t.view ∧
      t.view.nodeid = nodeid ∧ ∃ bs, run (alone C consumers nodeid)
        (st, { Process.down with up := true }) bs = some (t.view.db.store, serving t.view)) ?_ ?_ hRun hOnly
    · exact ⟨Concurrent.buffers_start nodeid channel st, Concurrent.valid_start .., rfl, [], rfl⟩
    · rintro _ s a t _ _ ⟨hBuff, hValid, hNodeid, bs, hRun⟩ hLogins hStep
      obtain ⟨hBuff', hLogin⟩ := Concurrent.login_step hBuff hValid hLogins hStep
      have hTake : ∀ ch, a = .dtake ch → ∃ db, s.view.db.take consumers ch = some db ∧
          t.view = { s.view with db := db } := by
        rintro ch rfl
        cases Concurrent.stepped_of_step C hStep with
        | dtake _ db hTaken => exact ⟨db, hTaken, rfl⟩
      obtain ⟨cs, hRest⟩ := serving_step hValid hLogin hTake
      rw [hNodeid] at hRest
      refine ⟨hBuff', Concurrent.valid_step hValid hLogin, (loginStep_nodeid hLogin).trans hNodeid,
        bs ++ cs, ?_⟩
      rw [run_append, hRun, Option.bind_some, hRest]
  exact hAll.2.2.2

end Refinement

end Sara.Ghost
