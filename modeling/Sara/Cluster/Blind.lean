import Sara.Cluster.System

/-! # What no function looks at

The messages a node has published are written by one step of a worker and read by none
of the functions of a node. So a node does the same whatever has become of them, and a
worker the same whatever the others hold.
-/

namespace Sara

open Lib Lib.Prog Saradb

set_option autoImplicit false

def Node.setPublished (n : Node) (published : List (Bytes × Packet)) : Node :=
  { n with published := published }

/-- The program does not look at what was published. -/
def Blind {α : Type} (m : Prog Node α) : Prop :=
  ∀ published, Commutes (fun n : Node => n.setPublished published) m

section Functions

variable {C : Codec}

theorem Blind.bind {α β : Type} {m : Prog Node α} {f : α → Prog Node β} (hm : Blind m)
    (hf : ∀ a, Blind (f a)) : Blind (m >>= f) :=
  fun published => (hm published).bind fun a => hf a published

theorem blind_pure {α : Type} (a : α) : Blind (pure a : Prog Node α) := fun _ => .pure a

theorem blind_deref {α ε : Type} (r : Except ε α) : Blind (deref r) := fun _ => .deref r

theorem blind_read {α : Type} {f : Node → α} (hf : ∀ n published, f (n.setPublished published) = f n) :
    Blind (read f) :=
  fun published => .read fun n => hf n published

theorem blind_modify {f : Node → Node}
    (hf : ∀ n published, f (n.setPublished published) = (f n).setPublished published) :
    Blind (modify f) :=
  fun published => .modify fun n => hf n published

theorem blind_forM {α : Type} {f : α → Prog Node PUnit} (hf : ∀ a, Blind (f a)) (l : List α) :
    Blind (l.forM f) :=
  fun published => .forM (fun a => hf a published) l

theorem blind_session (x : Bytes) : Blind (Node.session x) := by
  intro published n
  unfold Node.session
  simp only [Node.setPublished]
  cases n.sessions x with
  | none => rfl
  | some s => rfl

theorem blind_route (item : RouterItem) : Blind (modify fun n => n.route item) := by
  refine blind_modify fun n published => ?_
  have hRouter : (n.setPublished published).router = n.router := rfl
  unfold Node.route
  rw [hRouter]
  by_cases hRoom : n.router.length < routerQueueSize
  · rw [if_pos hRoom, if_pos hRoom]
    rfl
  · rw [if_neg hRoom, if_neg hRoom]

theorem blind_send (ds : List Dispatch) : Blind (modify fun n => n.send ds) :=
  blind_modify fun _ _ => rfl

theorem blind_updateSession (x : Bytes) (f : Session → Session) :
    Blind (modify fun n => n.updateSession x f) :=
  blind_modify fun _ _ => rfl

theorem blind_get (key : Bytes) : Blind (read fun n => n.get key) := blind_read fun _ _ => rfl

theorem blind_storePacket (p : Packet) : Blind (storePacket C p) :=
  (blind_deref _).bind fun _ => blind_send _

theorem blind_closeSession (x : Bytes) (env : Env) : Blind (closeSession C x env) := by
  have hBuffer : ∀ buff, Blind (do
      modify fun n => n.updateSession x fun s =>
        { s with status := { s.status with status := .close }, connClosed := true }
      pkgBuffToStore C env buff) :=
    fun buff => (blind_updateSession x _).bind fun _ => blind_forM blind_storePacket _
  refine (blind_session x).bind fun s => ?_
  split
  · exact blind_pure _
  refine (blind_modify fun _ _ => rfl).bind fun _ => ?_
  split
  · exact (blind_deref _).bind fun j => (blind_send _).bind fun _ => hBuffer _
  · exact hBuffer _

theorem blind_sendMessage (x : Bytes) (data : Written) : Blind (sendMessage x data) :=
  blind_updateSession x _

theorem blind_refuse (x id reason : Bytes) (env : Env) : Blind (refuse C x id reason env) :=
  (blind_sendMessage x _).bind fun _ => blind_closeSession x env

theorem blind_kill (x : Bytes) (env : Env) : Blind (kill C x env) :=
  (blind_sendMessage x _).bind fun _ => blind_closeSession x env

theorem blind_verifyGet (x frame : Bytes) (env : Env) : Blind (verifyGet C x frame env) := by
  unfold verifyGet
  split
  · exact (blind_refuse x _ _ env).bind fun _ => blind_pure _
  · split
    · exact (blind_refuse x _ _ env).bind fun _ => blind_pure _
    · split
      · exact (blind_refuse x _ _ env).bind fun _ => blind_pure _
      · exact (blind_get _).bind fun _ => blind_pure _

theorem blind_verifyAuth (x : Bytes) (packet : Packet) (jid : JID) (env : Env) :
    Blind (verifyAuth C x packet jid env) := by
  unfold verifyAuth
  split
  · exact blind_pure _
  · exact (blind_refuse x _ _ env).bind fun _ => blind_pure _

theorem blind_loginReply (x : Bytes) (packet : Packet) : Blind (loginReply C x packet) := by
  have hFetch : Blind (fetchOfflinePacket C x) :=
    (blind_session x).bind fun _ => (blind_deref _).bind fun _ => blind_read fun _ _ => rfl
  refine hFetch.bind fun found => ?_
  cases found with
  | none => exact blind_pure _
  | some ofl_pks =>
    simp only
    split
    · exact (blind_modify fun _ _ => rfl).bind fun _ => blind_pure _
    · exact blind_pure _

theorem blind_statusWrites (x : Bytes) : Blind (statusWrites C x) :=
  (blind_session x).bind fun _ => (blind_deref _).bind fun _ => blind_pure _

theorem blind_equalWithoutResource (jid : JID) (str : Bytes) : Blind (equalWithoutResource jid str) :=
  (blind_deref _).bind fun _ => blind_pure _

theorem blind_routeDecide (x : Bytes) (packet : Packet) : Blind (routeDecide C x packet) := by
  refine (blind_session x).bind fun s => ?_
  split
  · exact blind_pure _
  refine (blind_deref _).bind fun jid => (blind_equalWithoutResource _ _).bind fun toMe => ?_
  split
  · exact blind_pure _
  refine (blind_equalWithoutResource _ _).bind fun fromMe => ?_
  split
  · split
    · exact blind_pure _
    · refine (blind_get _).bind fun found => ?_
      cases found with
      | none => exact blind_pure _
      | some ssb => exact blind_pure _
  · exact blind_pure _

theorem blind_routeAct (x : Bytes) (packet : Packet) (d : Decision) : Blind (routeAct C x packet d) := by
  cases d with
  | ignore => exact blind_pure _
  | toMe => exact (blind_updateSession x _).bind fun _ => blind_sendMessage x _
  | notify e => exact blind_sendMessage x _
  | route ss => exact blind_route _
  | store => exact blind_storePacket packet

theorem blind_serverAck (x : Bytes) (packet : Packet) : Blind (serverAck x packet) := by
  refine (blind_session x).bind fun s => (blind_deref _).bind fun jid => ?_
  refine (blind_read fun _ _ => rfl).bind fun found => ?_
  cases found with
  | some ids => exact blind_send _
  | none => exact blind_updateSession x _

theorem blind_generateGroupPackets (packet : Packet) (env : Env) :
    Blind (generateGroupPackets packet env) := by
  have hMembers : ∀ gid domain, Blind (groupMembers gid domain env) := by
    intro gid domain
    refine (blind_get _).bind fun found => ?_
    cases found with
    | some users => exact blind_pure _
    | none =>
      simp only
      split
      · exact blind_pure _
      · split
        · exact (blind_send _).bind fun _ => blind_pure _
        · exact blind_pure _
  refine (blind_deref _).bind fun from_jid => (hMembers _ _).bind fun found => ?_
  cases found with
  | none => exact blind_pure _
  | some users =>
    simp only
    split
    · exact (blind_deref _).bind fun _ => blind_pure _
    · exact blind_pure _

theorem blind_dataChannelHandler (message : Bytes) (env : Env) :
    Blind (dataChannelHandler C message env) := by
  have hRoute : ∀ packet, Blind (Node.routePacket C packet) := by
    intro packet
    unfold Node.routePacket
    split
    · exact blind_pure _
    · refine (blind_get _).bind fun found => ?_
      cases found with
      | some ssb => exact blind_route _
      | none => exact blind_storePacket packet
  unfold dataChannelHandler
  split
  · exact blind_pure _
  · split
    · refine (blind_generateGroupPackets _ env).bind fun r => ?_
      cases r with
      | ok packets => exact blind_forM hRoute packets
      | error e => exact blind_pure _
    · exact hRoute _

end Functions

namespace Concurrent

variable {C : Codec}

theorem blind_begin (x : Bytes) (i : Input) : Blind (begin C x i) := by
  refine (blind_session x).bind fun s => ?_
  split
  · refine (blind_verifyGet x _ _).bind fun r => ?_
    match r with
    | none | some (_, _, some _) | some (_, _, none) => exact blind_pure _
  split
  · refine Blind.bind ?_ fun _ => blind_pure _
    refine (blind_session x).bind fun s => ?_
    split
    · exact blind_sendMessage x _
    · exact blind_pure _
  cases request C i with
  | ack packet => exact (blind_serverAck x packet).bind fun _ => blind_pure _
  | group packet =>
    refine (blind_generateGroupPackets packet i.env).bind fun r => ?_
    cases r with
    | ok packets => exact (blind_sendMessage x _).bind fun _ => blind_pure _
    | error gerr => exact (blind_sendMessage x _).bind fun _ => blind_pure _
  | chat packet =>
    simp only
    split
    · exact (blind_sendMessage x _).bind fun _ => blind_pure _
    · exact blind_pure _
  | bad err =>
    exact (blind_sendMessage x _).bind fun _ => (blind_closeSession x _).bind fun _ => blind_pure _

theorem blind_next (x : Bytes) (env : Env) (pc : Pc) : Blind (next C x env pc) := by
  match pc with
  | .idle | .routing [] => exact blind_pure _
  | .kill packet jid ss => exact (blind_route _).bind fun _ => blind_pure _
  | .auth packet jid =>
    refine (blind_verifyAuth x _ _ env).bind fun ok => ?_
    cases ok with
    | true => exact blind_pure _
    | false => exact blind_pure _
  | .logon packet => exact (blind_updateSession x _).bind fun _ => blind_pure _
  | .fetch packet => exact (blind_loginReply x packet).bind fun _ => blind_pure _
  | .publish reply => exact (blind_statusWrites x).bind fun _ => blind_pure _
  | .storing [] reply => exact (blind_sendMessage x _).bind fun _ => blind_pure _
  | .storing (d :: ds) reply =>
    refine Blind.bind ?_ fun _ => blind_pure _
    intro published n
    unfold sendNext
    simp only [Node.setPublished]
    cases n.db.sendOne d with
    | none => rfl
    | some db => rfl
  | .routing (packet :: packets) => exact (blind_routeDecide x packet).bind fun _ => blind_pure _
  | .acting packet d packets => exact (blind_routeAct x packet d).bind fun _ => blind_pure _

/-- The channel and the packet a worker is about to publish. -/
def Hand.publishes (channel : Bytes) : Hand → Option (Bytes × Packet)
  | .item it =>
    if it.channel = [] ∨ it.channel = channel then none else it.packet.map fun packet => (it.channel, packet)
  | .free | .found _ | .acting _ _ _ => none

/-- A worker whose call fails, or that calls nobody. -/
theorem work_setPublished {env : Env} {hand : Hand} {n : Node}
    (h : ∀ e, hand.publishes n.channel = some e → env.publish e.1 = false)
    (published : List (Bytes × Packet)) : work C env hand (n.setPublished published) =
      (work C env hand n).mapState fun n => n.setPublished published := by
  cases hand with
  | free => rfl
  | item it =>
    by_cases hHere : it.channel = [] ∨ it.channel = n.channel
    · have hHere' : it.channel = [] ∨ it.channel = (n.setPublished published).channel := hHere
      simp only [work, bind_apply, read_apply, id, if_pos hHere, if_pos hHere']
      have hMap : (n.setPublished published).sessionMap = n.sessionMap := rfl
      rw [hMap]
      split
      · rfl
      · rfl
    · have hAway : ¬ (it.channel = [] ∨ it.channel = (n.setPublished published).channel) := hHere
      simp only [work, bind_apply, read_apply, id, if_neg hHere, if_neg hAway]
      cases hPacket : it.packet with
      | none => rfl
      | some packet =>
        have hFails : env.publish it.channel = false :=
          h (it.channel, packet) (by rw [Hand.publishes, if_neg hHere, hPacket]; rfl)
        simp only [Option.elim_some, deref_ok, hFails, Bool.false_eq_true, if_false]
        have hStore : Blind (do storePacket C packet; return Hand.free) :=
          (blind_storePacket packet).bind fun _ => blind_pure _
        exact hStore published n
  | found it =>
    have hFound : Blind (work C env (.found it)) := by
      simp only [work]
      split
      · split
        · exact (blind_kill _ _).bind fun _ => blind_pure _
        · exact blind_pure _
      · exact (blind_deref _).bind fun _ => (blind_routeDecide _ _).bind fun _ => blind_pure _
    exact hFound published n
  | acting x packet d =>
    have hActing : Blind (work C env (.acting x packet d)) :=
      (blind_routeAct x packet d).bind fun _ => blind_pure _
    exact hActing published n

/-! ## Steps -/

/-- The system with other published messages, and with some workers back from their call. -/
def System.image (s : System) (published : List (Bytes × Packet)) (freed : Nat → Bool) : System :=
  { s with
    node := s.node.setPublished published
    hands := fun w => if freed w then .free else s.hands w }

section View

variable {consumers : Nat} {s t : System} {a : Action} {published : List (Bytes × Packet)}
  {freed : Nat → Bool}

theorem image_session (x : Bytes) {m : Prog Node Pc} (hm : Blind m) :
    (s.image published freed).session x m = (s.session x m).image published freed := by
  have hRun : m (s.image published freed).node = _ := hm published s.node
  unfold System.session
  rw [hRun]
  cases m s.node with
  | done pc n => rfl
  | panic n => rfl

theorem image_handle {m : Prog Node Unit} (hm : Blind m) :
    (s.image published freed).handle m = (s.handle m).image published freed := by
  have hRun : m (s.image published freed).node = _ := hm published s.node
  unfold System.handle
  rw [hRun]
  cases m s.node with
  | done u n => rfl
  | panic n => rfl

theorem image_hands_update {hands : Nat → Hand} {w : Nat} (hFreed : freed w = false) (hand : Hand) :
    (fun w' => if freed w' then Hand.free else Function.update hands w hand w') =
      Function.update (fun w' => if freed w' then Hand.free else hands w') w hand := by
  funext w'
  rcases eq_or_ne w' w with rfl | hne
  · rw [Function.update_self, Function.update_self, hFreed]
    rfl
  · rw [Function.update_of_ne hne, Function.update_of_ne hne]

theorem image_worker {w : Nat} (hFreed : freed w = false) {m : Prog Node Hand}
    (hm : m (s.node.setPublished published) =
      (m s.node).mapState fun n => n.setPublished published) :
    (s.image published freed).worker w m = (s.worker w m).image published freed := by
  have hRun : m (s.image published freed).node = _ := hm
  unfold System.worker
  rw [hRun]
  cases m s.node with
  | done hand n =>
    simp only [Outcome.mapState, System.image, image_hands_update hFreed]
  | panic n => rfl

/-- A step is taken in the same way in the system as others see it. -/
theorem step_image (hStep : step C consumers s a = some t)
    (hFreed : ∀ w, freed w = true → s.hands w ≠ .free)
    (hWork : ∀ w env, a = .work w env → freed w = false ∧
      ∀ e, (s.hands w).publishes s.node.channel = some e → env.publish e.1 = false) :
    step C consumers (s.image published freed) a = some (t.image published freed) := by
  have hCrashed : s.crashed = false := by
    unfold step at hStep
    split at hStep
    · cases hStep
    · rename_i h
      exact Bool.not_eq_true _ ▸ h
  cases stepped_of_step C hStep with
  | connect x hSid hNew =>
    simp [step, System.image, Node.setPublished, hCrashed, hSid, hNew]
  | register x hDispatching =>
    simp [step, System.image, Node.setPublished, hCrashed, hDispatching]
  | clean sid rest hQueue =>
    simp [step, System.image, Node.setPublished, hCrashed, hQueue]
  | recv x i hIdle sess hs =>
    rw [← image_session x (blind_begin x i)]
    simp [step, System.image, Node.setPublished, hCrashed, hIdle, hs]
  | go x env hBusy =>
    rw [← image_session x (blind_next x env _)]
    simp [step, System.image, hCrashed, hBusy]
  | close x env sess hs =>
    have hState := (blind_closeSession (C := C) x env published).state s.node
    simp only [step, System.image, hCrashed, Bool.false_eq_true, if_false]
    have hSome : ((s.node.setPublished published).sessions x).isSome = true := by
      simp [Node.setPublished, hs]
    rw [if_pos hSome, hState]
  | take w it rest hRouter hWorker hFree =>
    have hKept : freed w = false := by
      by_contra hOn
      exact hFreed w (Bool.not_eq_false _ ▸ hOn) hFree
    simp [step, System.image, Node.setPublished, hCrashed, hRouter, hWorker, hFree, image_hands_update hKept]
  | work w env hBusy =>
    obtain ⟨hKept, hFails⟩ := hWork w env rfl
    rw [← image_worker hKept (work_setPublished hFails published)]
    simp [step, System.image, hCrashed, hKept, hBusy]
  | dtake ch db hTake =>
    simp [step, System.image, Node.setPublished, hCrashed, hTake]
  | dexec ch i db hExec =>
    simp [step, System.image, Node.setPublished, hCrashed, hExec]

end View

end Concurrent

end Sara
