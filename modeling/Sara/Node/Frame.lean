import Sara.Core.Frame
import Sara.Node.System

/-! # What a step of the system leaves alone

The steps of a session's goroutine are made of the functions of a session, so they
keep what those keep. Along every run only sessions that were connected exist, only
workers that took an item are busy, and the cached login replies change only when a
login fetches one.
-/

namespace Sara

open Lib Lib.Prog Lib.Transition Saradb Concurrent

set_option autoImplicit false

namespace PermitsOwn

variable {R : Node → Node → Prop} [Std.Refl R] [IsTrans Node R] {C : Codec} {x : Bytes} {n : Node}
variable (h : PermitsOwn R C)
include h

theorem begin {i : Input}
    (hAck : ∀ packet s, n.sessions x = some s → s.status.status ≠ .conn → i.frame ≠ [heartBeat] →
      request C i = .ack packet → R n (serverAck x packet n).state) :
    R n (Concurrent.begin C x i n).state := by
  unfold Concurrent.begin
  cases hs : n.sessions x with
  | none =>
    rw [bind_panic (Node.session_eq_panic hs)]
    exact Std.Refl.refl n
  | some s =>
    rw [bind_done (Node.session_eq hs)]
    split
    · refine ((h.verifyGet x i.frame i.env).bind fun r => ?_) n
      match r with
      | none | some (_, _, some _) | some (_, _, none) => exact Keeps.pure _
    rename_i hConn
    split
    · exact ((h.heartbeat x).bind fun _ => Keeps.pure _) n
    rename_i hFrame
    cases hRequest : request C i with
    | ack packet =>
      simp only [state_bind_pure]
      exact hAck packet s hs hConn hFrame hRequest
    | group packet =>
      refine ((keeps_generateGroupPackets h.cache packet i.env).bind fun r => ?_) n
      cases r with
      | ok packets => exact (h.answer x rfl).bind fun _ => Keeps.pure _
      | error gerr => exact (h.answer x rfl).bind fun _ => Keeps.pure _
    | chat packet =>
      simp only
      split
      · exact ((h.answer x rfl).bind fun _ => Keeps.pure _) n
      · exact Std.Refl.refl n
    | bad err =>
      exact ((h.answer x rfl).bind fun _ => (h.closeSession x i.env).bind fun _ => Keeps.pure _) n

/-- The steps that change more than every session may are up to the relation. -/
theorem next {env : Env} {pc : Pc}
    (hLogon : ∀ packet, pc = .logon packet → R n (logon x packet env n).state)
    (hFetch : ∀ packet, pc = .fetch packet → R n (loginReply C x packet n).state)
    (hStore : ∀ d ds reply, pc = .storing (d :: ds) reply → R n (sendNext d ds n).state)
    (hReply : ∀ reply, pc = .storing [] reply → R n (Sara.answer x reply n).state)
    (hAct : ∀ packet d packets, pc = .acting packet d packets → R n (routeAct C x packet d n).state) :
    R n (Concurrent.next C x env pc n).state := by
  match pc with
  | .idle | .routing [] => exact Std.Refl.refl n
  | .kill packet jid ss => exact ((h.verifyKill ss).bind fun _ => Keeps.pure _) n
  | .auth packet jid =>
    refine ((h.verifyAuth x packet jid env).bind fun ok => ?_) n
    cases ok with
    | true => exact Keeps.pure _
    | false => exact Keeps.pure _
  | .logon packet =>
    simp only [Concurrent.next, state_bind_pure]
    exact hLogon packet rfl
  | .fetch packet =>
    simp only [Concurrent.next, state_bind_pure]
    exact hFetch packet rfl
  | .publish reply => exact ((keeps_statusWrites x).bind fun _ => Keeps.pure _) n
  | .storing [] reply =>
    simp only [Concurrent.next, state_bind_pure]
    exact hReply reply rfl
  | .storing (d :: ds) reply =>
    simp only [Concurrent.next, state_bind_pure]
    exact hStore d ds reply rfl
  | .routing (packet :: packets) => exact ((keeps_routeDecide x packet).bind fun _ => Keeps.pure _) n
  | .acting packet d packets =>
    simp only [Concurrent.next, state_bind_pure]
    exact hAct packet d packets rfl

theorem work {env : Env} {hand : Hand} (hStore : ∀ p, Keeps R (storePacket C p))
    (hPublish : ∀ it p, hand = .item it → it.packet = some p →
      Keeps R (modify fun n : Node => { n with published := n.published ++ [(it.channel, p)] }))
    (hAct : ∀ x packet d, hand = .acting x packet d → R n (routeAct C x packet d n).state) :
    R n (Concurrent.work C env hand n).state := by
  cases hand with
  | free => exact Std.Refl.refl n
  | item it =>
    refine ((Keeps.read _).bind fun n => ?_) n
    split
    · split
      · exact Keeps.pure _
      · exact Keeps.pure _
    · cases hPacket : it.packet with
      | none => exact fun n => Std.Refl.refl n
      | some p =>
        intro n
        rw [Option.elim_some, bind_done (deref_ok p n)]
        split
        · exact ((hPublish it p rfl hPacket).bind fun _ => Keeps.pure _) n
        · exact ((hStore p).bind fun _ => Keeps.pure _) n
  | found it =>
    simp only [Concurrent.work]
    split
    · split
      · exact ((h.kill it.sid env).bind fun _ => Keeps.pure _) n
      · exact Std.Refl.refl n
    · exact ((Keeps.deref _).bind fun _ => (keeps_routeDecide _ _).bind fun _ => Keeps.pure _) n
  | acting x packet d =>
    simp only [Concurrent.work, state_bind_pure]
    exact hAct x packet d rfl

end PermitsOwn

namespace Permits

variable {R : Node → Node → Prop} [Std.Refl R] [IsTrans Node R] {C : Codec} {x : Bytes} {n : Node}
variable (h : Permits R C)
include h

theorem begin {i : Input}
    (hAck : ∀ packet s, n.sessions x = some s → s.status.status ≠ .conn → i.frame ≠ [heartBeat] →
      request C i = .ack packet → R n (serverAck x packet n).state) :
    R n (Concurrent.begin C x i n).state := h.own.begin hAck

theorem next {env : Env} {pc : Pc}
    (hLogon : ∀ packet, pc = .logon packet → R n (logon x packet env n).state)
    (hFetch : ∀ packet, pc = .fetch packet → R n (loginReply C x packet n).state)
    (hStore : ∀ d ds reply, pc = .storing (d :: ds) reply → R n (sendNext d ds n).state)
    (hAct : ∀ packet d packets, pc = .acting packet d packets → R n (routeAct C x packet d n).state) :
    R n (Concurrent.next C x env pc n).state :=
  h.own.next hLogon hFetch hStore (fun reply _ => h.sendMessage x (.answer reply) rfl n) hAct

theorem work {env : Env} {hand : Hand} (hSend : ∀ ds, Keeps R (modify fun n : Node => n.send ds))
    (hPublish : ∀ it p, hand = .item it → it.packet = some p →
      Keeps R (modify fun n : Node => { n with published := n.published ++ [(it.channel, p)] }))
    (hAct : ∀ x packet d, hand = .acting x packet d → R n (routeAct C x packet d n).state) :
    R n (Concurrent.work C env hand n).state :=
  h.own.work (storePacket_keeps hSend) hPublish hAct

end Permits

namespace Concurrent

variable {C : Codec} {consumers : Nat} {s t : System} {a : Action} {x : Bytes} {env : Env}

@[simp] theorem session_node (s : System) (x : Bytes) (m : Prog Node Pc) :
    (s.session x m).node = (m s.node).state := by
  unfold System.session
  cases m s.node with
  | done pc n => rfl
  | panic n => rfl

@[simp] theorem worker_node (s : System) (w : Nat) (m : Prog Node Hand) :
    (s.worker w m).node = (m s.node).state := by
  unfold System.worker
  cases m s.node with
  | done hand n => rfl
  | panic n => rfl

theorem spares_work (env : Env) (hand : Hand) : Keeps Spares (work C env hand) := fun n =>
  permits_spares.work spares_send (fun _ _ _ _ _ => .of_sessions rfl rfl) fun x packet d _ =>
    spares_routeAct x packet d n

theorem spares_next {pc : Pc} {n : Node} (hFetch : ∀ packet, pc ≠ .fetch packet) :
    Spares n (next C x env pc n).state := by
  refine permits_spares.next ?_ ?_ ?_ ?_
  · exact fun packet _ => spares_logon x packet env n
  · exact fun packet hPc => absurd hPc (hFetch packet)
  · intro d ds _ _
    unfold sendNext
    split
    · exact Std.Refl.refl n
    · exact .of_sessions rfl rfl
  · exact fun packet d _ _ => spares_routeAct x packet d n

/-- A step makes a session, fetches a login reply, or leaves both alone. -/
theorem step_cases (hStep : step C consumers s a = some t) :
    (∃ x, a = .connect x ∧ s.node.sessions x = none ∧ t.node.oflCache = s.node.oflCache ∧
      t.node.sessions =
        Function.update s.node.sessions x (some (newSession s.node.channel x s.node.nodeid))) ∨
    (∃ x env packet, a = .go x env ∧ s.pc x = .fetch packet ∧
      t.node = (loginReply C x packet s.node).state) ∨ Spares s.node t.node := by
  cases stepped_of_step C hStep with
  | connect x hSid hNew => exact .inl ⟨x, rfl, hNew, rfl, rfl⟩
  | register x | clean sid rest | take w it rest | dtake ch db | dexec ch i db =>
    exact .inr (.inr (.of_sessions rfl rfl))
  | recv x i hIdle sess hs =>
    rw [session_node]
    exact .inr (.inr (permits_spares.begin fun packet _ _ _ _ _ => spares_serverAck x packet s.node))
  | go x env hBusy =>
    rw [session_node]
    by_cases hFetch : ∃ packet, s.pc x = .fetch packet
    · obtain ⟨packet, hPc⟩ := hFetch
      refine .inr (.inl ⟨x, env, packet, rfl, hPc, ?_⟩)
      rw [hPc]
      exact state_bind_pure _ _ _
    · exact .inr (.inr (spares_next fun packet hPc => hFetch ⟨packet, hPc⟩))
  | close x env sess hs => exact .inr (.inr (spares_closeSession x env s.node))
  | work w env hBusy =>
    rw [worker_node]
    exact .inr (.inr (spares_work env (s.hands w) s.node))

/-- A session that was made stays. -/
theorem none_of_step (hStep : step C consumers s a = some t) (h : t.node.sessions x = none) :
    s.node.sessions x = none := by
  rcases step_cases hStep with ⟨y, rfl, hNew, _, hSessions⟩ | ⟨y, env, packet, rfl, _, hNode⟩ | hSpares
  · rw [hSessions] at h
    rcases eq_or_ne x y with rfl | hne
    · exact hNew
    · rwa [Function.update_of_ne hne] at h
  · rwa [hNode, loginReply_sessions] at h
  · have hSame := hSpares.sessions x
    rw [h] at hSame
    exact Option.not_isSome_iff_eq_none.mp (by rw [← hSame]; decide)

/-! ## What a worker does -/

theorem work_item_here {it : RouterItem} {n : Node} (hHere : it.channel = [] ∨ it.channel = n.channel)
    (hMap : n.sessionMap it.sid = true) (env : Env) :
    work C env (.item it) n = .done (.found it) n := by
  simp only [work, bind_done (read_apply _ n), id, hHere, if_true, hMap, pure_apply]

theorem work_item_away {it : RouterItem} {n : Node} {p : Packet} (hNonempty : it.channel ≠ [])
    (hAway : it.channel ≠ n.channel) (hPacket : it.packet = some p) {env : Env}
    (hPublish : env.publish it.channel = true) :
    work C env (.item it) n =
      .done .free { n with published := n.published ++ [(it.channel, p)] } := by
  simp only [work, bind_done (read_apply _ n), id, hNonempty, hAway, or_false, if_false, hPacket,
    Option.elim_some, bind_done (deref_ok p n), hPublish, if_true]
  rfl

theorem work_found_packet {it : RouterItem} {n : Node} {p : Packet} {d : Decision}
    (hSignal : it.signal = 0) (hPacket : it.packet = some p)
    (hDecide : routeDecide C it.sid p n = .done d n) (env : Env) :
    work C env (.found it) n = .done (.acting it.sid p d) n := by
  simp only [work, hSignal, ne_eq, not_true_eq_false, if_false, hPacket, Option.elim_some,
    bind_done (deref_ok p n), bind_done hDecide, pure_apply]

/-- A worker goes on with the packet it has, or is done with it. -/
theorem packet_work {hand hand' : Hand} {n n' : Node} (h : work C env hand n = .done hand' n') :
    hand'.packet = none ∨ hand'.packet = hand.packet := by
  cases hand with
  | free =>
    cases h
    exact .inl rfl
  | item it =>
    obtain ⟨_, _, _, hRest⟩ := bind_eq_done_iff.mp h
    split at hRest
    · split at hRest
      · cases hRest
        exact .inr rfl
      · cases hRest
        exact .inl rfl
    · obtain ⟨p, _, _, hSend⟩ := bind_eq_done_iff.mp hRest
      split at hSend
      · obtain ⟨_, _, _, hPure⟩ := bind_eq_done_iff.mp hSend
        cases hPure
        exact .inl rfl
      · obtain ⟨_, _, _, hPure⟩ := bind_eq_done_iff.mp hSend
        cases hPure
        exact .inl rfl
  | found it =>
    simp only [work] at h
    split at h
    · split at h
      · obtain ⟨_, _, _, hPure⟩ := bind_eq_done_iff.mp h
        cases hPure
        exact .inl rfl
      · cases h
        exact .inl rfl
    · obtain ⟨p, _, hDeref, hRest⟩ := bind_eq_done_iff.mp h
      obtain ⟨d, _, _, hPure⟩ := bind_eq_done_iff.mp hRest
      cases hPure
      have hp := (deref_eq_done_iff.mp hDeref).1
      cases hPacket : it.packet with
      | none =>
        rw [hPacket] at hp
        cases hp
      | some q =>
        rw [hPacket] at hp
        cases hp
        exact .inr hPacket.symm
  | acting x p d =>
    obtain ⟨_, _, _, hPure⟩ := bind_eq_done_iff.mp h
    cases hPure
    exact .inl rfl

/-! ## Who can be busy -/

def Action.connected : Action → Option Bytes
  | .connect x => some x
  | _ => none

def Action.taken : Action → Option Nat
  | .take w => some w
  | _ => none

theorem sessions_step (hStep : step C consumers s a = some t) {y : Bytes}
    (hNone : s.node.sessions y = none) (hOther : a.connected ≠ some y) :
    t.node.sessions y = none := by
  rcases step_cases hStep with ⟨x, rfl, _, _, hSessions⟩ | ⟨x, env, packet, rfl, _, hNode⟩ | hSpares
  · have hne : y ≠ x := fun hEq => hOther (congrArg some hEq.symm)
    rw [hSessions, Function.update_of_ne hne, hNone]
  · rw [hNode, loginReply_sessions, hNone]
  · have hSame := hSpares.sessions y
    rw [hNone] at hSame
    exact Option.not_isSome_iff_eq_none.mp (by rw [hSame]; decide)

/-- A goroutine moves only by its own steps, and a panic leaves it idle. -/
theorem pc_step (hStep : step C consumers s a = some t) (y : Bytes) :
    t.pc y = s.pc y ∨ t.pc y = .idle ∨
      (∃ i sess, a = .recv y i ∧ s.node.sessions y = some sess ∧
        begin C y i s.node = .done (t.pc y) t.node) ∨
      ∃ env, a = .go y env ∧ s.pc y ≠ .idle ∧ next C y env (s.pc y) s.node = .done (t.pc y) t.node := by
  have hSession : ∀ x m, y ≠ x ∧ (s.session x m).pc y = s.pc y ∨ y = x ∧ ((s.session x m).pc y = .idle ∨
      m s.node = .done ((s.session x m).pc y) (s.session x m).node) := by
    intro x m
    unfold System.session
    rcases eq_or_ne y x with rfl | hne
    · refine .inr ⟨rfl, ?_⟩
      cases m s.node with
      | done pc n =>
        have hSelf : Function.update s.pc y pc y = pc := Function.update_self ..
        exact .inr (congrArg (Outcome.done · n) hSelf.symm)
      | panic n => exact .inl (Function.update_self ..)
    · refine .inl ⟨hne, ?_⟩
      cases m s.node with
      | done pc n => exact Function.update_of_ne hne ..
      | panic n => exact Function.update_of_ne hne ..
  cases stepped_of_step C hStep with
  | recv x i hPc sess hs =>
    rcases hSession x (begin C x i) with ⟨_, hSame⟩ | ⟨rfl, hIdle | hDone⟩
    · exact .inl hSame
    · exact .inr (.inl hIdle)
    · exact .inr (.inr (.inl ⟨i, sess, rfl, hs, hDone⟩))
  | go x env hBusy =>
    rcases hSession x (next C x env (s.pc x)) with ⟨_, hSame⟩ | ⟨rfl, hIdle | hDone⟩
    · exact .inl hSame
    · exact .inr (.inl hIdle)
    · exact .inr (.inr (.inr ⟨env, rfl, hBusy, hDone⟩))
  | work w env hBusy =>
    unfold System.worker
    cases work C env (s.hands w) s.node with
    | done hand n => exact .inl rfl
    | panic n => exact .inl rfl
  | connect | register | clean | close | take | dtake | dexec => exact .inl rfl

/-- A goroutine without a session never starts. -/
theorem idle_step (hStep : step C consumers s a = some t) {y : Bytes}
    (hNone : s.node.sessions y = none) (hIdle : s.pc y = .idle) : t.pc y = .idle := by
  rcases pc_step hStep y with hSame | hDone | ⟨_, _, _, hs, _⟩ | ⟨_, _, hBusy, _⟩
  · exact hSame.trans hIdle
  · exact hDone
  · cases hNone.symm.trans hs
  · exact absurd hIdle hBusy

theorem free_step (hStep : step C consumers s a = some t) {w : Nat} (hFree : s.hands w = .free)
    (hOther : a.taken ≠ some w) : t.hands w = .free := by
  have hSession : ∀ x m, (s.session x m).hands w = .free := by
    intro x m
    unfold System.session
    cases m s.node with
    | done pc n => exact hFree
    | panic n => exact hFree
  cases stepped_of_step C hStep with
  | recv x i => exact hSession x _
  | go x env => exact hSession x _
  | take w' it rest =>
    have hne : w ≠ w' := fun hEq => hOther (congrArg some hEq.symm)
    exact (Function.update_of_ne hne ..).trans hFree
  | work w' env hBusy =>
    have hne : w ≠ w' := by
      rintro rfl
      exact hBusy hFree
    unfold System.worker
    cases work C env (s.hands w') s.node with
    | done hand n => exact (Function.update_of_ne hne ..).trans hFree
    | panic n => exact hFree
  | connect | register | clean | close | dtake | dexec => exact hFree

/-- Only sessions that connected exist, and only workers that took an item are busy. -/
theorem idle_outside {nodeid channel : Bytes} {st : Store} {as : List Action}
    (hRun : run (step C consumers) (start nodeid channel st) as = some t) :
    (∀ y, y ∉ as.filterMap Action.connected → t.node.sessions y = none ∧ t.pc y = .idle) ∧
      ∀ w, w ∉ as.filterMap Action.taken → t.hands w = .free := by
  refine run_induction (P := fun as t =>
    (∀ y, y ∉ as.filterMap Action.connected → t.node.sessions y = none ∧ t.pc y = .idle) ∧
      ∀ w, w ∉ as.filterMap Action.taken → t.hands w = .free)
    ⟨fun _ _ => ⟨rfl, rfl⟩, fun _ _ => rfl⟩ ?_ hRun
  rintro as s a u _ ⟨hSessions, hHands⟩ hStep
  constructor
  · intro y hy
    rw [List.filterMap_append, List.mem_append, not_or] at hy
    obtain ⟨hNone, hIdle⟩ := hSessions y hy.1
    exact ⟨sessions_step hStep hNone fun hEq => hy.2 (by simp [hEq]), idle_step hStep hNone hIdle⟩
  · intro w hw
    rw [List.filterMap_append, List.mem_append, not_or] at hw
    exact free_step hStep (hHands w hw.1) fun hEq => hw.2 (by simp [hEq])

end Concurrent

end Sara
