import Siffleux.Client.Egress.FlowTable

/-!
# Who keeps the socket of a flow

The two tasks of a flow share its UDP socket.  The tunnel-to-socket task cancels the socket's token
in one of its exits only; in the others the socket-to-tunnel task has to find out by itself, from
the tunnel or from the process.

* `SocketsSound` — what the exits leave behind, over any run under one tunnel.
* `UdpTunnel.noLeak_step` — the one exit that leaves nothing behind: the channel's sender is gone
  because the main loop has panicked.
* `UdpTunnels` — all the tunnels an egress has had, of any number of processes.
* `no_leak_iff` — a socket-to-tunnel task can always end after its flow has, unless that happens.
-/

namespace Siffleux

open ByteBuf Transition

namespace FlowTask

/-- What holds of a flow under a tunnel and a process that are, or are not, at their end. -/
structure SocketSound (closed cancelled : Bool) (f : FlowTask) : Prop where
  fresh : f.pc = .notSpawned ∨ f.pc = .creating → f.reply = .notSpawned ∧ f.socketCancelled = false
  running : ∀ batch, f.pc = .running batch → f.socketCancelled = false ∧
    (f.reply = .running ∨ closed = true ∨ cancelled = true)
  leaving : f.pc = .leaving false → f.reply = .notSpawned ∨ closed = true

/-- The socket-to-tunnel task has ended with its flow, or can end. -/
def CanRelease (closed cancelled : Bool) (f : FlowTask) : Prop :=
  f.pc = .ended → f.reply = .running → (f.socketCancelled || closed || cancelled) = true

variable {closed cancelled closed' cancelled' : Bool} {f f' : FlowTask}

lemma SocketSound.mono (h : f.SocketSound closed cancelled) (hc : closed = true → closed' = true)
    (hp : cancelled = true → cancelled' = true) : f.SocketSound closed' cancelled' :=
  ⟨h.fresh, fun batch hb => (h.running batch hb).imp id (Or.imp_right (Or.imp hc hp)),
    fun hl => (h.leaving hl).imp_right hc⟩

lemma CanRelease.mono (h : f.CanRelease closed cancelled) (hc : closed = true → closed' = true)
    (hp : cancelled = true → cancelled' = true) : f.CanRelease closed' cancelled' := by
  intro he hr
  have hor := h he hr
  simp only [Bool.or_eq_true] at hor ⊢
  exact hor.imp (Or.imp_right hc) hp

/-- Nothing here is about the channel or the buffer. -/
lemma SocketSound.congr (h : f.SocketSound closed cancelled) (hpc : f'.pc = f.pc)
    (hr : f'.reply = f.reply) (hs : f'.socketCancelled = f.socketCancelled) :
    f'.SocketSound closed cancelled := by
  refine ⟨?_, ?_, ?_⟩
  · rw [hpc, hr, hs]
    exact h.fresh
  · rw [hpc, hr, hs]
    exact h.running
  · rw [hpc, hr]
    exact h.leaving

lemma CanRelease.congr (h : f.CanRelease closed cancelled) (hpc : f'.pc = f.pc)
    (hr : f'.reply = f.reply) (hs : f'.socketCancelled = f.socketCancelled) :
    f'.CanRelease closed cancelled := by
  rw [CanRelease, hpc, hr, hs]
  exact h

lemma canRelease_of_pc (h : f.pc ≠ .ended) : f.CanRelease closed cancelled :=
  fun he => absurd he h

end FlowTask

namespace UdpTunnel

variable {s s' : UdpTunnel} {ls : List Label} {l : Label}

/-- What the exits of the tasks leave behind. -/
structure SocketsSound (s : UdpTunnel) : Prop where
  left : s.main = .ended → s.tunnelClosed = true
  flow : ∀ i, (s.flow i).SocketSound s.tunnelClosed s.cancelled

/-- After a flow has ended its socket-to-tunnel task has ended too, or has a step that ends it. -/
def NoLeak (s : UdpTunnel) : Prop :=
  ∀ i, (s.flow i).pc = .ended → (s.flow i).reply = .running →
    (s.step (.replyReturns i)).isSome = true

lemma noLeak_iff : s.NoLeak ↔ ∀ i, (s.flow i).CanRelease s.tunnelClosed s.cancelled := by
  refine forall_congr' fun i => forall_congr' fun _ => forall_congr' fun hr => ?_
  simp only [step, hr]
  cases (s.flow i).socketCancelled || s.tunnelClosed || s.cancelled <;> simp

lemma socketsSound_new : new.SocketsSound :=
  ⟨fun h => (by cases h), fun _ => ⟨fun _ => ⟨rfl, rfl⟩, fun _ h => (by cases h),
    fun h => by cases h⟩⟩

/-- What is said of each task, after one of them has changed. -/
lemma forall_setFlow {P : FlowTask → Prop} (h : ∀ j, P (s.flow j)) {i : ℕ} {f : FlowTask}
    (hf : P f) (j : ℕ) : P ((s.setFlow i f).flow j) :=
  flow_update j (fun _ => hf) fun _ => h j

lemma SocketsSound.setFlow (h : s.SocketsSound) {i : ℕ} {f : FlowTask}
    (hf : f.SocketSound s.tunnelClosed s.cancelled) : (s.setFlow i f).SocketsSound :=
  ⟨h.left, forall_setFlow h.flow hf⟩

/-- A task that has ended has nothing more to keep to. -/
lemma socketSound_of_ended {closed cancelled : Bool} {f : FlowTask} (hf : f.pc = .ended) :
    f.SocketSound closed cancelled := by
  refine ⟨fun h => ?_, fun batch hb => ?_, fun hl => ?_⟩
  · rw [hf] at h
    rcases h with h | h <;> cases h
  · rw [hf] at hb
    cases hb
  · rw [hf] at hl
    cases hl

/-- A task between two rounds of its loop. -/
lemma SocketsSound.round (h : s.SocketsSound) {i : ℕ} {batch batch' : List Bytes}
    (hi : (s.flow i).pc = .running batch) {f : FlowTask} (hpc : f.pc = .running batch')
    (hr : f.reply = (s.flow i).reply) (hs : f.socketCancelled = (s.flow i).socketCancelled) :
    f.SocketSound s.tunnelClosed s.cancelled := by
  refine ⟨fun hf => ?_, fun _ _ => ?_, fun hl => ?_⟩
  · rw [hpc] at hf
    rcases hf with hf | hf <;> cases hf
  · rw [hr, hs]
    exact (h.flow i).running batch hi
  · rw [hpc] at hl
    cases hl

/-- A task that gives its flow up, with the socket's token or without. -/
lemma SocketsSound.announce (h : s.SocketsSound) {i : ℕ} {cancelsSocket : Bool}
    (hl : cancelsSocket = false → (s.flow i).reply = .notSpawned ∨ s.tunnelClosed = true) :
    (s.announce i cancelsSocket).SocketsSound := by
  refine ⟨h.left, forall_setFlow h.flow ⟨fun hf => ?_, fun _ hb => (by cases hb), fun hf => ?_⟩⟩
  · rcases hf with hf | hf <;> cases hf
  · exact hl (FlowPc.leaving.inj hf)

theorem SocketsSound.step (h : s.SocketsSound) (hs : s.step l = some s') : s'.SocketsSound := by
  cases step_cases hs with
  | malformed => exact ⟨fun hm => (by cases hm), h.flow⟩
  | noOrigin => exact ⟨h.left, h.flow⟩
  | inserted => exact ⟨fun hm => (by cases hm), h.flow⟩
  | expired => exact ⟨h.left, h.flow⟩
  | routed => exact ⟨h.left, forall_setFlow h.flow ((h.flow _).congr rfl rfl rfl)⟩
  | spawned =>
      refine ⟨fun hm => (by cases hm), forall_setFlow h.flow ⟨fun _ => ⟨rfl, rfl⟩, ?_, ?_⟩⟩
      · intro _ hb
        cases hb
      · intro hl
        cases hl
  | triedSend =>
      exact ⟨fun hm => (by cases hm), forall_setFlow h.flow ((h.flow _).congr rfl rfl rfl)⟩
  | leftClosed _ hc => exact ⟨fun _ => hc, h.flow⟩
  | leftCancelled =>
      exact ⟨fun _ => rfl, fun i => (h.flow i).mono (fun _ => rfl) id⟩
  | closed => exact ⟨fun _ => rfl, fun i => (h.flow i).mono (fun _ => rfl) id⟩
  | cancelled => exact ⟨h.left, fun i => (h.flow i).mono id fun _ => rfl⟩
  | @socketFailed i hi => exact h.announce fun _ => Or.inl ((h.flow i).fresh (Or.inr hi)).1
  | idled => exact h.announce fun hc => by cases hc
  | taskClosed _ hc => exact h.announce fun _ => Or.inr hc
  | @socketCreated i hi =>
      refine h.setFlow ⟨fun hf => ?_, fun _ _ => ⟨((h.flow i).fresh (Or.inr hi)).2, Or.inl rfl⟩, ?_⟩
      · rcases hf with hf | hf <;> cases hf
      · intro hl
        cases hl
  | noSender | taskCancelled | taskReturned => exact h.setFlow (socketSound_of_ended rfl)
  | gotBatch hi | notSent hi => exact h.setFlow (h.round hi rfl rfl rfl)
  | sent hi => exact ⟨h.left, forall_setFlow h.flow (h.round hi rfl rfl rfl)⟩
  | @replied i data ok =>
      obtain ⟨buffer, payload, he⟩ := s.sendReply_eq i data ok
      rw [he]
      exact ⟨h.left, forall_setFlow h.flow ((h.flow i).congr rfl rfl rfl)⟩
  | @replyReturned i hi hc =>
      refine h.setFlow ⟨fun hf => ?_, fun batch hb => ?_, fun hl => ?_⟩
      · have hfresh := ((h.flow i).fresh hf).1
        rw [hi] at hfresh
        cases hfresh
      · have hsocket := ((h.flow i).running batch hb).1
        rw [hsocket, Bool.false_or, Bool.or_eq_true] at hc
        exact ⟨hsocket, Or.inr hc⟩
      · refine ((h.flow i).leaving hl).imp (fun hn => ?_) id
        rw [hi] at hn
        cases hn

theorem socketsSound_run (h : system.Run ls s) : s.SocketsSound :=
  h.invariant socketsSound_new fun _ _ _ hi hs => hi.step hs

/-! ## The exit that leaves nothing behind -/

/-- No task finds its channel closed by a panic of the main loop, while the tunnel is open and the
process goes on. -/
def SenderKept (s : UdpTunnel) : Label → Prop
  | .recvMany i => (s.flow i).channel.queue = [] → s.main = .panicked →
      s.tunnelClosed = true ∨ s.cancelled = true
  | _ => True

lemma ended_or_panicked {pc : UdpMainPc} (h : mainAlive pc = false) :
    pc = .ended ∨ pc = .panicked := by
  cases pc <;> simp [mainAlive] at h ⊢

/-- A task whose channel is closed: its socket is released unless the main loop has panicked under
an open tunnel. -/
lemma canRelease_noSender (hr : system.Run ls s) {i : ℕ} (hi : (s.flow i).pc = .running [])
    (hq : (s.flow i).channel.queue = []) (hsender : s.senderAlive i = false) :
    (s.flow i).endTask.CanRelease s.tunnelClosed s.cancelled ↔ s.SenderKept (.recvMany i) := by
  have hsound := socketsSound_run hr
  obtain ⟨hsocket, hreply⟩ := (hsound.flow i).running [] hi
  have hrelease : (s.flow i).endTask.CanRelease s.tunnelClosed s.cancelled ↔
      s.tunnelClosed = true ∨ s.cancelled = true := by
    rw [FlowTask.CanRelease, show (s.flow i).endTask.socketCancelled = false from hsocket,
      Bool.false_or, Bool.or_eq_true]
    exact ⟨fun h => hreply.elim (fun hrun => h rfl hrun) id, fun h _ _ => h⟩
  rw [hrelease]
  constructor
  · exact fun h _ _ => h
  · intro hok
    rcases (flowsSound_run hr).isOver_of_noSender (by rw [hi]; rfl) hsender with hc | hm
    · exact Or.inr hc
    · rcases ended_or_panicked hm with he | hp
      · exact Or.inl (hsound.left he)
      · exact hok hq hp

/-- **A step leaks a socket exactly when it breaks the condition.** -/
theorem noLeak_step (hr : system.Run ls s) (hn : s.NoLeak) (hs : s.step l = some s') :
    s'.NoLeak ↔ s.SenderKept l := by
  have hsound := socketsSound_run hr
  have hcan := noLeak_iff.mp hn
  rw [noLeak_iff]
  have hset : ∀ {i : ℕ} {f : FlowTask}, f.CanRelease s.tunnelClosed s.cancelled →
      ∀ j, ((s.setFlow i f).flow j).CanRelease s.tunnelClosed s.cancelled := forall_setFlow hcan
  cases step_cases hs with
  | @noSender i hi hq hsender =>
      rw [← canRelease_noSender hr hi hq hsender]
      refine ⟨fun h' => ?_, fun hf => hset hf⟩
      have hself := h' i
      rw [setFlow_flow, Function.update_self] at hself
      exact hself
  | gotBatch _ hq =>
      exact iff_of_true (hset (FlowTask.canRelease_of_pc (by simp))) fun hnil _ => absurd hnil hq
  | malformed | noOrigin | inserted | expired | leftClosed => exact iff_of_true hcan trivial
  | leftCancelled | closed =>
      exact iff_of_true (fun i => (hcan i).mono (fun _ => rfl) id) trivial
  | cancelled => exact iff_of_true (fun i => (hcan i).mono id fun _ => rfl) trivial
  | routed | triedSend => exact iff_of_true (hset ((hcan _).congr rfl rfl rfl)) trivial
  | spawned | socketCreated | sent | notSent | socketFailed | idled | taskClosed =>
      exact iff_of_true (hset (FlowTask.canRelease_of_pc (by simp [FlowTask.spawn]))) trivial
  | taskCancelled _ hc =>
      refine iff_of_true (hset fun _ _ => ?_) trivial
      rw [hc, Bool.or_true]
  | @taskReturned i cancelsSocket hi =>
      refine iff_of_true (hset fun _ hrun => ?_) trivial
      cases cancelsSocket with
      | true => rfl
      | false =>
          rcases (hsound.flow i).leaving hi with hn' | hc
          · rw [show (s.flow i).reply = .running from hrun] at hn'
            cases hn'
          · rw [hc, Bool.or_true, Bool.true_or]
  | @replied i data ok =>
      obtain ⟨buffer, payload, he⟩ := s.sendReply_eq i data ok
      rw [he]
      exact iff_of_true (hset ((hcan i).congr rfl rfl rfl)) trivial
  | replyReturned => exact iff_of_true (hset fun _ hrun => by cases hrun) trivial

end UdpTunnel

/-! ## All tunnels of an egress -/

/-- The tunnels that a UDP egress has had, each under the token of the process that connected it.
Tasks of a tunnel can outlive its main loop, and the process. -/
structure UdpTunnels where
  nextTunnel : ℕ
  tunnel : ℕ → UdpTunnel
  process : ℕ → ℕ
  isCancelled : ℕ → Bool

namespace UdpTunnels

/-- `connected` is a connect of a process that gets through, `stop` cancels the token of one. -/
inductive Label where
  | connected (p : ℕ)
  | stop (p : ℕ)
  | tunnel (k : ℕ) (l : UdpTunnel.Label)
  deriving DecidableEq

def new : UdpTunnels where
  nextTunnel := 0
  tunnel _ := .new
  process _ := 0
  isCancelled _ := false

/-- A process connects when its main loop has left all the tunnels it has had. -/
def step (s : UdpTunnels) : Label → Option UdpTunnels
  | .connected p =>
      if ∀ k < s.nextTunnel, s.process k = p → (s.tunnel k).main = .ended then
        some { s with
          nextTunnel := s.nextTunnel + 1
          tunnel := Function.update s.tunnel s.nextTunnel
            { UdpTunnel.new with cancelled := s.isCancelled p }
          process := Function.update s.process s.nextTunnel p }
      else none
  | .stop p => some { s with
      isCancelled := Function.update s.isCancelled p true
      tunnel := fun k =>
        if s.process k = p then { s.tunnel k with cancelled := true } else s.tunnel k }
  | .tunnel k l =>
      -- a tunnel does not stop its process
      if k < s.nextTunnel ∧ l ≠ .cancel then ((s.tunnel k).step l).map fun t =>
        { s with tunnel := Function.update s.tunnel k t }
      else none

def system : System UdpTunnels Label := ⟨new, step⟩

variable {s s' : UdpTunnels} {ls : List Label} {l : Label}

/-- What a step does to one tunnel: nothing, a step of its own, a stop of its process, or it is
new. -/
inductive TunnelStep (s : UdpTunnels) (k : ℕ) : Label → UdpTunnel → Prop
  | stays {l : Label} (hl : ∀ m, l ≠ .tunnel k m) : TunnelStep s k l (s.tunnel k)
  | moves {m : UdpTunnel.Label} {t : UdpTunnel} (h : (s.tunnel k).step m = some t) :
      TunnelStep s k (.tunnel k m) t
  | stopped {p : ℕ} : TunnelStep s k (.stop p) { s.tunnel k with cancelled := true }
  | connected {p : ℕ} :
      TunnelStep s k (.connected p) { UdpTunnel.new with cancelled := s.isCancelled p }

theorem step_cases (hs : s.step l = some s') (k : ℕ) : TunnelStep s k l (s'.tunnel k) := by
  cases l with
  | connected p =>
      simp only [step, Option.ite_none_right_eq_some, Option.some.injEq] at hs
      obtain ⟨-, rfl⟩ := hs
      show TunnelStep s k _ (Function.update s.tunnel s.nextTunnel _ k)
      rcases eq_or_ne k s.nextTunnel with rfl | hne
      · rw [Function.update_self]
        exact .connected
      · rw [Function.update_of_ne hne]
        exact .stays fun m e => by cases e
  | stop p =>
      rw [← Option.some.inj hs]
      show TunnelStep s k _ (if s.process k = p then _ else _)
      split_ifs
      · exact .stopped
      · exact .stays fun m e => by cases e
  | tunnel j m =>
      simp only [step, Option.ite_none_right_eq_some, Option.map_eq_some_iff] at hs
      obtain ⟨-, t, ht, rfl⟩ := hs
      show TunnelStep s k _ (Function.update s.tunnel j t k)
      rcases eq_or_ne k j with rfl | hne
      · rw [Function.update_self]
        exact .moves ht
      · rw [Function.update_of_ne hne]
        exact .stays fun m' e => hne (Label.tunnel.inj e).1.symm

/-- A new tunnel of a process that may be stopped already. -/
lemma run_new (c : Bool) : ∃ ms, UdpTunnel.system.Run ms { UdpTunnel.new with cancelled := c } := by
  cases c with
  | false => exact ⟨[], .nil⟩
  | true => exact ⟨[.cancel], System.run_of_exec rfl⟩

/-- **Each tunnel goes through a run of its own**, whatever becomes of the others. -/
theorem tunnel_run (h : system.Run ls s) (k : ℕ) : ∃ ms, UdpTunnel.system.Run ms (s.tunnel k) := by
  induction h with
  | nil => exact ⟨[], .nil⟩
  | @snoc ls s s' l _ hs ih =>
      obtain ⟨ms, hms⟩ := ih
      have hstep := step_cases hs k
      generalize s'.tunnel k = t at hstep
      cases hstep with
      | stays => exact ⟨ms, hms⟩
      | @moves m _ ht => exact ⟨ms ++ [m], hms.snoc ht⟩
      | stopped => exact ⟨ms ++ [.cancel], hms.snoc rfl⟩
      | connected => exact run_new _

/-- No tunnel's flows leak their sockets. -/
def NoLeak (s : UdpTunnels) : Prop := ∀ k, (s.tunnel k).NoLeak

/-- The condition on a step is that of the tunnel that takes it. -/
def SenderKept (s : UdpTunnels) : Label → Prop
  | .tunnel k l => (s.tunnel k).SenderKept l
  | _ => True

lemma noLeak_new (c : Bool) : UdpTunnel.NoLeak { UdpTunnel.new with cancelled := c } := by
  intro i hi
  cases hi

theorem noLeak_step (h : system.Run ls s) (hn : s.NoLeak) (hs : s.step l = some s') :
    s'.NoLeak ↔ s.SenderKept l := by
  have hkeep : ∀ k, (∀ m, l ≠ .tunnel k m) → (s'.tunnel k).NoLeak := by
    intro k hk
    have hstep := step_cases hs k
    generalize s'.tunnel k = t at hstep
    cases hstep with
    | stays => exact hn k
    | moves => exact absurd rfl (hk _)
    | stopped =>
        obtain ⟨ms, hms⟩ := tunnel_run h k
        exact (UdpTunnel.noLeak_step hms (hn k) rfl (l := .cancel)).mpr trivial
    | connected => exact noLeak_new _
  cases l with
  | connected p => exact iff_of_true (fun k => hkeep k fun m e => by cases e) trivial
  | stop p => exact iff_of_true (fun k => hkeep k fun m e => by cases e) trivial
  | tunnel j m =>
      obtain ⟨ms, hms⟩ := tunnel_run h j
      have hmoves : (s.tunnel j).step m = some (s'.tunnel j) := by
        have hstep := step_cases hs j
        generalize s'.tunnel j = t at hstep
        cases hstep with
        | stays hl => exact absurd rfl (hl m)
        | moves ht => exact ht
      have hiff := UdpTunnel.noLeak_step hms (hn j) hmoves
      refine ⟨fun h' => hiff.mp (h' j), fun hok k => ?_⟩
      rcases eq_or_ne k j with rfl | hne
      · exact hiff.mpr hok
      · exact hkeep k fun m' e => hne (Label.tunnel.inj e).1.symm

end UdpTunnels

/-- **Sockets are released with their flows unless a main loop panics.**  In every run of a UDP
egress, over all its tunnels and processes, every socket-to-tunnel task whose flow has ended has
ended or can end in every state, if and only if no flow's task ever finds its channel closed by a
panic of the main loop while the tunnel is open and the process has not been stopped. -/
theorem no_leak_iff {ls : List UdpTunnels.Label} {s : UdpTunnels}
    (h : UdpTunnels.system.Run ls s) : UdpTunnels.system.Always UdpTunnels.NoLeak ls ↔
      UdpTunnels.system.RunWithin UdpTunnels.SenderKept ls s :=
  h.always_iff_within (fun _ => UdpTunnels.noLeak_new false) fun _ _ _ _ hr hn hs =>
    UdpTunnels.noLeak_step hr hn hs

/-- A flow with a socket, under the first tunnel of a process. -/
def flowWithSocket : List UdpTunnels.Label :=
  [.connected 0, .tunnel 0 (.datagram [0, 127, 0, 0, 1, 31, 144, 1]), .tunnel 0 .trySend,
    .tunnel 0 .insert, .tunnel 0 (.socketCreated 0), .tunnel 0 (.recvMany 0),
    .tunnel 0 (.send 0 true)]

/-- The tunnel is lost, the process connects again, and the flow of the first tunnel ends. -/
theorem no_leak_reconnected : ∃ s, UdpTunnels.system.Run (flowWithSocket ++
      [.tunnel 0 .closeTunnel, .tunnel 0 .leaveClosed, .connected 0, .tunnel 0 (.recvMany 0)]) s ∧
    ((s.tunnel 0).flow 0).pc = .ended ∧
    UdpTunnels.system.Always UdpTunnels.NoLeak (flowWithSocket ++
      [.tunnel 0 .closeTunnel, .tunnel 0 .leaveClosed, .connected 0, .tunnel 0 (.recvMany 0)]) := by
  have h : UdpTunnels.system.RunWithin UdpTunnels.SenderKept (flowWithSocket ++
      [.tunnel 0 .closeTunnel, .tunnel 0 .leaveClosed, .connected 0, .tunnel 0 (.recvMany 0)]) _ :=
    System.runWithin_of_exec rfl ⟨trivial, trivial, trivial, trivial, trivial,
      fun _ hm => (by cases hm), trivial, trivial, trivial, trivial, fun _ hm => (by cases hm),
      trivial⟩
  exact ⟨_, h.run, rfl, (no_leak_iff h.run).mpr h⟩

/-- An empty datagram ends the main loop, and the flow leaves its socket-to-tunnel task behind. -/
theorem short_datagram_leaks : ∃ s, UdpTunnels.system.Run (flowWithSocket ++
      [.tunnel 0 (.datagram []), .tunnel 0 (.recvMany 0)]) s ∧
    ((s.tunnel 0).flow 0).pc = .ended ∧ ((s.tunnel 0).flow 0).reply = .running ∧
    (s.tunnel 0).step (.replyReturns 0) = none ∧ ¬ s.NoLeak := by
  refine ⟨_, System.run_of_exec rfl, rfl, rfl, rfl, fun h => ?_⟩
  have hsome := h 0 0 rfl rfl
  cases hsome

end Siffleux
