import Siffleux.Common.Protocols.V1
import Siffleux.Server.Ingress.TcpIngress

/-!
# The path of a TCP connection

From an origin through a TCP ingress and a tunnel to the TCP egress at the tunnel's other end, for
any number of connections and tunnels: `TcpIngress::handle_stream` on top of the ingress,
the bridge it runs, `Tunnel::create_stream` and `accept_stream`, and the accept loop of
`TcpEgress::start_tunnel`.

What an origin does is any sequence of steps of its side of the bridge; so is, on a stream the
egress was offered, what comes back from there.  A stream obtained with `open_bi` is visible to the
peer's `accept_bi` once data, a finish or a reset has been sent on it.  It starts with a window of
its own; the one that all streams of a tunnel share is left out, so a first write is not held up.

* `TcpPath.step` — the steps of everybody on the path.
* `step_cases` — the step, inverted; `moved` — what it can do to one connection.
* `Sound` — the invariant: among other things, the bridge of an unheard connection is silent while
  its tunnel is open and its token is not cancelled.
-/

namespace Siffleux

open ByteBuf Transition

/-- How far `handle_stream` has come with a connection; `waiting` is in the listener's backlog. -/
inductive RoutePc (τ : Type) where
  | waiting
  | routing (listener : ℕ)
  | opening (listener : ℕ) (t : τ)
  | bridged (listener : ℕ) (t : τ)
  | dropped
  deriving DecidableEq, Repr

structure TcpConnection (τ : Type) where
  route : RoutePc τ
  bridge : TcpStreamBridge
  isOffered : Bool

/-- The task of the egress at the end of a tunnel: in `connect`, in its accept loop, past it. -/
inductive AcceptStreamPc where
  | connecting
  | serving
  | left
  deriving DecidableEq, Repr

structure TcpPath (τ : Type) (w : ℕ) where
  ingress : TcpIngress τ w
  connection : ℕ → TcpConnection τ
  egress : τ → AcceptStreamPc

namespace TcpPath

variable {τ : Type} [DecidableEq τ] {w : ℕ}

def new (τ : Type) (w : ℕ) : TcpPath τ w :=
  ⟨.new τ w, fun _ => ⟨.waiting, .new, false⟩, fun _ => .connecting⟩

inductive Label (τ : Type) where
  | ingress (l : TcpIngress.Label τ)
  | accept (k i : ℕ)
  | routeFails (k : ℕ)
  | getTunnelToConnect (k : ℕ)
  | openBi (k : ℕ)
  | openBiFails (k : ℕ)
  | bridge (k : ℕ) (l : TcpStreamBridge.Label)
  | established (t : τ)
  | acceptStream (k : ℕ)
  | disconnected (t : τ)
  | processCancelled (t : τ)
  deriving DecidableEq

def setConnection (s : TcpPath τ w) (k : ℕ) (c : TcpConnection τ) : TcpPath τ w :=
  { s with connection := Function.update s.connection k c }

def setRoute (s : TcpPath τ w) (k : ℕ) (r : RoutePc τ) : TcpPath τ w :=
  s.setConnection k { s.connection k with route := r }

def setBridge (s : TcpPath τ w) (k : ℕ) (b : TcpStreamBridge) : TcpPath τ w :=
  s.setConnection k { s.connection k with bridge := b }

def setEgress (s : TcpPath τ w) (t : τ) (pc : AcceptStreamPc) : TcpPath τ w :=
  { s with egress := Function.update s.egress t pc }

def withIngress (s : TcpPath τ w) (g : TcpIngress τ w) : TcpPath τ w := { s with ingress := g }

/-- The listener's token: `handle_listener` cancels it when its loop has ended. -/
def isCancelled (s : TcpPath τ w) (k : ℕ) : Bool :=
  match (s.connection k).route with
  | .bridged i _ => s.ingress.acceptLoop i = .finished
  | _ => false

/-- The tunnel of a bridged connection has been lost. -/
def isLost (s : TcpPath τ w) (k : ℕ) : Bool :=
  match (s.connection k).route with
  | .bridged _ t => s.ingress.isClosed t
  | _ => false

def isBridged (s : TcpPath τ w) (k : ℕ) : Bool :=
  match (s.connection k).route with
  | .bridged .. => true
  | _ => false

/-- Both sides of the tunnel's stream fail; what else happens to it is the peer's doing. -/
def isFailure : TcpStreamBridge.Label → Bool
  | .tcpToTunnel .outletFails | .tunnelToTcp .inletFails => true
  | _ => false

/-- The origin is free to act at any time, the bridge when it has been called, and the tunnel's
side of a stream when the stream was offered to the egress or the tunnel is lost. -/
def mayStep (s : TcpPath τ w) (k : ℕ) (l : TcpStreamBridge.Label) : Bool :=
  match l.party with
  | .tcp => true
  | .bridge => s.isBridged k
  | .tunnel => (s.connection k).isOffered || (s.isLost k && isFailure l)

/-- The `accept` of a connection and the choice of a tunnel for it are steps of the connection. -/
def isOfConnection : TcpIngress.Label τ → Bool
  | .accept _ true | .getTunnelToConnect => true
  | _ => false

/-- What `handle_stream` does with `get_tunnel_to_connect`. -/
def picked (i : ℕ) (list : TunnelList τ w) : RoutePc τ :=
  match list.getTunnelToConnect with
  | .ret (some t, _) => .opening i t
  | .ret (none, _) | .panic => .dropped

def step (s : TcpPath τ w) : Label τ → Option (TcpPath τ w)
  | .ingress l => if isOfConnection l then none else (s.ingress.step l).map s.withIngress
  | .accept k i =>
      match (s.connection k).route with
      | .waiting => (s.ingress.step (.accept i true)).map fun g =>
          (s.withIngress g).setRoute k (.routing i)
      | _ => none
  | .routeFails k =>
      match (s.connection k).route with
      | .routing _ => some (s.setRoute k .dropped)
      | _ => none
  | .getTunnelToConnect k =>
      match (s.connection k).route with
      | .routing i => (s.ingress.step .getTunnelToConnect).map fun g =>
          (s.withIngress g).setRoute k (picked i s.ingress.list)
      | _ => none
  | .openBi k =>
      match (s.connection k).route with
      | .opening i t =>
          if s.ingress.isClosed t then none else some (s.setRoute k (.bridged i t))
      | _ => none
  | .openBiFails k =>
      match (s.connection k).route with
      | .opening _ t => if s.ingress.isClosed t then some (s.setRoute k .dropped) else none
      | _ => none
  | .bridge k l =>
      if s.mayStep k l then
        ((s.connection k).bridge.step (s.isCancelled k) l).map (s.setBridge k)
      else none
  | .established t =>
      if s.egress t = .connecting ∧ s.ingress.isClosed t = false then
        some (s.setEgress t .serving)
      else none
  | .acceptStream k =>
      match (s.connection k).route with
      | .bridged _ t =>
          if s.egress t = .serving ∧ s.ingress.isClosed t = false ∧
              (s.connection k).bridge.isAnnounced = true ∧ (s.connection k).isOffered = false then
            some (s.setConnection k { s.connection k with isOffered := true })
          else none
      | _ => none
  | .disconnected t =>
      if s.egress t ≠ .left ∧ s.ingress.isClosed t = true then some (s.setEgress t .left) else none
  | .processCancelled t =>
      if s.egress t = .serving then
        -- the loop closes the tunnel before it returns
        (s.ingress.step (.close t)).map fun g => (s.withIngress g).setEgress t .left
      else none

def system (τ : Type) [DecidableEq τ] (w : ℕ) : System (TcpPath τ w) (Label τ) := ⟨new τ w, step⟩

/-- Steps that neither the ingress nor the tunnel nor the egress takes of its own: those of the
origins and of the egress's side of a stream, failures, and the end of an egress's process. -/
def Label.isEnvironment : Label τ → Bool
  | .ingress (.close _) | .ingress (.accept ..) | .ingress (.acceptFails _) => true
  | .routeFails _ | .processCancelled _ => true
  | .bridge _ l => l.party ≠ .bridge
  | _ => false

/-! ## What a step can do -/

/-- Every step, up to what its label says: one of the ingress, the routing of a connection with or
without one, a step of a bridge, an offer, and a move of an egress. -/
inductive Step (s : TcpPath τ w) : Label τ → TcpPath τ w → Prop
  | ingress {gl : TcpIngress.Label τ} {g : TcpIngress τ w} (hg : s.ingress.step gl = some g) :
      Step s (.ingress gl) (s.withIngress g)
  | routed {l : Label τ} {k : ℕ} {r : RoutePc τ} (hb : s.isBridged k = false) :
      Step s l (s.setRoute k r)
  | routedThrough {l : Label τ} {k : ℕ} {r : RoutePc τ} {gl : TcpIngress.Label τ}
      {g : TcpIngress τ w} (hb : s.isBridged k = false) (hg : s.ingress.step gl = some g)
      (hl : isOfConnection gl = true) : Step s l ((s.withIngress g).setRoute k r)
  | bridge {k : ℕ} {bl : TcpStreamBridge.Label} {b : TcpStreamBridge}
      (hm : s.mayStep k bl = true)
      (hb : (s.connection k).bridge.step (s.isCancelled k) bl = some b) :
      Step s (.bridge k bl) (s.setBridge k b)
  | offered {k i : ℕ} {t : τ} (hr : (s.connection k).route = .bridged i t)
      (hopen : s.ingress.isClosed t = false) (ha : (s.connection k).bridge.isAnnounced = true) :
      Step s (.acceptStream k) (s.setConnection k { s.connection k with isOffered := true })
  | egress {l : Label τ} {t : τ} {pc : AcceptStreamPc}
      (h : pc = .left → s.ingress.isClosed t = true) : Step s l (s.setEgress t pc)
  | left {t : τ} {g : TcpIngress τ w} (hg : s.ingress.step (.close t) = some g) :
      Step s (.processCancelled t) ((s.withIngress g).setEgress t .left)

omit [DecidableEq τ] in
lemma isBridged_eq_false {s : TcpPath τ w} {k : ℕ} {r : RoutePc τ}
    (h : (s.connection k).route = r) (hr : ∀ i t, r ≠ .bridged i t) : s.isBridged k = false := by
  rw [isBridged, h]
  cases r with
  | bridged i t => exact absurd rfl (hr i t)
  | _ => rfl

/-- **What a step can do.** -/
theorem step_cases {s s' : TcpPath τ w} {l : Label τ} (hs : s.step l = some s') : Step s l s' := by
  cases l with
  | ingress gl =>
      simp only [step, Option.ite_none_left_eq_some, Option.map_eq_some_iff] at hs
      obtain ⟨-, g, hg, rfl⟩ := hs
      exact .ingress hg
  | accept k i =>
      simp only [step] at hs
      split at hs
      · rename_i hr
        simp only [Option.map_eq_some_iff] at hs
        obtain ⟨g, hg, rfl⟩ := hs
        exact .routedThrough (isBridged_eq_false hr (by simp)) hg rfl
      · cases hs
  | routeFails k =>
      simp only [step] at hs
      split at hs
      · rename_i hr
        rw [← Option.some.inj hs]
        exact .routed (isBridged_eq_false hr (by simp))
      · cases hs
  | getTunnelToConnect k =>
      simp only [step] at hs
      split at hs
      · rename_i hr
        simp only [Option.map_eq_some_iff] at hs
        obtain ⟨g, hg, rfl⟩ := hs
        exact .routedThrough (isBridged_eq_false hr (by simp)) hg rfl
      · cases hs
  | openBi k =>
      simp only [step] at hs
      split at hs
      · rename_i hr
        simp only [Option.ite_none_left_eq_some, Option.some.injEq] at hs
        obtain ⟨-, rfl⟩ := hs
        exact .routed (isBridged_eq_false hr (by simp))
      · cases hs
  | openBiFails k =>
      simp only [step] at hs
      split at hs
      · rename_i hr
        simp only [Option.ite_none_right_eq_some, Option.some.injEq] at hs
        obtain ⟨-, rfl⟩ := hs
        exact .routed (isBridged_eq_false hr (by simp))
      · cases hs
  | bridge k bl =>
      simp only [step, Option.ite_none_right_eq_some, Option.map_eq_some_iff] at hs
      obtain ⟨hm, b, hb, rfl⟩ := hs
      exact .bridge hm hb
  | established t =>
      simp only [step, Option.ite_none_right_eq_some, Option.some.injEq] at hs
      obtain ⟨-, rfl⟩ := hs
      exact .egress fun h => by cases h
  | acceptStream k =>
      simp only [step] at hs
      split at hs
      · rename_i i t hr
        simp only [Option.ite_none_right_eq_some, Option.some.injEq] at hs
        obtain ⟨⟨-, hopen, ha, -⟩, rfl⟩ := hs
        exact .offered hr hopen ha
      · cases hs
  | disconnected t =>
      simp only [step, Option.ite_none_right_eq_some, Option.some.injEq] at hs
      obtain ⟨⟨-, hclosed⟩, rfl⟩ := hs
      exact .egress fun _ => hclosed
  | processCancelled t =>
      simp only [step, Option.ite_none_right_eq_some, Option.map_eq_some_iff] at hs
      obtain ⟨-, g, hg, rfl⟩ := hs
      exact .left hg

/-- What becomes of connection `k` in a step. -/
inductive Moved (s s' : TcpPath τ w) (l : Label τ) (k : ℕ) : Prop
  | same (h : s'.connection k = s.connection k)
  | routed (r : RoutePc τ) (hb : s.isBridged k = false)
      (h : s'.connection k = { s.connection k with route := r })
  | bridge (bl : TcpStreamBridge.Label) (b : TcpStreamBridge) (hl : l = .bridge k bl)
      (hm : s.mayStep k bl = true)
      (hb : (s.connection k).bridge.step (s.isCancelled k) bl = some b)
      (h : s'.connection k = { s.connection k with bridge := b })
  | offered (i : ℕ) (t : τ) (hr : (s.connection k).route = .bridged i t)
      (hopen : s.ingress.isClosed t = false) (ha : (s.connection k).bridge.isAnnounced = true)
      (h : s'.connection k = { s.connection k with isOffered := true })

omit [DecidableEq τ] in
lemma setConnection_of_ne (s : TcpPath τ w) {j k : ℕ} (h : j ≠ k) (c : TcpConnection τ) :
    (s.setConnection k c).connection j = s.connection j := Function.update_of_ne h ..

omit [DecidableEq τ] in
lemma setConnection_self (s : TcpPath τ w) (k : ℕ) (c : TcpConnection τ) :
    (s.setConnection k c).connection k = c := Function.update_self ..

omit [DecidableEq τ] in
/-- Routing connection `k` is routing for `k` and nothing for the others. -/
lemma moved_setRoute {s g : TcpPath τ w} {l : Label τ} {j k : ℕ} {r : RoutePc τ}
    (hg : g.connection = s.connection) (hb : s.isBridged k = false) :
    Moved s (g.setRoute k r) l j := by
  rcases eq_or_ne j k with rfl | hne
  · refine .routed r hb ?_
    rw [setRoute, setConnection_self, hg]
  · refine .same ?_
    rw [setRoute, setConnection_of_ne _ hne, hg]

/-- **What a step can do to a connection.** -/
theorem moved {s s' : TcpPath τ w} {l : Label τ} (hs : s.step l = some s') (j : ℕ) :
    Moved s s' l j := by
  cases step_cases hs with
  | ingress | egress | left => exact .same rfl
  | routed hb => exact moved_setRoute rfl hb
  | routedThrough hb => exact moved_setRoute rfl hb
  | @bridge k bl b hm hb =>
      rcases eq_or_ne j k with rfl | hne
      · exact .bridge bl b rfl hm hb (setConnection_self ..)
      · exact .same (setConnection_of_ne _ hne _)
  | @offered k i t hr hopen ha =>
      rcases eq_or_ne j k with rfl | hne
      · exact .offered i t hr hopen ha (setConnection_self ..)
      · exact .same (setConnection_of_ne _ hne _)

/-- The ingress under the path takes a step or none, and loses a tunnel or an accept loop only to
the environment. -/
lemma ingress_step {s s' : TcpPath τ w} {l : Label τ} (hs : s.step l = some s') :
    s'.ingress = s.ingress ∨ ∃ gl, s.ingress.step gl = some s'.ingress ∧
      ((∃ t, gl = .close t) ∨ (∃ i, gl = .acceptFails i) → l.isEnvironment = true) := by
  cases step_cases hs with
  | routed | bridge | offered | egress => exact Or.inl rfl
  | @ingress gl g hg =>
      refine Or.inr ⟨gl, hg, ?_⟩
      rintro (⟨t, rfl⟩ | ⟨i, rfl⟩) <;> rfl
  | @routedThrough _ _ _ gl _ _ hg hl =>
      refine Or.inr ⟨gl, hg, ?_⟩
      rintro (⟨t, rfl⟩ | ⟨i, rfl⟩) <;> cases hl
  | left hg => exact Or.inr ⟨_, hg, fun _ => rfl⟩

lemma isClosed_mono {s s' : TcpPath τ w} {l : Label τ} (hs : s.step l = some s') {t : τ}
    (h : s.ingress.isClosed t = true) : s'.ingress.isClosed t = true := by
  rcases ingress_step hs with he | ⟨gl, hg, -⟩
  · rw [he]
    exact h
  · exact TcpIngress.isClosed_mono hg h

/-- An egress leaves its accept loop only with its tunnel closed. -/
lemma egress_step {s s' : TcpPath τ w} {l : Label τ} (hs : s.step l = some s') {t : τ}
    (h : s'.egress t = .left) : s.egress t = .left ∨ s'.ingress.isClosed t = true := by
  cases step_cases hs with
  | ingress | routed | routedThrough | bridge | offered => exact Or.inl h
  | @egress _ u pc hpc =>
      have h' : Function.update s.egress u pc t = .left := h
      rcases eq_or_ne t u with rfl | hne
      · rw [Function.update_self] at h'
        exact Or.inr (hpc h')
      · rw [Function.update_of_ne hne] at h'
        exact Or.inl h'
  | @left u g hg =>
      have h' : Function.update s.egress u .left t = .left := h
      rcases eq_or_ne t u with rfl | hne
      · simp only [TcpIngress.step, Option.some.injEq] at hg
        subst hg
        exact Or.inr (Function.update_self ..)
      · rw [Function.update_of_ne hne] at h'
        exact Or.inl h'

/-! ## The invariant -/

/-- What holds of a connection at any time. -/
structure SoundAt (s : TcpPath τ w) (k : ℕ) : Prop where
  carries : (s.connection k).bridge.Carries
  waits : (s.connection k).bridge.isHeard = false → s.isCancelled k = false →
    s.isLost k = false → (s.connection k).bridge.Silent ∧ (s.connection k).isOffered = false
  intact : (s.connection k).isOffered = false → s.isLost k = false →
    (s.connection k).bridge.tcpToTunnel.outlet.failed = false

structure Sound (s : TcpPath τ w) : Prop where
  unbound : s.ingress.Unbound
  left : ∀ t, s.egress t = .left → s.ingress.isClosed t = true
  connection : ∀ k, s.SoundAt k

omit [DecidableEq τ] in
lemma sound_new : (new τ w).Sound := by
  refine ⟨TcpIngress.unbound_new, fun t h => AcceptStreamPc.noConfusion h, fun k => ?_⟩
  refine ⟨?_, fun _ _ _ => ⟨?_, rfl⟩, ?_⟩
  · exact TcpStreamBridge.carries_new
  · exact TcpStreamBridge.silent_new
  · exact fun _ _ => rfl

/-- As long as a connection keeps its route, its token and its tunnel do not come back. -/
lemma Sound.route_kept {s s' : TcpPath τ w} {l : Label τ} (h : s.Sound) (hs : s.step l = some s')
    {k : ℕ} (hr : (s'.connection k).route = (s.connection k).route) :
    (s'.isCancelled k = false → s.isCancelled k = false) ∧
      (s'.isLost k = false → s.isLost k = false) := by
  rw [isCancelled, isCancelled, isLost, isLost, hr]
  cases (s.connection k).route with
  | bridged i t =>
      refine ⟨fun hc => ?_, fun hl => ?_⟩
      · rw [decide_eq_false_iff_not] at hc ⊢
        intro hi
        rcases ingress_step hs with he | ⟨gl, hg, -⟩
        · exact hc (by rw [he]; exact hi)
        · exact hc (h.unbound.finished_mono hg hi)
      · rw [← Bool.not_eq_true] at hl ⊢
        exact fun ht => hl (isClosed_mono hs ht)
  | _ => exact ⟨fun _ => rfl, fun _ => rfl⟩

omit [DecidableEq τ] in
lemma not_lost_of_not_bridged {s : TcpPath τ w} {k : ℕ} (h : s.isBridged k = false) :
    s.isCancelled k = false ∧ s.isLost k = false := by
  rw [isBridged] at h
  rw [isCancelled, isLost]
  cases hr : (s.connection k).route with
  | bridged i t =>
      rw [hr] at h
      cases h
  | _ => exact ⟨rfl, rfl⟩

omit [DecidableEq τ] in
/-- Nobody acts from the tunnel's side on a stream of an open tunnel that was not offered. -/
lemma party_ne_tunnel {s : TcpPath τ w} {k : ℕ} {bl : TcpStreamBridge.Label}
    (hm : s.mayStep k bl = true) (ho : (s.connection k).isOffered = false)
    (hl : s.isLost k = false) : bl.party ≠ .tunnel := by
  intro hp
  rw [mayStep, hp, ho, hl] at hm
  cases hm

lemma Sound.stepAt {s s' : TcpPath τ w} {l : Label τ} (h : s.Sound) (hs : s.step l = some s')
    (k : ℕ) : s'.SoundAt k := by
  have hk := h.connection k
  cases moved hs k with
  | same hc =>
      obtain ⟨hcan, hlost⟩ := h.route_kept hs (congrArg TcpConnection.route hc)
      refine ⟨?_, fun hq h₁ h₂ => ?_, fun ho h₂ => ?_⟩
      · rw [hc]
        exact hk.carries
      · rw [hc] at hq ⊢
        exact hk.waits hq (hcan h₁) (hlost h₂)
      · rw [hc] at ho ⊢
        exact hk.intact ho (hlost h₂)
  | routed r hb hc =>
      obtain ⟨hcan, hlost⟩ := not_lost_of_not_bridged hb
      refine ⟨?_, fun hq _ _ => ?_, fun ho _ => ?_⟩
      · rw [hc]
        exact hk.carries
      · rw [hc] at hq ⊢
        exact hk.waits hq hcan hlost
      · rw [hc] at ho ⊢
        exact hk.intact ho hlost
  | bridge bl b hl hm hb hc =>
      obtain ⟨hcan, hlost⟩ := h.route_kept hs (by rw [hc])
      refine ⟨?_, fun hq h₁ h₂ => ?_, fun ho h₂ => ?_⟩
      · rw [hc]
        exact hk.carries.step hb
      · rw [hc] at hq ⊢
        have hq₀ : (s.connection k).bridge.isHeard = false := by
          rw [← Bool.not_eq_true]
          intro hheard
          rw [TcpStreamBridge.isHeard_mono hb hheard] at hq
          cases hq
        obtain ⟨hsilent, ho⟩ := hk.waits hq₀ (hcan h₁) (hlost h₂)
        rw [hcan h₁] at hb
        exact ⟨hsilent.step (party_ne_tunnel hm ho (hlost h₂)) hb hq, ho⟩
      · rw [hc] at ho ⊢
        have hp := party_ne_tunnel hm ho (hlost h₂)
        exact (TcpStreamBridge.outlet_failed_of_step hb hp).trans (hk.intact ho (hlost h₂))
  | offered i t hr hopen ha hc =>
      obtain ⟨hcan, hlost⟩ := h.route_kept hs (by rw [hc])
      refine ⟨?_, fun hq h₁ h₂ => ?_, fun ho _ => ?_⟩
      · rw [hc]
        exact hk.carries
      · rw [hc] at hq
        obtain ⟨hsilent, -⟩ := hk.waits hq (hcan h₁) (hlost h₂)
        rw [show (s.connection k).bridge.isAnnounced = false from hsilent.tcpToTunnel.shown] at ha
        cases ha
      · rw [hc] at ho
        cases ho

theorem Sound.step {s s' : TcpPath τ w} {l : Label τ} (h : s.Sound) (hs : s.step l = some s') :
    s'.Sound := by
  refine ⟨?_, fun t ht => ?_, h.stepAt hs⟩
  · rcases ingress_step hs with he | ⟨gl, hg, -⟩
    · rw [he]
      exact h.unbound
    · exact h.unbound.step hg
  · rcases egress_step hs ht with hleft | hclosed
    · exact isClosed_mono hs (h.left t hleft)
    · exact hclosed

theorem sound_run {ls : List (Label τ)} {s : TcpPath τ w} (h : (system τ w).Run ls s) : s.Sound :=
  h.invariant sound_new fun _ _ _ hi hs => hi.step hs

end TcpPath

end Siffleux
