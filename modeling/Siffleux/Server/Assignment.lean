import Siffleux.Server.AccessControl
import Siffleux.Server.Ingress.TcpIngress
import Siffleux.Server.Ingress.UdpReader

/-!
# The server and its ingresses

`Server::handle_connection` calls `assign_tunnel` of an ingress and waits for its result; the
ingress, meanwhile, is started and stopped by whoever likes.  This module runs the two together,
for any number of connections and ingresses.  A tunnel is named by the number of its connection.

* `ServerSystem.step` — a step of the server or of one of the ingresses.  `assign_tunnel` runs when
  the connection's task has called it, and the task goes on with what it returns.
* `assignSound_run` — what the task knows of the result when it serves the command stream.
* `served_registered_iff` — the tunnels that are served are registered, exactly in the runs in which
  no UDP ingress is asked before it listens.
-/

namespace Siffleux

open ByteBuf Framing Transition

/-! ## Any kind of ingress -/

inductive IngressKind where
  | tcp
  | udp
  deriving DecidableEq, Repr

/-- What a `Box<dyn Ingress>` holds. -/
inductive BoxedIngress (w : ℕ) where
  | tcp (s : TcpIngress ℕ w)
  | udp (s : UdpIngress ℕ w)

namespace BoxedIngress

variable {w : ℕ}

def new (w : ℕ) : IngressKind → BoxedIngress w
  | .tcp => .tcp (.new ℕ w)
  | .udp => .udp (.new ℕ w)

inductive Label where
  | tcp (l : TcpIngress.Label ℕ)
  | udp (l : UdpIngress.Label ℕ)
  deriving DecidableEq

def step : BoxedIngress w → Label → Option (BoxedIngress w)
  | .tcp s, .tcp l => (s.step l).map .tcp
  | .udp s, .udp l => (s.step l).map .udp
  | _, _ => none

def list : BoxedIngress w → TunnelList ℕ w
  | .tcp s => s.list
  | .udp s => s.list

def isClosed : BoxedIngress w → ℕ → Bool
  | .tcp s => s.isClosed
  | .udp s => s.isClosed

/-- The first thing `assign_tunnel` does with tunnel `k`. -/
def beginsAssign : Label → Option ℕ
  | .tcp (.list (.spawnWatcher k)) => some k
  | .udp (.assignTunnel k) => some k
  | _ => none

/-- What `assign_tunnel` has returned for tunnel `k`, if it has. -/
def assignReturned : BoxedIngress w → ℕ → Option (Except Error Unit)
  | .tcp s, k => if s.list.assign k = .returned then some (.ok ()) else none
  | .udp s, k =>
      if s.assign k = .rejected then some (.error .ingressNotListening)
      else if s.list.assign k = .returned then some (.ok ())
      else none

/-- The one thing `assign_tunnel` can fail over. -/
def isRejecting : BoxedIngress w → Bool
  | .tcp _ => false
  | .udp s => s.udpSocket = none

/-- The ingress is in a state some run leads to. -/
def Reachable : BoxedIngress w → Prop
  | .tcp s => ∃ ls, (TcpIngress.system ℕ w).Run ls s
  | .udp s => ∃ ls, (UdpIngress.system ℕ w).Run ls s

lemma reachable_new (kind : IngressKind) : (new w kind).Reachable := by
  cases kind with
  | tcp => exact ⟨[], .nil⟩
  | udp => exact ⟨[], .nil⟩

lemma Reachable.step {g g' : BoxedIngress w} {l : Label} (h : g.Reachable)
    (hs : g.step l = some g') : g'.Reachable := by
  cases g with
  | tcp s =>
      obtain ⟨ls, hr⟩ := h
      cases l with
      | tcp l =>
          simp only [BoxedIngress.step, Option.map_eq_some_iff] at hs
          obtain ⟨s', hs', rfl⟩ := hs
          exact ⟨ls ++ [l], hr.snoc hs'⟩
      | udp l => cases hs
  | udp s =>
      obtain ⟨ls, hr⟩ := h
      cases l with
      | tcp l => cases hs
      | udp l =>
          simp only [BoxedIngress.step, Option.map_eq_some_iff] at hs
          obtain ⟨s', hs', rfl⟩ := hs
          exact ⟨ls ++ [l], hr.snoc hs'⟩

/-- **A tunnel whose `assign_tunnel` got to its end is in the list while it is open.** -/
lemma Reachable.listed {g : BoxedIngress w} {k : ℕ} (h : g.Reachable)
    (hk : g.list.assign k = .returned) (hc : g.isClosed k = false) : k ∈ g.list.tunnels := by
  have hp : ∀ {isClosed : ℕ → Bool} {list : TunnelList ℕ w}, list.assign k = .returned →
      (list.abs isClosed).pushed k = true := fun ha => by
    simp [TunnelList.abs, ha]
  cases g with
  | tcp s =>
      obtain ⟨ls, hr⟩ := h
      exact Registry.listed_of_open ((TcpIngress.simulation ℕ w).run hr) (hp hk) hc
  | udp s =>
      obtain ⟨ls, hr⟩ := h
      exact Registry.listed_of_open ((UdpIngress.simulation ℕ w).run hr) (hp hk) hc

end BoxedIngress

lemma TcpIngress.returned_mono {w : ℕ} {s s' : TcpIngress ℕ w} {l : TcpIngress.Label ℕ}
    (hs : s.step l = some s') {k : ℕ} (hk : s.list.assign k = .returned) :
    s'.list.assign k = .returned := by
  cases TcpIngress.step_cases hs with
  | list ht => exact TunnelList.returned_mono ht hk
  | _ => exact hk

namespace UdpIngress

variable {w : ℕ}

lemma returned_mono {s s' : UdpIngress ℕ w} {l : Label ℕ} (hs : s.step l = some s') {k : ℕ}
    (hk : s.list.assign k = .returned) : s'.list.assign k = .returned := by
  cases step_cases hs with
  | list _ ht => exact TunnelList.returned_mono ht hk
  | _ => exact hk

/-- Once `assign_tunnel` has read the socket and spawned the reader, or has failed, that is it. -/
lemma assign_mono {s s' : UdpIngress ℕ w} {l : Label ℕ} (hs : s.step l = some s') {k : ℕ}
    (hk : s.assign k = .rejected ∨ s.assign k = .register) : s'.assign k = s.assign k := by
  have hne : ∀ {t : ℕ}, s.assign t ≠ .rejected → s.assign t ≠ .register → k ≠ t := by
    rintro t h₁ h₂ rfl
    exact hk.elim h₁ h₂
  cases step_cases hs with
  | assigned ht | rejected ht | readerSpawned ht =>
      exact Function.update_of_ne (hne (by rw [ht]; simp) (by rw [ht]; simp)) ..
  | _ => rfl

end UdpIngress

namespace BoxedIngress

variable {w : ℕ}

/-- What has been returned stays returned. -/
lemma Reachable.assignReturned_mono {g g' : BoxedIngress w} {l : Label} (h : g.Reachable)
    (hs : g.step l = some g') {k : ℕ} {r : Except Error Unit} (hr : g.assignReturned k = some r) :
    g'.assignReturned k = some r := by
  cases g with
  | tcp s =>
      cases l with
      | tcp l =>
          simp only [BoxedIngress.step, Option.map_eq_some_iff] at hs
          obtain ⟨s', hs', rfl⟩ := hs
          simp only [assignReturned, Option.ite_none_right_eq_some] at hr ⊢
          exact ⟨TcpIngress.returned_mono hs' hr.1, hr.2⟩
      | udp l => cases hs
  | udp s =>
      obtain ⟨ls, hrun⟩ := h
      cases l with
      | tcp l => cases hs
      | udp l =>
          simp only [BoxedIngress.step, Option.map_eq_some_iff] at hs
          obtain ⟨s', hs', rfl⟩ := hs
          rw [assignReturned] at hr ⊢
          split_ifs at hr with hrej hret
          · rw [if_pos ((UdpIngress.assign_mono hs' (Or.inl hrej)).trans hrej)]
            exact hr
          · have hreg := UdpIngress.register_of_assign hrun k (by rw [hret]; simp)
            have hreg' := (UdpIngress.assign_mono hs' (Or.inr hreg)).trans hreg
            rw [if_neg (by rw [hreg']; simp), if_pos (UdpIngress.returned_mono hs' hret)]
            exact hr

/-- `assign_tunnel` has been at work on tunnel `k`. -/
def HasBegun : BoxedIngress w → ℕ → Prop
  | .tcp s, k => s.list.assign k ≠ .notCalled
  | .udp s, k => s.assign k ≠ .notCalled

lemma not_hasBegun_new (kind : IngressKind) (k : ℕ) : ¬ (new w kind).HasBegun k := by
  cases kind with
  | tcp => exact fun h => h rfl
  | udp => exact fun h => h rfl

lemma hasBegun_step {g g' : BoxedIngress w} {l : Label} (hs : g.step l = some g') {k : ℕ}
    (h : g'.HasBegun k) : g.HasBegun k ∨ beginsAssign l = some k := by
  cases g with
  | tcp s =>
      cases l with
      | tcp l =>
          simp only [BoxedIngress.step, Option.map_eq_some_iff] at hs
          obtain ⟨s', hs', rfl⟩ := hs
          cases TcpIngress.step_cases hs' with
          | @list tl list ht =>
              rcases TunnelList.assign_step ht k with he | ⟨rfl, -⟩ | ⟨rfl, hp⟩
              · exact Or.inl fun e => h (he.trans e)
              · exact Or.inr rfl
              · exact Or.inl (by rw [HasBegun, hp]; simp)
          | _ => exact Or.inl h
      | udp l => cases hs
  | udp s =>
      cases l with
      | tcp l => cases hs
      | udp l =>
          simp only [BoxedIngress.step, Option.map_eq_some_iff] at hs
          obtain ⟨s', hs', rfl⟩ := hs
          have hset : ∀ {t : ℕ} {pc : UdpAssignPc}, s'.assign = Function.update s.assign t pc →
              k ≠ t → s.assign k ≠ .notCalled := by
            intro t pc he hne
            have h' : s'.assign k ≠ .notCalled := h
            rwa [he, Function.update_of_ne hne] at h'
          cases UdpIngress.step_cases hs' with
          | @assigned t | @rejected t =>
              rcases eq_or_ne k t with rfl | hne
              · exact Or.inr rfl
              · exact Or.inl (hset rfl hne)
          | @readerSpawned t i ht =>
              rcases eq_or_ne k t with rfl | hne
              · exact Or.inl (by rw [HasBegun, ht]; simp)
              · exact Or.inl (hset rfl hne)
          | _ => exact Or.inl h

/-- A tunnel comes to the list through `assign_tunnel`. -/
lemma Reachable.hasBegun_of_listed {g : BoxedIngress w} {k : ℕ} (h : g.Reachable)
    (hk : k ∈ g.list.tunnels) : g.HasBegun k := by
  have hp : ∀ {isClosed : ℕ → Bool} {list : TunnelList ℕ w},
      (list.abs isClosed).pushed k = true → list.assign k = .returned := fun ha => beq_iff_eq.mp ha
  cases g with
  | tcp s =>
      obtain ⟨ls, hr⟩ := h
      have ha : s.list.assign k = .returned :=
        hp (Registry.pushed_of_listed ((TcpIngress.simulation ℕ w).run hr) hk)
      rw [HasBegun, ha]
      simp
  | udp s =>
      obtain ⟨ls, hr⟩ := h
      have ha : s.list.assign k = .returned :=
        hp (Registry.pushed_of_listed ((UdpIngress.simulation ℕ w).run hr) hk)
      rw [HasBegun, UdpIngress.register_of_assign hr k (by rw [ha]; simp)]
      simp

/-- `assign_tunnel` has refused tunnel `k`. -/
def HasRejected : BoxedIngress w → ℕ → Prop
  | .tcp _, _ => False
  | .udp s, k => s.assign k = .rejected

lemma HasRejected.hasBegun {g : BoxedIngress w} {k : ℕ} (h : g.HasRejected k) : g.HasBegun k := by
  cases g with
  | tcp s => exact h.elim
  | udp s =>
      have h' : s.assign k = .rejected := h
      rw [HasBegun, h']
      simp

lemma HasRejected.step {g g' : BoxedIngress w} {l : Label} {k : ℕ} (h : g.HasRejected k)
    (hs : g.step l = some g') : g'.HasRejected k := by
  cases g with
  | tcp s => exact h.elim
  | udp s =>
      cases l with
      | tcp l => cases hs
      | udp l =>
          simp only [BoxedIngress.step, Option.map_eq_some_iff] at hs
          obtain ⟨s', hs', rfl⟩ := hs
          exact (UdpIngress.assign_mono hs' (Or.inl h)).trans h

lemma hasRejected_of_rejecting {g g' : BoxedIngress w} {k : ℕ}
    (hs : g.step (.udp (.assignTunnel k)) = some g') (hr : g.isRejecting = true) :
    g'.HasRejected k := by
  cases g with
  | tcp s => cases hs
  | udp s =>
      have hn : s.udpSocket = none := of_decide_eq_true hr
      simp only [BoxedIngress.step, UdpIngress.step, hn, Option.map_eq_some_iff,
        Option.ite_none_right_eq_some, Option.some.injEq] at hs
      obtain ⟨s', ⟨-, rfl⟩, rfl⟩ := hs
      exact Function.update_self ..

lemma HasRejected.not_ok {g : BoxedIngress w} {k : ℕ} (h : g.HasRejected k) :
    g.assignReturned k ≠ some (.ok ()) := by
  cases g with
  | tcp s => exact h.elim
  | udp s =>
      have h' : s.assign k = .rejected := h
      rw [assignReturned, if_pos h']
      simp

/-- Nothing else goes wrong in `assign_tunnel`. -/
lemma assignReturned_cases {g : BoxedIngress w} {k : ℕ} {r : Except Error Unit}
    (h : g.assignReturned k = some r) :
    g.HasRejected k ∨ (r = .ok () ∧ g.list.assign k = .returned) := by
  cases g with
  | tcp s =>
      simp only [assignReturned, Option.ite_none_right_eq_some, Option.some.injEq] at h
      exact Or.inr ⟨h.2.symm, h.1⟩
  | udp s =>
      rw [assignReturned] at h
      split_ifs at h with hrej hret
      · exact Or.inl hrej
      · exact Or.inr ⟨(Option.some.inj h).symm, hret⟩

/-- Only an ingress that does not listen refuses a tunnel. -/
lemma hasRejected_step {g g' : BoxedIngress w} {l : Label} (hs : g.step l = some g') {k : ℕ}
    (h : g'.HasRejected k) :
    g.HasRejected k ∨ (l = .udp (.assignTunnel k) ∧ g.isRejecting = true) := by
  cases g with
  | tcp s =>
      cases l with
      | tcp l =>
          simp only [BoxedIngress.step, Option.map_eq_some_iff] at hs
          obtain ⟨s', -, rfl⟩ := hs
          exact h.elim
      | udp l => cases hs
  | udp s =>
      cases l with
      | tcp l => cases hs
      | udp l =>
          simp only [BoxedIngress.step, Option.map_eq_some_iff] at hs
          obtain ⟨s', hs', rfl⟩ := hs
          have hset : ∀ {t : ℕ} {pc : UdpAssignPc}, s'.assign = Function.update s.assign t pc →
              pc ≠ .rejected → s.assign k = .rejected := by
            intro t pc he hpc
            have h' : s'.assign k = .rejected := h
            rw [he] at h'
            rcases eq_or_ne k t with rfl | hne
            · rw [Function.update_self] at h'
              exact absurd h' hpc
            · rwa [Function.update_of_ne hne] at h'
          cases UdpIngress.step_cases hs' with
          | assigned => exact Or.inl (hset rfl (by simp))
          | readerSpawned => exact Or.inl (hset rfl (by simp))
          | @rejected t ht hi =>
              rcases eq_or_ne k t with rfl | hne
              · exact Or.inr ⟨rfl, decide_eq_true hi⟩
              · exact Or.inl ((Function.update_of_ne hne ..).symm.trans h)
          | _ => exact Or.inl h

end BoxedIngress

/-! ## The two together -/

/-- An ingress learns of a closed tunnel in a step of its own, `close`, which may also come while
the connection is open: there are more runs here than the program has. -/
structure ServerSystem (w : ℕ) where
  server : Server
  ingress : ℕ → BoxedIngress w

namespace ServerSystem

variable {w : ℕ} {serverId : ServerId} {kind : ℕ → IngressKind}

def new (w : ℕ) (kind : ℕ → IngressKind) : ServerSystem w := ⟨.new, fun name => .new w (kind name)⟩

inductive Label where
  | server (l : Server.Label)
  | assignReturns (k : ℕ)
  | ingress (name : ℕ) (l : BoxedIngress.Label)

def handler (s : ServerSystem w) (k : ℕ) : HandlerPc := (s.server.connection k).handler

def withServer (s : ServerSystem w) (g : Server) : ServerSystem w := { s with server := g }

def setIngress (s : ServerSystem w) (name : ℕ) (g : BoxedIngress w) : ServerSystem w :=
  { s with ingress := Function.update s.ingress name g }

@[simp] lemma setIngress_ingress (s : ServerSystem w) (name : ℕ) (g : BoxedIngress w) :
    (s.setIngress name g).ingress = Function.update s.ingress name g := rfl

/-- The result of `assign_tunnel` is not the server's choice, and a read that reports the
connection lost reports why it was. -/
def allows (s : ServerSystem w) : Server.Label → Bool
  | .handler _ (.assignReturns _) => false
  | .handler k (.readFails (.connectionLost e)) => (s.server.connection k).lost = some e
  | _ => true

/-- The task of connection `k` is inside `assign_tunnel` of the ingress. -/
def isAssigning (s : ServerSystem w) (name k : ℕ) : Bool :=
  match s.handler k with
  | .assigning ingress _ _ => ingress.name = name
  | _ => false

/-- `assign_tunnel` runs only where it was called. -/
def mayRun (s : ServerSystem w) (name : ℕ) (l : BoxedIngress.Label) : Bool :=
  match BoxedIngress.beginsAssign l with
  | some k => s.isAssigning name k
  | none => true

def step (serverId : ServerId) (s : ServerSystem w) : Label → Option (ServerSystem w)
  | .server l => if s.allows l then (s.server.step serverId l).map s.withServer else none
  | .assignReturns k =>
      match s.handler k with
      | .assigning ingress _ _ =>
          match (s.ingress ingress.name).assignReturned k with
          | some result =>
              (s.server.step serverId (.handler k (.assignReturns result))).map s.withServer
          | none => none
      | _ => none
  | .ingress name l =>
      if s.mayRun name l then ((s.ingress name).step l).map (s.setIngress name) else none

def system (w : ℕ) (serverId : ServerId) (kind : ℕ → IngressKind) :
    System (ServerSystem w) Label := ⟨new w kind, step serverId⟩

/-- A step is one of the server, or one of an ingress. -/
inductive Step (serverId : ServerId) (s : ServerSystem w) : Label → ServerSystem w → Prop
  | server {l : Server.Label} {g : Server} (ha : s.allows l = true)
      (hg : s.server.step serverId l = some g) : Step serverId s (.server l) (s.withServer g)
  | assigned {k : ℕ} {ingress : Ingress} {tunnelId : Uuid} {r : FramedRead}
      {result : Except Error Unit} {g : Server} (hk : s.handler k = .assigning ingress tunnelId r)
      (hr : (s.ingress ingress.name).assignReturned k = some result)
      (hg : s.server.step serverId (.handler k (.assignReturns result)) = some g) :
      Step serverId s (.assignReturns k) (s.withServer g)
  | ingress {name : ℕ} {l : BoxedIngress.Label} {g : BoxedIngress w} (hm : s.mayRun name l = true)
      (hg : (s.ingress name).step l = some g) :
      Step serverId s (.ingress name l) (s.setIngress name g)

theorem step_cases {s s' : ServerSystem w} {l : Label} (hs : s.step serverId l = some s') :
    Step serverId s l s' := by
  cases l with
  | server l =>
      simp only [step, Option.ite_none_right_eq_some, Option.map_eq_some_iff] at hs
      obtain ⟨ha, g, hg, rfl⟩ := hs
      exact .server ha hg
  | assignReturns k =>
      simp only [step] at hs
      split at hs
      · rename_i ingress tunnelId r hk
        split at hs
        · rename_i result hr
          simp only [Option.map_eq_some_iff] at hs
          obtain ⟨g, hg, rfl⟩ := hs
          exact .assigned hk hr hg
        · cases hs
      · cases hs
  | ingress name l =>
      simp only [step, Option.ite_none_right_eq_some, Option.map_eq_some_iff] at hs
      obtain ⟨hm, g, hg, rfl⟩ := hs
      exact .ingress hm hg

end ServerSystem

/-! ## What the task knows of `assign_tunnel` -/

namespace ServerConnection

/-- The task serves the command stream. -/
def isServing : HandlerPc → Bool
  | .commands .. | .pong .. => true
  | _ => false

/-- What is known where the task is; `R ingress result` says that `assign_tunnel` of the ingress
has returned. -/
def AssignKnown (R : Ingress → Except Error Unit → Prop) (c : ServerConnection) : HandlerPc → Prop
  | .assign .. => c.assigned = [] ∧ c.tunnel.isSome = true
  | .assigning ingress _ _ => c.assigned = [ingress] ∧ c.tunnel.isSome = true
  | .commands .. | .pong .. => c.tunnel.isSome = true ∧
      ∃ ingress result, c.assigned = [ingress] ∧ c.assignResult = some result ∧ R ingress result
  | .closeTunnel .. | .served _ => c.tunnel.isSome = true
  | .panicked => c.assigned ≠ [] → c.tunnel.isSome = true
  | _ => c.assigned = []

def AssignSound (R : Ingress → Except Error Unit → Prop) (c : ServerConnection) : Prop :=
  c.AssignKnown R c.handler

variable {R R' : Ingress → Except Error Unit → Prop} {c c' : ServerConnection}

/-- The fields that `AssignKnown` is about. -/
structure SameAssign (c c' : ServerConnection) : Prop where
  assigned : c'.assigned = c.assigned
  assignResult : c'.assignResult = c.assignResult
  tunnel : c'.tunnel = c.tunnel

lemma SameAssign.refl (c : ServerConnection) : SameAssign c c := ⟨rfl, rfl, rfl⟩

lemma sameAssign_close (c : ServerConnection) (code : VarInt) (reason : Bytes) :
    SameAssign c (c.close code reason) := ⟨by simp, by simp, by simp⟩

lemma AssignKnown.congr {pc : HandlerPc} (h : c.AssignKnown R pc) (hs : SameAssign c c')
    (hR : ∀ ingress result, R ingress result → R' ingress result) : c'.AssignKnown R' pc := by
  obtain ⟨ha, hr, ht⟩ := hs
  cases pc
  case commands | pong =>
    obtain ⟨htun, ingress, result, h₁, h₂, h₃⟩ := h
    exact ⟨ht ▸ htun, ingress, result, ha ▸ h₁, hr ▸ h₂, hR _ _ h₃⟩
  all_goals
    simp only [AssignKnown, ha, ht] at h ⊢
    exact h

/-- A poll of the handshake leaves the task before its call of `assign_tunnel`. -/
lemma assignSound_pollAuth (h : c.assigned = []) (r : FramedRead) :
    (c.pollAuth r).AssignSound R := by
  rw [pollAuth]
  split
  · exact fun hne => absurd ((leave_assigned ..).trans h) hne
  · exact h
  · exact (leave_assigned ..).trans h
  · rename_i frame r' _
    cases frame with
    | auth k i => exact h
    | _ => exact (close_assigned ..).trans h
  · exact (close_assigned ..).trans h

lemma assignSound_onCommandError (h : c.tunnel.isSome = true) (tunnelId : Uuid) (e : Error) :
    (c.onCommandError tunnelId e).AssignSound R := by
  rw [onCommandError]
  split
  · exact (congrArg Option.isSome (leave_tunnel ..)).trans h
  · exact h

/-- A poll of the command stream goes on serving it, or leaves it. -/
lemma assignSound_pollCommands {tunnelId : Uuid} {r : FramedRead}
    (h : c.AssignKnown R (.commands tunnelId r)) (r' : FramedRead) :
    (c.pollCommands tunnelId r').AssignSound R := by
  rw [pollCommands]
  have hleave := fun pc => (congrArg Option.isSome (c.leave_tunnel pc)).trans h.1
  split
  · exact fun _ => hleave _
  · exact h
  · exact hleave _
  · exact h
  · exact h
  · exact assignSound_onCommandError h.1 _ _

lemma assignSound_write {tunnelId : Uuid} {r : FramedRead}
    (h : c.AssignKnown R (.commands tunnelId r)) (frame : FrameV1) (failure : Option WriteError) :
    (c.write frame (.commands tunnelId r) (.closeTunnel tunnelId) failure).AssignSound R := by
  cases failure with
  | none => exact h
  | some e => exact h.1

lemma assignSound_reject (h : c.assigned = []) (code : VarInt) (reason : Bytes) (e : Error) :
    (c.reject code reason e).AssignSound R := (close_assigned ..).trans h

@[simp] lemma pollAuth_assigned (c : ServerConnection) (r : FramedRead) :
    (c.pollAuth r).assigned = c.assigned := by
  rw [pollAuth]
  split
  · exact leave_assigned ..
  · rfl
  · exact leave_assigned ..
  · rename_i frame _ _
    cases frame with
    | auth => rfl
    | _ => exact close_assigned ..
  · exact close_assigned ..

@[simp] lemma onCommandError_assigned (c : ServerConnection) (tunnelId : Uuid) (e : Error) :
    (c.onCommandError tunnelId e).assigned = c.assigned := by
  rw [onCommandError]
  split
  · exact leave_assigned ..
  · rfl

@[simp] lemma pollCommands_assigned (c : ServerConnection) (tunnelId : Uuid) (r : FramedRead) :
    (c.pollCommands tunnelId r).assigned = c.assigned := by
  rw [pollCommands]
  split
  · exact leave_assigned ..
  · rfl
  · exact leave_assigned ..
  · rfl
  · rfl
  · exact onCommandError_assigned ..

@[simp] lemma write_assigned (c : ServerConnection) (frame : FrameV1) (pc : HandlerPc)
    (failed : Error → HandlerPc) (failure : Option WriteError) :
    (c.write frame pc failed failure).assigned = c.assigned := by
  cases failure <;> rfl

lemma assigned_mono {serverId : ServerId} {registry : IngressId → Option Ingress} {l : Label}
    (hs : c.step serverId registry l = some c') : c.assigned ⊆ c'.assigned := by
  cases step_cases hs with
  | assignCalled => exact List.subset_append_left ..
  | commandFails => exact (onCommandError_assigned ..).symm ▸ List.Subset.refl _
  | commandPolled => exact (pollCommands_assigned ..).symm ▸ List.Subset.refl _
  | authPolled => exact (pollAuth_assigned ..).symm ▸ List.Subset.refl _
  | pinged | ponged => exact (write_assigned ..).symm ▸ List.Subset.refl _
  | replyFails => exact (leave_assigned ..).symm ▸ List.Subset.refl _
  | noStream | authFails | timedOut | notFound | wrongKey | tunnelClosed =>
      exact (close_assigned ..).symm ▸ List.Subset.refl _
  | _ => exact List.Subset.refl _

/-- **Every step of the task**, if what it takes for the result of `assign_tunnel` is that. -/
theorem AssignSound.step {serverId : ServerId} {registry : IngressId → Option Ingress} {l : Label}
    (h : c.AssignSound R) (hR : ∀ ingress result, R ingress result → R' ingress result)
    (hl : ∀ ingress tunnelId r result, c.handler = .assigning ingress tunnelId r →
      l = .assignReturns result → R' ingress result)
    (hs : c.step serverId registry l = some c') : c'.AssignSound R' := by
  have hk : c.AssignKnown R' c.handler := AssignKnown.congr h (.refl c) hR
  cases step_cases hs with
  | @handshaken ok hc =>
      rw [hc] at hk
      cases ok <;> exact hk
  | accepted hc | authData hc | authEof hc | found hc | rightKey hc =>
      rw [hc] at hk
      exact hk
  | noStream hc =>
      rw [hc] at hk
      exact (close_assigned ..).trans hk
  | commandData hc | commandEof hc =>
      rw [hc] at hk
      exact hk
  | authFails hc =>
      rw [hc] at hk
      exact assignSound_reject hk _ _ _
  | commandFails hc =>
      rw [hc] at hk
      exact assignSound_onCommandError hk.1 _ _
  | authPolled hc =>
      rw [hc] at hk
      exact assignSound_pollAuth hk _
  | commandPolled hc =>
      rw [hc] at hk
      exact assignSound_pollCommands hk _
  | timedOut hc | notFound hc | wrongKey hc =>
      rw [hc] at hk
      exact assignSound_reject hk _ _ _
  | replied hc =>
      rw [hc] at hk
      exact ⟨hk, rfl⟩
  | replyFails hc =>
      rw [hc] at hk
      exact (leave_assigned ..).trans hk
  | @assignCalled ingress _ _ hc =>
      rw [hc] at hk
      refine ⟨?_, hk.2⟩
      show c.assigned ++ [ingress] = [ingress]
      rw [hk.1, List.nil_append]
  | assignReturned hc =>
      rw [hc] at hk
      exact ⟨hk.2, _, _, hk.1, rfl, hl _ _ _ _ hc rfl⟩
  | pinged hc | ponged hc =>
      rw [hc] at hk
      exact assignSound_write hk _ _
  | tunnelClosed hc =>
      rw [hc] at hk
      exact (congrArg Option.isSome (close_tunnel ..)).trans hk

end ServerConnection

/-! ## Tunnels that are served -/

namespace ServerSystem

variable {w : ℕ} {serverId : ServerId} {kind : ℕ → IngressKind} {s s' : ServerSystem w} {l : Label}

/-- `assign_tunnel` of the ingress has returned for tunnel `k`. -/
def Returned (s : ServerSystem w) (k : ℕ) (ingress : Ingress) (result : Except Error Unit) : Prop :=
  (s.ingress ingress.name).assignReturned k = some result

/-- The ingresses are as their own runs leave them, every task knows what was returned, and an
ingress works on the tunnels it was given. -/
structure AssignSound (s : ServerSystem w) : Prop where
  reachable : ∀ name, (s.ingress name).Reachable
  connection : ∀ k, (s.server.connection k).AssignSound (s.Returned k)
  begun : ∀ name k, (s.ingress name).HasBegun k →
    ∃ ingress ∈ (s.server.connection k).assigned, ingress.name = name

lemma assignSound_new : (new w kind).AssignSound :=
  ⟨fun _ => BoxedIngress.reachable_new _, fun _ => rfl,
    fun _ k h => absurd h (BoxedIngress.not_hasBegun_new _ k)⟩

/-- A task that is inside `assign_tunnel` has called it. -/
lemma AssignSound.isAssigning (h : s.AssignSound) {name k : ℕ} (ha : s.isAssigning name k = true) :
    ∃ ingress ∈ (s.server.connection k).assigned, ingress.name = name := by
  have hc := h.connection k
  rw [ServerConnection.AssignSound] at hc
  rw [ServerSystem.isAssigning, handler] at ha
  generalize (s.server.connection k).handler = pc at hc ha
  cases pc with
  | assigning ingress tunnelId r =>
      have hcalled : (s.server.connection k).assigned = [ingress] := hc.1
      exact ⟨ingress, by rw [hcalled]; exact List.mem_singleton_self _, of_decide_eq_true ha⟩
  | _ => cases ha

/-- A step of the server, at any of its connections. -/
lemma AssignSound.server {g : Server} {sl : Server.Label} (h : s.AssignSound)
    (hg : s.server.step serverId sl = some g) (k : ℕ)
    (hl : ∀ result ingress tunnelId r, sl = .handler k (.assignReturns result) →
      s.handler k = .assigning ingress tunnelId r → s.Returned k ingress result) :
    (g.connection k).AssignSound (s.Returned k) := by
  have hk := h.connection k
  cases Server.connection_moved hg k with
  | same he =>
      rw [he]
      exact hk
  | spawned hn he =>
      rw [ServerConnection.AssignSound, hn] at hk
      rw [he]
      exact hk
  | lost e hn he =>
      rw [he]
      exact ServerConnection.AssignKnown.congr hk ⟨rfl, rfl, rfl⟩ fun _ _ hr => hr
  | closed code reason he =>
      rw [he, ServerConnection.AssignSound, ServerConnection.close_handler]
      exact ServerConnection.AssignKnown.congr hk (ServerConnection.sameAssign_close _ _ _)
        fun _ _ hr => hr
  | task cl he hc =>
      refine ServerConnection.AssignSound.step hk (fun _ _ hr => hr) ?_ hc
      rintro ingress tunnelId r result hh rfl
      exact hl result ingress tunnelId r he hh

/-- No call of `assign_tunnel` is forgotten. -/
lemma assigned_mono {g : Server} {sl : Server.Label} (hg : s.server.step serverId sl = some g)
    (k : ℕ) : (s.server.connection k).assigned ⊆ (g.connection k).assigned := by
  cases Server.connection_moved hg k with
  | same he => rw [he]; exact List.Subset.refl _
  | spawned _ he => rw [he]; exact List.Subset.refl _
  | lost _ _ he => rw [he]; exact List.Subset.refl _
  | closed _ _ he => rw [he, ServerConnection.close_assigned]; exact List.Subset.refl _
  | task cl _ hc => exact ServerConnection.assigned_mono hc

theorem AssignSound.step (h : s.AssignSound) (hs : s.step serverId l = some s') :
    s'.AssignSound := by
  cases step_cases hs with
  | server ha hg =>
      refine ⟨h.reachable, fun k => h.server hg k ?_, fun name k hb => ?_⟩
      · rintro result ingress tunnelId r rfl -
        cases ha
      · obtain ⟨ingress, hi, hn⟩ := h.begun name k hb
        exact ⟨ingress, assigned_mono hg k hi, hn⟩
  | @assigned j ingress tunnelId r result g hj hr hg =>
      refine ⟨h.reachable, fun k => h.server hg k ?_, fun name k hb => ?_⟩
      · rintro result' ingress' tunnelId' r' he hk
        obtain ⟨rfl, he'⟩ := Server.Label.handler.inj he
        obtain rfl := ServerConnection.Label.assignReturns.inj he'
        rw [hj] at hk
        obtain ⟨rfl, -, -⟩ := HandlerPc.assigning.inj hk
        exact hr
      · obtain ⟨ingress, hi, hn⟩ := h.begun name k hb
        exact ⟨ingress, assigned_mono hg k hi, hn⟩
  | @ingress name bl g hm hg =>
      have hr : ∀ k ingress result, s.Returned k ingress result →
          (s.setIngress name g).Returned k ingress result := by
        intro k ingress result hret
        rw [Returned, setIngress_ingress]
        rcases eq_or_ne ingress.name name with rfl | hne
        · rw [Function.update_self]
          exact (h.reachable _).assignReturned_mono hg hret
        · rw [Function.update_of_ne hne]
          exact hret
      refine ⟨fun n => ?_, fun k => ?_, fun n k hb => ?_⟩
      · rw [setIngress_ingress]
        rcases eq_or_ne n name with rfl | hne
        · rw [Function.update_self]
          exact (h.reachable n).step hg
        · rw [Function.update_of_ne hne]
          exact h.reachable n
      · exact ServerConnection.AssignKnown.congr (h.connection k) (.refl _) (hr k)
      · rw [setIngress_ingress] at hb
        rcases eq_or_ne n name with rfl | hne
        · rw [Function.update_self] at hb
          rcases BoxedIngress.hasBegun_step hg hb with hold | hnew
          · exact h.begun n k hold
          · rw [mayRun, hnew] at hm
            exact h.isAssigning hm
        · rw [Function.update_of_ne hne] at hb
          exact h.begun n k hb

/-- The server's part of a run is a run of the server. -/
lemma server_run {ls : List Label} (h : (system w serverId kind).Run ls s) :
    ∃ ls', (Server.system serverId).Run ls' s.server := by
  refine h.invariant (P := fun s => ∃ ls', (Server.system serverId).Run ls' s.server)
    ⟨[], .nil⟩ ?_
  rintro s l s' ⟨ls', hr⟩ hs
  cases step_cases hs with
  | @server l _ _ hg => exact ⟨ls' ++ [l], hr.snoc hg⟩
  | @assigned k _ _ _ result g _ _ hg =>
      have hg' : (Server.system serverId).step s.server (.handler k (.assignReturns result)) =
        some g := hg
      exact ⟨_, hr.snoc hg'⟩
  | ingress => exact ⟨ls', hr⟩

/-- **Every task knows what its call of `assign_tunnel` returned.** -/
theorem assignSound_run {ls : List Label} (h : (system w serverId kind).Run ls s) :
    s.AssignSound :=
  h.invariant assignSound_new fun _ _ _ hi hs => hi.step hs

/-- `assign_tunnel` has succeeded for tunnel `k`, and the ingress lists the tunnel while it is
open. -/
def IsRegistered (s : ServerSystem w) (k : ℕ) : Prop :=
  (s.server.connection k).assignResult = some (.ok ()) ∧
    ∃ ingress, (s.server.connection k).assigned = [ingress] ∧
      ((s.ingress ingress.name).isClosed k = false → k ∈ (s.ingress ingress.name).list.tunnels)

/-- The server is serving the command stream of tunnel `k`. -/
def IsServed (s : ServerSystem w) (k : ℕ) : Prop :=
  ServerConnection.isServing (s.handler k) = true

/-- The condition on a step, for tunnel `k`: when its `assign_tunnel` reads the socket of a UDP
ingress, there is one. -/
def AssignsToListening (k : ℕ) (s : ServerSystem w) (l : Label) : Prop :=
  ∀ name, l = .ingress name (.udp (.assignTunnel k)) → (s.ingress name).isRejecting = false

/-- What a step does to the refusal of tunnel `k`. -/
lemma hasRejected_step (hs : s.step serverId l = some s') (k name : ℕ) :
    (s'.ingress name).HasRejected k ↔ (s.ingress name).HasRejected k ∨
      (l = .ingress name (.udp (.assignTunnel k)) ∧ (s.ingress name).isRejecting = true) := by
  cases step_cases hs with
  | server | assigned => exact ⟨Or.inl, fun h => h.resolve_right fun he => by cases he.1⟩
  | @ingress n bl g _ hg =>
      rw [setIngress_ingress]
      rcases eq_or_ne name n with rfl | hne
      · rw [Function.update_self]
        constructor
        · intro h
          exact (BoxedIngress.hasRejected_step hg h).imp id fun ⟨e, hr⟩ => ⟨by rw [e], hr⟩
        · rintro (h | ⟨he, hr⟩)
          · exact h.step hg
          · obtain ⟨-, rfl⟩ := Label.ingress.inj he
            exact BoxedIngress.hasRejected_of_rejecting hg hr
      · rw [Function.update_of_ne hne]
        exact ⟨Or.inl, fun h => h.resolve_right fun he => hne (Label.ingress.inj he.1).1.symm⟩

/-- A tunnel has been refused exactly when its `assign_tunnel` met an ingress without a socket. -/
lemma not_hasRejected_iff {ls : List Label} (h : (system w serverId kind).Run ls s) (k : ℕ) :
    (∀ name, ¬ (s.ingress name).HasRejected k) ↔
      (system w serverId kind).RunWithin (AssignsToListening k) ls s := by
  refine h.last_iff_within (P := fun s : ServerSystem w => ∀ name, ¬ (s.ingress name).HasRejected k)
    (fun name hrej => BoxedIngress.not_hasBegun_new _ k hrej.hasBegun) ?_ ?_
  · intro s l s' hs hn name hrej
    exact hn name ((hasRejected_step hs k name).mpr (Or.inl hrej))
  · intro ls s l s' _ hn hs
    refine forall_congr' fun name => ?_
    rw [hasRejected_step hs k name, not_or, not_and, Bool.not_eq_true]
    exact and_iff_right (hn name)

/-- **A tunnel that is served is registered, exactly when no UDP ingress was asked before it
listened.**  In every run, whatever is started and stopped meanwhile: a task that serves the command
stream of its tunnel has seen `assign_tunnel` succeed, and the ingress has the tunnel, if and only
if there was a socket when `assign_tunnel` looked for it. -/
theorem served_registered_iff {ls : List Label} (h : (system w serverId kind).Run ls s) (k : ℕ)
    (hk : s.IsServed k) :
    s.IsRegistered k ↔ (system w serverId kind).RunWithin (AssignsToListening k) ls s := by
  have hsound := assignSound_run h
  have hknown : ∃ ingress result, (s.server.connection k).assigned = [ingress] ∧
      (s.server.connection k).assignResult = some result ∧ s.Returned k ingress result := by
    have hc := hsound.connection k
    rw [ServerConnection.AssignSound] at hc
    rw [IsServed, handler] at hk
    generalize (s.server.connection k).handler = pc at hc hk
    cases pc with
    | commands | pong => exact hc.2
    | _ => cases hk
  obtain ⟨ingress, result, ha, hr, hret⟩ := hknown
  rw [← not_hasRejected_iff h k]
  constructor
  · rintro ⟨hok, -⟩ name hrej
    obtain ⟨ingress', hi', rfl⟩ := hsound.begun name k hrej.hasBegun
    rw [ha, List.mem_singleton] at hi'
    subst hi'
    rw [hr, Option.some.injEq] at hok
    subst hok
    exact hrej.not_ok hret
  · intro hnone
    rcases BoxedIngress.assignReturned_cases hret with hrej | ⟨rfl, hlist⟩
    · exact absurd hrej (hnone _)
    · exact ⟨hr, ingress, ha, (hsound.reachable _).listed hlist⟩

/-- A UDP ingress that is started, and a client that gets its tunnel after that. -/
def listeningRun : List Label :=
  .ingress 0 (.udp .start) :: Server.admittedRun.map .server ++
    [.ingress 0 (.udp (.assignTunnel 0)), .ingress 0 (.udp (.spawnReader 0)),
      .ingress 0 (.udp (.list (.spawnWatcher 0))), .ingress 0 (.udp (.list (.push 0))),
      .assignReturns 0]

theorem served_registered_iff_listening :
    ∃ s, (system 64 Server.serverS fun _ => .udp).Run listeningRun s ∧ s.IsRegistered 0 ∧
      (system 64 Server.serverS fun _ => .udp).RunWithin (AssignsToListening 0) listeningRun s := by
  have h : (system 64 Server.serverS fun _ => .udp).Run listeningRun _ := System.run_of_exec rfl
  refine ⟨_, h, ?reg, (served_registered_iff h 0 rfl).mp ?reg⟩
  exact ⟨rfl, Server.ingressB, rfl, fun _ => List.mem_singleton_self 0⟩

/-- The same client, and an ingress that nobody has started. -/
def idleRun : List Label :=
  Server.admittedRun.map .server ++ [.ingress 0 (.udp (.assignTunnel 0)), .assignReturns 0]

/-- `assign_tunnel` has failed, the tunnel is open, and its command stream is served. -/
theorem rejected_tunnel_served :
    (¬ ∀ (ls : List Label) (s : ServerSystem 64) (k : ℕ),
      (system 64 Server.serverS fun _ => .udp).Run ls s → s.IsServed k → s.IsRegistered k) ∧
    ∃ s, (system 64 Server.serverS fun _ => .udp).Run idleRun s ∧ s.IsServed 0 ∧
      (s.server.connection 0).lost = none ∧ (s.ingress 0).list.tunnels = [] ∧
      (s.server.connection 0).assignResult = some (.error .ingressNotListening) := by
  have h : (system 64 Server.serverS fun _ => .udp).Run idleRun _ := System.run_of_exec rfl
  refine ⟨fun hall => ?_, _, h, rfl, rfl, rfl, rfl⟩
  have hok := (hall _ _ 0 h rfl).1
  cases hok

end ServerSystem

end Siffleux
