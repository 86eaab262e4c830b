import Mathlib.Logic.Function.Basic
import Siffleux.Foundation.Transition
import Siffleux.Server.Protocols.V1

/-!
# The server

`server/server.rs` as a transition system: the registry of ingresses, any number of connections
with their tasks, and calls of `assign_ingress`, `listen` and `stop` at any moment.

`stop` keeps the endpoint's mutex for as long as it runs, and the registry's write guard for as long
as it drains the registry, awaiting every ingress in between.  A lookup waits for that guard.  Both
locks are `parking_lot`'s, and block the thread that waits for them: every call, and every
connection's task, is taken to be polled on a thread of its own.  (On one thread, a `listen` beside
a `stop` that awaits an ingress blocks both for good.)

Endpoints are named by the number of the `listen` that made them, connections by a number of their
own.

* `step_cases` — the step, inverted.
* `connection_moved` — what a step can do to a connection.
-/

namespace Siffleux

open ByteBuf Transition

/-- Where a call of `Server::stop` is. -/
inductive ServerStopPc where
  | notCalled
  | lockRegistry (endpoint : ℕ)
  | draining (endpoint : ℕ)
  | close (endpoint : ℕ)
  | waitIdle
  | returned
  | refused
  deriving DecidableEq, Repr

structure Server where
  endpointLock : Option ℕ
  endpoint : Option ℕ
  nextEndpoint : ℕ
  endpointClosed : ℕ → Bool
  registryLock : Option ℕ
  ingressById : IngressId → Option Ingress
  endpointOf : ℕ → ℕ
  connection : ℕ → ServerConnection
  stopCall : ℕ → ServerStopPc

namespace Server

/-- `Server::new`. -/
def new : Server where
  endpointLock := none
  endpoint := none
  nextEndpoint := 0
  endpointClosed _ := false
  registryLock := none
  ingressById _ := none
  endpointOf _ := 0
  connection _ := .new
  stopCall _ := .notCalled

inductive Label where
  | listen
  | assignIngress (ingress : Ingress)
  | incoming (k endpoint : ℕ)
  | handler (k : ℕ) (l : ServerConnection.Label)
  | lose (k : ℕ) (e : ConnectionError)
  | stopTake (c : ℕ)
  | stopLockRegistry (c : ℕ)
  | stopDrained (c : ℕ)
  | stopClose (c : ℕ)
  | stopReturns (c : ℕ)

def setConnection (s : Server) (k : ℕ) (c : ServerConnection) : Server :=
  { s with connection := Function.update s.connection k c }

@[simp] lemma setConnection_connection (s : Server) (k : ℕ) (c : ServerConnection) :
    (s.setConnection k c).connection = Function.update s.connection k c := rfl

def setStop (s : Server) (c : ℕ) (pc : ServerStopPc) : Server :=
  { s with stopCall := Function.update s.stopCall c pc }

/-- A lookup takes the read guard. -/
def waitsForRegistry (s : Server) : ServerConnection.Label → Bool
  | .lookup => s.registryLock.isSome
  | _ => false

/-- Calls that are refused, and binds that fail, change nothing and are no steps.  `lose` is the
transport's. -/
def step (serverId : ServerId) (s : Server) : Label → Option Server
  | .listen =>
      if s.endpointLock = none ∧ s.endpoint = none then
        some { s with endpoint := some s.nextEndpoint, nextEndpoint := s.nextEndpoint + 1 }
      else none
  | .assignIngress ingress =>
      if s.registryLock = none ∧ s.ingressById ingress.id = none then
        some { s with ingressById := Function.update s.ingressById ingress.id (some ingress) }
      else none
  | .incoming k e =>
      match (s.connection k).handler with
      | .notSpawned =>
          if e < s.nextEndpoint ∧ s.endpointClosed e = false then
            some { s.setConnection k { s.connection k with handler := .handshake } with
              endpointOf := Function.update s.endpointOf k e }
          else none
      | _ => none
  | .handler k l =>
      if s.waitsForRegistry l then none
      else ((s.connection k).step serverId s.ingressById l).map (s.setConnection k)
  | .lose k e =>
      match (s.connection k).lost with
      | none => some (s.setConnection k { s.connection k with lost := some e })
      | some _ => none
  | .stopTake c =>
      if s.stopCall c = .notCalled ∧ s.endpointLock = none then
        match s.endpoint with
        | some e => some { s.setStop c (.lockRegistry e) with
            endpoint := none
            endpointLock := some c }
        | none => some (s.setStop c .refused)
      else none
  | .stopLockRegistry c =>
      match s.stopCall c, s.registryLock with
      | .lockRegistry e, none => some { s.setStop c (.draining e) with registryLock := some c }
      | _, _ => none
  | .stopDrained c =>
      match s.stopCall c with
      | .draining e => some { s.setStop c (.close e) with
          ingressById := fun _ => none
          registryLock := none }
      | _ => none
  | .stopClose c =>
      match s.stopCall c with
      | .close e => some { s.setStop c .waitIdle with
          endpointClosed := Function.update s.endpointClosed e true
          connection := fun k =>
            if s.endpointOf k = e then (s.connection k).close Code.connectionEof (asBytes "done")
            else s.connection k }
      | _ => none
  | .stopReturns c =>
      if s.stopCall c = .waitIdle then
        some { s.setStop c .returned with endpointLock := none }
      else none

def system (serverId : ServerId) : System Server Label := ⟨new, step serverId⟩

/-! ## What a step can do -/

/-- Every step with its guard and its effect. -/
inductive Step (serverId : ServerId) (s : Server) : Label → Server → Prop
  | listens (hl : s.endpointLock = none) (he : s.endpoint = none) :
      Step serverId s .listen
        { s with endpoint := some s.nextEndpoint, nextEndpoint := s.nextEndpoint + 1 }
  | assigns {ingress : Ingress} (hl : s.registryLock = none)
      (hn : s.ingressById ingress.id = none) :
      Step serverId s (.assignIngress ingress)
        { s with ingressById := Function.update s.ingressById ingress.id (some ingress) }
  | accepts {k e : ℕ} (hn : (s.connection k).handler = .notSpawned) (he : e < s.nextEndpoint)
      (ho : s.endpointClosed e = false) :
      Step serverId s (.incoming k e)
        { s.setConnection k { s.connection k with handler := .handshake } with
          endpointOf := Function.update s.endpointOf k e }
  | handles {k : ℕ} {l : ServerConnection.Label} {c : ServerConnection}
      (hc : (s.connection k).step serverId s.ingressById l = some c) :
      Step serverId s (.handler k l) (s.setConnection k c)
  | loses {k : ℕ} {e : ConnectionError} (hn : (s.connection k).lost = none) :
      Step serverId s (.lose k e) (s.setConnection k { s.connection k with lost := some e })
  | takes {c e : ℕ} (hc : s.stopCall c = .notCalled) (hl : s.endpointLock = none)
      (he : s.endpoint = some e) :
      Step serverId s (.stopTake c)
        { s.setStop c (.lockRegistry e) with endpoint := none, endpointLock := some c }
  | refuses {c : ℕ} (hc : s.stopCall c = .notCalled) (hl : s.endpointLock = none)
      (he : s.endpoint = none) : Step serverId s (.stopTake c) (s.setStop c .refused)
  | locks {c e : ℕ} (hc : s.stopCall c = .lockRegistry e) (hl : s.registryLock = none) :
      Step serverId s (.stopLockRegistry c)
        { s.setStop c (.draining e) with registryLock := some c }
  | drains {c e : ℕ} (hc : s.stopCall c = .draining e) :
      Step serverId s (.stopDrained c)
        { s.setStop c (.close e) with ingressById := fun _ => none, registryLock := none }
  | closes {c e : ℕ} (hc : s.stopCall c = .close e) :
      Step serverId s (.stopClose c) { s.setStop c .waitIdle with
        endpointClosed := Function.update s.endpointClosed e true
        connection := fun k =>
          if s.endpointOf k = e then (s.connection k).close Code.connectionEof (asBytes "done")
          else s.connection k }
  | stops {c : ℕ} (hc : s.stopCall c = .waitIdle) :
      Step serverId s (.stopReturns c) { s.setStop c .returned with endpointLock := none }

theorem step_cases {serverId : ServerId} {s s' : Server} {l : Label}
    (hs : s.step serverId l = some s') : Step serverId s l s' := by
  cases l with
  | listen =>
      simp only [step, Option.ite_none_right_eq_some, Option.some.injEq] at hs
      obtain ⟨⟨hl, he⟩, rfl⟩ := hs
      exact .listens hl he
  | assignIngress ingress =>
      simp only [step, Option.ite_none_right_eq_some, Option.some.injEq] at hs
      obtain ⟨⟨hl, hn⟩, rfl⟩ := hs
      exact .assigns hl hn
  | incoming k e =>
      simp only [step] at hs
      split at hs
      · rename_i hn
        simp only [Option.ite_none_right_eq_some, Option.some.injEq] at hs
        obtain ⟨⟨he, ho⟩, rfl⟩ := hs
        exact .accepts hn he ho
      · cases hs
  | handler k l =>
      simp only [step, Option.ite_none_left_eq_some, Option.map_eq_some_iff] at hs
      obtain ⟨-, c, hc, rfl⟩ := hs
      exact .handles hc
  | lose k e =>
      simp only [step] at hs
      split at hs
      · rename_i hn
        rw [← Option.some.inj hs]
        exact .loses hn
      · cases hs
  | stopTake c =>
      simp only [step, Option.ite_none_right_eq_some] at hs
      obtain ⟨⟨hc, hl⟩, hs⟩ := hs
      split at hs
      · rename_i e he
        rw [← Option.some.inj hs]
        exact .takes hc hl he
      · rename_i he
        rw [← Option.some.inj hs]
        exact .refuses hc hl he
  | stopLockRegistry c =>
      simp only [step] at hs
      split at hs
      · rename_i e hc hl
        rw [← Option.some.inj hs]
        exact .locks hc hl
      · cases hs
  | stopDrained c =>
      simp only [step] at hs
      split at hs
      · rename_i e hc
        rw [← Option.some.inj hs]
        exact .drains hc
      · cases hs
  | stopClose c =>
      simp only [step] at hs
      split at hs
      · rename_i e hc
        rw [← Option.some.inj hs]
        exact .closes hc
      · cases hs
  | stopReturns c =>
      simp only [step, Option.ite_none_right_eq_some, Option.some.injEq] at hs
      obtain ⟨hc, rfl⟩ := hs
      exact .stops hc

/-! ## What a step can do to a connection -/

/-- A change of the transport only, or of a task that is about to begin. -/
structure SameTask (c c' : ServerConnection) : Prop where
  reads : c'.reads = c.reads
  handler : c'.handler = c.handler ∨ (c.handler = .notSpawned ∧ c'.handler = .handshake)
  tunnel : c'.tunnel = c.tunnel
  assigned : c'.assigned = c.assigned

lemma SameTask.refl (c : ServerConnection) : SameTask c c := ⟨rfl, Or.inl rfl, rfl, rfl⟩

/-- What becomes of connection `j` in a step: nothing, its task begins, the transport loses it, the
server closes it, or its task moves. -/
inductive ConnectionMoved (serverId : ServerId) (s s' : Server) (l : Label) (j : ℕ) : Prop
  | same (h : s'.connection j = s.connection j)
  | spawned (hn : (s.connection j).handler = .notSpawned)
      (h : s'.connection j = { s.connection j with handler := .handshake })
  | lost (e : ConnectionError) (hn : (s.connection j).lost = none)
      (h : s'.connection j = { s.connection j with lost := some e })
  | closed (code : VarInt) (reason : Bytes)
      (h : s'.connection j = (s.connection j).close code reason)
  | task (hl : ServerConnection.Label) (he : l = .handler j hl)
      (h : (s.connection j).step serverId s.ingressById hl = some (s'.connection j))

/-- A step at connection `k` is one there and none elsewhere. -/
lemma update_moved {s s' : Server} {j k : ℕ} {c : ServerConnection} {P : Prop}
    (hs : s'.connection = Function.update s.connection k c)
    (hsame : s'.connection j = s.connection j → P) (hat : j = k → s'.connection j = c → P) : P := by
  rcases eq_or_ne j k with rfl | hne
  · exact hat rfl (by rw [hs, Function.update_self])
  · exact hsame (by rw [hs, Function.update_of_ne hne])

/-- **What a step can do to a connection.** -/
theorem connection_moved {serverId : ServerId} {s s' : Server} {l : Label}
    (hs : s.step serverId l = some s') (j : ℕ) : ConnectionMoved serverId s s' l j := by
  cases step_cases hs with
  | listens | assigns | takes | refuses | locks | drains | stops => exact .same rfl
  | accepts hn =>
      refine update_moved (j := j) rfl .same fun hj hc => ?_
      subst hj
      exact .spawned hn hc
  | @handles k hl c hc =>
      refine update_moved (j := j) rfl .same fun hj hcj => ?_
      subst hj
      exact .task hl rfl (by rw [hcj]; exact hc)
  | @loses k e hn =>
      refine update_moved (j := j) rfl .same fun hj hc => ?_
      subst hj
      exact .lost e hn hc
  | @closes c e hc =>
      by_cases hj : s.endpointOf j = e
      · exact .closed Code.connectionEof (asBytes "done") (if_pos hj)
      · exact .same (if_neg hj)

/-- The registry is as it was, has one ingress more, under its own id, or has been drained. -/
lemma ingressById_of_step {serverId : ServerId} {s s' : Server} {l : Label}
    (hs : s.step serverId l = some s') : s'.ingressById = s.ingressById ∨
      (∃ g : Ingress, s'.ingressById = Function.update s.ingressById g.id (some g)) ∨
      s'.ingressById = fun _ => none := by
  cases step_cases hs with
  | @assigns ingress => exact Or.inr (Or.inl ⟨ingress, rfl⟩)
  | drains => exact Or.inr (Or.inr rfl)
  | _ => exact Or.inl rfl

/-- An ingress is registered under its own id. -/
lemma registered_under_id {serverId : ServerId} {s : Server}
    (h : ∃ ls, (system serverId).Run ls s) :
    ∀ id ingress, s.ingressById id = some ingress → ingress.id = id := by
  obtain ⟨ls, h⟩ := h
  induction h with
  | nil => exact fun id ingress hi => by cases hi
  | snoc _ hs ih =>
      intro id ingress hi
      rcases ingressById_of_step hs with he | ⟨g, he⟩ | he
      · exact ih id ingress (by rw [← he]; exact hi)
      · rw [he] at hi
        by_cases hid : id = g.id
        · rw [hid, Function.update_self, Option.some.injEq] at hi
          rw [← hi, hid]
        · rw [Function.update_of_ne hid] at hi
          exact ih id ingress hi
      · rw [he] at hi
        cases hi

/-- A step of a connection's task. -/
lemma handler_step {serverId : ServerId} {s s' : Server} {k : ℕ} {hl : ServerConnection.Label}
    (hs : s.step serverId (.handler k hl) = some s') :
    (s.connection k).step serverId s.ingressById hl = some (s'.connection k) := by
  cases step_cases hs with
  | handles hc =>
      rw [setConnection_connection, Function.update_self]
      exact hc

/-- **A connection's task moves by its own steps only.** -/
theorem connection_step {serverId : ServerId} {s s' : Server} {l : Label}
    (hs : s.step serverId l = some s') (j : ℕ) :
    SameTask (s.connection j) (s'.connection j) ∨
      ∃ hl, l = .handler j hl ∧
        (s.connection j).step serverId s.ingressById hl = some (s'.connection j) := by
  cases connection_moved hs j with
  | same h =>
      rw [h]
      exact Or.inl (.refl _)
  | spawned hn h =>
      rw [h]
      exact Or.inl ⟨rfl, Or.inr ⟨hn, rfl⟩, rfl, rfl⟩
  | lost e _ h =>
      rw [h]
      exact Or.inl ⟨rfl, Or.inl rfl, rfl, rfl⟩
  | closed code reason h =>
      rw [h]
      exact Or.inl ⟨by simp, Or.inl (by simp), by simp, by simp⟩
  | task hl he h => exact Or.inr ⟨hl, he, h⟩

end Server

end Siffleux
