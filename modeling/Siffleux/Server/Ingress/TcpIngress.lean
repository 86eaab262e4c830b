import Siffleux.Server.Ingress.TunnelList

/-!
# The TCP ingress

`server/ingress/tcp_ingress.rs` as a transition system: the list of tunnels with its watchers,
the accept loops, and the tasks that were given a connection and have not picked a tunnel yet.

A listening socket is named by the number of the `bind` that made it.  `start` binds, stores the
listener under the mutex, and hands its own reference to the task it spawns afterwards; `stop`
drops the stored reference only.

* `step_cases` — the step, inverted; `acceptLoop_step` — what it can do to the accept loops.
* `simulation` — for the list, all of this is a registration.
-/

namespace Siffleux

open ByteBuf Transition

/-- The task running `handle_listener(..).await.unwrap()`. -/
inductive AcceptLoopPc where
  | notSpawned
  | spawning
  | accepting
  | finished
  | panicked
  deriving DecidableEq, Repr

structure TcpIngress (τ : Type) (w : ℕ) where
  list : TunnelList τ w
  isClosed : τ → Bool
  tcpListener : Option ℕ
  nextListener : ℕ
  acceptLoop : ℕ → AcceptLoopPc
  unrouted : ℕ

namespace TcpIngress

variable {τ : Type} [DecidableEq τ] {w : ℕ}

/-- `TcpIngress::new`. -/
def new (τ : Type) (w : ℕ) : TcpIngress τ w :=
  ⟨.new τ w, fun _ => false, none, 0, fun _ => .notSpawned, 0⟩

inductive Label (τ : Type) where
  | list (l : TunnelList.Label τ)
  | close (t : τ)
  | start
  | spawnLoop (i : ℕ)
  | accept (i : ℕ) (peerAddrKnown : Bool)
  | acceptFails (i : ℕ)
  | stop
  | getTunnelToConnect
  deriving DecidableEq

/-- `close` is the connection of a tunnel ending, at any moment and for any reason.  A `start`
that is refused or fails to bind changes nothing and is no step. -/
def step (s : TcpIngress τ w) : Label τ → Option (TcpIngress τ w)
  | .list l => (s.list.step s.isClosed l).map fun list => { s with list := list }
  | .close t => some { s with isClosed := Function.update s.isClosed t true }
  | .start =>
      if s.tcpListener = none then
        some { s with
          tcpListener := some s.nextListener
          nextListener := s.nextListener + 1
          acceptLoop := Function.update s.acceptLoop s.nextListener .spawning }
      else none
  | .spawnLoop i =>
      if s.acceptLoop i = .spawning then
        some { s with acceptLoop := Function.update s.acceptLoop i .accepting }
      else none
  | .accept i peerAddrKnown =>
      if s.acceptLoop i = .accepting then
        -- `peer_addr()?` leaves the loop with an error, which the task unwraps
        if peerAddrKnown then some { s with unrouted := s.unrouted + 1 }
        else some { s with acceptLoop := Function.update s.acceptLoop i .panicked }
      else none
  | .acceptFails i =>
      if s.acceptLoop i = .accepting then
        some { s with acceptLoop := Function.update s.acceptLoop i .finished }
      else none
  | .stop => if s.tcpListener = none then none else some { s with tcpListener := none }
  | .getTunnelToConnect =>
      if s.unrouted = 0 then none
      else match s.list.getTunnelToConnect with
        | .ret (_, list) => some { s with list := list, unrouted := s.unrouted - 1 }
        | .panic => some { s with unrouted := s.unrouted - 1 }

def system (τ : Type) [DecidableEq τ] (w : ℕ) : System (TcpIngress τ w) (Label τ) := ⟨new τ w, step⟩

/-! ## What a step can do -/

/-- Every step with its guard and its effect; `loopMoved` is any step of an accept loop that takes
no connection. -/
inductive Step (s : TcpIngress τ w) : Label τ → TcpIngress τ w → Prop
  | list {k : TunnelList.Label τ} {list : TunnelList τ w}
      (h : s.list.step s.isClosed k = some list) : Step s (.list k) { s with list := list }
  | closed {t : τ} :
      Step s (.close t) { s with isClosed := Function.update s.isClosed t true }
  | started (h : s.tcpListener = none) :
      Step s .start { s with
        tcpListener := some s.nextListener
        nextListener := s.nextListener + 1
        acceptLoop := Function.update s.acceptLoop s.nextListener .spawning }
  | loopMoved {l : Label τ} {i : ℕ} {pc : AcceptLoopPc}
      (h : s.acceptLoop i = .spawning ∨ s.acceptLoop i = .accepting)
      (hl : pc = .finished → l = .acceptFails i) :
      Step s l { s with acceptLoop := Function.update s.acceptLoop i pc }
  | accepted {i : ℕ} (h : s.acceptLoop i = .accepting) :
      Step s (.accept i true) { s with unrouted := s.unrouted + 1 }
  | stopped (h : ¬ s.tcpListener = none) : Step s .stop { s with tcpListener := none }
  | picked {r : BitVec w} (h : ¬ s.unrouted = 0) :
      Step s .getTunnelToConnect { s with
        list := { s.list with tunnelRotation := r }
        unrouted := s.unrouted - 1 }

theorem step_cases {s s' : TcpIngress τ w} {l : Label τ} (hs : step s l = some s') :
    Step s l s' := by
  cases l with
  | list k =>
      simp only [step, Option.map_eq_some_iff] at hs
      obtain ⟨list, hk, rfl⟩ := hs
      exact .list hk
  | close t =>
      simp only [step, Option.some.injEq] at hs
      subst hs
      exact .closed
  | start =>
      simp only [step, Option.ite_none_right_eq_some, Option.some.injEq] at hs
      obtain ⟨h, rfl⟩ := hs
      exact .started h
  | spawnLoop i =>
      simp only [step, Option.ite_none_right_eq_some, Option.some.injEq] at hs
      obtain ⟨h, rfl⟩ := hs
      exact .loopMoved (Or.inl h) fun hpc => by cases hpc
  | accept i peerAddrKnown =>
      simp only [step, Option.ite_none_right_eq_some] at hs
      obtain ⟨h, hs⟩ := hs
      cases peerAddrKnown with
      | true =>
          rw [← Option.some.inj hs]
          exact .accepted h
      | false =>
          rw [← Option.some.inj hs]
          exact .loopMoved (Or.inr h) fun hpc => by cases hpc
  | acceptFails i =>
      simp only [step, Option.ite_none_right_eq_some, Option.some.injEq] at hs
      obtain ⟨h, rfl⟩ := hs
      exact .loopMoved (Or.inr h) fun _ => rfl
  | stop =>
      simp only [step, Option.ite_none_left_eq_some, Option.some.injEq] at hs
      obtain ⟨h, rfl⟩ := hs
      exact .stopped h
  | getTunnelToConnect =>
      simp only [step, Option.ite_none_left_eq_some] at hs
      obtain ⟨h, hs⟩ := hs
      obtain ⟨picked, r, hg, -⟩ := s.list.getTunnelToConnect_mem
      rw [hg] at hs
      rw [← Option.some.inj hs]
      exact .picked h

/-- Only `close` ends a connection. -/
lemma isClosed_step {s s' : TcpIngress τ w} {l : Label τ} (hs : step s l = some s') :
    s'.isClosed = s.isClosed ∨
      ∃ t, l = .close t ∧ s'.isClosed = Function.update s.isClosed t true := by
  cases step_cases hs with
  | @closed t => exact Or.inr ⟨t, rfl, rfl⟩
  | _ => exact Or.inl rfl

lemma isClosed_mono {s s' : TcpIngress τ w} {l : Label τ} (hs : step s l = some s') {t : τ}
    (h : s.isClosed t = true) : s'.isClosed t = true := by
  rcases isClosed_step hs with he | ⟨u, -, he⟩
  · rw [he]
    exact h
  · rw [he]
    rcases eq_or_ne t u with rfl | hne
    · exact Function.update_self ..
    · exact (Function.update_of_ne hne ..).trans h

/-- Numbers not given out yet have no accept loop. -/
def Unbound (s : TcpIngress τ w) : Prop := ∀ i, s.nextListener ≤ i → s.acceptLoop i = .notSpawned

omit [DecidableEq τ] in
lemma unbound_new : (new τ w).Unbound := fun _ _ => rfl

/-- What a step can do to the accept loops: nothing, a new one, or one running loop moves on. -/
lemma acceptLoop_step {s s' : TcpIngress τ w} {l : Label τ} (hs : step s l = some s') :
    (s'.acceptLoop = s.acceptLoop ∧ s'.nextListener = s.nextListener) ∨
    (s'.nextListener = s.nextListener + 1 ∧
      s'.acceptLoop = Function.update s.acceptLoop s.nextListener .spawning) ∨
    ∃ i pc, (s.acceptLoop i = .spawning ∨ s.acceptLoop i = .accepting) ∧
      s'.nextListener = s.nextListener ∧ s'.acceptLoop = Function.update s.acceptLoop i pc ∧
      (pc = .finished → l = .acceptFails i) := by
  cases step_cases hs with
  | started => exact Or.inr (Or.inl ⟨rfl, rfl⟩)
  | @loopMoved _ i pc h hl => exact Or.inr (Or.inr ⟨i, pc, h, rfl, rfl, hl⟩)
  | _ => exact Or.inl ⟨rfl, rfl⟩

lemma Unbound.step {s s' : TcpIngress τ w} {l : Label τ} (h : s.Unbound)
    (hs : TcpIngress.step s l = some s') : s'.Unbound := by
  intro j hj
  rcases acceptLoop_step hs with ⟨hl, hn⟩ | ⟨hn, hl⟩ | ⟨i, pc, hi, hn, hl, -⟩
  · rw [hl]
    exact h j (by omega)
  · rw [hl, Function.update_of_ne (by omega)]
    exact h j (by omega)
  · have hne : j ≠ i := by
      rintro rfl
      rw [h j (by omega)] at hi
      simp at hi
    rw [hl, Function.update_of_ne hne]
    exact h j (by omega)

/-- A loop that has ended stays so. -/
lemma Unbound.finished_mono {s s' : TcpIngress τ w} {l : Label τ} (h : s.Unbound)
    (hs : TcpIngress.step s l = some s') {j : ℕ} (hj : s.acceptLoop j = .finished) :
    s'.acceptLoop j = .finished := by
  rcases acceptLoop_step hs with ⟨hl, -⟩ | ⟨-, hl⟩ | ⟨i, pc, hi, -, hl, -⟩
  · rw [hl]
    exact hj
  · have hne : j ≠ s.nextListener := by
      rintro rfl
      rw [h _ (Nat.le_refl _)] at hj
      cases hj
    rw [hl, Function.update_of_ne hne]
    exact hj
  · have hne : j ≠ i := by
      rintro rfl
      rw [hj] at hi
      simp at hi
    rw [hl, Function.update_of_ne hne]
    exact hj

/-- Only a failing `accept` ends a loop. -/
lemma finished_of_step {s s' : TcpIngress τ w} {l : Label τ} (hs : step s l = some s') {j : ℕ}
    (hj : s'.acceptLoop j = .finished) : s.acceptLoop j = .finished ∨ l = .acceptFails j := by
  rcases acceptLoop_step hs with ⟨hl, -⟩ | ⟨-, hl⟩ | ⟨i, pc, -, -, hl, hpc⟩
  · rw [hl] at hj
    exact Or.inl hj
  · rw [hl] at hj
    rcases eq_or_ne j s.nextListener with rfl | hne
    · rw [Function.update_self] at hj
      cases hj
    · rw [Function.update_of_ne hne] at hj
      exact Or.inl hj
  · rw [hl] at hj
    rcases eq_or_ne j i with rfl | hne
    · rw [Function.update_self] at hj
      exact Or.inr (hpc hj)
    · rw [Function.update_of_ne hne] at hj
      exact Or.inl hj

/-! ## The list as a registration -/

def WellFormed (s : TcpIngress τ w) : Prop := s.list.WellFormed s.isClosed

def abs (s : TcpIngress τ w) : Registry.State τ := s.list.abs s.isClosed

def lab : Label τ → Option (Registry.Label τ)
  | .list l => TunnelList.lab l
  | .close t => some (.close t)
  | _ => none

/-- A step that is none of the list's, nor the end of a connection, leaves both alone up to the
rotation counter. -/
lemma step_other {s s' : TcpIngress τ w} {l : Label τ} (hs : step s l = some s')
    (hl : ∀ k, l ≠ .list k) (hc : ∀ t, l ≠ .close t) :
    s'.isClosed = s.isClosed ∧ ∃ r, s'.list = { s.list with tunnelRotation := r } := by
  cases step_cases hs with
  | @list k => exact absurd rfl (hl k)
  | @closed t => exact absurd rfl (hc t)
  | @picked r => exact ⟨rfl, r, rfl⟩
  | _ => exact ⟨rfl, s.list.tunnelRotation, rfl⟩

lemma WellFormed.step {s s' : TcpIngress τ w} {l : Label τ} (h : s.WellFormed)
    (hs : step s l = some s') : s'.WellFormed := by
  by_cases hl : ∃ k, l = .list k
  · obtain ⟨k, rfl⟩ := hl
    simp only [TcpIngress.step, Option.map_eq_some_iff] at hs
    obtain ⟨list, hk, rfl⟩ := hs
    exact TunnelList.WellFormed.step h hk
  by_cases hc : ∃ t, l = .close t
  · obtain ⟨t, rfl⟩ := hc
    simp only [TcpIngress.step, Option.some.injEq] at hs
    subst hs
    refine TunnelList.WellFormed.mono h fun u hu => ?_
    rcases eq_or_ne u t with rfl | hne
    · simp
    · simp [hne, hu]
  obtain ⟨he, r, hr⟩ := step_other hs (fun k e => hl ⟨k, e⟩) (fun t e => hc ⟨t, e⟩)
  rw [WellFormed, he, hr]
  exact ⟨h.nodup, h.returned_of_mem, h.spawned_iff, h.closed_of_removing⟩

lemma step_silent {s s' : TcpIngress τ w} {l : Label τ} (h : s.WellFormed)
    (hs : step s l = some s') (hlab : lab l = none) : s'.abs = s.abs := by
  by_cases hl : ∃ k, l = .list k
  · obtain ⟨k, rfl⟩ := hl
    simp only [step, Option.map_eq_some_iff] at hs
    obtain ⟨list, hk, rfl⟩ := hs
    have hr := TunnelList.step_refines h hk
    rw [show TunnelList.lab k = none from hlab] at hr
    exact hr
  · have hc : ∀ t, l ≠ .close t := by
      rintro t rfl
      cases hlab
    obtain ⟨he, r, hr⟩ := step_other hs (fun k e => hl ⟨k, e⟩) hc
    rw [abs, he, hr]
    rfl

lemma step_visible {s s' : TcpIngress τ w} {l : Label τ} {k : Registry.Label τ}
    (h : s.WellFormed) (hs : step s l = some s') (hlab : lab l = some k) :
    Registry.step s.abs k = some s'.abs := by
  cases l with
  | list k' =>
      simp only [step, Option.map_eq_some_iff] at hs
      obtain ⟨list, hk, rfl⟩ := hs
      have hr := TunnelList.step_refines h hk
      rw [show TunnelList.lab k' = some k from hlab] at hr
      exact hr
  | close t =>
      simp only [step, Option.some.injEq] at hs
      simp only [lab, Option.some.injEq] at hlab
      subst hs hlab
      rfl
  | _ => cases hlab

/-- **For its list, the TCP ingress is a registration.** -/
def simulation (τ : Type) [DecidableEq τ] (w : ℕ) :
    Simulation (system τ w) (Registry.registration τ) where
  abs := abs
  lab := lab
  inv := WellFormed
  inv_init := TunnelList.wellFormed_new _
  inv_step _ _ _ h hs := h.step hs
  abs_init := TunnelList.abs_new _
  visible _ _ _ _ h hs hlab := step_visible h hs hlab
  silent _ _ _ h hs hlab := step_silent h hs hlab

end TcpIngress

end Siffleux
