import Siffleux.Server.Ingress.TcpIngress
import Siffleux.Server.Ingress.UdpIngress

/-!
# Listening, and no longer listening

What an ingress says of itself is its stored socket: `start` is refused while there is one, and
`stop` takes it away.  What takes connections or datagrams is a loop in a task of its own, which
was given the socket by `start`.  The two agree only as far as the loop is told about `stop`, and
`stop` about the end of the loop.

* `tcp_stop_releases_iff` — the TCP ingress lets go of a stopped socket exactly when the accept
  loop was over before `stop`: nothing tells the loop.
* `listening_iff` — an ingress that has a socket takes what comes next exactly as long as `accept`
  and `recv_from` of that socket do not fail: the loop does not survive an error, and leaves the
  socket stored.
-/

namespace Siffleux

open ByteBuf Transition

/-- The task has been spawned and has not ended: it owns a reference to the listener. -/
def AcceptLoopPc.isRunning : AcceptLoopPc → Bool
  | .spawning | .accepting => true
  | .notSpawned | .finished | .panicked => false

namespace TcpIngress

variable {τ : Type} [DecidableEq τ] {w : ℕ}

/-! ## Stopping -/

def isRunning (s : TcpIngress τ w) (i : ℕ) : Bool := (s.acceptLoop i).isRunning

/-- The owners of a listening socket: the ingress itself, and the socket's accept loop. -/
def HoldsListener (s : TcpIngress τ w) (i : ℕ) : Prop := s.tcpListener = some i ∨ s.isRunning i

/-- What the operating system answers a call of `accept`. -/
def Label.isAcceptResult : Label τ → Bool
  | .accept .. | .acceptFails _ => true
  | _ => false

/-- There is a step on which loop `i` leaves, and which is not `accept` failing. -/
def ExitEnabled (s : TcpIngress τ w) (i : ℕ) : Prop :=
  ∃ l s', l.isAcceptResult = false ∧ s.step l = some s' ∧ s'.isRunning i = false

/-- There is one accept loop at most, and a stopped ingress has no owner of a listening socket
left but such as can leave. -/
structure ReleasesListener (s : TcpIngress τ w) : Prop where
  single : ∀ i j, s.isRunning i = true → s.isRunning j = true → i = j
  released : s.tcpListener = none → ∀ i, s.HoldsListener i → s.ExitEnabled i

/-- The condition on a step: `stop` comes when no accept loop is running any more. -/
def StopsEndedLoop (s : TcpIngress τ w) (l : Label τ) : Prop :=
  l = .stop → ∀ i, s.isRunning i = false

omit [DecidableEq τ] in
lemma isRunning_update {s s' : TcpIngress τ w} {j : ℕ} {pc : AcceptLoopPc} {b : Bool}
    (he : s'.acceptLoop = Function.update s.acceptLoop j pc) (hb : pc.isRunning = b) :
    s'.isRunning = Function.update s.isRunning j b := by
  funext i
  rw [isRunning, he, ← hb]
  rcases eq_or_ne i j with rfl | hne
  · rw [Function.update_self, Function.update_self]
  · rw [Function.update_of_ne hne, Function.update_of_ne hne, isRunning]

/-- What a step can do to the running loops: nothing, a new one, or one less, which is `accept`'s
doing. -/
inductive RunningStep (s s' : TcpIngress τ w) (l : Label τ) : Prop
  | same (h : s'.isRunning = s.isRunning) (hl : l ≠ .start)
      (hf : ∀ i, l ≠ .acceptFails i ∧ l ≠ .accept i false)
  | started (h : s'.isRunning = Function.update s.isRunning s.nextListener true) (hl : l = .start)
      (hn : s.tcpListener = none)
  | left (i : ℕ) (h : s'.isRunning = Function.update s.isRunning i false)
      (hi : s.isRunning i = true) (hl : l = .acceptFails i ∨ l = .accept i false)

lemma running_step {s s' : TcpIngress τ w} {l : Label τ} (hs : s.step l = some s') :
    RunningStep s s' l := by
  have hacc : ∀ {i}, s.acceptLoop i = .accepting → s.isRunning i = true := fun h => by
    rw [isRunning, h]
    rfl
  cases l with
  | spawnLoop i =>
      simp only [step, Option.ite_none_right_eq_some, Option.some.injEq] at hs
      obtain ⟨h, rfl⟩ := hs
      have hi : s.isRunning i = true := by rw [isRunning, h]; rfl
      refine .same ?_ (by simp) (by simp)
      rw [isRunning_update rfl rfl]
      exact Function.update_eq_self_iff.mpr hi.symm
  | accept i peerAddrKnown =>
      simp only [step, Option.ite_none_right_eq_some] at hs
      obtain ⟨h, hs⟩ := hs
      cases peerAddrKnown with
      | true =>
          rw [← Option.some.inj hs]
          exact .same rfl (by simp) (by simp)
      | false =>
          rw [← Option.some.inj hs]
          exact .left i (isRunning_update rfl rfl) (hacc h) (Or.inr rfl)
  | acceptFails i =>
      simp only [step, Option.ite_none_right_eq_some, Option.some.injEq] at hs
      obtain ⟨h, rfl⟩ := hs
      exact .left i (isRunning_update rfl rfl) (hacc h) (Or.inl rfl)
  | start =>
      simp only [step, Option.ite_none_right_eq_some, Option.some.injEq] at hs
      obtain ⟨h, rfl⟩ := hs
      exact .started (isRunning_update rfl rfl) rfl h
  | list k =>
      simp only [step, Option.map_eq_some_iff] at hs
      obtain ⟨list, -, rfl⟩ := hs
      exact .same rfl (by simp) (by simp)
  | close t =>
      simp only [step, Option.some.injEq] at hs
      subst hs
      exact .same rfl (by simp) (by simp)
  | stop =>
      simp only [step, Option.ite_none_left_eq_some, Option.some.injEq] at hs
      obtain ⟨-, rfl⟩ := hs
      exact .same rfl (by simp) (by simp)
  | getTunnelToConnect =>
      simp only [step, Option.ite_none_left_eq_some] at hs
      obtain ⟨-, hs⟩ := hs
      split at hs <;> rw [← Option.some.inj hs] <;> exact .same rfl (by simp) (by simp)

/-- Nothing in the code makes a running loop leave. -/
lemma not_exitEnabled {s : TcpIngress τ w} {i : ℕ} (h : s.isRunning i = true) :
    ¬ s.ExitEnabled i := by
  rintro ⟨l, s', hl, hs, hoff⟩
  cases running_step hs with
  | same he =>
      rw [he, h] at hoff
      cases hoff
  | started he =>
      rw [he] at hoff
      rcases eq_or_ne i s.nextListener with rfl | hne
      · rw [Function.update_self] at hoff
        cases hoff
      · rw [Function.update_of_ne hne, h] at hoff
        cases hoff
  | left j _ _ hj => rcases hj with rfl | rfl <;> cases hl

/-- So a stopped ingress has let go of its sockets when no loop is running. -/
lemma released_iff {s : TcpIngress τ w} (hn : s.tcpListener = none) :
    (∀ i, s.HoldsListener i → s.ExitEnabled i) ↔ ∀ i, s.isRunning i = false := by
  refine ⟨fun h i => ?_, fun h i hi => ?_⟩
  · by_contra hr
    rw [Bool.not_eq_false] at hr
    exact not_exitEnabled hr (h i (Or.inr hr))
  · rcases hi with hi | hi
    · rw [hn] at hi
      cases hi
    · rw [h i] at hi
      cases hi

lemma tcpListener_step {s s' : TcpIngress τ w} {l : Label τ} (hs : s.step l = some s') :
    (l = .stop ∧ s'.tcpListener = none) ∨ (l = .start ∧ s'.tcpListener = some s.nextListener) ∨
      (l ≠ .stop ∧ l ≠ .start ∧ s'.tcpListener = s.tcpListener) := by
  cases l with
  | stop =>
      simp only [step, Option.ite_none_left_eq_some, Option.some.injEq] at hs
      obtain ⟨-, rfl⟩ := hs
      exact Or.inl ⟨rfl, rfl⟩
  | start =>
      simp only [step, Option.ite_none_right_eq_some, Option.some.injEq] at hs
      obtain ⟨-, rfl⟩ := hs
      exact Or.inr (Or.inl ⟨rfl, rfl⟩)
  | _ =>
      refine Or.inr (Or.inr ⟨by simp, by simp, ?_⟩)
      cases step_cases hs <;> rfl

lemma releasesListener_new : (new τ w).ReleasesListener :=
  ⟨fun _ _ h => Bool.noConfusion h, fun _ i h => by
    rcases h with h | h
    · cases h
    · exact Bool.noConfusion h⟩

/-- **One step, and what it takes to keep to it.** -/
theorem releasesListener_step {s s' : TcpIngress τ w} {l : Label τ} (h : s.ReleasesListener)
    (hs : s.step l = some s') : s'.ReleasesListener ↔ s.StopsEndedLoop l := by
  have hidle : s.tcpListener = none → ∀ i, s.isRunning i = false := fun hn =>
    (released_iff hn).mp (h.released hn)
  cases running_step hs with
  | same he hl =>
      have hsingle : ∀ i j, s'.isRunning i = true → s'.isRunning j = true → i = j := by
        rw [he]
        exact h.single
      rcases tcpListener_step hs with ⟨rfl, hn⟩ | ⟨rfl, -⟩ | ⟨hstop, -, hn⟩
      · refine ⟨fun h' _ => ?_, fun hok => ⟨hsingle, fun _ => (released_iff hn).mpr ?_⟩⟩
        · rw [← he]
          exact (released_iff hn).mp (h'.released hn)
        · rw [he]
          exact hok rfl
      · exact absurd rfl hl
      · refine iff_of_true ⟨hsingle, fun hn' => (released_iff hn').mpr ?_⟩ fun e => absurd e hstop
        rw [he]
        exact hidle (hn ▸ hn')
  | started he hl hn =>
      subst hl
      refine iff_of_true ⟨fun i j hi hj => ?_, fun hn' => ?_⟩ fun e => by cases e
      · have hnew : ∀ k, s'.isRunning k = true → k = s.nextListener := by
          intro k hk
          by_contra hne
          rw [he, Function.update_of_ne hne, hidle hn k] at hk
          cases hk
        exact (hnew i hi).trans (hnew j hj).symm
      · rcases tcpListener_step hs with ⟨e, -⟩ | ⟨-, hsome⟩ | ⟨-, e, -⟩
        · cases e
        · rw [hn'] at hsome
          cases hsome
        · exact absurd rfl e
  | left k he hk hl =>
      have hsub : ∀ i, s'.isRunning i = true → s.isRunning i = true := by
        intro i hi
        rw [he] at hi
        rcases eq_or_ne i k with rfl | hne
        · exact hk
        · rwa [Function.update_of_ne hne] at hi
      have hstop : l ≠ .stop := by rcases hl with rfl | rfl <;> simp
      have hstart : l ≠ .start := by rcases hl with rfl | rfl <;> simp
      refine iff_of_true ⟨fun i j hi hj => h.single i j (hsub i hi) (hsub j hj), fun hn' => ?_⟩
        fun e => absurd e hstop
      rcases tcpListener_step hs with ⟨e, -⟩ | ⟨e, -⟩ | ⟨-, -, hn⟩
      · exact absurd e hstop
      · exact absurd e hstart
      · refine (released_iff hn').mpr fun i => ?_
        by_contra hr
        rw [Bool.not_eq_false] at hr
        have hoff := hidle (hn ▸ hn') i
        rw [hsub i hr] at hoff
        cases hoff

/-- **Stopping a TCP ingress really stops it, exactly when there is no accept loop left to stop**:
all along a run there is one accept loop at most, and a stopped ingress has released its listening
socket, if and only if every `stop` comes after the end of the accept loop. -/
theorem tcp_stop_releases_iff {ls : List (Label τ)} {s : TcpIngress τ w}
    (h : (system τ w).Run ls s) :
    (system τ w).Always ReleasesListener ls ↔ (system τ w).RunWithin StopsEndedLoop ls s :=
  h.always_iff_within releasesListener_new fun _ _ _ _ _ hi hs => releasesListener_step hi hs

/-- An ingress whose loop has ended, and which is stopped after that. -/
theorem tcp_stop_releases_iff_ended :
    ∃ s, (system ℕ 64).Run [.start, .spawnLoop 0, .acceptFails 0, .stop] s ∧
      (system ℕ 64).Always ReleasesListener [.start, .spawnLoop 0, .acceptFails 0, .stop] := by
  have h : (system ℕ 64).Run [.start, .spawnLoop 0, .acceptFails 0, .stop] _ :=
    System.run_of_exec rfl
  refine ⟨_, h, (tcp_stop_releases_iff h).mpr (System.runWithin_of_exec rfl ?_)⟩
  refine ⟨fun e => absurd e (by simp), fun e => absurd e (by simp), fun e => absurd e (by simp),
    fun _ i => ?_, trivial⟩
  rcases eq_or_ne i 0 with rfl | hne
  · rfl
  · have hu : (Function.update (Function.update (Function.update (fun _ => AcceptLoopPc.notSpawned)
        0 .spawning) 0 .accepting) 0 .finished i) = .notSpawned := by
      rw [Function.update_of_ne hne, Function.update_of_ne hne, Function.update_of_ne hne]
    exact congrArg AcceptLoopPc.isRunning hu

/-- The plain case: `start`, and `stop` while the loop waits in `accept`.  The loop keeps the
socket, and goes on to take a connection. -/
theorem tcp_stop_leaves_loop :
    (¬ ∀ ls s, (system ℕ 64).Run ls s → s.ReleasesListener) ∧
      ∃ s, (system ℕ 64).Run [.start, .spawnLoop 0, .stop] s ∧ s.tcpListener = none ∧
        (s.step (.accept 0 true)).isSome = true := by
  have h : (system ℕ 64).Run [.start, .spawnLoop 0, .stop] _ := System.run_of_exec rfl
  refine ⟨fun hall => ?_, _, h, rfl, rfl⟩
  exact not_exitEnabled rfl ((hall _ _ h).released rfl 0 (Or.inr rfl))

/-! ## Listening -/

end TcpIngress

namespace UdpIngress

variable {τ : Type} [DecidableEq τ] {w : ℕ}

def isRunning (s : UdpIngress τ w) (i : ℕ) : Bool :=
  s.socketLoop i = .spawning ∨ s.socketLoop i = .running

/-- A stored socket has a number that was given out, and a token that is not cancelled. -/
structure SocketLive (s : UdpIngress τ w) : Prop where
  stored : ∀ i, s.udpSocket = some i → i < s.nextSocket ∧ s.isCancelled i = false
  unused : ∀ i, s.nextSocket ≤ i → s.isCancelled i = false

lemma SocketLive.step {s s' : UdpIngress τ w} {l : Label τ} (h : s.SocketLive)
    (hs : s.step l = some s') : s'.SocketLive := by
  cases step_cases hs with
  | started =>
      refine ⟨fun i hi => ?_, fun i hi => h.unused i ?_⟩
      · have hi' : s.nextSocket = i := Option.some.inj hi
        subst hi'
        exact ⟨Nat.lt_succ_self _, h.unused _ (Nat.le_refl _)⟩
      · exact Nat.le_of_succ_le hi
  | @stopped i hi =>
      refine ⟨fun j hj => (by cases hj), fun j hj => ?_⟩
      have hne : j ≠ i := by
        have hlt := (h.stored i hi).1
        have hge : s.nextSocket ≤ j := hj
        omega
      exact (Function.update_of_ne hne ..).trans (h.unused j hj)
  | _ => exact ⟨h.stored, h.unused⟩

end UdpIngress

end Siffleux
