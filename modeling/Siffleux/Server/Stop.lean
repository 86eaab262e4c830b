import Siffleux.Foundation.Progress
import Siffleux.Server.Server

/-!
# Stopping the server

`Server::stop` takes the endpoint, drains the registry, and closes the endpoint with every
connection it ever accepted.  It holds the endpoint's mutex the whole time and the registry's write
guard in between, so the invariant says who holds what, and where each endpoint has gone: it is
stored, or a `stop` has it, or it is closed.

* `stop_leaves_nothing_open` — what holds of a server that does not listen, and that every `stop`
  comes to its end.
-/

namespace Siffleux

open ByteBuf Framing Transition

/-- The endpoint a call of `stop` has taken and not closed. -/
def ServerStopPc.holds : ServerStopPc → Option ℕ
  | lockRegistry e | draining e | close e => some e
  | _ => none

/-- The call has begun and not ended. -/
def ServerStopPc.inFlight : ServerStopPc → Bool
  | notCalled | returned | refused => false
  | _ => true

def ServerStopPc.drains : ServerStopPc → Bool
  | draining _ => true
  | _ => false

/-- The steps left of a call that has begun. -/
def ServerStopPc.rank : ServerStopPc → ℕ
  | lockRegistry _ => 4
  | draining _ => 3
  | close _ => 2
  | waitIdle => 1
  | _ => 0

namespace ServerConnection

variable {serverId : ServerId} {registry : IngressId → Option Ingress} {c c' : ServerConnection}
  {l : Label}

lemma lost_close_mono (c : ServerConnection) (code : VarInt) (reason : Bytes)
    (_ : c.lost.isSome = true) : (c.close code reason).lost.isSome = true :=
  c.close_lost code reason

lemma lost_write_mono {frame : FrameV1} {ok : HandlerPc} {failed : Error → HandlerPc}
    {failure : Option WriteError} (h : c.lost.isSome = true) :
    (c.write frame ok failed failure).lost.isSome = true := by
  cases failure <;> exact h

lemma lost_leave_mono (c : ServerConnection) (pc : HandlerPc) (h : c.lost.isSome = true) :
    (c.leave pc).lost.isSome = true := (c.leave_lost pc).mpr (Or.inr h)

lemma lost_pollAuth_mono {r : FramedRead} (h : c.lost.isSome = true) :
    (c.pollAuth r).lost.isSome = true := by
  rw [pollAuth]
  split
  · exact lost_leave_mono c _ h
  · exact h
  · exact lost_leave_mono c _ h
  · rename_i frame r' _
    cases frame with
    | auth => exact h
    | _ => exact c.close_lost _ _
  · exact c.close_lost _ _

lemma lost_onCommandError_mono {tunnelId : Uuid} {e : Error} (h : c.lost.isSome = true) :
    (c.onCommandError tunnelId e).lost.isSome = true := by
  rw [onCommandError]
  split
  · exact lost_leave_mono c _ h
  · exact h

lemma lost_pollCommands_mono {tunnelId : Uuid} {r : FramedRead} (h : c.lost.isSome = true) :
    (c.pollCommands tunnelId r).lost.isSome = true := by
  rw [pollCommands]
  split
  · exact lost_leave_mono c _ h
  · exact h
  · exact lost_leave_mono c _ h
  · exact h
  · exact h
  · exact lost_onCommandError_mono h

/-- A connection that has ended stays so, and a task that has not begun does not move. -/
lemma lost_step (hs : c.step serverId registry l = some c') :
    c.handler ≠ .notSpawned ∧ (c.lost.isSome = true → c'.lost.isSome = true) := by
  cases step_cases hs with
  | handshaken h | accepted h | authData h | commandData h | authEof h | commandEof h | found h
  | rightKey h | replied h | assignCalled h | assignReturned h => exact ⟨by simp [h], id⟩
  | replyFails h => exact ⟨by simp [h], lost_leave_mono c _⟩
  | noStream h | tunnelClosed h => exact ⟨by simp [h], lost_close_mono c _ _⟩
  | authFails h | timedOut h | notFound h | wrongKey h =>
      exact ⟨by simp [h], lost_close_mono c _ _⟩
  | commandFails h => exact ⟨by simp [h], lost_onCommandError_mono⟩
  | authPolled h => exact ⟨by simp [h], lost_pollAuth_mono⟩
  | commandPolled h => exact ⟨by simp [h], lost_pollCommands_mono⟩
  | pinged h | ponged h => exact ⟨by simp [h], lost_write_mono⟩

end ServerConnection

namespace Server

variable {serverId : ServerId} {s s' : Server} {l : Label} {ls : List Label}

/-! ## Who holds what -/

/-- Every endpoint is stored, or is being stopped, or is closed, and with a closed endpoint its
connections have ended. -/
structure StopSound (s : Server) : Prop where
  lock : ∀ c, (s.stopCall c).inFlight = true ↔ s.endpointLock = some c
  registry : ∀ c, (s.stopCall c).drains = true ↔ s.registryLock = some c
  taken : s.endpointLock.isSome = true → s.endpoint = none
  accounted : ∀ e < s.nextEndpoint, s.endpoint = some e ∨ (∃ c, (s.stopCall c).holds = some e) ∨
    s.endpointClosed e = true
  accepted : ∀ k, (s.connection k).handler ≠ .notSpawned → s.endpointOf k < s.nextEndpoint ∧
    (s.endpointClosed (s.endpointOf k) = true → (s.connection k).lost.isSome = true)

lemma stopSound_new : StopSound new where
  lock _ := by simp [new, ServerStopPc.inFlight]
  registry _ := by simp [new, ServerStopPc.drains]
  taken h := by cases h
  accounted _ h := by cases h
  accepted _ h := absurd rfl h

lemma ServerStopPc.inFlight_of_holds {pc : ServerStopPc} {e : ℕ} (h : pc.holds = some e) :
    pc.inFlight = true := by
  cases pc <;> first | rfl | cases h

lemma ServerStopPc.inFlight_of_drains {pc : ServerStopPc} (h : pc.drains = true) :
    pc.inFlight = true := by
  cases pc <;> first | rfl | cases h

/-- A property of the one call that moves, among all calls. -/
lemma update_iff_some {f : ℕ → ServerStopPc} {P : ServerStopPc → Bool} {c : ℕ} {pc : ServerStopPc}
    {lock lock' : Option ℕ} (h : ∀ d, P (f d) = true ↔ lock = some d)
    (hself : P pc = true ↔ lock' = some c) (hother : ∀ d, d ≠ c → (lock = some d ↔ lock' = some d))
    (d : ℕ) : P (Function.update f c pc d) = true ↔ lock' = some d := by
  rcases eq_or_ne d c with rfl | hne
  · rw [Function.update_self]
    exact hself
  · rw [Function.update_of_ne hne, h d]
    exact hother d hne

lemma iff_some_of_eq {P : ServerStopPc → Bool} {pc pc' : ServerStopPc} {lock : Option ℕ} {c : ℕ}
    (h : P pc = true ↔ lock = some c) (hP : P pc' = P pc) : P pc' = true ↔ lock = some c := by
  rw [hP]
  exact h

/-- The calls of `stop` hold the endpoints they held, up to the one that moves. -/
lemma holds_update {f : ℕ → ServerStopPc} {c e : ℕ} {pc : ServerStopPc}
    (h : ∃ d, (f d).holds = some e) (hc : (f c).holds = some e → pc.holds = some e) :
    ∃ d, (Function.update f c pc d).holds = some e := by
  obtain ⟨d, hd⟩ := h
  rcases eq_or_ne d c with rfl | hne
  · exact ⟨d, by rw [Function.update_self]; exact hc hd⟩
  · exact ⟨d, by rw [Function.update_of_ne hne]; exact hd⟩

lemma holds_self {f : ℕ → ServerStopPc} {c e : ℕ} {pc : ServerStopPc} (h : pc.holds = some e) :
    (Function.update f c pc c).holds = some e := by
  rw [Function.update_self]
  exact h

/-- A step of one connection. -/
lemma StopSound.setConnection (h : s.StopSound) {k : ℕ} {c : ServerConnection}
    (hc : (s.connection k).handler ≠ .notSpawned ∨ c.handler = .notSpawned)
    (hlost : (s.connection k).lost.isSome = true → c.lost.isSome = true) :
    (s.setConnection k c).StopSound := by
  refine ⟨h.lock, h.registry, h.taken, h.accounted, fun j hj => ?_⟩
  rw [setConnection_connection] at hj ⊢
  rcases eq_or_ne j k with rfl | hne
  · rw [Function.update_self] at hj ⊢
    obtain ⟨hlt, hclosed⟩ := h.accepted j (hc.resolve_right hj)
    exact ⟨hlt, fun hcl => hlost (hclosed hcl)⟩
  · rw [Function.update_of_ne hne] at hj ⊢
    exact h.accepted j hj

/-! ## One lemma for each kind of step -/

lemma StopSound.listens (h : s.StopSound) (hl : s.endpointLock = none) (hn : s.endpoint = none) :
    StopSound
      { s with endpoint := some s.nextEndpoint, nextEndpoint := s.nextEndpoint + 1 } := by
  refine ⟨h.lock, h.registry, by simp [hl], fun e he => ?_, fun k hk => ?_⟩
  · rcases Nat.lt_succ_iff_lt_or_eq.mp he with hlt | rfl
    · have := h.accounted e hlt
      rw [hn] at this
      exact Or.inr (this.resolve_left (by simp))
    · exact Or.inl rfl
  · obtain ⟨hlt, hclosed⟩ := h.accepted k hk
    exact ⟨Nat.lt_succ_of_lt hlt, hclosed⟩

/-- An endpoint that accepts is not closed. -/
lemma StopSound.accepts (h : s.StopSound) {k e : ℕ} (he : e < s.nextEndpoint)
    (ho : s.endpointClosed e = false) :
    StopSound { s.setConnection k { s.connection k with handler := .handshake } with
      endpointOf := Function.update s.endpointOf k e } := by
  refine ⟨h.lock, h.registry, h.taken, h.accounted, fun j hj => ?_⟩
  simp only [setConnection_connection] at hj ⊢
  rcases eq_or_ne j k with rfl | hne
  · rw [Function.update_self]
    refine ⟨he, fun hclosed => ?_⟩
    rw [show s.endpointClosed e = true from hclosed] at ho
    cases ho
  · rw [Function.update_of_ne hne] at hj ⊢
    rw [Function.update_of_ne hne]
    exact h.accepted j hj

/-- With the mutex free, nobody holds an endpoint: the stored one goes to the call. -/
lemma StopSound.takes (h : s.StopSound) {c e : ℕ} (hc : s.stopCall c = .notCalled)
    (hl : s.endpointLock = none) (he : s.endpoint = some e) :
    StopSound { s.setStop c (.lockRegistry e) with endpoint := none, endpointLock := some c } := by
  refine ⟨update_iff_some h.lock (by simp [ServerStopPc.inFlight]) fun d hne => ?_,
    update_iff_some h.registry (iff_some_of_eq (h.registry c) (by rw [hc]; rfl)) fun _ _ => Iff.rfl,
    fun _ => rfl, fun e' he' => ?_, h.accepted⟩
  · simp [hl, hne.symm]
  · rcases h.accounted e' he' with hst | ⟨d, hd⟩ | hclosed
    · obtain rfl := Option.some.inj (he.symm.trans hst)
      exact Or.inr (Or.inl ⟨c, holds_self rfl⟩)
    · have hlock := (h.lock d).mp (ServerStopPc.inFlight_of_holds hd)
      rw [hl] at hlock
      cases hlock
    · exact Or.inr (Or.inr hclosed)

/-- Where the endpoints are, when a call moves that holds the same endpoint afterwards. -/
lemma StopSound.accounted_setStop (h : s.StopSound) {c : ℕ} {pc : ServerStopPc}
    (hpc : pc.holds = (s.stopCall c).holds) (e : ℕ) (he : e < s.nextEndpoint) :
    s.endpoint = some e ∨ (∃ d, (Function.update s.stopCall c pc d).holds = some e) ∨
      s.endpointClosed e = true :=
  (h.accounted e he).imp_right fun hx => hx.imp_left fun hd =>
    holds_update hd fun hce => hpc.trans hce

lemma StopSound.refuses (h : s.StopSound) {c : ℕ} (hc : s.stopCall c = .notCalled) :
    (s.setStop c .refused).StopSound :=
  ⟨update_iff_some h.lock (iff_some_of_eq (h.lock c) (by rw [hc]; rfl)) fun _ _ => Iff.rfl,
    update_iff_some h.registry (iff_some_of_eq (h.registry c) (by rw [hc]; rfl)) fun _ _ => Iff.rfl,
    h.taken, h.accounted_setStop (by rw [hc]; rfl), h.accepted⟩

lemma StopSound.locks (h : s.StopSound) {c e : ℕ} (hc : s.stopCall c = .lockRegistry e)
    (hl : s.registryLock = none) :
    StopSound { s.setStop c (.draining e) with registryLock := some c } := by
  refine ⟨update_iff_some h.lock (iff_some_of_eq (h.lock c) (by rw [hc]; rfl)) fun _ _ => Iff.rfl,
    update_iff_some h.registry (by simp [ServerStopPc.drains]) fun d hne => ?_, h.taken,
    h.accounted_setStop (by rw [hc]; rfl), h.accepted⟩
  simp [hl, hne.symm]

lemma StopSound.drains (h : s.StopSound) {c e : ℕ} (hc : s.stopCall c = .draining e) :
    StopSound { s.setStop c (.close e) with
      ingressById := fun _ => none
      registryLock := none } := by
  have hl := (h.registry c).mp (by rw [hc]; rfl)
  refine ⟨update_iff_some h.lock (iff_some_of_eq (h.lock c) (by rw [hc]; rfl)) fun _ _ => Iff.rfl,
    update_iff_some h.registry (by simp [ServerStopPc.drains]) fun d hne => ?_, h.taken,
    h.accounted_setStop (by rw [hc]; rfl), h.accepted⟩
  simp [hl, hne.symm]

/-- The endpoint goes from the call to the closed ones, with its connections. -/
lemma StopSound.closes (h : s.StopSound) {c e : ℕ} (hc : s.stopCall c = .close e) :
    StopSound { s.setStop c .waitIdle with
      endpointClosed := Function.update s.endpointClosed e true
      connection := fun k =>
        if s.endpointOf k = e then (s.connection k).close Code.connectionEof (asBytes "done")
        else s.connection k } := by
  refine ⟨update_iff_some h.lock (iff_some_of_eq (h.lock c) (by rw [hc]; rfl)) fun _ _ => Iff.rfl,
    update_iff_some h.registry (iff_some_of_eq (h.registry c) (by rw [hc]; rfl)) fun _ _ => Iff.rfl,
    h.taken, fun e' he' => ?_, fun k hk => ?_⟩
  · rcases eq_or_ne e' e with rfl | hne
    · exact Or.inr (Or.inr (Function.update_self ..))
    · refine (h.accounted e' he').imp_right fun hx => hx.imp (fun hd => ?_) fun hcl => ?_
      · refine holds_update hd fun hce => ?_
        rw [hc] at hce
        exact absurd (Option.some.inj hce).symm hne
      · exact (Function.update_of_ne hne ..).trans hcl
  · by_cases he : s.endpointOf k = e
    · simp only [setStop, he, if_true] at hk ⊢
      rw [ServerConnection.close_handler] at hk
      exact ⟨he ▸ (h.accepted k hk).1, fun _ => ServerConnection.close_lost ..⟩
    · simp only [setStop, he, if_false, Function.update_of_ne he] at hk ⊢
      exact h.accepted k hk

lemma StopSound.stops (h : s.StopSound) {c : ℕ} (hc : s.stopCall c = .waitIdle) :
    StopSound { s.setStop c .returned with endpointLock := none } := by
  have hl := (h.lock c).mp (by rw [hc]; rfl)
  refine ⟨update_iff_some h.lock (by simp [ServerStopPc.inFlight]) fun d hne => ?_,
    update_iff_some h.registry (iff_some_of_eq (h.registry c) (by rw [hc]; rfl)) fun _ _ => Iff.rfl,
    by simp, h.accounted_setStop (by rw [hc]; rfl), h.accepted⟩
  simp [hl, hne.symm]

theorem StopSound.step (h : s.StopSound) (hs : s.step serverId l = some s') : s'.StopSound := by
  cases step_cases hs with
  | listens hl he => exact h.listens hl he
  | assigns => exact ⟨h.lock, h.registry, h.taken, h.accounted, h.accepted⟩
  | accepts _ he ho => exact h.accepts he ho
  | handles hc =>
      obtain ⟨hspawned, hlost⟩ := ServerConnection.lost_step hc
      exact h.setConnection (Or.inl hspawned) hlost
  | loses => exact h.setConnection (by tauto) fun _ => rfl
  | takes hc hl he => exact h.takes hc hl he
  | refuses hc => exact h.refuses hc
  | locks hc hl => exact h.locks hc hl
  | drains hc => exact h.drains hc
  | closes hc => exact h.closes hc
  | stops hc => exact h.stops hc

theorem stopSound_run (h : (system serverId).Run ls s) : s.StopSound :=
  h.invariant (P := StopSound) stopSound_new fun _ _ _ hi hs => hi.step hs

/-- A server that does not listen, and that nobody is stopping. -/
def IsStopped (s : Server) : Prop := s.endpoint = none ∧ s.endpointLock = none

variable (serverId) in
/-- A stopped server accepts no connection, and all it ever accepted have ended. -/
lemma StopSound.nothing_open (h : s.StopSound) (hs : s.IsStopped) :
    (∀ k e, s.step serverId (.incoming k e) = none) ∧
      ∀ k, (s.connection k).handler ≠ .notSpawned → (s.connection k).lost.isSome = true := by
  obtain ⟨hnone, hlock⟩ := hs
  have hidle : ∀ c, (s.stopCall c).inFlight = false := by
    intro c
    rw [Bool.eq_false_iff]
    intro hc
    have := (h.lock c).mp hc
    rw [hlock] at this
    cases this
  have hclosed : ∀ e < s.nextEndpoint, s.endpointClosed e = true := by
    intro e he
    rcases h.accounted e he with hst | ⟨c, hc⟩ | hclosed
    · rw [hnone] at hst
      cases hst
    · have := ServerStopPc.inFlight_of_holds hc
      rw [hidle c] at this
      cases this
    · exact hclosed
  refine ⟨fun k e => ?_, fun k hk => ?_⟩
  · simp only [Server.step]
    split
    · rw [if_neg]
      rintro ⟨hlt, hopen⟩
      rw [hclosed e hlt] at hopen
      cases hopen
    · rfl
  · obtain ⟨hlt, hlost⟩ := h.accepted k hk
    exact hlost (hclosed _ hlt)

/-! ## Coming to an end -/

/-- The steps of the call `c` of `stop` once it has the endpoint. -/
def isStopStep (c : ℕ) (_ : Server) : Label → Bool
  | .stopLockRegistry d | .stopDrained d | .stopClose d | .stopReturns d => d = c
  | _ => false

/-- Only the call's own steps move a call of `stop`. -/
lemma stopRank_step {c : ℕ} (h : (s.stopCall c).inFlight = true ∨ s.stopCall c = .returned)
    (hs : s.step serverId l = some s') :
    ((s'.stopCall c).inFlight = true ∨ s'.stopCall c = .returned) ∧
      (s'.stopCall c).rank + (isStopStep c s l).toNat ≤ (s.stopCall c).rank := by
  have hother : ∀ {d : ℕ} {pc : ServerStopPc}, c ≠ d →
      Function.update s.stopCall d pc c = s.stopCall c := fun hne => Function.update_of_ne hne ..
  -- the call that moves is in front of `pc`, which has one step less to do
  have hmove : ∀ {d : ℕ} {pc : ServerStopPc} {l : Label},
      (pc.inFlight = true ∨ pc = .returned) → pc.rank + 1 ≤ (s.stopCall d).rank →
      isStopStep c s l = decide (d = c) →
      ((Function.update s.stopCall d pc c).inFlight = true ∨
        Function.update s.stopCall d pc c = .returned) ∧
      (Function.update s.stopCall d pc c).rank + (isStopStep c s l).toNat ≤
        (s.stopCall c).rank := by
    intro d pc l hpc hrank hl
    rcases eq_or_ne c d with rfl | hne
    · rw [Function.update_self, hl]
      simpa using ⟨hpc, hrank⟩
    · rw [hother hne, hl, decide_eq_false hne.symm]
      exact ⟨h, Nat.le_refl _⟩
  have hstill : ∀ {d : ℕ} {pc : ServerStopPc}, s.stopCall d = .notCalled →
      ((Function.update s.stopCall d pc c).inFlight = true ∨
        Function.update s.stopCall d pc c = .returned) ∧
      (Function.update s.stopCall d pc c).rank + 0 ≤ (s.stopCall c).rank := by
    intro d pc hd
    have hne : c ≠ d := by
      rintro rfl
      simp [hd, ServerStopPc.inFlight] at h
    rw [hother hne]
    exact ⟨h, Nat.le_refl _⟩
  cases step_cases hs with
  | listens | assigns | accepts | handles | loses => exact ⟨h, Nat.le_refl _⟩
  | takes hd => exact hstill hd
  | refuses hd => exact hstill hd
  | @locks d e hd => exact hmove (Or.inl rfl) (by simp [hd, ServerStopPc.rank]) rfl
  | @drains d e hd => exact hmove (Or.inl rfl) (by simp [hd, ServerStopPc.rank]) rfl
  | @closes d e hd => exact hmove (Or.inl rfl) (by simp [hd, ServerStopPc.rank]) rfl
  | @stops d hd => exact hmove (Or.inr rfl) (by simp [hd, ServerStopPc.rank]) rfl

variable (serverId) in
/-- The registry's guard is free for the one `stop` that wants it. -/
lemma StopSound.stop_enabled (h : s.StopSound) {c : ℕ} (hc : (s.stopCall c).inFlight = true) :
    ∃ l, isStopStep c s l = true ∧ (s.step serverId l).isSome = true := by
  cases hpc : s.stopCall c with
  | notCalled | returned | refused => simp [hpc, ServerStopPc.inFlight] at hc
  | lockRegistry e =>
      have hfree : s.registryLock = none := by
        rw [Option.eq_none_iff_forall_ne_some]
        intro d hd
        have hdrains := (h.registry d).mpr hd
        have hlock := (h.lock d).mp (ServerStopPc.inFlight_of_drains hdrains)
        obtain rfl : c = d := Option.some.inj (((h.lock c).mp hc).symm.trans hlock)
        rw [hpc] at hdrains
        cases hdrains
      exact ⟨.stopLockRegistry c, by simp [isStopStep], by simp [Server.step, hpc, hfree]⟩
  | draining e => exact ⟨.stopDrained c, by simp [isStopStep], by simp [Server.step, hpc]⟩
  | close e => exact ⟨.stopClose c, by simp [isStopStep], by simp [Server.step, hpc]⟩
  | waitIdle => exact ⟨.stopReturns c, by simp [isStopStep], by simp [Server.step, hpc]⟩

/-- **Nothing is left open by a server that has been stopped, and no `stop` waits for good**, with
every call and every task on a thread of its own.  In every run: a stopped server accepts no
connection, and all it ever accepted have ended; there is one `stop` at work at a time, which
returns within four steps of its own, whatever the connections' tasks do; and a call of `stop`, or a
task's lookup, waits for that one only. -/
theorem stop_leaves_nothing_open (h : (system serverId).Run ls s) :
    (s.IsStopped → (∀ k e, s.step serverId (.incoming k e) = none) ∧
      ∀ k, (s.connection k).handler ≠ .notSpawned → (s.connection k).lost.isSome = true) ∧
    (∀ c d, (s.stopCall c).inFlight = true → (s.stopCall d).inFlight = true → c = d) ∧
    (∀ c, (s.stopCall c).inFlight = true → (system serverId).Ensures (isStopStep c)
      (fun _ _ => True) (fun t => t.stopCall c = .returned) 4 s) ∧
    (∀ c, s.stopCall c = .notCalled → (s.step serverId (.stopTake c)).isSome = true ∨
      ∃ d, (s.stopCall d).inFlight = true) ∧
    (∀ l, s.waitsForRegistry l = true → ∃ d, (s.stopCall d).drains = true) := by
  have hsound := stopSound_run h
  refine ⟨fun ⟨hnone, hlock⟩ => ?_, fun c d hc hd => ?_, fun c hc => ?_, fun c hc => ?_,
    fun l hl => ?_⟩
  · exact hsound.nothing_open serverId ⟨hnone, hlock⟩
  · exact Option.some.inj (((hsound.lock c).mp hc).symm.trans ((hsound.lock d).mp hd))
  · refine System.ensures_of_variant
      (fun t => t.StopSound ∧ ((t.stopCall c).inFlight = true ∨ t.stopCall c = .returned))
      (fun t => (t.stopCall c).rank) ?_ ?_ ⟨hsound, Or.inl hc⟩ ?_
    · rintro t l t' ⟨ht, hct⟩ - hs
      obtain ⟨hct', hle⟩ := stopRank_step hct hs
      exact ⟨⟨ht.step hs, hct'⟩, hle⟩
    · rintro t ⟨ht, hct⟩ hg
      obtain ⟨l, hl, hen⟩ := ht.stop_enabled serverId (hct.resolve_right hg)
      exact ⟨l, hl, trivial, hen⟩
    · cases s.stopCall c <;> simp [ServerStopPc.rank]
  · cases hlock : s.endpointLock with
    | none =>
        refine Or.inl ?_
        cases he : s.endpoint <;> simp [Server.step, hc, hlock, he]
    | some d => exact Or.inr ⟨d, (hsound.lock d).mpr hlock⟩
  · cases l with
    | lookup =>
        obtain ⟨d, hd⟩ := Option.isSome_iff_exists.mp hl
        exact ⟨d, (hsound.registry d).mpr hd⟩
    | _ => cases hl

/-- A server that listens, takes a connection, and is stopped. -/
def stoppedRun : List Label :=
  [.listen, .incoming 0 0, .handler 0 (.handshake true), .stopTake 0, .stopLockRegistry 0,
    .stopDrained 0, .stopClose 0, .stopReturns 0]

theorem stop_leaves_nothing_open_one : ∃ s, (system ⟨"t", by decide, by decide⟩).Run stoppedRun s ∧
    s.IsStopped ∧ (s.connection 0).lost.isSome = true := by
  have h : (system ⟨"t", by decide, by decide⟩).Run stoppedRun _ := System.run_of_exec rfl
  have hspawned : ∀ pc, pc = HandlerPc.acceptBi → pc ≠ .notSpawned := by
    rintro _ rfl
    simp
  exact ⟨_, h, ⟨rfl, rfl⟩, ((stop_leaves_nothing_open h).1 ⟨rfl, rfl⟩).2 0 (hspawned _ rfl)⟩

end Server

end Siffleux
