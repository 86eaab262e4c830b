import Mathlib.Data.List.Perm.Subperm
import Siffleux.Cli.Server.Launch

/-!
# The server program goes down

What the main thread does after its signal: the steps of `Server::stop`, in which every ingress is
stopped and every connection closed.

* `shutdownRank` — the steps left.
* `server_goes_down` — it comes to return, and then no client is connected and no ingress is
  started.
-/

namespace Siffleux

open ByteBuf Framing Transition

namespace LaunchServer

variable {w : ℕ} {machine : Machine} {config : ServerConfig} {configs : List IngressConfig}
  {s s' : LaunchServer w} {l : Label} {ls : List Label}

/-- The steps of the main thread in `Server::stop`. -/
def goesDown (_ : LaunchServer w) : Label → Bool
  | .takeEndpoint | .lockRegistry _ | .stopIngress | .drained | .close | .returns => true
  | _ => false

/-- The steps left until the thread returns. -/
def shutdownRank (n : ℕ) : LaunchServerPc → ℕ
  | .stopping => n + 5
  | .locking => n + 4
  | .draining left => left.length + 3
  | .closing => 2
  | .idling => 1
  | _ => 0

lemma Sound.down_step (h : Sound machine config configs s)
    (hn : s.pc.isStopping = true ∨ s.pc = .returned)
    (hs : LaunchServer.step machine config configs s l = some s') :
    (s'.pc.isStopping = true ∨ s'.pc = .returned) ∧
      shutdownRank configs.length s'.pc + (goesDown s l).toNat ≤
        shutdownRank configs.length s.pc := by
  cases step_cases hs with
  | certified hk | uncertified hk | listened hk | unbound hk | started hk | notStarted hk
  | assigned hk | assignPanics hk | signalled hk => simp [hk, LaunchServerPc.isStopping] at hn
  | taken hk => exact ⟨Or.inl rfl, by simp [hk, shutdownRank, goesDown]⟩
  | notTaken hk he =>
      rw [h.endpoint (by simp [hk]), hk] at he
      cases he
  | locked hk ho =>
      have hlen := ho.length_eq
      rw [h.registered_eq hk, List.length_range] at hlen
      exact ⟨Or.inl rfl, by simp [hk, shutdownRank, goesDown, hlen]⟩
  | stopped hk => exact ⟨Or.inl rfl, by simp [hk, shutdownRank, goesDown]⟩
  | drained hk => exact ⟨Or.inl rfl, by simp [hk, shutdownRank, goesDown]⟩
  | closed hk => exact ⟨Or.inl rfl, by simp [hk, shutdownRank, goesDown]⟩
  | returned hk => exact ⟨Or.inr rfl, by simp [hk, shutdownRank, goesDown]⟩
  | task => exact ⟨hn, Nat.le_refl _⟩

variable (machine config) in
/-- The thread can go on until it returns. -/
lemma Sound.down_progress (h : Sound machine config configs s) (hn : s.pc.isStopping = true) :
    ∃ l, goesDown s l = true ∧ (LaunchServer.step machine config configs s l).isSome = true := by
  have hp : s.pc ≠ .panicked := by
    intro hp
    simp [hp, LaunchServerPc.isStopping] at hn
  have hcall := h.call hp
  have hendpoint := h.endpoint hp
  cases hk : s.pc with
  | certificate | listening | starting | assigning | waiting | returned | panicked =>
      simp [hk, LaunchServerPc.isStopping] at hn
  | stopping =>
      obtain ⟨hlock, -⟩ := h.lock_free (by rw [hk]; rfl) hp
      rw [hk] at hcall hendpoint
      refine ⟨.takeEndpoint, rfl, ?_⟩
      simp [LaunchServer.step, hk, isSome_goOn, ServerSystem.step, ServerSystem.allows, Server.step,
        hlock, hendpoint, hcall, LaunchServerPc.endpoint, LaunchServerPc.stopPc]
  | locking =>
      rw [hk] at hcall
      have hflight : (s.system.server.stopCall 0).inFlight = true := by rw [hcall]; rfl
      have hfree : s.system.server.registryLock = none := by
        rw [Option.eq_none_iff_forall_ne_some]
        intro c hc
        have hdrains := (h.stops.registry c).mpr hc
        rcases eq_or_ne c 0 with rfl | hne
        · rw [hcall] at hdrains
          cases hdrains
        · rw [h.calls c hne] at hdrains
          cases hdrains
      have hperm := List.isPerm_iff.mpr (List.Perm.refl (s.registered configs))
      refine ⟨.lockRegistry (s.registered configs), rfl, ?_⟩
      simp [LaunchServer.step, hk, hperm, isSome_goOn, ServerSystem.step, ServerSystem.allows,
        Server.step, hcall, hfree, LaunchServerPc.stopPc]
  | draining left =>
      cases left with
      | nil =>
          rw [hk] at hcall
          refine ⟨.drained, rfl, ?_⟩
          simp [LaunchServer.step, hk, isSome_goOn, ServerSystem.step, ServerSystem.allows,
            Server.step, hcall, LaunchServerPc.stopPc]
      | cons k left => exact ⟨.stopIngress, rfl, by simp [LaunchServer.step, hk]⟩
  | closing =>
      rw [hk] at hcall
      refine ⟨.close, rfl, ?_⟩
      simp [LaunchServer.step, hk, isSome_goOn, ServerSystem.step, ServerSystem.allows, Server.step,
        hcall, LaunchServerPc.stopPc]
  | idling =>
      rw [hk] at hcall
      refine ⟨.returns, rfl, ?_⟩
      simp [LaunchServer.step, hk, isSome_goOn, ServerSystem.step, ServerSystem.allows, Server.step,
        hcall, LaunchServerPc.stopPc]

/-- **The program goes down with no client connected**: after the signal the main thread comes to
return, in a build whose panics unwind, within one step for each ingress and five more, whatever the
clients do meanwhile; and then every connection a client ever made has ended, none can be made, and
no ingress is registered or started.  The accept loop of a TCP ingress, which `stop` does not reach,
ends with the process. -/
theorem server_goes_down (h : (program w machine config configs).Run ls s) :
    (s.pc = .returned →
      (∀ k, (s.system.server.connection k).handler ≠ .notSpawned →
        (s.system.server.connection k).lost.isSome = true) ∧
      (∀ k e, s.system.server.step config.id (.incoming k e) = none) ∧
      (∀ id, s.system.server.ingressById id = none) ∧ ∀ k, (s.system.ingress k).isUp = false) ∧
    (s.pc.isStopping = true → (program w machine config configs).Ensures goesDown (fun _ _ => True)
      (fun t => t.pc = .returned) (configs.length + 5) s) := by
  have hsound := sound_run h
  refine ⟨fun hpc => ?_, fun hn => ?_⟩
  · have hp : s.pc ≠ .panicked := by simp [hpc]
    have hstopped : s.system.server.IsStopped := by
      refine ⟨(hsound.endpoint hp).trans (by rw [hpc]; rfl), ?_⟩
      rw [Option.eq_none_iff_forall_ne_some]
      intro c hc
      have hflight := (hsound.stops.lock c).mpr hc
      rcases eq_or_ne c 0 with rfl | hne
      · rw [hsound.call hp, hpc] at hflight
        cases hflight
      · rw [hsound.calls c hne] at hflight
        cases hflight
    obtain ⟨hnone, hlost⟩ := hsound.stops.nothing_open config.id hstopped
    refine ⟨hlost, hnone, fun id => ?_, fun k => ?_⟩
    · by_contra hid
      obtain ⟨k, _, hk, -⟩ := hsound.only hp id hid
      rw [hpc] at hk
      exact absurd hk (Nat.not_lt_zero k)
    · rw [hsound.up hp, hpc]
      rfl
  · refine System.ensures_of_variant
      (fun t => Sound machine config configs t ∧ (t.pc.isStopping = true ∨ t.pc = .returned))
      (fun t => shutdownRank configs.length t.pc) ?_ ?_ ⟨hsound, Or.inl hn⟩ ?_
    · rintro t l t' ⟨ht, hpt⟩ - hs
      obtain ⟨hpt', hle⟩ := ht.down_step hpt hs
      exact ⟨⟨ht.step hs, hpt'⟩, hle⟩
    · rintro t ⟨ht, hpt⟩ hg
      obtain ⟨l, hl, hen⟩ := ht.down_progress machine config (hpt.resolve_right hg)
      exact ⟨l, hl, trivial, hen⟩
    · cases hpc : s.pc with
      | draining left =>
          obtain ⟨hnodup, hlt⟩ := hsound.left _ hpc
          have hsub : left ⊆ List.range configs.length := fun k hk => List.mem_range.mpr (hlt k hk)
          have hle := (hnodup.subperm hsub).length_le
          rw [List.length_range] at hle
          simp only [shutdownRank]
          omega
      | _ => simp [shutdownRank]

/-- Up with both; a client connects, and the signal comes. -/
def launchedRun : List Label :=
  [.certificate true, .listen true, .start true, .assign, .task (.server (.incoming 0 0)),
    .start true, .assign, .task (.server (.handler 0 (.handshake true))), .signal]

/-- A client that is connected when the signal comes is not when the program has returned. -/
theorem server_goes_down_two : ∃ s, (program 64 freeMachine oneServer twoIngresses).Run
      (launchedRun ++ [.takeEndpoint, .lockRegistry [1, 0], .stopIngress, .stopIngress, .drained,
        .close, .returns]) s ∧ s.pc = .returned ∧
    (s.system.server.connection 0).lost.isSome = true := by
  have hpc : (((program 64 freeMachine oneServer twoIngresses).exec (new 64 twoIngresses)
      (launchedRun ++ [.takeEndpoint, .lockRegistry [1, 0], .stopIngress, .stopIngress, .drained,
        .close, .returns])).map fun s => (s.pc, (s.system.server.connection 0).handler)) =
      some (.returned, .acceptBi) := rfl
  obtain ⟨s, hs, hpc⟩ := Option.map_eq_some_iff.mp hpc
  obtain ⟨hpc, hspawned⟩ := Prod.mk.inj hpc
  refine ⟨s, System.run_of_exec hs, hpc,
    ((server_goes_down (System.run_of_exec hs)).1 hpc).1 0 ?_⟩
  rw [hspawned]
  simp

end LaunchServer

end Siffleux
