import Mathlib.Data.List.Perm.Subperm
import Siffleux.Cli.Client.Launch

/-!
# The client program goes down

What the main thread does after its signal: it drains the client and stops one egress after the
other, waiting for the tunnel task of each.

* `shutdownRank` — the steps left, of the thread and of the tasks it waits for.
* `shutdown_leaves_nothing` — it comes to return, and then no tunnel task is left.
-/

namespace Siffleux

open ByteBuf Transition

namespace LaunchClient

variable {configs : List EgressConfig} {look : Lookup} {p : Profile} {s s' : LaunchClient configs}
  {l : Label configs} {ls : List (Label configs)}

/-- The task that is waited for does not begin anew. -/
def EndsStopped (s : LaunchClient configs) : Label configs → Prop
  | .egress k l => Egress.EndsTask 0 (s.egress k) l
  | _ => True

/-- A step of the call of `stop`, or of the task it waits for. -/
def bringsDown {L : MainLoop} (g : Egress L) : Egress.Label L → Bool
  | .stopTake _ => true
  | l => Egress.isStopStep 0 g l

/-- The steps of the main thread on its way down, and of the tasks it waits for. -/
def goesDown (s : LaunchClient configs) : Label configs → Bool
  | .drain _ | .stopped => true
  | .egress k l => bringsDown (s.egress k) l
  | _ => false

def stopLeft {L : MainLoop} (g : Egress L) : ℕ :=
  if g.stopCall 0 = .notCalled then 8 else g.stopRank 0

/-- The steps left until the thread returns. -/
def shutdownRank (s : LaunchClient configs) : ℕ :=
  match s.pc with
  | .draining => 9 * configs.length + 2
  | .stopping [] => 1
  | .stopping ((_, k) :: left) => 9 * left.length + 2 + stopLeft (s.egress k)
  | _ => 0

lemma stopLeft_le {L : MainLoop} (g : Egress L) : stopLeft g ≤ 8 := by
  rw [stopLeft]
  split_ifs
  · exact Nat.le_refl _
  · have hle : ∀ i, TaskPc.rank (g.task i) ≤ 4 := fun i => by
      cases g.task i <;> simp [TaskPc.rank]
    unfold Egress.stopRank
    split
    · omega
    · have := hle ‹ℕ›
      omega
    · omega
    · omega

/-- An egress that is not being stopped does not bring the thread nearer to its return. -/
lemma not_bringsDown {L : MainLoop} {g : Egress L} {l : Egress.Label L}
    (h : (g.stopCall 0).inFlight = false) (hl : isStop l = false) : bringsDown g l = false := by
  cases l with
  | stopTake | stopCancel | stopAwait | stopSend => cases hl
  | _ =>
      simp only [bringsDown, Egress.isStopStep]
      split
      · rename_i i hi
        rw [hi] at h
        cases h
      · rfl

lemma stopLeft_step {L : MainLoop} {g g' : Egress L} {l : Egress.Label L} (h : g.Owned)
    (hh : g.TasksHeld) (hok : g.OwnCall l) (hends : Egress.EndsTask 0 g l)
    (hs : Egress.step p g l = some g') :
    stopLeft g' + (bringsDown g l).toNat ≤ stopLeft g := by
  by_cases hcall : g.stopCall 0 = .notCalled
  · cases hl : isStop l with
    | false =>
        have hkeep := (kept_of_step hs).2 hl
        rw [not_bringsDown (by rw [hcall]; rfl) hl, stopLeft, stopLeft, hkeep, if_pos hcall,
          if_pos hcall]
        exact Nat.le_refl _
    | true =>
        cases Egress.step_cases hs with
        | task ht => cases ht <;> cases hl
        | call hc =>
            cases hc with
            | startLock | startRefused | startChecked | startSend | startWrite | startSpawn
            | startStore => cases hl
            | stopTake hc | stopRefused hc =>
                obtain ⟨rfl, -⟩ := hok
                simp [stopLeft, Egress.stopRank, hcall, Egress.setStop, bringsDown]
            | @stopCancel c i hc | @stopJoined c i hc | @stopJoinFails c i hc | @stopSend c hc =>
                obtain rfl := h.stop_eq (c := c) (by simp [hc])
                rw [hcall] at hc
                cases hc
  · obtain ⟨hcall', hle⟩ := Egress.stopRank_step hh hcall hends hs
    rw [stopLeft, stopLeft, if_neg hcall, if_neg hcall']
    cases l with
    | stopTake c =>
        obtain ⟨rfl, -⟩ := hok
        cases Egress.step_cases hs with
        | task ht => cases ht
        | call hc =>
            cases hc with
            | stopTake hc | stopRefused hc => exact absurd hc hcall
    | _ => exact hle

/-- Only the egress that is being stopped is in `stop`. -/
lemma Sound.not_inFlight (h : Sound look s) {k : ℕ} (hpc : s.pc ≠ .panicked)
    (hk : s.pc.isStoppingOf k = false) : ((s.egress k).stopCall 0).inFlight = false := by
  have hphase := h.phase k
  have hup : ∀ {ph : Phase}, InPhase (s.egress k) ph → ph ≠ .stopping → ph ≠ .gone →
      ((s.egress k).stopCall 0).inFlight = false := by
    intro ph hph hne hgone
    cases ph with
    | fresh | up => rw [hph.2]; rfl
    | starting => rw [InPhase] at hph; rw [hph]; rfl
    | down => exact hph.2
    | stopping => exact absurd rfl hne
    | gone => exact absurd rfl hgone
  refine hup hphase ?_ ?_
  · intro hst
    cases hs : s.pc with
    | stopping left =>
        cases left with
        | nil =>
            simp only [hs, phaseOf, List.map_nil, List.head?_nil, reduceCtorEq, if_false] at hst
            split_ifs at hst
        | cons e left =>
            have hne : e.2 ≠ k := by simpa [hs, LaunchPc.isStoppingOf] using hk
            simp only [hs, phaseOf, List.map_cons, List.head?_cons, Option.some.injEq, hne,
              if_false] at hst
            split_ifs at hst
    | panicked => exact hpc hs
    | _ =>
        simp only [hs, phaseOf] at hst
        split_ifs at hst
  · intro hg
    cases hs : s.pc with
    | panicked => exact hpc hs
    | _ =>
        simp only [hs, phaseOf] at hg
        split_ifs at hg

lemma not_isStop_of_permits {pc : LaunchPc} {k : ℕ} {L : MainLoop} {l : Egress.Label L}
    (h : permits pc k l = true) (hk : pc.isStoppingOf k = false) : isStop l = false := by
  rw [Bool.eq_false_iff]
  intro hl
  obtain ⟨id, left, rfl⟩ := stopping_of_permits h hl
  simp [LaunchPc.isStoppingOf] at hk

/-- What is left to do when the thread comes to the egresses `left`. -/
lemma shutdownRank_stopping (s : LaunchClient configs) (left : List (EgressId × ℕ)) :
    shutdownRank { s with pc := .stopping left } ≤ 9 * left.length + 1 := by
  cases left with
  | nil => exact Nat.le_refl _
  | cons e left =>
      have := stopLeft_le (s.egress e.2)
      simp only [shutdownRank, List.length_cons]
      omega

lemma Sound.down_step (h : Sound look s) (hn : s.pc.isStopping = true ∨ s.pc = .returned)
    (hok : EndsStopped s l) (hs : LaunchClient.step look p s l = some s') :
    (s'.pc.isStopping = true ∨ s'.pc = .returned) ∧
      shutdownRank s' + (goesDown s l).toNat ≤ shutdownRank s := by
  cases step_cases hs with
  | resolved hpc | unresolved hpc | started hpc | startPanics hpc | assigned hpc
  | assignPanics hpc | signalled hpc => simp [hpc, LaunchPc.isStopping] at hn
  | @drained order hpc ho =>
      have hnames := congrArg List.length (h.names (by rw [hpc]; rfl))
      rw [hpc, List.length_map, List.length_range] at hnames
      have hle := shutdownRank_stopping { s with client := .new } order
      rw [ho.length_eq, hnames] at hle
      refine ⟨Or.inl rfl, ?_⟩
      have hrank : shutdownRank s = 9 * configs.length + 2 := by rw [shutdownRank, hpc]
      rw [hrank]
      exact Nat.succ_le_succ hle
  | @stopped id k left hpc hdown =>
      have hle := shutdownRank_stopping s left
      have hrank : shutdownRank s = 9 * left.length + 2 + stopLeft (s.egress k) := by
        rw [shutdownRank, hpc]
      refine ⟨Or.inl rfl, ?_⟩
      simp only [goesDown, Bool.toNat_true]
      omega
  | allStopped hpc =>
      refine ⟨Or.inr rfl, ?_⟩
      simp [shutdownRank, hpc, goesDown]
  | @egress k l g hp hg =>
      refine ⟨hn, ?_⟩
      have hpc : s.pc ≠ .panicked := by
        intro hpc
        simp [hpc, LaunchPc.isStopping] at hn
      cases hk : s.pc.isStoppingOf k with
      | false =>
          have hstill := not_bringsDown (h.not_inFlight hpc hk) (not_isStop_of_permits hp hk)
          simp only [goesDown, hstill, Bool.toNat_false, Nat.add_zero, shutdownRank]
          split
          · exact Nat.le_refl _
          · exact Nat.le_refl _
          · rename_i id j left hj
            have hne : j ≠ k := by simpa [hj, LaunchPc.isStoppingOf] using hk
            rw [Function.update_of_ne hne]
          · exact Nat.le_refl _
      | true =>
          obtain ⟨id, left, hj⟩ : ∃ id left, s.pc = .stopping ((id, k) :: left) := by
            cases hs : s.pc with
            | stopping left =>
                cases left with
                | nil => simp [hs, LaunchPc.isStoppingOf] at hk
                | cons e left =>
                    obtain rfl : e.2 = k := by simpa [hs, LaunchPc.isStoppingOf] using hk
                    exact ⟨e.1, left, rfl⟩
            | _ => simp [hs, LaunchPc.isStoppingOf] at hk
          have hle := stopLeft_step (h.owned k) (h.held k) (h.ownCall hp) hok hg
          simp only [shutdownRank, hj, Function.update_self, goesDown]
          omega

lemma permits_of_bringsDown {L : MainLoop} {g : Egress L} {l : Egress.Label L} {pc : LaunchPc}
    {k : ℕ} (hpc : pc.isStoppingOf k = true) (h : Egress.isStopStep 0 g l = true) :
    permits pc k l = true := by
  have hrun : pc.hasExited = false := by cases pc <;> first | rfl | cases hpc
  cases l with
  | stopCancel | stopAwait | stopSend =>
      simp only [Egress.isStopStep, decide_eq_true_eq] at h
      simp [permits, h, hpc]
  | startLock | startCheck | startSend | startWrite | startSpawn | startStore | stopTake =>
      simp only [Egress.isStopStep] at h
      split at h <;> cases h
  | _ => simp [permits, hrun]

/-- The thread can go on until it returns. -/
lemma Sound.down_progress (h : Sound look s) (hn : s.pc.isStopping = true) :
    ∃ l, goesDown s l = true ∧ EndsStopped s l ∧ (LaunchClient.step look p s l).isSome = true := by
  cases hpc : s.pc with
  | draining =>
      refine ⟨.drain s.client.egressById, rfl, trivial, ?_⟩
      have hperm := List.isPerm_iff.mpr (List.Perm.refl s.client.egressById)
      simp [LaunchClient.step, hpc, hperm]
  | stopping left =>
      cases left with
      | nil => exact ⟨.stopped, rfl, trivial, by simp [LaunchClient.step, hpc]⟩
      | cons e left =>
          obtain ⟨id, k⟩ := e
          have hk : s.pc.isStoppingOf k = true := by simp [hpc, LaunchPc.isStoppingOf]
          cases hcall : (s.egress k).stopCall 0 with
          | returned | refused | failed =>
              exact ⟨.stopped, rfl, trivial, by simp [LaunchClient.step, hpc, hcall]⟩
          | notCalled =>
              have hphase := h.phase k
              rw [hpc, phaseOf_head ((h.left _ hpc).2 k (by simp))] at hphase
              have hw : (s.egress k).processWriter = none := by
                rw [Option.eq_none_iff_forall_ne_some]
                intro c hc
                have hwrites := ((h.locks k).writer c).mpr hc
                obtain rfl := (h.owned k).start_eq (c := c) (by
                  intro hnone
                  rw [hnone] at hwrites
                  cases hwrites)
                rw [show (s.egress k).startCall 0 = .returned from hphase] at hwrites
                cases hwrites
              refine ⟨.egress k (.stopTake 0), rfl, by simp [EndsStopped, Egress.EndsTask], ?_⟩
              have hp : permits s.pc k (.stopTake 0 : Egress.Label (loopOf configs k)) = true := by
                simp [permits, hk]
              rw [LaunchClient.step, if_pos hp, Option.isSome_map]
              cases hproc : (s.egress k).process <;>
                simp [Egress.step, Egress.callStep, hcall, hw, hproc]
          | cancel | await | send =>
              obtain ⟨l, hl, hok, hen⟩ := Egress.stop_enabled (p := p) (h.held k) (c := 0)
                (by rw [hcall]; rfl)
              refine ⟨.egress k l, ?_, hok, ?_⟩
              · cases l with
                | stopTake => rfl
                | _ => exact hl
              · rw [LaunchClient.step, if_pos (permits_of_bringsDown hk hl), Option.isSome_map]
                exact hen
  | _ => simp [hpc, LaunchPc.isStopping] at hn

end LaunchClient

end Siffleux
