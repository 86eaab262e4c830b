import Siffleux.Common.Text
import Siffleux.Foundation.Registry

/-!
# The load-balancing list of an ingress

Both ingresses keep their tunnels in a `RwLock<Vec<Tunnel>>` and treat it alike: `assign_tunnel`
ends by spawning a task that waits for the connection to close and pushing the tunnel, and
`get_tunnel_to_connect` picks one round-robin.  The part they share is modelled here once; each
ingress delegates its steps to it.

Tunnels are named by their id — `Uuid::now_v7()` gives every tunnel one of its own, and a tunnel
is assigned once — so the model is over any type of names.  A step holds the lock from start to
end, so what runs under one guard is one step.

* `TunnelList.step` — the steps of `assign_tunnel` after the watcher has been reached, and of the
  watcher task.
* `getTunnelToConnect` — the selection, with the wrapping counter and the index that could be
  out of bounds; `getTunnelToConnect_mem` says that it is not.
* `TunnelList.step_refines` — every step is one of `Registry.registration`, or none.
-/

namespace Siffleux

open ByteBuf Registry

/-- How far `assign_tunnel` has come, from the spawning of the watcher on. -/
inductive AssignPc where
  | notCalled
  | push
  | returned
  deriving DecidableEq, Repr

/-- The close-watcher task: `closed().await`, then the removal under the write lock. -/
inductive WatcherPc where
  | notSpawned
  | waitClosed
  | remove
  | finished
  deriving DecidableEq, Repr

/-- `tunnels` and `tunnel_rotation`, and the tasks that work on them. -/
structure TunnelList (τ : Type) (w : ℕ) where
  tunnels : List τ
  tunnelRotation : BitVec w
  assign : τ → AssignPc
  watcher : τ → WatcherPc

namespace TunnelList

variable {τ : Type} [DecidableEq τ] {w : ℕ}

/-- `new`. -/
def new (τ : Type) (w : ℕ) : TunnelList τ w := ⟨[], 0, fun _ => .notCalled, fun _ => .notSpawned⟩

inductive Label (τ : Type) where
  | spawnWatcher (t : τ)
  | push (t : τ)
  | watcherWakes (t : τ)
  | watcherRemoves (t : τ)
  deriving DecidableEq

/-- `isClosed t` is whether the connection of `t` has ended, which is what the watcher waits
for. -/
def step (isClosed : τ → Bool) (s : TunnelList τ w) : Label τ → Option (TunnelList τ w)
  | .spawnWatcher t =>
      if s.assign t = .notCalled then
        some { s with
          assign := Function.update s.assign t .push
          watcher := Function.update s.watcher t .waitClosed }
      else none
  | .push t =>
      if s.assign t = .push then
        some { s with
          assign := Function.update s.assign t .returned
          tunnels := s.tunnels ++ [t] }
      else none
  | .watcherWakes t =>
      if s.watcher t = .waitClosed ∧ isClosed t = true then
        some { s with watcher := Function.update s.watcher t .remove }
      else none
  | .watcherRemoves t =>
      if s.watcher t = .remove then
        some { s with
          watcher := Function.update s.watcher t .finished
          tunnels := removeValue t s.tunnels }
      else none

/-- `get_tunnel_to_connect`: nothing, the only one, or the next one round-robin. -/
def getTunnelToConnect (s : TunnelList τ w) : Outcome (Option τ × TunnelList τ w) :=
  if s.tunnels.length = 0 then .ret (none, s)
  else if s.tunnels.length = 1 then
    match s.tunnels[0]? with
    | some t => .ret (some t, s)
    | none => .panic
  else
    match s.tunnels[s.tunnelRotation.toNat % s.tunnels.length]? with
    | some t => .ret (some t, { s with tunnelRotation := s.tunnelRotation + 1 })
    | none => .panic

omit [DecidableEq τ] in
/-- **A selection returns, and what it picks is in the list**; there is one unless the list is
empty, and only the counter moves. -/
theorem getTunnelToConnect_mem (s : TunnelList τ w) : ∃ picked r,
    s.getTunnelToConnect = .ret (picked, { s with tunnelRotation := r }) ∧
      (∀ t ∈ picked, t ∈ s.tunnels) ∧ (picked = none ↔ s.tunnels = []) := by
  rw [getTunnelToConnect]
  split_ifs with h0 h1
  · have hnil := List.length_eq_zero_iff.mp h0
    exact ⟨none, _, rfl, by simp, by simp [hnil]⟩
  · obtain ⟨t, ht⟩ := List.length_eq_one_iff.mp h1
    have hget : s.tunnels[0]? = some t := by rw [ht]; rfl
    rw [hget]
    exact ⟨some t, s.tunnelRotation, rfl, by simp [ht], by simp [ht]⟩
  · have hlt : s.tunnelRotation.toNat % s.tunnels.length < s.tunnels.length :=
      Nat.mod_lt _ (by omega)
    have hne : s.tunnels ≠ [] := fun h => h0 (by rw [h]; rfl)
    rw [List.getElem?_eq_getElem hlt]
    exact ⟨_, s.tunnelRotation + 1, rfl, fun t ht => by
      rw [← Option.some.inj ht]; exact List.getElem_mem hlt, by simp [hne]⟩

/-- How far `assign_tunnel` has come with `t` changes in its own two steps. -/
lemma assign_step {isClosed : τ → Bool} {s s' : TunnelList τ w} {l : Label τ}
    (hs : s.step isClosed l = some s') (t : τ) :
    s'.assign t = s.assign t ∨ (l = .spawnWatcher t ∧ s.assign t = .notCalled) ∨
      (l = .push t ∧ s.assign t = .push) := by
  cases l with
  | spawnWatcher u =>
      simp only [step, Option.ite_none_right_eq_some, Option.some.injEq] at hs
      obtain ⟨hu, rfl⟩ := hs
      rcases eq_or_ne t u with rfl | hne
      · exact Or.inr (Or.inl ⟨rfl, hu⟩)
      · exact Or.inl (Function.update_of_ne hne ..)
  | push u =>
      simp only [step, Option.ite_none_right_eq_some, Option.some.injEq] at hs
      obtain ⟨hu, rfl⟩ := hs
      rcases eq_or_ne t u with rfl | hne
      · exact Or.inr (Or.inr ⟨rfl, hu⟩)
      · exact Or.inl (Function.update_of_ne hne ..)
  | watcherWakes u | watcherRemoves u =>
      simp only [step, Option.ite_none_right_eq_some, Option.some.injEq] at hs
      obtain ⟨-, rfl⟩ := hs
      exact Or.inl rfl

lemma returned_mono {isClosed : τ → Bool} {s s' : TunnelList τ w} {l : Label τ}
    (hs : s.step isClosed l = some s') {t : τ} (ht : s.assign t = .returned) :
    s'.assign t = .returned := by
  rcases assign_step hs t with he | ⟨-, h⟩ | ⟨-, h⟩
  · exact he.trans ht
  · rw [ht] at h
    cases h
  · rw [ht] at h
    cases h

/-! ## The list as a registration -/

/-- What holds of the list after any steps. -/
structure WellFormed (isClosed : τ → Bool) (s : TunnelList τ w) : Prop where
  nodup : s.tunnels.Nodup
  returned_of_mem : ∀ t ∈ s.tunnels, s.assign t = .returned
  spawned_iff : ∀ t, s.watcher t = .notSpawned ↔ s.assign t = .notCalled
  closed_of_removing : ∀ t, s.watcher t = .remove → isClosed t = true

omit [DecidableEq τ] in
lemma wellFormed_new (isClosed : τ → Bool) : (new τ w).WellFormed isClosed :=
  ⟨List.nodup_nil, fun _ h => absurd h (by simp [new]), fun _ => by simp [new],
    fun _ h => by simp [new] at h⟩

omit [DecidableEq τ] in
/-- Connections that end leave the list as it was. -/
lemma WellFormed.mono {isClosed isClosed' : τ → Bool} {s : TunnelList τ w}
    (h : s.WellFormed isClosed) (hle : ∀ t, isClosed t = true → isClosed' t = true) :
    s.WellFormed isClosed' :=
  ⟨h.nodup, h.returned_of_mem, h.spawned_iff, fun t ht => hle t (h.closed_of_removing t ht)⟩

omit [DecidableEq τ] in
/-- A tunnel whose `assign_tunnel` has not come to its end is not listed. -/
lemma WellFormed.notMem_of_assigning {isClosed : τ → Bool} {s : TunnelList τ w} {t : τ}
    (h : s.WellFormed isClosed) (ht : s.assign t ≠ .returned) : t ∉ s.tunnels :=
  fun hm => ht (h.returned_of_mem t hm)

lemma WellFormed.step {isClosed : τ → Bool} {s s' : TunnelList τ w} {l : Label τ}
    (h : s.WellFormed isClosed) (hs : s.step isClosed l = some s') : s'.WellFormed isClosed := by
  cases l with
  | spawnWatcher t =>
      simp only [TunnelList.step, Option.ite_none_right_eq_some, Option.some.injEq] at hs
      obtain ⟨hc, rfl⟩ := hs
      have hnm : t ∉ s.tunnels := h.notMem_of_assigning (by simp [hc])
      refine ⟨h.nodup, fun u hu => ?_, fun u => ?_, fun u => ?_⟩
      · have hne : u ≠ t := fun e => hnm (e ▸ hu)
        simp only [Function.update_of_ne hne]
        exact h.returned_of_mem u hu
      · rcases eq_or_ne u t with rfl | hne
        · simp
        · simp only [Function.update_of_ne hne]
          exact h.spawned_iff u
      · rcases eq_or_ne u t with rfl | hne
        · simp
        · simp only [Function.update_of_ne hne]
          exact h.closed_of_removing u
  | push t =>
      simp only [TunnelList.step, Option.ite_none_right_eq_some, Option.some.injEq] at hs
      obtain ⟨hc, rfl⟩ := hs
      have hnm : t ∉ s.tunnels := h.notMem_of_assigning (by simp [hc])
      refine ⟨?_, fun u hu => ?_, fun u => ?_, h.closed_of_removing⟩
      · exact (List.perm_append_singleton t s.tunnels).nodup_iff.mpr
          (List.nodup_cons.mpr ⟨hnm, h.nodup⟩)
      · rcases eq_or_ne u t with rfl | hne
        · simp
        · simp only [List.mem_append, List.mem_singleton, hne, or_false] at hu
          simp only [Function.update_of_ne hne]
          exact h.returned_of_mem u hu
      · rcases eq_or_ne u t with rfl | hne
        · simp [h.spawned_iff, hc]
        · simp only [Function.update_of_ne hne]
          exact h.spawned_iff u
  | watcherWakes t =>
      simp only [TunnelList.step, Option.ite_none_right_eq_some, Option.some.injEq] at hs
      obtain ⟨⟨hw, hcl⟩, rfl⟩ := hs
      refine ⟨h.nodup, h.returned_of_mem, fun u => ?_, fun u => ?_⟩
      · rcases eq_or_ne u t with rfl | hne
        · simp [← h.spawned_iff, hw]
        · simp only [Function.update_of_ne hne]
          exact h.spawned_iff u
      · rcases eq_or_ne u t with rfl | hne
        · exact fun _ => hcl
        · simp only [Function.update_of_ne hne]
          exact h.closed_of_removing u
  | watcherRemoves t =>
      simp only [TunnelList.step, Option.ite_none_right_eq_some, Option.some.injEq] at hs
      obtain ⟨hw, rfl⟩ := hs
      refine ⟨nodup_removeValue h.nodup, fun u hu => ?_, fun u => ?_, fun u => ?_⟩
      · exact h.returned_of_mem u ((mem_removeValue_iff h.nodup).mp hu).2
      · rcases eq_or_ne u t with rfl | hne
        · simp [← h.spawned_iff, hw]
        · simp only [Function.update_of_ne hne]
          exact h.spawned_iff u
      · rcases eq_or_ne u t with rfl | hne
        · simp
        · simp only [Function.update_of_ne hne]
          exact h.closed_of_removing u

/-- The watcher as the registration sees it. -/
def watcherAbs : WatcherPc → Registry.Watcher
  | .notSpawned => .absent
  | .waitClosed | .remove => .armed
  | .finished => .done

/-- The list as a registration: its elements as a set. -/
def abs (isClosed : τ → Bool) (s : TunnelList τ w) : Registry.State τ where
  listed := {t | t ∈ s.tunnels}
  closed := isClosed
  watcher := watcherAbs ∘ s.watcher
  pushed := (· == .returned) ∘ s.assign

omit [DecidableEq τ] in
lemma abs_new (isClosed : τ → Bool) :
    (new τ w).abs isClosed = ⟨∅, isClosed, fun _ => .absent, fun _ => false⟩ := by
  have hset : {t : τ | t ∈ ([] : List τ)} = ∅ := by
    ext t
    simp
  simp only [abs, new, hset]
  rfl

def lab : Label τ → Option (Registry.Label τ)
  | .spawnWatcher t => some (.arm t)
  | .push t => some (.push t)
  | .watcherWakes _ => none
  | .watcherRemoves t => some (.remove t)

/-- **Every step of the list is one step of the registration, or none.** -/
theorem step_refines {isClosed : τ → Bool} {s s' : TunnelList τ w} {l : Label τ}
    (h : s.WellFormed isClosed) (hs : s.step isClosed l = some s') :
    match lab l with
    | some k => Registry.step (s.abs isClosed) k = some (s'.abs isClosed)
    | none => s'.abs isClosed = s.abs isClosed := by
  cases l with
  | spawnWatcher t =>
      simp only [step, Option.ite_none_right_eq_some, Option.some.injEq] at hs
      obtain ⟨hc, rfl⟩ := hs
      have hw := (h.spawned_iff t).mpr hc
      have hp : Function.update ((· == AssignPc.returned) ∘ s.assign) t false =
          (· == AssignPc.returned) ∘ s.assign := by
        rw [Function.update_eq_self_iff, Function.comp_apply, hc]
        rfl
      simp only [lab, Registry.step, abs, Function.comp_apply, hw, watcherAbs, if_true,
        Function.comp_update]
      rw [show (AssignPc.push == AssignPc.returned) = false from rfl, hp]
  | push t =>
      simp only [step, Option.ite_none_right_eq_some, Option.some.injEq] at hs
      obtain ⟨hc, rfl⟩ := hs
      have hw : watcherAbs (s.watcher t) ≠ .absent := by
        have hns : s.watcher t ≠ .notSpawned := fun e => by
          rw [h.spawned_iff, hc] at e
          cases e
        intro ha
        cases hpc : s.watcher t <;> rw [hpc] at ha hns <;> first | exact hns rfl | cases ha
      have hset : {u | u ∈ s.tunnels ++ [t]} = insert t {u | u ∈ s.tunnels} := by
        ext u
        simp [or_comm]
      simp only [lab, Registry.step, abs, Function.comp_apply, hc, Function.comp_update, hset]
      rw [if_pos ⟨hw, rfl⟩]
      rfl
  | watcherWakes t =>
      simp only [step, Option.ite_none_right_eq_some, Option.some.injEq] at hs
      obtain ⟨⟨hw, -⟩, rfl⟩ := hs
      have hu : Function.update (watcherAbs ∘ s.watcher) t .armed = watcherAbs ∘ s.watcher := by
        rw [Function.update_eq_self_iff, Function.comp_apply, hw]
        rfl
      simp only [lab, abs, Function.comp_update]
      rw [show watcherAbs .remove = .armed from rfl, hu]
  | watcherRemoves t =>
      simp only [step, Option.ite_none_right_eq_some, Option.some.injEq] at hs
      obtain ⟨hw, rfl⟩ := hs
      have hset : {u | u ∈ removeValue t s.tunnels} = {u | u ∈ s.tunnels} \ {t} := by
        ext u
        simp only [Set.mem_ofPred_eq, Set.mem_sdiff, Set.mem_singleton_iff,
          mem_removeValue_iff h.nodup, and_comm]
      simp only [lab, Registry.step, abs, Function.comp_apply, hw, watcherAbs,
        h.closed_of_removing t hw, and_self, if_true, Function.comp_update, hset]

end TunnelList

end Siffleux
