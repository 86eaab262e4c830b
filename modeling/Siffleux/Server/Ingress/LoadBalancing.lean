import Siffleux.Server.Ingress.TcpIngress
import Siffleux.Server.Ingress.UdpReader

/-!
# What stays in the load-balancing list

A tunnel is pushed once, and taken out by its own watcher when its connection has ended.  For open
tunnels that is all there is to say.

Both ingresses spawn the close-watcher of a tunnel before they push the tunnel.  On a connection
that has already ended the watcher can be through before the push, finds nothing to remove, and
nobody removes the tunnel afterwards.

* `open_tunnels_registered` — open tunnels are in the list exactly once from their push on, whatever
  becomes of the others and in whatever order.
* `closed_tunnel_unlisted_iff` — over every run of either ingress: once `assign_tunnel` has
  returned and the watcher is done, the tunnel is out of the list exactly when the removal did
  not come before the push.
-/

namespace Siffleux

open Transition

variable {τ : Type} [DecidableEq τ] {w : ℕ}

namespace TunnelList

omit [DecidableEq τ] in
lemma lab_eq_remove_iff {l : Label τ} {t : τ} :
    lab l = some (.remove t) ↔ l = .watcherRemoves t := by
  cases l <;> simp [lab]

omit [DecidableEq τ] in
lemma lab_eq_push_iff {l : Label τ} {t : τ} : lab l = some (.push t) ↔ l = .push t := by
  cases l <;> simp [lab]

omit [DecidableEq τ] in
lemma abs_pushed {isClosed : τ → Bool} {s : TunnelList τ w} {t : τ} (h : s.assign t = .returned) :
    (s.abs isClosed).pushed t = true := by
  simp [abs, h]

omit [DecidableEq τ] in
lemma abs_watcher_done {isClosed : τ → Bool} {s : TunnelList τ w} {t : τ}
    (h : s.watcher t = .finished) : (s.abs isClosed).watcher t = .done := by
  simp [abs, h, watcherAbs]

/-! ## Open tunnels -/

/-- The open tunnels of the list. -/
def openTunnels (isClosed : τ → Bool) (s : TunnelList τ w) : Set τ :=
  {t | t ∈ s.tunnels ∧ isClosed t = false}

/-- What is asked of the list.  `pushed` and `ended` say of which tunnels the push has happened and
the connection has ended. -/
structure RegisteredOnce (isClosed : τ → Bool) (pushed ended : τ → Prop)
    (s : TunnelList τ w) : Prop where
  nodup : s.tunnels.Nodup
  listed : ∀ t, pushed t → isClosed t = false → t ∈ s.tunnels
  removal : ∀ t s', s.step isClosed (.watcherRemoves t) = some s' →
    ∀ u, u ≠ t → (u ∈ s'.tunnels ↔ u ∈ s.tunnels)
  open_listed : s.openTunnels isClosed = {t | pushed t ∧ ¬ ended t}

/-- A watcher takes its own tunnel out, by position and swap, and no other. -/
lemma mem_of_watcherRemoves {isClosed : τ → Bool} {s s' : TunnelList τ w} {t : τ}
    (h : s.WellFormed isClosed) (hs : s.step isClosed (.watcherRemoves t) = some s') (u : τ) :
    u ∈ s'.tunnels ↔ u ≠ t ∧ u ∈ s.tunnels := by
  simp only [step, Option.ite_none_right_eq_some, Option.some.injEq] at hs
  obtain ⟨-, rfl⟩ := hs
  exact Registry.mem_removeValue_iff h.nodup

/-- The list of any system for which it is a registration. -/
lemma registeredOnce_of_simulation {σ ℓ : Type} {M : System σ ℓ} {ls : List ℓ} {s : σ}
    (S : Simulation M (Registry.registration τ)) {list : TunnelList τ w} {isClosed : τ → Bool}
    {pushed ended : τ → Prop} (h : M.Run ls s) (hwf : list.WellFormed isClosed)
    (habs : S.abs s = list.abs isClosed)
    (hpushed : ∀ t, (∃ l ∈ ls, S.lab l = some (.push t)) ↔ pushed t)
    (hended : ∀ t, (∃ l ∈ ls, S.lab l = some (.close t)) ↔ ended t) :
    list.RegisteredOnce isClosed pushed ended := by
  have hopen : ∀ t, t ∈ list.tunnels ∧ isClosed t = false ↔ pushed t ∧ ¬ ended t := by
    intro t
    have hiff := Registry.listed_open_iff_of_simulation S h t
    rw [habs, hpushed, hended] at hiff
    exact hiff
  refine ⟨hwf.nodup, fun t hp hc => ?_, fun t s' hs u hu => ?_, Set.ext hopen⟩
  · have hrun := S.run h
    rw [habs] at hrun
    refine Registry.listed_of_open hrun ?_ hc
    rw [(Registry.tracks_run hrun t).pushed_iff, List.mem_filterMap]
    exact (hpushed t).mpr hp
  · rw [mem_of_watcherRemoves hwf hs u]
    exact and_iff_right hu

end TunnelList

namespace TcpIngress

/-- The push of `t` has happened. -/
def Pushed (ls : List (Label τ)) (t : τ) : Prop := .list (.push t) ∈ ls

/-- The connection of `t` has ended. -/
def Ended (ls : List (Label τ)) (t : τ) : Prop := .close t ∈ ls

lemma registeredOnce {ls : List (Label τ)} {s : TcpIngress τ w} (h : (system τ w).Run ls s) :
    s.list.RegisteredOnce s.isClosed (Pushed ls) (Ended ls) := by
  refine TunnelList.registeredOnce_of_simulation (simulation τ w) h ((simulation τ w).inv_run h) rfl
    (fun t => ⟨?_, fun hp => ⟨_, hp, rfl⟩⟩) fun t => ⟨?_, fun he => ⟨_, he, rfl⟩⟩
  · rintro ⟨l, hl, hlab⟩
    cases l with
    | list k =>
        have hk : k = .push t := TunnelList.lab_eq_push_iff.mp hlab
        rw [hk] at hl
        exact hl
    | _ => cases hlab
  · rintro ⟨l, hl, hlab⟩
    cases l with
    | list k => cases k <;> cases hlab
    | close u =>
        cases hlab
        exact hl
    | _ => cases hlab

end TcpIngress

namespace UdpIngress

/-- The push of `t` has happened. -/
def Pushed (ls : List (Label τ)) (t : τ) : Prop := .list (.push t) ∈ ls

/-- The connection of `t` has ended, or its cancelled reader has closed it. -/
def Ended (ls : List (Label τ)) (t : τ) : Prop :=
  (∃ e, .close t e ∈ ls) ∨ .readerCancelled t ∈ ls

lemma registeredOnce {ls : List (Label τ)} {s : UdpIngress τ w} (h : (system τ w).Run ls s) :
    s.list.RegisteredOnce s.isClosed (Pushed ls) (Ended ls) := by
  refine TunnelList.registeredOnce_of_simulation (simulation τ w) h ((simulation τ w).inv_run h) rfl
    (fun t => ⟨?_, fun hp => ⟨_, hp, rfl⟩⟩) fun t => ⟨?_, ?_⟩
  · rintro ⟨l, hl, hlab⟩
    cases l with
    | list k =>
        have hk : k = .push t := TunnelList.lab_eq_push_iff.mp hlab
        rw [hk] at hl
        exact hl
    | _ => cases hlab
  · rintro ⟨l, hl, hlab⟩
    cases l with
    | list k => cases k <;> cases hlab
    | close u e =>
        cases hlab
        exact Or.inl ⟨e, hl⟩
    | readerCancelled u =>
        cases hlab
        exact Or.inr hl
    | _ => cases hlab
  · rintro (⟨e, he⟩ | he)
    · exact ⟨_, he, rfl⟩
    · exact ⟨_, he, rfl⟩

/-- `assign_tunnel` has found the ingress listening when it was called for `t`. -/
def FoundListening (w : ℕ) (ls : List (Label τ)) (t : τ) : Prop :=
  ∃ ms u, ms ++ [.assignTunnel t] <+: ls ∧ (system τ w).Run ms u ∧ u.udpSocket ≠ none

lemma FoundListening.concat {ls : List (Label τ)} {t : τ} (h : FoundListening w ls t)
    (l : Label τ) : FoundListening w (ls ++ [l]) t := by
  obtain ⟨ms, u, hms, hu⟩ := h
  exact ⟨ms, u, hms.trans (List.prefix_append ..), hu⟩

/-- Past its first step `assign_tunnel` has a socket. -/
lemma foundListening {ls : List (Label τ)} {s : UdpIngress τ w} (h : (system τ w).Run ls s)
    (t : τ) : s.assign t = .notCalled ∨ s.assign t = .rejected ∨ FoundListening w ls t := by
  induction h with
  | nil => exact Or.inl rfl
  | @snoc ls s s' l hr hs ih =>
      have hkeep : s'.assign t = s.assign t → s'.assign t = .notCalled ∨
          s'.assign t = .rejected ∨ FoundListening w (ls ++ [l]) t := by
        intro he
        rw [he]
        exact ih.imp_right (Or.imp_right fun hf => hf.concat l)
      have hs' : step s l = some s' := hs
      cases step_cases hs' with
      | @assigned u i _ hi =>
          rcases eq_or_ne t u with rfl | hne
          · exact Or.inr (Or.inr ⟨ls, s, List.prefix_refl _, hr, by rw [hi]; simp⟩)
          · exact hkeep (Function.update_of_ne hne ..)
      | @rejected u _ _ =>
          rcases eq_or_ne t u with rfl | hne
          · exact Or.inr (Or.inl (Function.update_self ..))
          · exact hkeep (Function.update_of_ne hne ..)
      | @readerSpawned u i hu =>
          rcases eq_or_ne t u with rfl | hne
          · rw [hu] at ih
            rcases ih with h | h | h
            · cases h
            · cases h
            · exact Or.inr (Or.inr (h.concat _))
          · exact hkeep (Function.update_of_ne hne ..)
      | _ => exact hkeep rfl

/-- Hence a tunnel is pushed only if the ingress was listening when it was assigned. -/
lemma foundListening_of_pushed {ls : List (Label τ)} {s : UdpIngress τ w}
    (h : (system τ w).Run ls s) {t : τ} (ht : Pushed ls t) : FoundListening w ls t := by
  have hrun := (simulation τ w).run h
  have hpushed : s.abs.pushed t = true :=
    (Registry.tracks_run hrun t).pushed_iff.mpr (List.mem_filterMap.mpr ⟨_, ht, rfl⟩)
  have hreturned : s.list.assign t = .returned := beq_iff_eq.mp hpushed
  have hregister := register_of_assign h t (by rw [hreturned]; simp)
  rcases foundListening h t with hn | hn | hn
  · rw [hregister] at hn
    cases hn
  · rw [hregister] at hn
    cases hn
  · exact hn

end UdpIngress

/-- **Open tunnels are registered exactly once and never lost.**  In every run of either ingress no
tunnel is listed twice, every open tunnel is listed once its push has happened, watchers take out
their own tunnels only, and the open tunnels listed are those whose push has happened and whose
connection has not ended: what was done with others, and when, has no part in it.  The UDP ingress
has pushed only tunnels that found it listening. -/
theorem open_tunnels_registered :
    (∀ (ls : List (TcpIngress.Label τ)) (s : TcpIngress τ w), (TcpIngress.system τ w).Run ls s →
      s.list.RegisteredOnce s.isClosed (TcpIngress.Pushed ls) (TcpIngress.Ended ls) ∧
      ∀ ms s', (TcpIngress.system τ w).Run ms s' → ∀ t,
        (TcpIngress.Pushed ls t ↔ TcpIngress.Pushed ms t) →
        (TcpIngress.Ended ls t ↔ TcpIngress.Ended ms t) →
        (t ∈ s.list.openTunnels s.isClosed ↔ t ∈ s'.list.openTunnels s'.isClosed)) ∧
    (∀ (ls : List (UdpIngress.Label τ)) (s : UdpIngress τ w), (UdpIngress.system τ w).Run ls s →
      s.list.RegisteredOnce s.isClosed (UdpIngress.Pushed ls) (UdpIngress.Ended ls) ∧
      (∀ t, UdpIngress.Pushed ls t → UdpIngress.FoundListening w ls t) ∧
      ∀ ms s', (UdpIngress.system τ w).Run ms s' → ∀ t,
        (UdpIngress.Pushed ls t ↔ UdpIngress.Pushed ms t) →
        (UdpIngress.Ended ls t ↔ UdpIngress.Ended ms t) →
        (t ∈ s.list.openTunnels s.isClosed ↔ t ∈ s'.list.openTunnels s'.isClosed)) := by
  refine ⟨fun ls s h => ⟨TcpIngress.registeredOnce h, fun ms s' h' t hp he => ?_⟩,
    fun ls s h => ⟨UdpIngress.registeredOnce h, fun t => UdpIngress.foundListening_of_pushed h,
      fun ms s' h' t hp he => ?_⟩⟩
  · rw [(TcpIngress.registeredOnce h).open_listed, (TcpIngress.registeredOnce h').open_listed]
    exact and_congr hp (not_congr he)
  · rw [(UdpIngress.registeredOnce h).open_listed, (UdpIngress.registeredOnce h').open_listed]
    exact and_congr hp (not_congr he)

/-- The tunnels 7 and 8 are assigned, and 7 is lost; in the two orders the swap is another one. -/
def lostThenAssigned : List (TcpIngress.Label ℕ) :=
  [.list (.spawnWatcher 7), .list (.push 7), .close 7, .list (.watcherWakes 7),
    .list (.watcherRemoves 7), .list (.spawnWatcher 8), .list (.push 8)]

def assignedThenLost : List (TcpIngress.Label ℕ) :=
  [.list (.spawnWatcher 7), .list (.spawnWatcher 8), .list (.push 7), .list (.push 8), .close 7,
    .list (.watcherWakes 7), .list (.watcherRemoves 7)]

/-- ... and 8 is listed once in both. -/
theorem open_tunnels_registered_two :
    (∃ s s', (TcpIngress.system ℕ 64).Run lostThenAssigned s ∧
      (TcpIngress.system ℕ 64).Run assignedThenLost s' ∧ s'.list.tunnels = [8] ∧
      s.list.RegisteredOnce s.isClosed (TcpIngress.Pushed lostThenAssigned)
        (TcpIngress.Ended lostThenAssigned) ∧
      (8 ∈ s.list.openTunnels s.isClosed ↔ 8 ∈ s'.list.openTunnels s'.isClosed)) ∧
    ∃ s, (UdpIngress.system ℕ 64).Run [.start, .assignTunnel 7, .spawnReader 7,
        .list (.spawnWatcher 7), .list (.push 7)] s ∧
      s.list.RegisteredOnce s.isClosed (UdpIngress.Pushed [.start, .assignTunnel 7, .spawnReader 7,
        .list (.spawnWatcher 7), .list (.push 7)]) (UdpIngress.Ended [.start, .assignTunnel 7,
        .spawnReader 7, .list (.spawnWatcher 7), .list (.push 7)]) := by
  have h : (TcpIngress.system ℕ 64).Run lostThenAssigned _ := System.run_of_exec rfl
  have h' : (TcpIngress.system ℕ 64).Run assignedThenLost _ := System.run_of_exec rfl
  have hu : (UdpIngress.system ℕ 64).Run [.start, .assignTunnel 7, .spawnReader 7,
      .list (.spawnWatcher 7), .list (.push 7)] _ := System.run_of_exec rfl
  obtain ⟨hreg, hsame⟩ := open_tunnels_registered.1 _ _ h
  refine ⟨⟨_, _, h, h', rfl, hreg, hsame _ _ h' 8 ?_ ?_⟩,
    _, hu, (open_tunnels_registered.2 _ _ hu).1⟩
  · exact iff_of_true (by simp [TcpIngress.Pushed, lostThenAssigned])
      (by simp [TcpIngress.Pushed, assignedThenLost])
  · exact iff_of_false (by simp [TcpIngress.Ended, lostThenAssigned])
      (by simp [TcpIngress.Ended, assignedThenLost])

/-- **A closed tunnel leaves the list exactly when it was pushed first.** -/
theorem closed_tunnel_unlisted_iff :
    (∀ (ls : List (TcpIngress.Label τ)) (s : TcpIngress τ w) (t : τ),
      (TcpIngress.system τ w).Run ls s → s.list.assign t = .returned →
      s.list.watcher t = .finished →
      (t ∉ s.list.tunnels ↔ ¬ Before (.list (.watcherRemoves t)) (.list (.push t)) ls)) ∧
    (∀ (ls : List (UdpIngress.Label τ)) (s : UdpIngress τ w) (t : τ),
      (UdpIngress.system τ w).Run ls s → s.list.assign t = .returned →
      s.list.watcher t = .finished →
      (t ∉ s.list.tunnels ↔ ¬ Before (.list (.watcherRemoves t)) (.list (.push t)) ls)) := by
  refine ⟨fun ls s t h hp hd => not_congr ?_, fun ls s t h hp hd => not_congr ?_⟩
  · refine Registry.listed_iff_of_simulation (TcpIngress.simulation τ w) (fun l => ?_) (fun l => ?_)
      h (TunnelList.abs_pushed hp) (TunnelList.abs_watcher_done hd)
    · cases l <;> simp [TcpIngress.simulation, TcpIngress.lab, TunnelList.lab_eq_remove_iff]
    · cases l <;> simp [TcpIngress.simulation, TcpIngress.lab, TunnelList.lab_eq_push_iff]
  · refine Registry.listed_iff_of_simulation (UdpIngress.simulation τ w) (fun l => ?_) (fun l => ?_)
      h (TunnelList.abs_pushed hp) (TunnelList.abs_watcher_done hd)
    · cases l <;> simp [UdpIngress.simulation, UdpIngress.lab, TunnelList.lab_eq_remove_iff]
    · cases l <;> simp [UdpIngress.simulation, UdpIngress.lab, TunnelList.lab_eq_push_iff]

/-- A tunnel that is pushed and closed in that order. -/
def pushedThenClosed : List (TcpIngress.Label ℕ) :=
  [.list (.spawnWatcher 7), .list (.push 7), .close 7, .list (.watcherWakes 7),
    .list (.watcherRemoves 7)]

/-- ... is gone when its watcher is. -/
theorem closed_tunnel_unlisted_after_push :
    ∃ s, (TcpIngress.system ℕ 64).Run pushedThenClosed s ∧ 7 ∉ s.list.tunnels := by
  have h : (TcpIngress.system ℕ 64).Run pushedThenClosed _ := System.run_of_exec rfl
  exact ⟨_, h, (closed_tunnel_unlisted_iff.1 _ _ 7 h rfl rfl).mpr (by decide)⟩

/-- The connection ends and the watcher runs between its spawning and the push. -/
theorem closed_tunnel_stays_listed :
    (∃ s, (TcpIngress.system ℕ 64).Run [.list (.spawnWatcher 7), .close 7, .list (.watcherWakes 7),
        .list (.watcherRemoves 7), .list (.push 7)] s ∧
      s.list.assign 7 = .returned ∧ s.list.watcher 7 = .finished ∧ s.list.tunnels = [7]) ∧
    (∃ s, (UdpIngress.system ℕ 64).Run [.start, .assignTunnel 7, .spawnReader 7,
        .list (.spawnWatcher 7), .close 7 .timedOut, .list (.watcherWakes 7),
        .list (.watcherRemoves 7), .list (.push 7)] s ∧
      s.list.assign 7 = .returned ∧ s.list.watcher 7 = .finished ∧ s.list.tunnels = [7]) :=
  ⟨⟨_, System.run_of_exec rfl, rfl, rfl, rfl⟩, ⟨_, System.run_of_exec rfl, rfl, rfl, rfl⟩⟩

end Siffleux
