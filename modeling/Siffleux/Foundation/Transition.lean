import Mathlib.Data.List.Induction
import Mathlib.Data.Set.Basic
import Mathlib.Tactic.Common

/-!
# Labelled transition systems with executable steps

A concurrent program is modelled as one state and one *label* per atomic step of one of its
tasks; which task moves next is the choice of label, so a run is a list of labels and every
interleaving is some list.  The step is a partial function — `none` says that the step is not
enabled — which keeps systems executable: `System.exec` runs a concrete schedule.

* `System.Run ls s` — the labels `ls`, taken from the initial state, lead to `s`.  Built at the
  end, so that an induction on it follows time.
* `Run.invariant` — the invariant rule.  `RunWithin.invariant` is the same rule for the runs
  whose every step meets a side condition `ok`, which is how "as long as nobody does X" is said.
* `System.Always` — what holds of every state a run passes.  `Run.always_iff_within` says exactly
  when that is so, if one step at a time decides it.
* `Simulation` — a step-for-step abstraction into another system.  Labels are mapped by
  `Option`: a label sent to `none` is invisible above.  `Simulation.run` carries whole runs over
  and keeps their order, and `before_filterMap_iff` says so for two given labels.
-/

namespace Transition

open scoped List

universe u v

/-- One state, one label per atomic step; `none` when the step is not enabled. -/
structure System (σ : Type u) (ℓ : Type v) where
  init : σ
  step : σ → ℓ → Option σ

variable {σ τ : Type u} {ℓ κ : Type v}

/-! ## Runs -/

/-- Take the given labels one after the other. -/
def System.exec (M : System σ ℓ) : σ → List ℓ → Option σ
  | s, [] => some s
  | s, l :: ls => (M.step s l).bind fun s' => M.exec s' ls

/-- `ls` is a schedule from the initial state to `s`. -/
inductive System.Run (M : System σ ℓ) : List ℓ → σ → Prop
  | nil : M.Run [] M.init
  | snoc {ls : List ℓ} {s s' : σ} {l : ℓ} (run : M.Run ls s) (step : M.step s l = some s') :
      M.Run (ls ++ [l]) s'

lemma System.Run.exec_append {M : System σ ℓ} {ls : List ℓ} {s : σ} (h : M.Run ls s) :
    ∀ (ms : List ℓ) {s' : σ}, M.exec s ms = some s' → M.Run (ls ++ ms) s'
  | [], s', he => by
      simp only [System.exec, Option.some.injEq] at he
      subst he
      simpa using h
  | m :: ms, s', he => by
      simp only [System.exec, Option.bind_eq_some_iff] at he
      obtain ⟨s₁, h₁, h₂⟩ := he
      have := (h.snoc h₁).exec_append ms h₂
      simpa using this

lemma System.exec_append {M : System σ ℓ} : ∀ (ls ms : List ℓ) (s : σ),
    M.exec s (ls ++ ms) = (M.exec s ls).bind fun s' => M.exec s' ms
  | [], _, _ => rfl
  | l :: ls, ms, s => by
      simp only [List.cons_append, System.exec, Option.bind_assoc, System.exec_append ls ms]

lemma System.exec_cons {M : System σ ℓ} {s s' : σ} {l : ℓ} (h : M.step s l = some s')
    (ls : List ℓ) : M.exec s (l :: ls) = M.exec s' ls := by
  rw [System.exec, h, Option.bind_some]

/-- What every step of a schedule preserves, the schedule preserves. -/
lemma System.exec_preserves {M : System σ ℓ} {P : σ → Prop} : ∀ (ms : List ℓ) {s s' : σ},
    (∀ m ∈ ms, ∀ s s', P s → M.step s m = some s' → P s') → P s → M.exec s ms = some s' → P s'
  | [], _, _, _, h, he => by
      simp only [System.exec, Option.some.injEq] at he
      exact he ▸ h
  | m :: ms, _, _, hstep, h, he => by
      simp only [System.exec, Option.bind_eq_some_iff] at he
      obtain ⟨s₁, h₁, h₂⟩ := he
      exact System.exec_preserves ms (fun n hn => hstep n (List.mem_cons_of_mem m hn))
        (hstep m List.mem_cons_self _ _ h h₁) h₂

/-- A schedule that executes is a run; this is how concrete schedules are checked. -/
theorem System.run_of_exec {M : System σ ℓ} {ls : List ℓ} {s : σ}
    (h : M.exec M.init ls = some s) : M.Run ls s :=
  System.Run.exec_append .nil ls h

/-- **Invariant rule.**  What holds at first and survives every step holds after every run. -/
theorem System.Run.invariant {M : System σ ℓ} {P : σ → Prop} (h0 : P M.init)
    (hstep : ∀ s l s', P s → M.step s l = some s' → P s') {ls : List ℓ} {s : σ}
    (h : M.Run ls s) : P s := by
  induction h with
  | nil => exact h0
  | snoc _ hs ih => exact hstep _ _ _ ih hs

/-! ## Runs whose steps all meet a condition -/

/-- A run in which `ok` holds of every step, in the state the step is taken in. -/
inductive System.RunWithin (M : System σ ℓ) (ok : σ → ℓ → Prop) : List ℓ → σ → Prop
  | nil : M.RunWithin ok [] M.init
  | snoc {ls : List ℓ} {s s' : σ} {l : ℓ} (run : M.RunWithin ok ls s) (cond : ok s l)
      (step : M.step s l = some s') : M.RunWithin ok (ls ++ [l]) s'

lemma System.RunWithin.run {M : System σ ℓ} {ok : σ → ℓ → Prop} {ls : List ℓ} {s : σ}
    (h : M.RunWithin ok ls s) : M.Run ls s := by
  induction h with
  | nil => exact .nil
  | snoc _ _ hs ih => exact ih.snoc hs

/-- The condition along a given schedule. -/
def System.Within (M : System σ ℓ) (ok : σ → ℓ → Prop) : σ → List ℓ → Prop
  | _, [] => True
  | s, l :: ls => ok s l ∧
      match M.step s l with
      | some s' => M.Within ok s' ls
      | none => False

lemma System.RunWithin.exec_append {M : System σ ℓ} {ok : σ → ℓ → Prop} {ls : List ℓ} {s : σ}
    (h : M.RunWithin ok ls s) : ∀ (ms : List ℓ) {s' : σ}, M.exec s ms = some s' →
      M.Within ok s ms → M.RunWithin ok (ls ++ ms) s'
  | [], s', he, _ => by
      simp only [System.exec, Option.some.injEq] at he
      subst he
      simpa using h
  | m :: ms, s', he, hw => by
      simp only [System.exec, Option.bind_eq_some_iff] at he
      obtain ⟨s₁, h₁, h₂⟩ := he
      simp only [System.Within, h₁] at hw
      have := (h.snoc hw.1 h₁).exec_append ms h₂ hw.2
      simpa using this

/-- Concrete conditioned runs are checked like concrete runs, with the condition beside. -/
theorem System.runWithin_of_exec {M : System σ ℓ} {ok : σ → ℓ → Prop} {ls : List ℓ} {s : σ}
    (h : M.exec M.init ls = some s) (hw : M.Within ok M.init ls) : M.RunWithin ok ls s :=
  System.RunWithin.exec_append .nil ls h hw

/-- The invariant rule for conditioned runs: only steps that meet `ok` have to be survived. -/
theorem System.RunWithin.invariant {M : System σ ℓ} {ok : σ → ℓ → Prop} {P : σ → Prop}
    (h0 : P M.init) (hstep : ∀ s l s', P s → ok s l → M.step s l = some s' → P s')
    {ls : List ℓ} {s : σ} (h : M.RunWithin ok ls s) : P s := by
  induction h with
  | nil => exact h0
  | snoc _ hok hs ih => exact hstep _ _ _ ih hok hs

/-! ## Every state on the way -/

lemma System.Run.exec {M : System σ ℓ} {ls : List ℓ} {s : σ} (h : M.Run ls s) :
    M.exec M.init ls = some s := by
  induction h with
  | nil => rfl
  | @snoc ls s s' l _ hs ih =>
      rw [System.exec_append, ih, Option.bind_some, System.exec_cons hs]
      rfl

/-- A schedule leads to one state. -/
lemma System.Run.unique {M : System σ ℓ} {ls : List ℓ} {s s' : σ} (h : M.Run ls s)
    (h' : M.Run ls s') : s = s' :=
  Option.some.inj (h.exec.symm.trans h'.exec)

lemma System.run_concat_iff {M : System σ ℓ} {ls : List ℓ} {l : ℓ} {s' : σ} :
    M.Run (ls ++ [l]) s' ↔ ∃ s, M.Run ls s ∧ M.step s l = some s' := by
  refine ⟨fun h => ?_, fun ⟨_, hr, hs⟩ => hr.snoc hs⟩
  have he := h.exec
  rw [System.exec_append, Option.bind_eq_some_iff] at he
  obtain ⟨s, hls, hl⟩ := he
  simp only [System.exec, Option.bind_eq_some_iff, Option.some.injEq] at hl
  obtain ⟨_, hs, rfl⟩ := hl
  exact ⟨s, System.run_of_exec hls, hs⟩

/-- What begins a run is a run. -/
lemma System.Run.of_prefix {M : System σ ℓ} {ls ms : List ℓ} {s : σ} (h : M.Run ls s)
    (hms : ms <+: ls) : ∃ t, M.Run ms t := by
  obtain ⟨ns, rfl⟩ := hms
  have he := h.exec
  rw [System.exec_append, Option.bind_eq_some_iff] at he
  obtain ⟨t, ht, -⟩ := he
  exact ⟨t, System.run_of_exec ht⟩

/-- `P` holds of every state the schedule passes. -/
def System.Always (M : System σ ℓ) (P : σ → Prop) (ls : List ℓ) : Prop :=
  ∀ ms s, ms <+: ls → M.Run ms s → P s

lemma System.Always.last {M : System σ ℓ} {P : σ → Prop} {ls : List ℓ} {s : σ}
    (h : M.Always P ls) (hr : M.Run ls s) : P s :=
  h ls s (List.prefix_refl ls) hr

lemma System.always_nil {M : System σ ℓ} {P : σ → Prop} (h0 : P M.init) : M.Always P [] := by
  intro ms s hms hr
  rw [List.prefix_nil.mp hms] at hr
  rw [hr.unique .nil]
  exact h0

lemma System.always_concat {M : System σ ℓ} {P : σ → Prop} {ls : List ℓ} {l : ℓ} {s : σ}
    (hr : M.Run (ls ++ [l]) s) : M.Always P (ls ++ [l]) ↔ M.Always P ls ∧ P s := by
  refine ⟨fun h => ⟨fun ms t hms => h ms t (hms.trans (List.prefix_append ..)), h.last hr⟩, ?_⟩
  rintro ⟨h, hs⟩ ms t hms ht
  rcases List.prefix_concat_iff.mp hms with rfl | hms
  · rw [ht.unique hr]
    exact hs
  · exact h ms t hms ht

/-- A conditioned run, one step longer. -/
lemma System.runWithin_concat {M : System σ ℓ} {ok : σ → ℓ → Prop} {ls : List ℓ} {s s' : σ} {l : ℓ}
    (hr : M.Run ls s) (hs : M.step s l = some s') :
    M.RunWithin ok (ls ++ [l]) s' ↔ M.RunWithin ok ls s ∧ ok s l := by
  refine ⟨fun hw => ?_, fun ⟨hw, hok⟩ => hw.snoc hok hs⟩
  generalize hm : ls ++ [l] = ms at hw
  cases hw with
  | nil => simp at hm
  | @snoc ls₁ s₁ _ l₁ hw₁ hok hs₁ =>
      obtain ⟨rfl, hl⟩ := List.append_inj' hm rfl
      obtain rfl : l = l₁ := by simpa using hl
      obtain rfl := hr.unique hw₁.run
      exact ⟨hw₁, hok⟩

/-- **What holds all along a run, step by step.**  If a step from a good state leads to a good
state exactly when it meets `ok`, then all states of a run are good exactly when all its steps
meet `ok`.  It is enough to look at the steps of the run itself. -/
theorem System.Run.always_iff_within_steps {M : System σ ℓ} {ok : σ → ℓ → Prop} {P : σ → Prop}
    (h0 : P M.init) {ls : List ℓ} {s : σ} (h : M.Run ls s)
    (hstep : ∀ ms s l s', ms ++ [l] <+: ls → M.Run ms s → P s → M.step s l = some s' →
      (P s' ↔ ok s l)) : M.Always P ls ↔ M.RunWithin ok ls s := by
  induction h with
  | nil => exact iff_of_true (System.always_nil h0) .nil
  | @snoc ls s s' l hr hs ih =>
      rw [System.always_concat (hr.snoc hs), System.runWithin_concat hr hs,
        ← ih fun ms s l s' hms => hstep ms s l s' (hms.trans (List.prefix_append ..))]
      exact and_congr_right fun ha => hstep ls s l s' (List.prefix_refl _) hr (ha.last hr) hs

/-- The same when every step from a good state is known. -/
theorem System.Run.always_iff_within {M : System σ ℓ} {ok : σ → ℓ → Prop} {P : σ → Prop}
    (h0 : P M.init)
    (hstep : ∀ ls s l s', M.Run ls s → P s → M.step s l = some s' → (P s' ↔ ok s l))
    {ls : List ℓ} {s : σ} (h : M.Run ls s) : M.Always P ls ↔ M.RunWithin ok ls s :=
  h.always_iff_within_steps h0 fun ms s l s' _ => hstep ms s l s'

/-- The same for what is never regained: then the last state tells. -/
theorem System.Run.last_iff_within {M : System σ ℓ} {ok : σ → ℓ → Prop} {P : σ → Prop}
    (h0 : P M.init) (hlost : ∀ s l s', M.step s l = some s' → P s' → P s)
    (hstep : ∀ ls s l s', M.Run ls s → P s → M.step s l = some s' → (P s' ↔ ok s l))
    {ls : List ℓ} {s : σ} (h : M.Run ls s) : P s ↔ M.RunWithin ok ls s := by
  rw [← h.always_iff_within h0 hstep]
  refine ⟨fun hp => ?_, fun ha => ha.last h⟩
  induction h with
  | nil => exact System.always_nil h0
  | snoc hr hs ih => exact (System.always_concat (hr.snoc hs)).mpr ⟨ih (hlost _ _ _ hs hp), hp⟩

/-! ## The order of two labels in a run -/

/-- `a` was taken at some moment of the run and `b` at a later one. -/
def Before (a b : ℓ) (ls : List ℓ) : Prop := [a, b] <+ ls

instance [DecidableEq ℓ] (a b : ℓ) (ls : List ℓ) : Decidable (Before a b ls) :=
  inferInstanceAs (Decidable ([a, b] <+ ls))

/-- One more step puts `a` before `b` only when it is the `b`. -/
lemma before_concat {a b l : ℓ} {ls : List ℓ} :
    Before a b (ls ++ [l]) ↔ Before a b ls ∨ (a ∈ ls ∧ b = l) := by
  refine ⟨fun h => ?_, ?_⟩
  · obtain ⟨l₁, l₂, he, h₁, h₂⟩ := List.sublist_append_iff.mp h
    rcases List.sublist_cons_iff.mp h₂ with h | ⟨r, rfl, h⟩
    · rw [List.sublist_nil.mp h, List.append_nil] at he
      exact Or.inl (by rw [Before, he]; exact h₁)
    · rw [List.sublist_nil.mp h] at he
      have hl : [a] ++ [b] = l₁ ++ [l] := he
      obtain ⟨rfl, hb⟩ := List.append_inj' hl rfl
      exact Or.inr ⟨h₁.subset (by simp), by simpa using hb⟩
  · rintro (h | ⟨ha, rfl⟩)
    · exact h.trans (List.sublist_append_left ls [l])
    · exact (List.singleton_sublist.mpr ha).append (List.Sublist.refl [b])

lemma Before.left_mem {a b : ℓ} {ls : List ℓ} (h : Before a b ls) : a ∈ ls :=
  h.subset (by simp)

/-! ## Simulation -/

/-- `abs` and `lab` carry every step of `M`, from a state that satisfies `inv`, to one step of
`A` or — for the labels sent to `none` — to no step at all. -/
structure Simulation (M : System σ ℓ) (A : System τ κ) where
  abs : σ → τ
  lab : ℓ → Option κ
  inv : σ → Prop
  inv_init : inv M.init
  inv_step : ∀ s l s', inv s → M.step s l = some s' → inv s'
  abs_init : abs M.init = A.init
  visible : ∀ s l s' k, inv s → M.step s l = some s' → lab l = some k →
    A.step (abs s) k = some (abs s')
  silent : ∀ s l s', inv s → M.step s l = some s' → lab l = none → abs s' = abs s

variable {M : System σ ℓ} {A : System τ κ}

lemma Simulation.inv_run (S : Simulation M A) {ls : List ℓ} {s : σ} (h : M.Run ls s) : S.inv s :=
  h.invariant S.inv_init S.inv_step

/-- **A run of the concrete system is a run of the abstract one**, over the visible labels in
the same order. -/
theorem Simulation.run (S : Simulation M A) {ls : List ℓ} {s : σ} (h : M.Run ls s) :
    A.Run (ls.filterMap S.lab) (S.abs s) := by
  induction h with
  | nil => simpa [S.abs_init] using System.Run.nil (M := A)
  | @snoc ls s s' l hr hs ih =>
      have hi := S.inv_run hr
      cases hl : S.lab l with
      | none =>
          rw [S.silent s l s' hi hs hl]
          simpa [hl] using ih
      | some k =>
          have := ih.snoc (S.visible s l s' k hi hs hl)
          simpa [hl] using this

/-- The same for conditioned runs, if the condition is carried over as well. -/
theorem Simulation.runWithin (S : Simulation M A) {ok : σ → ℓ → Prop} {ok' : τ → κ → Prop}
    (hok : ∀ s l k, S.lab l = some k → ok s l → ok' (S.abs s) k) {ls : List ℓ} {s : σ}
    (h : M.RunWithin ok ls s) : A.RunWithin ok' (ls.filterMap S.lab) (S.abs s) := by
  induction h with
  | nil => simpa [S.abs_init] using @System.RunWithin.nil _ _ A ok'
  | @snoc ls s s' l hr hl hs ih =>
      have hi := S.inv_run hr.run
      cases hk : S.lab l with
      | none =>
          rw [S.silent s l s' hi hs hk]
          simpa [hk] using ih
      | some k =>
          have := ih.snoc (hok s l k hk hl) (S.visible s l s' k hi hs hk)
          simpa [hk] using this

/-- Two visible labels with one preimage each are in the same order above and below. -/
theorem before_filterMap_iff {f : ℓ → Option κ} {a b : ℓ} {a' b' : κ}
    (ha : ∀ l, f l = some a' ↔ l = a) (hb : ∀ l, f l = some b' ↔ l = b) :
    ∀ ls : List ℓ, Before a' b' (ls.filterMap f) ↔ Before a b ls := by
  intro ls
  induction ls using List.reverseRecOn with
  | nil => simp [Before]
  | append_singleton ls l ih =>
      have hmem : a' ∈ ls.filterMap f ↔ a ∈ ls := by
        simp only [List.mem_filterMap, ha]
        exact ⟨fun ⟨_, h, e⟩ => e ▸ h, fun h => ⟨a, h, rfl⟩⟩
      have hlast : f l = some b' ↔ b = l := by rw [hb l]; exact eq_comm
      rw [List.filterMap_append, before_concat, ← hlast, ← hmem, ← ih]
      cases hl : f l with
      | none => simp [hl]
      | some k => simp [hl, before_concat, eq_comm]

end Transition
