import Siffleux.Foundation.Transition

/-!
# What is bound to happen

Among the steps of a system some *help* towards a goal.  `System.Ensures` says that a goal is
reached by them whatever else is done in between: as long as it is not reached a helping step is
enabled, and no schedule has more than `n` of them.  A scheduler that does not pass over the
helping steps for good reaches the goal within `n` of them.

Both which steps help and which are allowed at all may depend on the state.

* `System.helpful` — how many steps of a schedule help.
* `System.ensures_of_variant` — the rule: an invariant, and a variant that every helping step makes
  smaller and no allowed step makes larger.
* `System.Ensures.exec` — the helping steps alone reach the goal.
-/

namespace Transition

universe u v

variable {σ : Type u} {ℓ : Type v} {M : System σ ℓ}

/-- The number of steps of a schedule that help. -/
def System.helpful (M : System σ ℓ) (helps : σ → ℓ → Bool) : σ → List ℓ → ℕ
  | _, [] => 0
  | s, l :: ls => (helps s l).toNat +
      match M.step s l with
      | some s' => M.helpful helps s' ls
      | none => 0

/-- `goal` is reached from `s` by at most `n` helping steps, and these are never wanting. -/
structure System.Ensures (M : System σ ℓ) (helps : σ → ℓ → Bool) (ok : σ → ℓ → Prop)
    (goal : σ → Prop) (n : ℕ) (s : σ) : Prop where
  progress : ∀ ms t, M.Within ok s ms → M.exec s ms = some t → ¬ goal t →
    ∃ l, helps t l = true ∧ ok t l ∧ (M.step t l).isSome = true
  bounded : ∀ ms, M.Within ok s ms → M.helpful helps s ms ≤ n

variable {helps : σ → ℓ → Bool} {ok : σ → ℓ → Prop} {goal : σ → Prop}

/-- An invariant of the allowed steps holds after a schedule of them. -/
lemma System.exec_within {inv : σ → Prop}
    (hstep : ∀ s l s', inv s → ok s l → M.step s l = some s' → inv s') :
    ∀ (ms : List ℓ) {s t : σ}, inv s → M.Within ok s ms → M.exec s ms = some t → inv t
  | [], s, t, h, _, he => by
      simp only [System.exec, Option.some.injEq] at he
      exact he ▸ h
  | m :: ms, s, t, h, hw, he => by
      simp only [System.exec, Option.bind_eq_some_iff] at he
      obtain ⟨s₁, h₁, h₂⟩ := he
      simp only [System.Within, h₁] at hw
      exact System.exec_within hstep ms (hstep s m s₁ h hw.1 h₁) hw.2 h₂

/-- The variant pays for the helping steps. -/
lemma System.helpful_le {inv : σ → Prop} {μ : σ → ℕ}
    (hstep : ∀ s l s', inv s → ok s l → M.step s l = some s' →
      inv s' ∧ μ s' + (helps s l).toNat ≤ μ s) :
    ∀ (ms : List ℓ) {s : σ}, inv s → M.Within ok s ms → M.helpful helps s ms ≤ μ s
  | [], s, _, _ => by simp [System.helpful]
  | m :: ms, s, h, hw => by
      cases h₁ : M.step s m with
      | none => simp [System.Within, h₁] at hw
      | some s₁ =>
          simp only [System.Within, h₁] at hw
          obtain ⟨hinv, hle⟩ := hstep s m s₁ h hw.1 h₁
          have ih := System.helpful_le hstep ms hinv hw.2
          simp only [System.helpful, h₁]
          omega

/-- **Variant rule.**  Allowed steps keep the invariant and never make the variant larger, helping
steps make it smaller, and while the goal is not reached a helping step is enabled. -/
theorem System.ensures_of_variant (inv : σ → Prop) (μ : σ → ℕ)
    (hstep : ∀ s l s', inv s → ok s l → M.step s l = some s' →
      inv s' ∧ μ s' + (helps s l).toNat ≤ μ s)
    (hprogress : ∀ s, inv s → ¬ goal s →
      ∃ l, helps s l = true ∧ ok s l ∧ (M.step s l).isSome = true)
    {s : σ} (h : inv s) {n : ℕ} (hn : μ s ≤ n) : M.Ensures helps ok goal n s where
  progress ms t hw he hg := by
    refine hprogress t (System.exec_within ?_ ms h hw he) hg
    intro s l s' hs hl hst
    exact (hstep s l s' hs hl hst).1
  bounded ms hw := (System.helpful_le hstep ms h hw).trans hn

/-- One allowed step on, the goal is as near as it was, and nearer if the step helps. -/
lemma System.Ensures.step {n : ℕ} {s s' : σ} {l : ℓ} (h : M.Ensures helps ok goal n s)
    (hl : ok s l) (hs : M.step s l = some s') :
    (helps s l).toNat ≤ n ∧ M.Ensures helps ok goal (n - (helps s l).toNat) s' := by
  have hw : ∀ {ms}, M.Within ok s' ms → M.Within ok s (l :: ms) := by
    intro ms hms
    simp only [System.Within, hs]
    exact ⟨hl, hms⟩
  have hcount : ∀ ms, M.Within ok s' ms →
      (helps s l).toNat + M.helpful helps s' ms ≤ n := by
    intro ms hms
    have := h.bounded (l :: ms) (hw hms)
    simpa only [System.helpful, hs] using this
  refine ⟨?_, fun ms t hms he hg => ?_, fun ms hms => ?_⟩
  · have := hcount [] trivial
    simpa [System.helpful] using this
  · exact h.progress (l :: ms) t (hw hms) (by rw [System.exec_cons hs]; exact he) hg
  · have := hcount ms hms
    omega

/-- **The helping steps alone reach the goal**, and there are at most `n` of them. -/
theorem System.Ensures.exec {n : ℕ} {s : σ} (h : M.Ensures helps ok goal n s) :
    ∃ ms t, M.Within (fun s l => helps s l = true ∧ ok s l) s ms ∧ M.exec s ms = some t ∧
      goal t ∧ ms.length ≤ n := by
  induction n using Nat.strong_induction_on generalizing s with
  | _ n ih =>
      by_cases hg : goal s
      · exact ⟨[], s, trivial, rfl, hg, Nat.zero_le n⟩
      · obtain ⟨l, hh, hok, hen⟩ := h.progress [] s trivial rfl hg
        obtain ⟨s', hs⟩ := Option.isSome_iff_exists.mp hen
        obtain ⟨hpos, h'⟩ := h.step hok hs
        rw [hh, Bool.toNat_true] at hpos h'
        obtain ⟨ms, t, hw, he, ht, hlen⟩ := ih (n - 1) (by omega) h'
        refine ⟨l :: ms, t, ?_, by rw [System.exec_cons hs]; exact he, ht, ?_⟩
        · simp only [System.Within, hs]
          exact ⟨⟨hh, hok⟩, hw⟩
        · rw [List.length_cons]
          omega

/-- A goal that is ensured is reached by some run. -/
lemma System.Ensures.exists_run {n : ℕ} {s : σ} {ls : List ℓ} (h : M.Ensures helps ok goal n s)
    (hrun : M.Run ls s) : ∃ ls' t, M.Run ls' t ∧ goal t := by
  obtain ⟨ms, t, -, he, ht, -⟩ := h.exec
  exact ⟨ls ++ ms, t, hrun.exec_append ms he, ht⟩

end Transition
