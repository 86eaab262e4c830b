import Siffleux.Client.Egress.Modes

/-!
# How long an egress waits for its next attempt

The wait after a failed attempt is meant to grow from 100 milliseconds to 30 seconds.
`start_tunnel` takes the power and the product first and the minimum last, on a counter that grows
for as long as the server cannot be reached.

* `reconnectDelay_exact_iff` — for which counters the wait is the right one, in either build.
* `counts_run` — the counter of a task is the number of its attempts that failed in a row.
* `backoff_law_iff` — over whole runs of both egresses: the waits are those of the law, without an
  overflow, exactly as long as no more than 57 failures precede a failure.
-/

namespace Siffleux

open ByteBuf Transition

/-- What the wait is meant to be, in milliseconds, after `r` earlier failures in a row. -/
def backoff (r : ℕ) : ℕ := min (100 * 2 ^ r) 30000

lemma backoff_ge (r : ℕ) : 100 ≤ backoff r := by
  have h := Nat.one_le_two_pow (n := r)
  rw [backoff]
  omega

lemma backoff_le (r : ℕ) : backoff r ≤ 30000 := Nat.min_le_right ..

lemma backoff_mono {r r' : ℕ} (h : r ≤ r') : backoff r ≤ backoff r' := by
  have hpow : 2 ^ r ≤ 2 ^ r' := Nat.pow_le_pow_right (by decide) h
  rw [backoff, backoff]
  omega

/-! ## The arithmetic -/

lemma toNat_min_30000 (a : UInt64) : (min a 30000).toNat = min a.toNat 30000 := by
  rw [show min a 30000 = if a ≤ 30000 then a else 30000 from rfl]
  have hle : a ≤ 30000 ↔ a.toNat ≤ 30000 := UInt64.le_iff_toNat_le
  split_ifs with h <;> rw [hle] at h
  · omega
  · rw [show (30000 : UInt64).toNat = 30000 from rfl]
    omega

/-- The largest counter for which the wait is right. -/
def Profile.lastExact : Profile → ℕ
  | .release => 61
  | .checked => 57

lemma u64_of_lt (p : Profile) {n : ℕ} (h : n < 2 ^ 64) : p.u64 n = .ret (UInt64.ofNat n) := by
  simp only [Profile.u64, if_pos h]

/-- A release build computes modulo `2 ^ 64`. -/
lemma reconnectDelay_release (retry : UInt32) : ∃ ms, reconnectDelay .release retry = .ret ms ∧
    ms.toNat = min (100 * 2 ^ retry.toNat % 2 ^ 64) 30000 := by
  have hu : ∀ n, Profile.release.u64 n = .ret (UInt64.ofNat n) := by
    intro n
    simp only [Profile.u64, ite_self]
  refine ⟨min (UInt64.ofNat (100 * (UInt64.ofNat (2 ^ retry.toNat)).toNat)) 30000, ?_, ?_⟩
  · rw [reconnectDelay, hu, Outcome.bind_ret, hu, Outcome.map_ret]
  · rw [toNat_min_30000, UInt64.toNat_ofNat', UInt64.toNat_ofNat', Nat.mul_mod_mod]

/-- A checked build panics on an overflow. -/
lemma reconnectDelay_checked (retry : UInt32) :
    (retry.toNat ≤ 57 → ∃ ms, reconnectDelay .checked retry = .ret ms ∧
      ms.toNat = backoff retry.toNat) ∧
    (57 < retry.toNat → reconnectDelay .checked retry = .panic) := by
  constructor
  · intro h
    have hpow : 2 ^ retry.toNat ≤ 2 ^ 57 := Nat.pow_le_pow_right (by decide) h
    have hf : (UInt64.ofNat (2 ^ retry.toNat)).toNat = 2 ^ retry.toNat := by
      rw [UInt64.toNat_ofNat', Nat.mod_eq_of_lt (by omega)]
    refine ⟨min (UInt64.ofNat (100 * 2 ^ retry.toNat)) 30000, ?_, ?_⟩
    · rw [reconnectDelay, u64_of_lt _ (by omega), Outcome.bind_ret, hf, u64_of_lt _ (by omega),
        Outcome.map_ret]
    · rw [toNat_min_30000, UInt64.toNat_ofNat', Nat.mod_eq_of_lt (by omega), backoff]
  · intro h
    have hpow : 2 ^ 58 ≤ 2 ^ retry.toNat := Nat.pow_le_pow_right (by decide) h
    rw [reconnectDelay]
    by_cases hlt : 2 ^ retry.toNat < 2 ^ 64
    · have hf : (UInt64.ofNat (2 ^ retry.toNat)).toNat = 2 ^ retry.toNat := by
        rw [UInt64.toNat_ofNat', Nat.mod_eq_of_lt hlt]
      rw [u64_of_lt _ hlt, Outcome.bind_ret, hf, Profile.u64, if_neg (by omega)]
      rfl
    · rw [Profile.u64, if_neg hlt]
      rfl

/-- **The wait is right for counters up to 57, and up to 61 in a release build**: there the product
wraps around from 58 on, which the minimum hides until it is 0. -/
theorem reconnectDelay_exact_iff (p : Profile) (retry : UInt32) :
    (∃ ms, reconnectDelay p retry = .ret ms ∧ ms.toNat = backoff retry.toNat) ↔
      retry.toNat ≤ p.lastExact := by
  cases p with
  | checked =>
      rcases Nat.lt_or_ge 57 retry.toNat with h | h
      · refine iff_of_false ?_ (Nat.not_le.mpr h)
        rintro ⟨ms, hms, -⟩
        rw [(reconnectDelay_checked retry).2 h] at hms
        cases hms
      · exact iff_of_true ((reconnectDelay_checked retry).1 h) h
  | release =>
      obtain ⟨ms, hms, hn⟩ := reconnectDelay_release retry
      have hiff : (∃ ms, reconnectDelay .release retry = .ret ms ∧
          ms.toNat = backoff retry.toNat) ↔
            min (100 * 2 ^ retry.toNat % 2 ^ 64) 30000 = backoff retry.toNat := by
        rw [← hn]
        refine ⟨?_, fun he => ⟨ms, hms, he⟩⟩
        rintro ⟨ms', hms', he⟩
        rw [hms] at hms'
        rw [Outcome.ret.inj hms']
        exact he
      rw [hiff]
      rcases Nat.lt_or_ge 61 retry.toNat with h | h
      · refine iff_of_false ?_ (Nat.not_le.mpr h)
        obtain ⟨m, hm⟩ := Nat.exists_eq_add_of_le h
        have hzero : 100 * 2 ^ retry.toNat % 2 ^ 64 = 0 := by
          rw [hm, Nat.pow_add]
          omega
        have hge := backoff_ge retry.toNat
        rw [hzero]
        omega
      · refine iff_of_true ?_ h
        rcases Nat.lt_or_ge 57 retry.toNat with h57 | h57
        · obtain h' | h' | h' | h' : retry.toNat = 58 ∨ retry.toNat = 59 ∨ retry.toNat = 60 ∨
              retry.toNat = 61 := by omega
          all_goals
            rw [h']
            rfl
        · have hpow : 2 ^ retry.toNat ≤ 2 ^ 57 := Nat.pow_le_pow_right (by decide) h57
          rw [backoff, Nat.mod_eq_of_lt (by omega)]

/-- The counter goes up by one, modulo `2 ^ 32`. -/
lemma nextRetry_eq {p : Profile} {m : ℕ} {retry : UInt32}
    (h : nextRetry p (UInt32.ofNat m) = .ret retry) : retry = UInt32.ofNat (m + 1) := by
  have hval : retry = UInt32.ofNat ((UInt32.ofNat m).toNat + 1) := by
    simp only [nextRetry, Profile.u32] at h
    split_ifs at h
    · exact (Outcome.ret.inj h).symm
    · cases p with
      | release => exact (Outcome.ret.inj h).symm
      | checked => cases h
  rw [hval, ← UInt32.toNat_inj, UInt32.toNat_ofNat', UInt32.toNat_ofNat', UInt32.toNat_ofNat']
  omega

/-! ## What the counter counts -/

namespace Egress

variable {L : MainLoop} {p : Profile} {ls : List (Label L)} {s s' : Egress L} {i : ℕ}

/-- One step more on the count of attempts of task `i` that have failed in a row. -/
def countFailure (i : ℕ) (n : ℕ) : Label L → ℕ
  | .connectFails j => if j = i then n + 1 else n
  | .connected j => if j = i then 0 else n
  | _ => n

/-- The attempts of task `i` that have failed since it last connected. -/
def failures (i : ℕ) (ls : List (Label L)) : ℕ := ls.foldl (countFailure i) 0

lemma failures_concat (i : ℕ) (ls : List (Label L)) (l : Label L) :
    failures i (ls ++ [l]) = countFailure i (failures i ls) l := by
  rw [failures, List.foldl_append]
  rfl

lemma countFailure_le (i n : ℕ) (l : Label L) : countFailure i n l ≤ n + 1 := by
  cases l with
  | connectFails j | connected j =>
      simp only [countFailure]
      split_ifs <;> omega
  | _ => exact Nat.le_succ n

lemma failures_le_length (i : ℕ) (ls : List (Label L)) : failures i ls ≤ ls.length := by
  induction ls using List.reverseRecOn with
  | nil => exact Nat.le_refl 0
  | append_singleton ls l ih =>
      have h := countFailure_le i (failures i ls) l
      rw [failures_concat, List.length_append, List.length_singleton]
      omega

/-- Between two connects the count only grows. -/
lemma failures_mono {ns : List (Label L)} (h : .connected i ∉ ns) (ls : List (Label L)) :
    failures i ls ≤ failures i (ls ++ ns) := by
  induction ns using List.reverseRecOn with
  | nil => rw [List.append_nil]
  | append_singleton ns l ih =>
      rw [List.mem_append, List.mem_singleton, not_or] at h
      rw [← List.append_assoc, failures_concat]
      refine Nat.le_trans (ih h.1) ?_
      cases l with
      | connectFails j =>
          simp only [countFailure]
          split_ifs <;> omega
      | connected j =>
          have hne : j ≠ i := fun e => h.2 (by rw [e])
          simp only [countFailure, if_neg hne, Nat.le_refl]
      | _ => exact Nat.le_refl _

/-- What the count says of a task; the counter wraps around, or panics, at `2 ^ 32` only. -/
def Counted (n : ℕ) : TaskPc L.Local → Prop
  | .notSpawned | .announcing | .serving _ _ => n = 0
  | .connecting retry => retry = UInt32.ofNat n
  | .waiting retry _ => ∃ m, n = m + 1 ∧ retry = UInt32.ofNat m
  | .closing | .finished | .panicked => True

/-- Every task has counted right, and tasks are spawned in order. -/
structure Counts (ls : List (Label L)) (s : Egress L) : Prop where
  counted : ∀ i, Counted (failures i ls) (s.task i)
  unspawned : ∀ i, s.nextTask ≤ i → s.task i = .notSpawned

lemma counts_new : Counts [] (new L) := ⟨fun _ => rfl, fun _ _ => rfl⟩

/-- A step of a call counts nothing, and the task it may spawn has nothing to count. -/
lemma Counts.call {l : Label L} (h : Counts ls s) (hs : CallStep s l s') :
    Counts (ls ++ [l]) s' := by
  have hcount : ∀ i, failures i (ls ++ [l]) = failures i ls := by
    intro i
    rw [failures_concat]
    cases hs <;> rfl
  cases hs with
  | @startSpawn c hc =>
      refine ⟨fun i => ?_, fun i hi => ?_⟩
      · rw [hcount]
        show Counted _ (Function.update s.task s.nextTask (.connecting 0) i)
        rcases eq_or_ne i s.nextTask with rfl | hne
        · have hn := h.counted s.nextTask
          rw [h.unspawned _ (Nat.le_refl _)] at hn
          rw [Function.update_self, show failures s.nextTask ls = 0 from hn]
          rfl
        · rw [Function.update_of_ne hne]
          exact h.counted i
      · have hi' : s.nextTask + 1 ≤ i := hi
        exact (Function.update_of_ne (by omega) ..).trans (h.unspawned i (by omega))
  | _ => exact ⟨fun i => hcount i ▸ h.counted i, h.unspawned⟩

/-- A task that moves, and the count it has from then on. -/
lemma Counts.move {l : Label L} {pc : TaskPc L.Local} {published : EgressState}
    (h : Counts ls s) (halive : s.task i ≠ .notSpawned)
    (hother : ∀ j, j ≠ i → countFailure j (failures j ls) l = failures j ls)
    (hself : Counted (countFailure i (failures i ls) l) pc) :
    Counts (ls ++ [l]) { s.setTask i pc with published := published } := by
  refine ⟨fun j => ?_, fun j hj => ?_⟩
  · rw [failures_concat]
    show Counted _ (Function.update s.task i pc j)
    rcases eq_or_ne j i with rfl | hne
    · rw [Function.update_self]
      exact hself
    · rw [Function.update_of_ne hne, hother j hne]
      exact h.counted j
  · have hn := h.unspawned j hj
    have hne : j ≠ i := fun e => halive (e ▸ hn)
    exact (Function.update_of_ne hne ..).trans hn

theorem Counts.step {l : Label L} (h : Counts ls s) (hs : step p s l = some s') :
    Counts (ls ++ [l]) s' := by
  cases step_cases hs with
  | call hc => exact h.call hc
  | task ht =>
      have hcounted := h.counted
      cases ht with
      | connected hi =>
          exact h.move (by rw [hi]; simp) (fun j hne => if_neg hne.symm) (if_pos rfl)
      | @connectFailed i _ _ hi _ =>
          have hc := hcounted i
          rw [hi] at hc
          exact h.move (by rw [hi]; simp) (fun j hne => if_neg hne.symm)
            ⟨_, if_pos rfl, hc⟩
      | delayPanics hi => exact h.move (by rw [hi]; simp) (fun j hne => if_neg hne.symm) trivial
      | @sentReady i hi =>
          have hc := hcounted i
          rw [hi] at hc
          exact h.move (by rw [hi]; simp) (fun _ _ => rfl) hc
      | @served i _ _ _ _ hi _ | @lost i _ _ hi =>
          have hc := hcounted i
          rw [hi] at hc
          exact h.move (by rw [hi]; simp) (fun _ _ => rfl) hc
      | @leftLoop i _ hi =>
          have hc := hcounted i
          rw [hi] at hc
          exact h.move (by rw [hi]; simp) (fun _ _ => rfl)
            (show (0 : UInt32) = UInt32.ofNat (failures i ls) by
              rw [show failures i ls = 0 from hc]
              rfl)
      | @slept i _ _ _ hi hn =>
          have hc := hcounted i
          rw [hi] at hc
          obtain ⟨m, hm, rfl⟩ := hc
          refine h.move (by rw [hi]; simp) (fun _ _ => rfl) ?_
          show _ = UInt32.ofNat (failures i ls)
          rw [hm]
          exact nextRetry_eq hn
      | loopPanics hi | servingCancelled _ hi | waitingCancelled _ hi | closed hi
      | retryPanics hi =>
          exact h.move (by rw [hi]; simp) (fun _ _ => rfl) trivial

theorem counts_run (h : (system L p).Run ls s) : Counts ls s := by
  induction h with
  | nil => exact counts_new
  | snoc _ hs ih => exact ih.step hs

/-! ## The law over whole runs -/

/-- The wait that task `i` has before it after the schedule `ls`. -/
def waitAfter (p : Profile) (ls : List (Label L)) (i : ℕ) : Option UInt64 :=
  ((system L p).exec (new L) ls).bind fun s =>
    match s.task i with
    | .waiting _ ms => some ms
    | _ => none

/-- What is asked of a run.  After every failed attempt the task waits for the exact backoff; the
exact values of the product and of the next counter fit their types; and the waits are between 100
milliseconds and 30 seconds, and do not decrease between two connects. -/
structure BackoffLaw (p : Profile) (ls : List (Label L)) : Prop where
  law : ∀ ms i, ms ++ [.connectFails i] <+: ls →
    ∃ d, waitAfter p (ms ++ [.connectFails i]) i = some d ∧ d.toNat = backoff (failures i ms)
  fits : ∀ ms i, ms ++ [.connectFails i] <+: ls →
    100 * 2 ^ failures i ms < 2 ^ 64 ∧ failures i ms + 1 < 2 ^ 32
  bounded : ∀ ms i d, ms ++ [.connectFails i] <+: ls →
    waitAfter p (ms ++ [.connectFails i]) i = some d → 100 ≤ d.toNat ∧ d.toNat ≤ 30000
  grows : ∀ ms ns i d d', ms ++ [.connectFails i] ++ ns ++ [.connectFails i] <+: ls →
    .connected i ∉ ns → waitAfter p (ms ++ [.connectFails i]) i = some d →
      waitAfter p (ms ++ [.connectFails i] ++ ns ++ [.connectFails i]) i = some d' →
        d.toNat ≤ d'.toNat

/-- No attempt fails after more than 57 others in a row. -/
def ShortOutages (ls : List (Label L)) : Prop :=
  ∀ ms i, ms ++ [.connectFails i] <+: ls → failures i ms ≤ 57

/-- The wait is read off the state the run has ended in. -/
lemma waitAfter_eq (h : (system L p).Run ls s) (i : ℕ) :
    waitAfter p ls i = match s.task i with
      | .waiting _ ms => some ms
      | _ => none := by
  rw [waitAfter, show (system L p).exec (new L) ls = some s from h.exec, Option.bind_some]

/-- An attempt that fails, and the wait computed for it. -/
lemma waitAfter_connectFails (h : (system L p).Run (ls ++ [.connectFails i]) s) :
    ∃ t, (system L p).Run ls t ∧ t.task i = .connecting (UInt32.ofNat (failures i ls)) ∧
      waitAfter p (ls ++ [.connectFails i]) i =
        match reconnectDelay p (UInt32.ofNat (failures i ls)) with
        | .ret ms => some ms
        | .panic => none := by
  obtain ⟨t, ht, hs⟩ := System.run_concat_iff.mp h
  have hcounted := (counts_run ht).counted i
  rw [waitAfter_eq h]
  have hstep : step p t (.connectFails i) = some s := hs
  cases step_cases hstep with
  | call hc => cases hc
  | task hc =>
      cases hc with
      | connectFailed hi hd | delayPanics hi hd =>
          rw [hi] at hcounted
          obtain rfl := hcounted
          refine ⟨t, ht, hi, ?_⟩
          rw [hd]
          simp only [setTask, Function.update_self]

/-- A wait that is right. -/
lemma waitAfter_exact (h : (system L p).Run (ls ++ [.connectFails i]) s)
    (hf : failures i ls ≤ 57) :
    ∃ d, waitAfter p (ls ++ [.connectFails i]) i = some d ∧ d.toNat = backoff (failures i ls) := by
  have hn : (UInt32.ofNat (failures i ls)).toNat = failures i ls := by
    rw [UInt32.toNat_ofNat']
    omega
  have hle : (UInt32.ofNat (failures i ls)).toNat ≤ p.lastExact := by
    rw [hn]
    cases p with
    | release => exact Nat.le_trans hf (by decide)
    | checked => exact hf
  obtain ⟨d, hd, hval⟩ := (reconnectDelay_exact_iff p _).mpr hle
  obtain ⟨-, -, -, hw⟩ := waitAfter_connectFails h
  rw [hd] at hw
  rw [hn] at hval
  exact ⟨d, hw, hval⟩

theorem backoffLaw_iff (h : (system L p).Run ls s) : BackoffLaw p ls ↔ ShortOutages ls := by
  constructor
  · intro hlaw ms i hms
    by_contra hlt
    have hpow : 2 ^ 58 ≤ 2 ^ failures i ms := Nat.pow_le_pow_right (by decide) (Nat.not_le.mp hlt)
    have hfits := (hlaw.fits ms i hms).1
    omega
  · intro hshort
    have hexact : ∀ ms i, ms ++ [.connectFails i] <+: ls → ∃ d,
        waitAfter p (ms ++ [.connectFails i]) i = some d ∧ d.toNat = backoff (failures i ms) := by
      intro ms i hms
      obtain ⟨t, ht⟩ := h.of_prefix hms
      exact waitAfter_exact ht (hshort ms i hms)
    refine ⟨hexact, fun ms i hms => ?_, fun ms i d hms hd => ?_,
      fun ms ns i d d' hms hns hd hd' => ?_⟩
    · have hf := hshort ms i hms
      have hpow : 2 ^ failures i ms ≤ 2 ^ 57 := Nat.pow_le_pow_right (by decide) hf
      omega
    · obtain ⟨d₁, hd₁, hval⟩ := hexact ms i hms
      rw [hd] at hd₁
      rw [Option.some.inj hd₁, hval]
      exact ⟨backoff_ge _, backoff_le _⟩
    · obtain ⟨d₁, hd₁, hval⟩ := hexact ms i
        (List.IsPrefix.trans ⟨ns ++ [.connectFails i], by simp⟩ hms)
      obtain ⟨d₂, hd₂, hval'⟩ := hexact (ms ++ [.connectFails i] ++ ns) i hms
      rw [hd] at hd₁
      rw [hd'] at hd₂
      rw [Option.some.inj hd₁, Option.some.inj hd₂, hval, hval', List.append_assoc]
      refine backoff_mono (failures_mono ?_ ms)
      simpa using hns

end Egress

/-- **The wait between two attempts follows the law exactly as long as outages are short.**  In
every run of either egress the waits are the exact backoffs, computed without an overflow, if and
only if no failed attempt has more than 57 failures in a row before it; and the value alone is right
for one counter exactly up to 57 in a checked build, where the overflow panics, and up to 61 in a
release build. -/
theorem backoff_law_iff (p : Profile) :
    (∀ ls s, (TcpEgress.system p).Run ls s → (Egress.BackoffLaw p ls ↔ Egress.ShortOutages ls)) ∧
    (∀ ls s, (UdpEgress.system p).Run ls s → (Egress.BackoffLaw p ls ↔ Egress.ShortOutages ls)) ∧
    ∀ retry, (∃ ms, reconnectDelay p retry = .ret ms ∧ ms.toNat = backoff retry.toNat) ↔
      retry.toNat ≤ p.lastExact :=
  ⟨fun _ _ h => Egress.backoffLaw_iff h, fun _ _ h => Egress.backoffLaw_iff h,
    reconnectDelay_exact_iff p⟩

/-- One failed attempt, and its wait of 100 milliseconds. -/
theorem backoff_law_first :
    (∃ s, (TcpEgress.system .checked).Run (startAll 0 ++ [.connectFails 0]) s) ∧
    Egress.BackoffLaw .checked (startAll 0 ++ [.connectFails 0] : List TcpEgress.Label) := by
  have h : (TcpEgress.system .checked).Run (startAll 0 ++ [.connectFails 0]) _ :=
    System.run_of_exec rfl
  refine ⟨⟨_, h⟩, ((backoff_law_iff .checked).1 _ _ h).mpr fun ms i hms => ?_⟩
  have hlen := Egress.failures_le_length i ms
  have hle := hms.length_le
  have hseven : (startAll 0 ++ [.connectFails 0] : List TcpEgress.Label).length = 7 := rfl
  rw [List.length_append, hseven] at hle
  omega

/-! ## A long outage -/

namespace Egress

variable {L : MainLoop} {p : Profile}

/-- The server cannot be reached for `n` attempts. -/
def outage : ℕ → List (Label L)
  | 0 => []
  | n + 1 => [.connectFails 0, .sleepElapsed 0] ++ outage n

/-- What a failed attempt does. -/
lemma step_connectFails {s : Egress L} {retry : UInt32} (hs : s.task 0 = .connecting retry) :
    step p s (.connectFails 0) = some (s.setTask 0 (match reconnectDelay p retry with
      | .ret ms => .waiting retry ms
      | .panic => .panicked)) := by
  simp only [step, callStep, Option.none_or, taskStep, hs]
  cases reconnectDelay p retry <;> rfl

lemma exec_outage : ∀ (n m : ℕ) {s : Egress L}, m + n < 2 ^ 32 →
    s.task 0 = .connecting (UInt32.ofNat m) →
    (∀ k, k < m + n → ∃ ms, reconnectDelay p (UInt32.ofNat k) = .ret ms) →
    ∃ s', (system L p).exec s (outage n) = some s' ∧
      s'.task 0 = .connecting (UInt32.ofNat (m + n))
  | 0, m, s, _, hs, _ => ⟨s, rfl, hs⟩
  | n + 1, m, s, hlt, hs, hd => by
      obtain ⟨ms, hms⟩ := hd m (by omega)
      have hfail : (system L p).step s (.connectFails 0) =
          some (s.setTask 0 (.waiting (UInt32.ofNat m) ms)) := by
        show step p s (.connectFails 0) = _
        rw [step_connectFails hs, hms]
      have hnext : nextRetry p (UInt32.ofNat m) = .ret (UInt32.ofNat (m + 1)) := by
        have hm : (UInt32.ofNat m).toNat = m := by
          rw [UInt32.toNat_ofNat']
          omega
        simp only [nextRetry, Profile.u32, hm, if_pos (show m + 1 < 2 ^ 32 by omega)]
      have hsleep : (system L p).step (s.setTask 0 (.waiting (UInt32.ofNat m) ms))
          (.sleepElapsed 0) = some ((s.setTask 0 (.waiting (UInt32.ofNat m) ms)).setTask 0
            (.connecting (UInt32.ofNat (m + 1)))) := by
        show step p (s.setTask 0 (.waiting (UInt32.ofNat m) ms)) (.sleepElapsed 0) = _
        simp only [step, callStep, Option.none_or, taskStep, setTask, Function.update_self, hnext]
      obtain ⟨s', hs', htask⟩ := exec_outage n (m + 1)
        (s := (s.setTask 0 (.waiting (UInt32.ofNat m) ms)).setTask 0
          (.connecting (UInt32.ofNat (m + 1)))) (by omega)
        (by simp only [setTask, Function.update_self]) fun k hk => hd k (by omega)
      refine ⟨s', ?_, by rw [htask, Nat.add_assoc, Nat.add_comm 1 n]⟩
      rw [outage, List.cons_append, System.exec_cons hfail, List.singleton_append,
        System.exec_cons hsleep, hs']

/-- A started egress whose first `n` attempts fail, and the next one as well. -/
lemma run_outage {s : Egress L} {ls : List (Label L)} (h : (system L p).Run ls s)
    (hs : s.task 0 = .connecting 0) (n : ℕ) (hn : n < 2 ^ 32)
    (hd : ∀ k, k < n → ∃ ms, reconnectDelay p (UInt32.ofNat k) = .ret ms) :
    ∃ s', (system L p).Run (ls ++ outage n ++ [.connectFails 0]) s' ∧
      s'.task 0 = match reconnectDelay p (UInt32.ofNat n) with
        | .ret ms => .waiting (UInt32.ofNat n) ms
        | .panic => .panicked := by
  obtain ⟨t, hexec, htask⟩ := exec_outage n 0 (by omega) hs fun k hk => hd k (by omega)
  rw [Nat.zero_add] at htask
  exact ⟨_, (h.exec_append _ hexec).snoc (step_connectFails htask), by
    simp only [setTask, Function.update_self]⟩

end Egress

/-- After 58 failures in a row a checked build panics at the next one; after 62 a release build
tries again without a wait. -/
theorem backoff_overflows :
    (∃ s, (TcpEgress.system .checked).Run (startAll 0 ++ Egress.outage 58 ++ [.connectFails 0]) s ∧
      s.task 0 = .panicked) ∧
    (∃ s, (TcpEgress.system .release).Run (startAll 0 ++ Egress.outage 62 ++ [.connectFails 0]) s ∧
      s.task 0 = .waiting 62 0) ∧
    ¬ Egress.BackoffLaw .checked
      (startAll 0 ++ Egress.outage 58 ++ [.connectFails 0] : List TcpEgress.Label) ∧
    ¬ Egress.BackoffLaw .release
      (startAll 0 ++ Egress.outage 62 ++ [.connectFails 0] : List TcpEgress.Label) := by
  have hchecked : ∃ s, (TcpEgress.system .checked).Run
      (startAll 0 ++ Egress.outage 58 ++ [.connectFails 0]) s ∧ s.task 0 = .panicked := by
    have h : (TcpEgress.system .checked).Run (startAll 0) _ := System.run_of_exec rfl
    refine Egress.run_outage h rfl 58 (by decide) fun k hk => ?_
    have hk' : (UInt32.ofNat k).toNat = k := by
      rw [UInt32.toNat_ofNat']
      omega
    obtain ⟨ms, hms, -⟩ := (reconnectDelay_checked (UInt32.ofNat k)).1 (by omega)
    exact ⟨ms, hms⟩
  have hrelease : ∃ s, (TcpEgress.system .release).Run
      (startAll 0 ++ Egress.outage 62 ++ [.connectFails 0]) s ∧ s.task 0 = .waiting 62 0 := by
    have h : (TcpEgress.system .release).Run (startAll 0) _ := System.run_of_exec rfl
    refine Egress.run_outage h rfl 62 (by decide) fun k _ => ?_
    obtain ⟨ms, hms, -⟩ := reconnectDelay_release (UInt32.ofNat k)
    exact ⟨ms, hms⟩
  refine ⟨hchecked, hrelease, fun hlaw => ?_, fun hlaw => ?_⟩
  · obtain ⟨s, hs, htask⟩ := hchecked
    obtain ⟨d, hd, -⟩ := hlaw.law _ 0 (List.prefix_refl _)
    rw [Egress.waitAfter_eq hs, htask] at hd
    cases hd
  · obtain ⟨s, hs, htask⟩ := hrelease
    obtain ⟨d, hd, hval⟩ := hlaw.law _ 0 (List.prefix_refl _)
    rw [Egress.waitAfter_eq hs, htask] at hd
    have hge := backoff_ge
      (Egress.failures 0 (startAll 0 ++ Egress.outage 62 : List TcpEgress.Label))
    rw [← hval, ← Option.some.inj hd] at hge
    exact absurd hge (by decide)

end Siffleux
