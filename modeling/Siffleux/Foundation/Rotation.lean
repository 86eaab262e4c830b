import Mathlib.Data.Int.CardIntervalMod
import Mathlib.Tactic.Common

/-!
# Counting the places a rotation falls on

A counter that is reduced modulo `n` falls on `n` places in turn.  Any `k` values in a row fall on
each place `k / n` or `k / n + 1` times, wherever they start.

A counter of limited width wraps around, and `n` need not divide the number of its values.  Then the
values fall into two rows, and every place is off by one at most in each.

* `hits_window` — a row of values and one place.
* `wrappedHits_balanced` — two places, with at most one wrap in between.
-/

namespace Rotation

/-- How many of the `k` values from `c` on fall on the place `r` of `n`. -/
def hits (n r c k : ℕ) : ℕ := Nat.count (fun j => (c + j) % n = r) k

/-- The same for a counter that wraps around at `M`. -/
def wrappedHits (M n r c k : ℕ) : ℕ := Nat.count (fun j => (c + j) % M % n = r) k

variable {M n r c k : ℕ}

lemma hits_zero (hr : r < n) (b : ℕ) : hits n r 0 b = b / n + if r < b % n then 1 else 0 := by
  have hcount := Nat.count_modEq_card b (Nat.zero_lt_of_lt hr) r
  have hcongr : hits n r 0 b = Nat.count (· ≡ r [MOD n]) b := by
    simp only [hits, Nat.zero_add, Nat.ModEq, Nat.mod_eq_of_lt hr]
  rw [hcongr, hcount, Nat.mod_eq_of_lt hr]

/-- A row is the difference of two rows from 0. -/
lemma hits_add (n r c k : ℕ) : hits n r 0 (c + k) = hits n r 0 c + hits n r c k := by
  rw [hits, Nat.count_add]
  simp only [hits, Nat.zero_add]

/-- **`k` values in a row fall on every place `k / n` or `k / n + 1` times.** -/
theorem hits_window (hr : r < n) : k / n ≤ hits n r c k ∧ hits n r c k ≤ k / n + 1 := by
  have hn : 0 < n := Nat.zero_lt_of_lt hr
  have hsum := hits_add n r c k
  rw [hits_zero hr, hits_zero hr, Nat.add_div hn, Nat.add_mod_eq_ite] at hsum
  have hc := Nat.mod_lt c hn
  have hk := Nat.mod_lt k hn
  split_ifs at hsum <;> omega

lemma count_congr_below {p q : ℕ → Prop} [DecidablePred p] [DecidablePred q]
    (h : ∀ j, j < k → (p j ↔ q j)) : Nat.count p k = Nat.count q k := by
  refine List.countP_congr fun j hj => ?_
  simpa using h j (List.mem_range.mp hj)

lemma wrappedHits_of_le (h : c + k ≤ M) : wrappedHits M n r c k = hits n r c k :=
  count_congr_below fun j hj => by rw [Nat.mod_eq_of_lt (show c + j < M by omega)]

/-- A counter that wraps around once counts a row up to `M` and a row from 0 on. -/
lemma wrappedHits_of_wrap (hc : c ≤ M) (hk : k ≤ M) (h : M ≤ c + k) :
    wrappedHits M n r c k = hits n r c (M - c) + hits n r 0 (c + k - M) := by
  obtain ⟨b, rfl⟩ := Nat.exists_eq_add_of_le (show M - c ≤ k by omega)
  rw [wrappedHits, Nat.count_add, show c + (M - c + b) - M = b by omega]
  refine congrArg₂ (· + ·) (count_congr_below fun j hj => ?_) (count_congr_below fun j hj => ?_)
  · rw [Nat.mod_eq_of_lt (show c + j < M by omega)]
  · rw [show c + (M - c + j) = j + M by omega, Nat.add_mod_right,
      Nat.mod_eq_of_lt (show j < M by omega), Nat.zero_add]

/-- **Two places of a rotation differ by one at most, or by two when the counter wraps around.** -/
theorem wrappedHits_balanced {r' : ℕ} (hr : r < n) (hr' : r' < n) (hc : c ≤ M) (hk : k ≤ M) :
    wrappedHits M n r c k ≤ wrappedHits M n r' c k + if c + k ≤ M then 1 else 2 := by
  split_ifs with h
  · rw [wrappedHits_of_le h, wrappedHits_of_le h]
    have hwindow := hits_window (c := c) (k := k) hr
    have hwindow' := hits_window (c := c) (k := k) hr'
    omega
  · rw [wrappedHits_of_wrap hc hk (by omega), wrappedHits_of_wrap hc hk (by omega)]
    have hfirst := hits_window (c := c) (k := M - c) hr
    have hfirst' := hits_window (c := c) (k := M - c) hr'
    have hsecond := hits_window (c := 0) (k := c + k - M) hr
    have hsecond' := hits_window (c := 0) (k := c + k - M) hr'
    omega

end Rotation
