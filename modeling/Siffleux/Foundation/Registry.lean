import Mathlib.Data.List.Perm.Basic
import Mathlib.Data.Set.Insert
import Siffleux.Foundation.Transition

/-!
# A list that entries are pushed to and watchers remove from

The pattern: registering an entry arms a watcher for it and pushes it to a list; when the entry
is closed the watcher takes it out again.  Both are steps of different tasks.

* `removeValue` — how a removal is done on a vector: the first position of the value, then
  `swapRemove`, which fills the hole with the last element.  `removeValue_perm` says that this is
  `List.erase` up to order, and that is all a set-like use of the list needs.
* `registration` — the pattern as a transition system over any type of entries, with the list
  seen as a set.
* `listed_open_iff` — the open entries in the list are those that have been pushed and not closed.
* `listed_iff_removed_before_pushed` — an entry that has been pushed and whose watcher is done is
  listed exactly when the removal came before the push.
-/

namespace Registry

open Transition

universe u

variable {τ : Type u}

/-! ## Removing from a vector by swapping -/

/-- `Vec::swap_remove`: the last element takes the place of the one at `i`. -/
def swapRemove (l : List τ) (i : ℕ) : List τ :=
  match l.getLast? with
  | some last => (l.set i last).dropLast
  | none => l

lemma swapRemove_perm (l : List τ) {i : ℕ} (hi : i < l.length) :
    (swapRemove l i).Perm (l.eraseIdx i) := by
  rcases List.eq_nil_or_concat l with rfl | ⟨init, last, rfl⟩
  · exact absurd hi (Nat.not_lt_zero i)
  · rw [List.concat_eq_append, List.length_append, List.length_singleton] at hi
    rw [List.concat_eq_append, swapRemove, List.getLast?_concat]
    rcases Nat.lt_or_ge i init.length with h | h
    · simp only [List.set_append_left i last h, List.dropLast_concat,
        List.eraseIdx_append_of_lt_length h]
      exact (List.set_perm_cons_eraseIdx h last).trans
        (List.perm_append_singleton last (init.eraseIdx i)).symm
    · have he : i = init.length := by omega
      subst he
      simp only [List.set_append_right _ _ (Nat.le_refl _), Nat.sub_self, List.set_cons_zero,
        List.dropLast_concat, List.eraseIdx_append_of_length_le (Nat.le_refl _),
        List.eraseIdx_cons_zero, List.append_nil, List.Perm.refl]

variable [DecidableEq τ]

/-- Look for the position of a value and swap it out; nothing happens when it is not there. -/
def removeValue (t : τ) (l : List τ) : List τ :=
  match l.idxOf? t with
  | some i => swapRemove l i
  | none => l

/-- **Position and swap-remove is `erase`, up to order.** -/
theorem removeValue_perm (t : τ) (l : List τ) : (removeValue t l).Perm (l.erase t) := by
  rw [removeValue, List.erase_eq_eraseIdx]
  rcases hi : l.idxOf? t with _ | i
  · exact List.Perm.refl l
  · obtain ⟨hlt, -⟩ := List.idxOf?_eq_some_iff.mp hi
    exact swapRemove_perm l hlt

lemma nodup_removeValue {t : τ} {l : List τ} (h : l.Nodup) : (removeValue t l).Nodup :=
  (removeValue_perm t l).nodup_iff.mpr (h.erase t)

lemma mem_removeValue_iff {a t : τ} {l : List τ} (h : l.Nodup) :
    a ∈ removeValue t l ↔ a ≠ t ∧ a ∈ l :=
  (removeValue_perm t l).mem_iff.trans h.mem_erase_iff

/-! ## Registration as a transition system -/

/-- The watcher of an entry. -/
inductive Watcher where
  | absent
  | armed
  | done
  deriving DecidableEq, Repr

structure State (τ : Type u) where
  listed : Set τ
  closed : τ → Bool
  watcher : τ → Watcher
  pushed : τ → Bool

inductive Label (τ : Type u) where
  | close (t : τ)
  | arm (t : τ)
  | push (t : τ)
  | remove (t : τ)
  deriving DecidableEq

/-- Watchers are armed before the push, and only a closed entry is removed.  A closed entry may
be closed again. -/
def step (s : State τ) : Label τ → Option (State τ)
  | .close t => some { s with closed := Function.update s.closed t true }
  | .arm t =>
      if s.watcher t = .absent then
        some { s with watcher := Function.update s.watcher t .armed }
      else none
  | .push t =>
      if s.watcher t ≠ .absent ∧ s.pushed t = false then
        some { s with pushed := Function.update s.pushed t true, listed := insert t s.listed }
      else none
  | .remove t =>
      if s.watcher t = .armed ∧ s.closed t = true then
        some { s with watcher := Function.update s.watcher t .done, listed := s.listed \ {t} }
      else none

def registration (τ : Type u) [DecidableEq τ] : System (State τ) (Label τ) where
  init := ⟨∅, fun _ => false, fun _ => .absent, fun _ => false⟩
  step := step

/-- What the state remembers of the run. -/
structure Tracks (ls : List (Label τ)) (s : State τ) (t : τ) : Prop where
  pushed_iff : s.pushed t = true ↔ .push t ∈ ls
  done_iff : s.watcher t = .done ↔ .remove t ∈ ls
  listed_iff : t ∈ s.listed ↔ .push t ∈ ls ∧ (.remove t ∈ ls → Before (.remove t) (.push t) ls)

omit [DecidableEq τ] in
/-- Steps that neither push nor remove `t` keep what is remembered of it. -/
lemma Tracks.frame {ls : List (Label τ)} {s s' : State τ} {l : Label τ} {t : τ}
    (h : Tracks ls s t) (hp : .push t ≠ l) (hr : .remove t ≠ l) (h1 : s'.pushed t = s.pushed t)
    (h2 : s'.watcher t = .done ↔ s.watcher t = .done) (h3 : t ∈ s'.listed ↔ t ∈ s.listed) :
    Tracks (ls ++ [l]) s' t := by
  have hpm : Label.push t ∈ ls ++ [l] ↔ Label.push t ∈ ls := by simp [hp]
  have hrm : Label.remove t ∈ ls ++ [l] ↔ Label.remove t ∈ ls := by simp [hr]
  refine ⟨?_, ?_, ?_⟩
  · rw [h1, h.pushed_iff, hpm]
  · rw [h2, h.done_iff, hrm]
  · rw [h3, h.listed_iff, hpm, hrm, before_concat]
    simp [hp]

theorem tracks_step {ls : List (Label τ)} {s s' : State τ} {l : Label τ}
    (h : ∀ t, Tracks ls s t) (hs : step s l = some s') (t : τ) : Tracks (ls ++ [l]) s' t := by
  cases l with
  | close u =>
      simp only [step, Option.some.injEq] at hs
      subst hs
      exact (h t).frame (by simp) (by simp) rfl Iff.rfl Iff.rfl
  | arm u =>
      simp only [step, Option.ite_none_right_eq_some, Option.some.injEq] at hs
      obtain ⟨hab, rfl⟩ := hs
      refine (h t).frame (by simp) (by simp) rfl ?_ Iff.rfl
      rcases eq_or_ne t u with rfl | hne
      · simp [hab]
      · simp [hne]
  | push u =>
      simp only [step, Option.ite_none_right_eq_some, Option.some.injEq] at hs
      obtain ⟨-, rfl⟩ := hs
      rcases eq_or_ne t u with rfl | hne
      · refine ⟨by simp, ?_, ?_⟩
        · rw [(h t).done_iff]
          simp
        · simp only [Set.mem_insert_iff, true_or, List.mem_append, List.mem_singleton, or_true,
            true_and, true_iff, reduceCtorEq, or_false]
          exact fun hr => before_concat.mpr (Or.inr ⟨hr, rfl⟩)
      · exact (h t).frame (by simp [hne]) (by simp) (by simp [hne]) Iff.rfl (by simp [hne])
  | remove u =>
      simp only [step, Option.ite_none_right_eq_some, Option.some.injEq] at hs
      obtain ⟨⟨harm, -⟩, rfl⟩ := hs
      rcases eq_or_ne t u with rfl | hne
      · have hnr : Label.remove t ∉ ls := by
          rw [← (h t).done_iff, harm]
          simp
        refine ⟨?_, by simp, ?_⟩
        · rw [(h t).pushed_iff]
          simp
        · simp only [Set.mem_sdiff, Set.mem_singleton_iff, not_true_eq_false, and_false, false_iff,
            not_and, List.mem_append, List.mem_singleton, or_true, true_imp_iff, before_concat]
          rintro - (hb | ⟨-, hl⟩)
          · exact hnr hb.left_mem
          · cases hl
      · exact (h t).frame (by simp) (by simp [hne]) rfl (by simp [hne]) (by simp [hne])

theorem tracks_run {ls : List (Label τ)} {s : State τ} (h : (registration τ).Run ls s) :
    ∀ t, Tracks ls s t := by
  induction h with
  | nil => exact fun t => ⟨by simp [registration], by simp [registration], by simp [registration]⟩
  | snoc _ hs ih => exact tracks_step ih hs

/-- An entry that has been pushed and is not closed is listed. -/
lemma listed_of_open {ls : List (Label τ)} {s : State τ} (h : (registration τ).Run ls s) {t : τ}
    (hp : s.pushed t = true) (hc : s.closed t = false) : t ∈ s.listed := by
  have hinv : ∀ t, s.pushed t = true → s.closed t = false → t ∈ s.listed := by
    refine h.invariant (P := fun s => ∀ t, s.pushed t = true → s.closed t = false → t ∈ s.listed)
      (fun _ hp => Bool.noConfusion hp) fun s l s' hi hs t => ?_
    have hs' : step s l = some s' := hs
    cases l with
    | close u =>
        simp only [step, Option.some.injEq] at hs'
        subst hs'
        rcases eq_or_ne t u with rfl | hne
        · simp
        · simpa [hne] using hi t
    | arm u =>
        simp only [step, Option.ite_none_right_eq_some, Option.some.injEq] at hs'
        obtain ⟨-, rfl⟩ := hs'
        exact hi t
    | push u =>
        simp only [step, Option.ite_none_right_eq_some, Option.some.injEq] at hs'
        obtain ⟨-, rfl⟩ := hs'
        rcases eq_or_ne t u with rfl | hne
        · simp
        · simpa [hne] using hi t
    | remove u =>
        simp only [step, Option.ite_none_right_eq_some, Option.some.injEq] at hs'
        obtain ⟨⟨-, hcu⟩, rfl⟩ := hs'
        rcases eq_or_ne t u with rfl | hne
        · simp [hcu]
        · simpa [hne] using hi t
  exact hinv t hp hc

/-- An entry is closed once it has been closed. -/
lemma closed_iff_mem {ls : List (Label τ)} {s : State τ} (h : (registration τ).Run ls s) (t : τ) :
    s.closed t = true ↔ .close t ∈ ls := by
  induction h with
  | nil => simp [registration]
  | @snoc ls s s' l _ hs ih =>
      have hs' : step s l = some s' := hs
      rw [List.mem_append, List.mem_singleton, ← ih]
      cases l with
      | close u =>
          simp only [step, Option.some.injEq] at hs'
          subst hs'
          rcases eq_or_ne t u with rfl | hne
          · simp
          · simp [hne]
      | arm u | push u | remove u =>
          simp only [step, Option.ite_none_right_eq_some, Option.some.injEq] at hs'
          obtain ⟨-, rfl⟩ := hs'
          simp

/-- **Which open entries are listed depends on nobody else**: those that have been pushed and not
been closed, in whatever order the steps came. -/
theorem listed_open_iff {ls : List (Label τ)} {s : State τ} (h : (registration τ).Run ls s)
    (t : τ) : t ∈ s.listed ∧ s.closed t = false ↔ .push t ∈ ls ∧ .close t ∉ ls := by
  have hpushed := (tracks_run h t).pushed_iff
  have hclosed : s.closed t = false ↔ .close t ∉ ls := by
    rw [← closed_iff_mem h t, Bool.not_eq_true]
  constructor
  · rintro ⟨ht, hc⟩
    exact ⟨((tracks_run h t).listed_iff.mp ht).1, hclosed.mp hc⟩
  · rintro ⟨hp, hc⟩
    exact ⟨listed_of_open h (hpushed.mpr hp) (hclosed.mpr hc), hclosed.mpr hc⟩

/-- What is listed has been pushed. -/
lemma pushed_of_listed {ls : List (Label τ)} {s : State τ} (h : (registration τ).Run ls s) {t : τ}
    (ht : t ∈ s.listed) : s.pushed t = true :=
  (tracks_run h t).pushed_iff.mpr ((tracks_run h t).listed_iff.mp ht).1

/-- **An entry outlives its watcher exactly when the removal came before the push.** -/
theorem listed_iff_removed_before_pushed {ls : List (Label τ)} {s : State τ}
    (h : (registration τ).Run ls s) {t : τ} (hp : s.pushed t = true) (hd : s.watcher t = .done) :
    t ∈ s.listed ↔ Before (.remove t) (.push t) ls := by
  have ht := tracks_run h t
  rw [ht.listed_iff]
  exact ⟨fun ⟨_, hb⟩ => hb (ht.done_iff.mp hd), fun hb => ⟨ht.pushed_iff.mp hp, fun _ => hb⟩⟩

/-- The same for any system that is a registration, when one label of it pushes `t` and one
removes it. -/
theorem listed_iff_of_simulation {σ : Type u} {ℓ : Type u} {M : System σ ℓ}
    (S : Simulation M (registration τ)) {a b : ℓ} {t : τ}
    (ha : ∀ l, S.lab l = some (.remove t) ↔ l = a) (hb : ∀ l, S.lab l = some (.push t) ↔ l = b)
    {ls : List ℓ} {s : σ} (h : M.Run ls s) (hp : (S.abs s).pushed t = true)
    (hd : (S.abs s).watcher t = .done) : t ∈ (S.abs s).listed ↔ Before a b ls := by
  rw [listed_iff_removed_before_pushed (S.run h) hp hd, before_filterMap_iff ha hb]

/-- The open entries of a system that is a registration. -/
theorem listed_open_iff_of_simulation {σ : Type u} {ℓ : Type u} {M : System σ ℓ}
    (S : Simulation M (registration τ)) {ls : List ℓ} {s : σ} (h : M.Run ls s) (t : τ) :
    t ∈ (S.abs s).listed ∧ (S.abs s).closed t = false ↔
      (∃ l ∈ ls, S.lab l = some (.push t)) ∧ ¬ ∃ l ∈ ls, S.lab l = some (.close t) := by
  rw [listed_open_iff (S.run h) t, List.mem_filterMap, List.mem_filterMap]

end Registry
