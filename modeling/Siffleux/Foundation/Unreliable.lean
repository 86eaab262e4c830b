import Mathlib.Data.List.Dedup
import Mathlib.Data.List.Perm.Subperm
import Mathlib.Tactic.Common

/-!
# An unreliable medium

What is put into the medium may get lost or overtake what was put in before it.  It is not changed,
and it comes out at most once.  `Conserves` says so of what was sent, what has arrived and what is
under way, all up to order.

Where a sender spreads what it has over several media, its log says for every message which one it
took.  `ofKey` is the part of the log for one of them, and `flatMap_ofKey_perm` puts the parts
together again.
-/

namespace Unreliable

open scoped List

universe u v w

variable {α : Type u} {β : Type v} {κ : Type w} {sent arrived underWay : List α} {x : α}

/-- All that has arrived or is under way was sent, and none of it more often than it was sent. -/
def Conserves (sent arrived underWay : List α) : Prop := arrived ++ underWay <+~ sent

lemma conserves_nil : Conserves ([] : List α) [] [] := List.Subperm.refl _

lemma Conserves.send (h : Conserves sent arrived underWay) (xs : List α) :
    Conserves (sent ++ xs) arrived (underWay ++ xs) := by
  rw [Conserves, ← List.append_assoc]
  exact h.append (List.Subperm.refl xs)

lemma Conserves.lose [BEq α] (h : Conserves sent arrived underWay) (x : α) :
    Conserves sent arrived (underWay.erase x) :=
  ((List.subperm_append_left arrived).mpr List.erase_sublist.subperm).trans h

lemma Conserves.arrive [BEq α] [LawfulBEq α] (h : Conserves sent arrived underWay)
    (hx : x ∈ underWay) :
    Conserves sent (arrived ++ [x]) (underWay.erase x) := by
  have hperm : arrived ++ [x] ++ underWay.erase x ~ arrived ++ underWay := by
    rw [List.append_assoc]
    exact (List.perm_cons_erase hx).symm.append_left arrived
  exact hperm.subperm.trans h

lemma Conserves.mem (h : Conserves sent arrived underWay) (hx : x ∈ arrived ∨ x ∈ underWay) :
    x ∈ sent := h.subset (List.mem_append.mpr hx)

/-- What has arrived does not look at what is still under way. -/
lemma Conserves.arrived_subperm (h : Conserves sent arrived underWay) : arrived <+~ sent :=
  (List.sublist_append_left ..).subperm.trans h

lemma subperm_filterMap (f : α → Option β) {l l' : List α} (h : l <+~ l') :
    l.filterMap f <+~ l'.filterMap f := by
  obtain ⟨m, hm, hsub⟩ := h
  exact (hm.filterMap f).symm.subperm.trans (hsub.filterMap f).subperm

lemma flatMap_subperm_flatMap {f g : κ → List α} :
    ∀ {ks : List κ}, (∀ k ∈ ks, f k <+~ g k) → ks.flatMap f <+~ ks.flatMap g
  | [], _ => List.Subperm.refl []
  | k :: ks, h => by
      rw [List.flatMap_cons, List.flatMap_cons]
      exact (h k List.mem_cons_self).append
        (flatMap_subperm_flatMap fun j hj => h j (List.mem_cons_of_mem k hj))

/-! ## Several media -/

variable [DecidableEq κ]

/-- What the log has for one of them. -/
def ofKey (k : κ) (log : List (κ × α)) : List α :=
  log.filterMap fun e => if e.1 = k then some e.2 else none

@[simp] lemma ofKey_nil (k : κ) : ofKey k ([] : List (κ × α)) = [] := rfl

lemma ofKey_cons (k : κ) (e : κ × α) (log : List (κ × α)) :
    ofKey k (e :: log) = if e.1 = k then e.2 :: ofKey k log else ofKey k log := by
  rw [ofKey, List.filterMap_cons]
  split_ifs <;> rfl

lemma mem_ofKey {k : κ} {log : List (κ × α)} : x ∈ ofKey k log ↔ (k, x) ∈ log := by
  rw [ofKey, List.mem_filterMap]
  constructor
  · rintro ⟨⟨j, y⟩, hmem, he⟩
    split_ifs at he with hj
    obtain rfl : j = k := hj
    rw [← Option.some.inj he]
    exact hmem
  · exact fun hmem => ⟨(k, x), hmem, if_pos rfl⟩

@[simp] lemma ofKey_append (k : κ) (log log' : List (κ × α)) :
    ofKey k (log ++ log') = ofKey k log ++ ofKey k log' := List.filterMap_append ..

/-- One more for one of them. -/
lemma flatMap_insert {k₀ : κ} {f : κ → List α} :
    ∀ {ks : List κ}, ks.Nodup → k₀ ∈ ks →
      ks.flatMap (fun k => if k₀ = k then x :: f k else f k) ~ x :: ks.flatMap f
  | k :: ks, hnd, hmem => by
      rw [List.flatMap_cons, List.flatMap_cons]
      obtain ⟨hk, hnd'⟩ := List.nodup_cons.mp hnd
      rcases eq_or_ne k₀ k with rfl | hne
      · rw [if_pos rfl, List.cons_append]
        refine List.Perm.cons x (List.Perm.append_left _ (List.Perm.of_eq ?_))
        refine List.flatMap_congr fun j hj => if_neg ?_
        rintro rfl
        exact hk hj
      · rw [if_neg hne]
        have hrest := flatMap_insert (f := f) hnd' (List.mem_of_ne_of_mem hne hmem)
        exact (hrest.append_left (f k)).trans List.perm_middle

/-- **The parts of a log make up the log**, if none is missing and none is counted twice. -/
theorem flatMap_ofKey_perm {ks : List κ} (hnd : ks.Nodup) {log : List (κ × α)}
    (hall : ∀ e ∈ log, e.1 ∈ ks) : (ks.flatMap fun k => ofKey k log) ~ log.map Prod.snd := by
  induction log with
  | nil => simp
  | cons e log ih =>
      simp only [ofKey_cons, List.map_cons]
      refine (flatMap_insert hnd (hall e List.mem_cons_self)).trans (List.Perm.cons _ ?_)
      exact ih fun d hd => hall d (List.mem_cons_of_mem e hd)

/-- Some of the parts make up no more than the log. -/
theorem flatMap_ofKey_subperm {ks : List κ} (hnd : ks.Nodup) (log : List (κ × α)) :
    (ks.flatMap fun k => ofKey k log) <+~ log.map Prod.snd := by
  let others := ((log.map Prod.fst).filter fun k => k ∉ ks).dedup
  have hnd' : (ks ++ others).Nodup := by
    refine List.nodup_append'.mpr ⟨hnd, List.nodup_dedup _, fun k hk hk' => ?_⟩
    have := (List.mem_filter.mp (List.mem_dedup.mp hk')).2
    simp [hk] at this
  have hall : ∀ e ∈ log, e.1 ∈ ks ++ others := by
    intro e he
    by_cases hk : e.1 ∈ ks
    · exact List.mem_append_left _ hk
    · refine List.mem_append_right _
        (List.mem_dedup.mpr (List.mem_filter.mpr ⟨?_, by simpa using hk⟩))
      exact List.mem_map_of_mem he
  refine List.Subperm.trans (List.Sublist.subperm ?_) (flatMap_ofKey_perm hnd' hall).subperm
  rw [List.flatMap_append]
  exact List.sublist_append_left ..

/-- The parts that are not empty. -/
theorem exists_flatMap_ofKey (log : List (κ × α)) :
    ∃ ks : List κ, ks.Nodup ∧ log.map Prod.snd ~ ks.flatMap fun k => ofKey k log :=
  ⟨(log.map Prod.fst).dedup, List.nodup_dedup _, (flatMap_ofKey_perm (List.nodup_dedup _)
    fun _ he => List.mem_dedup.mpr (List.mem_map_of_mem he)).symm⟩

end Unreliable
