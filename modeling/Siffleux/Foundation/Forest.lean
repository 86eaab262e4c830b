import Mathlib.Algebra.Order.BigOperators.Group.Finset
import Mathlib.Logic.Relation
import Siffleux.Foundation.Transition

/-!
# Tallies up a forest

Every node of a forest has a tally.  An amount added at a node is added to all of its ancestors as
well, one node at a time and the root first, while other amounts are on their way.

**The forest.**  A node is given by its parent, and by the path that leads down to it from its root.
`Forest.mem_path_iff` says that the path holds the ancestors, and `Forest.induction` is induction
from the roots down.

**What has arrived.**  `Tally.arrived` sums up what the calls have added to one node so far.
`Tally.arrived_step` follows it over a step, and `Tally.tally_run` says that it is the tally.

**Two laws.**  `Tally.arrived_of_quiet` is the tally once all calls have ended.
`Tally.arrived_children_le` holds at any time: what has arrived at the children of a node has been
at the node before.
-/

open scoped List

universe u v

/-- Nodes, each with its parent and with the path from its root. -/
structure Forest (ι : Type u) where
  parent : ι → Option ι
  path : ι → List ι
  path_eq : ∀ n, path n = (parent n).elim [] path ++ [n]

namespace Forest

variable {ι : Type u} {F : Forest ι} {m n p c c' : ι} {done : List ι}

lemma path_root (h : F.parent n = none) : F.path n = [n] := by
  rw [F.path_eq, h]
  rfl

lemma path_child (h : F.parent n = some p) : F.path n = F.path p ++ [n] := by
  rw [F.path_eq, h]
  rfl

/-- Induction from the roots down. -/
@[elab_as_elim]
theorem induction (F : Forest ι) {P : ι → Prop} (root : ∀ n, F.parent n = none → P n)
    (child : ∀ n p, F.parent n = some p → P p → P n) (n : ι) : P n := by
  generalize hk : (F.path n).length = k
  induction k using Nat.strong_induction_on generalizing n with
  | _ k ih =>
      cases hp : F.parent n with
      | none => exact root n hp
      | some p =>
          refine child n p hp (ih _ ?_ p rfl)
          rw [← hk, path_child hp, List.length_append, List.length_singleton]
          omega

lemma self_mem_path (F : Forest ι) (n : ι) : n ∈ F.path n := by
  rw [F.path_eq]
  simp

/-- The path to a node begins with the paths to all nodes on it. -/
lemma path_isPrefix (h : m ∈ F.path n) : F.path m <+: F.path n := by
  induction n using F.induction with
  | root n hn =>
      rw [path_root hn, List.mem_singleton] at h
      rw [h]
  | child n p hn ih =>
      rw [path_child hn, List.mem_append, List.mem_singleton] at h
      rcases h with h | rfl
      · rw [path_child hn]
        exact (ih h).trans (List.prefix_append ..)
      · exact List.prefix_refl _

lemma nodup_path (F : Forest ι) (n : ι) : (F.path n).Nodup := by
  induction n using F.induction with
  | root n hn => simp [path_root hn]
  | child n p hn ih =>
      have hnew : n ∉ F.path p := by
        intro hmem
        have hlen := (path_isPrefix hmem).length_le
        rw [path_child hn, List.length_append, List.length_singleton] at hlen
        omega
      rw [path_child hn]
      simp only [List.nodup_append, ih, List.nodup_singleton, true_and, List.mem_singleton]
      rintro a ha b rfl rfl
      exact hnew ha

/-- **The path to a node holds its ancestors, and the node.** -/
theorem mem_path_iff :
    m ∈ F.path n ↔ Relation.ReflTransGen (fun a b => F.parent a = some b) n m := by
  constructor
  · intro h
    induction n using F.induction with
    | root n hn =>
        rw [path_root hn, List.mem_singleton] at h
        rw [h]
    | child n p hn ih =>
        rw [path_child hn, List.mem_append, List.mem_singleton] at h
        rcases h with h | rfl
        · exact (ih h).head hn
        · exact .refl
  · intro h
    induction h using Relation.ReflTransGen.head_induction_on with
    | refl => exact F.self_mem_path m
    | head hn _ ih =>
        rw [path_child hn]
        exact List.mem_append_left _ ih

/-- Who has been on the way to a child has been at its parent. -/
lemma parent_mem_of_isPrefix (hd : done <+: F.path m) (hc : c ∈ done) (hp : F.parent c = some n) :
    n ∈ done := by
  have hpath := path_isPrefix (hd.subset hc)
  rcases List.prefix_or_prefix_of_prefix hd hpath with h | h
  · rw [path_child hp, List.prefix_concat_iff] at h
    rcases h with rfl | h
    · exact List.mem_append_left _ (F.self_mem_path n)
    · have hnodup := F.nodup_path c
      rw [path_child hp, List.nodup_append] at hnodup
      exact absurd rfl (hnodup.2.2 c (h.subset hc) c (List.mem_singleton_self c))
  · refine h.subset ?_
    rw [path_child hp]
    exact List.mem_append_left _ (F.self_mem_path n)

/-- A path passes through one child of a node at most. -/
lemma child_unique (hc : c ∈ F.path m) (hc' : c' ∈ F.path m) (hp : F.parent c = some n)
    (hp' : F.parent c' = some n) : c = c' := by
  have hlen : (F.path c).length = (F.path c').length := by
    rw [path_child hp, path_child hp', List.length_append, List.length_append]
    rfl
  have heq : F.path c = F.path c' := by
    rcases List.prefix_or_prefix_of_prefix (path_isPrefix hc) (path_isPrefix hc') with h | h
    · exact h.eq_of_length hlen
    · exact (h.eq_of_length hlen.symm).symm
  rw [path_child hp, path_child hp'] at heq
  simpa using heq

/-- **The children of a node get no more of an amount than the node has got.** -/
lemma sum_children_le [DecidableEq ι] {kids : Finset ι} (hk : ∀ c ∈ kids, F.parent c = some n)
    (hd : done <+: F.path m) (b : ℕ) :
    ∑ c ∈ kids, (if c ∈ done then b else 0) ≤ if n ∈ done then b else 0 := by
  by_cases h : ∃ c ∈ kids, c ∈ done
  · obtain ⟨c, hc, hcd⟩ := h
    have hone : ∀ c' ∈ kids, c' ≠ c → (if c' ∈ done then b else 0) = 0 := by
      intro c' hc' hne
      refine if_neg fun hcd' => hne ?_
      exact child_unique (hd.subset hcd') (hd.subset hcd) (hk c' hc') (hk c hc)
    rw [Finset.sum_eq_single_of_mem c hc hone, if_pos hcd,
      if_pos (parent_mem_of_isPrefix hd hcd (hk c hc))]
  · push Not at h
    rw [Finset.sum_eq_zero fun c hc => if_neg (h c hc)]
    exact Nat.zero_le _

end Forest

/-! ## Tallies -/

/-- An amount on its way: where it was added, and the nodes it has still to reach. -/
structure Tally.Call (ι M : Type u) where
  node : ι
  amount : M
  left : List ι
  deriving DecidableEq

/-- The tallies of all nodes, and the calls made so far. -/
structure Tally (ι M : Type u) where
  tally : ι → M
  calls : List (Tally.Call ι M)

namespace Tally

open Transition

/-- `add` makes a call, `step` lets one reach the next of its nodes. -/
inductive Label (ι M : Type u) where
  | add (n : ι) (b : M)
  | step (i : ℕ)
  deriving DecidableEq

/-- The call that a label makes. -/
def Label.call {ι M : Type u} : Label ι M → Option (ι × M)
  | .add n b => some (n, b)
  | .step _ => none

variable {ι M : Type u} {N : Type v} [DecidableEq ι] [AddCommMonoid M] [AddCommMonoid N]

def new (ι M : Type u) [AddCommMonoid M] : Tally ι M := ⟨fun _ => 0, []⟩

def step (F : Forest ι) (s : Tally ι M) : Label ι M → Option (Tally ι M)
  | .add n b => some { s with calls := s.calls ++ [⟨n, b, F.path n⟩] }
  | .step i =>
      match s.calls[i]? with
      | some ⟨n, b, m :: left⟩ => some {
          tally := Function.update s.tally m (s.tally m + b)
          calls := s.calls.set i ⟨n, b, left⟩ }
      | _ => none

def system (F : Forest ι) (M : Type u) [AddCommMonoid M] : System (Tally ι M) (Label ι M) :=
  ⟨new ι M, step F⟩

variable {F : Forest ι} {s s' : Tally ι M} {l : Label ι M} {ls : List (Label ι M)} {n : ι}

/-- What a step does. -/
inductive Step (F : Forest ι) (s : Tally ι M) : Label ι M → Tally ι M → Prop
  | added {n : ι} {b : M} : Step F s (.add n b) { s with calls := s.calls ++ [⟨n, b, F.path n⟩] }
  | reached {i : ℕ} {n m : ι} {b : M} {left : List ι} (hi : s.calls[i]? = some ⟨n, b, m :: left⟩) :
      Step F s (.step i) ⟨Function.update s.tally m (s.tally m + b), s.calls.set i ⟨n, b, left⟩⟩

theorem step_cases (hs : step F s l = some s') : Step F s l s' := by
  cases l with
  | add n b =>
      rw [← Option.some.inj hs]
      exact .added
  | step i =>
      simp only [step] at hs
      split at hs
      · rw [← Option.some.inj hs]
        exact .reached ‹_›
      · cases hs

/-- The node that a step adds to, and the amount. -/
def reaches (s : Tally ι M) : Label ι M → Option (ι × M)
  | .add _ _ => none
  | .step i =>
      match s.calls[i]? with
      | some ⟨_, b, m :: _⟩ => some (m, b)
      | _ => none

/-- What the tally of `n` gains by a step, as measured by `f`. -/
def gain (f : M → N) (n : ι) (s : Tally ι M) (l : Label ι M) : N :=
  match s.reaches l with
  | some (m, b) => if m = n then f b else 0
  | none => 0

/-- A call has been where it need not go any more. -/
def Call.HasReached (F : Forest ι) (n : ι) (k : Call ι M) : Prop := n ∈ F.path k.node ∧ n ∉ k.left

instance (F : Forest ι) (n : ι) (k : Call ι M) : Decidable (k.HasReached F n) :=
  inferInstanceAs (Decidable (_ ∧ _))

/-- All that the calls have added to `n`, as measured by `f`. -/
def arrived (F : Forest ι) (f : M → N) (n : ι) (s : Tally ι M) : N :=
  (s.calls.map fun k => if k.HasReached F n then f k.amount else 0).sum

/-! ### Where the calls are -/

/-- What is left of a call's way is the end of it. -/
def OnTheWay (F : Forest ι) (s : Tally ι M) : Prop := ∀ k ∈ s.calls, k.left <:+ F.path k.node

theorem onTheWay_run (h : (system F M).Run ls s) : s.OnTheWay F := by
  induction h with
  | nil => simp [OnTheWay, system, new]
  | @snoc ls s s' l _ hs ih =>
      intro k hk
      cases step_cases hs with
      | added =>
          rw [List.mem_append, List.mem_singleton] at hk
          rcases hk with hk | rfl
          · exact ih k hk
          · exact List.suffix_refl _
      | reached hi =>
          rcases List.mem_or_eq_of_mem_set hk with hk | rfl
          · exact ih k hk
          · exact (List.suffix_cons ..).trans (ih _ (List.mem_of_getElem? hi))

/-- The calls are those of the schedule, in its order. -/
theorem calls_run (h : (system F M).Run ls s) :
    s.calls.map (fun k => (k.node, k.amount)) = ls.filterMap Label.call := by
  induction h with
  | nil => rfl
  | @snoc ls s s' l _ hs ih =>
      rw [List.filterMap_append, ← ih]
      cases step_cases hs with
      | added => simp [Label.call]
      | @reached i n m b left hi =>
          obtain ⟨hlt, hi⟩ := List.getElem?_eq_some_iff.mp hi
          have hlt' : i < (s.calls.map fun k => (k.node, k.amount)).length := by
            simpa using hlt
          have hsame : (n, b) = (s.calls.map fun k => (k.node, k.amount))[i] := by
            rw [List.getElem_map, hi]
          rw [List.map_set, hsame, List.set_getElem_self]
          simp [Label.call]

/-! ### What has arrived -/

/-- One entry of a sum that grows by `d`. -/
lemma sum_map_set {α : Type*} {f : α → N} {a a' : α} {d : N} (hf : f a' = f a + d) :
    ∀ (ks : List α) (i : ℕ), ks[i]? = some a →
      ((ks.set i a').map f).sum = (ks.map f).sum + d := by
  intro ks
  induction ks with
  | nil => simp
  | cons k ks ih =>
      intro i hi
      cases i with
      | zero =>
          simp only [List.getElem?_cons_zero, Option.some.injEq] at hi
          simp only [List.set_cons_zero, List.map_cons, List.sum_cons, hf, hi]
          exact add_right_comm ..
      | succ i =>
          simp only [List.set_cons_succ, List.map_cons, List.sum_cons, ih i (by simpa using hi),
            add_assoc]

lemma tally_step (hs : step F s l = some s') : s'.tally n = s.tally n + s.gain id n l := by
  cases step_cases hs with
  | added => simp [gain, reaches]
  | @reached i _ m b left hi =>
      simp only [gain, reaches, hi, Function.update_apply, id]
      split_ifs with h h' h'
      · rw [h]
      · exact absurd h.symm h'
      · exact absurd h'.symm h
      · rw [add_zero]

/-- **What has arrived at a node grows by what its tally gains.** -/
theorem arrived_step (f : M → N) (ho : s.OnTheWay F) (hs : step F s l = some s') :
    s'.arrived F f n = s.arrived F f n + s.gain f n l := by
  cases step_cases hs with
  | added => simp [arrived, gain, reaches, Call.HasReached]
  | @reached i v m b left hi =>
      have hsuffix := ho _ (List.mem_of_getElem? hi)
      have hnodup : (m :: left).Nodup := (F.nodup_path v).sublist hsuffix.sublist
      have hm : m ∈ F.path v := hsuffix.subset List.mem_cons_self
      refine sum_map_set ?_ s.calls i hi
      simp only [gain, reaches, hi]
      by_cases hmn : m = n
      · subst hmn
        simp [Call.HasReached, hm, (List.nodup_cons.mp hnodup).1]
      · have hsame : Call.HasReached F n ⟨v, b, left⟩ ↔
            Call.HasReached F n ⟨v, b, m :: left⟩ := by
          simp [Call.HasReached, Ne.symm hmn]
        rw [if_congr hsame rfl rfl, if_neg hmn, add_zero]

/-- **The tally of a node is what has arrived there.** -/
theorem tally_run (h : (system F M).Run ls s) : s.tally n = s.arrived F id n := by
  induction h with
  | nil => rfl
  | @snoc ls s s' l hr hs ih =>
      rw [tally_step hs, arrived_step id (onTheWay_run hr) hs, ih]

/-- The same as measured by `f`, if `f` has kept to the sum at every step. -/
theorem tally_runWithin {f : M → N} (h0 : f 0 = 0)
    (h : (system F M).RunWithin
      (fun s l => f (s.tally n + s.gain id n l) = f (s.tally n) + s.gain f n l) ls s) :
    f (s.tally n) = s.arrived F f n := by
  induction h with
  | nil => exact h0
  | @snoc ls s s' l hr hok hs ih =>
      rw [tally_step hs, hok, ih, arrived_step f (onTheWay_run hr.run) hs]

omit [AddCommMonoid M] in
lemma map_arrived {f : M → N} {N' : Type v} [AddCommMonoid N'] (φ : N →+ N') :
    φ (s.arrived F f n) = s.arrived F (φ ∘ f) n := by
  rw [arrived, arrived, map_list_sum, List.map_map]
  refine congrArg List.sum (List.map_congr_left fun k _ => ?_)
  simp only [Function.comp_apply]
  split_ifs <;> simp

/-- **A call that nothing comes between** adds to one of its nodes after the other. -/
theorem exec_steps {i : ℕ} {v : ι} {b : M} : ∀ (left : List ι) (s : Tally ι M),
    s.calls[i]? = some ⟨v, b, left⟩ →
      (system F M).exec s (List.replicate left.length (.step i)) =
        some ⟨left.foldl (fun t m => Function.update t m (t m + b)) s.tally,
          s.calls.set i ⟨v, b, []⟩⟩ := by
  intro left
  induction left with
  | nil =>
      intro s hi
      obtain ⟨hlt, hi⟩ := List.getElem?_eq_some_iff.mp hi
      rw [← hi, List.set_getElem_self]
      rfl
  | cons m left ih =>
      intro s hi
      have hlt := (List.getElem?_eq_some_iff.mp hi).1
      have hs : (system F M).step s (.step i) = some ⟨Function.update s.tally m (s.tally m + b),
          s.calls.set i ⟨v, b, left⟩⟩ := by
        simp only [system, step, hi]
      rw [List.length_cons, List.replicate_succ, System.exec_cons hs, ih _ (by simp [hlt])]
      simp

/-! ### The two laws -/

/-- Every call has reached the last of its nodes. -/
def Quiet (s : Tally ι M) : Prop := ∀ k ∈ s.calls, k.left = []

instance (s : Tally ι M) : Decidable s.Quiet :=
  inferInstanceAs (Decidable (∀ k ∈ s.calls, k.left = []))

/-- **Once all calls have ended, a node has what was added at it or below it.** -/
theorem arrived_of_quiet (f : M → N) (h : (system F M).Run ls s) (hq : s.Quiet) :
    s.arrived F f n =
      ((ls.filterMap Label.call).map fun k => if n ∈ F.path k.1 then f k.2 else 0).sum := by
  rw [← calls_run h, List.map_map]
  refine congrArg List.sum (List.map_congr_left fun k hk => ?_)
  simp [Call.HasReached, hq k hk]

omit [AddCommMonoid M] in
/-- A call reaches one child of a node at most, and the node before. -/
lemma Call.sum_children_le {k : Call ι M} (hk : k.left <:+ F.path k.node) {kids : Finset ι}
    (hp : ∀ c ∈ kids, F.parent c = some n) (b : ℕ) :
    ∑ c ∈ kids, (if k.HasReached F c then b else 0) ≤ if k.HasReached F n then b else 0 := by
  obtain ⟨done, hd⟩ := hk
  have hreached : ∀ m, k.HasReached F m ↔ m ∈ done := by
    intro m
    have hnodup := F.nodup_path k.node
    rw [← hd, List.nodup_append] at hnodup
    rw [Call.HasReached, ← hd, List.mem_append]
    refine ⟨fun h => h.1.resolve_right h.2, fun h => ⟨Or.inl h, fun hl => ?_⟩⟩
    exact hnodup.2.2 m h m hl rfl
  simp only [hreached]
  exact Forest.sum_children_le hp ⟨k.left, hd⟩ b

omit [AddCommMonoid M] in
/-- **What has arrived at the children of a node has been at the node.** -/
theorem arrived_children_le (f : M → ℕ) (ho : s.OnTheWay F) {kids : Finset ι}
    (hp : ∀ c ∈ kids, F.parent c = some n) :
    ∑ c ∈ kids, s.arrived F f c ≤ s.arrived F f n := by
  obtain ⟨tally, calls⟩ := s
  simp only [arrived]
  induction calls with
  | nil => simp
  | cons k ks ih =>
      have hkids := Call.sum_children_le (ho k List.mem_cons_self) hp (f k.amount)
      have hrest := ih fun k' hk' => ho k' (List.mem_cons_of_mem _ hk')
      simp only [List.map_cons, List.sum_cons, Finset.sum_add_distrib]
      exact Nat.add_le_add hkids hrest

end Tally
