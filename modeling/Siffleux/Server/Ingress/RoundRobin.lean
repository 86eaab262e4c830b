import Siffleux.Foundation.Rotation
import Siffleux.Server.Ingress.LoadBalancing

/-!
# How evenly tunnels are selected

`get_tunnel_to_connect` holds a read guard of the list from beginning to end, and read guards do not
exclude one another.  So while the list stays as it is, any number of calls can be at work, and what
one does to the others is its `fetch_add`.

* `Selection` — the calls as a transition system over a fixed list.
* `exec_getTunnelToConnect` — the selection as one step of an ingress is one of its schedules.
* `handed_run` — the values that calls are given are those of the counter, each once.
* `round_robin_balanced` — the tunnels are selected equally often, up to one, or to two if the
  counter wraps around.
-/

namespace Siffleux

open ByteBuf Transition

/-- Calls of `get_tunnel_to_connect` over a list that does not change: the counter, the values of it
that calls at work were given, and the results of those that have ended. -/
structure Selection (τ : Type) (w : ℕ) where
  tunnelRotation : BitVec w
  inFlight : List (BitVec w)
  results : List (Outcome (Option τ))

namespace Selection

variable {τ : Type} {w : ℕ}

inductive Label (w : ℕ) where
  | call
  | index (rotation : BitVec w)
  deriving DecidableEq

/-- `tunnels[i].clone()`. -/
def lookUp (tunnels : List τ) (i : ℕ) : Outcome (Option τ) :=
  match tunnels[i]? with
  | some t => .ret (some t)
  | none => .panic

/-- `call` is a call up to its `fetch_add`, which only a list of two or more gets to. -/
def step (tunnels : List τ) (s : Selection τ w) : Label w → Option (Selection τ w)
  | .call =>
      if tunnels.length = 0 then some { s with results := s.results ++ [.ret none] }
      else if tunnels.length = 1 then some { s with results := s.results ++ [lookUp tunnels 0] }
      else some { s with
        tunnelRotation := s.tunnelRotation + 1
        inFlight := s.tunnelRotation :: s.inFlight }
  | .index rotation =>
      if rotation ∈ s.inFlight then some { s with
        inFlight := s.inFlight.erase rotation
        results := s.results ++ [lookUp tunnels (rotation.toNat % tunnels.length)] }
      else none

/-- The counter starts at `c`. -/
def system (tunnels : List τ) (c : BitVec w) : System (Selection τ w) (Label w) :=
  ⟨⟨c, [], []⟩, step tunnels⟩

/-- The calls a schedule makes. -/
def calls (ls : List (Label w)) : ℕ := ls.count .call

/-- How many calls have returned `t`. -/
def chosen [DecidableEq τ] (s : Selection τ w) (t : τ) : ℕ := s.results.count (.ret (some t))

lemma lookUp_eq {tunnels : List τ} {i : ℕ} (hi : i < tunnels.length) :
    lookUp tunnels i = .ret (some tunnels[i]) := by
  rw [lookUp, List.getElem?_eq_getElem hi]

/-- **The ingresses' own selection is a schedule of one call.** -/
theorem exec_getTunnelToConnect (list : TunnelList τ w) (c : BitVec w) (vs : List (BitVec w))
    (results : List (Outcome (Option τ))) : ∃ ls picked r,
      list.getTunnelToConnect = .ret (picked, { list with tunnelRotation := r }) ∧ calls ls = 1 ∧
      (system list.tunnels c).exec ⟨list.tunnelRotation, vs, results⟩ ls =
        some ⟨r, vs, results ++ [.ret picked]⟩ := by
  obtain ⟨tunnels, rotation, assign, watcher⟩ := list
  rcases tunnels with _ | ⟨t, _ | ⟨u, rest⟩⟩
  · exact ⟨[.call], none, rotation, rfl, rfl, rfl⟩
  · exact ⟨[.call], some t, rotation, rfl, rfl, rfl⟩
  · have hlt : rotation.toNat % (t :: u :: rest).length < (t :: u :: rest).length :=
      Nat.mod_lt _ (by simp)
    have hzero : ¬ (t :: u :: rest).length = 0 := by simp
    have hone : ¬ (t :: u :: rest).length = 1 := by simp
    refine ⟨[.call, .index rotation],
      some (t :: u :: rest)[rotation.toNat % (t :: u :: rest).length], rotation + 1, ?_, rfl, ?_⟩
    · simp only [TunnelList.getTunnelToConnect, if_neg hzero, if_neg hone,
        List.getElem?_eq_getElem hlt]
    · simp only [system, System.exec, step, if_neg hzero, if_neg hone, Option.bind_some,
        List.mem_cons_self, if_true, List.erase_cons_head, lookUp_eq hlt]

/-! ## The values that calls are given -/

variable {tunnels : List τ} {c : BitVec w} {ls : List (Label w)} {s s' : Selection τ w}
  {l : Label w}

/-- The first `k` values of the counter. -/
def values (c : BitVec w) (k : ℕ) : List (BitVec w) :=
  (List.range k).map fun j => c + BitVec.ofNat w j

lemma values_succ (c : BitVec w) (k : ℕ) :
    values c (k + 1) = values c k ++ [c + BitVec.ofNat w k] := by
  rw [values, List.range_succ, List.map_append]
  rfl

lemma calls_concat (ls : List (Label w)) (l : Label w) :
    calls (ls ++ [l]) = calls ls + if l = .call then 1 else 0 := by
  rw [calls, List.count_append, List.count_singleton]
  simp [calls]

/-- What the calls have been given: each the next value of the counter, and those that have
returned have looked it up. -/
structure Handed (tunnels : List τ) (c : BitVec w) (k : ℕ) (s : Selection τ w)
    (done : List (BitVec w)) : Prop where
  rotation : s.tunnelRotation = c + BitVec.ofNat w k
  results : s.results = done.map fun v => lookUp tunnels (v.toNat % tunnels.length)
  values : (done ++ s.inFlight).Perm (values c k)

/-- Over two tunnels or more. -/
theorem handed_run (hlen : 2 ≤ tunnels.length) (h : (system tunnels c).Run ls s) :
    ∃ done, Handed tunnels c (calls ls) s done := by
  induction h with
  | nil => exact ⟨[], (BitVec.add_zero c).symm, rfl, List.Perm.refl _⟩
  | @snoc ls s s' l _ hs ih =>
      obtain ⟨done, hd⟩ := ih
      have hs' : step tunnels s l = some s' := hs
      rw [calls_concat]
      cases l with
      | call =>
          simp only [step, if_neg (show ¬ tunnels.length = 0 by omega),
            if_neg (show ¬ tunnels.length = 1 by omega), Option.some.injEq] at hs'
          subst hs'
          rw [if_pos rfl]
          refine ⟨done, ?_, hd.results, ?_⟩
          · show s.tunnelRotation + 1 = _
            rw [hd.rotation, BitVec.add_assoc, BitVec.ofNat_add]
            rfl
          · show (done ++ s.tunnelRotation :: s.inFlight).Perm _
            rw [values_succ, ← hd.rotation]
            exact List.perm_middle.trans ((hd.values.cons _).trans
              (List.perm_append_singleton _ _).symm)
      | index v =>
          simp only [step, Option.ite_none_right_eq_some, Option.some.injEq] at hs'
          obtain ⟨hv, rfl⟩ := hs'
          rw [if_neg (by simp), Nat.add_zero]
          refine ⟨done ++ [v], hd.rotation, ?_, ?_⟩
          · show s.results ++ _ = _
            rw [hd.results, List.map_append]
            rfl
          · show (done ++ [v] ++ s.inFlight.erase v).Perm _
            rw [List.append_assoc]
            exact ((List.perm_cons_erase hv).symm.append_left done).trans hd.values

/-- A single tunnel is returned at once, and the counter stays. -/
theorem single_run {t : τ} (h : (system [t] c).Run ls s) :
    s.inFlight = [] ∧ s.results = List.replicate (calls ls) (.ret (some t)) := by
  induction h with
  | nil => exact ⟨rfl, rfl⟩
  | @snoc ls s s' l _ hs ih =>
      obtain ⟨hfl, hres⟩ := ih
      have hs' : step [t] s l = some s' := hs
      rw [calls_concat]
      cases l with
      | call =>
          simp only [step, List.length_singleton, Nat.one_ne_zero, if_false, if_true,
            Option.some.injEq] at hs'
          subst hs'
          rw [if_pos rfl]
          refine ⟨hfl, ?_⟩
          show s.results ++ [lookUp [t] 0] = _
          rw [hres, List.replicate_succ']
          rfl
      | index v =>
          simp only [step, hfl, List.not_mem_nil, if_false, reduceCtorEq] at hs'

/-! ## The balance -/

/-- What is asked of a run: no call fails or comes back without a tunnel, one at work can return at
any time, none is lost, and two tunnels have been selected equally often, up to one, or to two if
the counter has wrapped around. -/
structure RoundRobin [DecidableEq τ] (tunnels : List τ) (c : BitVec w) (ls : List (Label w))
    (s : Selection τ w) : Prop where
  returned : ∀ r ∈ s.results, ∃ t ∈ tunnels, r = .ret (some t)
  returns : ∀ v ∈ s.inFlight, ∃ t ∈ tunnels, ∃ s', step tunnels s (.index v) = some s' ∧
    s'.results = s.results ++ [.ret (some t)]
  all : s.results.length + s.inFlight.length = calls ls
  balanced : s.inFlight = [] → calls ls ≤ 2 ^ w → ∀ t ∈ tunnels, ∀ t' ∈ tunnels,
    s.chosen t ≤ s.chosen t' + if c.toNat + calls ls ≤ 2 ^ w then 1 else 2

lemma lookUp_mem (hpos : 0 < tunnels.length) (v : BitVec w) :
    ∃ t ∈ tunnels, lookUp tunnels (v.toNat % tunnels.length) = .ret (some t) := by
  have hlt : v.toNat % tunnels.length < tunnels.length := Nat.mod_lt _ hpos
  exact ⟨_, List.getElem_mem hlt, lookUp_eq hlt⟩

/-- In a list without repetition a tunnel has one place. -/
lemma lookUp_eq_iff (hnodup : tunnels.Nodup) {r i : ℕ} (hr : r < tunnels.length)
    (hi : i < tunnels.length) : lookUp tunnels i = .ret (some tunnels[r]) ↔ i = r := by
  rw [lookUp_eq hi]
  simp only [Outcome.ret.injEq, Option.some.injEq]
  exact hnodup.getElem_inj_iff

/-- **The selections of a tunnel are the values of the counter that fall on its place.** -/
lemma Handed.chosen_eq [DecidableEq τ] {k : ℕ} {done : List (BitVec w)}
    (h : Handed tunnels c k s done) (hfl : s.inFlight = []) (hnodup : tunnels.Nodup) {r : ℕ}
    (hr : r < tunnels.length) :
    s.chosen tunnels[r] = Rotation.wrappedHits (2 ^ w) tunnels.length r c.toNat k := by
  have hperm := h.values
  rw [hfl, List.append_nil] at hperm
  rw [chosen, h.results, List.count, List.countP_map, hperm.countP_eq, Selection.values,
    List.countP_map]
  refine List.countP_congr fun j _ => ?_
  have hlt : (c + BitVec.ofNat w j).toNat % tunnels.length < tunnels.length :=
    Nat.mod_lt _ (Nat.zero_lt_of_lt hr)
  simp only [Function.comp_apply, beq_iff_eq, decide_eq_true_eq]
  rw [lookUp_eq_iff hnodup hr hlt, BitVec.toNat_add, BitVec.toNat_ofNat, Nat.add_mod_mod]

theorem roundRobin [DecidableEq τ] (hne : tunnels ≠ []) (hnodup : tunnels.Nodup)
    (h : (system tunnels c).Run ls s) : RoundRobin tunnels c ls s := by
  have hpos : 0 < tunnels.length := List.length_pos_iff.mpr hne
  rcases Nat.lt_or_ge 1 tunnels.length with hlen | hlen
  · obtain ⟨done, hd⟩ := handed_run hlen h
    refine ⟨fun r hr => ?_, fun v hv => ?_, ?_, fun hfl hk t ht t' ht' => ?_⟩
    · rw [hd.results, List.mem_map] at hr
      obtain ⟨v, -, rfl⟩ := hr
      exact lookUp_mem hpos v
    · obtain ⟨t, ht, hlook⟩ := lookUp_mem hpos v
      refine ⟨t, ht, _, if_pos hv, ?_⟩
      rw [hlook]
    · have hlength := hd.values.length_eq
      simp only [List.length_append, values, List.length_map, List.length_range] at hlength
      rw [hd.results, List.length_map, hlength]
    · obtain ⟨r, hr, rfl⟩ := List.getElem_of_mem ht
      obtain ⟨r', hr', rfl⟩ := List.getElem_of_mem ht'
      rw [hd.chosen_eq hfl hnodup hr, hd.chosen_eq hfl hnodup hr']
      exact Rotation.wrappedHits_balanced hr hr' (Nat.le_of_lt c.isLt) hk
  · obtain ⟨t, rfl⟩ := List.length_eq_one_iff.mp (Nat.le_antisymm hlen hpos)
    obtain ⟨hfl, hres⟩ := single_run h
    refine ⟨fun r hr => ?_, fun v hv => ?_, ?_, fun _ _ u hu u' hu' => ?_⟩
    · rw [hres] at hr
      exact ⟨t, List.mem_singleton_self t, List.eq_of_mem_replicate hr⟩
    · rw [hfl] at hv
      cases hv
    · rw [hfl, hres, List.length_replicate]
      rfl
    · rw [List.mem_singleton.mp hu, List.mem_singleton.mp hu']
      exact Nat.le_add_right ..

end Selection

/-- **Selection is balanced.**  Over any list of different tunnels and from any value of the
counter, calls of `get_tunnel_to_connect`, however they overlap, all return tunnels of the list, and
no more than `2 ^ w` of them select any two tunnels equally often, up to one, or to two if the
counter wraps around.  The lists of both ingresses are such lists, in every run, and their selection
is such a call. -/
theorem round_robin_balanced {τ : Type} [DecidableEq τ] {w : ℕ} :
    (∀ (tunnels : List τ) (c : BitVec w), tunnels ≠ [] → tunnels.Nodup → ∀ ls s,
      (Selection.system tunnels c).Run ls s → Selection.RoundRobin tunnels c ls s) ∧
    (∀ ms (i : TcpIngress τ w), (TcpIngress.system τ w).Run ms i → i.list.tunnels ≠ [] →
      ∀ (c : BitVec w) ls s, (Selection.system i.list.tunnels c).Run ls s →
        Selection.RoundRobin i.list.tunnels c ls s) ∧
    (∀ ms (i : UdpIngress τ w), (UdpIngress.system τ w).Run ms i → i.list.tunnels ≠ [] →
      ∀ (c : BitVec w) ls s, (Selection.system i.list.tunnels c).Run ls s →
        Selection.RoundRobin i.list.tunnels c ls s) ∧
    (∀ (list : TunnelList τ w) (c : BitVec w) (vs : List (BitVec w))
      (results : List (Outcome (Option τ))), ∃ ls picked r,
        list.getTunnelToConnect = .ret (picked, { list with tunnelRotation := r }) ∧
        Selection.calls ls = 1 ∧
        (Selection.system list.tunnels c).exec ⟨list.tunnelRotation, vs, results⟩ ls =
          some ⟨r, vs, results ++ [.ret picked]⟩) := by
  refine ⟨fun tunnels c hne hnodup ls s h => Selection.roundRobin hne hnodup h,
    fun ms i hi hne c ls s h => Selection.roundRobin hne ?_ h,
    fun ms i hi hne c ls s h => Selection.roundRobin hne ?_ h, Selection.exec_getTunnelToConnect⟩
  · exact (TcpIngress.registeredOnce hi).nodup
  · exact (UdpIngress.registeredOnce hi).nodup

/-- Five calls over three tunnels, with a counter of three bits that starts at 6: they fall on the
places 0, 1, 0, 1, 2. -/
def fiveCalls : List (Selection.Label 3) :=
  [.call, .call, .index 7, .call, .index 6, .index 0, .call, .call, .index 2, .index 1]

theorem round_robin_balanced_wrapped :
    ∃ s, (Selection.system [7, 8, 9] (6 : BitVec 3)).Run fiveCalls s ∧
      s.chosen 7 = 2 ∧ s.chosen 9 = 1 ∧ Selection.RoundRobin [7, 8, 9] 6 fiveCalls s := by
  have h : (Selection.system [7, 8, 9] (6 : BitVec 3)).Run fiveCalls _ := System.run_of_exec rfl
  exact ⟨_, h, rfl, rfl, round_robin_balanced.1 _ _ (by simp) (by decide) _ _ h⟩

end Siffleux
