import Mathlib.Data.BitVec
import Siffleux.Foundation.Forest

/-!
# Byte counters

A counter has a parent or none, and two atomics: how many bytes were read, and how many written.
`add_bytes_read` and `add_bytes_write` add to the parent first, which does the same, and then to the
counter itself.  So a call is a row of `fetch_add`s from the root down, and between two of them come
those of other calls.

**The code.**  `ByteCounter.addBytes` is the recursion, and `ByteCounters` the transition system of
any number of calls on any number of counters.  `ByteCounters.exec_addBytes` says that the recursion
is what a call does when nothing comes between.

**The law.**  `counter_tree` says what the counters hold: once the calls have ended all that was
added at them or below them, in whatever order; and at any time no less than their children, unless
they have wrapped around.
-/

namespace Siffleux

open Transition

/-- An `Arc` of a counter.  Its address tells it from all others. -/
inductive ByteCounter where
  | root (address : ℕ)
  | child (address : ℕ) (parent : ByteCounter)
  deriving DecidableEq, Repr

namespace ByteCounter

variable {w : ℕ}

/-- `new`. -/
def new (address : ℕ) : Option ByteCounter → ByteCounter
  | none => .root address
  | some parent => .child address parent

def address : ByteCounter → ℕ
  | .root address => address
  | .child address _ => address

def parent : ByteCounter → Option ByteCounter
  | .root _ => none
  | .child _ parent => some parent

/-- `fetch_add` on an atomic of `c`.  It wraps around. -/
def fetchAdd (c : ByteCounter) (bytes : BitVec w) (m : ByteCounter → BitVec w) :
    ByteCounter → BitVec w :=
  Function.update m c (m c + bytes)

/-- `add_bytes_read` and `add_bytes_write`, each on its own atomics. -/
def addBytes (bytes : BitVec w) : ByteCounter → (ByteCounter → BitVec w) → ByteCounter → BitVec w
  | .root address, m => fetchAdd (.root address) bytes m
  | .child address parent, m => fetchAdd (.child address parent) bytes (parent.addBytes bytes m)

/-- The counters that a call adds to, in its order. -/
def path : ByteCounter → List ByteCounter
  | .root address => [.root address]
  | .child address parent => parent.path ++ [.child address parent]

/-- All counters there can be. -/
def forest : Forest ByteCounter where
  parent := parent
  path := path
  path_eq c := by cases c <;> rfl

/-- `c` is `d`, or was created below it. -/
def DescendsFrom (c d : ByteCounter) : Prop :=
  Relation.ReflTransGen (fun a b => a.parent = some b) c d

lemma mem_path_iff {c d : ByteCounter} : d ∈ c.path ↔ c.DescendsFrom d :=
  @Forest.mem_path_iff _ forest d c

instance (c d : ByteCounter) : Decidable (c.DescendsFrom d) := decidable_of_iff _ mem_path_iff

lemma addBytes_eq_foldl (bytes : BitVec w) (c : ByteCounter) (m : ByteCounter → BitVec w) :
    c.addBytes bytes m = c.path.foldl (fun m d => d.fetchAdd bytes m) m := by
  induction c with
  | root address => rfl
  | child address parent ih =>
      rw [addBytes, path, List.foldl_append, ih]
      rfl

/-- The recursion is what a call does to a tally. -/
lemma exec_addBytes (k : Tally ByteCounter (BitVec w)) (c : ByteCounter) (bytes : BitVec w) :
    ∃ k', (Tally.system forest (BitVec w)).exec k
        (.add c bytes :: List.replicate c.path.length (.step k.calls.length)) = some k' ∧
      k'.tally = c.addBytes bytes k.tally := by
  have hcall : (Tally.system forest (BitVec w)).step k (.add c bytes) =
      some { k with calls := k.calls ++ [⟨c, bytes, c.path⟩] } := rfl
  have hsteps := @Tally.exec_steps _ (BitVec w) _ _ forest k.calls.length c bytes c.path
    { k with calls := k.calls ++ [⟨c, bytes, c.path⟩] } (by simp)
  rw [System.exec_cons hcall, hsteps]
  exact ⟨_, rfl, (addBytes_eq_foldl bytes c k.tally).symm⟩

end ByteCounter

/-- The two atomics of a counter. -/
inductive Total where
  | bytesRead
  | bytesWrite
  deriving DecidableEq, Repr

/-- The counters created, the values of their atomics, and the calls at work on either. -/
structure ByteCounters (w : ℕ) where
  created : Finset ByteCounter
  total : Total → Tally ByteCounter (BitVec w)

namespace ByteCounters

variable {w : ℕ}

/-- `new` makes a counter, `addBytes` calls `add_bytes_read` or `add_bytes_write`, and `fetchAdd` is
the next step of one of the calls. -/
inductive Label (w : ℕ) where
  | new (address : ℕ) (parent : Option ByteCounter)
  | addBytes (t : Total) (c : ByteCounter) (bytes : BitVec w)
  | fetchAdd (t : Total) (i : ℕ)
  deriving DecidableEq

/-- `add_bytes_read`. -/
def Label.addBytesRead (c : ByteCounter) (bytes : BitVec w) : Label w :=
  .addBytes .bytesRead c bytes

/-- `add_bytes_write`. -/
def Label.addBytesWrite (c : ByteCounter) (bytes : BitVec w) : Label w :=
  .addBytes .bytesWrite c bytes

def new (w : ℕ) : ByteCounters w := ⟨∅, fun _ => .new ..⟩

/-- The value of an atomic. -/
def bytes (s : ByteCounters w) (t : Total) : ByteCounter → BitVec w := (s.total t).tally

/-- `bytes_read`. -/
def bytesRead (s : ByteCounters w) (c : ByteCounter) : BitVec w := s.bytes .bytesRead c

/-- `bytes_write`. -/
def bytesWrite (s : ByteCounters w) (c : ByteCounter) : BitVec w := s.bytes .bytesWrite c

def step (s : ByteCounters w) : Label w → Option (ByteCounters w)
  | .new address parent =>
      -- an address is given out once, and a parent is there before its children
      if (∀ c ∈ s.created, c.address ≠ address) ∧ ∀ p ∈ parent, p ∈ s.created then
        some { s with created := insert (.new address parent) s.created }
      else none
  | .addBytes t c bytes =>
      if c ∈ s.created then (Tally.step ByteCounter.forest (s.total t) (.add c bytes)).map fun k =>
        { s with total := Function.update s.total t k }
      else none
  | .fetchAdd t i => (Tally.step ByteCounter.forest (s.total t) (.step i)).map fun k =>
      { s with total := Function.update s.total t k }

def system (w : ℕ) : System (ByteCounters w) (Label w) := ⟨new w, step⟩

variable {s s' : ByteCounters w} {t : Total} {c : ByteCounter} {ls : List (Label w)} {l : Label w}

/-! ## The two totals apart -/

/-- What a label is to one of the totals. -/
def Label.on (t : Total) : Label w → Option (Tally.Label ByteCounter (BitVec w))
  | .new _ _ => none
  | .addBytes t' c bytes => if t' = t then some (.add c bytes) else none
  | .fetchAdd t' i => if t' = t then some (.step i) else none

/-- What a step does: it makes a counter, or it moves one of the totals. -/
inductive Step (s : ByteCounters w) : Label w → ByteCounters w → Prop
  | created {address : ℕ} {parent : Option ByteCounter} :
      Step s (.new address parent) { s with created := insert (.new address parent) s.created }
  | moved {t : Total} {l : Label w} {m : Tally.Label ByteCounter (BitVec w)}
      {k : Tally ByteCounter (BitVec w)} (hl : ∀ t', l.on t' = if t = t' then some m else none)
      (hk : Tally.step ByteCounter.forest (s.total t) m = some k) :
      Step s l { s with total := Function.update s.total t k }

theorem step_cases (hs : step s l = some s') : Step s l s' := by
  cases l with
  | new address parent =>
      simp only [step, Option.ite_none_right_eq_some, Option.some.injEq] at hs
      obtain ⟨-, rfl⟩ := hs
      exact .created
  | addBytes t c bytes =>
      simp only [step, Option.ite_none_right_eq_some, Option.map_eq_some_iff] at hs
      obtain ⟨-, k, hk, rfl⟩ := hs
      exact .moved (fun _ => rfl) hk
  | fetchAdd t i =>
      simp only [step, Option.map_eq_some_iff] at hs
      obtain ⟨k, hk, rfl⟩ := hs
      exact .moved (fun _ => rfl) hk

/-- **Each of the two totals is a tally up the forest**, whatever becomes of the other. -/
def simulation (w : ℕ) (t : Total) :
    Simulation (system w) (Tally.system ByteCounter.forest (BitVec w)) where
  abs s := s.total t
  lab := Label.on t
  inv _ := True
  inv_init := trivial
  inv_step _ _ _ _ _ := trivial
  abs_init := rfl
  visible s l s' k _ hs hk := by
    cases step_cases hs with
    | created => cases hk
    | @moved t' _ m k' hl hm =>
        rw [hl] at hk
        split_ifs at hk with ht
        obtain rfl := Option.some.inj hk
        subst ht
        show Tally.step _ _ _ = some (Function.update s.total t' k' t')
        rw [hm, Function.update_self]
  silent s l s' _ hs hk := by
    cases step_cases hs with
    | created => rfl
    | @moved t' _ m k' hl hm =>
        rw [hl] at hk
        split_ifs at hk with ht
        exact Function.update_of_ne (Ne.symm ht) ..

lemma total_run (h : (system w).Run ls s) (t : Total) :
    (Tally.system ByteCounter.forest (BitVec w)).Run (ls.filterMap (Label.on t)) (s.total t) :=
  (simulation w t).run h

/-- The label is of the total, or makes a counter. -/
def Label.concerns (t : Total) : Label w → Bool
  | .new _ _ => true
  | .addBytes t' _ _ | .fetchAdd t' _ => t' = t

/-- The two states have the same counters, and tell the same of the total. -/
def Agrees (t : Total) (r s : ByteCounters w) : Prop :=
  r.created = s.created ∧ r.total t = s.total t

lemma Agrees.concerned {r : ByteCounters w} (h : Agrees t r s) (hs : step s l = some s')
    (hl : l.concerns t = true) : ∃ r', step r l = some r' ∧ Agrees t r' s' := by
  obtain ⟨hcreated, htotal⟩ := h
  cases l with
  | new address parent =>
      simp only [step, ← hcreated, Option.ite_none_right_eq_some, Option.some.injEq] at hs
      obtain ⟨hfresh, rfl⟩ := hs
      exact ⟨_, if_pos hfresh, rfl, htotal⟩
  | addBytes t' c bytes =>
      obtain rfl : t' = t := by simpa [Label.concerns] using hl
      simp only [step, ← hcreated, ← htotal, Option.ite_none_right_eq_some,
        Option.map_eq_some_iff] at hs
      obtain ⟨hc, k, hk, rfl⟩ := hs
      refine ⟨{ r with total := Function.update r.total t' k }, ?_, rfl, by simp⟩
      simp only [step, if_pos hc, hk, Option.map_some]
  | fetchAdd t' i =>
      obtain rfl : t' = t := by simpa [Label.concerns] using hl
      simp only [step, ← htotal, Option.map_eq_some_iff] at hs
      obtain ⟨k, hk, rfl⟩ := hs
      refine ⟨{ r with total := Function.update r.total t' k }, ?_, hcreated, by simp⟩
      simp only [step, hk, Option.map_some]

lemma Agrees.other {r : ByteCounters w} (h : Agrees t r s) (hs : step s l = some s')
    (hl : l.concerns t = false) : Agrees t r s' := by
  have hlabel : l.on t = none ∧ ∀ address parent, l ≠ .new address parent := by
    cases l with
    | new address parent => cases hl
    | addBytes t' c bytes | fetchAdd t' i =>
        have ht : t' ≠ t := by simpa [Label.concerns] using hl
        simp [Label.on, ht]
  refine ⟨?_, h.2.trans ((simulation w t).silent s l s' trivial hs hlabel.1).symm⟩
  cases step_cases hs with
  | created => exact absurd rfl (hlabel.2 _ _)
  | moved => exact h.1

/-- **A run goes on without the calls of the other total.** -/
theorem run_filter (t : Total) (h : (system w).Run ls s) :
    ∃ r, (system w).Run (ls.filter (·.concerns t)) r ∧ Agrees t r s := by
  induction h with
  | nil => exact ⟨_, .nil, rfl, rfl⟩
  | @snoc ls s s' l _ hs ih =>
      obtain ⟨r, hr, ha⟩ := ih
      rw [List.filter_append]
      cases hl : l.concerns t with
      | true =>
          obtain ⟨r', hstep, ha'⟩ := ha.concerned hs hl
          refine ⟨r', ?_, ha'⟩
          rw [List.filter_cons_of_pos hl]
          exact hr.snoc hstep
      | false =>
          refine ⟨r, ?_, ha.other hs hl⟩
          rw [List.filter_cons_of_neg (by simp [hl])]
          simpa using hr

/-! ## One call -/

/-- A step of one of the totals, as one of the system. -/
def Label.ofTally (t : Total) : Tally.Label ByteCounter (BitVec w) → Label w
  | .add c bytes => .addBytes t c bytes
  | .step i => .fetchAdd t i

lemma exec_ofTally (t : Total) : ∀ (ms : List (Tally.Label ByteCounter (BitVec w)))
    {s : ByteCounters w} {k : Tally ByteCounter (BitVec w)},
    (∀ c bytes, .add c bytes ∈ ms → c ∈ s.created) →
    (Tally.system ByteCounter.forest (BitVec w)).exec (s.total t) ms = some k →
    ∃ s', (system w).exec s (ms.map (Label.ofTally t)) = some s' ∧ s'.total t = k
  | [], s, k, _, h => ⟨s, rfl, Option.some.inj h⟩
  | m :: ms, s, k, hc, h => by
      obtain ⟨k₁, hk₁, hk⟩ := Option.bind_eq_some_iff.mp h
      have hk₁ : Tally.step ByteCounter.forest (s.total t) m = some k₁ := hk₁
      have hs : (system w).step s (Label.ofTally t m) =
          some { s with total := Function.update s.total t k₁ } := by
        cases m with
        | add c bytes =>
            simp only [system, step, Label.ofTally, if_pos (hc c bytes List.mem_cons_self), hk₁,
              Option.map_some]
        | step i => simp only [system, step, Label.ofTally, hk₁, Option.map_some]
      obtain ⟨s', hexec, htotal⟩ := exec_ofTally t ms
        (s := { s with total := Function.update s.total t k₁ })
        (fun c bytes hmem => hc c bytes (List.mem_cons_of_mem m hmem)) (by simpa using hk)
      exact ⟨s', by rw [List.map_cons, System.exec_cons hs, hexec], htotal⟩

/-- **The recursion is what a call does** when nothing comes between its steps. -/
theorem exec_addBytes (s : ByteCounters w) (t : Total) {c : ByteCounter} (hc : c ∈ s.created)
    (bytes : BitVec w) : ∃ s', (system w).exec s (.addBytes t c bytes ::
        List.replicate c.path.length (.fetchAdd t (s.total t).calls.length)) = some s' ∧
      s'.bytes t = c.addBytes bytes (s.bytes t) := by
  obtain ⟨k, hk, htally⟩ := ByteCounter.exec_addBytes (s.total t) c bytes
  have hcreated : ∀ d b, Tally.Label.add d b ∈ Tally.Label.add c bytes ::
      List.replicate c.path.length (.step (s.total t).calls.length) → d ∈ s.created := by
    intro d b hmem
    simp only [List.mem_cons, Tally.Label.add.injEq, List.mem_replicate, reduceCtorEq, and_false,
      or_false] at hmem
    rw [hmem.1]
    exact hc
  obtain ⟨s', hs', htotal⟩ := exec_ofTally t _ hcreated hk
  refine ⟨s', by simpa [Label.ofTally] using hs', ?_⟩
  rw [ByteCounters.bytes, htotal, htally, ByteCounters.bytes]

/-! ## What the counters hold -/

/-- No call is at work on the total. -/
def Quiet (s : ByteCounters w) (t : Total) : Prop := (s.total t).Quiet

instance (s : ByteCounters w) (t : Total) : Decidable (s.Quiet t) :=
  inferInstanceAs (Decidable (s.total t).Quiet)

/-- The counters created below `c` at once. -/
def children (s : ByteCounters w) (c : ByteCounter) : Finset ByteCounter :=
  s.created.filter fun d => d.parent = some c

/-- The calls that a schedule makes, with their amounts. -/
def calls (t : Total) (ls : List (Label w)) : List (ByteCounter × BitVec w) :=
  ls.filterMap fun
    | .addBytes t' c bytes => if t' = t then some (c, bytes) else none
    | _ => none

/-- All that a schedule adds at `c` or at a descendant of it. -/
def added (t : Total) (c : ByteCounter) (ls : List (Label w)) : ℕ :=
  ((calls t ls).map fun k => if k.1.DescendsFrom c then k.2.toNat else 0).sum

lemma added_cons (t : Total) (c : ByteCounter) (l : Label w) (ls : List (Label w)) :
    added t c (l :: ls) = (match l with
      | .addBytes t' d bytes => if t' = t ∧ d.DescendsFrom c then bytes.toNat else 0
      | _ => 0) + added t c ls := by
  cases l with
  | new address parent => simp [added, calls]
  | addBytes t' d bytes => by_cases ht : t' = t <;> simp [added, calls, ht]
  | fetchAdd t' i => simp [added, calls]

/-- The step is no `fetch_add` on `c` that wraps around. -/
def NoWrap (t : Total) (c : ByteCounter) (s : ByteCounters w) : Label w → Prop
  | .fetchAdd t' i => t' = t → ∀ bytes, (s.total t).reaches (.step i) = some (c, bytes) →
      (s.bytes t c).toNat + bytes.toNat < 2 ^ w
  | _ => True

/-- A number as a counter shows it. -/
def ofNatHom (w : ℕ) : ℕ →+ BitVec w := ⟨⟨BitVec.ofNat w, rfl⟩, BitVec.ofNat_add⟩

/-- What has arrived at `c`, counted without a bound. -/
def arrived (s : ByteCounters w) (t : Total) (c : ByteCounter) : ℕ :=
  (s.total t).arrived ByteCounter.forest BitVec.toNat c

/-- A counter is what has arrived there, up to its width. -/
lemma bytes_eq_ofNat (h : (system w).Run ls s) : s.bytes t c = BitVec.ofNat w (s.arrived t c) := by
  have hcast : BitVec.ofNat w (s.arrived t c) = (s.total t).arrived ByteCounter.forest
      (BitVec.ofNat w ∘ BitVec.toNat) c :=
    Tally.map_arrived (ofNatHom w)
  have hid : BitVec.ofNat w ∘ BitVec.toNat = (id : BitVec w → BitVec w) := by
    funext b
    simp
  rw [hcast, hid]
  exact Tally.tally_run (total_run h t)

/-- A step that does not wrap around gains what it adds. -/
lemma toNat_gain (hok : NoWrap t c s l) {m : Tally.Label ByteCounter (BitVec w)}
    (hl : l.on t = some m) : ((s.total t).tally c + (s.total t).gain id c m).toNat =
      ((s.total t).tally c).toNat + (s.total t).gain BitVec.toNat c m := by
  cases l with
  | new address parent => cases hl
  | addBytes t' d bytes =>
      simp only [Label.on] at hl
      split_ifs at hl
      cases hl
      simp [Tally.gain, Tally.reaches]
  | fetchAdd t' i =>
      simp only [Label.on] at hl
      split_ifs at hl with ht
      cases hl
      rw [Tally.gain, Tally.gain]
      cases hr : (s.total t).reaches (.step i) with
      | none => simp
      | some r =>
          obtain ⟨d, b⟩ := r
          rcases eq_or_ne d c with rfl | hne
          · simp only [if_true]
            exact BitVec.toNat_add_of_lt (hok ht b hr)
          · simp [hne]

/-- The same without a loss, as long as the counter does not wrap around. -/
lemma bytes_toNat (h : (system w).RunWithin (NoWrap t c) ls s) :
    (s.bytes t c).toNat = s.arrived t c :=
  Tally.tally_runWithin (by simp)
    ((simulation w t).runWithin (fun _ _ _ hl hok => toNat_gain hok hl) h)

/-- **Once its calls have ended, a counter holds what was added at it or below it.** -/
theorem bytes_of_quiet (h : (system w).Run ls s) (hq : s.Quiet t) (c : ByteCounter) :
    s.bytes t c = BitVec.ofNat w (added t c ls) := by
  rw [bytes_eq_ofNat h, arrived, Tally.arrived_of_quiet _ (total_run h t) hq, added]
  refine congrArg (BitVec.ofNat w) ?_
  have hcalls : calls t ls = (ls.filterMap (Label.on t)).filterMap Tally.Label.call := by
    rw [List.filterMap_filterMap, calls]
    refine List.filterMap_congr fun l _ => ?_
    cases l with
    | new => rfl
    | addBytes t' d bytes | fetchAdd t' i =>
        simp only [Label.on]
        split_ifs <;> rfl
  rw [hcalls]
  refine congrArg List.sum (List.map_congr_left fun k _ => ?_)
  exact if_congr ByteCounter.mem_path_iff rfl rfl

/-- **A counter holds no less than its children**, unless it has wrapped around. -/
theorem children_le (h : (system w).RunWithin (NoWrap t c) ls s) :
    ∑ d ∈ s.children c, (s.bytes t d).toNat ≤ (s.bytes t c).toNat := by
  have hexact : ∀ d, (s.bytes t d).toNat ≤ s.arrived t d := by
    intro d
    rw [bytes_eq_ofNat h.run, BitVec.toNat_ofNat]
    exact Nat.mod_le ..
  have hway := Tally.onTheWay_run (total_run h.run t)
  calc ∑ d ∈ s.children c, (s.bytes t d).toNat
      ≤ ∑ d ∈ s.children c, s.arrived t d := Finset.sum_le_sum fun d _ => hexact d
    _ ≤ s.arrived t c := Tally.arrived_children_le _ hway fun d hd => (Finset.mem_filter.mp hd).2
    _ = (s.bytes t c).toNat := (bytes_toNat h).symm

end ByteCounters

/-- **The law of the counter tree.**  In every run of any number of calls over any counters, and for
each of the two totals: once its calls have ended every counter holds, modulo `2 ^ w`, all that was
added at it or at its descendants; so two such runs with the same calls agree, whatever their order;
at any time a counter that has not wrapped around holds no less than its children together; the
calls of the other total make no difference; and a call with no other between its steps is the
recursion. -/
theorem counter_tree {w : ℕ} {ls : List (ByteCounters.Label w)} {s : ByteCounters w}
    (h : (ByteCounters.system w).Run ls s) (t : Total) :
    (s.Quiet t → ∀ c, s.bytes t c = BitVec.ofNat w (ByteCounters.added t c ls)) ∧
    (∀ ls' s', (ByteCounters.system w).Run ls' s' → s.Quiet t → s'.Quiet t →
      (ByteCounters.calls t ls').Perm (ByteCounters.calls t ls) →
        ∀ c, s'.bytes t c = s.bytes t c) ∧
    (∀ c, (ByteCounters.system w).RunWithin (ByteCounters.NoWrap t c) ls s →
      ∑ d ∈ s.children c, (s.bytes t d).toNat ≤ (s.bytes t c).toNat) ∧
    (∃ r, (ByteCounters.system w).Run (ls.filter (·.concerns t)) r ∧ r.bytes t = s.bytes t) ∧
    ∀ c ∈ s.created, ∀ bytes, ∃ s', (ByteCounters.system w).exec s (.addBytes t c bytes ::
        List.replicate c.path.length (.fetchAdd t (s.total t).calls.length)) = some s' ∧
      s'.bytes t = c.addBytes bytes (s.bytes t) := by
  refine ⟨fun hq => ByteCounters.bytes_of_quiet h hq, fun ls' s' h' hq hq' hperm c => ?_,
    fun c hw => ByteCounters.children_le hw, ?_, fun c hc => ByteCounters.exec_addBytes s t hc⟩
  · rw [ByteCounters.bytes_of_quiet h hq, ByteCounters.bytes_of_quiet h' hq', ByteCounters.added,
      ByteCounters.added, (hperm.map _).sum_eq]
  · obtain ⟨r, hr, -, htotal⟩ := ByteCounters.run_filter t h
    exact ⟨r, hr, by rw [ByteCounters.bytes, htotal, ByteCounters.bytes]⟩

/-- Two children of one counter: two reads at work on them, and a write that has ended. -/
def twoReads : List (ByteCounters.Label 64) :=
  [.new 0 none, .new 1 (some (.root 0)), .new 2 (some (.root 0)),
    .addBytesRead (.child 1 (.root 0)) 5, .addBytesRead (.child 2 (.root 0)) 7,
    .addBytesWrite (.child 1 (.root 0)) 3, .fetchAdd .bytesRead 0, .fetchAdd .bytesWrite 0,
    .fetchAdd .bytesRead 1, .fetchAdd .bytesRead 1, .fetchAdd .bytesWrite 0]

/-- The parent has both reads already, and one of the children its own. -/
theorem counter_tree_two : ∃ s, (ByteCounters.system 64).Run twoReads s ∧
    s.bytesRead (.root 0) = 12 ∧ s.bytesRead (.child 1 (.root 0)) = 0 ∧
    ∑ d ∈ s.children (.root 0), (s.bytes .bytesRead d).toNat ≤ 12 ∧
    s.bytes .bytesWrite (.root 0) = BitVec.ofNat 64 3 := by
  have hnowrap : ∀ {s : ByteCounters 64} {i : ℕ} {d : ByteCounter} {b : BitVec 64},
      (s.total .bytesRead).reaches (.step i) = some (d, b) →
        (s.bytes .bytesRead (.root 0)).toNat + b.toNat < 2 ^ 64 →
          ByteCounters.NoWrap .bytesRead (.root 0) s (.fetchAdd .bytesRead i) := by
    intro s i d b hr hlt _ b' hb'
    rw [hr] at hb'
    cases hb'
    exact hlt
  have h : (ByteCounters.system 64).RunWithin
      (ByteCounters.NoWrap .bytesRead (.root 0)) twoReads _ :=
    System.runWithin_of_exec rfl ⟨trivial, trivial, trivial, trivial, trivial, trivial,
      hnowrap rfl (by decide), fun e => (by cases e), hnowrap rfl (by decide),
      hnowrap rfl (by decide), fun e => (by cases e), trivial⟩
  refine ⟨_, h.run, rfl, rfl, (counter_tree h.run .bytesRead).2.2.1 _ h, ?_⟩
  exact (counter_tree h.run .bytesWrite).1 (by decide) (.root 0)

end Siffleux
