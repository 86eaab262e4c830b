import Mathlib.Data.List.Nodup
import Siffleux.Cli.Client

/-!
# Where the egresses of a client are

What the main thread of the client program has made of each egress, told from where it is.

* `phaseOf` — what an egress is in, for the place the thread is at.
* `Sound` — every egress is in its phase, and the client has those that are assigned.
* `sound_run` — it holds in every run: one lemma for each kind of step.
-/

namespace Siffleux

open ByteBuf Transition

/-- The addresses of an egress can be found, and its hash can be read. -/
structure EgressConfig.IsUsable (look : Lookup) (config : EgressConfig) : Prop where
  target : ∃ addr, look.address config.target addr = true
  server : ∃ addr, look.address config.authenticationConfig.server addr = true
  decoded : (look.decode config.certHash).isSome = true

namespace LaunchClient

variable {configs : List EgressConfig} {look : Lookup} {p : Profile} {s s' : LaunchClient configs}
  {l : Label configs} {ls : List (Label configs)}

/-- What the main thread has made of an egress; `gone` is after a panic. -/
inductive Phase where
  | fresh
  | starting
  | up
  | stopping
  | down
  | gone

/-- What the phase says of the two calls. -/
def InPhase {L : MainLoop} (g : Egress L) : Phase → Prop
  | .fresh => g.startCall 0 = .notCalled ∧ g.stopCall 0 = .notCalled
  | .starting => g.stopCall 0 = .notCalled
  | .up => g.startCall 0 = .returned ∧ g.stopCall 0 = .notCalled
  | .stopping => g.startCall 0 = .returned
  | .down => g.stopCall 0 ≠ .notCalled ∧ (g.stopCall 0).inFlight = false
  | .gone => True

/-- The phase of egress `k` of `n`, for the place the thread is at. -/
def phaseOf (n : ℕ) (pc : LaunchPc) (k : ℕ) : Phase :=
  match pc with
  | .lookup j => if k < j then .up else .fresh
  | .starting j => if k < j then .up else if k = j then .starting else .fresh
  | .assigning j => if k < j + 1 then .up else .fresh
  | .waiting | .draining => if k < n then .up else .fresh
  | .stopping left =>
      if n ≤ k then .fresh
      else if (left.map Prod.snd).head? = some k then .stopping
      else if k ∈ left.map Prod.snd then .up
      else .down
  | .returned => if k < n then .down else .fresh
  | .panicked => .gone

/-- The egresses that have been assigned. -/
def assigned (n : ℕ) : LaunchPc → ℕ
  | .lookup k | .starting k | .assigning k => k
  | .panicked => 0
  | _ => n

/-- The egresses that have been looked up. -/
def resolved (n : ℕ) : LaunchPc → ℕ
  | .lookup k => k
  | .starting k | .assigning k => k + 1
  | .panicked => 0
  | _ => n

/-- The signal's work has begun, or the process has ended. -/
def isLate : LaunchPc → Bool
  | .stopping _ | .returned | .panicked => true
  | _ => false

/-- What holds of the program at any time. -/
structure Sound (look : Lookup) (s : LaunchClient configs) : Prop where
  held : ∀ k, (s.egress k).TasksHeld
  locks : ∀ k, (s.egress k).LockSound
  owned : ∀ k, (s.egress k).Owned
  phase : ∀ k, InPhase (s.egress k) (phaseOf configs.length s.pc k)
  place : ∀ k, s.pc = .lookup k ∨ s.pc = .starting k ∨ s.pc = .assigning k → k < configs.length
  names : isLate s.pc = false →
    s.client.egressById.map Prod.snd = List.range (assigned configs.length s.pc)
  ids : isLate s.pc = false → s.client.egressById.map Prod.fst =
    (configs.take (assigned configs.length s.pc)).map EgressConfig.id
  distinct : ((configs.take (assigned configs.length s.pc)).map EgressConfig.id).Nodup
  usable : ∀ config ∈ configs.take (resolved configs.length s.pc), config.IsUsable look
  left : ∀ left, s.pc = .stopping left → (left.map Prod.snd).Nodup ∧
    ∀ k ∈ left.map Prod.snd, k < configs.length

/-- The labels of the two calls. -/
def isStart {L : MainLoop} : Egress.Label L → Bool
  | .startLock _ | .startCheck _ | .startSend _ | .startWrite _ | .startSpawn _ | .startStore _ =>
      true
  | _ => false

def isStop {L : MainLoop} : Egress.Label L → Bool
  | .stopTake _ | .stopCancel _ | .stopAwait _ | .stopSend _ => true
  | _ => false

/-- A step moves the call it is of, and no other. -/
lemma kept_of_step {L : MainLoop} {g g' : Egress L} {l : Egress.Label L}
    (hs : Egress.step p g l = some g') :
    (isStart l = false → g'.startCall = g.startCall) ∧
      (isStop l = false → g'.stopCall = g.stopCall) := by
  cases Egress.step_cases hs with
  | task ht =>
      obtain ⟨i, pc, published, -, rfl, -⟩ := ht.moves
      exact ⟨fun _ => rfl, fun _ => rfl⟩
  | call hcall =>
      cases hcall with
      | startLock | startRefused | startChecked | startSend | startWrite | startSpawn
      | startStore => exact ⟨nofun, fun _ => rfl⟩
      | stopTake | stopRefused | stopCancel | stopJoined | stopJoinFails | stopSend =>
          exact ⟨fun _ => rfl, nofun⟩

/-- A step of an egress leaves it in its phase: only the call it is in moves. -/
lemma InPhase.step {L : MainLoop} {g g' : Egress L} {l : Egress.Label L} {ph : Phase}
    (h : InPhase g ph) (hs : Egress.step p g l = some g')
    (hstart : isStart l = true → ph = .starting) (hstop : isStop l = true → ph = .stopping) :
    InPhase g' ph := by
  have hkeep := kept_of_step hs
  cases hl : isStart l with
  | true =>
      obtain rfl := hstart hl
      have hl' : isStop l = false := by cases l <;> first | rfl | cases hl
      rw [InPhase, hkeep.2 hl']
      exact h
  | false =>
      cases hl' : isStop l with
      | true =>
          obtain rfl := hstop hl'
          rw [InPhase, hkeep.1 hl]
          exact h
      | false =>
          cases ph <;> simp only [InPhase, hkeep.1 hl, hkeep.2 hl'] at h ⊢ <;> exact h

lemma starting_of_permits {pc : LaunchPc} {k : ℕ} {L : MainLoop} {l : Egress.Label L}
    (h : permits pc k l = true) (hl : isStart l = true) : pc = .starting k := by
  have hpc : pc.isStartingOf k = true := by
    cases l with
    | startLock | startCheck | startSend | startWrite | startSpawn | startStore =>
        simp only [permits, Bool.and_eq_true] at h
        exact h.2
    | _ => cases hl
  cases pc with
  | starting j =>
      obtain rfl : j = k := by simpa [LaunchPc.isStartingOf] using hpc
      rfl
  | _ => cases hpc

lemma stopping_of_permits {pc : LaunchPc} {k : ℕ} {L : MainLoop} {l : Egress.Label L}
    (h : permits pc k l = true) (hl : isStop l = true) :
    ∃ id left, pc = .stopping ((id, k) :: left) := by
  have hpc : pc.isStoppingOf k = true := by
    cases l with
    | stopTake | stopCancel | stopAwait | stopSend =>
        simp only [permits, Bool.and_eq_true] at h
        exact h.2
    | _ => cases hl
  cases pc with
  | stopping left =>
      cases left with
      | nil => cases hpc
      | cons e left =>
          obtain ⟨id, j⟩ := e
          obtain rfl : j = k := by simpa [LaunchPc.isStoppingOf] using hpc
          exact ⟨id, left, rfl⟩
  | _ => cases hpc

lemma phaseOf_head {n k : ℕ} {id : EgressId} {left : List (EgressId × ℕ)} (hk : k < n) :
    phaseOf n (.stopping ((id, k) :: left)) k = .stopping := by
  simp [phaseOf, Nat.not_le.mpr hk]

/-- The thread calls for itself, and stops what it has started. -/
lemma Sound.ownCall (h : Sound look s) {k : ℕ} {l : Egress.Label (loopOf configs k)}
    (hp : permits s.pc k l = true) : (s.egress k).OwnCall l := by
  cases l with
  | startLock c =>
      simp only [permits, Bool.and_eq_true, decide_eq_true_eq] at hp
      exact hp.1
  | stopTake c =>
      obtain ⟨id, left, hpc⟩ := stopping_of_permits hp rfl
      have hphase := h.phase k
      rw [hpc, phaseOf_head ((h.left _ hpc).2 k (by simp))] at hphase
      simp only [permits, Bool.and_eq_true, decide_eq_true_eq] at hp
      exact ⟨hp.1, hphase⟩
  | _ => trivial

lemma Sound.egress_step (h : Sound look s) {k : ℕ} {l : Egress.Label (loopOf configs k)}
    {g : Egress (loopOf configs k)} (hp : permits s.pc k l = true)
    (hs : Egress.step p (s.egress k) l = some g) :
    Sound look { s with egress := Function.update s.egress k g } := by
  have hforall : ∀ {P : ∀ j, Egress (loopOf configs j) → Prop}, (∀ j, P j (s.egress j)) → P k g →
      ∀ j, P j (Function.update s.egress k g j) := by
    intro P hall hk j
    rcases eq_or_ne j k with rfl | hne
    · rw [Function.update_self]
      exact hk
    · rw [Function.update_of_ne hne]
      exact hall j
  refine ⟨hforall h.held ((h.held k).step (h.locks k) hs), hforall h.locks ((h.locks k).step hs),
    hforall h.owned ((h.owned k).step (h.held k) (h.ownCall hp) hs),
    hforall (P := fun j g => InPhase g (phaseOf configs.length s.pc j)) h.phase ?_, h.place,
    h.names, h.ids, h.distinct, h.usable, h.left⟩
  refine (h.phase k).step hs (fun hl => ?_) fun hl => ?_
  · rw [starting_of_permits hp hl]
    simp [phaseOf]
  · obtain ⟨id, left, hpc⟩ := stopping_of_permits hp hl
    rw [hpc, phaseOf_head ((h.left _ hpc).2 k (by simp))]

lemma sound_new : Sound look (new configs) where
  held _ := Egress.tasksHeld_new
  locks _ := Egress.lockSound_new
  owned _ := Egress.owned_new
  phase k := by
    have hphase : phaseOf configs.length (entry configs 0) k = .fresh := by
      rw [entry]
      split_ifs with hn
      · simp [phaseOf]
      · simp [phaseOf]
        omega
    show InPhase (Egress.new _) (phaseOf configs.length (entry configs 0) k)
    rw [hphase]
    exact ⟨rfl, rfl⟩
  place k hk := by
    simp only [new, entry] at hk
    split_ifs at hk with hn <;> simp at hk
    omega
  names _ := by
    simp only [new, entry]
    split_ifs with hn
    · rfl
    · simp [assigned, Client.new, show configs.length = 0 by omega]
  ids _ := by
    simp only [new, entry]
    split_ifs with hn
    · rfl
    · simp [assigned, Client.new, List.eq_nil_of_length_eq_zero (show configs.length = 0 by omega)]
  distinct := by
    simp only [new, entry]
    split_ifs with hn
    · simp [assigned]
    · simp [List.eq_nil_of_length_eq_zero (show configs.length = 0 by omega)]
  usable := by
    simp only [new, entry]
    split_ifs with hn
    · simp [resolved]
    · simp [List.eq_nil_of_length_eq_zero (show configs.length = 0 by omega)]
  left left hl := by
    simp only [new, entry] at hl
    split_ifs at hl

/-! ## One lemma for each kind of step -/

/-- A panic leaves the egresses as they are, with nobody to bring them on. -/
lemma Sound.panic (h : Sound look s) : Sound look { s with pc := .panicked } :=
  ⟨h.held, h.locks, h.owned, fun _ => trivial, by simp, nofun, nofun, by simp [assigned],
    by simp [resolved], by simp⟩

lemma Sound.resolved (h : Sound look s) {k : ℕ} {config : EgressConfig} (hpc : s.pc = .lookup k)
    (hc : configs[k]? = some config) (hu : config.IsUsable look) :
    Sound look { s with pc := .starting k } := by
  obtain ⟨pc, client, egress⟩ := s
  obtain rfl : pc = .lookup k := hpc
  refine ⟨h.held, h.locks, h.owned, fun j => ?_, fun j hj => ?_, fun _ => h.names rfl,
    fun _ => h.ids rfl, h.distinct, fun c hc' => ?_, by simp⟩
  · have hphase := h.phase j
    simp only [phaseOf] at hphase ⊢
    split_ifs at hphase ⊢ with hlt heq
    · exact hphase
    · exact hphase.2
    · exact hphase
  · obtain rfl : k = j := by simpa using hj
    exact h.place k (Or.inl rfl)
  · simp only [LaunchClient.resolved, List.take_add_one, hc, Option.toList_some, List.mem_append,
      List.mem_singleton] at hc'
    rcases hc' with hc' | rfl
    · exact h.usable c hc'
    · exact hu

lemma Sound.started (h : Sound look s) {k : ℕ} (hpc : s.pc = .starting k)
    (hstart : (s.egress k).startCall 0 = .returned) : Sound look { s with pc := .assigning k } := by
  obtain ⟨pc, client, egress⟩ := s
  obtain rfl : pc = .starting k := hpc
  refine ⟨h.held, h.locks, h.owned, fun j => ?_, fun j hj => ?_, fun _ => h.names rfl,
    fun _ => h.ids rfl, h.distinct, h.usable, by simp⟩
  · have hphase := h.phase j
    rcases lt_trichotomy j k with hlt | rfl | hgt
    · simpa [phaseOf, hlt, Nat.lt_succ_of_lt hlt] using hphase
    · simp only [phaseOf, lt_irrefl, if_true, if_false] at hphase
      rw [phaseOf, if_pos (Nat.lt_succ_self j)]
      exact ⟨hstart, hphase⟩
    · have hnot : ¬ j < k + 1 := by omega
      simpa [phaseOf, Nat.not_lt.mpr hgt.le, hgt.ne', hnot] using hphase
  · obtain rfl : k = j := by simpa using hj
    exact h.place k (Or.inr (Or.inl rfl))

/-- Where the thread is after an egress has been assigned. -/
lemma entry_succ {k : ℕ} (hk : k < configs.length) :
    assigned configs.length (entry configs (k + 1)) = k + 1 ∧
      LaunchClient.resolved configs.length (entry configs (k + 1)) = k + 1 ∧
      ∀ j, phaseOf configs.length (entry configs (k + 1)) j =
        phaseOf configs.length (.assigning k) j := by
  rw [entry]
  split_ifs with hlt
  · exact ⟨rfl, rfl, fun _ => rfl⟩
  · have heq : configs.length = k + 1 := by omega
    exact ⟨heq, heq, fun j => by rw [phaseOf, heq, phaseOf]⟩

lemma Sound.assign (h : Sound look s) {k : ℕ} {config : EgressConfig} (hpc : s.pc = .assigning k)
    (hc : configs[k]? = some config) (hn : config.id ∉ s.client.egressById.map Prod.fst) :
    Sound look { s with
      pc := entry configs (k + 1)
      client := ⟨s.client.egressById ++ [(config.id, k)]⟩ } := by
  obtain ⟨pc, client, egress⟩ := s
  obtain rfl : pc = .assigning k := hpc
  have hnames := h.names rfl
  have hids := h.ids rfl
  obtain ⟨hassigned, hresolved, hphases⟩ := entry_succ (h.place k (Or.inr (Or.inr rfl)))
  have htake : (configs.take (k + 1)).map EgressConfig.id =
      (configs.take k).map EgressConfig.id ++ [config.id] := by
    simp [List.take_add_one, hc]
  have hnew : config.id ∉ (configs.take k).map EgressConfig.id := by
    rw [hids] at hn
    exact hn
  refine ⟨h.held, h.locks, h.owned, fun j => ?_, fun j hj => ?_, fun _ => ?_, fun _ => ?_, ?_, ?_,
    fun left hl => ?_⟩
  · rw [hphases]
    exact h.phase j
  · simp only [entry] at hj
    split_ifs at hj with hlt <;> simp at hj
    omega
  · rw [hassigned, List.map_append, hnames, List.range_succ]
    rfl
  · rw [hassigned, List.map_append, hids, htake]
    rfl
  · rw [hassigned, htake]
    exact List.Nodup.append h.distinct (List.nodup_singleton _) (by simpa using hnew)
  · rw [hresolved]
    exact h.usable
  · simp only [entry] at hl
    split_ifs at hl

lemma Sound.signal (h : Sound look s) (hpc : s.pc = .waiting) :
    Sound look { s with pc := .draining } := by
  obtain ⟨pc, client, egress⟩ := s
  obtain rfl : pc = .waiting := hpc
  exact ⟨h.held, h.locks, h.owned, h.phase, by simp, fun _ => h.names rfl, fun _ => h.ids rfl,
    h.distinct, h.usable, by simp⟩

/-- Every egress is given out once. -/
lemma Sound.drain (h : Sound look s) {order : List (EgressId × ℕ)} (hpc : s.pc = .draining)
    (ho : order.Perm s.client.egressById) :
    Sound look { s with pc := .stopping order, client := .new } := by
  obtain ⟨pc, client, egress⟩ := s
  obtain rfl : pc = .draining := hpc
  have hperm : (order.map Prod.snd).Perm (List.range configs.length) := by
    rw [← show _ = List.range configs.length from h.names rfl]
    exact ho.map Prod.snd
  have hmem : ∀ k, k ∈ order.map Prod.snd ↔ k < configs.length := by
    intro k
    rw [hperm.mem_iff, List.mem_range]
  refine ⟨h.held, h.locks, h.owned, fun k => ?_, by simp, nofun, nofun, h.distinct, h.usable, ?_⟩
  · have hk := h.phase k
    simp only [phaseOf, hmem] at hk ⊢
    by_cases hlt : k < configs.length
    · rw [if_pos hlt] at hk
      rw [if_neg (Nat.not_le.mpr hlt), if_pos hlt]
      split_ifs
      · exact hk.1
      · exact hk
    · rw [if_neg hlt] at hk
      rw [if_pos (Nat.le_of_not_lt hlt)]
      exact hk
  · intro left hl
    simp only [LaunchPc.stopping.injEq] at hl
    subst hl
    exact ⟨hperm.nodup_iff.mpr List.nodup_range, fun k => (hmem k).mp⟩

/-- The next egress is stopped. -/
lemma Sound.stopped (h : Sound look s) {id : EgressId} {k : ℕ} {left : List (EgressId × ℕ)}
    (hpc : s.pc = .stopping ((id, k) :: left)) (hdown : InPhase (s.egress k) .down) :
    Sound look { s with pc := .stopping left } := by
  obtain ⟨pc, client, egress⟩ := s
  obtain rfl : pc = .stopping ((id, k) :: left) := hpc
  obtain ⟨hnodup, hlt⟩ := h.left _ rfl
  rw [List.map_cons, List.nodup_cons] at hnodup
  refine ⟨h.held, h.locks, h.owned, fun j => ?_, by simp, nofun, nofun, h.distinct, h.usable, ?_⟩
  · have hj := h.phase j
    simp only [phaseOf, List.map_cons, List.head?_cons, Option.some.injEq, List.mem_cons] at hj ⊢
    by_cases hle : configs.length ≤ j
    · rw [if_pos hle] at hj ⊢
      exact hj
    · rw [if_neg hle] at hj ⊢
      rcases eq_or_ne k j with rfl | hne
      · have hhead : (left.map Prod.snd).head? ≠ some k := fun hk =>
          hnodup.1 (List.mem_of_head? hk)
        rw [if_neg hhead, if_neg hnodup.1]
        exact hdown
      · rw [if_neg hne] at hj
        simp only [hne.symm, false_or] at hj
        by_cases hhead : (left.map Prod.snd).head? = some j
        · rw [if_pos (List.mem_of_head? hhead)] at hj
          rw [if_pos hhead]
          exact hj.1
        · rw [if_neg hhead]
          exact hj
  · intro left' hl
    simp only [LaunchPc.stopping.injEq] at hl
    subst hl
    exact ⟨hnodup.2, fun j hj => hlt j (List.mem_cons_of_mem k hj)⟩

lemma Sound.allStopped (h : Sound look s) (hpc : s.pc = .stopping []) :
    Sound look { s with pc := .returned } := by
  obtain ⟨pc, client, egress⟩ := s
  obtain rfl : pc = .stopping [] := hpc
  refine ⟨h.held, h.locks, h.owned, fun j => ?_, by simp, nofun, nofun, h.distinct, h.usable,
    by simp⟩
  have hj := h.phase j
  simp only [phaseOf, List.map_nil, List.head?_nil, reduceCtorEq, List.not_mem_nil,
    if_false] at hj ⊢
  split_ifs at hj ⊢ with hle hlt
  · omega
  · exact hj
  · exact hj
  · omega

theorem Sound.step (h : Sound look s) (hs : LaunchClient.step look p s l = some s') :
    Sound look s' := by
  cases step_cases hs with
  | resolved hpc hc ht hserver hd => exact h.resolved hpc hc ⟨⟨_, ht⟩, ⟨_, hserver⟩, hd⟩
  | unresolved | startPanics | assignPanics => exact h.panic
  | started hpc hstart => exact h.started hpc hstart
  | assigned hpc hc hn => exact h.assign hpc hc hn
  | signalled hpc => exact h.signal hpc
  | drained hpc ho => exact h.drain hpc ho
  | stopped hpc hdown => exact h.stopped hpc hdown
  | allStopped hpc => exact h.allStopped hpc
  | egress hp hg => exact h.egress_step hp hg

theorem sound_run (h : (system look configs p).Run ls s) : Sound look s :=
  h.invariant (P := Sound look) sound_new fun _ _ _ hi hs => hi.step hs

end LaunchClient

end Siffleux
