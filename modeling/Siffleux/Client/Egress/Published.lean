import Siffleux.Client.Egress.Backoff

/-!
# What the published state says of the tunnel

Users of an egress wait for `Ready` before they send anything.  The tunnel task publishes it when it
has connected, and nobody takes it back when the tunnel is lost: `start` has published `Starting`
before the first attempt, and for the attempts after a loss nothing stands in its place.

* `OneStart` — the runs of one started egress: one call of `start` gets through, and any number of
  other calls of `start` and `stop` may run beside it.
* `Once` — what holds in all of them, of the calls and of the one task.
* `state_truthful_iff` — the published state tells the truth all along such a run exactly as long as
  the task does not leave its serving loop for another attempt.
-/

namespace Siffleux

open ByteBuf Transition

/-- The task waits for something: in `connect`, in its back-off or in the serving loop. -/
def TaskPc.isWaiting {σ : Type} : TaskPc σ → Bool
  | connecting _ | serving _ _ | waiting _ _ => true
  | _ => false

/-- The task is in its serving loop, over the tunnel it connected last. -/
def TaskPc.isServing {σ : Type} : TaskPc σ → Bool
  | serving _ _ => true
  | _ => false

lemma TaskPc.alive_of_isWaiting {σ : Type} {pc : TaskPc σ} (h : pc.isWaiting = true) :
    pc.alive = true := by
  cases pc <;> first | rfl | cases h

/-- The call has published `Starting`. -/
def StartPc.hasBegun : StartPc → Bool
  | write | spawn | store _ | returned => true
  | _ => false

/-- The call has taken a process. -/
def StopPc.hasTaken : StopPc → Bool
  | notCalled | refused => false
  | _ => true

namespace Egress

variable {L : MainLoop} {p : Profile} {ls : List (Label L)} {s s' : Egress L} {l : Label L}

/-- One call of `start` at most gets through. -/
def OneStart (ls : List (Label L)) : Prop := ∀ c d, .startSend c ∈ ls → .startSend d ∈ ls → c = d

/-- `Ready` is published if and only if the task serves, whenever it waits. -/
def Truthful (s : Egress L) : Prop :=
  ∀ i, (s.task i).isWaiting = true → (s.published = .ready ↔ (s.task i).isServing = true)

/-- The step does not take a task out of its serving loop for another attempt. -/
def KeepsTunnel (_ : Egress L) (l : Label L) : Prop := ∀ i, l ≠ .tunnelClosed i

/-! ## One start -/

/-- The one call, and the one task it spawns. -/
structure Once (ls : List (Label L)) (s : Egress L) : Prop where
  begun : ∀ c, (s.startCall c).hasBegun = true ↔ .startSend c ∈ ls
  fresh : s.nextTask = 0 → s.published ≠ .ready ∧ s.process = none ∧
    (∀ c i, s.startCall c ≠ .store i) ∧ ∀ d, (s.stopCall d).hasTaken = false
  spawned : s.nextTask ≠ 0 → s.nextTask = 1 ∧ (∃ c, .startSend c ∈ ls) ∧
    ∀ c, s.startCall c ≠ .write ∧ s.startCall c ≠ .spawn
  joined : ∀ d, s.stopCall d = .send → ∀ i, (s.task i).alive = false

lemma once_new : Once [] (new L) :=
  ⟨fun _ => by simp [new, StartPc.hasBegun], fun _ => ⟨by simp [new], rfl, fun _ _ => by simp [new],
    fun _ => rfl⟩, fun h => absurd rfl h, fun _ h => by simp [new] at h⟩

/-- A task that was never spawned is not alive. -/
lemma alive_eq_false_of_unspawned (h : (system L p).Run ls s) {i : ℕ} (hi : s.nextTask ≤ i) :
    (s.task i).alive = false := by
  rw [(counts_run h).unspawned i hi]
  rfl

lemma lt_of_alive (h : (system L p).Run ls s) {i : ℕ} (hi : (s.task i).alive = true) :
    i < s.nextTask := by
  by_contra hlt
  rw [alive_eq_false_of_unspawned h (Nat.not_lt.mp hlt)] at hi
  cases hi

/-- The task that moves is the only one there is. -/
lemma Once.alone (h : Once ls s) (hr : (system L p).Run ls s) {i j : ℕ}
    (hi : (s.task i).alive = true) (hj : (s.task j).alive = true) : i = j := by
  have hi' := lt_of_alive hr hi
  have hj' := lt_of_alive hr hj
  have hone := (h.spawned (by omega)).1
  omega

/-- What a call has done before its step, and has done after it. -/
lemma Once.hasBegun_update {c : ℕ} {pc : StartPc} (h : Once ls s)
    (hpc : pc.hasBegun = (s.startCall c).hasBegun) (d : ℕ) :
    (Function.update s.startCall c pc d).hasBegun = true ↔ .startSend d ∈ ls := by
  refine forall_update_iff (P := fun pc : StartPc => pc.hasBegun = true) h.begun ?_
    (fun _ _ => Iff.rfl) d
  rw [hpc]
  exact h.begun c

/-- What holds before a step that publishes no `Starting` is still said by the longer schedule. -/
lemma Once.concat (h : Once ls s) (hl : ∀ c, l ≠ .startSend c) : Once (ls ++ [l]) s := by
  have hmem : ∀ c, .startSend c ∈ ls ++ [l] ↔ .startSend c ∈ ls := by
    intro c
    rw [List.mem_append, List.mem_singleton]
    exact or_iff_left fun e => hl c e.symm
  refine ⟨fun d => (h.begun d).trans (hmem d).symm, h.fresh, fun hn => ?_, h.joined⟩
  obtain ⟨hone, ⟨c, hc⟩, hcalls⟩ := h.spawned hn
  exact ⟨hone, ⟨c, (hmem c).mpr hc⟩, hcalls⟩

/-- A step of `start` that is not its `startSend` and not its `startSpawn`. -/
lemma Once.setStart (h : Once ls s) {c : ℕ} {pc : StartPc}
    (hpc : pc.hasBegun = (s.startCall c).hasBegun) (hstore : ∀ i, pc ≠ .store i)
    (hnew : s.nextTask ≠ 0 → pc ≠ .write ∧ pc ≠ .spawn) {lock writer process : Option ℕ}
    (hprocess : s.nextTask = 0 → process = none) :
    Once ls { s.setStart c pc with
      processLock := lock, processWriter := writer, process := process } := by
  refine ⟨h.hasBegun_update hpc, fun hn => ?_, fun hn => ?_, h.joined⟩
  · obtain ⟨hready, -, hcalls, hstops⟩ := h.fresh hn
    refine ⟨hready, hprocess hn, fun d i => ?_, hstops⟩
    rcases eq_or_ne d c with rfl | hne
    · exact fun e => hstore i ((Function.update_self ..).symm.trans e)
    · exact fun e => hcalls d i ((Function.update_of_ne hne ..).symm.trans e)
  · obtain ⟨hone, hc, hcalls⟩ := h.spawned hn
    refine ⟨hone, hc, fun d => ?_⟩
    rcases eq_or_ne d c with rfl | hne
    · rw [show (s.setStart d pc).startCall d = pc from Function.update_self ..]
      exact hnew hn
    · rw [show (s.setStart c pc).startCall d = s.startCall d from Function.update_of_ne hne ..]
      exact hcalls d

/-- A step of `stop`; what it says of a `stop` that is about to publish has to be shown. -/
lemma Once.setStop (h : Once ls s) {c : ℕ} {pc : StopPc}
    (htaken : s.nextTask = 0 → pc.hasTaken = false)
    (hjoined : pc = .send → ∀ i, (s.task i).alive = false) {process : Option ℕ}
    {isCancelled : ℕ → Bool} {published : EgressState}
    (hprocess : s.nextTask = 0 → process = none)
    (hpublished : s.nextTask = 0 → published ≠ .ready) :
    Once ls { s.setStop c pc with
      process := process, isCancelled := isCancelled, published := published } := by
  refine ⟨h.begun, fun hn => ?_, h.spawned, fun d hd => ?_⟩
  · obtain ⟨-, -, hcalls, hstops⟩ := h.fresh hn
    refine ⟨hpublished hn, hprocess hn, hcalls, fun d => ?_⟩
    rcases eq_or_ne d c with rfl | hne
    · rw [show (s.setStop d pc).stopCall d = pc from Function.update_self ..]
      exact htaken hn
    · rw [show (s.setStop c pc).stopCall d = s.stopCall d from Function.update_of_ne hne ..]
      exact hstops d
  · rcases eq_or_ne d c with rfl | hne
    · exact hjoined ((Function.update_self ..).symm.trans hd)
    · exact h.joined d ((Function.update_of_ne hne ..).symm.trans hd)

/-- Before its `startSend` no call has begun, so nothing has been spawned. -/
lemma Once.nothing_spawned {c : ℕ} (h : Once ls s) (hone : OneStart (ls ++ [.startSend c]))
    (hc : s.startCall c = .send) : s.nextTask = 0 := by
  by_contra hn
  obtain ⟨d, hd⟩ := (h.spawned hn).2.1
  obtain rfl : d = c := hone d c (List.mem_append_left _ hd) (by simp)
  have hbegun := (h.begun d).mpr hd
  rw [hc] at hbegun
  cases hbegun

lemma Once.unspawned_of_spawn {c : ℕ} (h : Once ls s) (hc : s.startCall c = .spawn) :
    s.nextTask = 0 := by
  by_contra hn
  exact ((h.spawned hn).2.2 c).2 hc

/-- There is no process to take before the task is spawned. -/
lemma Once.not_taken {c : ℕ} {pc : StopPc} (h : Once ls s) (hn : s.nextTask = 0)
    (hc : s.stopCall c = pc) : pc.hasTaken = false :=
  hc ▸ (h.fresh hn).2.2.2 c

/-- The one call spawns the one task. -/
lemma Once.startSpawn {c : ℕ} (h : Once ls s) (hone : OneStart ls)
    (hc : s.startCall c = .spawn) :
    Once ls { (s.setStart c (.store s.nextTask)).setTask s.nextTask
      (.connecting 0) with nextTask := s.nextTask + 1 } := by
  have hzero := h.unspawned_of_spawn hc
  have hbegun : .startSend c ∈ ls := (h.begun c).mp (by rw [hc]; rfl)
  refine ⟨h.hasBegun_update (show (StartPc.store s.nextTask).hasBegun = _ by rw [hc]; rfl),
    fun hn => absurd hn (Nat.succ_ne_zero _), fun _ => ?_, fun d hd => ?_⟩
  · refine ⟨congrArg (· + 1) hzero, ⟨c, hbegun⟩, fun d => ?_⟩
    rcases eq_or_ne d c with rfl | hne
    · show Function.update _ _ _ _ ≠ _ ∧ Function.update _ _ _ _ ≠ _
      rw [Function.update_self]
      exact ⟨by simp, by simp⟩
    · show Function.update _ _ _ _ ≠ _ ∧ Function.update _ _ _ _ ≠ _
      rw [Function.update_of_ne hne]
      have hother : (s.startCall d).hasBegun ≠ true := by
        intro hd
        exact hne (hone d c ((h.begun d).mp hd) hbegun)
      exact ⟨fun e => hother (by rw [e]; rfl), fun e => hother (by rw [e]; rfl)⟩
  · cases h.not_taken hzero hd

/-- The one call begins: it publishes `Starting`. -/
lemma Once.startSend {c : ℕ} (h : Once ls s) (hone : OneStart (ls ++ [.startSend c]))
    (hc : s.startCall c = .send) :
    Once (ls ++ [.startSend c]) { s.setStart c .write with published := .starting } := by
  have hzero := h.nothing_spawned hone hc
  obtain ⟨-, hprocess, hcalls, hstops⟩ := h.fresh hzero
  refine ⟨fun d => ?_, fun _ => ⟨by simp, hprocess, fun d i => ?_, hstops⟩,
    fun hn => absurd hzero hn, h.joined⟩
  · rw [List.mem_append, List.mem_singleton]
    rcases eq_or_ne d c with rfl | hne
    · exact iff_of_true (by rw [show (s.setStart d .write).startCall d = .write from
        Function.update_self ..]; rfl) (Or.inr rfl)
    · rw [show (s.setStart c .write).startCall d = s.startCall d from Function.update_of_ne hne ..,
        h.begun d, or_iff_left fun e => hne (Label.startSend.inj e)]
  · rcases eq_or_ne d c with rfl | hne
    · rw [show (s.setStart d .write).startCall d = .write from Function.update_self ..]
      simp
    · exact fun e => hcalls d i ((Function.update_of_ne hne ..).symm.trans e)

/-- A task that moves changes nothing that is said of the calls. -/
lemma Once.task {i : ℕ} {pc : TaskPc L.Local} {published : EgressState} (h : Once ls s)
    (hr : (system L p).Run ls s) (halive : (s.task i).alive = true) :
    Once ls { s.setTask i pc with published := published } := by
  have hn : s.nextTask ≠ 0 := Nat.ne_of_gt (Nat.zero_lt_of_lt (lt_of_alive hr halive))
  refine ⟨h.begun, fun hz => absurd hz hn, h.spawned, fun d hd => ?_⟩
  have hdead := h.joined d hd i
  rw [halive] at hdead
  cases hdead

lemma OneStart.prefix (h : OneStart (ls ++ [l])) : OneStart ls :=
  fun c d hc hd => h c d (List.mem_append_left _ hc) (List.mem_append_left _ hd)

/-- A `stop` that has joined its task leaves no task alive. -/
lemma Once.all_ended (h : Once ls s) (hr : (system L p).Run ls s) {i : ℕ}
    (hi : s.task i = .finished) (j : ℕ) : (s.task j).alive = false := by
  by_contra hj
  rw [Bool.not_eq_false] at hj
  have hlt := lt_of_alive hr hj
  have hone := (h.spawned (by omega)).1
  have hi' : i < s.nextTask := by
    by_contra hge
    rw [(counts_run hr).unspawned i (Nat.not_lt.mp hge)] at hi
    cases hi
  obtain rfl : j = i := by omega
  rw [hi] at hj
  cases hj

theorem Once.step (h : Once ls s) (hr : (system L p).Run ls s) (hone : OneStart (ls ++ [l]))
    (hs : step p s l = some s') : Once (ls ++ [l]) s' := by
  cases step_cases hs with
  | task ht =>
      have hl : ∀ c, l ≠ .startSend c := by
        rintro c rfl
        cases ht
      obtain ⟨i, pc, published, halive, rfl, -⟩ := ht.moves
      exact (h.task hr halive).concat hl
  | call hc =>
      cases hc with
      | startSend hc => exact h.startSend hone hc
      | startSpawn hc => exact (h.startSpawn hone.prefix hc).concat fun _ e => by cases e
      | startLock hc _ | startChecked hc _ | startRefused hc _ =>
          refine (h.setStart (by rw [hc]; rfl) (by simp) (by simp) fun hn =>
            (h.fresh hn).2.1).concat fun _ e => by cases e
      | startWrite hc _ =>
          refine (h.setStart (by rw [hc]; rfl) (by simp) (fun hn => ?_) fun hn =>
            (h.fresh hn).2.1).concat fun _ e => by cases e
          exact absurd hc ((h.spawned hn).2.2 _).1
      | startStore hc =>
          refine (h.setStart (by rw [hc]; rfl) (by simp) (by simp) fun hn => ?_).concat
            fun _ e => by cases e
          exact absurd hc ((h.fresh hn).2.2.1 _ _)
      | stopTake _ _ hp =>
          refine (h.setStop (fun hn => ?_) (by simp) (fun _ => rfl) fun hn =>
            (h.fresh hn).1).concat fun _ e => by cases e
          rw [(h.fresh hn).2.1] at hp
          cases hp
      | stopRefused _ _ _ =>
          exact (h.setStop (fun _ => rfl) (by simp) (fun hn => (h.fresh hn).2.1) fun hn =>
            (h.fresh hn).1).concat fun _ e => by cases e
      | stopCancel hc | stopJoinFails hc _ =>
          refine (h.setStop (fun hn => ?_) (by simp) (fun hn => (h.fresh hn).2.1) fun hn =>
            (h.fresh hn).1).concat fun _ e => by cases e
          cases h.not_taken hn hc
      | stopJoined hc hi =>
          refine (h.setStop (fun hn => ?_) (fun _ => h.all_ended hr hi) (fun hn =>
            (h.fresh hn).2.1) fun hn => (h.fresh hn).1).concat fun _ e => by cases e
          cases h.not_taken hn hc
      | stopSend hc =>
          refine (h.setStop (fun hn => ?_) (by simp) (fun hn => (h.fresh hn).2.1) fun _ =>
            by simp).concat fun _ e => by cases e
          cases h.not_taken hn hc

theorem once_run (h : (system L p).Run ls s) (hone : OneStart ls) : Once ls s := by
  induction h with
  | nil => exact once_new
  | snoc hr hs ih => exact (ih hone.prefix).step hr hone hs

/-! ## The truth, step by step -/

/-- While a call of `start` moves, or a `stop`, it is told of the same task as before. -/
lemma truthful_congr {t : Egress L} (htask : t.task = s.task) (hpub : t.published = s.published) :
    Truthful t ↔ Truthful s := by
  simp only [Truthful, htask, hpub]

/-- Nobody waits, so nothing is said. -/
lemma truthful_of_none_alive (h : ∀ i, (s.task i).alive = false) : Truthful s := by
  intro i hi
  have halive := TaskPc.alive_of_isWaiting hi
  rw [h i] at halive
  cases halive

/-- The task that moves is the one that the published state is about. -/
lemma Once.truthful_task {i : ℕ} {pc : TaskPc L.Local} {published : EgressState} (h : Once ls s)
    (hr : (system L p).Run ls s) (hi : (s.task i).alive = true) :
    Truthful { s.setTask i pc with published := published } ↔
      (pc.isWaiting = true → (published = .ready ↔ pc.isServing = true)) := by
  constructor
  · intro ht hw
    have hself := ht i
    rw [show (setTask s i pc).task i = pc from Function.update_self ..] at hself
    exact hself hw
  · intro hpc j hj
    rcases eq_or_ne j i with rfl | hne
    · rw [show (setTask s j pc).task j = pc from Function.update_self ..] at hj ⊢
      exact hpc hj
    · rw [show (setTask s i pc).task j = s.task j from Function.update_of_ne hne ..] at hj
      exact absurd (h.alone hr (TaskPc.alive_of_isWaiting hj) hi) hne

/-- **The state stays true unless the task loses its tunnel.** -/
theorem Once.truthful_step (h : Once ls s) (hr : (system L p).Run ls s)
    (hone : OneStart (ls ++ [l])) (ht : Truthful s) (hs : Egress.step p s l = some s') :
    Truthful s' ↔ KeepsTunnel s l := by
  cases step_cases hs with
  | call hc =>
      have hok : KeepsTunnel s l := by
        rintro i rfl
        cases hc
      refine iff_of_true ?_ hok
      cases hc with
      | startSend hc =>
          have hzero := h.nothing_spawned hone hc
          exact truthful_of_none_alive fun i => alive_eq_false_of_unspawned hr (by omega)
      | @startSpawn c hc =>
          have hzero := h.unspawned_of_spawn hc
          intro i hi
          rcases eq_or_ne i s.nextTask with rfl | hne
          · refine iff_of_false (h.fresh hzero).1 ?_
            rw [show (setTask (s.setStart c (.store s.nextTask)) s.nextTask (.connecting 0)).task
              s.nextTask = .connecting 0 from Function.update_self ..]
            simp [TaskPc.isServing]
          · rw [show (setTask (s.setStart c (.store s.nextTask)) s.nextTask (.connecting 0)).task
              i = s.task i from Function.update_of_ne hne ..] at hi
            have halive := TaskPc.alive_of_isWaiting hi
            rw [alive_eq_false_of_unspawned hr (by omega)] at halive
            cases halive
      | stopSend hc => exact truthful_of_none_alive (h.joined _ hc)
      | _ => exact (truthful_congr rfl rfl).mpr ht
  | task hc =>
      cases hc with
      | @leftLoop i loop hi =>
          have hready : s.published = .ready := (ht i (by rw [hi]; rfl)).mpr (by rw [hi]; rfl)
          refine iff_of_false (fun ht' => ?_) (fun hok => hok i rfl)
          have hnot := ((h.truthful_task hr (by rw [hi]; rfl)).mp ht') rfl
          cases hnot.mp hready
      | @sentReady i hi =>
          refine iff_of_true ((h.truthful_task hr (by rw [hi]; rfl)).mpr fun _ => ?_)
            fun _ e => by cases e
          exact iff_of_true rfl rfl
      | connected hi | delayPanics hi _ | loopPanics hi _ | servingCancelled _ hi
      | waitingCancelled _ hi | closed hi | retryPanics hi _ =>
          refine iff_of_true ((h.truthful_task hr (by rw [hi]; rfl)).mpr fun hw => ?_)
            fun _ e => by cases e
          cases hw
      | @connectFailed i _ _ hi _ | @slept i _ _ _ hi _ =>
          have hnot := ht i (by rw [hi]; rfl)
          rw [hi] at hnot
          exact iff_of_true ((h.truthful_task hr (by rw [hi]; rfl)).mpr fun _ => hnot)
            fun _ e => by cases e
      | @served i _ _ _ _ hi _ | @lost i _ _ hi =>
          have hready := ht i (by rw [hi]; rfl)
          rw [hi] at hready
          exact iff_of_true ((h.truthful_task hr (by rw [hi]; rfl)).mpr fun _ => hready)
            fun _ e => by cases e

theorem truthful_iff (h : (system L p).Run ls s) (hone : OneStart ls) :
    (system L p).Always Truthful ls ↔ (system L p).RunWithin KeepsTunnel ls s := by
  refine h.always_iff_within_steps (fun i hi => by cases hi) fun ms t l t' hms hr ht hs => ?_
  have hone' : OneStart (ms ++ [l]) := fun c d hc hd => hone c d (hms.subset hc) (hms.subset hd)
  exact (once_run hr hone'.prefix).truthful_step hr hone' ht hs

end Egress

/-- **The published state tells the truth until the tunnel is lost.**  In every run of one started
egress, TCP or UDP, the state is `Ready` in all waiting states of the task exactly when it serves,
if and only if the task never leaves its serving loop because the tunnel has closed. -/
theorem state_truthful_iff (p : Profile) :
    (∀ ls s, (TcpEgress.system p).Run ls s → Egress.OneStart ls →
      ((TcpEgress.system p).Always Egress.Truthful ls ↔
        (TcpEgress.system p).RunWithin Egress.KeepsTunnel ls s)) ∧
    (∀ ls s, (UdpEgress.system p).Run ls s → Egress.OneStart ls →
      ((UdpEgress.system p).Always Egress.Truthful ls ↔
        (UdpEgress.system p).RunWithin Egress.KeepsTunnel ls s)) :=
  ⟨fun _ _ h => Egress.truthful_iff h, fun _ _ h => Egress.truthful_iff h⟩

/-- Connected at the second attempt. -/
def connectedAtLast : List TcpEgress.Label :=
  startAll 0 ++ [.connectFails 0, .sleepElapsed 0, .connected 0, .sendReady 0]

lemma oneStart_of_startAll {ls : List TcpEgress.Label} (h : ∀ c, .startSend c ∉ ls) :
    Egress.OneStart (startAll 0 ++ ls) := by
  intro c d hc hd
  simp only [startAll, List.mem_append, List.mem_cons, List.not_mem_nil, or_false, h, reduceCtorEq,
    false_or, Egress.Label.startSend.injEq] at hc hd
  rw [hc, hd]

/-- The state follows the task through a failed attempt and a connect. -/
theorem state_truthful_connected : ∃ s, (TcpEgress.system .release).Run connectedAtLast s ∧
    (TcpEgress.system .release).Always Egress.Truthful connectedAtLast ∧ s.published = .ready := by
  have h : (TcpEgress.system .release).RunWithin Egress.KeepsTunnel connectedAtLast _ :=
    System.runWithin_of_exec rfl ⟨fun _ e => (by cases e), fun _ e => (by cases e),
      fun _ e => (by cases e), fun _ e => (by cases e), fun _ e => (by cases e),
      fun _ e => (by cases e), fun _ e => (by cases e), fun _ e => (by cases e),
      fun _ e => (by cases e), fun _ e => (by cases e), trivial⟩
  exact ⟨_, h.run, ((state_truthful_iff .release).1 _ _ h.run
    (oneStart_of_startAll (by simp))).mpr h, rfl⟩

/-- A tunnel that is lost leaves `Ready` behind, while the task connects again. -/
theorem ready_outlives_tunnel :
    ∃ s, (TcpEgress.system .release).Run
        (startAll 0 ++ [.connected 0, .sendReady 0, .lose 0, .tunnelClosed 0]) s ∧
      Egress.OneStart (startAll 0 ++ [.connected 0, .sendReady 0, .lose 0, .tunnelClosed 0] :
        List TcpEgress.Label) ∧
      s.task 0 = .connecting 0 ∧ s.published = .ready ∧ ¬ Egress.Truthful s := by
  refine ⟨_, System.run_of_exec rfl, oneStart_of_startAll (by simp), rfl, rfl, fun h => ?_⟩
  have hserving := (h 0 rfl).mp rfl
  cases hserving

end Siffleux
