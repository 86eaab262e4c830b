import Siffleux.Client.Egress.Published
import Siffleux.Foundation.Progress

/-!
# The calls of an egress come to their end

`start` waits for `process_lock` and, holding it, for the write guard of `process`; `stop` waits for
that guard, and then for the tunnel task it has taken.  A task that is connecting does not look at
its token, and one that serves or sleeps may find something else to do beside the cancellation.

* `LockSound` — the guard is held under the lock, so a `start` that has the lock waits for nobody.
* `TasksHeld` — a task that is alive is in `process`, or with a `start` that will store it, or with
  the `stop` that took it; and a `stop` waits only for a task whose token it has cancelled.
* `calls_complete` — both calls return within a fixed number of steps of their own and of the
  task that is waited for, not counting what it serves, whatever the other calls and tasks do.
-/

namespace Siffleux

open ByteBuf Transition

/-- The call holds the write guard of `process`. -/
def StartPc.writes : StartPc → Bool
  | .spawn | .store _ => true
  | _ => false

/-- The call has found `process` empty, and holds the lock since. -/
def StartPc.hasChecked : StartPc → Bool
  | .send | .write | .spawn | .store _ => true
  | _ => false

/-- The task a `stop` has taken and not joined yet. -/
def StopPc.task : StopPc → Option ℕ
  | .cancel i | .await i => some i
  | _ => none

/-- The steps a call of `start` still has to take. -/
def StartPc.rank : StartPc → ℕ
  | .check => 5
  | .send => 4
  | .write => 3
  | .spawn => 2
  | .store _ => 1
  | _ => 0

/-- The steps a cancelled task may still take before it is over. -/
def TaskPc.rank {σ : Type} : TaskPc σ → ℕ
  | .connecting _ => 4
  | .announcing => 3
  | .serving _ _ => 2
  | .waiting _ _ | .closing => 1
  | _ => 0

namespace Egress

variable {L : MainLoop} {p : Profile} {s s' : Egress L} {ls : List (Label L)} {l : Label L}

/-! ## The lock and the guard -/

structure LockSound (s : Egress L) : Prop where
  lock : ∀ c, locked (s.startCall c) = true ↔ s.processLock = some c
  writer : ∀ c, StartPc.writes (s.startCall c) = true ↔ s.processWriter = some c
  checked : ∀ c, StartPc.hasChecked (s.startCall c) = true → s.process = none

lemma lockSound_new : (new L).LockSound :=
  ⟨fun _ => by simp [new, locked], fun _ => by simp [new, StartPc.writes],
    fun _ h => by simp [new, StartPc.hasChecked] at h⟩

lemma locked_of_hasChecked {pc : StartPc} (h : StartPc.hasChecked pc = true) :
    locked pc = true := by
  cases pc <;> first | rfl | cases h

lemma locked_of_writes {pc : StartPc} (h : StartPc.writes pc = true) : locked pc = true := by
  cases pc <;> first | rfl | cases h

lemma LockSound.unique (h : s.LockSound) {c d : ℕ} (hc : locked (s.startCall c) = true)
    (hd : locked (s.startCall d) = true) : c = d := by
  have hlc := (h.lock c).mp hc
  rw [(h.lock d).mp hd] at hlc
  exact (Option.some.inj hlc).symm

/-- The call that holds the lock moves; nobody else holds the lock or the guard. -/
lemma LockSound.setStart (h : s.LockSound) {c : ℕ} (pc : StartPc) {lock writer process : Option ℕ}
    (hc : ∀ d, s.processLock = some d → d = c) (hl : lock = if locked pc then some c else none)
    (hw : writer = if StartPc.writes pc then some c else none)
    (hp : StartPc.hasChecked pc = true → process = none) {published : EgressState}
    {task : ℕ → TaskPc L.Local} {nextTask : ℕ} :
    LockSound { s.setStart c pc with
      processLock := lock, processWriter := writer, process := process,
      published := published, task := task, nextTask := nextTask } := by
  have hothers : ∀ d, d ≠ c → locked (s.startCall d) = false := by
    intro d hne
    rw [Bool.eq_false_iff]
    intro hd
    exact hne (hc d ((h.lock d).mp hd))
  subst hl hw
  refine ⟨fun d => ?_, fun d => ?_, fun d hd => ?_⟩
  · show locked (Function.update s.startCall c pc d) = true ↔
      (if locked pc = true then some c else none) = some d
    rcases eq_or_ne d c with rfl | hne
    · simp
    · simp [hne, hne.symm, hothers d hne]
  · show (Function.update s.startCall c pc d).writes = true ↔
      (if pc.writes = true then some c else none) = some d
    rcases eq_or_ne d c with rfl | hne
    · simp
    · have hw : (s.startCall d).writes = false := by
        rw [Bool.eq_false_iff]
        intro hd
        exact absurd (locked_of_writes hd) (by simp [hothers d hne])
      simp [hne, hne.symm, hw]
  · have hd' : StartPc.hasChecked (Function.update s.startCall c pc d) = true := hd
    rcases eq_or_ne d c with rfl | hne
    · rw [Function.update_self] at hd'
      exact hp hd'
    · rw [Function.update_of_ne hne] at hd'
      have := hothers d hne
      rw [locked_of_hasChecked hd'] at this
      cases this

/-- The holder of the lock finds the guard free, if it does not hold it itself. -/
lemma LockSound.no_writer (hl : s.LockSound) {c : ℕ} (hc : locked (s.startCall c) = true)
    (hw : (s.startCall c).writes = false) : s.processWriter = none := by
  rw [Option.eq_none_iff_forall_ne_some]
  intro d hd
  have hwd := (hl.writer d).mpr hd
  rw [hl.unique (locked_of_writes hwd) hc, hw] at hwd
  cases hwd

theorem LockSound.step (h : s.LockSound) (hs : step p s l = some s') : s'.LockSound := by
  have holder : ∀ {c}, locked (s.startCall c) = true → ∀ d, s.processLock = some d → d = c :=
    fun hc d hd => h.unique ((h.lock d).mpr hd) hc
  cases step_cases hs with
  | task ht =>
      obtain ⟨i, pc, published, -, rfl, -⟩ := ht.moves
      exact ⟨h.lock, h.writer, h.checked⟩
  | call hcall =>
      cases hcall with
      | @startLock c hc hl =>
          have hw : s.processWriter = none := by
            rw [Option.eq_none_iff_forall_ne_some]
            intro d hd
            have := (h.lock d).mp (locked_of_writes ((h.writer d).mpr hd))
            rw [hl] at this
            cases this
          exact h.setStart .check (fun d hd => by rw [hl] at hd; cases hd) rfl hw
            fun hp => by cases hp
      | @startRefused c i hc hp =>
          have hl : locked (s.startCall c) = true := by rw [hc]; rfl
          exact h.setStart .refused (holder hl) rfl (h.no_writer hl (by rw [hc]; rfl))
            fun hp => by cases hp
      | @startChecked c hc hp =>
          have hl : locked (s.startCall c) = true := by rw [hc]; rfl
          exact h.setStart .send (holder hl) ((h.lock c).mp hl) (h.no_writer hl (by rw [hc]; rfl))
            fun _ => hp
      | @startSend c hc =>
          have hl : locked (s.startCall c) = true := by rw [hc]; rfl
          exact h.setStart .write (holder hl) ((h.lock c).mp hl) (h.no_writer hl (by rw [hc]; rfl))
            fun _ => h.checked c (by rw [hc]; rfl)
      | @startWrite c hc hw =>
          have hl : locked (s.startCall c) = true := by rw [hc]; rfl
          exact h.setStart .spawn (holder hl) ((h.lock c).mp hl) rfl
            fun _ => h.checked c (by rw [hc]; rfl)
      | @startSpawn c hc =>
          have hl : locked (s.startCall c) = true := by rw [hc]; rfl
          exact h.setStart (.store s.nextTask) (holder hl) ((h.lock c).mp hl)
            ((h.writer c).mp (by rw [hc]; rfl)) fun _ => h.checked c (by rw [hc]; rfl)
      | @startStore c i hc =>
          have hl : locked (s.startCall c) = true := by rw [hc]; rfl
          exact h.setStart .returned (holder hl) rfl rfl fun hp => by cases hp
      | stopTake => exact ⟨h.lock, h.writer, fun _ _ => rfl⟩
      | stopRefused | stopCancel | stopJoined | stopJoinFails | stopSend =>
          exact ⟨h.lock, h.writer, h.checked⟩

lemma lockSound_run (h : (system L p).Run ls s) : s.LockSound :=
  h.invariant (P := LockSound) lockSound_new fun _ _ _ hi hs => hi.step hs

/-! ## Who has a task -/

/-- The task is in `process`, with a `start` that will store it, or with a `stop` that took it. -/
def Holds (s : Egress L) (i : ℕ) : Prop :=
  s.process = some i ∨ (∃ c, s.startCall c = .store i) ∨ ∃ c, (s.stopCall c).task = some i

structure TasksHeld (s : Egress L) : Prop where
  unspawned : ∀ i, s.task i = .notSpawned ↔ s.nextTask ≤ i
  held : ∀ i, s.Holds i → i < s.nextTask
  alive : ∀ i, (s.task i).alive = true → s.Holds i
  awaited : ∀ c i, s.stopCall c = .await i → s.isCancelled i = true

lemma tasksHeld_new : (new L).TasksHeld := by
  refine ⟨fun i => iff_of_true rfl (Nat.zero_le i), fun i h => ?_, fun i h => (by cases h),
    fun c i h => (by cases h)⟩
  rcases h with h | ⟨c, h⟩ | ⟨c, h⟩ <;> cases h

lemma TaskStep.spawned (hs : TaskStep p s l s') : ∃ i pc published, (s.task i).alive = true ∧
    pc ≠ .notSpawned ∧ s' = { s.setTask i pc with published := published } := by
  cases hs with
  | sentReady h => exact ⟨_, _, .ready, by rw [h]; rfl, by simp, rfl⟩
  | connected h | connectFailed h | delayPanics h | served h | loopPanics h | lost h | leftLoop h
  | servingCancelled _ h | waitingCancelled _ h | closed h | slept h | retryPanics h =>
      exact ⟨_, _, s.published, by rw [h]; rfl, by simp, rfl⟩

lemma TasksHeld.setTask (h : s.TasksHeld) {i : ℕ} {pc : TaskPc L.Local}
    (hi : (s.task i).alive = true) (hpc : pc ≠ .notSpawned) {published : EgressState} :
    TasksHeld { s.setTask i pc with published := published } := by
  refine ⟨fun j => ?_, h.held, fun j hj => ?_, h.awaited⟩
  · show Function.update s.task i pc j = .notSpawned ↔ s.nextTask ≤ j
    rcases eq_or_ne j i with rfl | hne
    · have hlt := h.held j (h.alive j hi)
      simp only [Function.update_self, hpc, false_iff]
      omega
    · rw [Function.update_of_ne hne]
      exact h.unspawned j
  · rcases eq_or_ne j i with rfl | hne
    · exact h.alive j hi
    · have hj' : (Function.update s.task i pc j).alive = true := hj
      rw [Function.update_of_ne hne] at hj'
      exact h.alive j hj'

/-- A step of a call hands its task on. -/
lemma TasksHeld.congr (h : s.TasksHeld) (ht : s'.task = s.task) (hn : s'.nextTask = s.nextTask)
    (hh : ∀ i, s'.Holds i → s.Holds i)
    (ha : ∀ i, (s.task i).alive = true → s.Holds i → s'.Holds i)
    (hw : ∀ c i, s'.stopCall c = .await i → s'.isCancelled i = true) : s'.TasksHeld where
  unspawned i := by
    rw [ht, hn]
    exact h.unspawned i
  held i hi := by
    rw [hn]
    exact h.held i (hh i hi)
  alive i hi := by
    rw [ht] at hi
    exact ha i hi (h.alive i hi)
  awaited := hw

lemma holds_setStart {c i : ℕ} {pc : StartPc} (hpc : ∀ j, pc ≠ .store j)
    (hc : ∀ j, s.startCall c ≠ .store j) {lock writer : Option ℕ} {published : EgressState} :
    Holds { s.setStart c pc with
      processLock := lock, processWriter := writer, published := published } i ↔ s.Holds i := by
  refine or_congr Iff.rfl (or_congr ⟨fun ⟨d, hd⟩ => ⟨d, ?_⟩, fun ⟨d, hd⟩ => ⟨d, ?_⟩⟩ Iff.rfl)
  · have hd' : Function.update s.startCall c pc d = .store i := hd
    rcases eq_or_ne d c with rfl | hne
    · rw [Function.update_self] at hd'
      exact absurd hd' (hpc i)
    · rwa [Function.update_of_ne hne] at hd'
  · show Function.update s.startCall c pc d = .store i
    rcases eq_or_ne d c with rfl | hne
    · exact absurd hd (hc i)
    · rwa [Function.update_of_ne hne]

lemma TasksHeld.setStart (h : s.TasksHeld) {c : ℕ} {pc : StartPc} (hpc : ∀ j, pc ≠ .store j)
    (hc : ∀ j, s.startCall c ≠ .store j) {lock writer : Option ℕ} {published : EgressState} :
    TasksHeld { s.setStart c pc with
      processLock := lock, processWriter := writer, published := published } :=
  h.congr rfl rfl (fun _ => (holds_setStart hpc hc).mp)
    (fun _ _ => (holds_setStart hpc hc).mpr) h.awaited

lemma TasksHeld.spawn (h : s.TasksHeld) {c : ℕ} (hc : s.startCall c = .spawn) :
    TasksHeld { (s.setStart c (.store s.nextTask)).setTask s.nextTask (.connecting 0) with
      nextTask := s.nextTask + 1 } := by
  have hholds : ∀ i, Holds { (s.setStart c (.store s.nextTask)).setTask s.nextTask (.connecting 0)
      with nextTask := s.nextTask + 1 } i ↔ s.Holds i ∨ i = s.nextTask := by
    intro i
    constructor
    · rintro (hp | ⟨d, hd⟩ | hst)
      · exact Or.inl (Or.inl hp)
      · have hd' : Function.update s.startCall c (.store s.nextTask) d = .store i := hd
        rcases eq_or_ne d c with rfl | hne
        · rw [Function.update_self] at hd'
          exact Or.inr (StartPc.store.inj hd').symm
        · rw [Function.update_of_ne hne] at hd'
          exact Or.inl (Or.inr (Or.inl ⟨d, hd'⟩))
      · exact Or.inl (Or.inr (Or.inr hst))
    · rintro ((hp | ⟨d, hd⟩ | hst) | rfl)
      · exact Or.inl hp
      · refine Or.inr (Or.inl ⟨d, ?_⟩)
        have hne : d ≠ c := by
          rintro rfl
          rw [hc] at hd
          cases hd
        exact (Function.update_of_ne hne ..).trans hd
      · exact Or.inr (Or.inr hst)
      · exact Or.inr (Or.inl ⟨c, Function.update_self ..⟩)
  refine ⟨fun i => ?_, fun i hi => ?_, fun i hi => (hholds i).mpr ?_, h.awaited⟩
  · show Function.update s.task s.nextTask (.connecting 0) i = .notSpawned ↔ s.nextTask + 1 ≤ i
    rcases eq_or_ne i s.nextTask with rfl | hne
    · simp
    · rw [Function.update_of_ne hne, h.unspawned]
      omega
  · show i < s.nextTask + 1
    rcases (hholds i).mp hi with hold | rfl
    · exact Nat.lt_succ_of_lt (h.held i hold)
    · exact Nat.lt_succ_self _
  · have hi' : (Function.update s.task s.nextTask (.connecting 0) i).alive = true := hi
    rcases eq_or_ne i s.nextTask with rfl | hne
    · exact Or.inr rfl
    · rw [Function.update_of_ne hne] at hi'
      exact Or.inl (h.alive i hi')

/-- `start` stores its task over nothing. -/
lemma TasksHeld.store (h : s.TasksHeld) {c i : ℕ} (hc : s.startCall c = .store i)
    (hp : s.process = none) {lock writer : Option ℕ} :
    TasksHeld { s.setStart c .returned with
      process := some i, processLock := lock, processWriter := writer } := by
  refine h.congr rfl rfl (fun j hj => ?_) (fun j _ hj => ?_) h.awaited
  · rcases hj with hj | ⟨d, hd⟩ | hst
    · obtain rfl : i = j := Option.some.inj hj
      exact Or.inr (Or.inl ⟨c, hc⟩)
    · have hd' : Function.update s.startCall c .returned d = .store j := hd
      rcases eq_or_ne d c with rfl | hne
      · rw [Function.update_self] at hd'
        cases hd'
      · rw [Function.update_of_ne hne] at hd'
        exact Or.inr (Or.inl ⟨d, hd'⟩)
    · exact Or.inr (Or.inr hst)
  · rcases hj with hj | ⟨d, hd⟩ | hst
    · rw [hp] at hj
      cases hj
    · rcases eq_or_ne d c with rfl | hne
      · rw [hc] at hd
        exact Or.inl (congrArg some (StartPc.store.inj hd))
      · exact Or.inr (Or.inl ⟨d, (Function.update_of_ne hne ..).trans hd⟩)
    · exact Or.inr (Or.inr hst)

/-- Who holds a task once the call `c` of `stop` has moved: the others hold what they held. -/
lemma holds_setStop {c i : ℕ} {pc : StopPc} {process : Option ℕ} {published : EgressState}
    {isCancelled : ℕ → Bool} :
    Holds { s.setStop c pc with
      process := process, published := published, isCancelled := isCancelled } i ↔
      process = some i ∨ (∃ d, s.startCall d = .store i) ∨
        pc.task = some i ∨ ∃ d, d ≠ c ∧ (s.stopCall d).task = some i := by
  refine or_congr Iff.rfl (or_congr Iff.rfl ⟨fun ⟨d, hd⟩ => ?_, ?_⟩)
  · have hd' : (Function.update s.stopCall c pc d).task = some i := hd
    rcases eq_or_ne d c with rfl | hne
    · rw [Function.update_self] at hd'
      exact Or.inl hd'
    · rw [Function.update_of_ne hne] at hd'
      exact Or.inr ⟨d, hne, hd'⟩
  · rintro (hpc | ⟨d, hne, hd⟩)
    · exact ⟨c, (congrArg StopPc.task (Function.update_self ..)).trans hpc⟩
    · exact ⟨d, (congrArg StopPc.task (Function.update_of_ne hne ..)).trans hd⟩

lemma holds_iff_of_stop (c : ℕ) {i : ℕ} : s.Holds i ↔
    s.process = some i ∨ (∃ d, s.startCall d = .store i) ∨
      (s.stopCall c).task = some i ∨ ∃ d, d ≠ c ∧ (s.stopCall d).task = some i := by
  refine or_congr Iff.rfl (or_congr Iff.rfl ⟨fun ⟨d, hd⟩ => ?_, ?_⟩)
  · rcases eq_or_ne d c with rfl | hne
    · exact Or.inl hd
    · exact Or.inr ⟨d, hne, hd⟩
  · rintro (hc | ⟨d, -, hd⟩)
    · exact ⟨c, hc⟩
    · exact ⟨d, hd⟩

/-- A step of `stop`: what it lets go is not alive any more. -/
lemma TasksHeld.setStop (h : s.TasksHeld) {c : ℕ} {pc : StopPc} {process : Option ℕ}
    {published : EgressState} {isCancelled : ℕ → Bool}
    (hhand : ∀ i, process = some i ∨ pc.task = some i →
      s.process = some i ∨ (s.stopCall c).task = some i)
    (hkeep : ∀ i, (s.task i).alive = true → s.process = some i ∨ (s.stopCall c).task = some i →
      process = some i ∨ pc.task = some i)
    (hcan : ∀ i, s.isCancelled i = true → isCancelled i = true)
    (hpc : ∀ i, pc = .await i → isCancelled i = true) :
    TasksHeld { s.setStop c pc with
      process := process, published := published, isCancelled := isCancelled } := by
  refine h.congr rfl rfl (fun i hi => ?_) (fun i ha hi => ?_) fun d i hd => ?_
  · rw [holds_setStop] at hi
    rw [holds_iff_of_stop c]
    have := hhand i
    tauto
  · rw [holds_iff_of_stop c] at hi
    rw [holds_setStop]
    have := hkeep i ha
    tauto
  · have hd' : Function.update s.stopCall c pc d = .await i := hd
    rcases eq_or_ne d c with rfl | hne
    · rw [Function.update_self] at hd'
      exact hpc i hd'
    · rw [Function.update_of_ne hne] at hd'
      exact hcan i (h.awaited d i hd')

theorem TasksHeld.step (h : s.TasksHeld) (hl : s.LockSound) (hs : step p s l = some s') :
    s'.TasksHeld := by
  -- a step of `stop` that takes nothing and lets go of nothing
  have hsame : ∀ {c : ℕ} {pc : StopPc}, pc.task = (s.stopCall c).task → (∀ i, pc ≠ .await i) →
      ∀ published : EgressState, TasksHeld { s.setStop c pc with published := published } := by
    intro c pc htask hpc published
    refine h.setStop (fun i hi => ?_) (fun i _ hi => ?_) (fun _ hi => hi)
      fun i hi => absurd hi (hpc i)
    · rwa [htask] at hi
    · rwa [htask]
  -- one that has found its task over
  have hover : ∀ {c i : ℕ} {pc : StopPc}, s.stopCall c = .await i → (s.task i).alive = false →
      pc.task = none → (∀ i, pc ≠ .await i) → TasksHeld (s.setStop c pc) := by
    intro c i pc hc ht htask hpc
    refine h.setStop (fun j hj => ?_) (fun j hj hor => ?_) (fun _ hi => hi)
      fun i hi => absurd hi (hpc i)
    · rw [htask] at hj
      exact Or.inl (hj.resolve_right (by simp))
    · refine hor.imp id fun htask' => ?_
      rw [hc] at htask'
      obtain rfl : i = j := Option.some.inj htask'
      rw [ht] at hj
      cases hj
  cases step_cases hs with
  | task ht =>
      obtain ⟨i, pc, published, ha, hpc, rfl⟩ := ht.spawned
      exact h.setTask ha hpc
  | call hcall =>
      cases hcall with
      | startLock hc | startRefused hc | startChecked hc | startSend hc | startWrite hc =>
          exact h.setStart (by simp) (by simp [hc])
      | startSpawn hc => exact h.spawn hc
      | @startStore c i hc => exact h.store hc (hl.checked c (by rw [hc]; rfl))
      | @stopTake c i hc hw hp =>
          refine h.setStop (fun j hj => Or.inl ?_) (fun j _ hj => Or.inr ?_) (fun _ hi => hi)
            (by simp)
          · rw [hp]
            exact hj.resolve_left (by simp)
          · rw [hp, hc] at hj
            exact hj.resolve_right (by simp [StopPc.task])
      | stopRefused hc hw hp => exact hsame (by rw [hc]; rfl) (by simp) _
      | @stopCancel c i hc =>
          refine h.setStop (fun j hj => ?_) (fun j _ hj => ?_) (fun j hj => ?_) (fun j hj => ?_)
          · rw [hc]
            exact hj
          · rw [hc] at hj
            exact hj
          · rcases eq_or_ne j i with rfl | hne
            · exact Function.update_self ..
            · rwa [Function.update_of_ne hne]
          · obtain rfl : i = j := StopPc.await.inj hj
            exact Function.update_self ..
      | stopJoined hc ht => exact hover hc (by rw [ht]; rfl) rfl (by simp)
      | stopJoinFails hc ht => exact hover hc (by rw [ht]; rfl) rfl (by simp)
      | stopSend hc => exact hsame (by rw [hc]; rfl) (by simp) _

lemma tasksHeld_run (h : (system L p).Run ls s) : s.TasksHeld := by
  induction h with
  | nil => exact tasksHeld_new
  | snoc hr hs ih => exact ih.step (lockSound_run hr) hs

/-! ## What the calls still have to do -/

/-- The steps of the call `c` of `start`, once it has the lock. -/
def isStartStep (c : ℕ) (_ : Egress L) : Label L → Bool
  | .startCheck d | .startSend d | .startWrite d | .startSpawn d | .startStore d => d = c
  | _ => false

/-- The steps that bring the cancelled task `i` to its end.  An event that it still serves does
not. -/
def isTaskStep (i : ℕ) : Label L → Bool
  | .connected j | .connectFails j | .sendReady j | .processCancelled j | .closed j => j = i
  | _ => false

/-- The steps of the call `c` of `stop`, and those of the task it waits for. -/
def isStopStep (c : ℕ) (s : Egress L) : Label L → Bool
  | .stopCancel d | .stopAwait d | .stopSend d => d = c
  | l => match s.stopCall c with
    | .await i => isTaskStep i l
    | _ => false

/-- The task that is waited for does not begin anew beside its cancellation: it does not find its
tunnel closed, or its sleep over. -/
def EndsTask (c : ℕ) (s : Egress L) (l : Label L) : Prop :=
  ∀ i, s.stopCall c = .await i → l ≠ .tunnelClosed i ∧ l ≠ .sleepElapsed i

def stopRank (s : Egress L) (c : ℕ) : ℕ :=
  match s.stopCall c with
  | .cancel _ => 7
  | .await i => 2 + TaskPc.rank (s.task i)
  | .send => 1
  | _ => 0

lemma rank_update {f : ℕ → StartPc} {c d : ℕ} {pc : StartPc} (h : f c ≠ .notCalled)
    (hpc : pc ≠ .notCalled) (hr : StartPc.rank pc + 1 ≤ StartPc.rank (f d)) :
    Function.update f d pc c ≠ .notCalled ∧
      StartPc.rank (Function.update f d pc c) + (decide (d = c)).toNat ≤ StartPc.rank (f c) := by
  rcases eq_or_ne d c with rfl | hne
  · simpa [hpc] using hr
  · simp [hne, hne.symm, h]

/-- **A `start` is moved on by its own steps, and set back by nobody's.** -/
lemma startRank_step {c : ℕ} (h : s.startCall c ≠ .notCalled) (hs : step p s l = some s') :
    s'.startCall c ≠ .notCalled ∧ StartPc.rank (s'.startCall c) + (isStartStep c s l).toNat ≤
      StartPc.rank (s.startCall c) := by
  cases step_cases hs with
  | task ht =>
      have hl : isStartStep c s l = false := by cases ht <;> rfl
      obtain ⟨i, pc, published, -, rfl, -⟩ := ht.moves
      exact ⟨h, by rw [hl]; exact Nat.le_refl _⟩
  | call hcall =>
      cases hcall with
      | @startLock d hd hl =>
          have hne : c ≠ d := by
            rintro rfl
            exact h hd
          have hkeep : Function.update s.startCall d .check c = s.startCall c :=
            Function.update_of_ne hne ..
          exact ⟨by rw [← hkeep] at h; exact h, Nat.le_of_eq (congrArg StartPc.rank hkeep)⟩
      | startRefused hd | startChecked hd | startSend hd | startWrite hd | startSpawn hd
      | startStore hd => exact rank_update h (by simp) (by simp [hd, StartPc.rank])
      | stopTake | stopRefused | stopCancel | stopJoined | stopJoinFails | stopSend =>
          exact ⟨h, Nat.le_refl _⟩

/-- The write guard is held by a `start` that is still on its way. -/
lemma LockSound.inFlight_of_writer (hl : s.LockSound) {d : ℕ} (hd : s.processWriter = some d) :
    (s.startCall d).inFlight = true := by
  have hw := (hl.writer d).mpr hd
  cases hpc : s.startCall d <;> simp_all [StartPc.writes, StartPc.inFlight]

lemma LockSound.inFlight_of_lock (hl : s.LockSound) {d : ℕ} (hd : s.processLock = some d) :
    (s.startCall d).inFlight = true := by
  have hw := (hl.lock d).mpr hd
  cases hpc : s.startCall d <;> simp_all [locked, StartPc.inFlight]

lemma start_enabled (hl : s.LockSound) {c : ℕ} (hc : (s.startCall c).inFlight = true) :
    ∃ l, isStartStep c s l = true ∧ (step p s l).isSome = true := by
  cases hpc : s.startCall c with
  | notCalled | returned | refused => simp [hpc, StartPc.inFlight] at hc
  | check =>
      have hw := hl.no_writer (by rw [hpc]; rfl) (by rw [hpc]; rfl)
      refine ⟨.startCheck c, by simp [isStartStep], ?_⟩
      cases hp : s.process <;> simp [step, callStep, hpc, hw, hp]
  | send => exact ⟨.startSend c, by simp [isStartStep], by simp [step, callStep, hpc]⟩
  | write =>
      have hw := hl.no_writer (by rw [hpc]; rfl) (by rw [hpc]; rfl)
      exact ⟨.startWrite c, by simp [isStartStep], by simp [step, callStep, hpc, hw]⟩
  | spawn => exact ⟨.startSpawn c, by simp [isStartStep], by simp [step, callStep, hpc]⟩
  | store i => exact ⟨.startStore c, by simp [isStartStep], by simp [step, callStep, hpc]⟩

lemma stopRank_congr {c : ℕ} (hc : s'.stopCall c = s.stopCall c)
    (ht : ∀ i, s.stopCall c = .await i → s'.task i = s.task i) : s'.stopRank c = s.stopRank c := by
  unfold stopRank
  rw [hc]
  cases hpc : s.stopCall c <;> simp only [hpc] at ht ⊢
  rw [ht _ rfl]

lemma rank_setTask {i j : ℕ} {pc : TaskPc L.Local} {b : Bool} {published : EgressState}
    (hpc : i = j → TaskPc.rank pc + b.toNat ≤ TaskPc.rank (s.task i)) (hb : i ≠ j → b = false) :
    TaskPc.rank ({ s.setTask j pc with published := published }.task i) + b.toNat ≤
      TaskPc.rank (s.task i) := by
  show TaskPc.rank (Function.update s.task j pc i) + b.toNat ≤ _
  rcases eq_or_ne i j with rfl | hne
  · rw [Function.update_self]
    exact hpc rfl
  · rw [Function.update_of_ne hne, hb hne]
    exact Nat.le_refl _

/-- **A task comes nearer to its end with every step but those that begin anew.** -/
lemma TaskStep.rank_le (hs : TaskStep p s l s') (i : ℕ)
    (hok : l ≠ .tunnelClosed i ∧ l ≠ .sleepElapsed i) :
    TaskPc.rank (s'.task i) + (isTaskStep i l).toNat ≤ TaskPc.rank (s.task i) := by
  cases hs with
  | connected h | connectFailed h | delayPanics h | sentReady h | servingCancelled _ h
  | waitingCancelled _ h | closed h =>
      refine rank_setTask (fun hj => ?_) fun hne => by simpa [isTaskStep] using hne.symm
      subst hj
      simp [h, TaskPc.rank, isTaskStep]
  | served h | loopPanics h | lost h =>
      refine rank_setTask (fun hj => ?_) fun _ => rfl
      subst hj
      simp [h, TaskPc.rank, isTaskStep]
  | leftLoop | slept | retryPanics =>
      refine rank_setTask (fun hj => ?_) fun _ => rfl
      subst hj
      simp at hok

lemma isStopStep_task (hs : TaskStep p s l s') (c : ℕ) :
    isStopStep c s l = match s.stopCall c with
      | .await i => isTaskStep i l
      | _ => false := by
  cases hs <;> rfl

/-- The steps of a call of `start` are not the ones a `stop` waits for, nor is the first step of
another `stop`. -/
lemma isStopStep_other {c d : ℕ} (hl : l = .startLock d ∨ l = .startCheck d ∨ l = .startSend d ∨
    l = .startWrite d ∨ l = .startSpawn d ∨ l = .startStore d ∨ l = .stopTake d) :
    isStopStep c s l = false := by
  rcases hl with rfl | rfl | rfl | rfl | rfl | rfl | rfl <;>
    · simp only [isStopStep]
      split <;> rfl

lemma stopRank_setStop {c d : ℕ} {pc : StopPc} (h : s.stopCall c ≠ .notCalled)
    (hpc : pc ≠ .notCalled) (hs : s'.stopCall = Function.update s.stopCall d pc)
    (ht : s'.task = s.task)
    (hr : c = d → s'.stopRank c + 1 ≤ s.stopRank c) :
    s'.stopCall c ≠ .notCalled ∧ s'.stopRank c + (decide (d = c)).toNat ≤ s.stopRank c := by
  rcases eq_or_ne c d with rfl | hne
  · rw [hs, Function.update_self]
    simpa [hpc] using hr rfl
  · have hkeep : s'.stopCall c = s.stopCall c := by
      rw [hs]
      exact Function.update_of_ne hne ..
    rw [hkeep, stopRank_congr hkeep fun i _ => congrFun ht i]
    simp [h, hne.symm]

/-- **A `stop` is moved on by its own steps and by those of the task it waits for**, and set back
only by a task that begins anew. -/
lemma stopRank_step (hheld : s.TasksHeld) {c : ℕ} (h : s.stopCall c ≠ .notCalled)
    (hok : EndsTask c s l) (hs : step p s l = some s') :
    s'.stopCall c ≠ .notCalled ∧ s'.stopRank c + (isStopStep c s l).toNat ≤ s.stopRank c := by
  cases step_cases hs with
  | task ht =>
      have hcall : s'.stopCall = s.stopCall := by
        obtain ⟨i, pc, published, -, rfl, -⟩ := ht.moves
        rfl
      refine ⟨by rw [hcall]; exact h, ?_⟩
      rw [isStopStep_task ht, stopRank, stopRank, hcall]
      cases hpc : s.stopCall c with
      | await i =>
          have := ht.rank_le i (hok i hpc)
          simp only
          omega
      | _ => simp
  | call hcall =>
      cases hcall with
      | @startSpawn d hd =>
          rw [isStopStep_other (d := d) (by simp)]
          refine ⟨h, Nat.le_of_eq (stopRank_congr rfl fun i hi => ?_)⟩
          have hlt : i < s.nextTask := hheld.held i (Or.inr (Or.inr ⟨c, by rw [hi]; rfl⟩))
          exact Function.update_of_ne (Nat.ne_of_lt hlt) ..
      | @startLock d | @startRefused d | @startChecked d | @startSend d | @startWrite d
      | @startStore d =>
          rw [isStopStep_other (d := d) (by simp)]
          exact ⟨h, Nat.le_of_eq (stopRank_congr rfl fun _ _ => rfl)⟩
      | @stopTake d i hd | @stopRefused d hd =>
          have hne : c ≠ d := by
            rintro rfl
            exact h hd
          rw [isStopStep_other (d := d) (by simp)]
          have hkeep : ∀ pc, Function.update s.stopCall d pc c = s.stopCall c := fun _ =>
            Function.update_of_ne hne ..
          refine ⟨?_, Nat.le_of_eq (stopRank_congr (hkeep _) fun _ _ => rfl)⟩
          rw [← hkeep] at h
          exact h
      | @stopCancel d i hd =>
          have hawait : StopPc.await i ≠ .notCalled := by simp
          refine stopRank_setStop h hawait rfl rfl ?_
          rintro rfl
          have hle : TaskPc.rank (s.task i) ≤ 4 := by cases s.task i <;> simp [TaskPc.rank]
          simp only [stopRank, hd, setStop, Function.update_self]
          omega
      | @stopJoined d i hd | @stopJoinFails d i hd | @stopSend d hd =>
          refine stopRank_setStop h (by simp) rfl rfl ?_
          rintro rfl
          simp only [stopRank, hd, setStop, Function.update_self]
          omega

/-- A call of `stop` that has begun is never without a next step: its own, or one of the task it
waits for. -/
lemma stop_enabled (h : s.TasksHeld) {c : ℕ} (hc : (s.stopCall c).inFlight = true) :
    ∃ l, isStopStep c s l = true ∧ EndsTask c s l ∧ (step p s l).isSome = true := by
  cases hpc : s.stopCall c with
  | notCalled | returned | refused | failed => simp [hpc, StopPc.inFlight] at hc
  | cancel i =>
      exact ⟨.stopCancel c, by simp [isStopStep], by simp [EndsTask],
        by simp [step, callStep, hpc]⟩
  | send =>
      exact ⟨.stopSend c, by simp [isStopStep], by simp [EndsTask],
        by simp [step, callStep, hpc]⟩
  | await i =>
      have hcan := h.awaited c i hpc
      have hlt : i < s.nextTask := h.held i (Or.inr (Or.inr ⟨c, by rw [hpc]; rfl⟩))
      cases ht : s.task i with
      | notSpawned => exact absurd ((h.unspawned i).mp ht) (by omega)
      | connecting retry =>
          exact ⟨.connected i, by simp [isStopStep, isTaskStep, hpc], by simp [EndsTask],
            by simp [step, callStep, taskStep, ht]⟩
      | announcing =>
          exact ⟨.sendReady i, by simp [isStopStep, isTaskStep, hpc], by simp [EndsTask],
            by simp [step, callStep, taskStep, ht]⟩
      | serving lost loop =>
          exact ⟨.processCancelled i, by simp [isStopStep, isTaskStep, hpc], by simp [EndsTask],
            by simp [step, callStep, taskStep, ht, hcan]⟩
      | waiting retry ms =>
          exact ⟨.processCancelled i, by simp [isStopStep, isTaskStep, hpc], by simp [EndsTask],
            by simp [step, callStep, taskStep, ht, hcan]⟩
      | closing =>
          exact ⟨.closed i, by simp [isStopStep, isTaskStep, hpc], by simp [EndsTask],
            by simp [step, callStep, taskStep, ht]⟩
      | finished | panicked =>
          exact ⟨.stopAwait c, by simp [isStopStep], by simp [EndsTask],
            by simp [step, callStep, hpc, ht]⟩

/-- **`start` and `stop` never block each other for good.**  A call waits to begin only while a
`start` is on its way; a `start` that has the lock returns within five steps of its own, whatever
the others do; a `stop` that has begun returns within seven steps of its own and of the task it
joins, unless that task finds its tunnel closed or its sleep over first and begins anew.  What the
task still serves before it comes to its cancellation is not counted. -/
theorem calls_complete (h : (system L p).Run ls s) (c : ℕ) :
    (s.startCall c = .notCalled → (step p s (.startLock c)).isSome = true ∨
      ∃ d, (s.startCall d).inFlight = true) ∧
    (s.stopCall c = .notCalled → (step p s (.stopTake c)).isSome = true ∨
      ∃ d, (s.startCall d).inFlight = true) ∧
    (s.startCall c ≠ .notCalled → (system L p).Ensures (isStartStep c) (fun _ _ => True)
      (fun t => (t.startCall c).inFlight = false) 5 s) ∧
    (s.stopCall c ≠ .notCalled → (system L p).Ensures (isStopStep c) (EndsTask c)
      (fun t => (t.stopCall c).inFlight = false) 7 s) := by
  have hlock := lockSound_run h
  have hheld := tasksHeld_run h
  refine ⟨fun hc => ?_, fun hc => ?_, fun hc => ?_, fun hc => ?_⟩
  · cases hl : s.processLock with
    | none => exact Or.inl (by simp [step, callStep, hc, hl])
    | some d => exact Or.inr ⟨d, hlock.inFlight_of_lock hl⟩
  · cases hw : s.processWriter with
    | none =>
        refine Or.inl ?_
        cases hp : s.process <;> simp [step, callStep, hc, hw, hp]
    | some d => exact Or.inr ⟨d, hlock.inFlight_of_writer hw⟩
  · refine System.ensures_of_variant (fun t => t.LockSound ∧ t.startCall c ≠ .notCalled)
      (fun t => StartPc.rank (t.startCall c)) ?_ ?_ ⟨hlock, hc⟩ ?_
    · rintro t l t' ⟨hl, ht⟩ - hs
      obtain ⟨ht', hle⟩ := startRank_step ht hs
      exact ⟨⟨hl.step hs, ht'⟩, hle⟩
    · rintro t ⟨hl, -⟩ hg
      obtain ⟨l, hh, hen⟩ := start_enabled hl (by simpa using hg)
      exact ⟨l, hh, trivial, hen⟩
    · cases s.startCall c <;> simp [StartPc.rank]
  · refine System.ensures_of_variant
      (fun t => t.TasksHeld ∧ t.LockSound ∧ t.stopCall c ≠ .notCalled)
      (fun t => t.stopRank c) ?_ ?_ ⟨hheld, hlock, hc⟩ ?_
    · rintro t l t' ⟨hh, hl, ht⟩ hok hs
      obtain ⟨ht', hle⟩ := stopRank_step hh ht hok hs
      exact ⟨⟨hh.step hl hs, hl.step hs, ht'⟩, hle⟩
    · rintro t ⟨hh, -, -⟩ hg
      exact stop_enabled hh (by simpa using hg)
    · have hle : ∀ i, TaskPc.rank (s.task i) ≤ 4 := fun i => by
        cases s.task i <;> simp [TaskPc.rank]
      unfold stopRank
      split
      · exact Nat.le_refl _
      · have := hle ‹ℕ›
        omega
      · omega
      · omega

end Egress

/-- A `stop` that comes while the task waits to connect again. -/
theorem calls_complete_waiting : ∃ s,
    (TcpEgress.system .release).Run
      (startAll 0 ++ [.connectFails 0, .stopTake 0, .stopCancel 0]) s ∧ s.stopCall 0 = .await 0 ∧
    (TcpEgress.system .release).Ensures (Egress.isStopStep 0) (Egress.EndsTask 0)
      (fun t => (t.stopCall 0).inFlight = false) 7 s := by
  have h : (TcpEgress.system .release).Run
      (startAll 0 ++ [.connectFails 0, .stopTake 0, .stopCancel 0]) _ := System.run_of_exec rfl
  have hc : ∀ pc, pc = StopPc.await 0 → pc ≠ .notCalled := by
    rintro _ rfl
    simp
  exact ⟨_, h, rfl, (Egress.calls_complete h 0).2.2.2 (hc _ rfl)⟩

end Siffleux
