import Siffleux.Client.Egress.Lifecycle
import Siffleux.Client.Egress.UdpFlows

/-!
# The modes of an egress

What an egress is for: at any time it is idle, starting, started or stopping, one call at a time is
at work on it, and there is at most one tunnel task, owned by the mode.

`start` keeps to that among its own kind, by `process_lock`; `stop` takes no part in the lock.

* `Mode`, `Consistent` — the modes, and a state of the code being in one of them.
* `consistent_step` — every step keeps the egress in a mode, except a `start` that publishes
  `Starting` while a `stop` has yet to publish `Stopped`, and a `stop` that waits for a task that
  has panicked (`StopRespected`).
* `egress_lifecycle_sound` — hence, for both egresses and over every run without such steps, the
  published state and the single task.
-/

namespace Siffleux

open ByteBuf Transition

/-! ## The two egresses -/

namespace TcpEgress

/-- The serving loop hands every accepted stream to a task of its own and logs every error; its
state is the number of streams handed on. -/
def mainLoop : MainLoop where
  Local := ℕ
  Event := Except Error Unit
  fresh := 0
  handle n
    | .ok _ => .ret (n + 1)
    | .error _ => .ret n

end TcpEgress

namespace UdpEgress

/-- What the `select!` of the serving loop comes back with. -/
inductive Event where
  | datagram (bytes : Bytes)
  | readFails (e : Error)
  | expired (origin : SocketAddr)

/-- The serving loop works on the flow table, which every new tunnel starts empty. -/
def mainLoop : MainLoop where
  Local := UdpFlows
  Event := Event
  fresh := .new
  handle s
    | .datagram bytes => s.processDatagram bytes
    | .readFails _ => .ret s
    | .expired origin =>
        .ret { s with udpSockets := Function.update s.udpSockets origin none }

end UdpEgress

namespace Egress

variable {L : MainLoop}

/-! ## Modes -/

/-- `starting` and `stopping` name the call that is at work, and the task that it has spawned
already, or not joined yet. -/
inductive Mode where
  | idle
  | starting (c : ℕ) (task : Option ℕ)
  | started (task : ℕ)
  | stopping (c : ℕ) (task : Option ℕ)
  deriving DecidableEq, Repr

/-- The one task there may be. -/
def Mode.owner : Mode → Option ℕ
  | idle => none
  | starting _ o | stopping _ o => o
  | started i => some i

/-- What `process` holds. -/
def Mode.process : Mode → Option ℕ
  | started i => some i
  | _ => none

/-- A `start` is at work once it has published `Starting`. -/
def startWork : StartPc → Option (Option ℕ)
  | .write | .spawn => some none
  | .store i => some (some i)
  | _ => none

/-- A `stop` is at work from its `take` until it has published `Stopped`. -/
def stopWork : StopPc → Option (Option ℕ)
  | .cancel i | .await i => some (some i)
  | .send => some none
  | _ => none

/-- The call holds `process_lock`. -/
def locked : StartPc → Bool
  | .check | .send | .write | .spawn | .store _ => true
  | _ => false

/-- The state is one of an egress in mode `m`. -/
structure Consistent (s : Egress L) (m : Mode) : Prop where
  process : s.process = m.process
  published : s.published = .stopped ↔ m = .idle
  alive : ∀ i, (s.task i).alive = true → m.owner = some i
  starts : ∀ c o, startWork (s.startCall c) = some o ↔ m = .starting c o
  stops : ∀ c o, stopWork (s.stopCall c) = some o ↔ m = .stopping c o
  lock : ∀ c, locked (s.startCall c) = true ↔ s.processLock = some c
  checked : ∀ c, s.startCall c = .send → s.process = none

/-- The condition on a step.  A `start` publishes `Starting` only when no `stop` is between its
`take` and its `Stopped`, and no `stop` waits for a task that has panicked. -/
def StopRespected (s : Egress L) : Label L → Prop
  | .startSend _ => ∀ c, stopWork (s.stopCall c) = none
  | .stopAwait c => ∀ i, s.stopCall c = .await i → s.task i ≠ .panicked
  | _ => True

lemma consistent_new : (new L).Consistent .idle :=
  ⟨rfl, by simp [new], fun _ h => by simp [new, TaskPc.alive] at h,
    fun _ _ => by simp [new, startWork], fun _ _ => by simp [new, stopWork],
    fun _ => by simp [new, locked], fun _ h => by simp [new] at h⟩

/-- A family of facts about a function, after one of its values has changed. -/
lemma forall_update_iff {α : Type} {f : ℕ → α} {i : ℕ} {v : α} {P : α → Prop} {G G' : ℕ → Prop}
    (h : ∀ j, P (f j) ↔ G j) (hi : P v ↔ G' i) (hj : ∀ j, j ≠ i → (G' j ↔ G j)) (j : ℕ) :
    P (Function.update f i v j) ↔ G' j := by
  rcases eq_or_ne j i with rfl | hne
  · rw [Function.update_self, hi]
  · rw [Function.update_of_ne hne, h j, hj j hne]

/-- **A task keeps to the mode**, whatever it does. -/
lemma Consistent.task {s : Egress L} {m : Mode} (h : s.Consistent m) {i : ℕ} {pc : TaskPc L.Local}
    {published : EgressState} (ha : (s.task i).alive = true)
    (hp : published = s.published ∨ published = .ready) :
    Consistent { s.setTask i pc with published := published } m := by
  have ho := h.alive i ha
  refine ⟨h.process, ?_, fun j hj => ?_, h.starts, h.stops, h.lock, h.checked⟩
  · rcases hp with rfl | rfl
    · exact h.published
    · refine iff_of_false (by simp) ?_
      rintro rfl
      cases ho
  · rcases eq_or_ne j i with rfl | hne
    · exact ho
    · have hj' : (Function.update s.task i pc j).alive = true := hj
      rw [Function.update_of_ne hne] at hj'
      exact h.alive j hj'

/-- A step of `start` that changes nothing of its work. -/
lemma Consistent.setStart {s : Egress L} {m : Mode} (h : s.Consistent m) {c : ℕ} {pc : StartPc}
    {lock writer : Option ℕ} (hw : startWork pc = startWork (s.startCall c))
    (hl : locked pc = true ↔ lock = some c)
    (hother : ∀ d, d ≠ c → (lock = some d ↔ s.processLock = some d))
    (hc : pc = .send → s.process = none) :
    Consistent { s.setStart c pc with processLock := lock, processWriter := writer } m := by
  refine ⟨h.process, h.published, h.alive, fun d o => ?_, h.stops, fun d => ?_, fun d hd => ?_⟩
  · refine forall_update_iff (P := fun pc => startWork pc = some o) (fun d => h.starts d o) ?_
      (fun _ _ => Iff.rfl) d
    rw [hw]
    exact h.starts c o
  · exact forall_update_iff (P := fun pc => locked pc = true) h.lock hl hother d
  · have hd' : Function.update s.startCall c pc d = .send := hd
    rcases eq_or_ne d c with rfl | hne
    · rw [Function.update_self] at hd'
      exact hc hd'
    · rw [Function.update_of_ne hne] at hd'
      exact h.checked d hd'

/-- Only one `start` holds the lock, so the others are not at work and have not checked. -/
lemma Consistent.start_unique {s : Egress L} {m : Mode} (h : s.Consistent m) {c d : ℕ}
    (hc : locked (s.startCall c) = true) (hd : locked (s.startCall d) = true) : c = d := by
  have hlc := (h.lock c).mp hc
  rw [(h.lock d).mp hd] at hlc
  exact (Option.some.inj hlc).symm

lemma locked_of_startWork {pc : StartPc} {o : Option ℕ} (h : startWork pc = some o) :
    locked pc = true := by
  cases pc <;> first | rfl | cases h

/-- A `start` about to publish, with no `stop` at work, finds the egress idle. -/
lemma Consistent.idle_of_send {s : Egress L} {m : Mode} (h : s.Consistent m) {c : ℕ}
    (hc : s.startCall c = .send) (hok : ∀ d, stopWork (s.stopCall d) = none) : m = .idle := by
  have hproc := h.checked c hc
  cases m with
  | idle => rfl
  | starting d o =>
      have hd := (h.starts d o).mpr rfl
      have hcd := h.start_unique (c := c) (by rw [hc]; rfl) (locked_of_startWork hd)
      rw [← hcd, hc] at hd
      cases hd
  | started i =>
      rw [h.process] at hproc
      cases hproc
  | stopping d o =>
      have hd := (h.stops d o).mpr rfl
      rw [hok d] at hd
      cases hd

/-- The calls at work, after the call `c` has moved: it was the only one that could be. -/
lemma work_update {α : Type} {work : α → Option (Option ℕ)} {f : ℕ → α} {c : ℕ} {v : α} {m : Mode}
    {mk : ℕ → Option ℕ → Mode} (hothers : ∀ d, d ≠ c → work (f d) = none)
    (hv : ∀ o, work v = some o ↔ m = mk c o) (hm : ∀ d o, d ≠ c → m ≠ mk d o) (d : ℕ)
    (o : Option ℕ) : work (Function.update f c v d) = some o ↔ m = mk d o := by
  rcases eq_or_ne d c with rfl | hne
  · rw [Function.update_self, hv]
  · rw [Function.update_of_ne hne, hothers d hne]
    exact iff_of_false (by simp) (hm d o hne)

/-- Nobody is at work beside the call the mode names. -/
lemma Consistent.start_idle {s : Egress L} {m : Mode} (h : s.Consistent m) {c : ℕ}
    (hm : ∀ o, m ≠ .starting c o) : startWork (s.startCall c) = none := by
  rcases hw : startWork (s.startCall c) with _ | o
  · rfl
  · exact absurd ((h.starts c o).mp hw) (hm o)

lemma Consistent.stop_idle {s : Egress L} {m : Mode} (h : s.Consistent m) {c : ℕ}
    (hm : ∀ o, m ≠ .stopping c o) : stopWork (s.stopCall c) = none := by
  rcases hw : stopWork (s.stopCall c) with _ | o
  · rfl
  · exact absurd ((h.stops c o).mp hw) (hm o)

/-- The lock and the check, after the call `c` of `start` has moved and kept the lock. -/
lemma Consistent.lock_update {s : Egress L} {m : Mode} (h : s.Consistent m) {c : ℕ} {pc : StartPc}
    (hl : locked pc = locked (s.startCall c)) (d : ℕ) :
    locked (Function.update s.startCall c pc d) = true ↔ s.processLock = some d := by
  refine forall_update_iff (P := fun pc => locked pc = true) h.lock ?_ (fun _ _ => Iff.rfl) d
  rw [hl]
  exact h.lock c

lemma Consistent.checked_update {s : Egress L} {m : Mode} (h : s.Consistent m) {c : ℕ}
    {pc : StartPc} (hne : pc ≠ .send) (d : ℕ) (hd : Function.update s.startCall c pc d = .send) :
    s.process = none := by
  rcases eq_or_ne d c with rfl | hdc
  · rw [Function.update_self] at hd
    exact absurd hd hne
  · rw [Function.update_of_ne hdc] at hd
    exact h.checked d hd

/-! ## The steps of `start` -/

lemma consistent_startSend {s : Egress L} {m : Mode} (h : s.Consistent m) {c : ℕ}
    (hc : s.startCall c = .send) (hok : ∀ d, stopWork (s.stopCall d) = none) :
    Consistent { s.setStart c .write with published := .starting } (.starting c none) := by
  have hm := h.idle_of_send hc hok
  subst hm
  refine ⟨h.process, by simp, fun i hi => ?_, ?_, fun d o => ?_, h.lock_update (by rw [hc]; rfl),
    h.checked_update (by simp)⟩
  · have ho := h.alive i hi
    cases ho
  · exact work_update (fun d _ => h.start_idle (by simp)) (by simp [startWork])
      (fun d o hne => by simp [hne.symm])
  · rw [setStart, hok d]
    simp

lemma consistent_startSpawn {s : Egress L} {m : Mode} (h : s.Consistent m) {c : ℕ}
    (hc : s.startCall c = .spawn) :
    Consistent { (s.setStart c (.store s.nextTask)).setTask s.nextTask (.connecting 0) with
      nextTask := s.nextTask + 1 } (.starting c (some s.nextTask)) := by
  have hm : m = .starting c none := (h.starts c none).mp (by rw [hc]; rfl)
  subst hm
  refine ⟨h.process, ?_, fun i hi => ?_, ?_, fun d o => ?_, h.lock_update (by rw [hc]; rfl),
    h.checked_update (by simp)⟩
  · exact h.published.trans (by simp)
  · have hi' : (Function.update s.task s.nextTask (.connecting 0) i).alive = true := hi
    rcases eq_or_ne i s.nextTask with rfl | hne
    · rfl
    · rw [Function.update_of_ne hne] at hi'
      have ho := h.alive i hi'
      cases ho
  · exact work_update (fun d hne => h.start_idle (by simp [hne.symm])) (by simp [startWork])
      (fun d o hne => by simp [hne.symm])
  · exact (h.stops d o).trans (by simp)

lemma consistent_startStore {s : Egress L} {m : Mode} (h : s.Consistent m) {c i : ℕ}
    (hc : s.startCall c = .store i) :
    Consistent { s.setStart c .returned with
      process := some i
      processWriter := none
      processLock := none } (.started i) := by
  have hm : m = .starting c (some i) := (h.starts c (some i)).mp (by rw [hc]; rfl)
  subst hm
  have hlock : s.processLock = some c := (h.lock c).mp (by rw [hc]; rfl)
  refine ⟨rfl, ?_, h.alive, ?_, fun d o => ?_, ?_, fun d hd => ?_⟩
  · exact h.published.trans (by simp)
  · exact work_update (fun d hne => h.start_idle (by simp [hne.symm])) (by simp [startWork])
      (fun d o _ => by simp)
  · exact (h.stops d o).trans (by simp)
  · refine forall_update_iff (P := fun pc => locked pc = true) h.lock (by simp [locked]) ?_
    intro d hne
    rw [hlock]
    simp [hne.symm]
  · have hd' : Function.update s.startCall c .returned d = .send := hd
    rcases eq_or_ne d c with rfl | hne
    · rw [Function.update_self] at hd'
      cases hd'
    · rw [Function.update_of_ne hne] at hd'
      exact absurd (h.start_unique (by rw [hd']; rfl) (by rw [hc]; rfl)) hne

/-! ## The steps of `stop` -/

lemma consistent_stopTake {s : Egress L} {m : Mode} (h : s.Consistent m) {c i : ℕ}
    (hp : s.process = some i) :
    Consistent { s.setStop c (.cancel i) with process := none } (.stopping c (some i)) := by
  have hm : m = .started i := by
    have hmp := h.process
    rw [hp] at hmp
    cases m with
    | started j => rw [Option.some.inj hmp]
    | _ => cases hmp
  subst hm
  refine ⟨rfl, ?_, h.alive, fun d o => ?_, ?_, h.lock, fun _ _ => rfl⟩
  · exact h.published.trans (by simp)
  · exact (h.starts d o).trans (by simp)
  · exact work_update (fun d _ => h.stop_idle (by simp)) (by simp [stopWork])
      (fun d o hne => by simp [hne.symm])

lemma consistent_stopJoined {s : Egress L} {m : Mode} (h : s.Consistent m) {c i : ℕ}
    (hc : s.stopCall c = .await i) (ht : s.task i = .finished) :
    (s.setStop c .send).Consistent (.stopping c none) := by
  have hm : m = .stopping c (some i) := (h.stops c (some i)).mp (by rw [hc]; rfl)
  subst hm
  refine ⟨h.process, ?_, fun j hj => ?_, fun d o => ?_, ?_, h.lock, h.checked⟩
  · exact h.published.trans (by simp)
  · have ho : some i = some j := h.alive j hj
    have hj' : (s.task j).alive = true := hj
    rw [← Option.some.inj ho, ht] at hj'
    cases hj'
  · exact (h.starts d o).trans (by simp)
  · exact work_update (fun d hne => h.stop_idle (by simp [hne.symm])) (by simp [stopWork])
      (fun d o hne => by simp [hne.symm])

lemma consistent_stopSend {s : Egress L} {m : Mode} (h : s.Consistent m) {c : ℕ}
    (hc : s.stopCall c = .send) :
    Consistent { s.setStop c .returned with published := .stopped } .idle := by
  have hm : m = .stopping c none := (h.stops c none).mp (by rw [hc]; rfl)
  subst hm
  refine ⟨h.process, by simp, fun i hi => ?_, fun d o => ?_, ?_, h.lock, h.checked⟩
  · have ho := h.alive i hi
    cases ho
  · exact (h.starts d o).trans (by simp)
  · exact work_update (fun d hne => h.stop_idle (by simp [hne.symm])) (by simp [stopWork])
      (fun d o _ => by simp)

/-- A step of `stop` that changes nothing of its work. -/
lemma Consistent.setStop {s : Egress L} {m : Mode} (h : s.Consistent m) {c : ℕ} {pc : StopPc}
    {isCancelled : ℕ → Bool} (hw : stopWork pc = stopWork (s.stopCall c)) :
    Consistent { s.setStop c pc with isCancelled := isCancelled } m := by
  refine ⟨h.process, h.published, h.alive, h.starts, fun d o => ?_, h.lock, h.checked⟩
  refine forall_update_iff (P := fun pc => stopWork pc = some o) (fun d => h.stops d o) ?_
    (fun _ _ => Iff.rfl) d
  rw [hw]
  exact h.stops c o

/-! ## Whole runs -/

/-- **Every step keeps the egress in a mode**, if it respects a `stop` at work. -/
theorem consistent_step {p : Profile} {s s' : Egress L} {m : Mode} {l : Label L}
    (h : s.Consistent m) (hok : s.StopRespected l) (hs : step p s l = some s') :
    ∃ m', s'.Consistent m' := by
  rw [step, Option.or_eq_some_iff] at hs
  rcases hs with hs | ⟨-, hs⟩
  · cases callStep_cases hs with
    | startLock hc hl =>
        refine ⟨m, h.setStart (by rw [hc]; rfl) (iff_of_true rfl rfl) (fun d hne => ?_) (by simp)⟩
        rw [hl]
        simp [hne.symm]
    | startRefused hc hp =>
        have hlock := (h.lock _).mp (by rw [hc]; rfl)
        refine ⟨m, h.setStart (by rw [hc]; rfl) (by simp [locked]) (fun d hne => ?_) (by simp)⟩
        rw [hlock]
        simp [hne.symm]
    | startChecked hc hp =>
        have hlock := (h.lock _).mp (by rw [hc]; rfl)
        exact ⟨m, h.setStart (by rw [hc]; rfl) (iff_of_true rfl hlock) (fun _ _ => Iff.rfl)
          fun _ => hp⟩
    | startSend hc => exact ⟨_, consistent_startSend h hc hok⟩
    | startWrite hc hw =>
        have hlock := (h.lock _).mp (by rw [hc]; rfl)
        exact ⟨m, h.setStart (by rw [hc]; rfl) (iff_of_true rfl hlock) (fun _ _ => Iff.rfl)
          (by simp)⟩
    | startSpawn hc => exact ⟨_, consistent_startSpawn h hc⟩
    | startStore hc => exact ⟨_, consistent_startStore h hc⟩
    | stopTake hc hw hp => exact ⟨_, consistent_stopTake h hp⟩
    | stopRefused hc hw hp => exact ⟨m, h.setStop (by rw [hc]; rfl)⟩
    | stopCancel hc => exact ⟨m, h.setStop (by rw [hc]; rfl)⟩
    | stopJoined hc ht => exact ⟨_, consistent_stopJoined h hc ht⟩
    | stopJoinFails hc ht => exact absurd ht (hok _ hc)
    | stopSend hc => exact ⟨_, consistent_stopSend h hc⟩
  · obtain ⟨i, pc, published, ha, rfl, hp⟩ := (taskStep_inv hs).moves
    exact ⟨m, h.task ha hp⟩

theorem consistent_run {p : Profile} {ls : List (Label L)} {s : Egress L}
    (h : (system L p).RunWithin StopRespected ls s) : ∃ m, s.Consistent m := by
  refine h.invariant (P := fun s => ∃ m, s.Consistent m) ⟨.idle, consistent_new⟩ ?_
  rintro s l s' ⟨m, hm⟩ hok hs
  exact consistent_step hm hok hs

/-- No call of `start` or `stop` is in flight. -/
def Quiescent (s : Egress L) : Prop :=
  (∀ c, (s.startCall c).inFlight = false) ∧ ∀ c, (s.stopCall c).inFlight = false

lemma inFlight_of_startWork {pc : StartPc} {o : Option ℕ} (h : startWork pc = some o) :
    pc.inFlight = true := by
  cases pc <;> first | rfl | cases h

lemma inFlight_of_stopWork {pc : StopPc} {o : Option ℕ} (h : stopWork pc = some o) :
    pc.inFlight = true := by
  cases pc <;> first | rfl | cases h

/-- What is promised of an egress. -/
structure LifecycleSound (s : Egress L) : Prop where
  published : s.Quiescent → (s.published = .stopped ↔ s.process = none)
  single : ∀ i j, (s.task i).alive = true → (s.task j).alive = true → i = j

/-- An egress in a mode keeps the promise; between calls it is idle or started. -/
lemma Consistent.sound {s : Egress L} {m : Mode} (h : s.Consistent m) : s.LifecycleSound := by
  refine ⟨fun hq => ?_, fun i j hi hj => ?_⟩
  · rw [h.published, h.process]
    cases m with
    | idle => simp [Mode.process]
    | started i => simp [Mode.process]
    | starting c o =>
        have hc := inFlight_of_startWork ((h.starts c o).mpr rfl)
        rw [hq.1 c] at hc
        cases hc
    | stopping c o =>
        have hc := inFlight_of_stopWork ((h.stops c o).mpr rfl)
        rw [hq.2 c] at hc
        cases hc
  · have ho := h.alive i hi
    rw [h.alive j hj] at ho
    exact (Option.some.inj ho).symm

end Egress

abbrev TcpEgress.Label := Egress.Label TcpEgress.mainLoop

def TcpEgress.system (p : Profile) : System (Egress TcpEgress.mainLoop) TcpEgress.Label :=
  Egress.system TcpEgress.mainLoop p

abbrev UdpEgress.Label := Egress.Label UdpEgress.mainLoop

def UdpEgress.system (p : Profile) : System (Egress UdpEgress.mainLoop) UdpEgress.Label :=
  Egress.system UdpEgress.mainLoop p

/-- **The lifecycle of both egresses is sound in every run that respects a `stop` at work**: with
no call in flight the published state is `Stopped` exactly when `process` is empty, and at no time
are two tunnel tasks alive. -/
theorem egress_lifecycle_sound (p : Profile) :
    (∀ ls s, (TcpEgress.system p).RunWithin Egress.StopRespected ls s → s.LifecycleSound) ∧
      (∀ ls s, (UdpEgress.system p).RunWithin Egress.StopRespected ls s → s.LifecycleSound) := by
  refine ⟨fun ls s h => ?_, fun ls s h => ?_⟩
  · obtain ⟨m, hm⟩ := Egress.consistent_run h
    exact hm.sound
  · obtain ⟨m, hm⟩ := Egress.consistent_run h
    exact hm.sound

/-- A call of `start` from beginning to end. -/
def startAll (c : ℕ) : List TcpEgress.Label :=
  [.startLock c, .startCheck c, .startSend c, .startWrite c, .startSpawn c, .startStore c]

/-- One `start` and nothing else. -/
theorem egress_lifecycle_sound_started : ∃ s,
    (TcpEgress.system .release).Run (startAll 0) s ∧ s.LifecycleSound := by
  have h : (TcpEgress.system .release).RunWithin Egress.StopRespected (startAll 0) _ :=
    System.runWithin_of_exec rfl
      ⟨trivial, trivial, fun _ => rfl, trivial, trivial, trivial, trivial⟩
  exact ⟨_, h.run, (egress_lifecycle_sound .release).1 _ _ h⟩

/-- A second `start` begins when the `stop` of the first has taken the process, and ends before
the `stop` does. -/
def startDuringStop : List TcpEgress.Label :=
  startAll 0 ++ [.stopTake 0] ++ startAll 1 ++
    [.stopCancel 0, .connectFails 0, .processCancelled 0, .stopAwait 0, .stopSend 0]

/-- While the `stop` waits, two tasks are alive; and it publishes `Stopped` last, over a started
egress. -/
theorem start_during_stop :
    (∃ s, (TcpEgress.system .release).Run (startAll 0 ++ [.stopTake 0] ++ startAll 1) s ∧
      (s.task 0).alive = true ∧ (s.task 1).alive = true ∧ ¬ s.LifecycleSound) ∧
    (∃ s, (TcpEgress.system .release).Run startDuringStop s ∧ s.Quiescent ∧
      s.published = .stopped ∧ s.process = some 1 ∧ ¬ s.LifecycleSound) := by
  refine ⟨⟨_, System.run_of_exec rfl, rfl, rfl, fun h => ?_⟩, ?_⟩
  · exact absurd (h.single 0 1 rfl rfl) (by decide)
  · obtain ⟨s, hrun, hq, hpub, hproc⟩ : ∃ s, (TcpEgress.system .release).Run startDuringStop s ∧
        s.Quiescent ∧ s.published = .stopped ∧ s.process = some 1 := by
      refine ⟨_, System.run_of_exec rfl, ⟨fun c => ?_, fun c => ?_⟩, rfl, rfl⟩
      · match c with
        | 0 | 1 => rfl
        | c + 2 => rfl
      · match c with
        | 0 => rfl
        | c + 1 => rfl
    refine ⟨s, hrun, hq, hpub, hproc, fun h => ?_⟩
    have hnone := (h.published hq).mp hpub
    rw [hproc] at hnone
    cases hnone

end Siffleux
