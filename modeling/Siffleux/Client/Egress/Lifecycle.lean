import Mathlib.Logic.Function.Basic
import Siffleux.Client.Egress.Reconnect
import Siffleux.Foundation.Transition

/-!
# Starting and stopping an egress

`start`, `stop` and `start_tunnel` of `client/egress/tcp_egress.rs` and
`client/egress/udp_egress.rs`, as one transition system: any number of concurrent calls of `start`
and `stop`, and the tunnel tasks they leave behind.  The two egresses differ in what the task does
inside its serving loop, which is the parameter `MainLoop`.

Every call is named by a number and so is every tunnel task; a task's cancellation token has the
number of the task.  `start` holds `process_lock` from its first step to its last, and the write
guard of `process` from `startWrite` to `startStore`; `stop` takes neither for longer than the
`take`.

* `callStep`, `taskStep` — the steps of the calls, and of the tasks with the transport under them.
* `callStep_cases`, `taskStep_inv` — the same, inverted.
-/

namespace Siffleux

open ByteBuf Transition

/-- `client/egress/egress.rs`, `State`. -/
inductive EgressState where
  | stopped
  | starting
  | ready
  deriving DecidableEq, Repr

/-- The serving loop of a tunnel task: its local state, the events its `select!` hands it, and
what it does with one. -/
structure MainLoop where
  Local : Type
  Event : Type
  fresh : Local
  handle : Local → Event → Outcome Local

/-- Where a tunnel task is.  `announcing` is after a successful connect and before `Ready` is
sent; in `serving`, `lost` says that the tunnel's connection has ended. -/
inductive TaskPc (σ : Type) where
  | notSpawned
  | connecting (retry : UInt32)
  | announcing
  | serving (lost : Bool) (loop : σ)
  | waiting (retry : UInt32) (ms : UInt64)
  | closing
  | finished
  | panicked
  deriving DecidableEq, Repr

def TaskPc.alive {σ : Type} : TaskPc σ → Bool
  | notSpawned | finished | panicked => false
  | _ => true

/-- Where a call of `start` is. -/
inductive StartPc where
  | notCalled
  | check
  | send
  | write
  | spawn
  | store (task : ℕ)
  | returned
  | refused
  deriving DecidableEq, Repr

/-- Where a call of `stop` is. -/
inductive StopPc where
  | notCalled
  | cancel (task : ℕ)
  | await (task : ℕ)
  | send
  | returned
  | refused
  | failed
  deriving DecidableEq, Repr

/-- The call has begun and not ended. -/
def StartPc.inFlight : StartPc → Bool
  | notCalled | returned | refused => false
  | _ => true

def StopPc.inFlight : StopPc → Bool
  | notCalled | returned | refused | failed => false
  | _ => true

structure Egress (L : MainLoop) where
  processLock : Option ℕ
  processWriter : Option ℕ
  process : Option ℕ
  published : EgressState
  nextTask : ℕ
  task : ℕ → TaskPc L.Local
  isCancelled : ℕ → Bool
  startCall : ℕ → StartPc
  stopCall : ℕ → StopPc

namespace Egress

variable {L : MainLoop}

/-- `new`. -/
def new (L : MainLoop) : Egress L where
  processLock := none
  processWriter := none
  process := none
  published := .stopped
  nextTask := 0
  task _ := .notSpawned
  isCancelled _ := false
  startCall _ := .notCalled
  stopCall _ := .notCalled

inductive Label (L : MainLoop) where
  | startLock (c : ℕ)
  | startCheck (c : ℕ)
  | startSend (c : ℕ)
  | startWrite (c : ℕ)
  | startSpawn (c : ℕ)
  | startStore (c : ℕ)
  | stopTake (c : ℕ)
  | stopCancel (c : ℕ)
  | stopAwait (c : ℕ)
  | stopSend (c : ℕ)
  | connected (i : ℕ)
  | connectFails (i : ℕ)
  | sendReady (i : ℕ)
  | serve (i : ℕ) (event : L.Event)
  | lose (i : ℕ)
  | tunnelClosed (i : ℕ)
  | processCancelled (i : ℕ)
  | closed (i : ℕ)
  | sleepElapsed (i : ℕ)

/-- Move the task `i`. -/
def setTask (s : Egress L) (i : ℕ) (pc : TaskPc L.Local) : Egress L :=
  { s with task := Function.update s.task i pc }

def setStart (s : Egress L) (c : ℕ) (pc : StartPc) : Egress L :=
  { s with startCall := Function.update s.startCall c pc }

def setStop (s : Egress L) (c : ℕ) (pc : StopPc) : Egress L :=
  { s with stopCall := Function.update s.stopCall c pc }

/-- The steps of `start` and `stop`. -/
def callStep (s : Egress L) : Label L → Option (Egress L)
  | .startLock c =>
      if s.startCall c = .notCalled ∧ s.processLock = none then
        some { s.setStart c .check with processLock := some c }
      else none
  | .startCheck c =>
      if s.startCall c = .check ∧ s.processWriter = none then
        match s.process with
        | some _ => some { s.setStart c .refused with processLock := none }
        | none => some (s.setStart c .send)
      else none
  | .startSend c =>
      if s.startCall c = .send then some { s.setStart c .write with published := .starting }
      else none
  | .startWrite c =>
      if s.startCall c = .write ∧ s.processWriter = none then
        some { s.setStart c .spawn with processWriter := some c }
      else none
  | .startSpawn c =>
      if s.startCall c = .spawn then
        some { (s.setStart c (.store s.nextTask)).setTask s.nextTask (.connecting 0) with
          nextTask := s.nextTask + 1 }
      else none
  | .startStore c =>
      match s.startCall c with
      | .store i => some { s.setStart c .returned with
          process := some i
          processWriter := none
          processLock := none }
      | _ => none
  | .stopTake c =>
      if s.stopCall c = .notCalled ∧ s.processWriter = none then
        match s.process with
        | some i => some { s.setStop c (.cancel i) with process := none }
        | none => some (s.setStop c .refused)
      else none
  | .stopCancel c =>
      match s.stopCall c with
      | .cancel i => some { s.setStop c (.await i) with
          isCancelled := Function.update s.isCancelled i true }
      | _ => none
  | .stopAwait c =>
      match s.stopCall c with
      | .await i =>
          match s.task i with
          | .finished => some (s.setStop c .send)
          -- `tunnel_task.await?`: the join error leaves `stop` before it publishes anything
          | .panicked => some (s.setStop c .failed)
          | _ => none
      | _ => none
  | .stopSend c =>
      if s.stopCall c = .send then some { s.setStop c .returned with published := .stopped }
      else none
  | _ => none

/-- The steps of a tunnel task, and of the transport under it. -/
def taskStep (p : Profile) (s : Egress L) : Label L → Option (Egress L)
  | .connected i =>
      match s.task i with
      | .connecting _ => some (s.setTask i .announcing)
      | _ => none
  | .connectFails i =>
      match s.task i with
      | .connecting retry =>
          match reconnectDelay p retry with
          | .ret ms => some (s.setTask i (.waiting retry ms))
          | .panic => some (s.setTask i .panicked)
      | _ => none
  | .sendReady i =>
      match s.task i with
      | .announcing => some { s.setTask i (.serving false L.fresh) with published := .ready }
      | _ => none
  | .serve i event =>
      match s.task i with
      | .serving lost loop =>
          match L.handle loop event with
          | .ret loop' => some (s.setTask i (.serving lost loop'))
          | .panic => some (s.setTask i .panicked)
      | _ => none
  | .lose i =>
      match s.task i with
      | .serving _ loop => some (s.setTask i (.serving true loop))
      | _ => none
  | .tunnelClosed i =>
      match s.task i with
      | .serving true _ => some (s.setTask i (.connecting 0))
      | _ => none
  | .processCancelled i =>
      if s.isCancelled i then
        match s.task i with
        | .serving _ _ => some (s.setTask i .closing)
        | .waiting _ _ => some (s.setTask i .finished)
        | _ => none
      else none
  | .closed i =>
      match s.task i with
      | .closing => some (s.setTask i .finished)
      | _ => none
  | .sleepElapsed i =>
      match s.task i with
      | .waiting retry _ =>
          match nextRetry p retry with
          | .ret retry' => some (s.setTask i (.connecting retry'))
          | .panic => some (s.setTask i .panicked)
      | _ => none
  | _ => none

def step (p : Profile) (s : Egress L) (l : Label L) : Option (Egress L) :=
  (s.callStep l).or (s.taskStep p l)

def system (L : MainLoop) (p : Profile) : System (Egress L) (Label L) := ⟨new L, step p⟩

/-! ## What a step can do -/

/-- The steps of the calls, with their guards and effects. -/
inductive CallStep (s : Egress L) : Label L → Egress L → Prop
  | startLock {c : ℕ} (h : s.startCall c = .notCalled) (hl : s.processLock = none) :
      CallStep s (.startLock c) { s.setStart c .check with processLock := some c }
  | startRefused {c i : ℕ} (h : s.startCall c = .check) (hp : s.process = some i) :
      CallStep s (.startCheck c) { s.setStart c .refused with processLock := none }
  | startChecked {c : ℕ} (h : s.startCall c = .check) (hp : s.process = none) :
      CallStep s (.startCheck c) (s.setStart c .send)
  | startSend {c : ℕ} (h : s.startCall c = .send) :
      CallStep s (.startSend c) { s.setStart c .write with published := .starting }
  | startWrite {c : ℕ} (h : s.startCall c = .write) (hw : s.processWriter = none) :
      CallStep s (.startWrite c) { s.setStart c .spawn with processWriter := some c }
  | startSpawn {c : ℕ} (h : s.startCall c = .spawn) :
      CallStep s (.startSpawn c)
        { (s.setStart c (.store s.nextTask)).setTask s.nextTask (.connecting 0) with
          nextTask := s.nextTask + 1 }
  | startStore {c i : ℕ} (h : s.startCall c = .store i) :
      CallStep s (.startStore c) { s.setStart c .returned with
        process := some i
        processWriter := none
        processLock := none }
  | stopTake {c i : ℕ} (h : s.stopCall c = .notCalled) (hw : s.processWriter = none)
      (hp : s.process = some i) :
      CallStep s (.stopTake c) { s.setStop c (.cancel i) with process := none }
  | stopRefused {c : ℕ} (h : s.stopCall c = .notCalled) (hw : s.processWriter = none)
      (hp : s.process = none) : CallStep s (.stopTake c) (s.setStop c .refused)
  | stopCancel {c i : ℕ} (h : s.stopCall c = .cancel i) :
      CallStep s (.stopCancel c) { s.setStop c (.await i) with
        isCancelled := Function.update s.isCancelled i true }
  | stopJoined {c i : ℕ} (h : s.stopCall c = .await i) (ht : s.task i = .finished) :
      CallStep s (.stopAwait c) (s.setStop c .send)
  | stopJoinFails {c i : ℕ} (h : s.stopCall c = .await i) (ht : s.task i = .panicked) :
      CallStep s (.stopAwait c) (s.setStop c .failed)
  | stopSend {c : ℕ} (h : s.stopCall c = .send) :
      CallStep s (.stopSend c) { s.setStop c .returned with published := .stopped }

lemma callStep_cases {s s' : Egress L} {l : Label L} (hs : s.callStep l = some s') :
    CallStep s l s' := by
  cases l with
  | startLock c =>
      simp only [callStep, Option.ite_none_right_eq_some, Option.some.injEq] at hs
      obtain ⟨⟨h, hl⟩, rfl⟩ := hs
      exact .startLock h hl
  | startCheck c =>
      simp only [callStep, Option.ite_none_right_eq_some] at hs
      obtain ⟨⟨h, -⟩, hs⟩ := hs
      split at hs <;> rename_i hp <;> rw [← Option.some.inj hs]
      · exact .startRefused h hp
      · exact .startChecked h hp
  | startSend c =>
      simp only [callStep, Option.ite_none_right_eq_some, Option.some.injEq] at hs
      obtain ⟨h, rfl⟩ := hs
      exact .startSend h
  | startWrite c =>
      simp only [callStep, Option.ite_none_right_eq_some, Option.some.injEq] at hs
      obtain ⟨⟨h, hw⟩, rfl⟩ := hs
      exact .startWrite h hw
  | startSpawn c =>
      simp only [callStep, Option.ite_none_right_eq_some, Option.some.injEq] at hs
      obtain ⟨h, rfl⟩ := hs
      exact .startSpawn h
  | startStore c =>
      simp only [callStep] at hs
      split at hs
      · rename_i i h
        rw [← Option.some.inj hs]
        exact .startStore h
      · cases hs
  | stopTake c =>
      simp only [callStep, Option.ite_none_right_eq_some] at hs
      obtain ⟨⟨h, hw⟩, hs⟩ := hs
      split at hs <;> rename_i hp <;> rw [← Option.some.inj hs]
      · exact .stopTake h hw hp
      · exact .stopRefused h hw hp
  | stopCancel c =>
      simp only [callStep] at hs
      split at hs
      · rename_i i h
        rw [← Option.some.inj hs]
        exact .stopCancel h
      · cases hs
  | stopAwait c =>
      simp only [callStep] at hs
      split at hs
      · rename_i i h
        split at hs
        · rename_i ht
          rw [← Option.some.inj hs]
          exact .stopJoined h ht
        · rename_i ht
          rw [← Option.some.inj hs]
          exact .stopJoinFails h ht
        · cases hs
      · cases hs
  | stopSend c =>
      simp only [callStep, Option.ite_none_right_eq_some, Option.some.injEq] at hs
      obtain ⟨h, rfl⟩ := hs
      exact .stopSend h
  | _ => cases hs

/-- The steps of a tunnel task and of its transport, with their guards and effects. -/
inductive TaskStep (p : Profile) (s : Egress L) : Label L → Egress L → Prop
  | connected {i : ℕ} {retry : UInt32} (h : s.task i = .connecting retry) :
      TaskStep p s (.connected i) (s.setTask i .announcing)
  | connectFailed {i : ℕ} {retry : UInt32} {ms : UInt64} (h : s.task i = .connecting retry)
      (hd : reconnectDelay p retry = .ret ms) :
      TaskStep p s (.connectFails i) (s.setTask i (.waiting retry ms))
  | delayPanics {i : ℕ} {retry : UInt32} (h : s.task i = .connecting retry)
      (hd : reconnectDelay p retry = .panic) :
      TaskStep p s (.connectFails i) (s.setTask i .panicked)
  | sentReady {i : ℕ} (h : s.task i = .announcing) :
      TaskStep p s (.sendReady i)
        { s.setTask i (.serving false L.fresh) with published := .ready }
  | served {i : ℕ} {event : L.Event} {lost : Bool} {loop loop' : L.Local}
      (h : s.task i = .serving lost loop) (he : L.handle loop event = .ret loop') :
      TaskStep p s (.serve i event) (s.setTask i (.serving lost loop'))
  | loopPanics {i : ℕ} {event : L.Event} {lost : Bool} {loop : L.Local}
      (h : s.task i = .serving lost loop) (he : L.handle loop event = .panic) :
      TaskStep p s (.serve i event) (s.setTask i .panicked)
  | lost {i : ℕ} {lost : Bool} {loop : L.Local} (h : s.task i = .serving lost loop) :
      TaskStep p s (.lose i) (s.setTask i (.serving true loop))
  | leftLoop {i : ℕ} {loop : L.Local} (h : s.task i = .serving true loop) :
      TaskStep p s (.tunnelClosed i) (s.setTask i (.connecting 0))
  | servingCancelled {i : ℕ} {lost : Bool} {loop : L.Local} (hc : s.isCancelled i = true)
      (h : s.task i = .serving lost loop) :
      TaskStep p s (.processCancelled i) (s.setTask i .closing)
  | waitingCancelled {i : ℕ} {retry : UInt32} {ms : UInt64} (hc : s.isCancelled i = true)
      (h : s.task i = .waiting retry ms) :
      TaskStep p s (.processCancelled i) (s.setTask i .finished)
  | closed {i : ℕ} (h : s.task i = .closing) :
      TaskStep p s (.closed i) (s.setTask i .finished)
  | slept {i : ℕ} {retry retry' : UInt32} {ms : UInt64} (h : s.task i = .waiting retry ms)
      (hn : nextRetry p retry = .ret retry') :
      TaskStep p s (.sleepElapsed i) (s.setTask i (.connecting retry'))
  | retryPanics {i : ℕ} {retry : UInt32} {ms : UInt64} (h : s.task i = .waiting retry ms)
      (hn : nextRetry p retry = .panic) :
      TaskStep p s (.sleepElapsed i) (s.setTask i .panicked)

lemma taskStep_inv {p : Profile} {s s' : Egress L} {l : Label L}
    (hs : s.taskStep p l = some s') : TaskStep p s l s' := by
  cases l with
  | connected i =>
      simp only [taskStep] at hs
      split at hs
      · rename_i h
        rw [← Option.some.inj hs]
        exact .connected h
      · cases hs
  | connectFails i =>
      simp only [taskStep] at hs
      split at hs
      · rename_i h
        split at hs <;> rename_i hd <;> rw [← Option.some.inj hs]
        · exact .connectFailed h hd
        · exact .delayPanics h hd
      · cases hs
  | sendReady i =>
      simp only [taskStep] at hs
      split at hs
      · rename_i h
        rw [← Option.some.inj hs]
        exact .sentReady h
      · cases hs
  | serve i event =>
      simp only [taskStep] at hs
      split at hs
      · rename_i h
        split at hs <;> rename_i he <;> rw [← Option.some.inj hs]
        · exact .served h he
        · exact .loopPanics h he
      · cases hs
  | lose i =>
      simp only [taskStep] at hs
      split at hs
      · rename_i h
        rw [← Option.some.inj hs]
        exact .lost h
      · cases hs
  | tunnelClosed i =>
      simp only [taskStep] at hs
      split at hs
      · rename_i h
        rw [← Option.some.inj hs]
        exact .leftLoop h
      · cases hs
  | processCancelled i =>
      simp only [taskStep, Option.ite_none_right_eq_some] at hs
      obtain ⟨hc, hs⟩ := hs
      split at hs
      · rename_i h
        rw [← Option.some.inj hs]
        exact .servingCancelled hc h
      · rename_i h
        rw [← Option.some.inj hs]
        exact .waitingCancelled hc h
      · cases hs
  | closed i =>
      simp only [taskStep] at hs
      split at hs
      · rename_i h
        rw [← Option.some.inj hs]
        exact .closed h
      · cases hs
  | sleepElapsed i =>
      simp only [taskStep] at hs
      split at hs
      · rename_i h
        split at hs <;> rename_i hn <;> rw [← Option.some.inj hs]
        · exact .slept h hn
        · exact .retryPanics h hn
      · cases hs
  | _ => cases hs

/-- **A tunnel task moves itself, and the one thing it may publish is `Ready`.** -/
lemma TaskStep.moves {p : Profile} {s s' : Egress L} {l : Label L} (hs : TaskStep p s l s') :
    ∃ i pc published, (s.task i).alive = true ∧
      s' = { s.setTask i pc with published := published } ∧
      (published = s.published ∨ published = .ready) := by
  cases hs with
  | sentReady h => exact ⟨_, _, .ready, by rw [h]; rfl, rfl, Or.inr rfl⟩
  | connected h | connectFailed h | delayPanics h | served h | loopPanics h | lost h | leftLoop h
  | servingCancelled _ h | waitingCancelled _ h | closed h | slept h | retryPanics h =>
      exact ⟨_, _, s.published, by rw [h]; rfl, rfl, Or.inl rfl⟩

/-- A step is one of a call, or one of a task. -/
inductive Step (p : Profile) (s : Egress L) (l : Label L) (s' : Egress L) : Prop
  | call (h : CallStep s l s')
  | task (h : TaskStep p s l s')

lemma step_cases {p : Profile} {s s' : Egress L} {l : Label L} (hs : step p s l = some s') :
    Step p s l s' := by
  rw [step, Option.or_eq_some_iff] at hs
  rcases hs with hs | ⟨-, hs⟩
  · exact .call (callStep_cases hs)
  · exact .task (taskStep_inv hs)

end Egress

end Siffleux
