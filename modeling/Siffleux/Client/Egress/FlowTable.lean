import Mathlib.Data.List.Nodup
import Siffleux.Client.Egress.UdpTunnel

/-!
# No origin is lost from the flow table

Entries of `udp_sockets` are made by the main loop, and a task that gives its flow up asks for the
removal of its entry by a message that carries the origin only.  The same origin may come back at
any time, so the message could be about an entry that is not the task's any more.

`FlowsSound` is what rules this out, in every state of every run: an origin's entry is that of the
one task that has not announced its end, or a message about it is on its way.  A message therefore
finds the entry it was sent for, and the entry of a task that is gone does not stay:
`flow_table_sound`.
-/

namespace Siffleux

open ByteBuf Transition

namespace FlowTask

/-- The task has not given its flow up. -/
def isActive : FlowPc → Bool
  | .creating | .running _ => true
  | _ => false

/-- What a task has announced where it is; `isOver` says that it may have left without a word. -/
structure Sound (isOver : Prop) (f : FlowTask) : Prop where
  active : isActive f.pc = true → f.announced = false
  leaving : ∀ cancelsSocket, f.pc = .leaving cancelsSocket → f.announced = true
  ended : f.pc = .ended → f.announced = true ∨ isOver

lemma sound_absent (isOver : Prop) : absent.Sound isOver :=
  ⟨fun _ => rfl, fun _ h => (by cases h), fun h => by cases h⟩

lemma sound_spawn (isOver : Prop) (origin : SocketAddr) : (spawn origin).Sound isOver :=
  ⟨fun _ => rfl, fun _ h => (by cases h), fun h => by cases h⟩

lemma Sound.mono {isOver isOver' : Prop} {f : FlowTask} (h : f.Sound isOver)
    (ho : isOver → isOver') :
    f.Sound isOver' :=
  ⟨h.active, h.leaving, fun he => (h.ended he).imp id ho⟩

/-- Nothing here is about the channel, the socket or the buffer. -/
lemma Sound.congr {isOver : Prop} {f f' : FlowTask} (h : f.Sound isOver) (hpc : f'.pc = f.pc)
    (ha : f'.announced = f.announced) : f'.Sound isOver := by
  refine ⟨?_, ?_, ?_⟩
  · rw [hpc, ha]
    exact h.active
  · rw [hpc, ha]
    exact h.leaving
  · rw [hpc, ha]
    exact h.ended

/-- A task that goes on without a word. -/
lemma Sound.running {isOver : Prop} {f f' : FlowTask} (h : f.Sound isOver)
    (hf : isActive f.pc = true) (hpc : isActive f'.pc = true)
    (ha : f'.announced = f.announced) : f'.Sound isOver := by
  refine ⟨fun _ => ha.trans (h.active hf), fun c hc => ?_, fun he => ?_⟩
  · rw [hc] at hpc
    cases hpc
  · rw [he] at hpc
    cases hpc

/-- A task that returns, after it has announced that or when it need not. -/
lemma Sound.ending {isOver : Prop} {f' : FlowTask} (hpc : f'.pc = .ended)
    (h : f'.announced = true ∨ isOver) : f'.Sound isOver := by
  refine ⟨fun hf => ?_, fun c hc => ?_, fun _ => h⟩
  · rw [hpc] at hf
    cases hf
  · rw [hpc] at hc
    cases hc

end FlowTask

namespace UdpTunnel

/-- The process is stopped, or the main loop has been left: then tasks return without a word. -/
def IsOver (s : UdpTunnel) : Prop := s.cancelled = true ∨ mainAlive s.main = false

/-- The table, the tasks and the messages between them agree. -/
structure FlowsSound (s : UdpTunnel) : Prop where
  task : ∀ i, (s.flow i).Sound s.IsOver
  spawned : ∀ i, (s.flow i).pc ≠ .notSpawned ↔ i < s.nextTask
  entry : ∀ origin i, s.current origin = some i → i < s.nextTask ∧ (s.flow i).origin = origin
  unannounced : ∀ i, i < s.nextTask → (s.flow i).announced = false →
    s.current (s.flow i).origin = some i
  queued : ∀ m ∈ s.expired, (s.flow m.sender).announced = true ∧
    s.current m.socketAddr = some m.sender
  complete : mainAlive s.main = true → ∀ origin i, s.current origin = some i →
    (s.flow i).announced = true → ⟨i, origin⟩ ∈ s.expired
  nodup : (s.expired.map Expiry.socketAddr).Nodup

lemma flowsSound_new : new.FlowsSound where
  task _ := FlowTask.sound_absent _
  spawned _ := iff_of_false (fun h => h rfl) (Nat.not_lt_zero _)
  entry _ _ h := by cases h
  unannounced i h := absurd h (Nat.not_lt_zero i)
  queued _ h := by cases h
  complete _ _ _ h := by cases h
  nodup := List.nodup_nil

variable {s s' : UdpTunnel}

/-- A step that moves no task, no entry and no message. -/
lemma FlowsSound.congr (h : s.FlowsSound) (hf : s'.flow = s.flow) (hn : s'.nextTask = s.nextTask)
    (he : s'.expired = s.expired) (hc : ∀ origin, s'.current origin = s.current origin)
    (ho : s.IsOver → s'.IsOver) (hm : mainAlive s'.main = true → mainAlive s.main = true) :
    s'.FlowsSound where
  task i := by
    rw [hf]
    exact (h.task i).mono ho
  spawned i := by
    rw [hf, hn]
    exact h.spawned i
  entry origin i := by
    rw [hc, hf, hn]
    exact h.entry origin i
  unannounced i := by
    rw [hc, hf, hn]
    exact h.unannounced i
  queued m := by
    rw [hc, hf, he]
    exact h.queued m
  complete ha origin i := by
    rw [hc, hf, he]
    exact h.complete (hm ha) origin i
  nodup := by
    rw [he]
    exact h.nodup

/-- A step of one task that announces nothing. -/
lemma FlowsSound.setFlow (h : s.FlowsSound) {i : ℕ} {f : FlowTask} (hf : f.Sound s.IsOver)
    (hs : f.pc ≠ .notSpawned ↔ (s.flow i).pc ≠ .notSpawned)
    (ho : f.origin = (s.flow i).origin) (ha : f.announced = (s.flow i).announced) :
    (s.setFlow i f).FlowsSound := by
  have horigin : ∀ j, (Function.update s.flow i f j).origin = (s.flow j).origin := by
    intro j
    exact flow_update (P := fun g => g.origin = (s.flow j).origin) j
      (fun hj => by rw [hj, ho]) fun _ => rfl
  have hannounced : ∀ j, (Function.update s.flow i f j).announced = (s.flow j).announced := by
    intro j
    exact flow_update (P := fun g => g.announced = (s.flow j).announced) j
      (fun hj => by rw [hj, ha]) fun _ => rfl
  constructor
  case task =>
    intro j
    rw [setFlow_flow]
    exact flow_update j (fun _ => hf) fun _ => h.task j
  case spawned =>
    intro j
    rw [setFlow_flow]
    refine flow_update (P := fun g => g.pc ≠ .notSpawned ↔ j < s.nextTask) j (fun hj => ?_)
      fun _ => h.spawned j
    subst hj
    exact hs.trans (h.spawned j)
  case entry =>
    intro origin j
    rw [setFlow_flow, horigin]
    exact h.entry origin j
  case unannounced =>
    intro j
    rw [setFlow_flow, horigin, hannounced]
    exact h.unannounced j
  case queued =>
    intro m
    rw [setFlow_flow, hannounced]
    exact h.queued m
  case complete =>
    intro hm origin j
    rw [setFlow_flow, hannounced]
    exact h.complete hm origin j
  case nodup => exact h.nodup

/-- A task at work has been spawned. -/
lemma FlowsSound.lt_of_active (h : s.FlowsSound) {i : ℕ}
    (hi : FlowTask.isActive (s.flow i).pc = true) : i < s.nextTask := by
  refine (h.spawned i).mp fun hpc => ?_
  rw [hpc] at hi
  cases hi

/-- A task at work has the entry of its origin. -/
lemma FlowsSound.current_of_active (h : s.FlowsSound) {i : ℕ}
    (hi : FlowTask.isActive (s.flow i).pc = true) : s.current (s.flow i).origin = some i :=
  h.unannounced i (h.lt_of_active hi) ((h.task i).active hi)

/-- A task that gives its flow up has the entry of its origin, and there is no message about it. -/
lemma FlowsSound.announce (h : s.FlowsSound) {i : ℕ}
    (hi : FlowTask.isActive (s.flow i).pc = true) (cancelsSocket : Bool) :
    (s.announce i cancelsSocket).FlowsSound := by
  have hun : (s.flow i).announced = false := (h.task i).active hi
  have hcur : s.current (s.flow i).origin = some i := h.current_of_active hi
  have hnew : ∀ m ∈ s.expired, m.socketAddr ≠ (s.flow i).origin := by
    intro m hm he
    obtain ⟨ha, hc⟩ := h.queued m hm
    rw [he, hcur, Option.some.injEq] at hc
    rw [← hc, hun] at ha
    cases ha
  have hself : (s.announce i cancelsSocket).flow i =
      { s.flow i with pc := .leaving cancelsSocket, announced := true } := Function.update_self ..
  have hother : ∀ j, j ≠ i → (s.announce i cancelsSocket).flow j = s.flow j :=
    fun j hne => Function.update_of_ne hne ..
  have horigin : ∀ j, ((s.announce i cancelsSocket).flow j).origin = (s.flow j).origin := by
    intro j
    rcases eq_or_ne j i with rfl | hne
    · rw [hself]
    · rw [hother j hne]
  have hmem : ∀ m, m ∈ (s.announce i cancelsSocket).expired →
      m ∈ s.expired ∨ m = ⟨i, (s.flow i).origin⟩ := by
    intro m hm
    simp only [UdpTunnel.announce] at hm
    split at hm
    · simpa using hm
    · exact Or.inl hm
  constructor
  case task =>
    intro j
    rcases eq_or_ne j i with rfl | hne
    · rw [hself]
      exact ⟨fun hact => (by cases hact), fun _ _ => rfl, fun _ => Or.inl rfl⟩
    · rw [hother j hne]
      exact h.task j
  case spawned =>
    intro j
    rcases eq_or_ne j i with rfl | hne
    · rw [hself]
      exact iff_of_true (by simp) (h.lt_of_active hi)
    · rw [hother j hne]
      exact h.spawned j
  case entry =>
    intro origin j
    rw [horigin]
    exact h.entry origin j
  case unannounced =>
    intro j hj ha
    rcases eq_or_ne j i with rfl | hne
    · rw [hself] at ha
      cases ha
    · rw [hother j hne] at ha ⊢
      exact h.unannounced j hj ha
  case queued =>
    intro m hm
    rcases hmem m hm with hold | rfl
    · obtain ⟨ha, hc⟩ := h.queued m hold
      refine ⟨?_, hc⟩
      rcases eq_or_ne m.sender i with he | hne
      · rw [he, hself]
      · rw [hother _ hne]
        exact ha
    · exact ⟨congrArg FlowTask.announced hself, hcur⟩
  case complete =>
    intro hm origin j hj ha
    have hexp : (s.announce i cancelsSocket).expired = s.expired ++ [⟨i, (s.flow i).origin⟩] :=
      if_pos hm
    rw [hexp]
    rcases eq_or_ne j i with rfl | hne
    · rw [← (h.entry origin j hj).2]
      exact List.mem_append_right _ (List.mem_singleton_self _)
    · rw [hother j hne] at ha
      exact List.mem_append_left _ (h.complete hm origin j hj ha)
  case nodup =>
    simp only [UdpTunnel.announce]
    split
    · rw [List.map_append, List.map_singleton, List.nodup_append]
      refine ⟨h.nodup, by simp, ?_⟩
      rintro a ha b hb rfl
      obtain ⟨m, hm, rfl⟩ := List.mem_map.mp ha
      exact hnew m hm (List.mem_singleton.mp hb)
    · exact h.nodup

lemma current_of_waiting (hm : s.main = .waiting) (origin : SocketAddr) :
    s.current origin = s.udpSockets origin := by
  rw [current, hm]

/-- A new task for an origin without an entry. -/
lemma FlowsSound.spawn (h : s.FlowsSound) (hm : s.main = .waiting) {origin : SocketAddr}
    (ho : s.udpSockets origin = none) (payload : Bytes)
    (hs' : s' = { s.setFlow s.nextTask (.spawn origin) with
      main := .trySend origin payload s.nextTask
      nextTask := s.nextTask + 1 }) : s'.FlowsSound := by
  have hcur : ∀ a, s'.current a = if a = origin then some s.nextTask else s.current a := by
    intro a
    rw [current_of_waiting hm]
    subst hs'
    rfl
  have hnone : s.current origin = none := (current_of_waiting hm origin).trans ho
  have hself : s'.flow s.nextTask = .spawn origin := by
    subst hs'
    exact Function.update_self ..
  have hother : ∀ j, j ≠ s.nextTask → s'.flow j = s.flow j := by
    intro j hne
    subst hs'
    exact Function.update_of_ne hne ..
  have hnext : s'.nextTask = s.nextTask + 1 := by subst hs'; rfl
  have hexp : s'.expired = s.expired := by subst hs'; rfl
  have hover : s.IsOver → s'.IsOver := by
    rintro (hc | hl)
    · subst hs'
      exact Or.inl hc
    · rw [hm] at hl
      cases hl
  constructor
  case task =>
    intro j
    rcases eq_or_ne j s.nextTask with rfl | hne
    · rw [hself]
      exact FlowTask.sound_spawn _ origin
    · rw [hother j hne]
      exact (h.task j).mono hover
  case spawned =>
    intro j
    rcases eq_or_ne j s.nextTask with rfl | hne
    · rw [hself, hnext]
      exact iff_of_true (by simp [FlowTask.spawn]) (Nat.lt_succ_self _)
    · rw [hother j hne, hnext, h.spawned j]
      omega
  case entry =>
    intro a j hj
    rw [hcur] at hj
    split_ifs at hj with ha
    · obtain rfl := Option.some.inj hj
      rw [hself, ha]
      exact ⟨by omega, rfl⟩
    · obtain ⟨hlt, hor⟩ := h.entry a j hj
      rw [hother j (by omega)]
      exact ⟨by omega, hor⟩
  case unannounced =>
    intro j hj ha
    rcases eq_or_ne j s.nextTask with rfl | hne
    · rw [hself, hcur]
      exact if_pos rfl
    · rw [hother j hne] at ha ⊢
      have hc := h.unannounced j (by omega) ha
      rw [hcur, if_neg ?_]
      · exact hc
      · intro he
        rw [he, hnone] at hc
        cases hc
  case queued =>
    intro m hmem
    rw [hexp] at hmem
    obtain ⟨ha, hc⟩ := h.queued m hmem
    have hlt := (h.entry _ _ hc).1
    rw [hother _ (by omega), hcur, if_neg ?_]
    · exact ⟨ha, hc⟩
    · intro he
      rw [he, hnone] at hc
      cases hc
  case complete =>
    intro _ a j hj ha
    rw [hcur] at hj
    split_ifs at hj with hao
    · obtain rfl := Option.some.inj hj
      rw [hself] at ha
      cases ha
    · have hlt := (h.entry a j hj).1
      rw [hother j (by omega)] at ha
      rw [hexp]
      exact h.complete (by rw [hm]; rfl) a j hj ha
  case nodup =>
    rw [hexp]
    exact h.nodup

/-- The message that is taken is about the entry its sender had, and no other message is about that
origin. -/
lemma FlowsSound.expire (h : s.FlowsSound) (hm : s.main = .waiting) {m : Expiry} {ms : List Expiry}
    (he : s.expired = m :: ms) (hs' : s' = { s with
      expired := ms
      udpSockets := Function.update s.udpSockets m.socketAddr none }) : s'.FlowsSound := by
  obtain ⟨hsender, hentry⟩ := h.queued m (by rw [he]; exact List.mem_cons_self)
  have hnodup := h.nodup
  rw [he, List.map_cons, List.nodup_cons] at hnodup
  have hmain : s'.main = .waiting := by subst hs'; exact hm
  have hself : s'.current m.socketAddr = none := by
    rw [current_of_waiting hmain]
    subst hs'
    exact Function.update_self ..
  have hother : ∀ a, a ≠ m.socketAddr → s'.current a = s.current a := by
    intro a hne
    rw [current_of_waiting hmain, current_of_waiting hm]
    subst hs'
    exact Function.update_of_ne hne ..
  have hne : ∀ {a j}, s'.current a = some j → a ≠ m.socketAddr := by
    rintro a j hj rfl
    rw [hself] at hj
    cases hj
  have hflow : s'.flow = s.flow := by subst hs'; rfl
  have hnext : s'.nextTask = s.nextTask := by subst hs'; rfl
  have hexp : s'.expired = ms := by subst hs'; rfl
  have hover : s.IsOver → s'.IsOver := by subst hs'; exact id
  constructor
  case task =>
    intro j
    rw [hflow]
    exact (h.task j).mono hover
  case spawned =>
    rw [hflow, hnext]
    exact h.spawned
  case entry =>
    intro a j hj
    rw [hflow, hnext]
    exact h.entry a j (by rw [← hother a (hne hj)]; exact hj)
  case unannounced =>
    intro j hj ha
    rw [hnext] at hj
    rw [hflow] at ha ⊢
    have hc := h.unannounced j hj ha
    rw [hother _ ?_]
    · exact hc
    · -- the task with the entry that goes has announced its end
      intro heq
      rw [heq, hentry, Option.some.injEq] at hc
      rw [hc, ha] at hsender
      cases hsender
  case queued =>
    intro m' hm'
    rw [hexp] at hm'
    obtain ⟨ha, hc⟩ := h.queued m' (by rw [he]; exact List.mem_cons_of_mem _ hm')
    rw [hflow, hother _ ?_]
    · exact ⟨ha, hc⟩
    · intro heq
      exact hnodup.1 (heq ▸ List.mem_map_of_mem hm')
  case complete =>
    intro _ a j hj ha
    have hna := hne hj
    rw [hflow] at ha
    rw [hother a hna] at hj
    have hmem := h.complete (by rw [hm]; rfl) a j hj ha
    rw [he] at hmem
    rw [hexp]
    refine (List.mem_cons.mp hmem).resolve_left fun heq => ?_
    exact hna (congrArg Expiry.socketAddr heq)
  case nodup =>
    rw [hexp]
    exact hnodup.2

/-- Replies concern the log and the buffer only. -/
lemma FlowsSound.sendReply (h : s.FlowsSound) (i : ℕ) (data : Bytes) (ok : Bool) :
    (s.sendReply i data ok).FlowsSound := by
  obtain ⟨buffer, payload, he⟩ := s.sendReply_eq i data ok
  have hset : (s.setFlow i { s.flow i with buffer := buffer }).FlowsSound :=
    h.setFlow ((h.task i).congr rfl rfl) Iff.rfl rfl rfl
  rw [he]
  exact hset.congr rfl rfl rfl (fun _ => rfl) id id

/-- A step of a task that receives, sends or gets its socket. -/
lemma FlowsSound.running (h : s.FlowsSound) {i : ℕ} {f : FlowTask}
    (hi : FlowTask.isActive (s.flow i).pc = true) (hf : FlowTask.isActive f.pc = true)
    (ho : f.origin = (s.flow i).origin) (ha : f.announced = (s.flow i).announced) :
    (s.setFlow i f).FlowsSound := by
  refine h.setFlow ((h.task i).running hi hf ha) (iff_of_true (fun hn => ?_) fun hn => ?_) ho ha
  · rw [hn] at hf
    cases hf
  · rw [hn] at hi
    cases hi

/-- A task returns. -/
lemma FlowsSound.ending (h : s.FlowsSound) {i : ℕ} {f : FlowTask}
    (hi : (s.flow i).pc ≠ .notSpawned) (hf : f.pc = .ended)
    (hov : (s.flow i).announced = true ∨ s.IsOver)
    (ho : f.origin = (s.flow i).origin) (ha : f.announced = (s.flow i).announced) :
    (s.setFlow i f).FlowsSound :=
  h.setFlow (.ending hf (by rw [ha]; exact hov)) (iff_of_true (by rw [hf]; simp) hi) ho ha

/-- A task that finds no sender any more: its entry is there, so the main loop is not. -/
lemma FlowsSound.isOver_of_noSender (h : s.FlowsSound) {i : ℕ}
    (hi : FlowTask.isActive (s.flow i).pc = true) (hs : s.senderAlive i = false) : s.IsOver := by
  have hcur := h.current_of_active hi
  rw [senderAlive, hcur, decide_eq_true rfl, Bool.and_true] at hs
  exact Or.inr hs

theorem FlowsSound.step {l : Label} (h : s.FlowsSound) (hs : s.step l = some s') :
    s'.FlowsSound := by
  have hdeliver : ∀ bytes, (s.deliver bytes).FlowsSound := fun bytes =>
    h.congr rfl rfl rfl (fun _ => rfl) id id
  cases step_cases hs with
  | malformed hm he =>
      refine h.congr rfl rfl rfl (fun a => ?_) (fun _ => Or.inr rfl) fun ha => by cases ha
      rw [current_of_waiting hm]
      rfl
  | noOrigin => exact hdeliver _
  | @routed bytes payload origin i hm he hi =>
      exact (hdeliver bytes).setFlow ((h.task i).congr rfl rfl) Iff.rfl rfl rfl
  | spawned hm he hi => exact (hdeliver _).spawn hm hi _ rfl
  | @triedSend origin bytes i hm =>
      have hset : (s.setFlow i ((s.flow i).trySend bytes)).FlowsSound :=
        h.setFlow ((h.task i).congr rfl rfl) Iff.rfl rfl rfl
      have hmain : (s.setFlow i ((s.flow i).trySend bytes)).main = .trySend origin bytes i := hm
      refine hset.congr rfl rfl rfl (fun a => ?_) (fun ho => ?_) fun _ => ?_
      · rw [current, current, hmain]
      · exact ho.imp id fun hl => by rw [hmain] at hl; cases hl
      · rw [hmain]
        rfl
  | @inserted origin i hm =>
      refine h.congr rfl rfl rfl (fun a => ?_) (fun ho => ?_) fun _ => by rw [hm]; rfl
      · simp only [current, hm, Function.update_apply]
      · exact ho.imp id fun hl => by rw [hm] at hl; cases hl
  | expired hm he => exact h.expire hm he rfl
  | leftClosed hm =>
      refine h.congr rfl rfl rfl (fun a => ?_) (fun _ => Or.inr rfl) fun ha => by cases ha
      rw [current_of_waiting hm]
      rfl
  | leftCancelled hm =>
      refine h.congr rfl rfl rfl (fun a => ?_) (fun _ => Or.inr rfl) fun ha => by cases ha
      rw [current_of_waiting hm]
      rfl
  | socketFailed hi | idled hi => exact h.announce (by rw [hi]; rfl) _
  | taskClosed hi => exact h.announce (by rw [hi]; rfl) _
  | socketCreated hi | gotBatch hi | notSent hi => exact h.running (by rw [hi]; rfl) rfl rfl rfl
  | @sent i bytes batch hi =>
      have hset : (s.setFlow i { s.flow i with pc := .running batch }).FlowsSound :=
        h.running (by rw [hi]; rfl) rfl rfl rfl
      exact hset.congr rfl rfl rfl (fun _ => rfl) id id
  | noSender hi hq hsender =>
      have hover : s.IsOver := h.isOver_of_noSender (by rw [hi]; rfl) hsender
      exact h.ending (by rw [hi]; simp) rfl (Or.inr hover) rfl rfl
  | taskCancelled hi hc => exact h.ending (by rw [hi]; simp) rfl (Or.inr (Or.inl hc)) rfl rfl
  | @taskReturned i cancelsSocket hi =>
      exact h.ending (by rw [hi]; simp) rfl (Or.inl ((h.task i).leaving _ hi)) rfl rfl
  | replied => exact h.sendReply _ _ _
  | @replyReturned i hi => exact h.setFlow ((h.task i).congr rfl rfl) Iff.rfl rfl rfl
  | closed => exact h.congr rfl rfl rfl (fun _ => rfl) id id
  | cancelled => exact h.congr rfl rfl rfl (fun _ => rfl) (fun _ => Or.inl rfl) id

theorem flowsSound_run {ls : List Label} (h : system.Run ls s) : s.FlowsSound :=
  h.invariant flowsSound_new fun _ _ _ hi hs => hi.step hs

/-! ## In the select -/

/-- Taking all messages takes all their entries. -/
lemma exec_expire : ∀ (ms : List Expiry) (s : UdpTunnel), s.main = .waiting → s.expired = ms →
    ∃ s', system.exec s (List.replicate ms.length .expire) = some s' ∧
      (∀ m ∈ ms, s'.udpSockets m.socketAddr = none) ∧
      ∀ origin, s.udpSockets origin = none → s'.udpSockets origin = none
  | [], s, _, _ => ⟨s, rfl, fun _ hm => (by cases hm), fun _ ho => ho⟩
  | m :: ms, s, hm, he => by
      have hs : system.step s .expire = some { s with
          expired := ms
          udpSockets := Function.update s.udpSockets m.socketAddr none } := by
        simp only [system, UdpTunnel.step, hm, he]
      obtain ⟨s', hexec, hnone, hkeep⟩ := exec_expire ms { s with
        expired := ms
        udpSockets := Function.update s.udpSockets m.socketAddr none } hm rfl
      refine ⟨s', (System.exec_cons hs _).trans hexec, fun m' hm' => ?_, fun origin ho => ?_⟩
      · rcases List.mem_cons.mp hm' with rfl | hm'
        · exact hkeep _ (Function.update_self ..)
        · exact hnone m' hm'
      · refine hkeep origin ?_
        rcases eq_or_ne origin m.socketAddr with rfl | hne
        · exact Function.update_self ..
        · exact (Function.update_of_ne hne ..).trans ho

/-- What the table promises the main loop when it selects: an entry is that of an active task of its
origin, or there is exactly one message about it and taking the messages removes it; a message is
about the entry of its sender, which is active no more; an origin has at most one task that has not
announced its end; and a datagram with an origin is routed by the table alone, when no other task
comes between the steps. -/
structure FlowTableSound (s : UdpTunnel) : Prop where
  served : ∀ origin i, s.udpSockets origin = some i → (s.flow i).origin = origin ∧
    (FlowTask.isActive (s.flow i).pc = true ∨ (s.expired.map Expiry.socketAddr).count origin = 1)
  released : ∀ origin i, s.udpSockets origin = some i → FlowTask.isActive (s.flow i).pc = false →
    ∃ s', system.exec s (List.replicate s.expired.length .expire) = some s' ∧
      s'.udpSockets origin = none
  current : ∀ m ∈ s.expired, s.udpSockets m.socketAddr = some m.sender ∧
    FlowTask.isActive (s.flow m.sender).pc = false
  single : ∀ i j, i < s.nextTask → j < s.nextTask → (s.flow i).announced = false →
    (s.flow j).announced = false → (s.flow i).origin = (s.flow j).origin → i = j
  routed : ∀ bytes origin payload,
    extractOriginSocketAddrFromDatagram bytes = .ret (some origin, payload) →
    ∃ ls s', system.exec s (.datagram bytes :: ls) = some s' ∧ s'.main = .waiting ∧
      s'.flows = s.flows.route origin payload

/-- A task that was spawned and is active no more has announced its end. -/
lemma FlowsSound.announced (h : s.FlowsSound) (hm : s.main = .waiting) (hc : s.cancelled = false)
    {i : ℕ} (hi : (s.flow i).pc ≠ .notSpawned)
    (ha : FlowTask.isActive (s.flow i).pc = false) : (s.flow i).announced = true := by
  have hover : ¬ s.IsOver := by
    rintro (ho | ho)
    · rw [hc] at ho
      cases ho
    · rw [hm] at ho
      cases ho
  cases hpc : (s.flow i).pc with
  | notSpawned => exact absurd hpc hi
  | creating | running => rw [hpc] at ha; cases ha
  | leaving c => exact (h.task i).leaving c hpc
  | ended => exact ((h.task i).ended hpc).resolve_right hover

/-- **The flow table is sound whenever the main loop selects**, in every run of the egress under one
tunnel in which the process is not stopped: whatever comes from which origin and when, whichever
tasks expire or get no socket, and whatever happens in between. -/
theorem flow_table_sound {ls : List Label} (h : system.Run ls s) (hm : s.main = .waiting)
    (hc : s.cancelled = false) : s.FlowTableSound := by
  have hs := flowsSound_run h
  have hcur := current_of_waiting hm
  have hmem : ∀ origin i, s.udpSockets origin = some i →
      FlowTask.isActive (s.flow i).pc = false → ⟨i, origin⟩ ∈ s.expired := by
    intro origin i hi ha
    have hi' := (hcur origin).trans hi
    have hspawned := (hs.spawned i).mpr (hs.entry origin i hi').1
    exact hs.complete (by rw [hm]; rfl) origin i hi' (hs.announced hm hc hspawned ha)
  constructor
  case served =>
    intro origin i hi
    refine ⟨(hs.entry origin i ((hcur origin).trans hi)).2, ?_⟩
    cases ha : FlowTask.isActive (s.flow i).pc with
    | true => exact Or.inl rfl
    | false =>
        refine Or.inr (List.count_eq_one_of_mem hs.nodup ?_)
        exact List.mem_map_of_mem (hmem origin i hi ha)
  case released =>
    intro origin i hi ha
    obtain ⟨s', hexec, hnone, -⟩ := exec_expire s.expired s hm rfl
    exact ⟨s', hexec, hnone _ (hmem origin i hi ha)⟩
  case current =>
    intro m hmm
    obtain ⟨ha, hentry⟩ := hs.queued m hmm
    refine ⟨(hcur _).symm.trans hentry, ?_⟩
    by_contra hact
    rw [(hs.task m.sender).active (Bool.not_eq_false _ ▸ hact)] at ha
    cases ha
  case single =>
    intro i j hi hj hai haj ho
    have h₁ := hs.unannounced i hi hai
    rw [ho, hs.unannounced j hj haj] at h₁
    exact (Option.some.inj h₁).symm
  case routed => exact fun _ _ _ he => datagram_route hm he

/-- A task that gets no socket and says so before its entry is there; the origin comes back after
its entry has been removed. -/
def returningRun : List Label :=
  [.datagram [0, 127, 0, 0, 1, 31, 144, 1], .socketFails 0, .trySend, .insert, .expire,
    .datagram [0, 127, 0, 0, 1, 31, 144, 2], .taskReturns 0, .trySend, .insert, .socketFails 1]

theorem flow_table_sound_returning : ∃ s, system.Run returningRun s ∧ s.FlowTableSound ∧
    s.expired.map Expiry.sender = [1] := by
  have h : system.Run returningRun _ := System.run_of_exec rfl
  exact ⟨_, h, flow_table_sound h rfl rfl, rfl⟩

end UdpTunnel

end Siffleux
