import Siffleux.Client.Egress.Progress

/-!
# The client

`client/client.rs`: the egresses a client has been given, by their ids.  An egress is named by a
number, and the map is a list whose order means nothing.

An egress that one thread alone starts and stops, and each once, is in better order than one that
is called from everywhere: neither call is refused, and once `stop` is over nothing is left of it
(`Egress.Owned`).
-/

namespace Siffleux

open Transition

structure Client where
  egressById : List (EgressId × ℕ)

namespace Client

def new : Client := ⟨[]⟩

/-- `Client::assign_egress`. -/
def assignEgress (c : Client) (id : EgressId) (egress : ℕ) : Except Error Client :=
  if (c.egressById.map Prod.fst).contains id then .error (.egressIDAlreadyAssigned id)
  else .ok ⟨c.egressById ++ [(id, egress)]⟩

end Client

/-! ## One egress under one thread -/

namespace Egress

variable {L : MainLoop} {p : Profile} {s s' : Egress L} {l : Label L}

/-- The thread makes one call of either, and stops what it has started. -/
def OwnCall (s : Egress L) : Label L → Prop
  | .startLock c => c = 0
  | .stopTake c => c = 0 ∧ s.startCall 0 = .returned
  | _ => True

structure Owned (s : Egress L) : Prop where
  starts : ∀ c, c ≠ 0 → s.startCall c = .notCalled
  stops : ∀ c, c ≠ 0 → s.stopCall c = .notCalled
  unrefused : s.startCall 0 ≠ .refused ∧ s.stopCall 0 ≠ .refused
  ordered : s.stopCall 0 = .notCalled ∨ s.startCall 0 = .returned
  stored : s.process.isSome = true ↔ s.startCall 0 = .returned ∧ s.stopCall 0 = .notCalled
  stopped : s.stopCall 0 = .returned → s.published = .stopped

lemma owned_new : (new L).Owned :=
  ⟨fun _ _ => rfl, fun _ _ => rfl, ⟨nofun, nofun⟩, Or.inl rfl, by simp [new], nofun⟩

lemma Owned.start_eq (h : s.Owned) {c : ℕ} (hc : s.startCall c ≠ .notCalled) : c = 0 := by
  by_contra hne
  exact hc (h.starts c hne)

lemma Owned.stop_eq (h : s.Owned) {c : ℕ} (hc : s.stopCall c ≠ .notCalled) : c = 0 := by
  by_contra hne
  exact hc (h.stops c hne)

/-- **Nothing is left of an egress whose `stop` is over.** -/
lemma Owned.no_task (h : s.Owned) (hh : s.TasksHeld) (hcall : s.stopCall 0 ≠ .notCalled)
    (hover : (s.stopCall 0).inFlight = false) (i : ℕ) : (s.task i).alive = false := by
  have hstart : s.startCall 0 = .returned := h.ordered.resolve_left hcall
  rw [Bool.eq_false_iff]
  intro hi
  rcases hh.alive i hi with hp | ⟨c, hc⟩ | ⟨c, hc⟩
  · exact hcall (h.stored.mp (by rw [hp]; rfl)).2
  · obtain rfl := h.start_eq (c := c) (by simp [hc])
    rw [hstart] at hc
    cases hc
  · have hne : s.stopCall c ≠ .notCalled := by
      intro hn
      rw [hn] at hc
      cases hc
    obtain rfl := h.stop_eq hne
    cases hpc : s.stopCall 0 <;> simp_all [StopPc.task, StopPc.inFlight]

/-- The one call of `start` on its way. -/
lemma Owned.setStart (h : s.Owned) (pc : StartPc) (hpc : pc ≠ .refused ∧ pc ≠ .returned)
    (hcur : s.startCall 0 ≠ .returned) {lock writer : Option ℕ} {published : EgressState}
    {task : ℕ → TaskPc L.Local} {nextTask : ℕ} :
    Owned { s.setStart 0 pc with
      processLock := lock, processWriter := writer, published := published,
      task := task, nextTask := nextTask } := by
  have hstop : s.stopCall 0 = .notCalled := h.ordered.resolve_right hcur
  have hproc : s.process.isSome = true ↔ False := by
    rw [h.stored]
    exact iff_of_false (fun hc => hcur hc.1) id
  have hself : Function.update s.startCall 0 pc 0 = pc := Function.update_self ..
  refine ⟨fun c hne => ?_, h.stops, ⟨?_, h.unrefused.2⟩, Or.inl hstop, ?_, fun hr => ?_⟩
  · exact (Function.update_of_ne hne ..).trans (h.starts c hne)
  · exact fun hr => hpc.1 (hself.symm.trans hr)
  · exact hproc.trans (iff_of_false id fun hc => hpc.2 (hself.symm.trans hc.1))
  · have hr' : s.stopCall 0 = .returned := hr
    rw [hstop] at hr'
    cases hr'

/-- The one call of `stop` on its way. -/
lemma Owned.setStop (h : s.Owned) (pc : StopPc) (hpc : pc ≠ .refused ∧ pc ≠ .notCalled)
    (hstart : s.startCall 0 = .returned) {process : Option ℕ} (hp : process = none)
    {published : EgressState} {isCancelled : ℕ → Bool}
    (hpub : pc = .returned → published = .stopped) :
    Owned { s.setStop 0 pc with
      process := process, published := published, isCancelled := isCancelled } := by
  subst hp
  have hself : Function.update s.stopCall 0 pc 0 = pc := Function.update_self ..
  refine ⟨h.starts, fun c hne => ?_, ⟨h.unrefused.1, ?_⟩, Or.inr hstart, ?_, fun hr => ?_⟩
  · exact (Function.update_of_ne hne ..).trans (h.stops c hne)
  · exact fun hr => hpc.1 (hself.symm.trans hr)
  · exact iff_of_false nofun fun hc => hpc.2 (hself.symm.trans hc.2)
  · exact hpub (hself.symm.trans hr)

theorem Owned.step (h : s.Owned) (hh : s.TasksHeld) (hok : s.OwnCall l)
    (hs : step p s l = some s') : s'.Owned := by
  -- a `stop` that has begun has emptied `process`
  have hempty : s.stopCall 0 ≠ .notCalled → s.process = none ∧ s.startCall 0 = .returned := by
    intro hcall
    refine ⟨?_, h.ordered.resolve_left hcall⟩
    rw [← Option.not_isSome_iff_eq_none, h.stored]
    exact fun hc => hcall hc.2
  cases step_cases hs with
  | task ht =>
      obtain ⟨i, pc, published, hi, rfl, -⟩ := ht.moves
      refine ⟨h.starts, h.stops, h.unrefused, h.ordered, h.stored, fun hr => ?_⟩
      have hr' : s.stopCall 0 = .returned := hr
      have hdead := h.no_task hh (by simp [hr']) (by simp [hr', StopPc.inFlight]) i
      rw [hi] at hdead
      cases hdead
  | call hcall =>
      cases hcall with
      | @startLock c hc hl =>
          obtain rfl : c = 0 := hok
          refine h.setStart _ ⟨?_, ?_⟩ ?_ <;> simp [hc]
      | @startRefused c i hc hp =>
          obtain rfl := h.start_eq (c := c) (by simp [hc])
          have hs := (h.stored.mp (by rw [hp]; rfl)).1
          rw [hc] at hs
          cases hs
      | @startChecked c hc | @startSend c hc | @startWrite c hc | @startSpawn c hc =>
          obtain rfl := h.start_eq (c := c) (by simp [hc])
          refine h.setStart _ ⟨?_, ?_⟩ ?_ <;> simp [hc]
      | @startStore c i hc =>
          obtain rfl := h.start_eq (c := c) (by simp [hc])
          have hstop : s.stopCall 0 = .notCalled := h.ordered.resolve_right (by simp [hc])
          have hself : Function.update s.startCall 0 .returned 0 = .returned :=
            Function.update_self ..
          refine ⟨fun c hne => ?_, h.stops, ⟨?_, h.unrefused.2⟩, Or.inl hstop, ?_, h.stopped⟩
          · exact (Function.update_of_ne hne ..).trans (h.starts c hne)
          · exact fun hr => by cases hself.symm.trans hr
          · exact iff_of_true rfl ⟨hself, hstop⟩
      | @stopTake c i hc hw hp =>
          obtain ⟨rfl, hstart⟩ := hok
          exact h.setStop _ ⟨by simp, by simp⟩ hstart rfl (by simp)
      | @stopRefused c hc hw hp =>
          obtain ⟨rfl, hstart⟩ := hok
          have hsome := h.stored.mpr ⟨hstart, hc⟩
          rw [hp] at hsome
          cases hsome
      | @stopCancel c i hc | @stopJoined c i hc | @stopJoinFails c i hc =>
          obtain rfl := h.stop_eq (c := c) (by simp [hc])
          obtain ⟨hp, hstart⟩ := hempty (by simp [hc])
          exact h.setStop _ ⟨by simp, by simp⟩ hstart hp (by simp)
      | @stopSend c hc =>
          obtain rfl := h.stop_eq (c := c) (by simp [hc])
          obtain ⟨hp, hstart⟩ := hempty (by simp [hc])
          exact h.setStop _ ⟨by simp, by simp⟩ hstart hp fun _ => rfl

end Egress

end Siffleux
