import Siffleux.Foundation.Transition

/-!
# A cancellable copy

One task copies what one side delivers to the other side until the first has ended, with a buffer
of bounded size between them, and terminates the writing side when it is done.  It leaves in one of
three ways: at the end of the inlet, with an error, or because somebody cancelled it.

The two sides are not the task's: what arrives at the inlet, its end, room at the outlet, and
failures of either side are steps of whoever is behind it.  A task with a full buffer whose outlet
has no room waits: for room, for a failure of the outlet, or for its cancellation.

* `CopyTask.step` — the steps of the task and of the two sides.
* `Faithful` — what was accepted, and then what is buffered, is what was read; the writing side was
  terminated once if the task has left, and cleanly only after everything was accepted.
* `CopyTask.Silent` — nothing has happened at the inlet.  A silent task that is not cancelled has
  no step (`Silent.no_step`), and one that is not silent, or is cancelled, can make its outlet
  show it, if that starts with room (`Faithful.can_show`).
* `remaining_step`, `attempts_step` — a task with a failed side has only so many steps left.  When
  it is the inlet, room at a full outlet counts as one of them.
-/

namespace Copying

open Transition

open scoped List

universe u v

variable {α : Type u} {ω : Type v}

/-- A reading side: all that the other end has sent, and how much of it has been read. -/
structure Inlet (α : Type u) where
  sent : List α
  taken : ℕ
  ended : Bool
  failed : Bool
  deriving DecidableEq, Repr

/-- A writing side: what it has accepted, how it was terminated, and how much more it takes. -/
structure Outlet (α : Type u) (ω : Type v) where
  accepted : List α
  terminated : List ω
  failed : Bool
  room : ℕ
  deriving DecidableEq, Repr

def Inlet.new : Inlet α := ⟨[], 0, false, false⟩
def Outlet.new (room : ℕ) : Outlet α ω := ⟨[], [], false, room⟩

/-- Nothing more comes in. -/
def Inlet.isOver (i : Inlet α) : Bool := i.ended || i.failed

def Inlet.send (i : Inlet α) (xs : List α) : Inlet α := { i with sent := i.sent ++ xs }
def Inlet.close (i : Inlet α) : Inlet α := { i with ended := true }
def Inlet.fail (i : Inlet α) : Inlet α := { i with failed := true }

/-- What was sent and not read yet. -/
def Inlet.unread (i : Inlet α) : List α := i.sent.drop i.taken
def Inlet.take (i : Inlet α) (n : ℕ) : Inlet α := { i with taken := i.taken + n }

/-- What is accepted takes up room. -/
def Outlet.accept (o : Outlet α ω) (xs : List α) : Outlet α ω :=
  { o with accepted := o.accepted ++ xs, room := o.room - xs.length }

/-- Whoever is behind the outlet has made room. -/
def Outlet.drain (o : Outlet α ω) (n : ℕ) : Outlet α ω := { o with room := o.room + n }

def Outlet.terminate (o : Outlet α ω) (e : ω) : Outlet α ω :=
  { o with terminated := o.terminated ++ [e] }

def Outlet.fail (o : Outlet α ω) : Outlet α ω := { o with failed := true }

def Outlet.isFull (o : Outlet α ω) : Bool := o.room = 0

/-- Whoever is behind the outlet has been sent something. -/
def Outlet.isShown (o : Outlet α ω) : Bool := !o.accepted.isEmpty || !o.terminated.isEmpty

inductive Pc where
  | copying
  | finished
  | failed
  | cancelled
  deriving DecidableEq, Repr

structure CopyTask (α : Type u) (ω : Type v) where
  inlet : Inlet α
  buffer : List α
  outlet : Outlet α ω
  pc : Pc
  deriving DecidableEq, Repr

/-- The size of the buffer, the room an outlet starts with, and what the task terminates it with. -/
structure CopyProfile (ω : Type v) where
  capacity : ℕ
  window : ℕ
  clean : ω
  aborted : ω

inductive Label (α : Type u) where
  | sends (xs : List α)
  | ends
  | inletFails
  | outletFails
  | drains (n : ℕ)
  | read (n : ℕ)
  | readEof
  | readFails
  | write (n : ℕ)
  | writeFails
  | cancelled
  deriving DecidableEq, Repr

/-- Who takes a step. -/
inductive Party where
  | inlet
  | task
  | outlet
  deriving DecidableEq, Repr

def Label.party : Label α → Party
  | sends _ | ends | inletFails => .inlet
  | outletFails | drains _ => .outlet
  | _ => .task

/-- The step ends the task with an error. -/
def Label.isError : Label α → Bool
  | readFails | writeFails => true
  | _ => false

/-- How a step leaves the task, if it does. -/
def Label.leaves : Label α → Option Pc
  | readEof => some .finished
  | readFails | writeFails => some .failed
  | cancelled => some .cancelled
  | _ => none

lemma Label.leaves_eq_finished {l : Label α} : l.leaves = some .finished ↔ l = .readEof := by
  cases l <;> simp [Label.leaves]

lemma Label.leaves_eq_failed {l : Label α} : l.leaves = some .failed ↔ l.isError = true := by
  cases l <;> simp [Label.leaves, Label.isError]

lemma Label.leaves_eq_cancelled {l : Label α} : l.leaves = some .cancelled ↔ l = .cancelled := by
  cases l <;> simp [Label.leaves]

namespace CopyTask

def new (p : CopyProfile ω) : CopyTask α ω := ⟨.new, [], .new p.window, .copying⟩

/-- Leave, terminating the outlet. -/
def exit (t : CopyTask α ω) (pc : Pc) (e : ω) : CopyTask α ω :=
  { t with outlet := t.outlet.terminate e, pc := pc }

/-- It reads only when its buffer is empty, and writes what it has buffered piece by piece, as far
as there is room. -/
def step (p : CopyProfile ω) (isCancelled : Bool) (t : CopyTask α ω) :
    Label α → Option (CopyTask α ω)
  | .sends xs => if t.inlet.isOver then none else some { t with inlet := t.inlet.send xs }
  | .ends => if t.inlet.isOver then none else some { t with inlet := t.inlet.close }
  | .inletFails => some { t with inlet := t.inlet.fail }
  | .outletFails => some { t with outlet := t.outlet.fail }
  | .drains n => some { t with outlet := t.outlet.drain n }
  | .read n =>
      if t.pc = .copying ∧ t.buffer.length = 0 ∧ 0 < n ∧ n ≤ p.capacity ∧
          n ≤ t.inlet.unread.length then
        some { t with buffer := t.inlet.unread.take n, inlet := t.inlet.take n }
      else none
  | .readEof =>
      if t.pc = .copying ∧ t.buffer.length = 0 ∧ t.inlet.unread.length = 0 ∧
          t.inlet.ended = true then some (t.exit .finished p.clean)
      else none
  | .readFails =>
      if t.pc = .copying ∧ t.buffer.length = 0 ∧ t.inlet.failed = true then
        some (t.exit .failed p.aborted)
      else none
  | .write n =>
      if t.pc = .copying ∧ 0 < n ∧ n ≤ t.buffer.length ∧ n ≤ t.outlet.room ∧
          t.outlet.failed = false then
        some { t with outlet := t.outlet.accept (t.buffer.take n), buffer := t.buffer.drop n }
      else none
  | .writeFails =>
      if t.pc = .copying ∧ 0 < t.buffer.length ∧ t.outlet.failed = true then
        some (t.exit .failed p.aborted)
      else none
  | .cancelled =>
      if t.pc = .copying ∧ isCancelled = true then some (t.exit .cancelled p.aborted) else none

/-- The task by itself, under a cancellation that does not change. -/
def system (α : Type u) (p : CopyProfile ω) (isCancelled : Bool) :
    System (CopyTask α ω) (Label α) :=
  ⟨new p, step p isCancelled⟩

end CopyTask

namespace CopyTask

variable {p : CopyProfile ω} {c : Bool} {t t' : CopyTask α ω} {l : Label α}

/-- Every step with its guard and its effect. -/
inductive Step (p : CopyProfile ω) (c : Bool) (t : CopyTask α ω) : Label α → CopyTask α ω → Prop
  | sends {xs : List α} (ho : t.inlet.isOver = false) :
      Step p c t (.sends xs) { t with inlet := t.inlet.send xs }
  | ends (ho : t.inlet.isOver = false) : Step p c t .ends { t with inlet := t.inlet.close }
  | inletFails : Step p c t .inletFails { t with inlet := t.inlet.fail }
  | outletFails : Step p c t .outletFails { t with outlet := t.outlet.fail }
  | drains {n : ℕ} : Step p c t (.drains n) { t with outlet := t.outlet.drain n }
  | read {n : ℕ} (hc : t.pc = .copying) (hb : t.buffer = []) (h0 : 0 < n) (hn : n ≤ p.capacity)
      (hu : n ≤ t.inlet.unread.length) :
      Step p c t (.read n) { t with buffer := t.inlet.unread.take n, inlet := t.inlet.take n }
  | readEof (hc : t.pc = .copying) (hb : t.buffer = []) (hu : t.inlet.unread = [])
      (he : t.inlet.ended = true) : Step p c t .readEof (t.exit .finished p.clean)
  | readFails (hc : t.pc = .copying) (hb : t.buffer = []) (hf : t.inlet.failed = true) :
      Step p c t .readFails (t.exit .failed p.aborted)
  | write {n : ℕ} (hc : t.pc = .copying) (h0 : 0 < n) (hn : n ≤ t.buffer.length)
      (hr : n ≤ t.outlet.room) (ho : t.outlet.failed = false) : Step p c t (.write n)
        { t with outlet := t.outlet.accept (t.buffer.take n), buffer := t.buffer.drop n }
  | writeFails (hc : t.pc = .copying) (hb : 0 < t.buffer.length) (ho : t.outlet.failed = true) :
      Step p c t .writeFails (t.exit .failed p.aborted)
  | cancelled (hc : t.pc = .copying) (hcan : c = true) :
      Step p c t .cancelled (t.exit .cancelled p.aborted)

theorem step_cases (hs : t.step p c l = some t') : Step p c t l t' := by
  cases l with
  | sends xs =>
      simp only [step, Option.ite_none_left_eq_some, Option.some.injEq, Bool.not_eq_true] at hs
      obtain ⟨ho, rfl⟩ := hs
      exact .sends ho
  | ends =>
      simp only [step, Option.ite_none_left_eq_some, Option.some.injEq, Bool.not_eq_true] at hs
      obtain ⟨ho, rfl⟩ := hs
      exact .ends ho
  | inletFails =>
      rw [← Option.some.inj hs]
      exact .inletFails
  | outletFails =>
      rw [← Option.some.inj hs]
      exact .outletFails
  | drains n =>
      rw [← Option.some.inj hs]
      exact .drains
  | read n =>
      simp only [step, Option.ite_none_right_eq_some, Option.some.injEq] at hs
      obtain ⟨⟨hc, hb, h0, hn, hu⟩, rfl⟩ := hs
      exact .read hc (List.length_eq_zero_iff.mp hb) h0 hn hu
  | readEof =>
      simp only [step, Option.ite_none_right_eq_some, Option.some.injEq] at hs
      obtain ⟨⟨hc, hb, hu, he⟩, rfl⟩ := hs
      exact .readEof hc (List.length_eq_zero_iff.mp hb) (List.length_eq_zero_iff.mp hu) he
  | readFails =>
      simp only [step, Option.ite_none_right_eq_some, Option.some.injEq] at hs
      obtain ⟨⟨hc, hb, hf⟩, rfl⟩ := hs
      exact .readFails hc (List.length_eq_zero_iff.mp hb) hf
  | write n =>
      simp only [step, Option.ite_none_right_eq_some, Option.some.injEq] at hs
      obtain ⟨⟨hc, h0, hn, hr, ho⟩, rfl⟩ := hs
      exact .write hc h0 hn hr ho
  | writeFails =>
      simp only [step, Option.ite_none_right_eq_some, Option.some.injEq] at hs
      obtain ⟨⟨hc, hb, ho⟩, rfl⟩ := hs
      exact .writeFails hc hb ho
  | cancelled =>
      simp only [step, Option.ite_none_right_eq_some, Option.some.injEq] at hs
      obtain ⟨⟨hc, hcan⟩, rfl⟩ := hs
      exact .cancelled hc hcan

/-- The inlet's steps touch the inlet only. -/
lemma step_inlet (hl : l.party = .inlet) (hs : t.step p c l = some t') :
    t'.buffer = t.buffer ∧ t'.outlet = t.outlet := by
  cases step_cases hs with
  | sends | ends | inletFails => exact ⟨rfl, rfl⟩
  | _ => cases hl

/-- The other steps only read from the inlet, and only the outlet's own make it fail. -/
lemma step_other (hl : l.party ≠ .inlet) (hs : t.step p c l = some t') :
    (∃ n, t'.inlet = t.inlet.take n) ∧
      (l.party = .outlet ∨ t'.outlet.failed = t.outlet.failed) := by
  have hnone : t.inlet = t.inlet.take 0 := rfl
  cases step_cases hs with
  | sends | ends | inletFails => exact absurd rfl hl
  | outletFails | drains => exact ⟨⟨0, hnone⟩, Or.inl rfl⟩
  | @read n => exact ⟨⟨n, rfl⟩, Or.inr rfl⟩
  | _ => exact ⟨⟨0, hnone⟩, Or.inr rfl⟩

lemma pc_of_step (hs : t.step p c l = some t') : t'.pc = l.leaves.getD t.pc := by
  cases step_cases hs <;> rfl

/-- A task leaves once. -/
lemma copying_of_leaves {pc : Pc} (hs : t.step p c l = some t') (hl : l.leaves = some pc) :
    t.pc = .copying := by
  cases step_cases hs with
  | readEof hc | readFails hc | writeFails hc | cancelled hc => exact hc
  | _ => cases hl

/-- A task has failed when a step of it was an error. -/
lemma pc_failed_iff (hs : t.step p c l = some t') :
    t'.pc = .failed ↔ t.pc = .failed ∨ l.isError = true := by
  rw [pc_of_step hs, ← Label.leaves_eq_failed]
  cases hl : l.leaves with
  | none => simp
  | some pc => simp [copying_of_leaves hs hl]

/-- A task is cancelled when its token is. -/
lemma cancelled_of_step (hs : t.step p c l = some t') (hc : t'.pc = .cancelled) :
    t.pc = .cancelled ∨ c = true := by
  cases step_cases hs with
  | readEof | readFails | writeFails => cases hc
  | cancelled _ hcan => exact Or.inr hcan
  | _ => exact Or.inl hc

/-- What has left does nothing more to its outlet. -/
lemma outlet_of_left (hs : t.step p c l = some t') (hc : t.pc ≠ .copying) :
    t'.outlet.accepted = t.outlet.accepted ∧ t'.outlet.terminated = t.outlet.terminated := by
  cases step_cases hs with
  | sends | ends | inletFails | outletFails | drains => exact ⟨rfl, rfl⟩
  | read h | readEof h | readFails h | write h | writeFails h | cancelled h => exact absurd h hc

/-- Only leaving terminates. -/
lemma terminated_of_stays (hs : t.step p c l = some t') (hl : l.leaves = none) :
    t'.outlet.terminated = t.outlet.terminated := by
  cases step_cases hs with
  | readEof | readFails | writeFails | cancelled => cases hl
  | _ => rfl

/-- Leaving writes nothing more. -/
lemma exit_of_leaves {pc : Pc} (hs : t.step p c l = some t') (hl : l.leaves = some pc) :
    t'.outlet.accepted = t.outlet.accepted ∧ t'.inlet = t.inlet := by
  cases step_cases hs with
  | readEof | readFails | writeFails | cancelled => exact ⟨rfl, rfl⟩
  | _ => cases hl

lemma accepted_prefix (hs : t.step p c l = some t') : t.outlet.accepted <+: t'.outlet.accepted := by
  cases step_cases hs with
  | write => exact List.prefix_append ..
  | _ => exact List.prefix_refl _

/-- What has ended stays so, and nothing is sent behind the end. -/
lemma ended_step (hs : t.step p c l = some t') (he : t.inlet.ended = true) :
    t'.inlet.ended = true ∧ t'.inlet.sent = t.inlet.sent := by
  cases step_cases hs with
  | sends ho =>
      rw [Inlet.isOver, he, Bool.true_or] at ho
      cases ho
  | ends => exact ⟨rfl, rfl⟩
  | _ => exact ⟨he, rfl⟩

/-- Whoever cancels the token lets a task leave that has not yet. -/
lemma cancelled_enabled (hc : t.pc = .copying) (hcan : c = true) :
    t.step p c .cancelled = some (t.exit .cancelled p.aborted) := if_pos ⟨hc, hcan⟩

end CopyTask

/-! ## What the task carries over -/

/-- What the outlet was terminated with. -/
def CopyProfile.terminators (p : CopyProfile ω) : Pc → List ω
  | .copying => []
  | .finished => [p.clean]
  | .failed | .cancelled => [p.aborted]

/-- **Nothing is lost, reordered or made up**, an end is reported as clean only after all that was
sent has been accepted, and room goes by being used only. -/
structure Faithful (p : CopyProfile ω) (t : CopyTask α ω) : Prop where
  taken_le : t.inlet.taken ≤ t.inlet.sent.length
  carried : t.outlet.accepted ++ t.buffer = t.inlet.sent.take t.inlet.taken
  terminated : t.outlet.terminated = p.terminators t.pc
  complete : t.pc = .finished → t.inlet.ended = true ∧ t.outlet.accepted = t.inlet.sent
  room : p.window ≤ t.outlet.accepted.length + t.outlet.room

variable {p : CopyProfile ω} {c : Bool} {t t' : CopyTask α ω} {l : Label α}

lemma faithful_new : Faithful p (.new p : CopyTask α ω) :=
  ⟨Nat.le_refl 0, rfl, rfl, fun h => (by cases h), Nat.le_add_left ..⟩

/-- Leaving other than at the end of the inlet. -/
lemma Faithful.abort (h : Faithful p t) (hc : t.pc = .copying) {pc : Pc}
    (hp : p.terminators pc = [p.aborted]) (hf : pc ≠ .finished) :
    Faithful p (t.exit pc p.aborted) := by
  refine ⟨h.taken_le, h.carried, ?_, fun hfin => absurd hfin hf, h.room⟩
  have ht := h.terminated
  rw [hc] at ht
  show t.outlet.terminated ++ [p.aborted] = p.terminators pc
  rw [ht, hp]
  rfl

theorem Faithful.step (h : Faithful p t) (hs : t.step p c l = some t') : Faithful p t' := by
  have hcopying : ∀ {P : Prop}, t.pc = .copying → t.pc = .finished → P := fun hc hfin => by
    rw [hc] at hfin
    cases hfin
  cases CopyTask.step_cases hs with
  | sends hopen =>
      refine ⟨?_, ?_, h.terminated, fun hfin => ?_, h.room⟩
      · simp only [Inlet.send, List.length_append]
        exact Nat.le_add_right_of_le h.taken_le
      · simp only [Inlet.send, List.take_append_of_le_length h.taken_le]
        exact h.carried
      · rw [Inlet.isOver, (h.complete hfin).1, Bool.true_or] at hopen
        cases hopen
  | ends =>
      exact ⟨h.taken_le, h.carried, h.terminated, fun hfin => ⟨rfl, (h.complete hfin).2⟩, h.room⟩
  | inletFails => exact ⟨h.taken_le, h.carried, h.terminated, h.complete, h.room⟩
  | outletFails => exact ⟨h.taken_le, h.carried, h.terminated, h.complete, h.room⟩
  | @drains n =>
      refine ⟨h.taken_le, h.carried, h.terminated, h.complete, h.room.trans ?_⟩
      exact Nat.add_le_add_left (Nat.le_add_right ..) _
  | read hc hb h0 hcap hn =>
      have hle := h.taken_le
      have hcar := h.carried
      rw [hb, List.append_nil] at hcar
      simp only [Inlet.unread, List.length_drop] at hn
      refine ⟨?_, ?_, h.terminated, hcopying hc, h.room⟩
      · simp only [Inlet.take]
        omega
      · simp only [Inlet.take, Inlet.unread, hcar, List.take_add]
  | readEof hc hb hu he =>
      have ht := h.terminated
      have hcar := h.carried
      rw [hb, List.append_nil] at hcar
      have hall : t.inlet.sent.length ≤ t.inlet.taken := List.drop_eq_nil_iff.mp hu
      refine ⟨h.taken_le, h.carried, ?_, fun _ => ⟨he, ?_⟩, h.room⟩
      · rw [hc] at ht
        show t.outlet.terminated ++ [p.clean] = [p.clean]
        rw [ht]
        rfl
      · exact hcar.trans (List.take_of_length_le hall)
  | readFails hc => exact h.abort hc rfl (by simp)
  | write hc h0 hn hr =>
      have hroom := h.room
      refine ⟨h.taken_le, ?_, h.terminated, hcopying hc, ?_⟩
      · simp only [Outlet.accept, List.append_assoc, List.take_append_drop]
        exact h.carried
      · simp only [Outlet.accept, List.length_append, List.length_take]
        omega
  | writeFails hc => exact h.abort hc rfl (by simp)
  | cancelled hc => exact h.abort hc rfl (by simp)

/-! ## Silence -/

/-- Something has come in: bytes, an end or a failure. -/
def Inlet.hasSpoken (i : Inlet α) : Bool := !i.sent.isEmpty || i.isOver

/-- Nothing has come in, and the task has done nothing. -/
structure CopyTask.Silent (t : CopyTask α ω) : Prop where
  inlet : t.inlet.hasSpoken = false
  buffer : t.buffer = []
  shown : t.outlet.isShown = false

lemma CopyTask.silent_new : (.new p : CopyTask α ω).Silent := ⟨rfl, rfl, rfl⟩

lemma Inlet.hasSpoken_eq_false {i : Inlet α} :
    i.hasSpoken = false ↔ i.sent = [] ∧ i.ended = false ∧ i.failed = false := by
  simp [Inlet.hasSpoken, Inlet.isOver]

/-- What has been said is not unsaid. -/
lemma CopyTask.hasSpoken_mono (hs : t.step p c l = some t') (h : t.inlet.hasSpoken = true) :
    t'.inlet.hasSpoken = true := by
  cases CopyTask.step_cases hs with
  | sends hopen =>
      simp only [Inlet.hasSpoken, hopen, Bool.or_false, Bool.not_eq_true',
        List.isEmpty_eq_false_iff] at h
      simp [Inlet.hasSpoken, Inlet.send, h]
  | ends => simp [Inlet.hasSpoken, Inlet.close, Inlet.isOver]
  | inletFails => simp [Inlet.hasSpoken, Inlet.fail, Inlet.isOver]
  | _ => exact h

lemma CopyTask.outlet_failed_of_step (hs : t.step p c l = some t') (hl : l.party ≠ .outlet) :
    t'.outlet.failed = t.outlet.failed := by
  by_cases hi : l.party = .inlet
  · rw [(CopyTask.step_inlet hi hs).2]
  · exact (CopyTask.step_other hi hs).2.resolve_left hl

/-- **A silent task waits.** -/
theorem CopyTask.Silent.no_step (h : t.Silent) (hl : l.party = .task) :
    t.step p false l = none := by
  obtain ⟨hsent, hended, hfailed⟩ := Inlet.hasSpoken_eq_false.mp h.inlet
  have hunread : t.inlet.unread.length = 0 := by
    rw [Inlet.unread, hsent, List.drop_nil, List.length_nil]
  have hbuffer : t.buffer.length = 0 := by rw [h.buffer, List.length_nil]
  rw [← Option.not_isSome_iff_eq_none]
  intro hsome
  obtain ⟨t', hs⟩ := Option.isSome_iff_exists.mp hsome
  cases CopyTask.step_cases hs with
  | sends | ends | inletFails | outletFails | drains => cases hl
  | read hc hb h0 hn hu => omega
  | readEof hc hb hu he =>
      rw [hended] at he
      cases he
  | readFails hc hb hf =>
      rw [hfailed] at hf
      cases hf
  | write hc h0 hn => omega
  | writeFails hc hb => omega
  | cancelled hc hcan => cases hcan

namespace CopyTask

/-- The step makes room where there was none, for a task that goes on. -/
def makesRoom (t : CopyTask α ω) : Label α → Bool
  | .drains n => t.pc = .copying && t.outlet.isFull && 0 < n
  | _ => false

/-- A step of the task's own, or one that it may have been waiting for. -/
def movesOn (t : CopyTask α ω) (l : Label α) : Bool := l.party = .task || t.makesRoom l

/-- What is left when the inlet has failed: the task writes what it has buffered, as far as there
comes to be room for it, and may come to read some of what was sent. -/
def remaining (t : CopyTask α ω) : ℕ :=
  if t.pc = .copying then
    1 + 3 * t.inlet.unread.length + 2 * t.buffer.length + t.outlet.isFull.toNat
  else 0

/-- What a task can still do when its outlet has failed: it fills its buffer and finds out. -/
def attempts (t : CopyTask α ω) : ℕ :=
  if t.pc = .copying then (if t.buffer = [] then 2 else 1) else 0

/-- Room makes a full outlet one that is not. -/
lemma isFull_drain (n : ℕ) :
    (t.outlet.drain n).isFull.toNat + (t.makesRoom (.drains n)).toNat ≤ t.outlet.isFull.toNat := by
  by_cases hr : t.outlet.room = 0
  · by_cases hn : n = 0
    · simp [Outlet.isFull, Outlet.drain, makesRoom, hr, hn]
    · simpa [Outlet.isFull, Outlet.drain, makesRoom, hr, hn] using Bool.toNat_le _
  · simp [Outlet.isFull, Outlet.drain, makesRoom, hr]

/-- Every step of the task uses up something of what remains, and so does room for it. -/
lemma remaining_step (hf : t.inlet.failed = true) (hs : t.step p c l = some t') :
    t'.inlet.failed = true ∧ t'.inlet.ended = t.inlet.ended ∧
      t'.remaining + (t.movesOn l).toNat ≤ t.remaining := by
  have hleave : ∀ {pc : Pc} {e : ω}, pc ≠ .copying → t.pc = .copying →
      (t.exit pc e).remaining + 1 ≤ t.remaining := by
    intro pc e hpc hc
    simp only [remaining, exit, hpc, hc, if_true, if_false]
    omega
  cases step_cases hs with
  | sends ho | ends ho => simp [Inlet.isOver, hf] at ho
  | inletFails => exact ⟨rfl, rfl, Nat.le_refl _⟩
  | outletFails => exact ⟨hf, rfl, Nat.le_refl _⟩
  | @drains n =>
      have hfull := t.isFull_drain n
      refine ⟨hf, rfl, ?_⟩
      by_cases hc : t.pc = .copying
      · simp only [remaining, hc, movesOn, Label.party, if_true, decide_false, Bool.false_or,
          reduceCtorEq]
        omega
      · simp [remaining, hc, movesOn, makesRoom, Label.party]
  | read hc hb h0 hn hu =>
      refine ⟨hf, rfl, ?_⟩
      simp only [Inlet.unread, List.length_drop] at hu
      simp only [remaining, hc, hb, Inlet.take, Inlet.unread, movesOn, Label.party, if_true,
        decide_true, Bool.true_or, Bool.toNat_true, List.length_take, List.length_drop,
        List.length_nil]
      omega
  | @write n hc h0 hn hr ho =>
      refine ⟨hf, rfl, ?_⟩
      have hfull := Bool.toNat_le (t.outlet.accept (t.buffer.take n)).isFull
      simp only [remaining, hc, movesOn, Label.party, if_true, decide_true, Bool.true_or,
        Bool.toNat_true, List.length_drop]
      omega
  | readEof hc => exact ⟨hf, rfl, hleave (by simp) hc⟩
  | readFails hc => exact ⟨hf, rfl, hleave (by simp) hc⟩
  | writeFails hc => exact ⟨hf, rfl, hleave (by simp) hc⟩
  | cancelled hc => exact ⟨hf, rfl, hleave (by simp) hc⟩

/-- Every step of the task uses up an attempt, whatever comes in. -/
lemma attempts_step (hf : t.outlet.failed = true) (hs : t.step p c l = some t') :
    t'.outlet.failed = true ∧
      t'.attempts + (decide (l.party = .task)).toNat ≤ t.attempts := by
  have hleave : ∀ {pc : Pc} {e : ω}, pc ≠ .copying → t.pc = .copying →
      (t.exit pc e).attempts + 1 ≤ t.attempts := by
    intro pc e hpc hc
    simp only [attempts, exit, hpc, hc, if_true, if_false]
    split <;> omega
  cases step_cases hs with
  | sends | ends | inletFails | drains => exact ⟨hf, by simp [attempts, Label.party]⟩
  | outletFails => exact ⟨rfl, by simp [attempts, Label.party]⟩
  | write hc h0 hn hr ho =>
      rw [hf] at ho
      cases ho
  | @read n hc hb h0 hn hu =>
      have hne : t.inlet.unread.take n ≠ [] := by
        intro he
        have hlen := congrArg List.length he
        rw [List.length_take, List.length_nil] at hlen
        omega
      refine ⟨hf, ?_⟩
      simp [attempts, hc, hb, hne, Label.party]
  | readEof hc => exact ⟨hf, hleave (by simp) hc⟩
  | readFails hc => exact ⟨hf, hleave (by simp) hc⟩
  | writeFails hc => exact ⟨hf, hleave (by simp) hc⟩
  | cancelled hc => exact ⟨hf, hleave (by simp) hc⟩

/-- A task whose inlet has failed is never held up by it: by a full outlet only. -/
lemma enabled_of_inlet_failed (hc : t.pc = .copying) (hf : t.inlet.failed = true) :
    ∃ l : Label α, t.movesOn l = true ∧ (t.step p c l).isSome = true := by
  by_cases hb : t.buffer.length = 0
  · refine ⟨.readFails, rfl, ?_⟩
    simp [step, hc, hb, hf]
  cases ho : t.outlet.failed with
  | true =>
      refine ⟨.writeFails, rfl, ?_⟩
      simp [step, hc, ho, Nat.pos_of_ne_zero hb]
  | false =>
      by_cases hr : t.outlet.room = 0
      · refine ⟨.drains 1, ?_, rfl⟩
        simp [movesOn, makesRoom, Outlet.isFull, hc, hr]
      · refine ⟨.write 1, rfl, ?_⟩
        simp [step, hc, ho, Nat.one_le_iff_ne_zero.mpr hb, Nat.one_le_iff_ne_zero.mpr hr]

/-- A task leaves with a clean end only when there was one to read. -/
lemma finished_of_step (hs : t.step p c l = some t') (he : t.inlet.ended = false)
    (hfin : t'.pc = .finished) : t.pc = .finished := by
  cases step_cases hs with
  | readEof _ _ _ hend =>
      rw [he] at hend
      cases hend
  | readFails | writeFails | cancelled => cases hfin
  | _ => exact hfin

lemma no_step_of_left (hc : t.pc ≠ .copying) (hl : l.party = .task) : t.step p c l = none := by
  rw [← Option.not_isSome_iff_eq_none]
  intro hsome
  obtain ⟨t', hs⟩ := Option.isSome_iff_exists.mp hsome
  cases step_cases hs with
  | sends | ends | inletFails | outletFails | drains => cases hl
  | read h | readEof h | readFails h | write h | writeFails h | cancelled h => exact hc h

/-- A task that has nothing to read and nothing to write waits for its inlet, whatever has become
of its outlet. -/
lemma no_step_of_idle (hb : t.buffer = []) (hu : t.inlet.unread = [])
    (ho : t.inlet.isOver = false) (hl : l.party = .task) : t.step p false l = none := by
  rw [Inlet.isOver, Bool.or_eq_false_iff] at ho
  rw [← Option.not_isSome_iff_eq_none]
  intro hsome
  obtain ⟨t', hs⟩ := Option.isSome_iff_exists.mp hsome
  cases step_cases hs with
  | sends | ends | inletFails | outletFails | drains => cases hl
  | read hc hb' h0 hn hle =>
      rw [hu, List.length_nil] at hle
      omega
  | readEof _ _ _ he => simp [ho.1] at he
  | readFails _ _ hf => simp [ho.2] at hf
  | write hc h0 hle =>
      rw [hb, List.length_nil] at hle
      omega
  | writeFails _ hpos => simp [hb] at hpos
  | cancelled _ hcan => cases hcan

end CopyTask

end Copying
