import Siffleux.EndToEnd.KeepAlive.CommandEnd

/-!
# What an end still has to answer

An end reads, polls and answers; the pings among the frames `first` that were written to it are
answered when it has written as many pongs.

* `backlog` — the bytes of `first` to be read and to be taken from the buffer, until the last
  answer.
* `Hears.reads`, `Hears.polls`, `Hears.pings`, `Hears.pongs` — what each step of an end keeps: it
  goes on hearing, and a step that helps makes the backlog smaller.
* `Hears.progress` — as long as something is unanswered a step that helps is enabled.
-/

namespace Siffleux

open ByteBuf Framing Transition

open scoped List

namespace CommandEnd

variable {e e' : CommandEnd} {sent first : List FrameV1} {l : CommandLabel}

/-- The steps that bring an end's next pong nearer. -/
def helps (e : CommandEnd) : CommandLabel → Bool
  | .readData _ | .pong => true
  | .poll => e.reader.isReadable
  | .ping => false

/-- The pings among `first` have all been answered. -/
def HasAnswered (first : List FrameV1) (e : CommandEnd) : Prop :=
  first.count .ping ≤ e.written.count .pong

instance (first : List FrameV1) (e : CommandEnd) : Decidable (e.HasAnswered first) :=
  inferInstanceAs (Decidable (_ ≤ _))

/-- The bytes of `first` still to be read and still to be taken, the poll and the pong ahead. -/
def work (first : List FrameV1) (e : CommandEnd) : ℕ :=
  3 * ((codecV1.encAll first).length - e.reads.flatten.length) +
    2 * ((codecV1.encAll first).length + e.reader.buffer.length - e.reads.flatten.length) +
      e.reader.isReadable.toNat + e.isAnswering.toNat

/-- What is left to do before all of `first` is answered. -/
def backlog (first : List FrameV1) (e : CommandEnd) : ℕ :=
  if e.HasAnswered first then 0 else e.work first

lemma backlog_le_work (first : List FrameV1) (e : CommandEnd) : e.backlog first ≤ e.work first := by
  rw [backlog]
  split_ifs
  · exact Nat.zero_le _
  · exact Nat.le_refl _

/-- What makes the work less makes the backlog less. -/
lemma backlog_lt {n : ℕ} (hd : ¬ e.HasAnswered first) (hn : e'.work first + n ≤ e.work first) :
    e'.backlog first + n ≤ e.backlog first := by
  calc e'.backlog first + n ≤ e'.work first + n := Nat.add_le_add_right (backlog_le_work ..) _
    _ ≤ e.work first := hn
    _ = e.backlog first := (if_neg hd).symm

lemma Hears.backlog_le (h : Hears sent e) (first : List FrameV1) :
    e.backlog first ≤ 5 * (codecV1.encAll first).length + 2 := by
  obtain ⟨heard, hf, -⟩ := h
  have hlen := congrArg List.length hf.buffered
  rw [List.length_append] at hlen
  have hreadable := Bool.toNat_le e.reader.isReadable
  have hanswering := Bool.toNat_le e.isAnswering
  refine (e.backlog_le_work first).trans ?_
  rw [work]
  omega

/-! ## One step -/

/-- What a step of an end keeps: it goes on hearing, what was answered stays so, and a step that
helps makes the backlog smaller. -/
structure Keeps (first sent : List FrameV1) (e : CommandEnd) (l : CommandLabel)
    (e' : CommandEnd) : Prop where
  hears : Hears sent e'
  answered : e.HasAnswered first → e'.HasAnswered first
  less : ¬ e.HasAnswered first → e'.backlog first + (e.helps l).toNat ≤ e.backlog first

section Step

variable {later : List FrameV1}

/-- A chunk is read into an empty buffer. -/
lemma Hears.reads {chunk : Bytes} (h : Hears (first ++ later) e) (hc : Chats (first ++ later))
    (hcarries : carries (first ++ later) e.reads (.readData chunk) = true)
    (hs : e.step (.readData chunk) = some (some e')) :
    Keeps first (first ++ later) e (.readData chunk) e' := by
  simp only [CommandEnd.step, Option.ite_none_right_eq_some, Option.some.injEq] at hs
  obtain ⟨⟨ha, hw⟩, rfl⟩ := hs
  have hr := FramedRead.isReadable_of_wantsRead hw
  have hbuffer := h.buffer_eq_nil hc hr
  obtain ⟨hne, hpre⟩ := carries_readData_iff.mp hcarries
  have hpos := List.length_pos_of_ne_nil hne
  refine ⟨?_, fun hd => hd, fun hd => backlog_lt hd ?_⟩
  · obtain ⟨heard, hf, hheard, hcount⟩ := h
    refine ⟨heard, ?_, hheard, hcount⟩
    have hread := hf.readData hpre
    simpa using hread
  · have hlt := h.taken_lt ha (Nat.lt_of_not_le hd)
    simp only [work, helps, FramedRead.readData, hbuffer, hr, ha, List.flatten_append,
      List.length_append, List.flatten_cons, List.flatten_nil, List.append_nil, List.nil_append,
      List.length_nil, Bool.toNat_true, Bool.toNat_false] at hlt ⊢
    omega

/-- A poll takes a byte from the buffer, or leaves it alone and no longer readable. -/
lemma Hears.polls (h : Hears (first ++ later) e) (hc : Chats (first ++ later))
    (hs : e.step .poll = some (some e')) : Keeps first (first ++ later) e .poll e' := by
  have ha : e.isAnswering = false := by
    by_contra ha
    simp [CommandEnd.step, ha] at hs
  rcases h.poll hc ha with ⟨r', hp, hh, hr, hb⟩ | ⟨f, r', hp, hh, hr, hb⟩
  · rw [hp] at hs
    cases hs
    refine ⟨hh, fun hd => hd, fun hd => backlog_lt hd ?_⟩
    simp only [work, helps, hr, hb, ha, Bool.toNat_false]
    omega
  · rw [hp] at hs
    cases hs
    refine ⟨hh, fun hd => hd, fun hd => backlog_lt hd ?_⟩
    have hlt := h.taken_lt ha (Nat.lt_of_not_le hd)
    have hping := Bool.toNat_le (f == FrameV1.ping)
    have hreadable := Bool.toNat_le e.reader.isReadable
    simp only [work, helps, hr, ha, Bool.toNat_false]
    omega

/-- A ping of its own answers nothing. -/
lemma Hears.pings (h : Hears sent e) (hs : e.step .ping = some (some e')) :
    Keeps first sent e .ping e' := by
  simp only [CommandEnd.step, Option.ite_none_left_eq_some, Option.some.injEq] at hs
  obtain ⟨-, rfl⟩ := hs
  have hcount : (e.written ++ [FrameV1.ping]).count .pong = e.written.count .pong := by
    rw [List.count_append]
    rfl
  have hiff : HasAnswered first { e with written := e.written ++ [.ping] } ↔
      e.HasAnswered first := by
    rw [HasAnswered, hcount, HasAnswered]
  refine ⟨?_, hiff.mpr, fun hd => ?_⟩
  · obtain ⟨heard, hf, hheard, hh⟩ := h
    exact ⟨heard, hf, hheard, by rw [hcount]; exact hh⟩
  · rw [backlog, backlog, if_neg (hiff.not.mpr hd), if_neg hd]
    exact Nat.le_refl _

/-- A pong answers the ping that was heard last. -/
lemma Hears.pongs (h : Hears sent e) (hs : e.step .pong = some (some e')) :
    Keeps first sent e .pong e' := by
  simp only [CommandEnd.step, Option.ite_none_right_eq_some, Option.some.injEq] at hs
  obtain ⟨ha, rfl⟩ := hs
  have hcount : (e.written ++ [FrameV1.pong]).count .pong = e.written.count .pong + 1 := by
    rw [List.count_append]
    rfl
  refine ⟨?_, fun hd => ?_, fun hd => backlog_lt hd ?_⟩
  · obtain ⟨heard, hf, hheard, hh⟩ := h
    refine ⟨heard, hf, hheard, ?_⟩
    rw [hcount, ← hh, ha]
    rfl
  · rw [HasAnswered, hcount]
    exact Nat.le_succ_of_le hd
  · simp only [work, helps, ha, Bool.toNat_true, Bool.toNat_false]
    omega

/-- **One step of an end.** -/
theorem Hears.step (h : Hears (first ++ later) e) (hc : Chats (first ++ later))
    (hcarries : carries (first ++ later) e.reads l = true) (hs : e.step l = some (some e')) :
    Keeps first (first ++ later) e l e' := by
  cases l with
  | readData chunk => exact h.reads hc hcarries hs
  | poll => exact h.polls hc hs
  | ping => exact h.pings hs
  | pong => exact h.pongs hs

end Step

lemma Hears.hears (h : Hears sent e) (hc : Chats sent) (hl : carries sent e.reads l = true)
    (hs : e.step l = some (some e')) : Hears sent e' := by
  rw [← List.append_nil sent] at h hc hl ⊢
  exact (h.step hc hl hs).hears

/-- The steps that help pay for themselves. -/
lemma Hears.backlog_step (h : Hears sent e) (hc : Chats sent) (hfirst : first <+: sent)
    (hl : carries sent e.reads l = true) (hs : e.step l = some (some e')) :
    e'.backlog first + (!decide (e.HasAnswered first) && e.helps l).toNat ≤ e.backlog first := by
  obtain ⟨later, rfl⟩ := hfirst
  have hk := h.step hc hl hs
  by_cases hd : e.HasAnswered first
  · rw [backlog, if_pos (hk.answered hd), decide_eq_true hd]
    exact Nat.zero_le _
  · rw [decide_eq_false hd]
    exact hk.less hd

/-- As long as something is unanswered an end can go on. -/
theorem Hears.progress {later : List FrameV1} (h : Hears (first ++ later) e)
    (hc : Chats (first ++ later)) (hn : ¬ e.HasAnswered first) :
    ∃ l, e.helps l = true ∧ carries (first ++ later) e.reads l = true ∧
      (e.step l).isSome = true := by
  cases ha : e.isAnswering with
  | true => exact ⟨.pong, rfl, rfl, by simp [CommandEnd.step, ha]⟩
  | false =>
      cases hr : e.reader.isReadable with
      | true =>
          refine ⟨.poll, hr, rfl, ?_⟩
          rcases h.poll hc ha with ⟨r', hp, -⟩ | ⟨f, r', hp, -⟩ <;>
          · rw [hp]
            rfl
      | false =>
          have hlt := h.taken_lt ha (Nat.lt_of_not_le hn)
          rw [h.buffer_eq_nil hc hr, List.length_nil, Nat.add_zero] at hlt
          have hw : e.reader.wantsRead = true := by
            rw [h.isReadable_of_wantsRead, hr, Bool.not_false]
          obtain ⟨heard, hf, -⟩ := h
          obtain ⟨chunk, hchunk⟩ := hf.got_prefix
          refine ⟨.readData chunk, rfl, ?_, by simp [CommandEnd.step, ha, hw]⟩
          refine carries_readData_iff.mpr ⟨?_, [], by rw [List.append_nil, hchunk]⟩
          rintro rfl
          have hlen := congrArg List.length hchunk
          rw [List.append_nil, FrameFormat.encAll_append, List.length_append] at hlen
          omega

end CommandEnd

end Siffleux
