import Siffleux.Foundation.Framing

/-!
# A framed reader, one poll at a time

`Framing.feed` is the reader over a whole list of reads.  A task that waits for frames beside
other things meets it in smaller steps: it polls for the next item, which decodes what is buffered,
and when there is none the transport eventually delivers a read, the end of the stream or an error.

* `FramedRead`, `poll` — the reader's state and what asking for the next item does with it.  At the
  end of the stream the decoder is tried once more, and bytes it cannot use are an error.
* `Unheard cs r` — the reader has been given the reads `cs` and delivered nothing yet.
* `Unheard.poll_frame` — the first frame it delivers is `firstItem` of the reads.
* `Fits D m n r` — the reader buffers less than its decoder waits for and one read, unless the
  decoder waits for good.
* `Follows F sent heard got r` — the reader has got a part of the encodings of `sent`, and has
  delivered `heard` of it.  `Follows.poll` — it delivers the next frame, or waits.
-/

namespace Framing

open ByteBuf

universe u

variable {ε φ : Type u}

/-- The reader's buffer and flags: a read has not been decoded yet, the stream has ended, an error
has been delivered. -/
structure FramedRead where
  buffer : Bytes
  isReadable : Bool
  eof : Bool
  hasErrored : Bool
  deriving DecidableEq, Repr

/-- What a poll comes back with. -/
inductive Polled (ε φ : Type u) where
  | item (i : Except ε φ)
  | finished
  | pending

namespace FramedRead

def new : FramedRead := ⟨[], false, false, false⟩

/-- What becomes of a decoding: an item, or at the end of the stream the end, or `leftover` when
bytes remain there. -/
def deliver (leftover : ε) (r : FramedRead) (d : Except ε (Option φ) × Bytes) :
    Polled ε φ × FramedRead :=
  match d.1 with
  | .error e => (.item (.error e), { r with buffer := d.2, hasErrored := true })
  | .ok (some f) => (.item (.ok f), { r with buffer := d.2 })
  | .ok none =>
      if r.eof = false then (.pending, { r with buffer := d.2, isReadable := false })
      else if d.2 = [] then (.finished, { r with buffer := d.2, isReadable := false })
      else (.item (.error leftover), { r with buffer := d.2, hasErrored := true })

/-- Ask for the next item. -/
def poll (D : StreamDecoder ε φ) (leftover : ε) (r : FramedRead) :
    Outcome (Polled ε φ × FramedRead) :=
  if r.hasErrored then .ret (.finished, { r with isReadable := false, hasErrored := false })
  else if r.isReadable then (D.decode r.buffer).map (r.deliver leftover)
  else .ret (.pending, r)

/-- The transport delivers bytes. -/
def readData (r : FramedRead) (chunk : Bytes) : FramedRead :=
  { r with buffer := r.buffer ++ chunk, isReadable := true, eof := false }

/-- The transport reports the end of the stream. -/
def readEof (r : FramedRead) : FramedRead := { r with isReadable := true, eof := true }

/-- A reader that polls without an item asks the transport next. -/
def wantsRead (r : FramedRead) : Bool := !r.isReadable && !r.hasErrored

lemma isReadable_of_wantsRead {r : FramedRead} (h : r.wantsRead = true) : r.isReadable = false := by
  simp only [wantsRead, Bool.and_eq_true, Bool.not_eq_true'] at h
  exact h.1

lemma poll_readable {D : StreamDecoder ε φ} {leftover : ε} {r : FramedRead}
    (he : r.hasErrored = false) (hr : r.isReadable = true) :
    r.poll D leftover = (D.decode r.buffer).map (r.deliver leftover) := by
  simp [poll, he, hr]

lemma poll_idle {D : StreamDecoder ε φ} {leftover : ε} {r : FramedRead}
    (he : r.hasErrored = false) (hr : r.isReadable = false) :
    r.poll D leftover = .ret (.pending, r) := by
  simp [poll, he, hr]

/-- A reader whose first read is one whole frame delivers it. -/
lemma poll_whole_frame {D : StreamDecoder ε φ} {leftover : ε} {frame : Bytes} {f : φ}
    (h : D.decode frame = .ret (.ok (some f), [])) :
    (new.readData frame).poll D leftover = .ret (.item (.ok f), new.readData []) := by
  rw [poll_readable rfl rfl]
  show (D.decode frame).map _ = _
  rw [h]
  rfl

/-- A frame is delivered only when the decoder delivers it. -/
lemma deliver_frame {leftover : ε} {r r' : FramedRead} {d : Except ε (Option φ) × Bytes} {f : φ}
    (h : r.deliver leftover d = (.item (.ok f), r')) : d.1 = .ok (some f) := by
  rw [deliver] at h
  split at h
  · cases h
  · rename_i g hd
    cases h
    exact hd
  · split_ifs at h <;> cases h

/-- A decoding without an item, before the end of the stream. -/
lemma deliver_pending {leftover : ε} {r r' : FramedRead} {d : Except ε (Option φ) × Bytes}
    (h : r.deliver leftover d = (.pending, r')) :
    d.1 = .ok none ∧ r.eof = false ∧ r' = { r with buffer := d.2, isReadable := false } := by
  rw [deliver] at h
  split at h
  · cases h
  · cases h
  · rename_i hd
    split_ifs at h with heof
    · cases h
      exact ⟨hd, heof, rfl⟩
    · cases h
    · cases h

end FramedRead

/-! ## How a reader comes to its end -/

namespace FramedRead

/-- The stream has ended and everything before has been decoded. -/
def EndsCleanly (r : FramedRead) : Prop := r.isReadable = true ∧ r.eof = true ∧ r.buffer = []

/-- The decoder panics on what is buffered. -/
def DecodePanics (D : StreamDecoder ε φ) (r : FramedRead) : Prop :=
  r.isReadable = true ∧ D.decode r.buffer = .panic

lemma poll_panic_iff {D : StreamDecoder ε φ} {leftover : ε} {r : FramedRead}
    (he : r.hasErrored = false) : r.poll D leftover = .panic ↔ r.DecodePanics D := by
  cases hr : r.isReadable with
  | false =>
      rw [poll_idle he hr, DecodePanics, hr]
      simp
  | true =>
      rw [poll_readable he hr, DecodePanics, hr]
      cases D.decode r.buffer <;> simp

/-- What a poll of a reader that has not failed can come back with. -/
lemma poll_cases {D : StreamDecoder ε φ} {leftover : ε} {r r' : FramedRead} {x : Polled ε φ}
    (he : r.hasErrored = false) (h : r.poll D leftover = .ret (x, r')) :
    (r.isReadable = false ∧ x = .pending ∧ r'.hasErrored = false) ∨
    (∃ e b, D.decode r.buffer = .ret (.error e, b) ∧ x = .item (.error e)) ∨
    (∃ f b, D.decode r.buffer = .ret (.ok (some f), b) ∧ x = .item (.ok f) ∧
      r'.hasErrored = false) ∨
    ∃ b, r.isReadable = true ∧ D.decode r.buffer = .ret (.ok none, b) ∧
      ((r.eof = false ∧ x = .pending ∧ r'.hasErrored = false) ∨
        (r.eof = true ∧ b = [] ∧ x = .finished ∧ r'.hasErrored = false) ∨
        (r.eof = true ∧ b ≠ [] ∧ x = .item (.error leftover))) := by
  cases hr : r.isReadable with
  | false =>
      rw [poll_idle he hr] at h
      cases h
      exact Or.inl ⟨rfl, rfl, he⟩
  | true =>
      rw [poll_readable he hr, Outcome.map_eq_ret_iff] at h
      obtain ⟨⟨d, b⟩, hd, hdel⟩ := h
      cases d with
      | error e =>
          cases hdel
          exact Or.inr (Or.inl ⟨e, b, hd, rfl⟩)
      | ok o =>
          cases o with
          | some f =>
              cases hdel
              exact Or.inr (Or.inr (Or.inl ⟨f, b, hd, rfl, he⟩))
          | none =>
              refine Or.inr (Or.inr (Or.inr ⟨b, rfl, hd, ?_⟩))
              simp only [deliver] at hdel
              split_ifs at hdel with hopen hb <;> cases hdel
              · exact Or.inl ⟨hopen, rfl, he⟩
              · exact Or.inr (Or.inl ⟨by simpa using hopen, hb, rfl, he⟩)
              · exact Or.inr (Or.inr ⟨by simpa using hopen, hb, rfl⟩)

/-- A reader that has not failed says that it has finished only at the end of the stream. -/
lemma endsCleanly_of_poll {D : StreamDecoder ε φ} {leftover : ε} {r r' : FramedRead}
    (hD : ∀ b b', D.decode b = .ret (.ok none, b') → b' = b) (he : r.hasErrored = false)
    (h : r.poll D leftover = .ret (.finished, r')) : r.EndsCleanly := by
  rcases poll_cases he h with ⟨-, hx, -⟩ | ⟨_, _, -, hx⟩ | ⟨_, _, -, hx, -⟩ |
    ⟨b, hr, hd, ⟨-, hx, -⟩ | ⟨heof, hb, -, -⟩ | ⟨-, -, hx⟩⟩
  · cases hx
  · cases hx
  · cases hx
  · cases hx
  · exact ⟨hr, heof, (hD _ _ hd).symm.trans hb⟩
  · cases hx

lemma poll_of_endsCleanly {D : StreamDecoder ε φ} {leftover : ε} {r : FramedRead}
    (hD : D.decode [] = .ret (.ok none, [])) (he : r.hasErrored = false) (h : r.EndsCleanly) :
    ∃ r', r.poll D leftover = .ret (.finished, r') := by
  obtain ⟨hr, heof, hb⟩ := h
  refine ⟨{ r with buffer := [], isReadable := false }, ?_⟩
  rw [poll_readable he hr, hb, hD, Outcome.map_ret, deliver, heof]
  simp

/-- A poll that does not come back with an error leaves the reader fit for the next. -/
lemma hasErrored_of_poll {D : StreamDecoder ε φ} {leftover : ε} {r r' : FramedRead} {x : Polled ε φ}
    (he : r.hasErrored = false) (h : r.poll D leftover = .ret (x, r'))
    (hx : ∀ e, x ≠ .item (.error e)) : r'.hasErrored = false := by
  rcases poll_cases he h with ⟨-, -, h'⟩ | ⟨e, _, -, hxe⟩ | ⟨_, _, -, -, h'⟩ |
    ⟨_, -, -, ⟨-, -, h'⟩ | ⟨-, -, -, h'⟩ | ⟨-, -, hxe⟩⟩
  · exact h'
  · exact absurd hxe (hx e)
  · exact h'
  · exact h'
  · exact h'
  · exact absurd hxe (hx leftover)

/-- An error delivered is the decoder's, or is that bytes are left over. -/
lemma error_of_poll {D : StreamDecoder ε φ} {leftover : ε} {r r' : FramedRead} {e : ε}
    (he : r.hasErrored = false) (h : r.poll D leftover = .ret (.item (.error e), r')) :
    e = leftover ∨ ∃ b, D.decode r.buffer = .ret (.error e, b) := by
  rcases poll_cases he h with ⟨-, hx, -⟩ | ⟨e', b, hd, hx⟩ | ⟨_, _, -, hx, -⟩ |
    ⟨_, -, -, ⟨-, hx, -⟩ | ⟨-, -, hx, -⟩ | ⟨-, -, hx⟩⟩
  · cases hx
  · cases hx
    exact Or.inr ⟨b, hd⟩
  · cases hx
  · cases hx
  · cases hx
  · cases hx
    exact Or.inl rfl

end FramedRead

/-! ## Reading on -/

namespace FramedRead

/-- Take reads one by one, polling after each, until there is an item. -/
def listen (D : StreamDecoder ε φ) (leftover : ε) :
    FramedRead → List Bytes → Outcome (Option (Except ε φ) × FramedRead)
  | r, [] => .ret (none, r)
  | r, c :: cs =>
      match (r.readData c).poll D leftover with
      | .panic => .panic
      | .ret (.item i, r') => .ret (some i, r')
      | .ret (.finished, r') => .ret (none, r')
      | .ret (.pending, r') => listen D leftover r' cs

/-- **A reader that reads on comes to the first item behind its buffer.** -/
theorem listen_eq_firstItem {D : StreamDecoder ε φ} {leftover : ε} : ∀ (cs : List Bytes)
    {r : FramedRead}, r.hasErrored = false →
    (r.listen D leftover cs).map Prod.fst = D.firstItem r.buffer cs
  | [], _, _ => rfl
  | c :: cs, r, he => by
      have hp : (r.readData c).poll D leftover =
          (D.decode (r.buffer ++ c)).map ((r.readData c).deliver leftover) := poll_readable he rfl
      rw [listen, StreamDecoder.firstItem, hp]
      rcases D.decode (r.buffer ++ c) with ⟨e | f | _, b⟩ | _
      · rfl
      · exact listen_eq_firstItem cs
          (r := { r.readData c with buffer := b, isReadable := false }) he
      · rfl
      · rfl

/-- A poll of a fresh read that finds nothing leaves what it saw in the buffer. -/
lemma buffer_of_poll_pending {D : StreamDecoder ε φ} {leftover : ε} {r r' : FramedRead}
    (he : r.hasErrored = false) (hr : r.isReadable = true)
    (h : r.poll D leftover = .ret (.pending, r')) :
    D.decode r.buffer = .ret (.ok none, r'.buffer) ∧ r'.hasErrored = false := by
  rw [poll_readable he hr, Outcome.map_eq_ret_iff] at h
  obtain ⟨⟨d, b⟩, hd, hdel⟩ := h
  obtain ⟨hnone, -, rfl⟩ := deliver_pending hdel
  have hdn : d = .ok none := hnone
  rw [hdn] at hd
  exact ⟨hd, he⟩

end FramedRead

/-! ## Readers that have delivered nothing yet -/

/-- A decoder that waits leaves the buffer alone, and waits on an empty one. -/
structure StreamDecoder.Patient (D : StreamDecoder ε φ) : Prop where
  decode_nil : D.decode [] = .ret (.ok none, [])
  keeps : ∀ b b', D.decode b = .ret (.ok none, b') → b' = b

variable {D : StreamDecoder ε φ}

/-- The decoder has been given the reads one by one, waited after each, and has `b` buffered. -/
inductive Quiet (D : StreamDecoder ε φ) : List Bytes → Bytes → Prop
  | nil : Quiet D [] []
  | snoc {cs : List Bytes} {b c b' : Bytes} (h : Quiet D cs b)
      (hd : D.decode (b ++ c) = .ret (.ok none, b')) : Quiet D (cs ++ [c]) b'

lemma Quiet.decode (hD : D.Patient) {cs : List Bytes} {b : Bytes} (h : Quiet D cs b) :
    D.decode b = .ret (.ok none, b) := by
  cases h with
  | nil => exact hD.decode_nil
  | snoc h hd =>
      have hk := hD.keeps _ _ hd
      rw [hk] at hd ⊢
      exact hd

/-- Quiet reads only fill the buffer. -/
lemma Quiet.firstItem_append {cs : List Bytes} {b : Bytes} (h : Quiet D cs b) :
    ∀ ds, D.firstItem [] (cs ++ ds) = D.firstItem b ds := by
  induction h with
  | nil => exact fun ds => rfl
  | snoc _ hd ih =>
      intro ds
      rw [List.append_assoc, ih, List.singleton_append, StreamDecoder.firstItem, hd]

/-- The first item does not change when more reads follow. -/
lemma firstItem_append {i : Except ε φ} : ∀ (cs ds : List Bytes) {b : Bytes},
    D.firstItem b cs = .ret (some i) → D.firstItem b (cs ++ ds) = .ret (some i)
  | [], _, _, h => by cases h
  | c :: cs, ds, b, h => by
      rw [StreamDecoder.firstItem] at h
      rw [List.cons_append, StreamDecoder.firstItem]
      split at h
      · cases h
      · exact h
      · exact h
      · exact firstItem_append cs ds h

/-- The reader has been given `cs` and delivered nothing. -/
structure Unheard (D : StreamDecoder ε φ) (cs : List Bytes) (r : FramedRead) : Prop where
  silent : r.hasErrored = false
  waiting : r.isReadable = false → Quiet D cs r.buffer
  ended : r.isReadable = true → r.eof = true → Quiet D cs r.buffer
  unread : r.isReadable = true → r.eof = false →
    ∃ cs' b c, cs = cs' ++ [c] ∧ Quiet D cs' b ∧ r.buffer = b ++ c

lemma unheard_new : Unheard D [] .new :=
  ⟨rfl, fun _ => .nil, fun h => Bool.noConfusion h, fun h => Bool.noConfusion h⟩

lemma Unheard.readData {cs : List Bytes} {r : FramedRead} (h : Unheard D cs r)
    (hw : r.wantsRead = true) (c : Bytes) : Unheard D (cs ++ [c]) (r.readData c) := by
  have hq := h.waiting (FramedRead.isReadable_of_wantsRead hw)
  exact ⟨h.silent, fun hf => Bool.noConfusion hf, fun _ hf => Bool.noConfusion hf,
    fun _ _ => ⟨cs, r.buffer, c, rfl, hq, rfl⟩⟩

lemma Unheard.readEof {cs : List Bytes} {r : FramedRead} (h : Unheard D cs r)
    (hw : r.wantsRead = true) : Unheard D cs r.readEof := by
  have hq := h.waiting (FramedRead.isReadable_of_wantsRead hw)
  exact ⟨h.silent, fun hf => Bool.noConfusion hf, fun _ _ => hq, fun _ hf => Bool.noConfusion hf⟩

/-- **The first frame delivered is the first item of the reads.** -/
theorem Unheard.poll_frame (hD : D.Patient) {leftover : ε} {cs : List Bytes} {r r' : FramedRead}
    {f : φ} (h : Unheard D cs r) (hp : r.poll D leftover = .ret (.item (.ok f), r')) :
    D.firstItem [] cs = .ret (some (.ok f)) := by
  cases hr : r.isReadable with
  | false =>
      rw [FramedRead.poll_idle h.silent hr] at hp
      cases hp
  | true =>
      rw [FramedRead.poll_readable h.silent hr, Outcome.map_eq_ret_iff] at hp
      obtain ⟨⟨d, b'⟩, hd, he⟩ := hp
      have hdf : d = .ok (some f) := FramedRead.deliver_frame he
      rw [hdf] at hd
      cases heof : r.eof with
      | true =>
          rw [(h.ended hr heof).decode hD] at hd
          cases hd
      | false =>
          obtain ⟨cs', b, c, rfl, hq, hb⟩ := h.unread hr heof
          rw [hq.firstItem_append, StreamDecoder.firstItem, ← hb, hd]

/-- A poll without an item leaves it so. -/
theorem Unheard.poll_pending {leftover : ε} {cs : List Bytes} {r r' : FramedRead}
    (h : Unheard D cs r) (hp : r.poll D leftover = .ret (.pending, r')) :
    Unheard D cs r' := by
  cases hr : r.isReadable with
  | false =>
      rw [FramedRead.poll_idle h.silent hr] at hp
      cases hp
      exact h
  | true =>
      rw [FramedRead.poll_readable h.silent hr, Outcome.map_eq_ret_iff] at hp
      obtain ⟨⟨d, b'⟩, hd, he⟩ := hp
      obtain ⟨hnone, heof, rfl⟩ := FramedRead.deliver_pending he
      have hdn : d = .ok none := hnone
      obtain ⟨cs', b, c, rfl, hq, hb⟩ := h.unread hr heof
      rw [hdn, hb] at hd
      exact ⟨h.silent, fun _ => .snoc hq hd, fun hf => Bool.noConfusion hf,
        fun hf => Bool.noConfusion hf⟩

/-! ## A reader behind a writer -/

/-- The reader has got a part of what was sent, and has delivered the frames `heard` of it. -/
structure Follows (F : FrameFormat ε φ) (sent heard : List φ) (got : Bytes) (r : FramedRead) :
    Prop where
  got_prefix : got <+: F.encAll sent
  heard_prefix : heard <+: sent
  buffered : got = F.encAll heard ++ r.buffer
  silent : r.hasErrored = false
  unended : r.eof = false
  settled : r.isReadable = false → F.decode r.buffer = .ret (.ok none, r.buffer)

variable {F : FrameFormat ε φ} {sent heard : List φ} {got : Bytes} {r : FramedRead}

lemma Follows.send (h : Follows F sent heard got r) (fs : List φ) :
    Follows F (sent ++ fs) heard got r := by
  refine ⟨h.got_prefix.trans ?_, h.heard_prefix.trans (List.prefix_append ..), h.buffered,
    h.silent, h.unended,
    h.settled⟩
  rw [F.encAll_append]
  exact List.prefix_append ..

lemma Follows.readData (h : Follows F sent heard got r) {c : Bytes}
    (hc : got ++ c <+: F.encAll sent) : Follows F sent heard (got ++ c) (r.readData c) := by
  refine ⟨hc, h.heard_prefix, ?_, h.silent, rfl, fun hf => Bool.noConfusion hf⟩
  rw [FramedRead.readData, ← List.append_assoc, ← h.buffered]

/-- **A reader that follows its writer delivers the frames one by one, and waits in between**, as
long as what it has got ends where the decoder can stand it. -/
theorem Follows.poll (h : Follows F sent heard got r) (hcut : F.SafeCut sent got.length)
    (leftover : ε) :
    (∃ r', r.poll F.toStreamDecoder leftover = .ret (.pending, r') ∧ Follows F sent heard got r' ∧
      r'.isReadable = false ∧ r'.buffer = r.buffer ∧
        F.decode r.buffer = .ret (.ok none, r.buffer)) ∨
    (∃ f r', r.poll F.toStreamDecoder leftover = .ret (.item (.ok f), r') ∧
      Follows F sent (heard ++ [f]) got r' ∧ r'.isReadable = r.isReadable) := by
  cases hr : r.isReadable with
  | false =>
      exact Or.inl ⟨r, FramedRead.poll_idle h.silent hr, h, hr, rfl, h.settled hr⟩
  | true =>
      have hp : r.poll F.toStreamDecoder leftover = (F.decode r.buffer).map (r.deliver leftover) :=
        FramedRead.poll_readable h.silent hr
      obtain ⟨later, rfl⟩ := h.heard_prefix
      obtain ⟨s, hs⟩ := h.got_prefix
      rw [h.buffered, F.encAll_append, List.append_assoc, List.append_cancel_left_eq] at hs
      obtain ⟨done, rest, p, rfl, hbuf, hrest, hlen⟩ := F.split_stream later r.buffer s hs
      cases done with
      | nil =>
          rw [h.buffered, List.length_append, F.safeCut_append, List.nil_append,
            show r.buffer = p from hbuf] at hcut
          have hnone := (F.decode_rest hrest hlen).1 hcut
          rw [← show r.buffer = p from hbuf] at hnone
          refine Or.inl
            ⟨{ r with buffer := r.buffer, isReadable := false }, ?_, ?_, rfl, rfl, hnone⟩
          · rw [hp, hnone, Outcome.map_ret, FramedRead.deliver, if_pos h.unended]
          · exact ⟨h.got_prefix, h.heard_prefix, h.buffered, h.silent, h.unended, fun _ => hnone⟩
      | cons f done =>
          have hf : F.decode r.buffer = .ret (.ok (some f), F.encAll done ++ p) := by
            rw [hbuf, F.encAll_cons, List.append_assoc]
            exact F.decode_enc f _
          refine Or.inr ⟨f, { r with buffer := F.encAll done ++ p }, ?_, ?_, hr⟩
          · rw [hp, hf]
            rfl
          · refine ⟨h.got_prefix, ?_, ?_, h.silent, h.unended, fun hfalse => ?_⟩
            · exact ⟨done ++ rest, by simp⟩
            · rw [h.buffered, hbuf, F.encAll_append, F.encAll_cons]
              simp
            · rw [hr] at hfalse
              cases hfalse

/-! ## How much a reader buffers -/

namespace StreamDecoder

variable (D : StreamDecoder ε φ)

/-- The decoder waits, and whatever comes it goes on waiting. -/
def Stalls (b : Bytes) : Prop := ∀ t, D.decode (b ++ t) = .ret (.ok none, b ++ t)

/-- The decoder waits for good, or for less than `m` bytes; and it adds no bytes. -/
structure WaitsWithin (m : ℕ) : Prop where
  waits : ∀ b b', D.decode b = .ret (.ok none, b') → b' = b ∧ (D.Stalls b ∨ b.length < m)
  shrinks : ∀ b b' d, D.decode b = .ret (d, b') → b'.length ≤ b.length

variable {D}

lemma Stalls.append {b : Bytes} (h : D.Stalls b) (c : Bytes) : D.Stalls (b ++ c) := by
  intro t
  rw [List.append_assoc]
  exact h (c ++ t)

lemma Stalls.decode {b : Bytes} (h : D.Stalls b) : D.decode b = .ret (.ok none, b) := by
  have hb := h []
  rwa [List.append_nil] at hb

end StreamDecoder

namespace FramedRead

/-- The buffer is stalled, or it holds less than the decoder waits for and one read. -/
def Fits (D : StreamDecoder ε φ) (m n : ℕ) (r : FramedRead) : Prop :=
  D.Stalls r.buffer ∨ r.buffer.length < if r.isReadable then m + n else m

variable {D : StreamDecoder ε φ} {leftover : ε} {m n : ℕ} {r r' : FramedRead}

lemma fits_new (hm : 0 < m) : Fits D m n new := Or.inr hm

lemma Fits.length_lt (h : r.Fits D m n) : D.Stalls r.buffer ∨ r.buffer.length < m + n := by
  refine h.imp_right fun hlt => ?_
  split at hlt <;> omega

lemma Fits.readData (h : r.Fits D m n) (hw : r.wantsRead = true) {chunk : Bytes}
    (hc : chunk.length ≤ n) : (r.readData chunk).Fits D m n := by
  refine h.imp (fun hs => hs.append chunk) fun hlt => ?_
  rw [isReadable_of_wantsRead hw] at hlt
  simp only [Bool.false_eq_true, if_false] at hlt
  simp only [FramedRead.readData, if_true, List.length_append]
  omega

lemma Fits.readEof (h : r.Fits D m n) : r.readEof.Fits D m n := h.length_lt

/-- A stalled reader waits behind all that has come. -/
lemma poll_of_stalls (h : D.Stalls r.buffer) (he : r.hasErrored = false) (ho : r.eof = false) :
    r.poll D leftover = .ret (.pending, { r with isReadable := false }) := by
  cases hr : r.isReadable with
  | false =>
      rw [poll_idle he hr]
      cases r
      cases hr
      rfl
  | true => rw [poll_readable he hr, h.decode, Outcome.map_ret, deliver, if_pos ho]

/-- A poll that waits leaves less than the decoder waits for. -/
theorem Fits.poll (h : r.Fits D m n) (hD : D.WaitsWithin m) (he : r.hasErrored = false)
    {x : Polled ε φ} (hp : r.poll D leftover = .ret (x, r')) : r'.Fits D m n := by
  cases hr : r.isReadable with
  | false =>
      rw [poll_idle he hr] at hp
      cases hp
      exact h
  | true =>
      rw [poll_readable he hr] at hp
      obtain ⟨⟨d, b⟩, hd, hdeliver⟩ := Outcome.map_eq_ret_iff.mp hp
      -- an item is decoded from a buffer that is not stalled
      have hitem : d ≠ .ok none → b.length < m + n := by
        intro hne
        rcases h.length_lt with hs | hlt
        · rw [hs.decode] at hd
          cases hd
          exact absurd rfl hne
        · exact Nat.lt_of_le_of_lt (hD.shrinks _ _ _ hd) hlt
      rcases d with e | _ | f
      · cases hdeliver
        refine Or.inr ?_
        rw [if_pos hr]
        exact hitem (by simp)
      · obtain ⟨rfl, hwaits⟩ := hD.waits _ _ hd
        have hfits : ∀ q : FramedRead, q.buffer = r.buffer → q.Fits D m n := by
          intro q hq
          refine hwaits.imp (fun hs => by rwa [hq]) fun hlt => ?_
          rw [hq]
          split <;> omega
        simp only [deliver] at hdeliver
        split_ifs at hdeliver <;> cases hdeliver <;> exact hfits _ rfl
      · cases hdeliver
        refine Or.inr ?_
        rw [if_pos hr]
        exact hitem (by simp)

end FramedRead

end Framing
