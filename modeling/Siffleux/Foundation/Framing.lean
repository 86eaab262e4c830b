import Siffleux.Foundation.Buffer

/-!
# Framed readers over a byte stream

A framed reader keeps one buffer.  Every read of the transport is appended to it, and the
decoder is then called until it reports that it needs more bytes.  Where the transport cuts the
stream is not under the reader's control, so the question about a format is whether the cuts
can be seen in what comes out.

* `StreamDecoder` — a decoder together with the fact that a delivered frame consumed something;
  this is what makes `drain`, the "call it until it returns nothing" loop, terminate.
* `feed` — the reader over a list of reads; `firstItem` — the first thing it delivers.
* `FrameFormat` — a decoder with the encoder it belongs to: whole encodings decode, proper
  prefixes of one wait, except at the lengths `stall` names, where the decoder panics.
* **`FrameFormat.feed_eq_iff`** — over any cutting of the encodings of `fs`, the reader delivers
  exactly `fs` if and only if no read ends at a stalling position.  A format without stalling
  positions is therefore independent of the cuts.
-/

namespace Framing

open ByteBuf

universe u v

/-- A frame decoder: `none` asks for more bytes.  Delivering a frame consumes bytes. -/
structure StreamDecoder (ε : Type u) (φ : Type u) where
  decode : Reader (Except ε (Option φ))
  consumes : ∀ b b' f, decode b = .ret (.ok (some f), b') → b'.length < b.length

variable {ε φ : Type u}

/-- Put frames delivered earlier in front of what a later call delivers. -/
def prepend (fs : List φ) (r : (List φ × Option ε) × Bytes) : (List φ × Option ε) × Bytes :=
  ((fs ++ r.1.1, r.1.2), r.2)

@[simp] lemma prepend_mk (fs gs : List φ) (e : Option ε) (b : Bytes) :
    prepend fs ((gs, e), b) = ((fs ++ gs, e), b) := rfl

namespace StreamDecoder

variable (D : StreamDecoder ε φ)

/-- Call the decoder until it asks for more bytes or fails. -/
def drain (b : Bytes) : Outcome ((List φ × Option ε) × Bytes) :=
  match _h : D.decode b with
  | .panic => .panic
  | .ret (.error e, b') => .ret (([], some e), b')
  | .ret (.ok none, b') => .ret (([], none), b')
  | .ret (.ok (some f), b') => (drain b').map (prepend [f])
termination_by b.length
decreasing_by exact D.consumes _ _ _ _h

/-- The reader over the reads still to come, starting from a buffer.  An error ends it. -/
def feed : Bytes → List Bytes → Outcome ((List φ × Option ε) × Bytes)
  | b, [] => .ret (([], none), b)
  | b, r :: rs =>
      match D.drain (b ++ r) with
      | .panic => .panic
      | .ret ((fs, some e), b') => .ret ((fs, some e), b')
      | .ret ((fs, none), b') => (feed b' rs).map (prepend fs)

/-- The first frame or error the reader comes to; `none` while it is still waiting. -/
def firstItem : Bytes → List Bytes → Outcome (Option (Except ε φ))
  | _, [] => .ret none
  | b, r :: rs =>
      match D.decode (b ++ r) with
      | .panic => .panic
      | .ret (.error e, _) => .ret (some (.error e))
      | .ret (.ok (some f), _) => .ret (some (.ok f))
      | .ret (.ok none, b') => firstItem b' rs

variable {D}

lemma drain_panic {b : Bytes} (h : D.decode b = .panic) : D.drain b = .panic := by
  rw [drain]; split <;> simp_all

lemma drain_none {b b' : Bytes} (h : D.decode b = .ret (.ok none, b')) :
    D.drain b = .ret (([], none), b') := by
  rw [drain]; split <;> simp_all

lemma drain_some {b b' : Bytes} {f : φ} (h : D.decode b = .ret (.ok (some f), b')) :
    D.drain b = (D.drain b').map (prepend [f]) := by
  rw [drain]; split <;> simp_all

end StreamDecoder

/-! ## Formats -/

/-- A decoder, the encoder it inverts, and what it does on a part of one encoding: it waits,
except at the lengths `stall` names. -/
structure FrameFormat (ε : Type u) (φ : Type u) extends StreamDecoder ε φ where
  enc : φ → Bytes
  stall : φ → ℕ → Prop
  decode_enc : ∀ f t, decode (enc f ++ t) = .ret (.ok (some f), t)
  decode_nil : decode [] = .ret (.ok none, [])
  decode_part : ∀ f p s, p ++ s = enc f → s ≠ [] → ¬ stall f p.length →
    decode p = .ret (.ok none, p)
  decode_stall : ∀ f p s, p ++ s = enc f → s ≠ [] → stall f p.length → decode p = .panic

namespace FrameFormat

variable (F : FrameFormat ε φ)

/-- The encodings of the frames, one after the other. -/
def encAll (fs : List φ) : Bytes := fs.flatMap F.enc

/-- The frame that position `n` of the stream falls into, and how far into it. -/
def remainderAt : List φ → ℕ → Option (φ × ℕ)
  | [], _ => none
  | f :: fs, n =>
      if n < (F.enc f).length then some (f, n) else remainderAt fs (n - (F.enc f).length)

/-- A read may end at position `n` without the decoder panicking on what it left over. -/
def SafeCut (fs : List φ) (n : ℕ) : Prop :=
  ∀ f j, F.remainderAt fs n = some (f, j) → ¬ F.stall f j

@[simp] lemma encAll_nil : F.encAll [] = [] := rfl

@[simp] lemma encAll_cons (f : φ) (fs : List φ) : F.encAll (f :: fs) = F.enc f ++ F.encAll fs := rfl

lemma encAll_append (fs gs : List φ) : F.encAll (fs ++ gs) = F.encAll fs ++ F.encAll gs := by
  simp [encAll]

lemma enc_pos (f : φ) : 0 < (F.enc f).length := by
  have h := F.consumes _ _ _ (F.decode_enc f [])
  simp only [List.append_nil, List.length_nil] at h
  exact h

lemma not_stall_zero (f : φ) : ¬ F.stall f 0 := by
  intro h
  have hne : F.enc f ≠ [] := List.ne_nil_of_length_pos (F.enc_pos f)
  have := F.decode_stall f [] (F.enc f) rfl hne h
  rw [F.decode_nil] at this
  cases this

lemma safeCut_zero (fs : List φ) : F.SafeCut fs 0 := by
  intro f j h
  cases fs with
  | nil => cases h
  | cons g gs =>
      simp only [remainderAt, F.enc_pos g, if_true, Option.some.injEq, Prod.mk.injEq] at h
      obtain ⟨-, rfl⟩ := h
      exact F.not_stall_zero f

/-- Whole frames in front do not change where a position falls. -/
lemma remainderAt_append (fs gs : List φ) (n : ℕ) :
    F.remainderAt (fs ++ gs) ((F.encAll fs).length + n) = F.remainderAt gs n := by
  induction fs with
  | nil => simp
  | cons f fs ih =>
      rw [List.cons_append, remainderAt, encAll_cons, List.length_append]
      rw [if_neg (by omega)]
      rw [show (F.enc f).length + (F.encAll fs).length + n - (F.enc f).length
        = (F.encAll fs).length + n by omega]
      exact ih

lemma safeCut_append (fs gs : List φ) (n : ℕ) :
    F.SafeCut (fs ++ gs) ((F.encAll fs).length + n) ↔ F.SafeCut gs n := by
  rw [SafeCut, SafeCut, remainderAt_append]

/-- A part of the stream is some whole frames and less than one more. -/
lemma split_stream : ∀ (fs : List φ) (q s : Bytes), q ++ s = F.encAll fs →
    ∃ done rest p, fs = done ++ rest ∧ q = F.encAll done ++ p ∧ p ++ s = F.encAll rest ∧
      ∀ f ∈ rest.head?, p.length < (F.enc f).length
  | [], q, s, h => by
      simp only [encAll_nil, List.append_eq_nil_iff] at h
      obtain ⟨rfl, rfl⟩ := h
      exact ⟨[], [], [], rfl, rfl, rfl, by simp⟩
  | f :: fs, q, s, h => by
      by_cases hlt : q.length < (F.enc f).length
      · exact ⟨[], f :: fs, q, rfl, rfl, h, by simpa using hlt⟩
      · obtain ⟨q', hq⟩ : F.enc f <+: q :=
          List.prefix_of_prefix_length_le ⟨F.encAll fs, rfl⟩ ⟨s, h⟩ (by omega)
        subst hq
        rw [encAll_cons, List.append_assoc, List.append_cancel_left_eq] at h
        obtain ⟨done, rest, p, rfl, rfl, hp, hlen⟩ := split_stream fs q' s h
        exact ⟨f :: done, rest, p, rfl, by simp, hp, hlen⟩

/-- Whole frames are delivered one by one, then the decoder sees what is left. -/
lemma drain_encAll (p : Bytes) : ∀ fs : List φ,
    F.drain (F.encAll fs ++ p) = (F.drain p).map (prepend fs)
  | [] => by
      cases h : F.drain p with
      | panic => simp [h]
      | ret r => obtain ⟨⟨gs, e⟩, b⟩ := r; simp [h]
  | f :: fs => by
      rw [encAll_cons, List.append_assoc,
        StreamDecoder.drain_some (F.decode_enc f (F.encAll fs ++ p)), drain_encAll p fs]
      cases F.drain p with
      | panic => rfl
      | ret r => obtain ⟨⟨gs, e⟩, b⟩ := r; rfl

/-- Less than one frame: the decoder waits, or panics at a stalling position. -/
lemma decode_rest {rest : List φ} {p s : Bytes} (h : p ++ s = F.encAll rest)
    (hlen : ∀ f ∈ rest.head?, p.length < (F.enc f).length) :
    (F.SafeCut rest p.length → F.decode p = .ret (.ok none, p)) ∧
      (¬ F.SafeCut rest p.length → F.decode p = .panic) := by
  cases rest with
  | nil =>
      simp only [encAll_nil, List.append_eq_nil_iff] at h
      obtain ⟨rfl, rfl⟩ := h
      exact ⟨fun _ => F.decode_nil, fun hn => absurd (F.safeCut_zero []) hn⟩
  | cons f fs =>
      have hp : p.length < (F.enc f).length := hlen f rfl
      have hrem : F.remainderAt (f :: fs) p.length = some (f, p.length) := by
        rw [remainderAt, if_pos hp]
      have hcut : F.SafeCut (f :: fs) p.length ↔ ¬ F.stall f p.length := by
        simp only [SafeCut, hrem, Option.some.injEq, Prod.mk.injEq]
        exact ⟨fun hs => hs f p.length ⟨rfl, rfl⟩, fun hs g j ⟨hg, hj⟩ => hg ▸ hj ▸ hs⟩
      obtain ⟨s', hs'⟩ : p <+: F.enc f :=
        List.prefix_of_prefix_length_le ⟨s, h⟩ ⟨F.encAll fs, rfl⟩ (by omega)
      have hne : s' ≠ [] := by
        rintro rfl
        rw [← hs', List.append_nil] at hp
        exact Nat.lt_irrefl _ hp
      rw [hcut, not_not]
      exact ⟨fun hs => F.decode_part f p s' hs' hne hs, fun hs => F.decode_stall f p s' hs' hne hs⟩

/-- The same of draining. -/
lemma drain_part {rest : List φ} {p s : Bytes} (h : p ++ s = F.encAll rest)
    (hlen : ∀ f ∈ rest.head?, p.length < (F.enc f).length) :
    (F.SafeCut rest p.length → F.drain p = .ret (([], none), p)) ∧
      (¬ F.SafeCut rest p.length → F.drain p = .panic) :=
  ⟨fun hs => StreamDecoder.drain_none ((F.decode_rest h hlen).1 hs),
    fun hs => StreamDecoder.drain_panic ((F.decode_rest h hlen).2 hs)⟩

/-- Frames that never stall can be cut anywhere. -/
lemma safeCut_of_not_stall {fs : List φ} (h : ∀ f ∈ fs, ∀ j, ¬ F.stall f j) (n : ℕ) :
    F.SafeCut fs n := by
  induction fs generalizing n with
  | nil => exact fun f j hf => by cases hf
  | cons g gs ih =>
      intro f j hf
      rw [remainderAt] at hf
      split_ifs at hf
      · simp only [Option.some.injEq, Prod.mk.injEq] at hf
        rw [← hf.1]
        exact h g List.mem_cons_self j
      · exact ih (fun k hk => h k (List.mem_cons_of_mem g hk)) _ f j hf

/-! ## The reader over any cutting -/

lemma map_prepend_eq_ret_iff {done rest : List φ} {o : Outcome ((List φ × Option ε) × Bytes)} :
    o.map (prepend done) = .ret ((done ++ rest, none), []) ↔ o = .ret ((rest, none), []) := by
  rw [Outcome.map_eq_ret_iff]
  refine ⟨?_, fun h => ⟨_, h, rfl⟩⟩
  rintro ⟨⟨⟨gs, e⟩, b⟩, rfl, h⟩
  simp only [prepend_mk, Prod.mk.injEq, List.append_cancel_left_eq] at h
  obtain ⟨⟨rfl, rfl⟩, rfl⟩ := h
  rfl

/-- The reader with part of a frame in its buffer.  The induction is on the reads: each one adds
whole frames, which are delivered, and leaves less than one frame behind. -/
lemma feed_part_iff : ∀ (rs : List Bytes) (rest : List φ) (p : Bytes),
    p ++ rs.flatten = F.encAll rest → (∀ f ∈ rest.head?, p.length < (F.enc f).length) →
    F.SafeCut rest p.length →
    (F.feed p rs = .ret ((rest, none), []) ↔
      ∀ seen, seen <+: rs → F.SafeCut rest (p.length + seen.flatten.length))
  | [], rest, p, h, hlen, hsafe => by
      have hrest : rest = [] := by
        cases rest with
        | nil => rfl
        | cons f fs =>
            have hlt := hlen f rfl
            have hl := congrArg List.length h
            simp only [List.flatten_nil, List.append_nil, encAll_cons, List.length_append] at hl
            omega
      subst hrest
      simp only [List.flatten_nil, List.append_nil, encAll_nil] at h
      subst h
      simpa [StreamDecoder.feed] using hsafe
  | r :: rs, rest, p, h, hlen, hsafe => by
      have hq : (p ++ r) ++ rs.flatten = F.encAll rest := by simpa using h
      obtain ⟨done, rest', p', rfl, hpr, hp', hlen'⟩ := F.split_stream rest (p ++ r) rs.flatten hq
      have hcut : ∀ n, F.SafeCut (done ++ rest') ((p ++ r).length + n) ↔
          F.SafeCut rest' (p'.length + n) := by
        intro n
        rw [hpr, List.length_append, Nat.add_assoc]
        exact F.safeCut_append done rest' (p'.length + n)
      have hcuts : (∀ seen, seen <+: r :: rs →
            F.SafeCut (done ++ rest') (p.length + seen.flatten.length)) ↔
          ∀ seen, seen <+: rs → F.SafeCut rest' (p'.length + seen.flatten.length) := by
        refine ⟨fun hs seen hseen => ?_, fun hs seen hseen => ?_⟩
        · have := hs (r :: seen) (List.cons_prefix_cons.mpr ⟨rfl, hseen⟩)
          rw [← hcut, List.length_append, Nat.add_assoc]
          simpa using this
        · cases seen with
          | nil => simpa using hsafe
          | cons r' seen =>
              obtain ⟨rfl, hseen'⟩ := List.cons_prefix_cons.mp hseen
              have := (hcut _).mpr (hs seen hseen')
              rw [List.length_append, Nat.add_assoc] at this
              simpa using this
      obtain ⟨hok, hbad⟩ := F.drain_part hp' hlen'
      have hdrain : F.drain (p ++ r) = (F.drain p').map (prepend done) := by
        rw [hpr]; exact F.drain_encAll p' done
      rw [hcuts, StreamDecoder.feed]
      by_cases hs : F.SafeCut rest' p'.length
      · rw [hdrain, hok hs, Outcome.map_ret, prepend_mk, List.append_nil]
        simp only [map_prepend_eq_ret_iff]
        exact feed_part_iff rs rest' p' hp' hlen' hs
      · rw [hdrain, hbad hs, Outcome.map_panic]
        refine iff_of_false (by simp) (fun hall => hs ?_)
        simpa using hall [] (List.nil_prefix)

/-- **The reader sees the cuts exactly at the stalling positions.**  Over any cutting of the
encodings of `fs` into reads, it delivers `fs` with nothing left over if and only if no read
ends at a stalling position. -/
theorem feed_eq_iff {fs : List φ} {rs : List Bytes} (h : rs.flatten = F.encAll fs) :
    F.feed [] rs = .ret ((fs, none), []) ↔
      ∀ seen, seen <+: rs → F.SafeCut fs seen.flatten.length := by
  have := F.feed_part_iff rs fs [] (by simpa using h) (fun f _ => F.enc_pos f) (F.safeCut_zero fs)
  simpa using this

end FrameFormat

end Framing
