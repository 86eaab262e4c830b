import Siffleux.Common.Frames.V1
import Siffleux.Foundation.FramedRead

/-!
# The codec as a frame format

`decode` inverts `encode`, whatever follows the frame, and on a part of a frame it waits — unless
the part is one or two bytes of a frame with a payload: there `decode` indexes the length octets
before it has checked that they are there, and panics.

* `decode_some_cases` — every way `decode` can deliver a frame.
* `codecV1` — the codec packaged as a `FrameFormat`, with those two lengths as its stalling
  positions.
* `encodeAll_decodeTimes` — encoding a list of frames and decoding it again, frame by frame.
* `feed_reads_iff` — the framed reader over any cutting of a stream of frames.
-/

namespace Siffleux

open ByteBuf Framing

/-- The bytes `encode` appends for a frame. -/
def frameBytes : FrameV1 → Bytes
  | .auth authKey ingressId =>
      let payload := field (asBytes authKey.toStr) ++ field (asBytes ingressId.toStr)
      putU16 [authType] (UInt16.ofNat payload.length) ++ payload
  | .authenticated tunnelId serverId =>
      let payload := field (asBytes serverId.toStr) ++ tunnelId.asBytes
      putU16 [authenticatedType] (UInt16.ofNat payload.length) ++ payload
  | .ping => [pingType]
  | .pong => [pongType]

/-- `encode` never fails and only appends. -/
lemma encode_eq (f : FrameV1) (dst : Bytes) : encode f dst = .ok (dst ++ frameBytes f) := by
  cases f with
  | auth k i =>
      have hl : (1 + (asBytes k.toStr).length) + (1 + (asBytes i.toStr).length) =
          (field (asBytes k.toStr) ++ field (asBytes i.toStr)).length := by simp; omega
      simp only [encode, frameBytes, hl, putU8, putU16, putSlice, field, List.append_assoc,
        List.cons_append, List.nil_append]
  | authenticated u s =>
      have hl : (1 + (asBytes s.toStr).length) + 16 =
          (field (asBytes s.toStr) ++ u.asBytes).length := by simp [u.asBytes_length]; omega
      simp only [encode, frameBytes, hl, putU8, putU16, putSlice, field, List.append_assoc,
        List.cons_append, List.nil_append]
  | ping => rfl
  | pong => rfl

/-! ## Whole frames -/

/-- **Every way a frame is delivered.**  The declared length is only known to be at most what was
buffered; the bytes taken are those of the inner fields. -/
theorem decode_some_cases {b b' : Bytes} {f : FrameV1}
    (h : decode b = .ret (.ok (some f), b')) :
    (b = pingType :: b' ∧ f = .ping) ∨ (b = pongType :: b' ∧ f = .pong) ∨
      (∃ hi lo authKey ingressId, f = .auth authKey ingressId ∧ b = authType :: hi :: lo ::
        (field (asBytes authKey.toStr) ++ (field (asBytes ingressId.toStr) ++ b'))) ∨
      (∃ hi lo tunnelId serverId, f = .authenticated tunnelId serverId ∧
        b = authenticatedType :: hi :: lo ::
          (field (asBytes serverId.toStr) ++ (tunnelId.asBytes ++ b'))) := by
  rcases decode_cases h with ⟨hr, -⟩ | ⟨hr, hb⟩ | ⟨hr, hb⟩ | ⟨ty, rd, hi, lo, body, hp, rfl, hr⟩
  · cases hr
  · cases hr
    exact Or.inl ⟨hb, rfl⟩
  · cases hr
    exact Or.inr (Or.inl ⟨hb, rfl⟩)
  · cases hp with
    | auth =>
        obtain ⟨k, i, -, -, rfl, hf⟩ := decodeAuthPayload_eq_ret_iff.mp hr
        obtain ⟨authKey, ingressId, rfl, rfl, rfl⟩ := authFrame_eq_some_iff.mp hf.symm
        exact Or.inr (Or.inr (Or.inl ⟨hi, lo, authKey, ingressId, rfl, rfl⟩))
    | authenticated =>
        obtain ⟨k, u, -, -, rfl, hf⟩ := decodeAuthenticatedPayload_eq_ret_iff.mp hr
        obtain ⟨tunnelId, serverId, rfl, rfl, rfl⟩ := authenticatedFrame_eq_some_iff.mp hf.symm
        exact Or.inr (Or.inr (Or.inr ⟨hi, lo, tunnelId, serverId, rfl, rfl⟩))

lemma decode_consumes (b b' : Bytes) (f : FrameV1) (h : decode b = .ret (.ok (some f), b')) :
    b'.length < b.length := by
  rcases decode_some_cases h with ⟨rfl, -⟩ | ⟨rfl, -⟩ | ⟨hi, lo, k, i, -, rfl⟩ |
    ⟨hi, lo, u, s, -, rfl⟩ <;> simp <;> omega

/-- What `decode` makes of a payload frame whose declared length is the true one. -/
lemma decode_putU16 {ty : UInt8} {rd : Reader (Except Error (Option FrameV1))}
    (hp : Prefixed ty rd) {payload : Bytes} (hl : payload.length < 2 ^ 16) (t : Bytes) :
    decode (putU16 [ty] (UInt16.ofNat payload.length) ++ payload ++ t) = rd (payload ++ t) := by
  have hn : (UInt16.ofNat payload.length).toNat = payload.length := by
    rw [UInt16.toNat_ofNat']; omega
  have hlist : putU16 [ty] (UInt16.ofNat payload.length) ++ payload ++ t =
      ty :: UInt8.ofNat ((UInt16.ofNat payload.length).toNat / 256) ::
        UInt8.ofNat ((UInt16.ofNat payload.length).toNat % 256) :: (payload ++ t) := by
    simp [putU16]
  rw [hlist, decode_prefixed hp, fromBeBytes_split, if_neg]
  rw [hn, List.length_append]
  omega

/-- **Decode undoes encode, whatever follows.** -/
theorem decode_frameBytes (f : FrameV1) (t : Bytes) :
    decode (frameBytes f ++ t) = .ret (.ok (some f), t) := by
  cases f with
  | auth k i =>
      have hk := k.length_le
      have hi := i.length_le
      rw [frameBytes, decode_putU16 .auth (by simp; omega), decodeAuthPayload_eq_ret_iff]
      exact ⟨_, _, hk, hi, by rw [List.append_assoc],
        (authFrame_eq_some_iff.mpr ⟨k, i, rfl, rfl, rfl⟩).symm⟩
  | authenticated u s =>
      have hs := s.length_le
      have hu := u.asBytes_length
      rw [frameBytes, decode_putU16 .authenticated (by simp; omega),
        decodeAuthenticatedPayload_eq_ret_iff]
      exact ⟨_, _, hs, hu, by rw [List.append_assoc],
        (authenticatedFrame_eq_some_iff.mpr ⟨u, s, rfl, rfl, rfl⟩).symm⟩
  | ping => exact decode_ping t
  | pong => exact decode_pong t

/-! ## Parts of frames -/

/-- The two frames that carry a payload behind a `u16`. -/
def FrameV1.hasPayload : FrameV1 → Bool
  | .auth _ _ => true
  | .authenticated _ _ => true
  | .ping => false
  | .pong => false

/-- Both frames with a payload have the same shape on the wire. -/
lemma frameBytes_of_hasPayload {f : FrameV1} (h : f.hasPayload = true) :
    ∃ ty rd payload, Prefixed ty rd ∧ payload.length < 2 ^ 16 ∧
      frameBytes f = putU16 [ty] (UInt16.ofNat payload.length) ++ payload := by
  cases f with
  | auth k i =>
      have hk := k.length_le
      have hi := i.length_le
      exact ⟨_, _, _, .auth, by simp; omega, rfl⟩
  | authenticated u s =>
      have hs := s.length_le
      have hu := u.asBytes_length
      exact ⟨_, _, field (asBytes s.toStr) ++ u.asBytes, .authenticated, by simp; omega, rfl⟩
  | ping => cases h
  | pong => cases h

lemma frameBytes_of_not_hasPayload {f : FrameV1} (h : f.hasPayload = false) :
    ∃ ty, frameBytes f = [ty] := by
  cases f with
  | auth k i => cases h
  | authenticated u s => cases h
  | ping => exact ⟨pingType, rfl⟩
  | pong => exact ⟨pongType, rfl⟩

/-- Part of a frame without a payload is nothing at all. -/
lemma part_of_single {ty : UInt8} {p s : Bytes} (h : p ++ s = [ty]) (hs : s ≠ []) : p = [] := by
  cases p with
  | nil => rfl
  | cons x p =>
      have hl := congrArg List.length h
      have := List.length_pos_of_ne_nil hs
      simp only [List.length_append, List.length_cons, List.length_nil] at hl
      omega

/-- **On a part of a frame `decode` waits**, except with one or two bytes of a payload frame. -/
theorem decode_part_of_frame {f : FrameV1} {p s : Bytes} (h : p ++ s = frameBytes f) (hs : s ≠ [])
    (hp : ¬ (f.hasPayload = true ∧ (p.length = 1 ∨ p.length = 2))) :
    decode p = .ret (.ok none, p) := by
  cases hf : f.hasPayload with
  | false =>
      obtain ⟨ty, hb⟩ := frameBytes_of_not_hasPayload hf
      rw [part_of_single (h.trans hb) hs]
      exact decode_nil
  | true =>
      obtain ⟨ty, rd, payload, hpre, hlen, hb⟩ := frameBytes_of_hasPayload hf
      have hn : (UInt16.ofNat payload.length).toNat = payload.length := by
        rw [UInt16.toNat_ofNat']; omega
      rw [hb, putU16] at h
      match p, h, hp with
      | [], _, _ => exact decode_nil
      | [_], _, hp => exact absurd ⟨hf, Or.inl rfl⟩ hp
      | [_, _], _, hp => exact absurd ⟨hf, Or.inr rfl⟩ hp
      | x :: y :: z :: body, h, _ =>
          simp only [List.cons_append, List.nil_append, List.cons.injEq] at h
          obtain ⟨rfl, rfl, rfl, hbody⟩ := h
          have hlt : body.length < payload.length := by
            have := congrArg List.length hbody
            have := List.length_pos_of_ne_nil hs
            simp only [List.length_append] at *
            omega
          rw [decode_prefixed hpre, fromBeBytes_split, hn, if_pos hlt]

/-- With one or two bytes of a payload frame the length octets are indexed out of bounds. -/
theorem decode_header_cut {f : FrameV1} {p s : Bytes} (h : p ++ s = frameBytes f)
    (hp : f.hasPayload = true ∧ (p.length = 1 ∨ p.length = 2)) : decode p = .panic := by
  obtain ⟨ty, rd, payload, hpre, -, hb⟩ := frameBytes_of_hasPayload hp.1
  rw [hb, putU16] at h
  cases p with
  | nil => simp at hp
  | cons x q =>
      simp only [List.cons_append, List.nil_append, List.cons.injEq] at h
      obtain ⟨rfl, -⟩ := h
      refine decode_prefixed_short hpre ?_
      have := hp.2
      simp only [List.length_cons] at this
      omega

/-- `CodecV1` as a frame format: it stalls one and two bytes into a frame with a payload. -/
def codecV1 : FrameFormat Error FrameV1 where
  decode := decode
  consumes := decode_consumes
  enc := frameBytes
  stall f j := f.hasPayload = true ∧ (j = 1 ∨ j = 2)
  decode_enc := decode_frameBytes
  decode_nil := decode_nil
  decode_part _ _ _ h hs hp := decode_part_of_frame h hs hp
  decode_stall _ _ _ h _ hp := decode_header_cut h hp

/-- While it waits, `decode` leaves the buffer alone. -/
lemma decode_none_keeps {b b' : Bytes} (h : decode b = .ret (.ok none, b')) : b' = b := by
  rcases decode_cases h with ⟨-, hb⟩ | ⟨hr, -⟩ | ⟨hr, -⟩ | ⟨ty, rd, hi, lo, body, hp, -, hr⟩
  · exact hb
  · cases hr
  · cases hr
  · exact absurd rfl (payload_ne_none hp hr)

lemma codecV1_patient : codecV1.Patient := ⟨decode_nil, fun _ _ => decode_none_keeps⟩

/-! ## Lists of frames -/

/-- Encode frames one after the other into one buffer. -/
def encodeAll : List FrameV1 → Bytes → Except Error Bytes
  | [], dst => .ok dst
  | f :: fs, dst => do encodeAll fs (← encode f dst)

/-- Call `decode` the given number of times on one buffer. -/
def decodeTimes : ℕ → Reader (List (Except Error (Option FrameV1)))
  | 0 => return []
  | n + 1 => do
      let r ← decode
      let rs ← decodeTimes n
      return r :: rs

lemma encodeAll_eq : ∀ (fs : List FrameV1) (dst : Bytes),
    encodeAll fs dst = .ok (dst ++ codecV1.encAll fs)
  | [], dst => by simp [encodeAll]
  | f :: fs, dst => by
      rw [encodeAll, encode_eq]
      exact (encodeAll_eq fs (dst ++ frameBytes f)).trans (by rw [List.append_assoc]; rfl)

lemma decodeTimes_encAll (t : Bytes) : ∀ fs : List FrameV1,
    decodeTimes fs.length (codecV1.encAll fs ++ t) = .ret (fs.map fun f => .ok (some f), t)
  | [] => rfl
  | f :: fs => by
      rw [FrameFormat.encAll_cons, List.append_assoc, List.length_cons, decodeTimes,
        Reader.bind_apply, show codecV1.enc f = frameBytes f from rfl, decode_frameBytes,
        Outcome.bind_ret, Reader.bind_apply, decodeTimes_encAll t fs]
      rfl

/-- The lengths `encode` casts to `u8` and `u16` survive the cast. -/
def FrameV1.LengthsExact : FrameV1 → Prop
  | .auth authKey ingressId =>
      (UInt8.ofNat (asBytes authKey.toStr).length).toNat = (asBytes authKey.toStr).length ∧
      (UInt8.ofNat (asBytes ingressId.toStr).length).toNat = (asBytes ingressId.toStr).length ∧
      (UInt16.ofNat ((1 + (asBytes authKey.toStr).length) +
        (1 + (asBytes ingressId.toStr).length))).toNat =
          (1 + (asBytes authKey.toStr).length) + (1 + (asBytes ingressId.toStr).length)
  | .authenticated _ serverId =>
      (UInt8.ofNat (asBytes serverId.toStr).length).toNat = (asBytes serverId.toStr).length ∧
      (UInt16.ofNat ((1 + (asBytes serverId.toStr).length) + 16)).toNat =
        (1 + (asBytes serverId.toStr).length) + 16
  | .ping => True
  | .pong => True

lemma FrameV1.lengthsExact (f : FrameV1) : f.LengthsExact := by
  cases f with
  | auth k i =>
      have hk := k.length_le
      have hi := i.length_le
      refine ⟨toNat_ofNat_octet hk, toNat_ofNat_octet hi, ?_⟩
      rw [UInt16.toNat_ofNat']
      omega
  | authenticated u s =>
      have hs := s.length_le
      refine ⟨toNat_ofNat_octet hs, ?_⟩
      rw [UInt16.toNat_ofNat']
      omega
  | ping => trivial
  | pong => trivial

/-- **The round trip over lists of frames.**  Encoding into one buffer, appending anything and
decoding once per frame gives the frames back and leaves what was appended; each call takes the
bytes its frame's `encode` wrote; and no length is truncated by its cast. -/
theorem encodeAll_decodeTimes (fs : List FrameV1) (t : Bytes) :
    (∃ w, encodeAll fs [] = .ok w ∧
      decodeTimes fs.length (w ++ t) = .ret (fs.map fun f => .ok (some f), t) ∧
      ∀ pre f post, fs = pre ++ f :: post → ∃ before written after,
        encodeAll pre [] = .ok before ∧ encode f before = .ok (before ++ written) ∧
        decodeTimes pre.length (w ++ t) =
          .ret (pre.map fun g => .ok (some g), written ++ after) ∧
        decode (written ++ after) = .ret (.ok (some f), after)) ∧
    ∀ f ∈ fs, f.LengthsExact := by
  refine ⟨⟨codecV1.encAll fs, encodeAll_eq fs [], decodeTimes_encAll t fs, ?_⟩,
    fun f _ => f.lengthsExact⟩
  rintro pre f post rfl
  refine ⟨codecV1.encAll pre, frameBytes f, codecV1.encAll post ++ t, encodeAll_eq pre [],
    encode_eq f _, ?_, decode_frameBytes f _⟩
  rw [FrameFormat.encAll_append, FrameFormat.encAll_cons, List.append_assoc, List.append_assoc]
  exact decodeTimes_encAll _ pre

/-! ## Cutting the stream -/

/-- **The framed reader over any cutting of a stream of frames** delivers the frames if and only
if no read ends one or two bytes into a frame with a payload; and on a proper part of one frame
`decode` waits and changes nothing if and only if the part is not one or two bytes long. -/
theorem feed_reads_iff (fs : List FrameV1) (reads : List Bytes)
    (h : encodeAll fs [] = .ok reads.flatten) :
    (codecV1.feed [] reads = .ret ((fs, none), []) ↔
      ∀ seen, seen <+: reads → ∀ f j,
        codecV1.remainderAt fs seen.flatten.length = some (f, j) →
          ¬ (f.hasPayload = true ∧ (j = 1 ∨ j = 2))) ∧
    ∀ (f : FrameV1) (p s : Bytes), encode f [] = .ok (p ++ s) → s ≠ [] →
      (decode p = .ret (.ok none, p) ↔ p.length ≠ 1 ∧ p.length ≠ 2) := by
  refine ⟨?_, fun f p s h hs => ?_⟩
  · rw [encodeAll_eq, Except.ok.injEq, List.nil_append] at h
    exact codecV1.feed_eq_iff h.symm
  · rw [encode_eq, Except.ok.injEq, List.nil_append] at h
    refine ⟨fun hd => ?_, fun hp => decode_part_of_frame h.symm hs fun hc => ?_⟩
    · rw [← not_or]
      intro hlen
      cases hf : f.hasPayload with
      | true =>
          rw [decode_header_cut h.symm ⟨hf, hlen⟩] at hd
          cases hd
      | false =>
          obtain ⟨ty, hb⟩ := frameBytes_of_not_hasPayload hf
          rw [part_of_single (h.symm.trans hb) hs] at hlen
          simp at hlen
    · exact hc.2.elim hp.1 hp.2

/-- A cut behind the header is harmless: nothing is delivered before the rest has arrived. -/
theorem feed_reads_cut_behind_header :
    codecV1.feed [] [[0, 0, 4], [1, 97, 1, 98]] =
        .ret (([.auth ⟨"a", by decide, by decide⟩ ⟨"b", by decide, by decide⟩], none), []) ∧
      decode [0, 0, 4] = .ret (.ok none, [0, 0, 4]) := by
  obtain ⟨hfeed, hpart⟩ := feed_reads_iff
    [.auth ⟨"a", by decide, by decide⟩ ⟨"b", by decide, by decide⟩] [[0, 0, 4], [1, 97, 1, 98]] rfl
  refine ⟨hfeed.mpr ?_, (hpart (.auth ⟨"a", by decide, by decide⟩ ⟨"b", by decide, by decide⟩)
    [0, 0, 4] [1, 97, 1, 98] rfl (by simp)).mpr (by decide)⟩
  intro seen hseen f j hrem hbad
  have hlen : seen.flatten.length = 0 ∨ seen.flatten.length = 3 ∨ seen.flatten.length = 7 := by
    rcases List.prefix_cons_iff.mp hseen with rfl | ⟨_, rfl, h⟩
    · exact Or.inl rfl
    · rcases List.prefix_cons_iff.mp h with rfl | ⟨_, rfl, h'⟩
      · exact Or.inr (Or.inl rfl)
      · rw [List.prefix_nil.mp h']
        exact Or.inr (Or.inr rfl)
  have hj : j = 0 ∨ j = 3 := by
    rcases hlen with h | h | h <;> rw [h] at hrem
    · exact Or.inl (Prod.mk.inj (Option.some.inj hrem)).2.symm
    · exact Or.inr (Prod.mk.inj (Option.some.inj hrem)).2.symm
    · cases hrem
  rcases hbad.2 with h | h <;> omega

/-- A read that ends behind the type octet of an `Auth` frame panics. -/
theorem feed_reads_header_cut_panics :
    encodeAll [.auth ⟨"a", by decide, by decide⟩ ⟨"b", by decide, by decide⟩] [] =
        .ok [[0], [0, 4, 1, 97, 1, 98]].flatten ∧
      codecV1.feed [] [[0], [0, 4, 1, 97, 1, 98]] = .panic := by
  refine ⟨rfl, ?_⟩
  have hp : codecV1.drain ([] ++ [0]) = .panic := StreamDecoder.drain_panic rfl
  rw [StreamDecoder.feed, hp]

end Siffleux
