import Siffleux.Common.Frames.RoundTrip

/-!
# Three lengths in one frame

A frame with a payload carries a declared length — the `u16` of its header — and inside the
payload the octets that its fields are cut out by.  `decode` uses the first only to decide
whether to wait; what it reads afterwards is decided by the second.  Nothing compares the two,
nor the second with what is buffered.

* `declaredLength b` — the header's number.
* `innerLength b` — what the inner octets add up to, if the bytes they promise are buffered.
* `decode_whole_frame_iff` — once the declared frame is there, `decode` answers rather than
  panics exactly when `innerLength` exists.
* `decode_canonical_iff` — what was taken is the encoding of what was delivered exactly when the
  two numbers agree.
-/

namespace Siffleux

open ByteBuf

/-- The big-endian `u16` in bytes 1 and 2. -/
def declaredLength : Bytes → ℕ
  | _ :: hi :: lo :: _ => (fromBeBytes hi lo).toNat
  | _ => 0

/-- The two fields of an `Auth` payload, by their octets. -/
def authInner (body : Bytes) : Option ℕ := do
  let n ← body.head?
  let m ← (body.drop (1 + n.toNat)).head?
  let total := (1 + n.toNat) + (1 + m.toNat)
  if total ≤ body.length then some total else none

/-- The field and the sixteen bytes of an `Authenticated` payload. -/
def authenticatedInner (body : Bytes) : Option ℕ := do
  let n ← body.head?
  let total := (1 + n.toNat) + 16
  if total ≤ body.length then some total else none

/-- The length the inner octets add up to, when that much is buffered behind the header. -/
def innerLength : Bytes → Option ℕ
  | ty :: _ :: _ :: body =>
      if ty = authType then authInner body
      else if ty = authenticatedType then authenticatedInner body
      else none
  | _ => none

/-- The buffer starts with one of the two frames that carry a payload. -/
def StartsPayloadFrame (b : Bytes) : Prop :=
  b.head? = some authType ∨ b.head? = some authenticatedType

/-- ... and already holds as many bytes as its header declares. -/
def WholeFrame (b : Bytes) : Prop :=
  StartsPayloadFrame b ∧ 3 + declaredLength b ≤ b.length

/-! ## When the inner lengths fit -/

lemma authInner_eq_some_iff {body : Bytes} {total : ℕ} :
    authInner body = some total ↔ ∃ k i t : Bytes, k.length ≤ 255 ∧ i.length ≤ 255 ∧
      body = field k ++ (field i ++ t) ∧ total = (k.length + 1) + (i.length + 1) := by
  refine ⟨fun h => ?_, ?_⟩
  · simp only [authInner, Option.bind_eq_bind, Option.bind_eq_some_iff] at h
    obtain ⟨n, hn, m, hm, htotal⟩ := h
    split_ifs at htotal with hle
    obtain ⟨rest, rfl⟩ := List.head?_eq_some_iff.mp hn
    rw [Nat.add_comm, List.drop_succ_cons] at hm
    obtain ⟨rest', hr⟩ := List.head?_eq_some_iff.mp hm
    have hn255 := n.toNat_lt
    have hm255 := m.toNat_lt
    have hrl := congrArg List.length hr
    simp only [List.length_drop, List.length_cons] at hrl hle
    have hkl : (rest.take n.toNat).length = n.toNat := by rw [List.length_take]; omega
    have hil : (rest'.take m.toNat).length = m.toNat := by rw [List.length_take]; omega
    have hki : (rest.take n.toNat).length ≤ 255 := by omega
    have hii : (rest'.take m.toNat).length ≤ 255 := by omega
    refine ⟨rest.take n.toNat, rest'.take m.toNat, rest'.drop m.toNat, hki, hii, ?_, ?_⟩
    · rw [field, field, hkl, hil, UInt8.ofNat_toNat, UInt8.ofNat_toNat, List.cons_append,
        List.cons_append, List.take_append_drop, ← hr, List.take_append_drop]
    · rw [hkl, hil]
      simp only [Option.some.injEq] at htotal
      omega
  · rintro ⟨k, i, t, hk, hi, rfl, rfl⟩
    have hk' := toNat_ofNat_octet hk
    have hi' := toNat_ofNat_octet hi
    have hd : (field k ++ (field i ++ t)).drop (1 + k.length) = field i ++ t :=
      List.drop_left' (by rw [field_length, Nat.add_comm])
    simp only [authInner, Option.bind_eq_bind, field, List.cons_append, List.head?_cons,
      Option.bind_some, hk'] at hd ⊢
    rw [hd]
    simp only [List.head?_cons, Option.bind_some, hi', List.length_cons, List.length_append]
    rw [if_pos (by omega)]
    simp only [Option.some.injEq]
    omega

lemma authenticatedInner_eq_some_iff {body : Bytes} {total : ℕ} :
    authenticatedInner body = some total ↔ ∃ k u t : Bytes, k.length ≤ 255 ∧ u.length = 16 ∧
      body = field k ++ (u ++ t) ∧ total = (k.length + 1) + 16 := by
  refine ⟨fun h => ?_, ?_⟩
  · simp only [authenticatedInner, Option.bind_eq_bind, Option.bind_eq_some_iff] at h
    obtain ⟨n, hn, htotal⟩ := h
    split_ifs at htotal with hle
    obtain ⟨rest, rfl⟩ := List.head?_eq_some_iff.mp hn
    have hn255 := n.toNat_lt
    simp only [List.length_cons] at hle
    have hkl : (rest.take n.toNat).length = n.toNat := by rw [List.length_take]; omega
    have hki : (rest.take n.toNat).length ≤ 255 := by omega
    have hul : ((rest.drop n.toNat).take 16).length = 16 := by
      rw [List.length_take, List.length_drop]; omega
    refine ⟨rest.take n.toNat, (rest.drop n.toNat).take 16, (rest.drop n.toNat).drop 16, hki, hul,
      ?_, ?_⟩
    · rw [field, hkl, UInt8.ofNat_toNat, List.cons_append, List.take_append_drop,
        List.take_append_drop]
    · rw [hkl]
      simp only [Option.some.injEq] at htotal
      omega
  · rintro ⟨k, u, t, hk, hu, rfl, rfl⟩
    have hk' := toNat_ofNat_octet hk
    simp only [authenticatedInner, Option.bind_eq_bind, field, List.cons_append, List.head?_cons,
      Option.bind_some, hk', List.length_cons, List.length_append]
    rw [if_pos (by omega)]
    simp only [Option.some.injEq]
    omega

/-- The payload reader of either frame returns exactly when the inner lengths fit. -/
lemma payload_returns_iff {ty : UInt8} {rd} (hp : Prefixed ty rd) (hi lo : UInt8) (body : Bytes) :
    (∃ r t, rd body = .ret (r, t)) ↔ (innerLength (ty :: hi :: lo :: body)).isSome := by
  have hne : authenticatedType ≠ authType := by decide
  rw [Option.isSome_iff_exists]
  cases hp with
  | auth =>
      simp only [innerLength, if_true, authInner_eq_some_iff, decodeAuthPayload_eq_ret_iff]
      refine ⟨?_, ?_⟩
      · rintro ⟨r, t, k, i, hk, hi', hb, -⟩
        exact ⟨_, k, i, t, hk, hi', hb, rfl⟩
      · rintro ⟨_, k, i, t, hk, hi', hb, -⟩
        exact ⟨_, t, k, i, hk, hi', hb, rfl⟩
  | authenticated =>
      simp only [innerLength, if_true, if_neg hne, authenticatedInner_eq_some_iff,
        decodeAuthenticatedPayload_eq_ret_iff]
      refine ⟨?_, ?_⟩
      · rintro ⟨r, t, k, u, hk, hu, hb, -⟩
        exact ⟨_, k, u, t, hk, hu, hb, rfl⟩
      · rintro ⟨_, k, u, t, hk, hu, hb, -⟩
        exact ⟨_, t, k, u, hk, hu, hb, rfl⟩

lemma WholeFrame.exists_prefixed {b : Bytes} (h : WholeFrame b) :
    ∃ ty rd hi lo body, Prefixed ty rd ∧ b = ty :: hi :: lo :: body ∧
      ¬ body.length < (fromBeBytes hi lo).toNat := by
  obtain ⟨hty, hlen⟩ := h
  match b, hty, hlen with
  | [], hty, _ => simp [StartsPayloadFrame] at hty
  | [_], _, hlen => simp only [List.length_cons, List.length_nil] at hlen; omega
  | [_, _], _, hlen => simp only [List.length_cons, List.length_nil] at hlen; omega
  | ty :: hi :: lo :: body, hty, hlen =>
      simp only [declaredLength, List.length_cons] at hlen
      simp only [StartsPayloadFrame, List.head?_cons, Option.some.injEq] at hty
      rcases hty with rfl | rfl
      · exact ⟨_, _, hi, lo, body, .auth, rfl, by omega⟩
      · exact ⟨_, _, hi, lo, body, .authenticated, rfl, by omega⟩

/-- The decoder comes to a verdict: a frame or an error, and no panic. -/
def DecodesOrRejects (b : Bytes) : Prop :=
  ∃ r rest, decode b = .ret (r, rest) ∧ r ≠ .ok none

/-- **On a frame that has wholly arrived** the decoder comes to a verdict if and only if the
bytes its inner lengths promise are buffered; otherwise it panics. -/
theorem decode_whole_frame_iff (b : Bytes) (h : WholeFrame b) :
    DecodesOrRejects b ↔ (innerLength b).isSome := by
  obtain ⟨ty, rd, hi, lo, body, hp, rfl, hlen⟩ := h.exists_prefixed
  rw [← payload_returns_iff hp, DecodesOrRejects, decode_prefixed hp, if_neg hlen]
  exact ⟨fun ⟨r, t, hr, _⟩ => ⟨r, t, hr⟩, fun ⟨r, t, hr⟩ => ⟨r, t, hr, payload_ne_none hp hr⟩⟩

/-- An `Auth` frame of two one-letter fields, followed by a stray byte. -/
theorem decode_whole_frame_ab : DecodesOrRejects [0, 0, 4, 1, 97, 1, 98, 7] :=
  (decode_whole_frame_iff [0, 0, 4, 1, 97, 1, 98, 7] ⟨Or.inl rfl, by decide⟩).mpr rfl

/-- A header declaring an empty payload is a whole frame, and its first inner octet is missing. -/
theorem decode_empty_payload_panics :
    WholeFrame [0, 0, 0] ∧ decode [0, 0, 0] = .panic ∧ ¬ DecodesOrRejects [0, 0, 0] := by
  have hd : decode [0, 0, 0] = .panic := rfl
  refine ⟨⟨Or.inl rfl, by decide⟩, hd, ?_⟩
  rintro ⟨r, rest, hr, -⟩
  rw [hd] at hr
  cases hr

/-! ## When the frame boundary is kept -/

lemma putU16_eq_iff {ty hi lo : UInt8} {n : ℕ} (hn : n < 2 ^ 16) :
    putU16 [ty] (UInt16.ofNat n) = [ty, hi, lo] ↔ n = (fromBeBytes hi lo).toNat := by
  have hnat : (UInt16.ofNat n).toNat = n := by rw [UInt16.toNat_ofNat']; omega
  refine ⟨fun h => ?_, fun h => ?_⟩
  · simp only [putU16, List.cons_append, List.nil_append, List.cons.injEq, and_true, true_and] at h
    rw [← h.1, ← h.2, fromBeBytes_split, hnat]
  · have he : UInt16.ofNat n = fromBeBytes hi lo := UInt16.toNat_inj.mp (by rw [hnat, h])
    rw [putU16, he, List.cons_append, List.nil_append, split_fromBeBytes]

/-- What was taken off the buffer is the encoding of what was delivered, and for a frame with a
payload that is the declared frame. -/
def TookItsEncoding (b : Bytes) (f : FrameV1) (rest : Bytes) : Prop :=
  ∃ w, encode f [] = .ok w ∧ b = w ++ rest ∧
    (f.hasPayload = true → w.length = 3 + declaredLength b)

/-- The case of a payload frame: the inner lengths are what the fields say, so everything turns
on the two octets of the header. -/
lemma tookItsEncoding_payload_iff {ty hi lo : UInt8} {payload rest : Bytes} {f : FrameV1}
    (hf : frameBytes f = putU16 [ty] (UInt16.ofNat payload.length) ++ payload)
    (hl : payload.length < 2 ^ 16) :
    TookItsEncoding (ty :: hi :: lo :: (payload ++ rest)) f rest ↔
      payload.length = (fromBeBytes hi lo).toNat := by
  have hlen : (putU16 [ty] (UInt16.ofNat payload.length)).length = 3 := rfl
  have hcons : ty :: hi :: lo :: (payload ++ rest) = [ty, hi, lo] ++ (payload ++ rest) := rfl
  rw [TookItsEncoding, encode_eq, List.nil_append, hf]
  refine ⟨?_, fun h => ⟨_, rfl, ?_, fun _ => ?_⟩⟩
  · rintro ⟨w, hw, hb, -⟩
    rw [← Except.ok.inj hw, List.append_assoc, hcons] at hb
    exact (putU16_eq_iff hl).mp (List.append_inj hb rfl).1.symm
  · rw [(putU16_eq_iff hl).mpr h, List.append_assoc]
    rfl
  · rw [List.length_append, hlen, declaredLength, h]

/-- **The decoder keeps to the frame boundary exactly when the lengths agree.**  Whenever it
delivers a frame, the bytes taken are those `encode` writes for it — and, for a frame with a
payload, the declared frame — if and only if the declared length is what the inner lengths add
up to. -/
theorem decode_canonical_iff (b rest : Bytes) (f : FrameV1)
    (h : decode b = .ret (.ok (some f), rest)) :
    TookItsEncoding b f rest ↔
      (StartsPayloadFrame b → innerLength b = some (declaredLength b)) := by
  have hne : authenticatedType ≠ authType := by decide
  rcases decode_some_cases h with ⟨rfl, rfl⟩ | ⟨rfl, rfl⟩ | ⟨hi, lo, k, i, rfl, rfl⟩ |
    ⟨hi, lo, u, s, rfl, rfl⟩
  · refine iff_of_true ⟨_, rfl, rfl, fun hp => by cases hp⟩ fun hs => ?_
    rcases hs with hs | hs <;> exact absurd (Option.some.inj hs) (by decide)
  · refine iff_of_true ⟨_, rfl, rfl, fun hp => by cases hp⟩ fun hs => ?_
    rcases hs with hs | hs <;> exact absurd (Option.some.inj hs) (by decide)
  · have hk := k.length_le
    have hi' := i.length_le
    have hin : innerLength (authType :: hi :: lo ::
        (field (asBytes k.toStr) ++ (field (asBytes i.toStr) ++ rest))) =
        some (field (asBytes k.toStr) ++ field (asBytes i.toStr)).length := by
      simp only [innerLength, if_true]
      exact authInner_eq_some_iff.mpr ⟨_, _, _, hk, hi', rfl, by simp⟩
    rw [hin, ← List.append_assoc, tookItsEncoding_payload_iff rfl (by simp; omega), declaredLength,
      Option.some.injEq]
    exact ⟨fun he _ => he, fun he => he (Or.inl rfl)⟩
  · have hs := s.length_le
    have hu := u.asBytes_length
    have hin : innerLength (authenticatedType :: hi :: lo ::
        (field (asBytes s.toStr) ++ (u.asBytes ++ rest))) =
        some (field (asBytes s.toStr) ++ u.asBytes).length := by
      simp only [innerLength, if_neg hne, if_true]
      exact authenticatedInner_eq_some_iff.mpr ⟨_, _, _, hs, hu, rfl, by simp [hu]⟩
    rw [hin, ← List.append_assoc, tookItsEncoding_payload_iff rfl (by simp; omega), declaredLength,
      Option.some.injEq]
    exact ⟨fun he _ => he, fun he => he (Or.inr rfl)⟩

/-- An `Auth` frame that declares the length it has. -/
theorem decode_canonical_ab :
    TookItsEncoding [0, 0, 4, 1, 97, 1, 98, 7]
      (.auth ⟨"a", by decide, by decide⟩ ⟨"b", by decide, by decide⟩) [7] :=
  (decode_canonical_iff [0, 0, 4, 1, 97, 1, 98, 7] [7] _ rfl).mpr fun _ => rfl

/-- An `Auth` frame that declares two bytes and takes four: the two behind the declared frame are
consumed with it, and `encode` writes a different header for the frame delivered. -/
theorem decode_crosses_boundary :
    decode [0, 0, 2, 1, 97, 1, 98] =
        .ret (.ok (some (.auth ⟨"a", by decide, by decide⟩ ⟨"b", by decide, by decide⟩)), []) ∧
      encode (.auth ⟨"a", by decide, by decide⟩ ⟨"b", by decide, by decide⟩) [] =
        .ok [0, 0, 4, 1, 97, 1, 98] ∧
      ¬ TookItsEncoding [0, 0, 2, 1, 97, 1, 98]
        (.auth ⟨"a", by decide, by decide⟩ ⟨"b", by decide, by decide⟩) [] := by
  refine ⟨rfl, rfl, ?_⟩
  rintro ⟨w, hw, hb, -⟩
  rw [← Except.ok.inj hw] at hb
  exact absurd hb (by decide)

/-- Declaring too much leaves bytes behind instead, which are then read as the next frame. -/
example : decodeTimes 2 [0, 0, 5, 1, 97, 1, 98, 3] =
    .ret ([.ok (some (.auth ⟨"a", by decide, by decide⟩ ⟨"b", by decide, by decide⟩)),
      .ok (some .ping)], []) := rfl

end Siffleux
