import Siffleux.Common.Frames.Lengths
import Siffleux.Foundation.FramedRead

/-!
# When the decoder decides

`CodecV1::decode` is called again after every read, on a buffer that has only grown.  Two questions
about that: whether it may still change its mind, and whether it will ever make it up.

* `decode_final` — a frame or an error is decided once for all: more bytes change nothing but what
  is left behind it.
* `payload_returns_of_long` — behind the header of a payload frame 512 bytes are always enough.
* `decode_helped_iff` — a buffer that the decoder waits on can still be helped exactly when it
  starts with one of the two payload frames.  On an unknown type octet the decoder waits for ever.
-/

namespace Siffleux

open ByteBuf Framing

/-! ## A decision is final -/

/-- A payload is read by its own lengths, so what follows stays behind. -/
lemma payload_append {ty : UInt8} {rd} (hp : Prefixed ty rd) {body rest : Bytes}
    {r : Except Error (Option FrameV1)} (h : rd body = .ret (r, rest)) (t : Bytes) :
    ∃ taken, body = taken ++ rest ∧ rd (body ++ t) = .ret (r, rest ++ t) := by
  cases hp with
  | auth =>
      obtain ⟨k, i, hk, hi, rfl, rfl⟩ := decodeAuthPayload_eq_ret_iff.mp h
      refine ⟨field k ++ field i, (List.append_assoc ..).symm, ?_⟩
      exact decodeAuthPayload_eq_ret_iff.mpr
        ⟨k, i, hk, hi, by simp only [List.append_assoc], rfl⟩
  | authenticated =>
      obtain ⟨k, u, hk, hu, rfl, rfl⟩ := decodeAuthenticatedPayload_eq_ret_iff.mp h
      refine ⟨field k ++ u, (List.append_assoc ..).symm, ?_⟩
      exact decodeAuthenticatedPayload_eq_ret_iff.mpr
        ⟨k, u, hk, hu, by simp only [List.append_assoc], rfl⟩

/-- **A decoding decision never changes when more bytes arrive**: the frame or the error stays, and
so do the bytes taken for it. -/
theorem decode_final (b t rest : Bytes) (r : Except Error (Option FrameV1))
    (h : decode b = .ret (r, rest)) (hr : r ≠ .ok none) :
    ∃ taken, b = taken ++ rest ∧ decode (b ++ t) = .ret (r, rest ++ t) := by
  rcases decode_cases h with ⟨hn, -⟩ | ⟨rfl, rfl⟩ | ⟨rfl, rfl⟩ | ⟨ty, rd, hi, lo, body, hp, rfl, hb⟩
  · exact absurd hn hr
  · exact ⟨[pingType], rfl, decode_ping _⟩
  · exact ⟨[pongType], rfl, decode_pong _⟩
  · -- the declared length was there before `t`, so it is there with `t`
    have hlen : ¬ body.length < (fromBeBytes hi lo).toNat := by
      intro hlt
      rw [decode_prefixed hp, if_pos hlt] at h
      cases h
      exact hr rfl
    obtain ⟨taken, rfl, hbt⟩ := payload_append hp hb t
    refine ⟨ty :: hi :: lo :: taken, rfl, ?_⟩
    rw [List.cons_append, List.cons_append, List.cons_append, decode_prefixed hp, if_neg ?_, hbt]
    rw [List.length_append]
    omega

/-- An `Auth` frame whose ingress id is empty, and a `Ping` arriving behind it. -/
theorem decode_final_rejected : ∃ taken : Bytes, [0, 0, 3, 1, 97, 0] = taken ++ [] ∧
    decode ([0, 0, 3, 1, 97, 0] ++ [3]) =
      .ret (.error (.invalidIngressId "Ingress ID has to be between 1 and 255 UTF8 bytes."),
        [] ++ [3]) :=
  decode_final [0, 0, 3, 1, 97, 0] [3] []
    (.error (.invalidIngressId "Ingress ID has to be between 1 and 255 UTF8 bytes.")) rfl (by simp)

/-! ## Waiting -/

/-- The two octets of an `Auth` payload promise 510 bytes at most, and the one of an `Authenticated`
payload 271. -/
lemma payload_returns_of_long {ty : UInt8} {rd} (hp : Prefixed ty rd) {body : Bytes}
    (h : 512 ≤ body.length) : ∃ r rest, rd body = .ret (r, rest) := by
  rw [payload_returns_iff hp 0 0 body]
  obtain ⟨n, body', rfl⟩ := List.exists_cons_of_length_pos (l := body) (by omega)
  have hn := n.toNat_lt
  rw [List.length_cons] at h
  cases hp with
  | auth =>
      have hdrop : 0 < (body'.drop n.toNat).length := by
        rw [List.length_drop]
        omega
      obtain ⟨m, body'', hm⟩ := List.exists_cons_of_length_pos hdrop
      have hm255 := m.toNat_lt
      simp only [innerLength, if_true, authInner, Option.bind_eq_bind, List.head?_cons,
        Option.bind_some, Nat.add_comm 1 n.toNat, List.drop_succ_cons, hm, List.length_cons]
      rw [if_pos (by omega)]
      rfl
  | authenticated =>
      have hne : authenticatedType ≠ authType := by decide
      simp only [innerLength, if_neg hne, if_true, authenticatedInner, Option.bind_eq_bind,
        List.head?_cons, Option.bind_some, List.length_cons]
      rw [if_pos (by omega)]
      rfl

/-- A type octet that no frame has is never taken off the buffer. -/
lemma decode_unknown {b : Bytes} (hb : b ≠ []) (h : decode b = .ret (.ok none, b))
    (hs : ¬ StartsPayloadFrame b) (t : Bytes) :
    decode (b ++ t) = .ret (.ok none, b ++ t) := by
  obtain ⟨ty, bs, rfl⟩ := List.exists_cons_of_ne_nil hb
  simp only [StartsPayloadFrame, List.head?_cons, Option.some.injEq, not_or] at hs
  have hping : ty ≠ pingType := by
    rintro rfl
    rw [decode_ping] at h
    cases h
  have hpong : ty ≠ pongType := by
    rintro rfl
    rw [decode_pong] at h
    cases h
  exact decode_other (bs ++ t) hs.1 hs.2 hping hpong

lemma StartsPayloadFrame.exists_prefixed {b : Bytes} (h : StartsPayloadFrame b) :
    ∃ ty rd bs, Prefixed ty rd ∧ b = ty :: bs := by
  rcases h with h | h <;> obtain ⟨bs, rfl⟩ := List.head?_eq_some_iff.mp h
  · exact ⟨_, _, bs, .auth, rfl⟩
  · exact ⟨_, _, bs, .authenticated, rfl⟩

/-- A payload frame that is waited for has its header, and is decided once there is enough. -/
lemma decode_helped {b : Bytes} (h : decode b = .ret (.ok none, b)) (hs : StartsPayloadFrame b) :
    ∃ t, DecodesOrRejects (b ++ t) := by
  obtain ⟨ty, rd, bs, hp, rfl⟩ := hs.exists_prefixed
  match bs, h with
  | [], h => rw [decode_prefixed_short hp (by simp)] at h; cases h
  | [_], h => rw [decode_prefixed_short hp (by simp)] at h; cases h
  | hi :: lo :: body, _ =>
      have hdeclared := (fromBeBytes hi lo).toNat_lt
      have hlen : 2 ^ 16 ≤ (body ++ List.replicate (2 ^ 16) 0).length := by
        rw [List.length_append, List.length_replicate]
        omega
      obtain ⟨r, rest, hr⟩ := payload_returns_of_long hp (Nat.le_trans (by decide) hlen)
      refine ⟨List.replicate (2 ^ 16) 0, r, rest, ?_, payload_ne_none hp hr⟩
      rw [List.cons_append, List.cons_append, List.cons_append, decode_prefixed hp,
        if_neg (by omega), hr]

/-- Some continuation gets a frame or an error out of the buffer. -/
def CanBeHelped (b : Bytes) : Prop := ∃ t, DecodesOrRejects (b ++ t)

/-- The same of a reader: some reads get an item out of it. -/
def ReaderCanBeHelped (leftover : Error) (r : FramedRead) : Prop :=
  ∃ reads item r', r.listen codecV1.toStreamDecoder leftover reads = .ret (some item, r')

/-- The reader waits on a buffer as long as the decoder does. -/
lemma firstItem_unknown {b : Bytes} (hb : b ≠ []) (h : decode b = .ret (.ok none, b))
    (hs : ¬ StartsPayloadFrame b) : ∀ reads : List Bytes,
    codecV1.firstItem b reads = .ret none := by
  intro reads
  induction reads generalizing b with
  | nil => rfl
  | cons c reads ih =>
      have hd := decode_unknown hb h hs c
      have hs' : ¬ StartsPayloadFrame (b ++ c) := by
        rwa [StartsPayloadFrame, List.head?_append_of_ne_nil b hb]
      rw [StreamDecoder.firstItem, show codecV1.decode (b ++ c) = decode (b ++ c) from rfl, hd]
      exact ih (by simp [hb]) hd hs'

/-- **The decoder waits for bytes that can help exactly behind the type octet of a payload frame.**
For every buffer that `decode` waits on, some continuation gets a frame or an error out of it if and
only if the buffer starts with an `Auth` or an `Authenticated` frame; and the same is true of a
`FramedRead` that has polled such a buffer, whatever it delivered before. -/
theorem decode_helped_iff (leftover : Error) :
    (∀ b : Bytes, b ≠ [] → decode b = .ret (.ok none, b) →
      (CanBeHelped b ↔ StartsPayloadFrame b)) ∧
    ∀ r r' : FramedRead, r.hasErrored = false → r.isReadable = true →
      r.poll codecV1.toStreamDecoder leftover = .ret (.pending, r') → r'.buffer ≠ [] →
        (ReaderCanBeHelped leftover r' ↔ StartsPayloadFrame r'.buffer) := by
  refine ⟨fun b hb h => ⟨?_, decode_helped h⟩, fun r r' he hr hpoll hb => ?_⟩
  · rintro ⟨t, r, rest, hd, hne⟩
    by_contra hs
    rw [decode_unknown hb h hs t] at hd
    cases hd
    exact hne rfl
  · obtain ⟨hd, he'⟩ := FramedRead.buffer_of_poll_pending he hr hpoll
    have hd' : decode r'.buffer = .ret (.ok none, r'.buffer) := by
      rw [← decode_none_keeps hd] at hd
      exact hd
    constructor
    · rintro ⟨reads, item, r'', hl⟩
      by_contra hs
      have hf : (r'.listen codecV1.toStreamDecoder leftover reads).map Prod.fst =
          codecV1.firstItem r'.buffer reads := FramedRead.listen_eq_firstItem reads he'
      rw [hl, firstItem_unknown hb hd' hs reads] at hf
      cases hf
    · intro hs
      obtain ⟨t, d, rest, hdec, hne⟩ := decode_helped hd' hs
      have hf : (r'.listen codecV1.toStreamDecoder leftover [t]).map Prod.fst =
          codecV1.firstItem r'.buffer [t] := FramedRead.listen_eq_firstItem [t] he'
      rw [StreamDecoder.firstItem, show codecV1.decode (r'.buffer ++ t) = _ from hdec] at hf
      have hitem : ∃ item, (r'.listen codecV1.toStreamDecoder leftover [t]).map Prod.fst =
          .ret (some item) := by
        rcases d with e | _ | f
        · exact ⟨.error e, hf⟩
        · exact absurd rfl hne
        · exact ⟨.ok f, hf⟩
      obtain ⟨item, hitem⟩ := hitem
      obtain ⟨⟨i, r''⟩, hl, rfl⟩ := Outcome.map_eq_ret_iff.mp hitem
      exact ⟨[t], item, r'', hl⟩

/-- An `Auth` frame of which the header has arrived. -/
theorem decode_helped_header : CanBeHelped [0, 0, 4] ∧
    ReaderCanBeHelped .connectionClosed ⟨[0, 0, 4], false, false, false⟩ :=
  ⟨((decode_helped_iff .connectionClosed).1 [0, 0, 4] (by simp) rfl).mpr (Or.inl rfl),
    ((decode_helped_iff .connectionClosed).2 ⟨[0, 0, 4], true, false, false⟩ _ rfl rfl rfl
      (by simp)).mpr (Or.inl rfl)⟩

/-- A type octet of 2 stalls the decoder, whatever is sent behind it. -/
theorem unknown_type_stalls : decode [2] = .ret (.ok none, [2]) ∧ ¬ CanBeHelped [2] ∧
    (∀ t, decode ([2] ++ t) = .ret (.ok none, [2] ++ t)) ∧
    ¬ ReaderCanBeHelped .connectionClosed ⟨[2], false, false, false⟩ := by
  have hd : decode [2] = .ret (.ok none, [2]) := rfl
  have hs : ¬ StartsPayloadFrame [2] := by
    rintro (h | h)
    · exact absurd (Option.some.inj h) (by decide)
    · exact absurd (Option.some.inj h) (by decide)
  refine ⟨hd, ?_, decode_unknown (by simp) hd hs, ?_⟩
  · rintro ⟨t, r, rest, ht, hne⟩
    rw [decode_unknown (by simp) hd hs t] at ht
    cases ht
    exact hne rfl
  · rintro ⟨reads, item, r', hl⟩
    have hf : ((⟨[2], false, false, false⟩ : FramedRead).listen codecV1.toStreamDecoder
        .connectionClosed reads).map Prod.fst = codecV1.firstItem [2] reads :=
      FramedRead.listen_eq_firstItem reads rfl
    rw [hl, firstItem_unknown (by simp) hd hs reads] at hf
    cases hf

end Siffleux
