import Siffleux.Common.Identifiers
import Siffleux.Foundation.Framing

/-!
# The frames of the command stream

`common/frames/v1.rs`: the four frames, `CodecV1::encode` and `CodecV1::decode`.

Two frames carry a payload behind a big-endian `u16`, and inside it byte strings behind one-octet
lengths.  `decode` waits until the declared payload has arrived and from then on follows the
inner lengths, so three numbers chosen by the sender meet in one function.  The lemmas of this
file say what `decode` does on every buffer, branch by branch: `decode_prefixed` for the header,
`decodeAuthPayload_eq_ret_iff` and `decodeAuthenticatedPayload_eq_ret_iff` for the payloads.
Everything proved about the codec elsewhere goes through them.
-/

namespace Siffleux

open ByteBuf Framing

def authType : UInt8 := 0
def authenticatedType : UInt8 := 1
def pingType : UInt8 := 3
def pongType : UInt8 := 4

/-- The sixteen bytes of a `Uuid`. -/
structure Uuid where
  bytes : Vector UInt8 16
  deriving DecidableEq, Repr

/-- `Uuid::as_bytes`. -/
def Uuid.asBytes (u : Uuid) : Bytes := u.bytes.toList

/-- `Uuid::from_slice`, with the conversion `?` applies to its error. -/
def Uuid.fromSlice (b : Bytes) : Except Error Uuid :=
  if h : b.length = 16 then .ok ⟨⟨b.toArray, by simp [h]⟩⟩
  else .error (.unknown (.uuid b.length))

inductive FrameV1 where
  | auth (authKey : AuthKey) (ingressId : IngressId)
  | authenticated (tunnelId : Uuid) (serverId : ServerId)
  | ping
  | pong
  deriving DecidableEq

/-! ## Encoding -/

/-- `CodecV1::encode`, appending to `dst`. -/
def encode (item : FrameV1) (dst : Bytes) : Except Error Bytes :=
  match item with
  | .auth authKey ingressId =>
      let authKeyBytes := asBytes authKey.toStr
      let ingressIdBytes := asBytes ingressId.toStr
      let payloadLength := (1 + authKeyBytes.length) + (1 + ingressIdBytes.length)
      let dst := putU8 dst authType
      let dst := putU16 dst (UInt16.ofNat payloadLength)
      let dst := putU8 dst (UInt8.ofNat authKeyBytes.length)
      let dst := putSlice dst authKeyBytes
      let dst := putU8 dst (UInt8.ofNat ingressIdBytes.length)
      .ok (putSlice dst ingressIdBytes)
  | .authenticated tunnelId serverId =>
      let serverIdBytes := asBytes serverId.toStr
      let payloadLength := (1 + serverIdBytes.length) + 16
      let dst := putU8 dst authenticatedType
      let dst := putU16 dst (UInt16.ofNat payloadLength)
      let dst := putU8 dst (UInt8.ofNat serverIdBytes.length)
      let dst := putSlice dst serverIdBytes
      .ok (putSlice dst tunnelId.asBytes)
  | .ping => .ok (putU8 dst pingType)
  | .pong => .ok (putU8 dst pongType)

/-! ## Decoding -/

/-- The identifiers of an `Auth` frame are validated only after all its bytes are taken. -/
def authFrame (authKeyBytes ingressIdBytes : Bytes) : Except Error (Option FrameV1) := do
  let authKey ← AuthKey.fromBytes authKeyBytes
  let ingressId ← IngressId.fromBytes ingressIdBytes
  return some (.auth authKey ingressId)

def authenticatedFrame (serverIdBytes tunnelIdBytes : Bytes) :
    Except Error (Option FrameV1) := do
  let serverId ← ServerId.fromBytes serverIdBytes
  let tunnelId ← Uuid.fromSlice tunnelIdBytes
  return some (.authenticated tunnelId serverId)

/-- The `AUTH_TYPE` arm of `decode` after the header has been skipped. -/
def decodeAuthPayload : Reader (Except Error (Option FrameV1)) := do
  let authKeyLen ← getU8
  let authKeyBytes ← splitTo authKeyLen.toNat
  let ingressIdLen ← getU8
  let ingressIdBytes ← splitTo ingressIdLen.toNat
  return authFrame authKeyBytes ingressIdBytes

/-- The `AUTHENTICATED_TYPE` arm of `decode` after the header has been skipped. -/
def decodeAuthenticatedPayload : Reader (Except Error (Option FrameV1)) := do
  let serverIdLen ← getU8
  let serverIdBytes ← splitTo serverIdLen.toNat
  let tunnelIdBytes ← splitTo 16
  return authenticatedFrame serverIdBytes tunnelIdBytes

/-- `CodecV1::decode`. -/
def decode : Reader (Except Error (Option FrameV1)) := do
  let srcLen ← remaining
  if srcLen = 0 then return .ok none
  else
    let frameType ← byteAt 0
    if frameType = authType then
      let payloadLength := (fromBeBytes (← byteAt 1) (← byteAt 2)).toNat
      if srcLen < 1 + 2 + payloadLength then return .ok none
      else
        advance 3
        decodeAuthPayload
    else if frameType = authenticatedType then
      let payloadLength := (fromBeBytes (← byteAt 1) (← byteAt 2)).toNat
      if srcLen < 1 + 2 + payloadLength then return .ok none
      else
        advance 3
        decodeAuthenticatedPayload
    else if frameType = pingType then
      advance 1
      return .ok (some .ping)
    else if frameType = pongType then
      advance 1
      return .ok (some .pong)
    else return .ok none

/-! ## What `decode` does, branch by branch -/

/-- The two frame types with a payload, and the reader of each payload. -/
inductive Prefixed : UInt8 → Reader (Except Error (Option FrameV1)) → Prop
  | auth : Prefixed authType decodeAuthPayload
  | authenticated : Prefixed authenticatedType decodeAuthenticatedPayload

lemma decode_nil : decode [] = .ret (.ok none, []) := rfl

@[simp] lemma decode_ping (b : Bytes) :
    decode (pingType :: b) = .ret (.ok (some .ping), b) := rfl

@[simp] lemma decode_pong (b : Bytes) :
    decode (pongType :: b) = .ret (.ok (some .pong), b) := rfl

lemma decode_other {ty : UInt8} (b : Bytes) (h₁ : ty ≠ authType) (h₂ : ty ≠ authenticatedType)
    (h₃ : ty ≠ pingType) (h₄ : ty ≠ pongType) :
    decode (ty :: b) = .ret (.ok none, ty :: b) := by
  simp only [decode, Reader.bind_apply, remaining_apply, Outcome.bind_ret, List.length_cons,
    Nat.succ_ne_zero, if_false, byteAt_zero_cons, h₁, h₂, h₃, h₄, Reader.pure_apply]

/-- A payload frame whose length octets have not both arrived: `src[1]` or `src[2]` panics. -/
lemma decode_prefixed_short {ty : UInt8} {rd : Reader (Except Error (Option FrameV1))}
    (h : Prefixed ty rd) {b : Bytes} (hb : b.length < 2) : decode (ty :: b) = .panic := by
  match b, hb with
  | [], _ => cases h <;> rfl
  | [_], _ => cases h <;> rfl

/-- A payload frame with its header: wait for the declared length, then read the payload. -/
lemma decode_prefixed {ty : UInt8} {rd : Reader (Except Error (Option FrameV1))}
    (h : Prefixed ty rd) (hi lo : UInt8) (body : Bytes) :
    decode (ty :: hi :: lo :: body) =
      if body.length < (fromBeBytes hi lo).toNat then .ret (.ok none, ty :: hi :: lo :: body)
      else rd body := by
  have hlen : (body.length + 1 + 1 + 1 < 1 + 2 + (fromBeBytes hi lo).toNat) ↔
      body.length < (fromBeBytes hi lo).toNat := by omega
  have hne : authenticatedType ≠ authType := by decide
  have h1 : byteAt 1 (ty :: hi :: lo :: body) = .ret (hi, ty :: hi :: lo :: body) := rfl
  have h2 : byteAt 2 (ty :: hi :: lo :: body) = .ret (lo, ty :: hi :: lo :: body) := rfl
  have h3 : advance 3 (ty :: hi :: lo :: body) = .ret ((), body) := by simp [advance]
  cases h <;>
    simp only [decode, Reader.bind_apply, remaining_apply, Outcome.bind_ret, List.length_cons,
      Nat.succ_ne_zero, if_false, byteAt_zero_cons, hne, if_true, h1, h2, h3, hlen,
      Reader.ite_apply, Reader.pure_apply]

/-- Reading the first payload is reading two fields. -/
lemma decodeAuthPayload_apply (b : Bytes) :
    decodeAuthPayload b = (getField b).bind fun k =>
      (getField k.2).bind fun i => .ret (authFrame k.1 i.1, i.2) := by
  simp only [decodeAuthPayload, getField, Reader.bind_apply]
  cases getU8 b with
  | panic => rfl
  | ret n =>
      simp only [Outcome.bind_ret]
      cases splitTo n.1.toNat n.2 with
      | panic => rfl
      | ret k =>
          simp only [Outcome.bind_ret]
          cases getU8 k.2 with
          | panic => rfl
          | ret m => rfl

lemma decodeAuthenticatedPayload_apply (b : Bytes) :
    decodeAuthenticatedPayload b = (getField b).bind fun k =>
      (splitTo 16 k.2).bind fun u => .ret (authenticatedFrame k.1 u.1, u.2) := by
  simp only [decodeAuthenticatedPayload, getField, Reader.bind_apply]
  cases getU8 b <;> rfl

/-- **The `Auth` payload** is read exactly where two fields stand. -/
theorem decodeAuthPayload_eq_ret_iff {b t : Bytes} {r : Except Error (Option FrameV1)} :
    decodeAuthPayload b = .ret (r, t) ↔ ∃ k i : Bytes, k.length ≤ 255 ∧ i.length ≤ 255 ∧
      b = field k ++ (field i ++ t) ∧ r = authFrame k i := by
  rw [decodeAuthPayload_apply]
  refine ⟨fun h => ?_, ?_⟩
  · cases hk : getField b with
    | panic => simp [hk] at h
    | ret k =>
        obtain ⟨k, b₁⟩ := k
        simp only [hk, Outcome.bind_ret] at h
        cases hi : getField b₁ with
        | panic => simp [hi] at h
        | ret i =>
            obtain ⟨i, b₂⟩ := i
            simp only [hi, Outcome.bind_ret, Outcome.ret.injEq, Prod.mk.injEq] at h
            obtain ⟨rfl, rfl⟩ := h
            obtain ⟨hkl, rfl⟩ := getField_eq_ret_iff.mp hk
            obtain ⟨hil, rfl⟩ := getField_eq_ret_iff.mp hi
            exact ⟨k, i, hkl, hil, rfl, rfl⟩
  · rintro ⟨k, i, hk, hi, rfl, rfl⟩
    rw [getField_field hk, Outcome.bind_ret, getField_field hi, Outcome.bind_ret]

/-- **The `Authenticated` payload** is read exactly where a field and sixteen bytes stand. -/
theorem decodeAuthenticatedPayload_eq_ret_iff {b t : Bytes} {r : Except Error (Option FrameV1)} :
    decodeAuthenticatedPayload b = .ret (r, t) ↔ ∃ k u : Bytes, k.length ≤ 255 ∧ u.length = 16 ∧
      b = field k ++ (u ++ t) ∧ r = authenticatedFrame k u := by
  rw [decodeAuthenticatedPayload_apply]
  refine ⟨fun h => ?_, ?_⟩
  · cases hk : getField b with
    | panic => simp [hk] at h
    | ret k =>
        obtain ⟨k, b₁⟩ := k
        simp only [hk, Outcome.bind_ret] at h
        cases hu : splitTo 16 b₁ with
        | panic => simp [hu] at h
        | ret u =>
            obtain ⟨u, b₂⟩ := u
            simp only [hu, Outcome.bind_ret, Outcome.ret.injEq, Prod.mk.injEq] at h
            obtain ⟨rfl, rfl⟩ := h
            obtain ⟨hkl, rfl⟩ := getField_eq_ret_iff.mp hk
            obtain ⟨hul, rfl⟩ := splitTo_eq_ret_iff.mp hu
            exact ⟨k, u, hkl, hul, rfl, rfl⟩
  · rintro ⟨k, u, hk, hu, rfl, rfl⟩
    rw [getField_field hk, Outcome.bind_ret, ← hu, splitTo_append, Outcome.bind_ret]

/-! ## Which frames the payloads give -/

lemma authFrame_eq_some_iff {k i : Bytes} {f : FrameV1} :
    authFrame k i = .ok (some f) ↔ ∃ authKey ingressId, k = asBytes authKey.toStr ∧
      i = asBytes ingressId.toStr ∧ f = .auth authKey ingressId := by
  refine ⟨fun h => ?_, ?_⟩
  · simp only [authFrame, bind, Except.bind, pure, Except.pure] at h
    cases hk : AuthKey.fromBytes k with
    | error e => simp [hk] at h
    | ok authKey =>
        cases hi : IngressId.fromBytes i with
        | error e => simp [hk, hi] at h
        | ok ingressId =>
            simp only [hk, hi, Except.ok.injEq, Option.some.injEq] at h
            exact ⟨authKey, ingressId, Validator.fromBytes_eq_ok_iff.mp hk,
              Validator.fromBytes_eq_ok_iff.mp hi, h.symm⟩
  · rintro ⟨authKey, ingressId, rfl, rfl, rfl⟩
    rw [authFrame, AuthKey.fromBytes, IngressId.fromBytes, Validator.fromBytes_asBytes,
      Validator.fromBytes_asBytes]
    rfl

lemma Uuid.asBytes_length (u : Uuid) : u.asBytes.length = 16 := u.bytes.length_toList

lemma Uuid.fromSlice_eq_ok_iff {b : Bytes} {u : Uuid} :
    Uuid.fromSlice b = .ok u ↔ b = u.asBytes := by
  refine ⟨fun h => ?_, ?_⟩
  · rw [Uuid.fromSlice] at h
    split_ifs at h with hl
    simp only [Except.ok.injEq] at h
    subst h
    rfl
  · rintro rfl
    rw [Uuid.fromSlice, dif_pos u.asBytes_length]
    rfl

lemma authenticatedFrame_eq_some_iff {k u : Bytes} {f : FrameV1} :
    authenticatedFrame k u = .ok (some f) ↔ ∃ tunnelId serverId, k = asBytes serverId.toStr ∧
      u = tunnelId.asBytes ∧ f = .authenticated tunnelId serverId := by
  refine ⟨fun h => ?_, ?_⟩
  · simp only [authenticatedFrame, bind, Except.bind, pure, Except.pure] at h
    cases hk : ServerId.fromBytes k with
    | error e => simp [hk] at h
    | ok serverId =>
        cases hu : Uuid.fromSlice u with
        | error e => simp [hk, hu] at h
        | ok tunnelId =>
            simp only [hk, hu, Except.ok.injEq, Option.some.injEq] at h
            exact ⟨tunnelId, serverId, Validator.fromBytes_eq_ok_iff.mp hk,
              Uuid.fromSlice_eq_ok_iff.mp hu, h.symm⟩
  · rintro ⟨tunnelId, serverId, rfl, rfl, rfl⟩
    rw [authenticatedFrame, ServerId.fromBytes, Validator.fromBytes_asBytes,
      Uuid.fromSlice_eq_ok_iff.mpr rfl]
    rfl

/-- A payload never asks for more bytes: it gives a frame or an error. -/
lemma authFrame_ne_none (k i : Bytes) : authFrame k i ≠ .ok none := by
  simp only [authFrame, bind, Except.bind, pure, Except.pure]
  cases AuthKey.fromBytes k with
  | error e => simp
  | ok _ => cases IngressId.fromBytes i <;> simp

lemma authenticatedFrame_ne_none (k u : Bytes) : authenticatedFrame k u ≠ .ok none := by
  simp only [authenticatedFrame, bind, Except.bind, pure, Except.pure]
  cases ServerId.fromBytes k with
  | error e => simp
  | ok _ => cases Uuid.fromSlice u <;> simp

/-- The payload reader of either frame gives a frame or an error, never "not yet". -/
lemma payload_ne_none {ty : UInt8} {rd} (hp : Prefixed ty rd) {body t : Bytes}
    {r : Except Error (Option FrameV1)} (h : rd body = .ret (r, t)) : r ≠ .ok none := by
  cases hp with
  | auth =>
      obtain ⟨k, i, -, -, -, rfl⟩ := decodeAuthPayload_eq_ret_iff.mp h
      exact authFrame_ne_none k i
  | authenticated =>
      obtain ⟨k, u, -, -, -, rfl⟩ := decodeAuthenticatedPayload_eq_ret_iff.mp h
      exact authenticatedFrame_ne_none k u

/-- **Every way `decode` comes back**: it waits, or it has taken one octet, or it has skipped a
header and read the payload behind it. -/
theorem decode_cases {b b' : Bytes} {r : Except Error (Option FrameV1)}
    (h : decode b = .ret (r, b')) :
    (r = .ok none ∧ b' = b) ∨ (r = .ok (some .ping) ∧ b = pingType :: b') ∨
      (r = .ok (some .pong) ∧ b = pongType :: b') ∨
      ∃ ty rd hi lo body, Prefixed ty rd ∧ b = ty :: hi :: lo :: body ∧
        rd body = .ret (r, b') := by
  have hbody : ∀ {ty rd}, Prefixed ty rd → ∀ {bs}, decode (ty :: bs) = .ret (r, b') →
      (r = .ok none ∧ b' = ty :: bs) ∨
        ∃ hi lo body, bs = hi :: lo :: body ∧ rd body = .ret (r, b') := by
    intro ty rd hp bs hbs
    match bs, hbs with
    | [], hbs => rw [decode_prefixed_short hp (by simp)] at hbs; cases hbs
    | [_], hbs => rw [decode_prefixed_short hp (by simp)] at hbs; cases hbs
    | hi :: lo :: body, hbs =>
        rw [decode_prefixed hp] at hbs
        split_ifs at hbs with hlt
        · cases hbs
          exact Or.inl ⟨rfl, rfl⟩
        · exact Or.inr ⟨hi, lo, body, rfl, hbs⟩
  cases b with
  | nil =>
      rw [decode_nil] at h
      cases h
      exact Or.inl ⟨rfl, rfl⟩
  | cons ty bs =>
      by_cases h₁ : ty = authType
      · subst h₁
        rcases hbody .auth h with hw | ⟨hi, lo, body, rfl, hr⟩
        · exact Or.inl hw
        · exact Or.inr (Or.inr (Or.inr ⟨_, _, hi, lo, body, .auth, rfl, hr⟩))
      by_cases h₂ : ty = authenticatedType
      · subst h₂
        rcases hbody .authenticated h with hw | ⟨hi, lo, body, rfl, hr⟩
        · exact Or.inl hw
        · exact Or.inr (Or.inr (Or.inr ⟨_, _, hi, lo, body, .authenticated, rfl, hr⟩))
      by_cases h₃ : ty = pingType
      · subst h₃
        cases h
        exact Or.inr (Or.inl ⟨rfl, rfl⟩)
      by_cases h₄ : ty = pongType
      · subst h₄
        cases h
        exact Or.inr (Or.inr (Or.inl ⟨rfl, rfl⟩))
      rw [decode_other bs h₁ h₂ h₃ h₄] at h
      cases h
      exact Or.inl ⟨rfl, rfl⟩

/-- What is wrong with a payload is wrong with one of its identifiers. -/
lemma authFrame_error {k i : Bytes} {e : Error} (h : authFrame k i = .error e) :
    (∃ msg, e = .invalidAuthKey msg) ∨ ∃ msg, e = .invalidIngressId msg := by
  simp only [authFrame, bind, Except.bind, pure, Except.pure] at h
  cases hk : AuthKey.fromBytes k with
  | error e' =>
      simp only [hk, Except.error.injEq] at h
      subst h
      exact Or.inl (Validator.fromBytes_error hk)
  | ok _ =>
      cases hi : IngressId.fromBytes i with
      | error e' =>
          simp only [hk, hi, Except.error.injEq] at h
          subst h
          exact Or.inr (Validator.fromBytes_error hi)
      | ok _ => simp [hk, hi] at h

lemma authenticatedFrame_error {k u : Bytes} {e : Error} (h : authenticatedFrame k u = .error e) :
    (∃ msg, e = .invalidServerId msg) ∨ ∃ n, e = .unknown (.uuid n) := by
  simp only [authenticatedFrame, bind, Except.bind, pure, Except.pure] at h
  cases hk : ServerId.fromBytes k with
  | error e' =>
      simp only [hk, Except.error.injEq] at h
      subst h
      exact Or.inl (Validator.fromBytes_error hk)
  | ok _ =>
      simp only [hk, Uuid.fromSlice] at h
      split_ifs at h
      cases h
      exact Or.inr ⟨_, rfl⟩

/-- **A decoding error is never taken for the end of the tunnel.** -/
theorem decode_error_isClosedTunnel {b b' : Bytes} {e : Error}
    (h : decode b = .ret (.error e, b')) : e.isClosedTunnel = false := by
  rcases decode_cases h with ⟨hr, -⟩ | ⟨hr, -⟩ | ⟨hr, -⟩ | ⟨ty, rd, hi, lo, body, hp, -, hr⟩
  · cases hr
  · cases hr
  · cases hr
  · cases hp with
    | auth =>
        obtain ⟨k, i, -, -, -, hf⟩ := decodeAuthPayload_eq_ret_iff.mp hr
        rcases authFrame_error hf.symm with ⟨msg, rfl⟩ | ⟨msg, rfl⟩ <;> rfl
    | authenticated =>
        obtain ⟨k, u, -, -, -, hf⟩ := decodeAuthenticatedPayload_eq_ret_iff.mp hr
        rcases authenticatedFrame_error hf.symm with ⟨msg, rfl⟩ | ⟨n, rfl⟩ <;> rfl

end Siffleux
