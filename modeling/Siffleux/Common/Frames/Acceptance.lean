import Siffleux.Common.Frames.RoundTrip

/-!
# Which well-framed messages are accepted

`CodecV1::decode` checks the text of a payload only after it has taken all its bytes.  So on a
message whose lengths agree the verdict is about the text alone, and what follows the message is
untouched whatever the verdict is.

* `fromBytes_of_validText`, `fromBytes_of_not_validText` — an identifier of at most 255 bytes is
  accepted exactly when it is `ValidText`.
* `decode_well_framed` — the verdict on every well-framed message, with what is left of the buffer.
-/

namespace Siffleux

open ByteBuf

/-- What the constructors ask of a text field that is short enough. -/
def ValidText (b : Bytes) : Prop := b ≠ [] ∧ (fromUtf8 b).isSome = true

lemma asBytes_eq_nil_iff {s : String} : asBytes s = [] ↔ s = "" := by
  refine ⟨fun h => ?_, fun h => h ▸ rfl⟩
  have hs := fromUtf8_asBytes s
  rw [h, show fromUtf8 [] = some "" from fromUtf8_asBytes ""] at hs
  exact (Option.some.inj hs).symm

/-- An identifier's own bytes are a valid text. -/
lemma Identifier.validText {k : IdentifierKind} (i : Identifier k) : ValidText (asBytes i.toStr) :=
  ⟨fun h => i.nonempty (asBytes_eq_nil_iff.mp h), by rw [fromUtf8_asBytes]; rfl⟩

namespace Validator

variable {k : IdentifierKind} {v : Validator k} {b : Bytes}

/-- The error for a text that is short enough and not valid. -/
def reject (v : Validator k) (b : Bytes) : Error :=
  v.invalid (if b = [] then v.empty else v.notUtf8)

lemma fromBytes_of_validText (hb : b.length ≤ 255) (h : ValidText b) :
    ∃ i : Identifier k, asBytes i.toStr = b ∧ v.fromBytes b = .ok i := by
  obtain ⟨s, hs⟩ := Option.isSome_iff_exists.mp h.2
  obtain rfl := fromUtf8_eq_some_iff.mp hs
  have hne : s ≠ "" := fun he => h.1 (asBytes_eq_nil_iff.mpr he)
  exact ⟨⟨s, hne, hb⟩, rfl, v.fromBytes_asBytes ⟨s, hne, hb⟩⟩

/-- Only the empty text and what is not UTF-8 are rejected: the length cannot be at fault. -/
lemma fromBytes_of_not_validText (hb : b.length ≤ 255) (h : ¬ ValidText b) :
    v.fromBytes b = .error (v.reject b) := by
  rw [fromBytes, reject]
  cases hs : fromUtf8 b with
  | none =>
      have hne : b ≠ [] := by
        rintro rfl
        rw [show fromUtf8 [] = some "" from fromUtf8_asBytes ""] at hs
        cases hs
      rw [if_neg hne]
  | some s =>
      have hnil : b = [] := by
        by_contra hne
        exact h ⟨hne, by rw [hs]; rfl⟩
      subst hnil
      rw [fromUtf8_eq_some_iff, eq_comm, asBytes_eq_nil_iff] at hs
      rw [if_pos rfl]
      exact dif_pos hs

end Validator

/-! ## Well-framed messages -/

/-- A message whose header declares the length its payload has. -/
def framed (ty : UInt8) (payload : Bytes) : Bytes :=
  putU16 [ty] (UInt16.ofNat payload.length) ++ payload

/-- The `Auth` message with these two fields. -/
def authMessage (authKey ingressId : Bytes) : Bytes :=
  framed authType (field authKey ++ field ingressId)

/-- The `Authenticated` message with this field and these sixteen bytes. -/
def authenticatedMessage (serverId tunnelId : Bytes) : Bytes :=
  framed authenticatedType (field serverId ++ tunnelId)

lemma decode_authMessage {k i : Bytes} (hk : k.length ≤ 255) (hi : i.length ≤ 255) (t : Bytes) :
    decode (authMessage k i ++ t) = .ret (authFrame k i, t) := by
  have hl : (field k ++ field i).length < 2 ^ 16 := by
    rw [List.length_append, field_length, field_length]
    omega
  rw [authMessage, framed, decode_putU16 .auth hl, decodeAuthPayload_eq_ret_iff]
  exact ⟨k, i, hk, hi, List.append_assoc .., rfl⟩

lemma decode_authenticatedMessage {s u : Bytes} (hs : s.length ≤ 255) (hu : u.length = 16)
    (t : Bytes) :
    decode (authenticatedMessage s u ++ t) = .ret (authenticatedFrame s u, t) := by
  have hl : (field s ++ u).length < 2 ^ 16 := by
    rw [List.length_append, field_length]
    omega
  rw [authenticatedMessage, framed, decode_putU16 .authenticated hl,
    decodeAuthenticatedPayload_eq_ret_iff]
  exact ⟨s, u, hs, hu, List.append_assoc .., rfl⟩

/-! ## The verdict -/

/-- The text fields of a frame. -/
def FrameV1.texts : FrameV1 → List Bytes
  | .auth authKey ingressId => [asBytes authKey.toStr, asBytes ingressId.toStr]
  | .authenticated _ serverId => [asBytes serverId.toStr]
  | .ping => []
  | .pong => []

lemma FrameV1.texts_valid (f : FrameV1) : ∀ x ∈ f.texts, ValidText x ∧ x.length ≤ 255 := by
  intro x hx
  cases f with
  | auth k i =>
      simp only [texts, List.mem_cons, List.not_mem_nil, or_false] at hx
      rcases hx with rfl | rfl
      · exact ⟨k.validText, k.length_le⟩
      · exact ⟨i.validText, i.length_le⟩
  | authenticated u s =>
      simp only [texts, List.mem_singleton] at hx
      subst hx
      exact ⟨s.validText, s.length_le⟩
  | ping => cases hx
  | pong => cases hx

/-- The verdict on an `Auth` message with the fields `k` and `i`: a frame of just these, or the
error of the first field that is not valid. -/
structure AuthVerdict (k i : Bytes) (verdict : Except Error (Option FrameV1)) : Prop where
  accepted : ValidText k → ValidText i → ∃ authKey ingressId,
    asBytes authKey.toStr = k ∧ asBytes ingressId.toStr = i ∧
      verdict = .ok (some (.auth authKey ingressId))
  invalidAuthKey : ¬ ValidText k → verdict = .error (AuthKey.validator.reject k)
  invalidIngressId : ValidText k → ¬ ValidText i →
    verdict = .error (IngressId.validator.reject i)

/-- The verdict on an `Authenticated` message; any sixteen bytes are a tunnel id. -/
structure AuthenticatedVerdict (s u : Bytes) (verdict : Except Error (Option FrameV1)) : Prop where
  accepted : ValidText s → ∃ tunnelId serverId, tunnelId.asBytes = u ∧
    asBytes serverId.toStr = s ∧ verdict = .ok (some (.authenticated tunnelId serverId))
  invalidServerId : ¬ ValidText s → verdict = .error (ServerId.validator.reject s)

lemma authVerdict {k i : Bytes} (hk : k.length ≤ 255) (hi : i.length ≤ 255) :
    AuthVerdict k i (authFrame k i) := by
  constructor
  case accepted =>
    intro hvk hvi
    obtain ⟨authKey, rfl, -⟩ := Validator.fromBytes_of_validText (v := AuthKey.validator) hk hvk
    obtain ⟨ingressId, rfl, -⟩ :=
      Validator.fromBytes_of_validText (v := IngressId.validator) hi hvi
    exact ⟨authKey, ingressId, rfl, rfl, authFrame_eq_some_iff.mpr ⟨_, _, rfl, rfl, rfl⟩⟩
  case invalidAuthKey =>
    intro hvk
    rw [authFrame, AuthKey.fromBytes, Validator.fromBytes_of_not_validText hk hvk]
    rfl
  case invalidIngressId =>
    intro hvk hvi
    obtain ⟨authKey, -, hok⟩ := Validator.fromBytes_of_validText (v := AuthKey.validator) hk hvk
    rw [authFrame, AuthKey.fromBytes, hok, IngressId.fromBytes,
      Validator.fromBytes_of_not_validText hi hvi]
    rfl

lemma authenticatedVerdict {s u : Bytes} (hs : s.length ≤ 255) (hu : u.length = 16) :
    AuthenticatedVerdict s u (authenticatedFrame s u) := by
  constructor
  case accepted =>
    intro hvs
    obtain ⟨serverId, rfl, -⟩ := Validator.fromBytes_of_validText (v := ServerId.validator) hs hvs
    have hid : (⟨⟨u.toArray, by simp [hu]⟩⟩ : Uuid).asBytes = u := rfl
    exact ⟨_, serverId, hid, rfl, authenticatedFrame_eq_some_iff.mpr ⟨_, _, rfl, hid.symm, rfl⟩⟩
  case invalidServerId =>
    intro hvs
    rw [authenticatedFrame, ServerId.fromBytes, Validator.fromBytes_of_not_validText hs hvs]
    rfl

/-- **A well-framed message is accepted exactly when its texts are valid**, a rejected one is taken
off the buffer like any other, and nothing that is not a valid text of 1 to 255 bytes comes out of
the decoder as an identifier. -/
theorem decode_well_framed :
    (∀ k i t : Bytes, k.length ≤ 255 → i.length ≤ 255 → ∃ verdict,
      decode (authMessage k i ++ t) = .ret (verdict, t) ∧ AuthVerdict k i verdict) ∧
    (∀ s u t : Bytes, s.length ≤ 255 → u.length = 16 → ∃ verdict,
      decode (authenticatedMessage s u ++ t) = .ret (verdict, t) ∧
        AuthenticatedVerdict s u verdict) ∧
    ∀ (b rest : Bytes) (f : FrameV1), decode b = .ret (.ok (some f), rest) →
      ∀ x ∈ f.texts, ValidText x ∧ x.length ≤ 255 :=
  ⟨fun k i t hk hi => ⟨authFrame k i, decode_authMessage hk hi t, authVerdict hk hi⟩,
    fun s u t hs hu => ⟨authenticatedFrame s u, decode_authenticatedMessage hs hu t,
      authenticatedVerdict hs hu⟩,
    fun _ _ f _ => f.texts_valid⟩

/-- A good key with an empty ingress id, and a server id that is a lone continuation byte. -/
theorem decode_well_framed_rejected :
    (∃ verdict, decode (authMessage [97] [] ++ [3]) = .ret (verdict, [3]) ∧
      AuthVerdict [97] [] verdict) ∧
    (∃ verdict, decode (authenticatedMessage [0x80] (List.replicate 16 7) ++ [4]) =
      .ret (verdict, [4]) ∧ AuthenticatedVerdict [0x80] (List.replicate 16 7) verdict) ∧
    ∀ x ∈ (FrameV1.auth ⟨"a", by decide, by decide⟩ ⟨"b", by decide, by decide⟩).texts,
      ValidText x ∧ x.length ≤ 255 :=
  ⟨decode_well_framed.1 [97] [] [3] (by decide) (by decide),
    decode_well_framed.2.1 [0x80] (List.replicate 16 7) [4] (by decide) (by decide),
    decode_well_framed.2.2 [0, 0, 4, 1, 97, 1, 98] [] _ rfl⟩

end Siffleux
