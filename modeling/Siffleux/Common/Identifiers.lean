import Siffleux.Common.Error

/-!
# The constructors of the identifier types

`common/auth_key.rs`, `server/ingress/ingress_id.rs`, `server/server_id.rs` and
`client/egress/egress_id.rs`: `from_bytes` checks the UTF-8, `new` the length.  The four files
differ in the error they raise and in its text — and `AuthKey::new` tells an empty key from a
long one — so the checks are written once, over a `Validator` that carries error and texts.

The result of the module is `Validator.fromBytes_eq_ok_iff`: the bytes accepted are exactly the
encodings of valid identifiers, each giving its own identifier back.
-/

namespace Siffleux

open ByteBuf

/-- What one identifier type puts into its errors. -/
structure Validator (k : IdentifierKind) where
  invalid : String → Error
  notUtf8 : String
  empty : String
  tooLong : String

namespace Validator

variable {k : IdentifierKind}

/-- `new`: reject the empty string, then anything above the maximal length. -/
def new (v : Validator k) (value : String) : Except Error (Identifier k) :=
  if he : value = "" then .error (v.invalid v.empty)
  else if hl : maxLength < (asBytes value).length then .error (v.invalid v.tooLong)
  else .ok ⟨value, he, Nat.le_of_not_lt hl⟩

/-- `from_bytes`: reject what is not UTF-8, then validate the text. -/
def fromBytes (v : Validator k) (bytes : Bytes) : Except Error (Identifier k) :=
  match fromUtf8 bytes with
  | none => .error (v.invalid v.notUtf8)
  | some s => v.new s

lemma new_toStr (v : Validator k) (i : Identifier k) : v.new i.toStr = .ok i := by
  rw [new, dif_neg i.nonempty, dif_neg (Nat.not_lt.mpr i.bounded)]

/-- An identifier's own bytes are accepted, and give it back. -/
theorem fromBytes_asBytes (v : Validator k) (i : Identifier k) :
    v.fromBytes (asBytes i.toStr) = .ok i := by
  rw [fromBytes, fromUtf8_asBytes]
  exact v.new_toStr i

lemma new_eq_ok {v : Validator k} {s : String} {i : Identifier k} (h : v.new s = .ok i) :
    i.toStr = s := by
  rw [new] at h
  split_ifs at h
  simp only [Except.ok.injEq] at h
  rw [← h]

/-- **Accepted bytes are the encodings of valid identifiers.** -/
theorem fromBytes_eq_ok_iff {v : Validator k} {b : Bytes} {i : Identifier k} :
    v.fromBytes b = .ok i ↔ b = asBytes i.toStr := by
  refine ⟨fun h => ?_, fun h => h ▸ v.fromBytes_asBytes i⟩
  rw [fromBytes] at h
  cases hs : fromUtf8 b with
  | none => rw [hs] at h; cases h
  | some s =>
      rw [hs] at h
      rw [new_eq_ok h]
      exact fromUtf8_eq_some_iff.mp hs

/-- Whatever is wrong with the bytes, the error is the type's own. -/
lemma fromBytes_error {v : Validator k} {b : Bytes} {e : Error} (h : v.fromBytes b = .error e) :
    ∃ msg, e = v.invalid msg := by
  rw [fromBytes] at h
  cases hs : fromUtf8 b with
  | none =>
      rw [hs] at h
      cases h
      exact ⟨_, rfl⟩
  | some s =>
      simp only [hs, new] at h
      split_ifs at h <;> cases h <;> exact ⟨_, rfl⟩

end Validator

/-! ## The four types -/

/-- The errors of `common/auth_key.rs`; the only type that names the two bounds separately. -/
def AuthKey.validator : Validator .authKey where
  invalid := .invalidAuthKey
  notUtf8 := "Invalid auth key UTF8 bytes."
  empty := "Auth key can't be empty."
  tooLong := "Auth key max length is 255 bytes."

/-- The errors of `server/ingress/ingress_id.rs`. -/
def IngressId.validator : Validator .ingressId where
  invalid := .invalidIngressId
  notUtf8 := "Invalid ingress ID UTF8 bytes."
  empty := "Ingress ID has to be between 1 and 255 UTF8 bytes."
  tooLong := "Ingress ID has to be between 1 and 255 UTF8 bytes."

/-- The errors of `server/server_id.rs`. -/
def ServerId.validator : Validator .serverId where
  invalid := .invalidServerId
  notUtf8 := "Invalid server ID UTF8 bytes."
  empty := "Server ID has to be between 1 and 255 UTF8 bytes."
  tooLong := "Server ID has to be between 1 and 255 UTF8 bytes."

def AuthKey.fromBytes : Bytes → Except Error AuthKey := AuthKey.validator.fromBytes
def IngressId.fromBytes : Bytes → Except Error IngressId := IngressId.validator.fromBytes
def ServerId.fromBytes : Bytes → Except Error ServerId := ServerId.validator.fromBytes

end Siffleux
