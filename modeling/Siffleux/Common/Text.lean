import Siffleux.Foundation.Buffer

/-!
# UTF-8 text and the identifiers built from it

`AuthKey`, `IngressId`, `ServerId` and `EgressId` are the same kind of thing in the source: a
string of 1 to 255 UTF-8 bytes behind a private field, so that a value of the type is a valid
one.  Here the bounds are fields of `Identifier`, indexed by which of the four it is, and an
invalid identifier cannot be written down.

The text itself is Lean's `String`, which like the source's is a byte array with a proof that it
is valid UTF-8; `asBytes` and `fromUtf8` are the two directions.
-/

namespace Siffleux

open ByteBuf

/-- `str::as_bytes`. -/
def asBytes (s : String) : Bytes := s.toByteArray.data.toList

/-- `std::str::from_utf8`. -/
def fromUtf8 (b : Bytes) : Option String := String.fromUTF8? ⟨b.toArray⟩

/-- Decoding a string's own bytes gives the string back. -/
lemma fromUtf8_asBytes (s : String) : fromUtf8 (asBytes s) = some s := by
  have hb : (⟨(asBytes s).toArray⟩ : ByteArray) = s.toByteArray := rfl
  rw [fromUtf8, hb, String.fromUTF8?, dif_pos s.isValidUTF8]
  rfl

/-- A byte string is the encoding of at most one string, the one `fromUtf8` finds. -/
lemma fromUtf8_eq_some_iff {b : Bytes} {s : String} : fromUtf8 b = some s ↔ b = asBytes s := by
  refine ⟨fun h => ?_, fun h => h ▸ fromUtf8_asBytes s⟩
  rw [fromUtf8, String.fromUTF8?] at h
  split_ifs at h with hv
  simp only [Option.some.injEq] at h
  subst h
  rfl

/-- The four identifier types of the source. -/
inductive IdentifierKind where
  | authKey
  | ingressId
  | serverId
  | egressId
  deriving DecidableEq, Repr

/-- `MAX_LENGTH`, `INGRESS_ID_MAX_LENGTH`, `SERVER_ID_MAX_LENGTH`, `EGRESS_ID_MAX_LENGTH`. -/
def maxLength : ℕ := 255

/-- A string within the bounds the constructors enforce; `toStr` is the source's `to_str`. -/
structure Identifier (k : IdentifierKind) where
  toStr : String
  nonempty : toStr ≠ ""
  bounded : (asBytes toStr).length ≤ maxLength
  deriving DecidableEq

abbrev AuthKey := Identifier .authKey
abbrev IngressId := Identifier .ingressId
abbrev ServerId := Identifier .serverId
abbrev EgressId := Identifier .egressId

lemma Identifier.length_le {k : IdentifierKind} (i : Identifier k) :
    (asBytes i.toStr).length ≤ 255 := i.bounded

end Siffleux
