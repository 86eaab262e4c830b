import Mathlib.Data.List.FinRange
import Mathlib.Tactic.Common

/-!
# Base64 with canonical padding

Three bytes are written as four digits of six bits.  What is left at the end, one byte or two, is
written with two digits or three and padded to four symbols; the bits of the last digit that belong
to no byte are zero.  A reader that insists on the padding and on these zeros reads exactly what is
written.

* `Alphabet` — the symbols of the 64 digits and the one of the padding, all different.
* `Alphabet.decode_eq_some_iff` — a text is read as some bytes exactly if it is what these bytes are
  written as.  So writing loses nothing, and there is one text for some bytes only.
* `Engine` — an encoder and a decoder of strings with this law, and the size of a text, which is all
  a program needs to know of the format; `Alphabet.engine` is the one of an alphabet.
-/

namespace Base64

structure Alphabet where
  symbol : Fin 64 → Char
  pad : Char
  injective : ∀ v w, symbol v = symbol w → v = w
  pad_ne : ∀ v, symbol v ≠ pad

namespace Alphabet

variable (A : Alphabet)

/-- The last six bits of a number. -/
def lowBits (n : ℕ) : Fin 64 := ⟨n % 64, Nat.mod_lt n (by decide)⟩

@[simp] lemma val_lowBits (n : ℕ) : (lowBits n).val = n % 64 := rfl

def put (n : ℕ) : Char := A.symbol (lowBits n)

/-- The digit of a symbol. -/
def digit (c : Char) : Option (Fin 64) := (List.finRange 64).find? fun v => A.symbol v = c

/-- Each byte is cut into its high and its low bits, and what a digit has of two bytes is added. -/
def encode : List UInt8 → List Char
  | [] => []
  | [a] => [A.put (a.toNat / 4), A.put (a.toNat * 16), A.pad, A.pad]
  | [a, b] => [A.put (a.toNat / 4), A.put (a.toNat * 16 + b.toNat / 16), A.put (b.toNat * 4), A.pad]
  | a :: b :: c :: bytes =>
      A.put (a.toNat / 4) :: A.put (a.toNat * 16 + b.toNat / 16) ::
        A.put (b.toNat * 4 + c.toNat / 64) :: A.put c.toNat :: encode bytes

/-- The byte that ends within its second digit, its third or its fourth. -/
def firstByte (v w : Fin 64) : UInt8 := UInt8.ofNat (v.val * 4 + w.val / 16)
def secondByte (v w : Fin 64) : UInt8 := UInt8.ofNat (v.val * 16 + w.val / 4)
def thirdByte (v w : Fin 64) : UInt8 := UInt8.ofNat (v.val * 64 + w.val)

/-- Padding is accepted at the end only, and only with zeros before it. -/
def decode : List Char → Option (List UInt8)
  | [] => some []
  | x :: y :: z :: t :: text =>
      match A.digit x, A.digit y, A.digit z, A.digit t with
      | some v, some w, some u, some r =>
          (decode text).map fun bytes =>
            firstByte v w :: secondByte w u :: thirdByte u r :: bytes
      | some v, some w, some u, none =>
          if t = A.pad ∧ text = [] ∧ u.val % 4 = 0 then some [firstByte v w, secondByte w u]
          else none
      | some v, some w, none, none =>
          if z = A.pad ∧ t = A.pad ∧ text = [] ∧ w.val % 16 = 0 then some [firstByte v w] else none
      | _, _, _, _ => none
  | _ => none

variable {A}

lemma digit_eq_some_iff {c : Char} {v : Fin 64} : A.digit c = some v ↔ A.symbol v = c := by
  refine ⟨fun h => ?_, fun h => ?_⟩
  · simpa using List.find?_some h
  · cases hd : A.digit c with
    | none =>
        have hne := List.find?_eq_none.mp hd v (List.mem_finRange v)
        simp [h] at hne
    | some w =>
        have hw : A.symbol w = c := by simpa using List.find?_some hd
        rw [A.injective w v (hw.trans h.symm)]

@[simp] lemma digit_put (n : ℕ) : A.digit (A.put n) = some (lowBits n) :=
  digit_eq_some_iff.mpr rfl

@[simp] lemma digit_pad : A.digit A.pad = none := by
  cases h : A.digit A.pad with
  | none => rfl
  | some v => exact absurd (digit_eq_some_iff.mp h) (A.pad_ne v)

/-- The digit that a number gives puts its symbol back. -/
lemma put_eq {n : ℕ} {v : Fin 64} {c : Char} (hd : A.digit c = some v) (hn : n % 64 = v.val) :
    A.put n = c := by
  rw [← digit_eq_some_iff.mp hd, put]
  congr 1
  exact Fin.ext hn

/-! ## The bytes of three digits -/

lemma firstByte_put (a : UInt8) (n : ℕ) (hn : n < 16) :
    firstByte (lowBits (a.toNat / 4)) (lowBits (a.toNat * 16 + n)) = a := by
  have ha := a.toNat_lt
  have hval : a.toNat / 4 % 64 * 4 + (a.toNat * 16 + n) % 64 / 16 = a.toNat := by omega
  simp only [firstByte, val_lowBits, hval, UInt8.ofNat_toNat]

lemma secondByte_put (a b : UInt8) (n : ℕ) (hn : n < 4) :
    secondByte (lowBits (a.toNat * 16 + b.toNat / 16)) (lowBits (b.toNat * 4 + n)) =
      b := by
  have hb := b.toNat_lt
  have hval : (a.toNat * 16 + b.toNat / 16) % 64 * 16 + (b.toNat * 4 + n) % 64 / 4 =
      b.toNat + a.toNat % 4 * 256 := by omega
  simp only [secondByte, val_lowBits, hval]
  exact UInt8.toNat_inj.mp (by simp)

lemma thirdByte_put (b c : UInt8) :
    thirdByte (lowBits (b.toNat * 4 + c.toNat / 64)) (lowBits c.toNat) = c := by
  have hc := c.toNat_lt
  have hval : (b.toNat * 4 + c.toNat / 64) % 64 * 64 + c.toNat % 64 =
      c.toNat + b.toNat % 16 * 256 := by omega
  simp only [thirdByte, val_lowBits, hval]
  exact UInt8.toNat_inj.mp (by simp)

@[simp] lemma toNat_firstByte (v w : Fin 64) : (firstByte v w).toNat = v.val * 4 + w.val / 16 := by
  have hv := v.isLt
  have hw := w.isLt
  simp only [firstByte, UInt8.toNat_ofNat']
  omega

@[simp] lemma toNat_secondByte (v w : Fin 64) :
    (secondByte v w).toNat = v.val % 16 * 16 + w.val / 4 := by
  have hv := v.isLt
  have hw := w.isLt
  simp only [secondByte, UInt8.toNat_ofNat']
  omega

@[simp] lemma toNat_thirdByte (v w : Fin 64) : (thirdByte v w).toNat = v.val % 4 * 64 + w.val := by
  have hv := v.isLt
  have hw := w.isLt
  simp only [thirdByte, UInt8.toNat_ofNat']
  omega

/-! ## Reading what was written -/

/-- What is written is read back. -/
theorem decode_encode (bytes : List UInt8) : A.decode (A.encode bytes) = some bytes := by
  induction bytes using encode.induct with
  | case1 => rfl
  | case2 a =>
      have ha := firstByte_put a 0 (by decide)
      have hz : (a.toNat * 16) % 64 % 16 = 0 := by omega
      simp only [Nat.add_zero] at ha
      simp [encode, decode, ha, hz]
  | case3 a b =>
      have ha := firstByte_put a (b.toNat / 16) (by have := b.toNat_lt; omega)
      have hb := secondByte_put a b 0 (by decide)
      have hz : (b.toNat * 4) % 64 % 4 = 0 := by omega
      simp only [Nat.add_zero] at hb
      simp [encode, decode, ha, hb, hz]
  | case4 a b c bytes ih =>
      have ha := firstByte_put a (b.toNat / 16) (by have := b.toNat_lt; omega)
      have hb := secondByte_put a b (c.toNat / 64) (by have := c.toNat_lt; omega)
      have hc := thirdByte_put b c
      simp [encode, decode, ha, hb, hc, ih]

/-- Nothing else is read. -/
theorem encode_of_decode {text : List Char} {bytes : List UInt8} (h : A.decode text = some bytes) :
    text = A.encode bytes := by
  induction text using decode.induct A generalizing bytes with
  | case1 =>
      rw [← Option.some.inj h]
      rfl
  | case2 x y z t text v w u r ht hz hy hx ih =>
      simp only [decode, hx, hy, hz, ht, Option.map_eq_some_iff] at h
      obtain ⟨rest, hrest, rfl⟩ := h
      have hv := v.isLt
      have hw := w.isLt
      have hu := u.isLt
      have hr := r.isLt
      simp only [encode, toNat_firstByte, toNat_secondByte, toNat_thirdByte, ← ih hrest]
      rw [put_eq hx (by omega), put_eq hy (by omega), put_eq hz (by omega), put_eq ht (by omega)]
  | case3 x y z t text v w u ht hz hy hx hend =>
      obtain ⟨rfl, rfl, hzero⟩ := hend
      simp only [decode, hx, hy, hz, ht, hzero, and_self, if_true, Option.some.injEq] at h
      subst h
      have hv := v.isLt
      have hw := w.isLt
      have hu := u.isLt
      simp only [encode, toNat_firstByte, toNat_secondByte]
      rw [put_eq hx (by omega), put_eq hy (by omega), put_eq hz (by omega)]
  | case5 x y z t text v w ht hz hy hx hend =>
      obtain ⟨rfl, rfl, rfl, hzero⟩ := hend
      simp only [decode, hx, hy, digit_pad, hzero, and_self, if_true, Option.some.injEq] at h
      subst h
      have hv := v.isLt
      have hw := w.isLt
      simp only [encode, toNat_firstByte]
      rw [put_eq hx (by omega), put_eq hy (by omega)]
  | case4 | case6 | case7 | case8 => simp_all [decode]

/-- **Exactly what is written is read.** -/
theorem decode_eq_some_iff {text : List Char} {bytes : List UInt8} :
    A.decode text = some bytes ↔ text = A.encode bytes :=
  ⟨encode_of_decode, fun h => h ▸ decode_encode bytes⟩

/-! ## The size of a text -/

lemma length_encode (bytes : List UInt8) :
    (A.encode bytes).length = (bytes.length + 2) / 3 * 4 := by
  induction bytes using encode.induct with
  | case1 => rfl
  | case2 | case3 => simp [encode]
  | case4 a b c bytes ih =>
      simp only [encode, List.length_cons, ih]
      omega

lemma mem_encode {c : Char} (bytes : List UInt8) (hc : c ∈ A.encode bytes) :
    c = A.pad ∨ ∃ v, c = A.symbol v := by
  induction bytes using encode.induct with
  | case1 => cases hc
  | case2 a =>
      simp only [encode, List.mem_cons, List.not_mem_nil, or_false, or_self] at hc
      rcases hc with hc | hc | hc
      · exact Or.inr ⟨_, hc⟩
      · exact Or.inr ⟨_, hc⟩
      · exact Or.inl hc
  | case3 a b =>
      simp only [encode, List.mem_cons, List.not_mem_nil, or_false] at hc
      rcases hc with hc | hc | hc | hc
      · exact Or.inr ⟨_, hc⟩
      · exact Or.inr ⟨_, hc⟩
      · exact Or.inr ⟨_, hc⟩
      · exact Or.inl hc
  | case4 a b c bytes ih =>
      simp only [encode, List.mem_cons] at hc
      rcases hc with hc | hc | hc | hc | hc
      · exact Or.inr ⟨_, hc⟩
      · exact Or.inr ⟨_, hc⟩
      · exact Or.inr ⟨_, hc⟩
      · exact Or.inr ⟨_, hc⟩
      · exact ih hc

end Alphabet

lemma utf8ByteSize_ofList {text : List Char} (h : ∀ c ∈ text, c.utf8Size = 1) :
    (String.ofList text).utf8ByteSize = text.length := by
  induction text with
  | nil => rfl
  | cons c text ih =>
      have hc : (String.ofList [c]).utf8ByteSize = 1 := by
        have hsize := h c List.mem_cons_self
        simp [← String.size_toByteArray, List.utf8Encode, hsize]
      have happend : String.ofList (c :: text) = String.ofList [c] ++ String.ofList text := by
        rw [← String.ofList_append]
        rfl
      rw [happend, String.utf8ByteSize_append, hc, ih fun d hd => h d (List.mem_cons_of_mem c hd),
        List.length_cons, Nat.add_comm]

/-! ## Engines -/

/-- What a program has of base64. -/
structure Engine where
  encode : List UInt8 → String
  decode : String → Option (List UInt8)
  decode_eq_some_iff : ∀ {text bytes}, decode text = some bytes ↔ text = encode bytes
  utf8ByteSize_encode : ∀ bytes, (encode bytes).utf8ByteSize = (bytes.length + 2) / 3 * 4

/-- The engine of an alphabet of ASCII characters. -/
def Alphabet.engine (A : Alphabet) (hpad : A.pad.utf8Size = 1)
    (hsymbol : ∀ v, (A.symbol v).utf8Size = 1) : Engine where
  encode bytes := String.ofList (A.encode bytes)
  decode text := A.decode text.toList
  decode_eq_some_iff := by
    intro text bytes
    rw [Alphabet.decode_eq_some_iff]
    constructor
    · intro h
      rw [← h, String.ofList_toList]
    · intro h
      rw [h, String.toList_ofList]
  utf8ByteSize_encode bytes := by
    rw [utf8ByteSize_ofList, Alphabet.length_encode]
    intro c hc
    rcases Alphabet.mem_encode bytes hc with rfl | ⟨v, rfl⟩
    · exact hpad
    · exact hsymbol v

/-! ## The alphabet for URLs and file names -/

/-- Upper case, lower case, digits, and two more. -/
def urlSafeSymbol (v : ℕ) : Char :=
  if v < 26 then Char.ofNat ('A'.toNat + v)
  else if v < 52 then Char.ofNat ('a'.toNat + (v - 26))
  else if v < 62 then Char.ofNat ('0'.toNat + (v - 52))
  else if v = 62 then '-'
  else '_'

lemma toNat_urlSafeSymbol : ∀ v : Fin 64, (urlSafeSymbol v.val).toNat =
    if v.val < 26 then 65 + v.val
    else if v.val < 52 then 71 + v.val
    else if v.val < 62 then v.val - 4
    else if v.val = 62 then 45
    else 95 := by decide +kernel

def urlSafe : Alphabet where
  symbol v := urlSafeSymbol v.val
  pad := '='
  injective v w h := by
    have hn := congrArg Char.toNat h
    rw [toNat_urlSafeSymbol, toNat_urlSafeSymbol] at hn
    have hv := v.isLt
    have hw := w.isLt
    refine Fin.ext ?_
    split_ifs at hn <;> omega
  pad_ne := by decide +kernel

def urlSafeEngine : Engine := urlSafe.engine (by decide +kernel) (by decide +kernel)

end Base64
