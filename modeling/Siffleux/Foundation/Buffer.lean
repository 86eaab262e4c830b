import Mathlib.Algebra.Group.Nat.Defs
import Mathlib.Data.List.Basic
import Mathlib.Tactic.Common

/-!
# Byte buffers whose reads can panic

A buffer is the list of bytes still to be read.  The reading operations take bytes off its front
and *panic* when there are too few, which is how cursor-style buffer libraries behave: the caller
is expected to have looked at the length first.  Panics are values here, so "never panics" is a
statement about a function and not an assumption of the model.

* `Outcome` — the result of an expression that may panic.
* `Reader` — a computation that reads from the front of a buffer: `getU8`, `getU16`, `splitTo`,
  `copyToSlice`, `advance`, and the two that only look, `remaining` and `byteAt`.
* `putU8`, `putU16` — what the writing side appends, casts included.
* `getField` — a byte string behind a one-octet length; `getField_eq_ret_iff` says when it is read.
-/

namespace ByteBuf

universe u v

/-- The result of an expression that may panic. -/
inductive Outcome (α : Type u) where
  | ret (a : α)
  | panic
  deriving DecidableEq, Repr

namespace Outcome

variable {α : Type u} {β : Type v}

/-- Continue after a value; a panic ends everything. -/
def bind : Outcome α → (α → Outcome β) → Outcome β
  | ret a, f => f a
  | panic, _ => panic

def map (f : α → β) : Outcome α → Outcome β
  | ret a => ret (f a)
  | panic => panic

@[simp] lemma bind_ret (a : α) (f : α → Outcome β) : (ret a).bind f = f a := rfl
@[simp] lemma bind_panic (f : α → Outcome β) : (panic : Outcome α).bind f = panic := rfl
@[simp] lemma map_ret (f : α → β) (a : α) : (ret a).map f = ret (f a) := rfl
@[simp] lemma map_panic (f : α → β) : (panic : Outcome α).map f = panic := rfl

lemma map_eq_ret_iff {f : α → β} {o : Outcome α} {b : β} :
    o.map f = ret b ↔ ∃ a, o = ret a ∧ f a = b := by
  cases o <;> simp

/-- A loop over its inputs; a panic in one turn ends it. -/
def foldl (f : β → α → Outcome β) : β → List α → Outcome β
  | s, [] => ret s
  | s, a :: as => (f s a).bind fun s' => foldl f s' as

/-- **A loop comes to its end exactly when every turn does**, if what a turn does with the state
does not decide whether it panics. -/
theorem foldl_returns_iff {f : β → α → Outcome β} {P : α → Prop}
    (hf : ∀ s a, (∃ r, f s a = ret r) ↔ P a) :
    ∀ (as : List α) (s : β), (∃ r, foldl f s as = ret r) ↔ ∀ a ∈ as, P a
  | [], s => by simp [foldl]
  | a :: as, s => by
      rw [foldl, List.forall_mem_cons, ← hf s a]
      cases hfa : f s a with
      | panic => simp
      | ret s' =>
          rw [bind_ret, foldl_returns_iff hf as s']
          exact ⟨fun h => ⟨⟨s', rfl⟩, h⟩, fun h => h.2⟩

end Outcome

/-- The bytes of a buffer, first to be read first. -/
abbrev Bytes := List UInt8

/-- A computation that takes bytes off the front of a buffer and may panic. -/
def Reader (α : Type u) := Bytes → Outcome (α × Bytes)

namespace Reader

variable {α : Type u} {β : Type u}

instance : Monad Reader where
  pure a := fun b => .ret (a, b)
  bind x f := fun b => (x b).bind fun r => f r.1 r.2

@[simp] lemma pure_apply (a : α) (b : Bytes) : (pure a : Reader α) b = .ret (a, b) := rfl

@[simp] lemma bind_apply (x : Reader α) (f : α → Reader β) (b : Bytes) :
    (x >>= f) b = (x b).bind fun r => f r.1 r.2 := rfl

lemma ite_apply (p : Prop) [Decidable p] (x y : Reader α) (b : Bytes) :
    (if p then x else y) b = if p then x b else y b := by
  split <;> rfl

end Reader

/-! ## Reading -/

/-- The number of bytes left. -/
def remaining : Reader ℕ := fun b => .ret (b.length, b)

/-- Index the buffer without consuming anything; out of bounds is a panic. -/
def byteAt (i : ℕ) : Reader UInt8 := fun b =>
  match b[i]? with
  | some x => .ret (x, b)
  | none => .panic

/-- Skip `n` bytes. -/
def advance (n : ℕ) : Reader Unit := fun b =>
  if n ≤ b.length then .ret ((), b.drop n) else .panic

/-- Take one byte. -/
def getU8 : Reader UInt8
  | [] => .panic
  | x :: b => .ret (x, b)

/-- Take the first `n` bytes as a buffer of their own. -/
def splitTo (n : ℕ) : Reader Bytes := fun b =>
  if n ≤ b.length then .ret (b.take n, b.drop n) else .panic

/-- Fill an array of `n` bytes from the front. -/
def copyToSlice (n : ℕ) : Reader (Vector UInt8 n) := fun b =>
  if h : n ≤ b.length then
    .ret (⟨(b.take n).toArray, by simp [h]⟩, b.drop n)
  else .panic

/-- Two octets as a big-endian number. -/
def fromBeBytes (hi lo : UInt8) : UInt16 := UInt16.ofNat (hi.toNat * 256 + lo.toNat)

/-- Take two bytes as a big-endian number. -/
def getU16 : Reader UInt16
  | hi :: lo :: b => .ret (fromBeBytes hi lo, b)
  | _ => .panic

/-! ## Writing -/

/-- Append one byte. -/
def putU8 (b : Bytes) (n : UInt8) : Bytes := b ++ [n]

/-- Append two bytes, big-endian. -/
def putU16 (b : Bytes) (n : UInt16) : Bytes :=
  b ++ [UInt8.ofNat (n.toNat / 256), UInt8.ofNat (n.toNat % 256)]

/-- Append a slice. -/
def putSlice (b s : Bytes) : Bytes := b ++ s

/-- The slice `s[..n]`; a panic when `s` is shorter. -/
def sliceTo (n : ℕ) (s : Bytes) : Outcome Bytes := if n ≤ s.length then .ret (s.take n) else .panic

lemma fromBeBytes_toNat (hi lo : UInt8) :
    (fromBeBytes hi lo).toNat = hi.toNat * 256 + lo.toNat := by
  have := hi.toNat_lt
  have := lo.toNat_lt
  rw [fromBeBytes, UInt16.toNat_ofNat']
  omega

/-- The two octets written for a number are read back as that number. -/
lemma fromBeBytes_split (n : UInt16) :
    fromBeBytes (UInt8.ofNat (n.toNat / 256)) (UInt8.ofNat (n.toNat % 256)) = n := by
  have := n.toNat_lt
  refine UInt16.toNat_inj.mp ?_
  rw [fromBeBytes_toNat, UInt8.toNat_ofNat', UInt8.toNat_ofNat']
  omega

/-- Conversely two octets are the ones written for the number they spell. -/
lemma split_fromBeBytes (hi lo : UInt8) :
    [UInt8.ofNat ((fromBeBytes hi lo).toNat / 256), UInt8.ofNat ((fromBeBytes hi lo).toNat % 256)]
      = [hi, lo] := by
  have := hi.toNat_lt
  have := lo.toNat_lt
  have h1 : UInt8.ofNat ((fromBeBytes hi lo).toNat / 256) = hi := by
    refine UInt8.toNat_inj.mp ?_
    rw [UInt8.toNat_ofNat', fromBeBytes_toNat]
    omega
  have h2 : UInt8.ofNat ((fromBeBytes hi lo).toNat % 256) = lo := by
    refine UInt8.toNat_inj.mp ?_
    rw [UInt8.toNat_ofNat', fromBeBytes_toNat]
    omega
  rw [h1, h2]

/-! ## What the reads do -/

@[simp] lemma remaining_apply (b : Bytes) : remaining b = .ret (b.length, b) := rfl
@[simp] lemma getU8_nil : getU8 [] = .panic := rfl
@[simp] lemma getU8_cons (x : UInt8) (b : Bytes) : getU8 (x :: b) = .ret (x, b) := rfl
@[simp] lemma getU16_cons (hi lo : UInt8) (b : Bytes) :
    getU16 (hi :: lo :: b) = .ret (fromBeBytes hi lo, b) := rfl
@[simp] lemma byteAt_zero_cons (x : UInt8) (b : Bytes) : byteAt 0 (x :: b) = .ret (x, x :: b) := rfl

lemma splitTo_append (s t : Bytes) : splitTo s.length (s ++ t) = .ret (s, t) := by
  simp [splitTo]

lemma splitTo_eq_ret_iff {n : ℕ} {b s t : Bytes} :
    splitTo n b = .ret (s, t) ↔ s.length = n ∧ b = s ++ t := by
  refine ⟨fun h => ?_, ?_⟩
  · rw [splitTo] at h
    split_ifs at h with hn
    simp only [Outcome.ret.injEq, Prod.mk.injEq] at h
    obtain ⟨rfl, rfl⟩ := h
    exact ⟨by simp [hn], (List.take_append_drop n b).symm⟩
  · rintro ⟨rfl, rfl⟩
    exact splitTo_append s t

lemma copyToSlice_append {n : ℕ} (v : Vector UInt8 n) (t : Bytes) :
    copyToSlice n (v.toList ++ t) = .ret (v, t) := by
  have hl : v.toList.length = n := v.length_toList
  rw [copyToSlice, dif_pos (by simp [hl])]
  have hd : (v.toList ++ t).drop n = t := List.drop_left' hl
  have ht : (v.toList ++ t).take n = v.toList := List.take_left' hl
  simp only [hd, ht, Outcome.ret.injEq, Prod.mk.injEq, and_true]
  exact Vector.toArray_inj.mp rfl

lemma copyToSlice_eq_ret_iff {n : ℕ} {b t : Bytes} {v : Vector UInt8 n} :
    copyToSlice n b = .ret (v, t) ↔ b = v.toList ++ t := by
  refine ⟨fun h => ?_, fun h => h ▸ copyToSlice_append v t⟩
  rw [copyToSlice] at h
  split_ifs at h with hn
  simp only [Outcome.ret.injEq, Prod.mk.injEq] at h
  obtain ⟨rfl, rfl⟩ := h
  simp [Vector.toList]

lemma copyToSlice_eq_panic_iff {n : ℕ} {b : Bytes} :
    copyToSlice n b = .panic ↔ b.length < n := by
  rw [copyToSlice]
  split_ifs with h <;> simp <;> omega

/-! ## Fields behind a one-octet length -/

/-- A byte string with its length in front, cast to one octet. -/
def field (s : Bytes) : Bytes := UInt8.ofNat s.length :: s

@[simp] lemma field_length (s : Bytes) : (field s).length = s.length + 1 := rfl

/-- Read the octet, then that many bytes. -/
def getField : Reader Bytes := do
  let n ← getU8
  splitTo n.toNat

lemma toNat_ofNat_octet {n : ℕ} (h : n ≤ 255) : (UInt8.ofNat n).toNat = n := by
  rw [UInt8.toNat_ofNat']
  omega

lemma getField_field {s : Bytes} (h : s.length ≤ 255) (t : Bytes) :
    getField (field s ++ t) = .ret (s, t) := by
  have hn := toNat_ofNat_octet h
  simp only [getField, field, List.cons_append, Reader.bind_apply, getU8_cons, Outcome.bind_ret, hn]
  exact splitTo_append s t

/-- **A field is read exactly where one was written.** -/
theorem getField_eq_ret_iff {b s t : Bytes} :
    getField b = .ret (s, t) ↔ s.length ≤ 255 ∧ b = field s ++ t := by
  refine ⟨fun h => ?_, fun ⟨hl, hb⟩ => hb ▸ getField_field hl t⟩
  cases b with
  | nil => simp [getField] at h
  | cons n b =>
      simp only [getField, Reader.bind_apply, getU8_cons, Outcome.bind_ret] at h
      obtain ⟨hlen, rfl⟩ := splitTo_eq_ret_iff.mp h
      have := n.toNat_lt
      refine ⟨by omega, ?_⟩
      rw [field, hlen, UInt8.ofNat_toNat, List.cons_append]

end ByteBuf
