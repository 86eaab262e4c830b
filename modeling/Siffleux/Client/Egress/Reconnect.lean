import Siffleux.Foundation.Buffer

/-!
# The wait between two connection attempts

`start_tunnel` of both egresses waits `(100 * 2_u64.pow(retry)).min(30_000_u64)` milliseconds after
a failed attempt and then increments `retry`.  All of it is machine arithmetic, so the model has
the build profile as a parameter: a release build wraps around, a checked build panics.
-/

namespace Siffleux

open ByteBuf

/-- What an overflowing operation does: it wraps around in a release build, and panics in a checked
one (dev and test builds).  Either is taken to unwind, so that a panic ends the task it is in; the
release profile of the repository has `panic = "abort"`, and ends with the first panic of any
task. -/
inductive Profile where
  | release
  | checked
  deriving DecidableEq, Repr

namespace Profile

/-- The result of an operation on `u64` whose exact value is `n`. -/
def u64 (p : Profile) (n : ℕ) : Outcome UInt64 :=
  if n < 2 ^ 64 then .ret (UInt64.ofNat n)
  else match p with
    | release => .ret (UInt64.ofNat n)
    | checked => .panic

/-- The same on `u32`. -/
def u32 (p : Profile) (n : ℕ) : Outcome UInt32 :=
  if n < 2 ^ 32 then .ret (UInt32.ofNat n)
  else match p with
    | release => .ret (UInt32.ofNat n)
    | checked => .panic

end Profile

/-- `(100 * 2_u64.pow(retry)).min(30_000_u64)`. -/
def reconnectDelay (p : Profile) (retry : UInt32) : Outcome UInt64 :=
  (p.u64 (2 ^ retry.toNat)).bind fun factor =>
    (p.u64 (100 * factor.toNat)).map fun ms => min ms 30000

/-- `retry += 1`. -/
def nextRetry (p : Profile) (retry : UInt32) : Outcome UInt32 := p.u32 (retry.toNat + 1)

end Siffleux
