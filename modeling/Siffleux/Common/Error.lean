import Siffleux.Common.Text

/-!
# Errors and how they are converted

`common/code.rs` and `common/error.rs`, together with the error types of the transport library
that the conversions match on.  What an error becomes decides what the loops do with it: a
connection that ended is recognised only as `Error.closedTunnel`, and `Error.ofConnectionError`
says which ends become that.

The transport's own types carry the data the conversions read (close code, transport code) and
the reason that goes into the message; `BoxedError` is what a `Box<dyn std::error::Error>` holds.
-/

namespace Siffleux

open ByteBuf

/-! ## Codes -/

/-- The transport's variable-length integer, below `2 ^ 62`. -/
structure VarInt where
  val : ℕ
  lt : val < 2 ^ 62
  deriving DecidableEq, Repr

/-- `VarInt::from_u32`. -/
def VarInt.fromU32 (n : UInt32) : VarInt := ⟨n.toNat, Nat.lt_of_lt_of_le n.toNat_lt (by decide)⟩

namespace Code

def connectionEof : VarInt := .fromU32 0
def commandStreamClosed : VarInt := .fromU32 1
def rejectedAuthKey : VarInt := .fromU32 400
def rejectedIngressId : VarInt := .fromU32 401
def unexpectedFrameReceived : VarInt := .fromU32 3001
def frameNotReceivedOnTime : VarInt := .fromU32 3002
def unknownError : VarInt := .fromU32 3999

def unknownErrorServerReason : String := "Unknown server side issue."
def unknownErrorClientReason : String := "Unknown client side issue."

end Code

/-! ## The transport's errors -/

/-- A transport-level error with its numeric code. -/
structure TransportError where
  code : UInt64
  reason : String
  deriving DecidableEq, Repr

/-- The peer's application closed the connection. -/
structure ApplicationClose where
  errorCode : VarInt
  reason : Bytes
  deriving DecidableEq, Repr

/-- The peer's transport closed the connection. -/
structure ConnectionClose where
  errorCode : UInt64
  reason : Bytes
  deriving DecidableEq, Repr

/-- Why a connection ended. -/
inductive ConnectionError where
  | versionMismatch
  | transportError (te : TransportError)
  | connectionClosed (cc : ConnectionClose)
  | applicationClosed (ac : ApplicationClose)
  | reset
  | timedOut
  | locallyClosed
  | cidsExhausted
  deriving DecidableEq, Repr

/-- Why a read from a stream failed. -/
inductive ReadError where
  | reset (code : VarInt)
  | connectionLost (e : ConnectionError)
  | closedStream
  | illegalOrderedRead
  | zeroRttRejected
  deriving DecidableEq, Repr

/-- Why a write to a stream failed. -/
inductive WriteError where
  | stopped (code : VarInt)
  | connectionLost (e : ConnectionError)
  | closedStream
  | zeroRttRejected
  deriving DecidableEq, Repr

/-- `std::io::Error`: either one of the transport's errors as payload, or anything else. -/
inductive IoError where
  | read (e : ReadError)
  | write (e : WriteError)
  | other (description : String)
  deriving DecidableEq, Repr

/-! ## The crate's error -/

mutual

/-- `common/error.rs`, `Error`. -/
inductive Error where
  | frameNotReceivedOnTime (msg : String)
  | rejectedIngressId
  | rejectedAuthKey
  | unexpectedFrameReceived (msg : String)
  | unknown (source : BoxedError)
  | authFrameNotReceived
  | connectionClosed
  | closedTunnel
  | closedStream
  | egressAlreadyStarted
  | egressNotStarted
  | ingressNoTunnelConnected
  | ingressAlreadyListening
  | ingressNotListening
  | invalidAuthKey (reason : String)
  | invalidIngressId (reason : String)
  | invalidEgressId (reason : String)
  | invalidServerId (reason : String)
  | serverAlreadyListening
  | serverNotListening
  | ingressIDAlreadyAssigned (id : IngressId)
  | egressIDAlreadyAssigned (id : EgressId)
  | tls (source : BoxedError)
  | io (source : BoxedError)

/-- The error inside a `Box<dyn std::error::Error + Send + Sync>`. -/
inductive BoxedError where
  | connection (e : ConnectionError)
  | transport (e : TransportError)
  | read (e : ReadError)
  | write (e : WriteError)
  | io (e : IoError)
  | uuid (byteLength : ℕ)
  | error (e : Error)

end

/-- `CERTIFICATE_HASH_MISMATCH_CODE`. -/
def certificateHashMismatchCode : UInt64 := 296

/-- `impl From<ConnectionError> for Error`. -/
def Error.ofConnectionError (e : ConnectionError) : Error :=
  match e with
  | .applicationClosed ac =>
      if ac.errorCode = Code.connectionEof then .closedTunnel
      else if ac.errorCode = Code.rejectedAuthKey then .rejectedAuthKey
      else if ac.errorCode = Code.rejectedIngressId then .rejectedIngressId
      else .unknown (.connection (.applicationClosed ac))
  | .transportError te =>
      if te.code = certificateHashMismatchCode then .tls (.transport te)
      else .unknown (.transport te)
  | .locallyClosed => .closedTunnel
  | _ => .unknown (.connection e)

/-- `impl From<ReadError> for Error`. -/
def Error.ofReadError (e : ReadError) : Error :=
  match e with
  | .connectionLost ce => .ofConnectionError ce
  | _ => .unknown (.read e)

/-- `impl From<WriteError> for Error`. -/
def Error.ofWriteError (e : WriteError) : Error :=
  match e with
  | .connectionLost ce => .ofConnectionError ce
  | _ => .unknown (.write e)

/-- `impl From<std::io::Error> for Error`: the two downcasts, then `IO`. -/
def Error.ofIoError (e : IoError) : Error :=
  match e with
  | .write we => .ofWriteError we
  | .read re => .ofReadError re
  | .other _ => .io (.io e)

/-- `matches!(e, Error::ClosedTunnel)`, the test every loop makes. -/
def Error.isClosedTunnel : Error → Bool
  | .closedTunnel => true
  | _ => false

/-- The ends of a connection that the loops recognise: closed here, or closed by the peer's
application with `CONNECTION_EOF`. -/
def ConnectionError.isOrderly : ConnectionError → Bool
  | .locallyClosed => true
  | .applicationClosed ac => ac.errorCode = Code.connectionEof
  | _ => false

/-- **Which ends of a connection become `ClosedTunnel`.** -/
theorem Error.isClosedTunnel_ofConnectionError (e : ConnectionError) :
    (Error.ofConnectionError e).isClosedTunnel = e.isOrderly := by
  cases e with
  | applicationClosed ac =>
      simp only [Error.ofConnectionError, ConnectionError.isOrderly]
      split_ifs <;> simp_all [Error.isClosedTunnel]
  | transportError te =>
      simp only [Error.ofConnectionError, ConnectionError.isOrderly]
      split_ifs <;> rfl
  | _ => rfl

end Siffleux
