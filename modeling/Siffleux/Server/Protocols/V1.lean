import Siffleux.Common.Frames.RoundTrip

/-!
# The server's side of one connection

`server/server.rs`, `Server::handle_connection`, and the two functions of `server/protocols/v1.rs`
it runs: the handshake on the first bidirectional stream, and the command stream afterwards.  One
connection is one task, and the model is its state, the steps of that task, and those of the
transport under it.

The registry of ingresses is a parameter of the step: the task reads it once, in `lookup`, and goes
on with the ingress it found whatever becomes of the registry.

`tunnel` is the id of the `Tunnel` made for the connection, if one was; `assigned` are the ingresses
on which `assign_tunnel` was called for it, and `assignResult` what the call returned.

quinn closes a connection when its last handle is dropped.  The task holds one until it ends, and an
ingress that took the tunnel holds others: `ServerConnection.leave`.

`ServerConnection.step_cases` is the step, inverted.
-/

namespace Siffleux

open ByteBuf Framing

/-- What the server knows of a `Box<dyn Ingress>`; `name` tells two of them apart. -/
structure Ingress where
  name : ℕ
  id : IngressId
  authKey : AuthKey
  deriving DecidableEq

/-- Where the task is.  The frames still buffered travel with it, as `read_framed` does. -/
inductive HandlerPc where
  | notSpawned
  | handshake
  | acceptBi
  | auth (r : FramedRead)
  | lookup (authKey : AuthKey) (ingressId : IngressId) (r : FramedRead)
  | checkKey (ingress : Ingress) (authKey : AuthKey) (r : FramedRead)
  | reply (ingress : Ingress) (tunnelId : Uuid) (r : FramedRead)
  | assign (ingress : Ingress) (tunnelId : Uuid) (r : FramedRead)
  | assigning (ingress : Ingress) (tunnelId : Uuid) (r : FramedRead)
  | commands (tunnelId : Uuid) (r : FramedRead)
  | pong (tunnelId : Uuid) (r : FramedRead)
  | closeTunnel (tunnelId : Uuid) (e : Error)
  | noConnection
  | noStream
  | rejected (e : Error)
  | served (result : Except Error Unit)
  | panicked

/-- A connection as the server sees it: the transport's state, what was read from and written to
its first stream, and its task. -/
structure ServerConnection where
  lost : Option ConnectionError
  closeFrame : Option ApplicationClose
  reads : List Bytes
  written : List FrameV1
  handler : HandlerPc
  tunnel : Option Uuid
  assigned : List Ingress
  assignResult : Option (Except Error Unit)

namespace ServerConnection

def new : ServerConnection := ⟨none, none, [], [], .notSpawned, none, [], none⟩

/-- `connection.close(code, reason)`: only the first close counts. -/
def close (c : ServerConnection) (code : VarInt) (reason : Bytes) : ServerConnection :=
  match c.lost with
  | some _ => c
  | none => { c with lost := some .locallyClosed, closeFrame := some ⟨code, reason⟩ }

/-- An ingress took the tunnel, and a task of its own waits with a clone for it to close. -/
def isAssigned (c : ServerConnection) : Bool :=
  match c.assignResult with
  | some (.ok _) => true
  | _ => false

/-- The task ends and drops its handle.  If it was the last one, quinn closes the connection, with
code 0 and no reason. -/
def leave (c : ServerConnection) (pc : HandlerPc) : ServerConnection :=
  { (if c.isAssigned then c else c.close Code.connectionEof []) with handler := pc }

/-- Close and leave the task with an error. -/
def reject (c : ServerConnection) (code : VarInt) (reason : Bytes) (e : Error) : ServerConnection :=
  { c.close code reason with handler := .rejected e }

def unexpectedFrameMsg : String := "Expected first frame to be auth."
def notOnTimeMsg : String := "Auth frame not received on time."

/-- The default `decode_eof`: bytes are left that make no frame. -/
def bytesRemaining : Error := .ofIoError (.other "bytes remaining on stream")

/-- The arms of the handshake's `match` on the first frame. -/
def onFirstFrame (c : ServerConnection) (frame : FrameV1) (r : FramedRead) : ServerConnection :=
  match frame with
  | .auth authKey ingressId => { c with handler := .lookup authKey ingressId r }
  | _ => c.reject Code.unexpectedFrameReceived (asBytes unexpectedFrameMsg)
      (.unexpectedFrameReceived unexpectedFrameMsg)

/-- The handshake's `Err(e)` arm, for errors of the decoder and of the stream. -/
def onFirstError (c : ServerConnection) (e : Error) : ServerConnection :=
  c.reject Code.unknownError (asBytes Code.unknownErrorServerReason) (.unknown (.error e))

/-- `read_framed.next()` in the handshake. -/
def pollAuth (c : ServerConnection) (r : FramedRead) : ServerConnection :=
  match r.poll codecV1.toStreamDecoder bytesRemaining with
  | .panic => c.leave .panicked
  | .ret (.pending, r') => { c with handler := .auth r' }
  | .ret (.finished, _) => c.leave (.rejected .connectionClosed)
  | .ret (.item (.ok frame), r') => c.onFirstFrame frame r'
  | .ret (.item (.error e), _) => c.onFirstError e

/-- The command stream's `Some(Err(e))` arm: a closed tunnel is no error. -/
def onCommandError (c : ServerConnection) (tunnelId : Uuid) (e : Error) : ServerConnection :=
  if e.isClosedTunnel then c.leave (.served (.ok ()))
  else { c with handler := .closeTunnel tunnelId e }

/-- `read_framed.next()` in the command stream. -/
def pollCommands (c : ServerConnection) (tunnelId : Uuid) (r : FramedRead) : ServerConnection :=
  match r.poll codecV1.toStreamDecoder bytesRemaining with
  | .panic => c.leave .panicked
  | .ret (.pending, r') => { c with handler := .commands tunnelId r' }
  | .ret (.finished, _) => c.leave (.served (.ok ()))
  | .ret (.item (.ok .ping), r') => { c with handler := .pong tunnelId r' }
  | .ret (.item (.ok _), r') => { c with handler := .commands tunnelId r' }
  | .ret (.item (.error e), _) => c.onCommandError tunnelId e

/-- A frame handed to the stream, or the error `send` fails with. -/
def write (c : ServerConnection) (frame : FrameV1) (ok : HandlerPc) (failed : Error → HandlerPc) :
    Option WriteError → ServerConnection
  | none => { c with written := c.written ++ [frame], handler := ok }
  | some e => { c with handler := failed (.ofIoError (.write e)) }

inductive Label where
  | handshake (ok : Bool)
  | acceptBi (failure : Option ConnectionError)
  | readData (chunk : Bytes)
  | readEof
  | readFails (e : ReadError)
  | poll
  | timeout
  | lookup
  | checkKey (tunnelId : Uuid)
  | reply (failure : Option WriteError)
  | callAssign
  | assignReturns (result : Except Error Unit)
  | ping (failure : Option WriteError)
  | pong (failure : Option WriteError)
  | closeTunnel

/-- One step of the connection.  `readData`, `readEof` and `readFails` are what the transport
answers a reader that has asked for more. -/
def step (serverId : ServerId) (registry : IngressId → Option Ingress) (c : ServerConnection) :
    Label → Option ServerConnection
  | .handshake ok =>
      match c.handler with
      | .handshake => some { c with handler := if ok then .acceptBi else .noConnection }
      | _ => none
  | .acceptBi failure =>
      match c.handler, failure with
      | .acceptBi, none => some { c with handler := .auth .new }
      | .acceptBi, some _ => some { c.close Code.unknownError
          (asBytes Code.unknownErrorServerReason) with handler := .noStream }
      | _, _ => none
  | .readData chunk =>
      match c.handler with
      | .auth r =>
          if r.wantsRead then
            some { c with reads := c.reads ++ [chunk], handler := .auth (r.readData chunk) }
          else none
      | .commands tunnelId r =>
          if r.wantsRead then some { c with
            reads := c.reads ++ [chunk]
            handler := .commands tunnelId (r.readData chunk) }
          else none
      | _ => none
  | .readEof =>
      match c.handler with
      | .auth r => if r.wantsRead then some { c with handler := .auth r.readEof } else none
      | .commands tunnelId r =>
          if r.wantsRead then some { c with handler := .commands tunnelId r.readEof } else none
      | _ => none
  | .readFails e =>
      match c.handler with
      | .auth r => if r.wantsRead then some (c.onFirstError (.ofIoError (.read e))) else none
      | .commands tunnelId r =>
          if r.wantsRead then some (c.onCommandError tunnelId (.ofIoError (.read e))) else none
      | _ => none
  | .poll =>
      match c.handler with
      | .auth r => some (c.pollAuth r)
      | .commands tunnelId r => some (c.pollCommands tunnelId r)
      | _ => none
  | .timeout =>
      match c.handler with
      | .auth _ => some (c.reject Code.frameNotReceivedOnTime (asBytes notOnTimeMsg)
          (.frameNotReceivedOnTime notOnTimeMsg))
      | _ => none
  | .lookup =>
      match c.handler with
      | .lookup authKey ingressId r =>
          match registry ingressId with
          | some ingress => some { c with handler := .checkKey ingress authKey r }
          | none => some (c.reject Code.rejectedIngressId (asBytes "rejected ingress id")
              .rejectedIngressId)
      | _ => none
  | .checkKey tunnelId =>
      match c.handler with
      | .checkKey ingress authKey r =>
          if ingress.authKey ≠ authKey then
            some (c.reject Code.rejectedAuthKey (asBytes "rejected auth key") .rejectedAuthKey)
          else some { c with handler := .reply ingress tunnelId r }
      | _ => none
  | .reply failure =>
      match c.handler, failure with
      -- `Tunnel::new` comes after the reply has been sent
      | .reply ingress tunnelId r, none => some { c with
          written := c.written ++ [.authenticated tunnelId serverId]
          handler := .assign ingress tunnelId r
          tunnel := some tunnelId }
      | .reply .., some e => some (c.leave (.rejected (.ofIoError (.write e))))
      | _, _ => none
  | .callAssign =>
      match c.handler with
      | .assign ingress tunnelId r => some { c with
          assigned := c.assigned ++ [ingress]
          handler := .assigning ingress tunnelId r }
      | _ => none
  | .assignReturns result =>
      match c.handler with
      | .assigning _ tunnelId r =>
          -- an error is logged and the command stream is served all the same
          some { c with assignResult := some result, handler := .commands tunnelId r }
      | _ => none
  | .ping failure =>
      match c.handler with
      | .commands tunnelId r =>
          some (c.write .ping (.commands tunnelId r) (.closeTunnel tunnelId) failure)
      | _ => none
  | .pong failure =>
      match c.handler with
      | .pong tunnelId r =>
          some (c.write .pong (.commands tunnelId r) (.closeTunnel tunnelId) failure)
      | _ => none
  | .closeTunnel =>
      match c.handler with
      | .closeTunnel _ e => some { c.close Code.unknownError
          (asBytes Code.unknownErrorServerReason) with handler := .served (.error e) }
      | _ => none

/-! ## What closing and leaving touch -/

@[simp] lemma close_reads (c : ServerConnection) (code : VarInt) (reason : Bytes) :
    (c.close code reason).reads = c.reads := by
  rw [close]; split <;> rfl

@[simp] lemma close_handler (c : ServerConnection) (code : VarInt) (reason : Bytes) :
    (c.close code reason).handler = c.handler := by
  rw [close]; split <;> rfl

@[simp] lemma close_tunnel (c : ServerConnection) (code : VarInt) (reason : Bytes) :
    (c.close code reason).tunnel = c.tunnel := by
  rw [close]; split <;> rfl

@[simp] lemma close_assignResult (c : ServerConnection) (code : VarInt) (reason : Bytes) :
    (c.close code reason).assignResult = c.assignResult := by
  rw [close]; split <;> rfl

lemma close_lost (c : ServerConnection) (code : VarInt) (reason : Bytes) :
    (c.close code reason).lost.isSome = true := by
  rw [close]
  split
  · rename_i h
    rw [h]
    rfl
  · rfl

@[simp] lemma close_assigned (c : ServerConnection) (code : VarInt) (reason : Bytes) :
    (c.close code reason).assigned = c.assigned := by
  rw [close]; split <;> rfl

@[simp] lemma leave_reads (c : ServerConnection) (pc : HandlerPc) :
    (c.leave pc).reads = c.reads := by
  rw [leave]; split <;> simp

@[simp] lemma leave_tunnel (c : ServerConnection) (pc : HandlerPc) :
    (c.leave pc).tunnel = c.tunnel := by
  rw [leave]; split <;> simp

@[simp] lemma leave_assigned (c : ServerConnection) (pc : HandlerPc) :
    (c.leave pc).assigned = c.assigned := by
  rw [leave]; split <;> simp

/-- The task leaves a connection open only if it was, and an ingress took its tunnel. -/
lemma leave_lost (c : ServerConnection) (pc : HandlerPc) :
    (c.leave pc).lost.isSome = true ↔ c.isAssigned = false ∨ c.lost.isSome = true := by
  rw [leave]
  cases h : c.isAssigned with
  | false => simp [close_lost]
  | true => simp

/-! ## What a step can do -/

/-- Every step of the task with its guard and its effect. -/
inductive Step (serverId : ServerId) (registry : IngressId → Option Ingress)
    (c : ServerConnection) : Label → ServerConnection → Prop
  | handshaken {ok : Bool} (h : c.handler = .handshake) :
      Step serverId registry c (.handshake ok)
        { c with handler := if ok then .acceptBi else .noConnection }
  | accepted (h : c.handler = .acceptBi) :
      Step serverId registry c (.acceptBi none) { c with handler := .auth .new }
  | noStream {e : ConnectionError} (h : c.handler = .acceptBi) :
      Step serverId registry c (.acceptBi (some e))
        { c.close Code.unknownError (asBytes Code.unknownErrorServerReason) with
          handler := .noStream }
  | authData {r : FramedRead} {chunk : Bytes} (h : c.handler = .auth r) (hw : r.wantsRead = true) :
      Step serverId registry c (.readData chunk)
        { c with reads := c.reads ++ [chunk], handler := .auth (r.readData chunk) }
  | commandData {tunnelId : Uuid} {r : FramedRead} {chunk : Bytes}
      (h : c.handler = .commands tunnelId r) (hw : r.wantsRead = true) :
      Step serverId registry c (.readData chunk)
        { c with reads := c.reads ++ [chunk], handler := .commands tunnelId (r.readData chunk) }
  | authEof {r : FramedRead} (h : c.handler = .auth r) (hw : r.wantsRead = true) :
      Step serverId registry c .readEof { c with handler := .auth r.readEof }
  | commandEof {tunnelId : Uuid} {r : FramedRead} (h : c.handler = .commands tunnelId r)
      (hw : r.wantsRead = true) :
      Step serverId registry c .readEof { c with handler := .commands tunnelId r.readEof }
  | authFails {r : FramedRead} {e : ReadError} (h : c.handler = .auth r)
      (hw : r.wantsRead = true) :
      Step serverId registry c (.readFails e) (c.onFirstError (.ofIoError (.read e)))
  | commandFails {tunnelId : Uuid} {r : FramedRead} {e : ReadError}
      (h : c.handler = .commands tunnelId r) (hw : r.wantsRead = true) :
      Step serverId registry c (.readFails e) (c.onCommandError tunnelId (.ofIoError (.read e)))
  | authPolled {r : FramedRead} (h : c.handler = .auth r) :
      Step serverId registry c .poll (c.pollAuth r)
  | commandPolled {tunnelId : Uuid} {r : FramedRead} (h : c.handler = .commands tunnelId r) :
      Step serverId registry c .poll (c.pollCommands tunnelId r)
  | timedOut {r : FramedRead} (h : c.handler = .auth r) :
      Step serverId registry c .timeout (c.reject Code.frameNotReceivedOnTime
        (asBytes notOnTimeMsg) (.frameNotReceivedOnTime notOnTimeMsg))
  | found {authKey : AuthKey} {ingressId : IngressId} {r : FramedRead} {ingress : Ingress}
      (h : c.handler = .lookup authKey ingressId r) (hr : registry ingressId = some ingress) :
      Step serverId registry c .lookup { c with handler := .checkKey ingress authKey r }
  | notFound {authKey : AuthKey} {ingressId : IngressId} {r : FramedRead}
      (h : c.handler = .lookup authKey ingressId r) (hr : registry ingressId = none) :
      Step serverId registry c .lookup (c.reject Code.rejectedIngressId
        (asBytes "rejected ingress id") .rejectedIngressId)
  | wrongKey {ingress : Ingress} {authKey : AuthKey} {r : FramedRead} {tunnelId : Uuid}
      (h : c.handler = .checkKey ingress authKey r) (hk : ingress.authKey ≠ authKey) :
      Step serverId registry c (.checkKey tunnelId) (c.reject Code.rejectedAuthKey
        (asBytes "rejected auth key") .rejectedAuthKey)
  | rightKey {ingress : Ingress} {authKey : AuthKey} {r : FramedRead} {tunnelId : Uuid}
      (h : c.handler = .checkKey ingress authKey r) (hk : ingress.authKey = authKey) :
      Step serverId registry c (.checkKey tunnelId)
        { c with handler := .reply ingress tunnelId r }
  | replied {ingress : Ingress} {tunnelId : Uuid} {r : FramedRead}
      (h : c.handler = .reply ingress tunnelId r) :
      Step serverId registry c (.reply none) { c with
        written := c.written ++ [.authenticated tunnelId serverId]
        handler := .assign ingress tunnelId r
        tunnel := some tunnelId }
  | replyFails {ingress : Ingress} {tunnelId : Uuid} {r : FramedRead} {e : WriteError}
      (h : c.handler = .reply ingress tunnelId r) :
      Step serverId registry c (.reply (some e)) (c.leave (.rejected (.ofIoError (.write e))))
  | assignCalled {ingress : Ingress} {tunnelId : Uuid} {r : FramedRead}
      (h : c.handler = .assign ingress tunnelId r) :
      Step serverId registry c .callAssign { c with
        assigned := c.assigned ++ [ingress]
        handler := .assigning ingress tunnelId r }
  | assignReturned {ingress : Ingress} {tunnelId : Uuid} {r : FramedRead}
      {result : Except Error Unit} (h : c.handler = .assigning ingress tunnelId r) :
      Step serverId registry c (.assignReturns result)
        { c with assignResult := some result, handler := .commands tunnelId r }
  | pinged {tunnelId : Uuid} {r : FramedRead} {failure : Option WriteError}
      (h : c.handler = .commands tunnelId r) :
      Step serverId registry c (.ping failure)
        (c.write .ping (.commands tunnelId r) (.closeTunnel tunnelId) failure)
  | ponged {tunnelId : Uuid} {r : FramedRead} {failure : Option WriteError}
      (h : c.handler = .pong tunnelId r) :
      Step serverId registry c (.pong failure)
        (c.write .pong (.commands tunnelId r) (.closeTunnel tunnelId) failure)
  | tunnelClosed {tunnelId : Uuid} {e : Error} (h : c.handler = .closeTunnel tunnelId e) :
      Step serverId registry c .closeTunnel
        { c.close Code.unknownError (asBytes Code.unknownErrorServerReason) with
          handler := .served (.error e) }

theorem step_cases {serverId : ServerId} {registry : IngressId → Option Ingress}
    {c c' : ServerConnection} {l : Label} (hs : c.step serverId registry l = some c') :
    Step serverId registry c l c' := by
  cases l with
  | handshake ok =>
      simp only [step] at hs
      split at hs
      · rename_i h
        rw [← Option.some.inj hs]
        exact .handshaken h
      · cases hs
  | acceptBi failure =>
      simp only [step] at hs
      split at hs
      · rename_i h
        rw [← Option.some.inj hs]
        exact .accepted h
      · rename_i h
        rw [← Option.some.inj hs]
        exact .noStream h
      · cases hs
  | readData chunk =>
      simp only [step] at hs
      split at hs
      · rename_i r h
        simp only [Option.ite_none_right_eq_some, Option.some.injEq] at hs
        obtain ⟨hw, rfl⟩ := hs
        exact .authData h hw
      · rename_i tunnelId r h
        simp only [Option.ite_none_right_eq_some, Option.some.injEq] at hs
        obtain ⟨hw, rfl⟩ := hs
        exact .commandData h hw
      · cases hs
  | readEof =>
      simp only [step] at hs
      split at hs
      · rename_i r h
        simp only [Option.ite_none_right_eq_some, Option.some.injEq] at hs
        obtain ⟨hw, rfl⟩ := hs
        exact .authEof h hw
      · rename_i tunnelId r h
        simp only [Option.ite_none_right_eq_some, Option.some.injEq] at hs
        obtain ⟨hw, rfl⟩ := hs
        exact .commandEof h hw
      · cases hs
  | readFails e =>
      simp only [step] at hs
      split at hs
      · rename_i r h
        simp only [Option.ite_none_right_eq_some, Option.some.injEq] at hs
        obtain ⟨hw, rfl⟩ := hs
        exact .authFails h hw
      · rename_i tunnelId r h
        simp only [Option.ite_none_right_eq_some, Option.some.injEq] at hs
        obtain ⟨hw, rfl⟩ := hs
        exact .commandFails h hw
      · cases hs
  | poll =>
      simp only [step] at hs
      split at hs
      · rename_i r h
        rw [← Option.some.inj hs]
        exact .authPolled h
      · rename_i tunnelId r h
        rw [← Option.some.inj hs]
        exact .commandPolled h
      · cases hs
  | timeout =>
      simp only [step] at hs
      split at hs
      · rename_i r h
        rw [← Option.some.inj hs]
        exact .timedOut h
      · cases hs
  | lookup =>
      simp only [step] at hs
      split at hs
      · rename_i authKey ingressId r h
        split at hs
        · rename_i ingress hr
          rw [← Option.some.inj hs]
          exact .found h hr
        · rename_i hr
          rw [← Option.some.inj hs]
          exact .notFound h hr
      · cases hs
  | checkKey tunnelId =>
      simp only [step] at hs
      split at hs
      · rename_i ingress authKey r h
        split_ifs at hs with hk
        · rw [← Option.some.inj hs]
          exact .wrongKey h hk
        · rw [← Option.some.inj hs]
          exact .rightKey h (not_not.mp hk)
      · cases hs
  | reply failure =>
      simp only [step] at hs
      split at hs
      · rename_i h
        rw [← Option.some.inj hs]
        exact .replied h
      · rename_i h
        rw [← Option.some.inj hs]
        exact .replyFails h
      · cases hs
  | callAssign =>
      simp only [step] at hs
      split at hs
      · rename_i ingress tunnelId r h
        rw [← Option.some.inj hs]
        exact .assignCalled h
      · cases hs
  | assignReturns result =>
      simp only [step] at hs
      split at hs
      · rename_i ingress tunnelId r h
        rw [← Option.some.inj hs]
        exact .assignReturned h
      · cases hs
  | ping failure =>
      simp only [step] at hs
      split at hs
      · rename_i tunnelId r h
        rw [← Option.some.inj hs]
        exact .pinged h
      · cases hs
  | pong failure =>
      simp only [step] at hs
      split at hs
      · rename_i tunnelId r h
        rw [← Option.some.inj hs]
        exact .ponged h
      · cases hs
  | closeTunnel =>
      simp only [step] at hs
      split at hs
      · rename_i tunnelId e h
        rw [← Option.some.inj hs]
        exact .tunnelClosed h
      · cases hs

end ServerConnection

end Siffleux
