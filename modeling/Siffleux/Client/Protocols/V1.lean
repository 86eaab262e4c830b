import Siffleux.Common.Frames.RoundTrip
import Siffleux.Foundation.Transition

/-!
# The client's side of one connection

`client/protocols/v1.rs`: `handle_client_protocol_v1_auth`, which opens the first bidirectional
stream, sends its `Auth` frame and waits for the answer, and the task that serves the command
stream after that, `handle_client_protocol_v1_command_stream`.

As on the server the model is the state of the transport, what was read from and written to the
stream, and where the two pieces of code are; the steps of the transport answer a reader that has
asked for more.  A handshake that fails drops its handle, and quinn closes the connection with the
last one; that is left out, as no code of the client looks at the connection any more.
`ClientConnection.step_cases` is the step, inverted.
-/

namespace Siffleux

open ByteBuf Framing Transition

/-- What the code reads of a `Tunnel`: its id and the server's. -/
structure Tunnel where
  id : Uuid
  serverId : ServerId
  deriving DecidableEq

/-- Where `handle_client_protocol_v1_auth` is. -/
inductive ClientAuthPc where
  | openBi
  | sendAuth
  | waiting (r : FramedRead)
  | returned (result : Except Error Tunnel)
  | panicked

/-- Where the task of the command stream is. -/
inductive ClientCommandsPc where
  | notSpawned
  | commands (r : FramedRead)
  | pong (r : FramedRead)
  | ended
  | panicked

/-- A connection as the client sees it. -/
structure ClientConnection where
  lost : Option ConnectionError
  closeFrame : Option ApplicationClose
  reads : List Bytes
  written : List FrameV1
  auth : ClientAuthPc
  commands : ClientCommandsPc

namespace ClientConnection

def new : ClientConnection := ⟨none, none, [], [], .openBi, .notSpawned⟩

/-- `connection.close(code, reason)`: only the first close counts. -/
def close (c : ClientConnection) (code : VarInt) (reason : Bytes) : ClientConnection :=
  match c.lost with
  | some _ => c
  | none => { c with lost := some .locallyClosed, closeFrame := some ⟨code, reason⟩ }

/-- Close and return an error. -/
def reject (c : ClientConnection) (code : VarInt) (reason : Bytes) (e : Error) : ClientConnection :=
  { c.close code reason with auth := .returned (.error e) }

/-- Close and end the task of the command stream. -/
def hangUp (c : ClientConnection) (code : VarInt) (reason : Bytes) : ClientConnection :=
  { c.close code reason with commands := .ended }

def unexpectedFrameMsg : String := "First frame received wasn't authenticated."
def notOnTimeMsg : String := "Authenticated frame not received on time."

/-- The default `decode_eof`: bytes are left that make no frame. -/
def bytesRemaining : Error := .ofIoError (.other "bytes remaining on stream")

/-- The arms of the `match` on the first frame. -/
def onFirstFrame (c : ClientConnection) (frame : FrameV1) (r : FramedRead) : ClientConnection :=
  match frame with
  | .authenticated tunnelId serverId =>
      { c with auth := .returned (.ok ⟨tunnelId, serverId⟩), commands := .commands r }
  | _ => c.reject Code.unexpectedFrameReceived (asBytes unexpectedFrameMsg)
      (.unexpectedFrameReceived unexpectedFrameMsg)

/-- The `Err(e)` arm, which hands the error on. -/
def onFirstError (c : ClientConnection) (e : Error) : ClientConnection :=
  c.reject Code.unknownError (asBytes Code.unknownErrorClientReason) e

/-- `tunnel_read_framed.next()`. -/
def pollAuth (c : ClientConnection) (r : FramedRead) : ClientConnection :=
  match r.poll codecV1.toStreamDecoder bytesRemaining with
  | .panic => { c with auth := .panicked }
  | .ret (.pending, r') => { c with auth := .waiting r' }
  | .ret (.finished, _) => { c with auth := .returned (.error .connectionClosed) }
  | .ret (.item (.ok frame), r') => c.onFirstFrame frame r'
  | .ret (.item (.error e), _) => c.onFirstError e

/-- The command stream's `Some(Err(e))` arm. -/
def onCommandError (c : ClientConnection) (e : Error) : ClientConnection :=
  if e.isClosedTunnel then { c with commands := .ended }
  else c.hangUp Code.unknownError (asBytes Code.unknownErrorClientReason)

/-- `recv_framed.next()`. -/
def pollCommands (c : ClientConnection) (r : FramedRead) : ClientConnection :=
  match r.poll codecV1.toStreamDecoder bytesRemaining with
  | .panic => { c with commands := .panicked }
  | .ret (.pending, r') => { c with commands := .commands r' }
  | .ret (.finished, _) => c.hangUp Code.commandStreamClosed (asBytes "Command stream closed.")
  | .ret (.item (.ok .ping), r') => { c with commands := .pong r' }
  | .ret (.item (.ok _), r') => { c with commands := .commands r' }
  | .ret (.item (.error e), _) => c.onCommandError e

inductive Label where
  | openBi (failure : Option ConnectionError)
  | sendAuth (failure : Option WriteError)
  | readData (chunk : Bytes)
  | readEof
  | readFails (e : ReadError)
  | poll
  | timeout
  | ping (failure : Option WriteError)
  | pong (failure : Option WriteError)
  | lose (e : ConnectionError)
  | closeTunnel

/-- One step of the connection.  The two pieces of code never read at the same time; `lose` is the
transport's, and `closeTunnel` that of the egress, which has the tunnel too. -/
def step (authKey : AuthKey) (ingressId : IngressId) (c : ClientConnection) :
    Label → Option ClientConnection
  | .openBi failure =>
      match c.auth, failure with
      | .openBi, none => some { c with auth := .sendAuth }
      | .openBi, some e => some { c with auth := .returned (.error (.ofConnectionError e)) }
      | _, _ => none
  | .sendAuth failure =>
      match c.auth, failure with
      | .sendAuth, none => some { c with
          written := c.written ++ [.auth authKey ingressId]
          auth := .waiting .new }
      | .sendAuth, some e => some { c with auth := .returned (.error (.ofIoError (.write e))) }
      | _, _ => none
  | .readData chunk =>
      match c.auth, c.commands with
      | .waiting r, _ =>
          if r.wantsRead then
            some { c with reads := c.reads ++ [chunk], auth := .waiting (r.readData chunk) }
          else none
      | _, .commands r =>
          if r.wantsRead then
            some { c with reads := c.reads ++ [chunk], commands := .commands (r.readData chunk) }
          else none
      | _, _ => none
  | .readEof =>
      match c.auth, c.commands with
      | .waiting r, _ => if r.wantsRead then some { c with auth := .waiting r.readEof } else none
      | _, .commands r =>
          if r.wantsRead then some { c with commands := .commands r.readEof } else none
      | _, _ => none
  | .readFails e =>
      match c.auth, c.commands with
      | .waiting r, _ => if r.wantsRead then some (c.onFirstError (.ofIoError (.read e))) else none
      | _, .commands r =>
          if r.wantsRead then some (c.onCommandError (.ofIoError (.read e))) else none
      | _, _ => none
  | .poll =>
      match c.auth, c.commands with
      | .waiting r, _ => some (c.pollAuth r)
      | _, .commands r => some (c.pollCommands r)
      | _, _ => none
  | .timeout =>
      match c.auth with
      | .waiting _ => some (c.reject Code.frameNotReceivedOnTime (asBytes notOnTimeMsg)
          (.frameNotReceivedOnTime notOnTimeMsg))
      | _ => none
  | .ping failure =>
      match c.commands, failure with
      | .commands _, none => some { c with written := c.written ++ [.ping] }
      | .commands _, some _ =>
          some (c.hangUp Code.unknownError (asBytes Code.unknownErrorClientReason))
      | _, _ => none
  | .pong failure =>
      match c.commands with
      | .pong r =>
          -- whether the `Pong` could be sent is not looked at
          let written := if failure.isNone then c.written ++ [.pong] else c.written
          some { c with written := written, commands := .commands r }
      | _ => none
  | .lose e =>
      match c.lost with
      | none => some { c with lost := some e }
      | some _ => none
  | .closeTunnel => some (c.close Code.connectionEof (asBytes "done"))

/-- A read that reports the connection lost reports why it was. -/
def allows (c : ClientConnection) : Label → Bool
  | .readFails (.connectionLost e) => c.lost = some e
  | _ => true

def system (authKey : AuthKey) (ingressId : IngressId) : System ClientConnection Label :=
  ⟨new, fun c l => if c.allows l then c.step authKey ingressId l else none⟩

/-! ## What a step can do -/

/-- Every step with its guard and its effect. -/
inductive Step (authKey : AuthKey) (ingressId : IngressId) (c : ClientConnection) :
    Label → ClientConnection → Prop
  | opened (h : c.auth = .openBi) :
      Step authKey ingressId c (.openBi none) { c with auth := .sendAuth }
  | openFails {e : ConnectionError} (h : c.auth = .openBi) :
      Step authKey ingressId c (.openBi (some e))
        { c with auth := .returned (.error (.ofConnectionError e)) }
  | sent (h : c.auth = .sendAuth) :
      Step authKey ingressId c (.sendAuth none) { c with
        written := c.written ++ [.auth authKey ingressId]
        auth := .waiting .new }
  | sendFails {e : WriteError} (h : c.auth = .sendAuth) :
      Step authKey ingressId c (.sendAuth (some e))
        { c with auth := .returned (.error (.ofIoError (.write e))) }
  | authData {r : FramedRead} {chunk : Bytes} (h : c.auth = .waiting r)
      (hw : r.wantsRead = true) :
      Step authKey ingressId c (.readData chunk)
        { c with reads := c.reads ++ [chunk], auth := .waiting (r.readData chunk) }
  | commandData {r : FramedRead} {chunk : Bytes} (h : c.commands = .commands r)
      (hw : r.wantsRead = true) :
      Step authKey ingressId c (.readData chunk)
        { c with reads := c.reads ++ [chunk], commands := .commands (r.readData chunk) }
  | authEof {r : FramedRead} (h : c.auth = .waiting r) (hw : r.wantsRead = true) :
      Step authKey ingressId c .readEof { c with auth := .waiting r.readEof }
  | commandEof {r : FramedRead} (h : c.commands = .commands r) (hw : r.wantsRead = true) :
      Step authKey ingressId c .readEof { c with commands := .commands r.readEof }
  | authFails {r : FramedRead} {e : ReadError} (h : c.auth = .waiting r)
      (hw : r.wantsRead = true) :
      Step authKey ingressId c (.readFails e) (c.onFirstError (.ofIoError (.read e)))
  | commandFails {r : FramedRead} {e : ReadError} (h : c.commands = .commands r)
      (hw : r.wantsRead = true) :
      Step authKey ingressId c (.readFails e) (c.onCommandError (.ofIoError (.read e)))
  | authPolled {r : FramedRead} (h : c.auth = .waiting r) :
      Step authKey ingressId c .poll (c.pollAuth r)
  | commandPolled {r : FramedRead} (h : c.commands = .commands r)
      (hn : ∀ r', c.auth ≠ .waiting r') : Step authKey ingressId c .poll (c.pollCommands r)
  | timedOut {r : FramedRead} (h : c.auth = .waiting r) :
      Step authKey ingressId c .timeout (c.reject Code.frameNotReceivedOnTime
        (asBytes notOnTimeMsg) (.frameNotReceivedOnTime notOnTimeMsg))
  | pinged {r : FramedRead} (h : c.commands = .commands r) :
      Step authKey ingressId c (.ping none) { c with written := c.written ++ [.ping] }
  | pingFails {r : FramedRead} {e : WriteError} (h : c.commands = .commands r) :
      Step authKey ingressId c (.ping (some e))
        (c.hangUp Code.unknownError (asBytes Code.unknownErrorClientReason))
  | ponged {r : FramedRead} {failure : Option WriteError} {written : List FrameV1}
      (h : c.commands = .pong r) :
      Step authKey ingressId c (.pong failure)
        { c with written := written, commands := .commands r }
  | lost {e : ConnectionError} (h : c.lost = none) :
      Step authKey ingressId c (.lose e) { c with lost := some e }
  | closed : Step authKey ingressId c .closeTunnel (c.close Code.connectionEof (asBytes "done"))

theorem step_cases {authKey : AuthKey} {ingressId : IngressId} {c c' : ClientConnection}
    {l : Label} (hs : c.step authKey ingressId l = some c') :
    Step authKey ingressId c l c' := by
  cases l with
  | openBi failure =>
      simp only [step] at hs
      split at hs
      · rename_i h
        rw [← Option.some.inj hs]
        exact .opened h
      · rename_i h
        rw [← Option.some.inj hs]
        exact .openFails h
      · cases hs
  | sendAuth failure =>
      simp only [step] at hs
      split at hs
      · rename_i h
        rw [← Option.some.inj hs]
        exact .sent h
      · rename_i h
        rw [← Option.some.inj hs]
        exact .sendFails h
      · cases hs
  | readData chunk =>
      simp only [step] at hs
      split at hs
      · rename_i r h
        simp only [Option.ite_none_right_eq_some, Option.some.injEq] at hs
        obtain ⟨hw, rfl⟩ := hs
        exact .authData h hw
      · rename_i r h _
        simp only [Option.ite_none_right_eq_some, Option.some.injEq] at hs
        obtain ⟨hw, rfl⟩ := hs
        exact .commandData h hw
      · cases hs
  | readEof =>
      simp only [step] at hs
      split at hs
      · rename_i r h
        simp only [Option.ite_none_right_eq_some, Option.some.injEq] at hs
        obtain ⟨hw, rfl⟩ := hs
        exact .authEof h hw
      · rename_i r h _
        simp only [Option.ite_none_right_eq_some, Option.some.injEq] at hs
        obtain ⟨hw, rfl⟩ := hs
        exact .commandEof h hw
      · cases hs
  | readFails e =>
      simp only [step] at hs
      split at hs
      · rename_i r h
        simp only [Option.ite_none_right_eq_some, Option.some.injEq] at hs
        obtain ⟨hw, rfl⟩ := hs
        exact .authFails h hw
      · rename_i r h _
        simp only [Option.ite_none_right_eq_some, Option.some.injEq] at hs
        obtain ⟨hw, rfl⟩ := hs
        exact .commandFails h hw
      · cases hs
  | poll =>
      simp only [step] at hs
      split at hs
      · rename_i r h
        rw [← Option.some.inj hs]
        exact .authPolled h
      · rename_i r h hn
        rw [← Option.some.inj hs]
        exact .commandPolled h hn
      · cases hs
  | timeout =>
      simp only [step] at hs
      split at hs
      · rename_i r h
        rw [← Option.some.inj hs]
        exact .timedOut h
      · cases hs
  | ping failure =>
      simp only [step] at hs
      split at hs
      · rename_i r h
        rw [← Option.some.inj hs]
        exact .pinged h
      · rename_i r e h
        rw [← Option.some.inj hs]
        exact .pingFails h
      · cases hs
  | pong failure =>
      simp only [step] at hs
      split at hs
      · rename_i r h
        rw [← Option.some.inj hs]
        exact .ponged h
      · cases hs
  | lose e =>
      simp only [step] at hs
      split at hs
      · rename_i h
        rw [← Option.some.inj hs]
        exact .lost h
      · cases hs
  | closeTunnel =>
      simp only [step, Option.some.injEq] at hs
      subst hs
      exact .closed

end ClientConnection

end Siffleux
