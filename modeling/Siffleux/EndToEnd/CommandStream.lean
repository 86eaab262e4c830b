import Siffleux.Client.Protocols.V1
import Siffleux.Server.Assignment

/-!
# A tunnel and its command stream

A tunnel is a clone of its connection in the list of an ingress; the task that serves the command
stream is a different one.  When that task ends and the connection does not, the ingress goes on
handing out a tunnel that nobody watches any more.

**The server.**  `ServerConnection.closedWithTask_step` says which step lets a task end over an open
connection: a poll of the command stream that finds the end of the stream, or bytes the decoder
panics on, when `assign_tunnel` has succeeded.  All other ways out close the connection or are taken
because it is lost, and without an ingress the task holds the last handle.

**The client.**  Its task closes the connection at the end of the stream too, so only the panic is
left: `ClientConnection.closedWithTask_step`.
-/

namespace Siffleux

open ByteBuf Framing Transition

/-- Bytes that are left over are an error of the stream. -/
lemma ServerConnection.bytesRemaining_isClosedTunnel :
    ServerConnection.bytesRemaining.isClosedTunnel = false := rfl

/-- A read fails with `ClosedTunnel` only over a connection that ended in order. -/
lemma Error.connectionLost_of_isClosedTunnel {e : ReadError}
    (h : (Error.ofIoError (.read e)).isClosedTunnel = true) : ∃ ce, e = .connectionLost ce := by
  cases e with
  | connectionLost ce => exact ⟨ce, rfl⟩
  | _ => cases h

/-- No poll of a reader that has not failed comes back with `ClosedTunnel`. -/
lemma isClosedTunnel_of_poll {r r' : FramedRead} {leftover e : Error}
    (hl : leftover.isClosedTunnel = false) (he : r.hasErrored = false)
    (h : r.poll codecV1.toStreamDecoder leftover = .ret (.item (.error e), r')) :
    e.isClosedTunnel = false := by
  rcases FramedRead.error_of_poll he h with rfl | ⟨b, hd⟩
  · exact hl
  · exact decode_error_isClosedTunnel hd

/-! ## The server's task -/

namespace ServerConnection

/-- The task has come to its end. -/
def isOver : HandlerPc → Bool
  | .noConnection | .noStream | .rejected _ | .served _ | .panicked => true
  | _ => false

/-- The reader the task holds. -/
def reader : HandlerPc → Option FramedRead
  | .auth r | .lookup _ _ r | .checkKey _ _ r | .reply _ _ r | .assign _ _ r | .assigning _ _ r
  | .commands _ r | .pong _ r => some r
  | _ => none

/-- A reader that has delivered an error is not polled again. -/
def ReaderSound (c : ServerConnection) : Prop :=
  ∀ r, reader c.handler = some r → r.hasErrored = false

/-- When the task of a tunnel is over, the connection is closed. -/
def ClosedWithTask (c : ServerConnection) : Prop :=
  c.tunnel.isSome = true → isOver c.handler = true → c.lost.isSome = true

/-- A poll of the command stream that ends the task over an open connection, which an ingress
holds too. -/
def LeavesOpen (c : ServerConnection) (l : Label) : Prop :=
  l = .poll ∧ c.lost = none ∧ c.assignResult = some (.ok ()) ∧
    ∃ tunnelId r, c.handler = .commands tunnelId r ∧
      (r.EndsCleanly ∨ r.DecodePanics codecV1.toStreamDecoder)

variable {serverId : ServerId} {registry : IngressId → Option Ingress} {c c' : ServerConnection}
  {l : Label}

lemma ReaderSound.of_handler (h : c.ReaderSound) (hr : reader c'.handler = reader c.handler) :
    c'.ReaderSound := by
  intro r hc
  exact h r (hr.symm.trans hc)

/-- The task holds no reader any more. -/
lemma readerSound_none (h : reader c.handler = none) : c.ReaderSound := by
  intro r hr
  rw [h] at hr
  cases hr

lemma readerSound_some {r : FramedRead} (h : reader c.handler = some r)
    (he : r.hasErrored = false) : c.ReaderSound := by
  intro r' hr
  rw [h] at hr
  exact Option.some.inj hr ▸ he

lemma readerSound_pollAuth {r : FramedRead} (he : r.hasErrored = false) :
    (c.pollAuth r).ReaderSound := by
  rw [pollAuth]
  split
  · exact readerSound_none rfl
  · rename_i r' hp
    exact readerSound_some rfl (FramedRead.hasErrored_of_poll he hp fun _ h => by cases h)
  · exact readerSound_none rfl
  · rename_i frame r' hp
    have he' := FramedRead.hasErrored_of_poll he hp fun _ h => by cases h
    cases frame with
    | auth k i => exact readerSound_some rfl he'
    | _ => exact readerSound_none rfl
  · exact readerSound_none rfl

lemma readerSound_pollCommands {tunnelId : Uuid} {r : FramedRead} (he : r.hasErrored = false) :
    (c.pollCommands tunnelId r).ReaderSound := by
  rw [pollCommands]
  split
  · exact readerSound_none rfl
  · rename_i r' hp
    exact readerSound_some rfl (FramedRead.hasErrored_of_poll he hp fun _ h => by cases h)
  · exact readerSound_none rfl
  · rename_i r' hp
    exact readerSound_some rfl (FramedRead.hasErrored_of_poll he hp fun _ h => by cases h)
  · rename_i frame r' _ hp
    exact readerSound_some rfl (FramedRead.hasErrored_of_poll he hp fun _ h => by cases h)
  · rw [onCommandError]
    split <;> exact readerSound_none rfl

theorem ReaderSound.step (h : c.ReaderSound) (hs : c.step serverId registry l = some c') :
    c'.ReaderSound := by
  cases step_cases hs with
  | @handshaken ok hc => cases ok <;> exact readerSound_none rfl
  | accepted hc => exact readerSound_some rfl rfl
  | noStream hc => exact readerSound_none rfl
  | @authData r _ hc | @authEof r hc | @commandData _ r _ hc | @commandEof _ r hc =>
      exact readerSound_some rfl (h r (by rw [hc]; rfl))
  | authFails hc | timedOut hc | notFound hc | wrongKey hc => exact readerSound_none rfl
  | commandFails hc =>
      rw [onCommandError]
      split <;> exact readerSound_none rfl
  | authPolled hc => exact readerSound_pollAuth (h _ (by rw [hc]; rfl))
  | commandPolled hc => exact readerSound_pollCommands (h _ (by rw [hc]; rfl))
  | found hc | rightKey hc | replied hc | assignCalled hc | assignReturned hc =>
      exact h.of_handler (by rw [hc]; rfl)
  | @pinged tunnelId r failure hc | @ponged tunnelId r failure hc =>
      cases failure with
      | none => exact h.of_handler (by rw [hc]; rfl)
      | some e => exact readerSound_none rfl
  | replyFails hc | tunnelClosed hc => exact readerSound_none rfl

/-- The task leaves the command stream as a poll finds it: the end of the stream, a panic, or an
error that closes the tunnel. -/
lemma isOver_pollCommands {tunnelId : Uuid} {r : FramedRead} (he : r.hasErrored = false) :
    isOver (c.pollCommands tunnelId r).handler = true ↔
      r.EndsCleanly ∨ r.DecodePanics codecV1.toStreamDecoder := by
  constructor
  · intro h
    rw [pollCommands] at h
    split at h
    · rename_i hp
      exact Or.inr ((FramedRead.poll_panic_iff he).mp hp)
    · cases h
    · rename_i r' hp
      exact Or.inl (FramedRead.endsCleanly_of_poll codecV1_patient.keeps he hp)
    · cases h
    · cases h
    · rename_i e r' hp
      have hc := isClosedTunnel_of_poll bytesRemaining_isClosedTunnel he hp
      rw [onCommandError, if_neg (by rw [hc]; simp)] at h
      cases h
  · rintro (h | h)
    · have hp : ∃ r', r.poll codecV1.toStreamDecoder bytesRemaining = .ret (.finished, r') :=
        FramedRead.poll_of_endsCleanly codecV1_patient.decode_nil he h
      obtain ⟨r', hp⟩ := hp
      rw [pollCommands, hp]
      rfl
    · rw [pollCommands, (FramedRead.poll_panic_iff he).mpr h]
      rfl

/-- The connection is closed behind a poll that ends the task, if it was lost or no ingress has
it. -/
lemma lost_of_isOver_pollCommands {tunnelId : Uuid} {r : FramedRead}
    (h : isOver (c.pollCommands tunnelId r).handler = true) :
    (c.pollCommands tunnelId r).lost.isSome = true ↔
      c.isAssigned = false ∨ c.lost.isSome = true := by
  rw [pollCommands] at h ⊢
  split at h
  · exact c.leave_lost _
  · cases h
  · exact c.leave_lost _
  · cases h
  · cases h
  · rw [onCommandError] at h ⊢
    split_ifs at h ⊢
    · exact c.leave_lost _
    · cases h

@[simp] lemma pollCommands_tunnel (c : ServerConnection) (tunnelId : Uuid) (r : FramedRead) :
    (c.pollCommands tunnelId r).tunnel = c.tunnel := by
  rw [pollCommands]
  split
  · exact leave_tunnel ..
  · rfl
  · exact leave_tunnel ..
  · rfl
  · rfl
  · rw [onCommandError]
    split
    · exact leave_tunnel ..
    · rfl

@[simp] lemma pollAuth_tunnel (c : ServerConnection) (r : FramedRead) :
    (c.pollAuth r).tunnel = c.tunnel := by
  rw [pollAuth]
  split
  · exact leave_tunnel ..
  · rfl
  · exact leave_tunnel ..
  · rename_i frame _ _
    cases frame with
    | auth => rfl
    | _ => exact close_tunnel ..
  · exact close_tunnel ..

lemma closedWithTask_of_no_tunnel (h : c.tunnel = none) : c.ClosedWithTask := by
  intro ht
  rw [h] at ht
  cases ht

lemma closedWithTask_of_not_over (h : isOver c.handler = false) : c.ClosedWithTask := by
  intro _ ho
  rw [h] at ho
  cases ho

/-- An ingress has the tunnel when `assign_tunnel` has returned `Ok`. -/
lemma isAssigned_iff : c.isAssigned = true ↔ c.assignResult = some (.ok ()) := by
  rw [isAssigned]
  split
  · rename_i h
    exact iff_of_true rfl h
  · rename_i h
    exact iff_of_false Bool.false_ne_true (h ())

/-- **Which steps let the task of a tunnel end over an open connection.** -/
theorem closedWithTask_step (hr : c.ReaderSound)
    (hb : beforeTunnel c.handler = true → c.tunnel = none)
    (ht : ∀ tunnelId r, c.handler = .commands tunnelId r → c.tunnel.isSome = true)
    (hlost : ∀ e, l = .readFails (.connectionLost e) → c.lost = some e)
    (hs : c.step serverId registry l = some c') : c'.ClosedWithTask ↔ ¬ c.LeavesOpen l := by
  -- every step but a poll keeps what is claimed, and is no poll
  have other : l ≠ .poll → c'.ClosedWithTask → (c'.ClosedWithTask ↔ ¬ c.LeavesOpen l) :=
    fun hne hc' => iff_of_true hc' fun hl => hne hl.1
  cases step_cases hs with
  | handshaken hc | accepted hc | authData hc | authEof hc | found hc | rightKey hc =>
      exact other (by simp) (closedWithTask_of_no_tunnel (hb (by rw [hc]; rfl)))
  | noStream hc | authFails hc | timedOut hc | notFound hc | wrongKey hc =>
      exact other (by simp) fun _ _ => close_lost ..
  | commandData hc | commandEof hc | replied hc | assignCalled hc | assignReturned hc =>
      exact other (by simp) (closedWithTask_of_not_over rfl)
  | replyFails hc =>
      exact other (by simp) (closedWithTask_of_no_tunnel
        ((leave_tunnel ..).trans (hb (by rw [hc]; rfl))))
  | @pinged tunnelId r failure hc | @ponged tunnelId r failure hc =>
      cases failure <;> exact other (by simp) (closedWithTask_of_not_over rfl)
  | tunnelClosed hc => exact other (by simp) fun _ _ => close_lost ..
  | @commandFails tunnelId r e hc =>
      refine other (by simp) ?_
      rw [onCommandError]
      split_ifs with hclosed
      · obtain ⟨ce, rfl⟩ := Error.connectionLost_of_isClosedTunnel hclosed
        exact fun _ _ => (c.leave_lost _).mpr (Or.inr (by rw [hlost ce rfl]; rfl))
      · exact closedWithTask_of_not_over rfl
  | @authPolled r hc =>
      have hnone : c.tunnel = none := hb (by rw [hc]; rfl)
      refine iff_of_true (closedWithTask_of_no_tunnel ((pollAuth_tunnel ..).trans hnone)) ?_
      rintro ⟨-, -, -, tunnelId, r', hc', -⟩
      rw [hc] at hc'
      cases hc'
  | @commandPolled tunnelId r hc =>
      have he : r.hasErrored = false := hr r (by rw [hc]; rfl)
      rw [ClosedWithTask, pollCommands_tunnel]
      constructor
      · rintro hl ⟨-, hopen, hok, tunnelId', r', hc', hend⟩
        obtain ⟨-, rfl⟩ := HandlerPc.commands.inj (hc.symm.trans hc')
        have hover : isOver (c.pollCommands tunnelId r).handler = true :=
          (isOver_pollCommands he).mpr hend
        rcases (lost_of_isOver_pollCommands hover).mp (hl (ht _ _ hc) hover) with hna | hlost
        · rw [isAssigned_iff.mpr hok] at hna
          cases hna
        · rw [hopen] at hlost
          cases hlost
      · intro hn _ hover
        refine (lost_of_isOver_pollCommands hover).mpr ?_
        by_contra hleft
        rw [not_or, Bool.not_eq_false, Bool.not_eq_true, Option.isSome_eq_false_iff,
          Option.isNone_iff_eq_none] at hleft
        exact hn ⟨rfl, hleft.2, isAssigned_iff.mp hleft.1, tunnelId, r, hc,
          (isOver_pollCommands he).mp hover⟩

end ServerConnection

/-! ## The client's task -/

namespace ClientConnection

/-- The task of the command stream has come to its end. -/
def isOver : ClientCommandsPc → Bool
  | .ended | .panicked => true
  | _ => false

/-- The reader the handshake holds, until it hands it to the task. -/
def authReader : ClientAuthPc → Option FramedRead
  | .waiting r => some r
  | _ => none

def commandsReader : ClientCommandsPc → Option FramedRead
  | .commands r | .pong r => some r
  | _ => none

/-- Readers that have delivered an error are not polled again. -/
structure ReadersSound (c : ClientConnection) : Prop where
  auth : ∀ r, authReader c.auth = some r → r.hasErrored = false
  commands : ∀ r, commandsReader c.commands = some r → r.hasErrored = false

/-- The handshake has not returned. -/
def isUnanswered : ClientAuthPc → Bool
  | .openBi | .sendAuth | .waiting _ => true
  | _ => false

/-- The task begins with the answer to the handshake. -/
def SpawnedByAnswer (c : ClientConnection) : Prop :=
  isUnanswered c.auth = true → c.commands = .notSpawned

/-- When the task is over, the connection is closed. -/
def ClosedWithTask (c : ClientConnection) : Prop :=
  isOver c.commands = true → c.lost.isSome = true

/-- A poll that ends the task over an open connection. -/
def LeavesOpen (c : ClientConnection) (l : Label) : Prop :=
  l = .poll ∧ c.lost = none ∧ ∃ r, c.commands = .commands r ∧
    r.DecodePanics codecV1.toStreamDecoder

/-- The client's bytes that are left over are an error, too. -/
lemma bytesRemaining_isClosedTunnel : bytesRemaining.isClosedTunnel = false := rfl

variable {authKey : AuthKey} {ingressId : IngressId} {c c' : ClientConnection} {l : Label}

lemma close_lost (c : ClientConnection) (code : VarInt) (reason : Bytes) :
    (c.close code reason).lost.isSome = true := by
  rw [close]
  split
  · rename_i h
    rw [h]
    rfl
  · rfl

@[simp] lemma close_auth (c : ClientConnection) (code : VarInt) (reason : Bytes) :
    (c.close code reason).auth = c.auth := by
  rw [close]; split <;> rfl

@[simp] lemma close_commands (c : ClientConnection) (code : VarInt) (reason : Bytes) :
    (c.close code reason).commands = c.commands := by
  rw [close]; split <;> rfl

@[simp] lemma hangUp_auth (c : ClientConnection) (code : VarInt) (reason : Bytes) :
    (c.hangUp code reason).auth = c.auth := close_auth ..

@[simp] lemma onCommandError_auth (c : ClientConnection) (e : Error) :
    (c.onCommandError e).auth = c.auth := by
  rw [onCommandError]
  split
  · rfl
  · exact hangUp_auth ..

@[simp] lemma pollCommands_auth (c : ClientConnection) (r : FramedRead) :
    (c.pollCommands r).auth = c.auth := by
  rw [pollCommands]
  split
  · rfl
  · rfl
  · exact close_auth ..
  · rfl
  · rfl
  · exact onCommandError_auth ..

lemma closedWithTask_of_not_over (h : isOver c.commands = false) : c.ClosedWithTask := by
  intro ho
  rw [h] at ho
  cases ho

/-- What was closed stays closed, and a task that is over stays so. -/
lemma ClosedWithTask.mono (h : c.ClosedWithTask) (hc : c'.commands = c.commands)
    (hl : c.lost.isSome = true → c'.lost.isSome = true) : c'.ClosedWithTask := by
  intro ho
  rw [hc] at ho
  exact hl (h ho)

lemma ReadersSound.auth_close (h : c.ReadersSound) (code : VarInt) (reason : Bytes) {r : FramedRead}
    (hr : authReader (c.close code reason).auth = some r) : r.hasErrored = false := by
  rw [close_auth] at hr
  exact h.auth r hr

lemma ReadersSound.commands_close (h : c.ReadersSound) (code : VarInt) (reason : Bytes)
    {r : FramedRead} (hr : commandsReader (c.close code reason).commands = some r) :
    r.hasErrored = false := by
  rw [close_commands] at hr
  exact h.commands r hr

lemma readersSound_pollAuth (h : c.ReadersSound) {r : FramedRead} (he : r.hasErrored = false) :
    (c.pollAuth r).ReadersSound := by
  rw [pollAuth]
  split
  · exact ⟨fun _ hr => (by cases hr), h.commands⟩
  · rename_i r' hp
    have he' := FramedRead.hasErrored_of_poll he hp fun _ h => by cases h
    exact ⟨fun _ hr => Option.some.inj hr ▸ he', h.commands⟩
  · exact ⟨fun _ hr => (by cases hr), h.commands⟩
  · rename_i frame r' hp
    have he' := FramedRead.hasErrored_of_poll he hp fun _ h => by cases h
    cases frame with
    | authenticated => exact ⟨fun _ hr => (by cases hr), fun _ hr => Option.some.inj hr ▸ he'⟩
    | _ => exact ⟨fun _ hr => (by cases hr), fun _ => h.commands_close _ _⟩
  · exact ⟨fun _ hr => (by cases hr), fun _ => h.commands_close _ _⟩

lemma readersSound_onCommandError (h : c.ReadersSound) (e : Error) :
    (c.onCommandError e).ReadersSound := by
  rw [onCommandError]
  split
  · exact ⟨h.auth, fun _ hr => by cases hr⟩
  · exact ⟨fun _ => h.auth_close _ _, fun _ hr => by cases hr⟩

lemma readersSound_pollCommands (h : c.ReadersSound) {r : FramedRead} (he : r.hasErrored = false) :
    (c.pollCommands r).ReadersSound := by
  rw [pollCommands]
  split
  · exact ⟨h.auth, fun _ hr => by cases hr⟩
  · rename_i r' hp
    have he' := FramedRead.hasErrored_of_poll he hp fun _ h => by cases h
    exact ⟨h.auth, fun _ hr => Option.some.inj hr ▸ he'⟩
  · exact ⟨fun _ => h.auth_close _ _, fun _ hr => by cases hr⟩
  · rename_i r' hp
    have he' := FramedRead.hasErrored_of_poll he hp fun _ h => by cases h
    exact ⟨h.auth, fun _ hr => Option.some.inj hr ▸ he'⟩
  · rename_i frame r' _ hp
    have he' := FramedRead.hasErrored_of_poll he hp fun _ h => by cases h
    exact ⟨h.auth, fun _ hr => Option.some.inj hr ▸ he'⟩
  · exact readersSound_onCommandError h _

theorem ReadersSound.step (h : c.ReadersSound) (hs : c.step authKey ingressId l = some c') :
    c'.ReadersSound := by
  cases step_cases hs with
  | opened | openFails | sendFails => exact ⟨fun _ hr => (by cases hr), h.commands⟩
  | sent => exact ⟨fun _ hr => Option.some.inj hr ▸ rfl, h.commands⟩
  | @authData r _ hc | @authEof r hc =>
      have he : r.hasErrored = false := h.auth r (by rw [hc]; rfl)
      exact ⟨fun _ hr => Option.some.inj hr ▸ he, h.commands⟩
  | @commandData r _ hc | @commandEof r hc =>
      have he : r.hasErrored = false := h.commands r (by rw [hc]; rfl)
      exact ⟨h.auth, fun _ hr => Option.some.inj hr ▸ he⟩
  | authFails | timedOut => exact ⟨fun _ hr => (by cases hr), fun _ => h.commands_close _ _⟩
  | commandFails => exact readersSound_onCommandError h _
  | authPolled hc => exact readersSound_pollAuth h (h.auth _ (by rw [hc]; rfl))
  | commandPolled hc => exact readersSound_pollCommands h (h.commands _ (by rw [hc]; rfl))
  | pinged | lost => exact ⟨h.auth, h.commands⟩
  | pingFails => exact ⟨fun _ => h.auth_close _ _, fun _ hr => by cases hr⟩
  | @ponged r _ _ hc =>
      have he : r.hasErrored = false := h.commands r (by rw [hc]; rfl)
      exact ⟨h.auth, fun _ hr => Option.some.inj hr ▸ he⟩
  | closed => exact ⟨fun _ => h.auth_close _ _, fun _ => h.commands_close _ _⟩

lemma spawnedByAnswer_pollAuth (h : c.SpawnedByAnswer) {r : FramedRead} (hc : c.auth = .waiting r) :
    (c.pollAuth r).SpawnedByAnswer := by
  have hn : c.commands = .notSpawned := h (by rw [hc]; rfl)
  rw [pollAuth]
  split
  · exact fun hu => by cases hu
  · exact fun _ => hn
  · exact fun hu => by cases hu
  · rename_i frame _ _
    cases frame <;> exact fun hu => by cases hu
  · exact fun hu => by cases hu

theorem SpawnedByAnswer.step (h : c.SpawnedByAnswer) (hs : c.step authKey ingressId l = some c') :
    c'.SpawnedByAnswer := by
  -- a task that runs was spawned, so the handshake has returned
  have running : ∀ {pc}, c.commands = pc → pc ≠ .notSpawned → isUnanswered c.auth = false :=
    fun hc hne => Bool.eq_false_iff.mpr fun hu => hne (hc.symm.trans (h hu))
  cases step_cases hs with
  | opened hc | sent hc | authData hc | authEof hc => exact fun _ => h (by rw [hc]; rfl)
  | openFails | sendFails | authFails | timedOut => exact fun hu => by cases hu
  | authPolled hc => exact spawnedByAnswer_pollAuth h hc
  | commandData hc | commandEof hc | ponged hc =>
      have ha := running hc (by simp)
      exact fun hu => absurd (ha.symm.trans hu) (by simp)
  | pinged | lost => exact h
  | pingFails hc =>
      have ha := running hc (by simp)
      intro hu
      rw [hangUp_auth, ha] at hu
      cases hu
  | commandFails hc =>
      have ha := running hc (by simp)
      intro hu
      rw [onCommandError_auth, ha] at hu
      cases hu
  | commandPolled hc =>
      have ha := running hc (by simp)
      intro hu
      rw [pollCommands_auth, ha] at hu
      cases hu
  | closed =>
      rw [SpawnedByAnswer, close_auth, close_commands]
      exact h

/-- The end of the stream closes the connection, and so does every error a poll comes back with. -/
lemma closedWithTask_pollCommands {r : FramedRead} (he : r.hasErrored = false) :
    (c.pollCommands r).ClosedWithTask ↔
      (r.DecodePanics codecV1.toStreamDecoder → c.lost.isSome = true) := by
  have hpanic : r.poll codecV1.toStreamDecoder bytesRemaining = .panic ↔
      r.DecodePanics codecV1.toStreamDecoder := FramedRead.poll_panic_iff he
  rw [← hpanic, pollCommands]
  split
  · rename_i hp
    rw [hp]
    exact ⟨fun h _ => h rfl, fun h _ => h rfl⟩
  · rename_i hp
    rw [hp]
    exact iff_of_true (closedWithTask_of_not_over rfl) fun h => by cases h
  · rename_i hp
    rw [hp]
    exact iff_of_true (fun _ => close_lost ..) fun h => by cases h
  · rename_i hp
    rw [hp]
    exact iff_of_true (closedWithTask_of_not_over rfl) fun h => by cases h
  · rename_i hp
    rw [hp]
    exact iff_of_true (closedWithTask_of_not_over rfl) fun h => by cases h
  · rename_i e r' hp
    have hc := isClosedTunnel_of_poll bytesRemaining_isClosedTunnel he hp
    rw [hp, onCommandError, if_neg (by rw [hc]; simp)]
    exact iff_of_true (fun _ => close_lost ..) fun h => by cases h

lemma closedWithTask_pollAuth (h : c.ClosedWithTask) (r : FramedRead) :
    (c.pollAuth r).ClosedWithTask := by
  rw [pollAuth]
  split
  · exact h
  · exact h
  · exact h
  · rename_i frame r' _
    cases frame with
    | authenticated => exact closedWithTask_of_not_over rfl
    | _ => exact fun _ => close_lost ..
  · exact fun _ => close_lost ..

/-- **Which steps let the client's task end over an open connection.** -/
theorem closedWithTask_step (h : c.ClosedWithTask) (hr : c.ReadersSound)
    (hlost : ∀ e, l = .readFails (.connectionLost e) → c.lost = some e)
    (hn : ∀ r, c.auth = .waiting r → c.commands = .notSpawned)
    (hs : c.step authKey ingressId l = some c') : c'.ClosedWithTask ↔ ¬ c.LeavesOpen l := by
  have other : l ≠ .poll → c'.ClosedWithTask → (c'.ClosedWithTask ↔ ¬ c.LeavesOpen l) :=
    fun hne hc' => iff_of_true hc' fun hl => hne hl.1
  cases step_cases hs with
  | opened | openFails | sent | sendFails | authData | authEof | pinged =>
      exact other (by simp) (h.mono rfl id)
  | commandData | commandEof | ponged => exact other (by simp) (closedWithTask_of_not_over rfl)
  | authFails | timedOut | pingFails | closed => exact other (by simp) fun _ => close_lost ..
  | lost => exact other (by simp) fun _ => rfl
  | @commandFails r e =>
      refine other (by simp) ?_
      rw [onCommandError]
      split_ifs with hclosed
      · obtain ⟨ce, rfl⟩ := Error.connectionLost_of_isClosedTunnel hclosed
        exact fun _ => by rw [show c.lost = some ce from hlost ce rfl]; rfl
      · exact fun _ => close_lost ..
  | @authPolled r hc =>
      refine iff_of_true (closedWithTask_pollAuth h r) ?_
      rintro ⟨-, -, r', hc', -⟩
      rw [hn r hc] at hc'
      cases hc'
  | @commandPolled r hc =>
      rw [closedWithTask_pollCommands (hr.commands r (by rw [hc]; rfl))]
      constructor
      · rintro hl ⟨-, hopen, r', hc', hend⟩
        obtain rfl := ClientCommandsPc.commands.inj (hc.symm.trans hc')
        have hlost := hl hend
        rw [hopen] at hlost
        cases hlost
      · intro hno hend
        cases hl : c.lost with
        | none => exact absurd ⟨rfl, hl, r, hc, hend⟩ hno
        | some e => rfl

/-- What a run makes of the client's task. -/
structure TaskSound (c : ClientConnection) : Prop where
  readers : c.ReadersSound
  spawned : c.SpawnedByAnswer

theorem taskSound_run {ls : List Label} (h : (system authKey ingressId).Run ls c) :
    c.TaskSound := by
  refine h.invariant ⟨⟨fun _ hr => (by cases hr), fun _ hr => by cases hr⟩, fun _ => rfl⟩ ?_
  intro c l c' hi hs
  obtain ⟨-, hs⟩ := Option.ite_none_right_eq_some.mp hs
  exact ⟨hi.readers.step hs, hi.spawned.step hs⟩

/-- **The client**: in every state of a run its task is running or the connection closed, exactly
when no poll of an open connection's command stream makes the decoder panic. -/
theorem closed_with_task_iff {ls : List Label} (h : (system authKey ingressId).Run ls c) :
    (system authKey ingressId).Always ClosedWithTask ls ↔
      (system authKey ingressId).RunWithin (fun c l => ¬ c.LeavesOpen l) ls c := by
  refine h.always_iff_within (fun ho => by cases ho) ?_
  intro ls c l c' hr hc hs
  obtain ⟨ha, hs⟩ := Option.ite_none_right_eq_some.mp hs
  have hsound := taskSound_run hr
  refine closedWithTask_step hc hsound.readers ?_ ?_ hs
  · rintro e rfl
    exact of_decide_eq_true ha
  · intro r hw
    exact hsound.spawned (by rw [hw]; rfl)

end ClientConnection

/-! ## The server's tunnels -/

namespace ServerSystem

variable {w : ℕ} {serverId : ServerId} {kind : ℕ → IngressKind} {s s' : ServerSystem w} {l : Label}

/-- The task has a command stream to serve, serves it, or is about to close the tunnel. -/
def keepsCommandStream : HandlerPc → Bool
  | .assigning .. | .commands .. | .pong .. | .closeTunnel .. => true
  | _ => false

/-- No tunnel outlives its command stream: the connection of a task that is over is closed, and an
open tunnel that an ingress lists has its task. -/
structure NoneOutlives (s : ServerSystem w) : Prop where
  closed : ∀ k, (s.server.connection k).ClosedWithTask
  listed : ∀ name k, k ∈ (s.ingress name).list.tunnels → (s.server.connection k).lost = none →
    keepsCommandStream (s.handler k) = true

/-- The condition on a step: no poll ends a task over an open connection that an ingress holds. -/
def NoneLeftOpen (s : ServerSystem w) (l : Label) : Prop :=
  ∀ k hl, l = .server (.handler k hl) → ¬ (s.server.connection k).LeavesOpen hl

/-- A task that has called `assign_tunnel` has a command stream, or is over. -/
lemma AssignSound.keepsCommandStream (h : s.AssignSound) {k : ℕ}
    (ha : (s.server.connection k).assigned ≠ []) :
    (s.server.connection k).tunnel.isSome = true ∧
      (ServerConnection.isOver (s.handler k) = true ∨
        ServerSystem.keepsCommandStream (s.handler k) = true) := by
  have hc := h.connection k
  rw [ServerConnection.AssignSound] at hc
  rw [handler]
  generalize (s.server.connection k).handler = pc at hc ⊢
  cases pc with
  | assigning => exact ⟨hc.2, Or.inr rfl⟩
  | commands | pong => exact ⟨hc.1, Or.inr rfl⟩
  | closeTunnel => exact ⟨hc, Or.inr rfl⟩
  | served => exact ⟨hc, Or.inl rfl⟩
  | panicked => exact ⟨hc ha, Or.inl rfl⟩
  | assign => exact absurd hc.1 ha
  | _ => exact absurd hc ha

/-- The list follows from the tasks. -/
lemma noneOutlives_iff (h : s.AssignSound) :
    s.NoneOutlives ↔ ∀ k, (s.server.connection k).ClosedWithTask := by
  refine ⟨NoneOutlives.closed, fun hc => ⟨hc, fun name k hk hl => ?_⟩⟩
  obtain ⟨ingress, hi, -⟩ := h.begun name k ((h.reachable name).hasBegun_of_listed hk)
  obtain ⟨ht, hover | hkeeps⟩ := h.keepsCommandStream (List.ne_nil_of_mem hi)
  · have hlost := hc k ht hover
    rw [hl] at hlost
    cases hlost
  · exact hkeeps

lemma readerSound_run {ls : List Label} (h : (system w serverId kind).Run ls s) (k : ℕ) :
    (s.server.connection k).ReaderSound := by
  obtain ⟨ls', hr⟩ := server_run h
  refine hr.invariant (P := fun s => (s.connection k).ReaderSound) (fun _ h => by cases h) ?_
  intro s l s' hi hs
  cases Server.connection_moved hs k with
  | same he => rw [he]; exact hi
  | spawned hn he => rw [he]; exact ServerConnection.readerSound_none rfl
  | lost e hn he => rw [he]; exact hi
  | closed code reason he => rw [he]; exact hi.of_handler (by rw [ServerConnection.close_handler])
  | task hl he hc => exact hi.step hc

/-- What a step of the server does to the task of a connection. -/
lemma closedWithTask_step {g : Server} {sl : Server.Label} {k : ℕ} (hsound : s.AssignSound)
    (hr : (s.server.connection k).ReaderSound)
    (hb : ServerConnection.beforeTunnel (s.handler k) = true →
      (s.server.connection k).tunnel = none)
    (hlost : ∀ e, sl = .handler k (.readFails (.connectionLost e)) →
      (s.server.connection k).lost = some e)
    (hc : (s.server.connection k).ClosedWithTask) (hg : s.server.step serverId sl = some g) :
    (g.connection k).ClosedWithTask ↔
      ∀ hl, sl = .handler k hl → ¬ (s.server.connection k).LeavesOpen hl := by
  have htunnel : ∀ tunnelId r, s.handler k = .commands tunnelId r →
      (s.server.connection k).tunnel.isSome = true := by
    intro tunnelId r hh
    have hk := hsound.connection k
    rw [ServerConnection.AssignSound, show (s.server.connection k).handler = _ from hh] at hk
    exact hk.1
  by_cases htask : ∃ hl, sl = .handler k hl
  · obtain ⟨hl, rfl⟩ := htask
    rw [ServerConnection.closedWithTask_step hr hb htunnel (fun e he => hlost e (by rw [he]))
      (Server.handler_step hg)]
    exact ⟨fun hn hl' he => (Server.Label.handler.inj he).2 ▸ hn, fun hn => hn hl rfl⟩
  · refine iff_of_true ?_ fun hl he => absurd ⟨hl, he⟩ htask
    cases Server.connection_moved hg k with
    | same he => rwa [he]
    | spawned hn he => rw [he]; exact ServerConnection.closedWithTask_of_not_over rfl
    | lost e hn he => rw [he]; exact fun _ _ => rfl
    | closed code reason he => rw [he]; exact fun _ _ => ServerConnection.close_lost ..
    | task hl he _ => exact absurd ⟨hl, he⟩ htask

/-- **One step**: no tunnel outlives its command stream after it, exactly when it ends no task over
an open connection. -/
lemma noneOutlives_step {ls : List Label} (h : (system w serverId kind).Run ls s)
    (hc : s.NoneOutlives) (hs : s.step serverId l = some s') :
    s'.NoneOutlives ↔ s.NoneLeftOpen l := by
  have hsound := assignSound_run h
  have hbefore : ∀ k, ServerConnection.beforeTunnel (s.handler k) = true →
      (s.server.connection k).tunnel = none := by
    intro k hb
    obtain ⟨ls', hr⟩ := server_run h
    exact ((Server.sound_run hr k).untouched hb).1
  rw [noneOutlives_iff (hsound.step hs)]
  cases step_cases hs with
  | @server sl g ha hg =>
      have hlost : ∀ k e, sl = .handler k (.readFails (.connectionLost e)) →
          (s.server.connection k).lost = some e := by
        rintro k e rfl
        exact of_decide_eq_true ha
      have hstep := fun k => closedWithTask_step hsound (readerSound_run h k) (hbefore k) (hlost k)
        (hc.closed k) hg
      exact ⟨fun hall k hl he => (hstep k).mp (hall k) hl (Label.server.inj he),
        fun hn k => (hstep k).mpr fun hl he => hn k hl (by rw [he])⟩
  | @assigned j ingress tunnelId r result g hj hr hg =>
      have hstep := fun k => closedWithTask_step hsound (readerSound_run h k) (hbefore k)
        (fun e he => by cases he) (hc.closed k) hg
      refine iff_of_true (fun k => (hstep k).mpr ?_) fun k hl he => by cases he
      rintro hl he ⟨hp, -⟩
      obtain ⟨-, rfl⟩ := Server.Label.handler.inj he
      cases hp
  | ingress => exact iff_of_true hc.closed fun k hl he => by cases he

lemma noneOutlives_new : (new w kind).NoneOutlives :=
  (noneOutlives_iff assignSound_new).mpr fun _ ht => by cases ht

/-- **A tunnel outlives its command stream exactly when its last poll leaves the connection open.**
In every run of the server with its ingresses: whenever the task of a tunnel is over its connection
is closed, and every open tunnel in an ingress's list has its task, if and only if no poll of the
command stream of an open connection, whose tunnel an ingress has taken, found that the client had
ended the stream or bytes the decoder panics on.  In every run of the client, whose task closes the
connection when the stream has ended, only the panic is left. -/
theorem tunnel_closed_with_command_stream {ls : List Label} {authKey : AuthKey}
    {ingressId : IngressId} {cls : List ClientConnection.Label} {c : ClientConnection}
    (h : (system w serverId kind).Run ls s)
    (hcl : (ClientConnection.system authKey ingressId).Run cls c) :
    ((system w serverId kind).Always NoneOutlives ls ↔
      (system w serverId kind).RunWithin NoneLeftOpen ls s) ∧
    ((ClientConnection.system authKey ingressId).Always ClientConnection.ClosedWithTask cls ↔
      (ClientConnection.system authKey ingressId).RunWithin (fun c l => ¬ c.LeavesOpen l) cls c) :=
  ⟨h.always_iff_within noneOutlives_new fun _ _ _ _ hr hc hs => noneOutlives_step hr hc hs,
    ClientConnection.closed_with_task_iff hcl⟩

/-- The client's end of a tunnel that is authenticated, and closed by its egress. -/
def closedByEgressRun : List ClientConnection.Label :=
  [.openBi none, .sendAuth none,
    .readData (frameBytes (.authenticated ⟨Vector.replicate 16 7⟩ Server.serverS)), .poll, .poll,
    .closeTunnel, .readFails (.connectionLost .locallyClosed)]

/-- A tunnel that is listed, and whose command stream is reset. -/
def resetRun : List Label :=
  listeningRun ++ [.server (.handler 0 .poll),
    .server (.handler 0 (.readFails (.reset Code.unknownError))), .server (.handler 0 .closeTunnel)]

theorem tunnel_closed_with_command_stream_reset :
    (system 64 Server.serverS fun _ => .udp).Always NoneOutlives resetRun ∧
      (ClientConnection.system Server.ingressB.authKey Server.ingressB.id).Always
        ClientConnection.ClosedWithTask closedByEgressRun := by
  have h : (system 64 Server.serverS fun _ => .udp).Run resetRun _ := System.run_of_exec rfl
  have hcl : (ClientConnection.system Server.ingressB.authKey Server.ingressB.id).Run
      closedByEgressRun _ := System.run_of_exec rfl
  refine ⟨(tunnel_closed_with_command_stream h hcl).1.mpr ?_,
    (tunnel_closed_with_command_stream h hcl).2.mpr ?_⟩
  · have quiet : ∀ {s : ServerSystem 64} {l : Label}, (∀ k, l ≠ .server (.handler k .poll)) →
        s.NoneLeftOpen l := fun hne k hl e ho => hne k (by rw [e, ho.1])
    -- the first two polls are the handshake's, and the third finds nothing to decode
    refine System.runWithin_of_exec rfl ⟨quiet (by simp), quiet (by simp), quiet (by simp),
      quiet (by simp), quiet (by simp), quiet (by simp), quiet (by simp), ?_, quiet (by simp), ?_,
      quiet (by simp), quiet (by simp), quiet (by simp), quiet (by simp), quiet (by simp),
      quiet (by simp), quiet (by simp), quiet (by simp), quiet (by simp), ?_, quiet (by simp),
      quiet (by simp), trivial⟩
    · rintro k hl e ⟨-, -, -, tunnelId, r, hh, -⟩
      cases e
      cases hh
    · rintro k hl e ⟨-, -, -, tunnelId, r, hh, -⟩
      cases e
      cases hh
    · rintro k hl e ⟨-, -, -, tunnelId, r, hh, hend | hend⟩
      · cases e
        cases hh
        cases hend.2.1
      · cases e
        cases hh
        cases hend.2
  · have quiet : ∀ {c : ClientConnection} {l : ClientConnection.Label}, l ≠ .poll →
        ¬ c.LeavesOpen l := fun hne ho => hne ho.1
    refine System.runWithin_of_exec rfl ⟨quiet (by simp), quiet (by simp), quiet (by simp), ?_, ?_,
      quiet (by simp), quiet (by simp), trivial⟩
    · rintro ⟨-, -, r, hh, -⟩
      cases hh
    · rintro ⟨-, -, r, hh, hend⟩
      cases hh
      cases hend.2

/-- The client ends its side of the command stream and keeps the connection. -/
def finishedRun : List Label :=
  listeningRun ++ [.server (.handler 0 .poll), .server (.handler 0 .readEof),
    .server (.handler 0 .poll)]

/-- The task is over, the connection open, and the ingress goes on handing out the tunnel. -/
theorem finished_tunnel_listed :
    (¬ ∀ (ls : List Label) (s : ServerSystem 64),
      (system 64 Server.serverS fun _ => .udp).Run ls s → s.NoneOutlives) ∧
    ∃ s, (system 64 Server.serverS fun _ => .udp).Run finishedRun s ∧
      s.handler 0 = .served (.ok ()) ∧ (s.server.connection 0).lost = none ∧
      (s.ingress 0).list.tunnels = [0] := by
  have h : (system 64 Server.serverS fun _ => .udp).Run finishedRun _ := System.run_of_exec rfl
  refine ⟨fun hall => ?_, _, h, rfl, rfl, rfl⟩
  have hlost := (hall _ _ h).closed 0 rfl rfl
  cases hlost

end ServerSystem

end Siffleux
