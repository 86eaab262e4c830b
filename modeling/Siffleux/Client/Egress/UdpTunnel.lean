import Siffleux.Client.Egress.UdpFlows
import Siffleux.Foundation.Transition

/-!
# The UDP egress under one tunnel

`client/egress/udp_egress.rs`: the main loop of `start_tunnel` between two connections, and the two
tasks of every flow, `pipe_tunnel_to_socket_datagram` and `pipe_socket_to_tunnel_datagram`, with any
number of flows and every interleaving.

The table and the channels are those of `UdpFlows`.  What one call of `process_datagram` does for a
new origin is cut in three, since the task it spawns runs at once; `datagram_route` says that the
three are `UdpFlows.route` when nothing comes between them.

An expiry message carries an address only; it is recorded with the task that sent it.
`delivered`, `sentToTarget`, `received` and `sentToTunnel` are the logs the results are about.
-/

namespace Siffleux

open ByteBuf Transition

/-- Where a tunnel-to-socket task is.  In `running` it sends what is left of the batch it has
received, and selects when that is nothing. -/
inductive FlowPc where
  | notSpawned
  | creating
  | running (batch : List Bytes)
  | leaving (cancelsSocket : Bool)
  | ended
  deriving DecidableEq, Repr

/-- Where the socket-to-tunnel task is. -/
inductive ReplyPc where
  | notSpawned
  | running
  | ended
  | panicked
  deriving DecidableEq, Repr

/-- The two tasks of a flow, and the receive buffer of the second. -/
structure FlowTask extends Flow where
  pc : FlowPc
  announced : Bool
  socketCancelled : Bool
  reply : ReplyPc
  buffer : Bytes
  deriving DecidableEq, Repr

/-- What a task sends when it gives its flow up. -/
structure Expiry where
  sender : ℕ
  socketAddr : SocketAddr
  deriving DecidableEq, Repr

/-- Where the main loop is: in its select, or within `process_datagram` with the sender of a task
it has just spawned. -/
inductive UdpMainPc where
  | waiting
  | trySend (origin : SocketAddr) (bytes : Bytes) (task : ℕ)
  | insert (origin : SocketAddr) (task : ℕ)
  | ended
  | panicked
  deriving DecidableEq, Repr

structure UdpTunnel where
  main : UdpMainPc
  udpSockets : SocketAddr → Option ℕ
  nextTask : ℕ
  flow : ℕ → FlowTask
  expired : List Expiry
  tunnelClosed : Bool
  cancelled : Bool
  delivered : List Bytes
  sentToTarget : List (ℕ × Bytes)
  received : List (ℕ × Bytes)
  sentToTunnel : List Bytes

/-- `[0u8; 1500]`. -/
def replyBufferSize : ℕ := 1500

/-- `recv(&mut buffer)`: the front of the buffer is overwritten, and what does not fit is lost. -/
def recvInto (buffer data : Bytes) : Bytes × ℕ :=
  let size := min data.length buffer.length
  (data.take size ++ buffer.drop size, size)

lemma recvInto_size_le (buffer data : Bytes) : (recvInto buffer data).2 ≤ buffer.length := by
  simp only [recvInto]
  omega

lemma recvInto_length (buffer data : Bytes) :
    (recvInto buffer data).1.length = buffer.length := by
  simp only [recvInto, List.length_append, List.length_take, List.length_drop]
  omega

/-- The front of the buffer is what was received. -/
lemma recvInto_take (buffer data : Bytes) :
    (recvInto buffer data).1.take (recvInto buffer data).2 =
      data.take (recvInto buffer data).2 := by
  have hsize : (data.take (min data.length buffer.length)).length =
      min data.length buffer.length := by
    rw [List.length_take]
    omega
  simp only [recvInto]
  rw [List.take_append_of_le_length (by omega), List.take_take, Nat.min_self]

namespace FlowTask

/-- A task that has not been spawned. -/
def absent : FlowTask where
  origin := .v4 ⟨Vector.replicate 4 0⟩ 0
  channel := .new
  pc := .notSpawned
  announced := false
  socketCancelled := false
  reply := .notSpawned
  buffer := []

/-- A task as it is spawned. -/
def spawn (origin : SocketAddr) : FlowTask where
  origin := origin
  channel := .new
  pc := .creating
  announced := false
  socketCancelled := false
  reply := .notSpawned
  buffer := List.replicate replyBufferSize 0

def trySend (f : FlowTask) (bytes : Bytes) : FlowTask :=
  { f with channel := f.channel.trySend bytes }

/-- The task returns, which drops its receiver. -/
def endTask (f : FlowTask) : FlowTask :=
  { f with pc := .ended, channel := { f.channel with receiverDropped := true } }

end FlowTask

namespace UdpTunnel

def new : UdpTunnel where
  main := .waiting
  udpSockets _ := none
  nextTask := 0
  flow _ := .absent
  expired := []
  tunnelClosed := false
  cancelled := false
  delivered := []
  sentToTarget := []
  received := []
  sentToTunnel := []

inductive Label where
  | datagram (bytes : Bytes)
  | trySend
  | insert
  | expire
  | leaveClosed
  | leaveCancelled
  | socketFails (i : ℕ)
  | socketCreated (i : ℕ)
  | recvMany (i : ℕ)
  | send (i : ℕ) (ok : Bool)
  | idle (i : ℕ)
  | taskCancelled (i : ℕ)
  | taskClosed (i : ℕ)
  | taskReturns (i : ℕ)
  | reply (i : ℕ) (data : Bytes) (ok : Bool)
  | replyReturns (i : ℕ)
  | closeTunnel
  | cancel
  deriving DecidableEq

def setFlow (s : UdpTunnel) (i : ℕ) (f : FlowTask) : UdpTunnel :=
  { s with flow := Function.update s.flow i f }

@[simp] lemma setFlow_flow (s : UdpTunnel) (i : ℕ) (f : FlowTask) :
    (s.setFlow i f).flow = Function.update s.flow i f := rfl

/-- Of the task that was set, and of the others. -/
lemma flow_update {flow : ℕ → FlowTask} {i : ℕ} {f : FlowTask} {P : FlowTask → Prop} (j : ℕ)
    (hself : j = i → P f) (hother : j ≠ i → P (flow j)) : P (Function.update flow i f j) := by
  rcases eq_or_ne j i with rfl | hne
  · rw [Function.update_self]
    exact hself rfl
  · rw [Function.update_of_ne hne]
    exact hother hne

/-- The main loop has not been left. -/
def mainAlive : UdpMainPc → Bool
  | .waiting | .trySend .. | .insert .. => true
  | _ => false

/-- The table's entry for an origin, with the sender that is about to be inserted. -/
def current (s : UdpTunnel) (origin : SocketAddr) : Option ℕ :=
  match s.main with
  | .trySend o _ i | .insert o i => if origin = o then some i else s.udpSockets origin
  | _ => s.udpSockets origin

/-- The sender of the task's channel has not been dropped. -/
def senderAlive (s : UdpTunnel) (i : ℕ) : Bool :=
  mainAlive s.main && s.current (s.flow i).origin = some i

/-- The task gives its flow up: nobody reads the message once the main loop is left. -/
def announce (s : UdpTunnel) (i : ℕ) (cancelsSocket : Bool) : UdpTunnel :=
  { s.setFlow i { s.flow i with pc := .leaving cancelsSocket, announced := true } with
    expired := if mainAlive s.main then s.expired ++ [⟨i, (s.flow i).origin⟩] else s.expired }

/-- `process_datagram`, to the first thing that other tasks can see. -/
def processDatagram (s : UdpTunnel) (bytes : Bytes) : UdpTunnel :=
  match extractOriginSocketAddrFromDatagram bytes with
  | .panic => { s with main := .panicked }
  | .ret (none, _) => s
  | .ret (some origin, payload) =>
      match s.udpSockets origin with
      | some i => s.setFlow i ((s.flow i).trySend payload)
      | none => { s.setFlow s.nextTask (.spawn origin) with
          main := .trySend origin payload s.nextTask
          nextTask := s.nextTask + 1 }

/-- One round of `pipe_socket_to_tunnel_datagram` after `recv`; `ok` is whether the tunnel took the
datagram, which is not looked at. -/
def sendReply (s : UdpTunnel) (i : ℕ) (data : Bytes) (ok : Bool) : UdpTunnel :=
  let (buffer, size) := recvInto (s.flow i).buffer data
  let s' := { s.setFlow i { s.flow i with buffer := buffer } with
    received := s.received ++ [(i, data.take size)] }
  match toDatagram (s.flow i).origin buffer size with
  | .ret bytes => if ok then { s' with sentToTunnel := s.sentToTunnel ++ [bytes] } else s'
  | .panic => s.setFlow i { s.flow i with reply := .panicked }

/-- A read from the tunnel that fails, a receive that fails, and a datagram that the target's socket
does not take change nothing, and only the last is a step. -/
def step (s : UdpTunnel) : Label → Option UdpTunnel
  | .datagram bytes =>
      match s.main with
      | .waiting => some { s.processDatagram bytes with delivered := s.delivered ++ [bytes] }
      | _ => none
  | .trySend =>
      match s.main with
      | .trySend origin bytes i =>
          some { s.setFlow i ((s.flow i).trySend bytes) with main := .insert origin i }
      | _ => none
  | .insert =>
      match s.main with
      | .insert origin i => some { s with
          udpSockets := Function.update s.udpSockets origin (some i)
          main := .waiting }
      | _ => none
  | .expire =>
      match s.main, s.expired with
      | .waiting, m :: expired => some { s with
          expired := expired
          udpSockets := Function.update s.udpSockets m.socketAddr none }
      | _, _ => none
  | .leaveClosed =>
      match s.main, s.tunnelClosed with
      | .waiting, true => some { s with main := .ended }
      | _, _ => none
  | .leaveCancelled =>
      match s.main, s.cancelled with
      | .waiting, true => some { s with main := .ended, tunnelClosed := true }
      | _, _ => none
  | .socketFails i =>
      match (s.flow i).pc with
      | .creating => some (s.announce i false)
      | _ => none
  | .socketCreated i =>
      match (s.flow i).pc with
      | .creating => some (s.setFlow i { s.flow i with pc := .running [], reply := .running })
      | _ => none
  | .recvMany i =>
      match (s.flow i).pc with
      | .running [] =>
          match (s.flow i).channel.queue with
          | [] =>
              -- `recv_many` answers 0 when there is no sender any more
              if s.senderAlive i then none else some (s.setFlow i (s.flow i).endTask)
          | queue => some (s.setFlow i { s.flow i with
              pc := .running (queue.take maxMessagesReceived)
              channel := ⟨queue.drop maxMessagesReceived, (s.flow i).channel.receiverDropped⟩ })
      | _ => none
  | .send i ok =>
      match (s.flow i).pc with
      | .running (bytes :: batch) =>
          let s' := s.setFlow i { s.flow i with pc := .running batch }
          some (if ok then { s' with sentToTarget := s.sentToTarget ++ [(i, bytes)] } else s')
      | _ => none
  | .idle i =>
      match (s.flow i).pc with
      | .running [] => some (s.announce i true)
      | _ => none
  | .taskCancelled i =>
      match (s.flow i).pc, s.cancelled with
      | .running [], true => some (s.setFlow i (s.flow i).endTask)
      | _, _ => none
  | .taskClosed i =>
      match (s.flow i).pc, s.tunnelClosed with
      | .running [], true => some (s.announce i false)
      | _, _ => none
  | .taskReturns i =>
      match (s.flow i).pc with
      | .leaving cancelsSocket => some (s.setFlow i { (s.flow i).endTask with
          socketCancelled := cancelsSocket })
      | _ => none
  | .reply i data ok =>
      match (s.flow i).reply with
      | .running => some (s.sendReply i data ok)
      | _ => none
  | .replyReturns i =>
      match (s.flow i).reply, (s.flow i).socketCancelled || s.tunnelClosed || s.cancelled with
      | .running, true => some (s.setFlow i { s.flow i with reply := .ended })
      | _, _ => none
  | .closeTunnel => some { s with tunnelClosed := true }
  | .cancel => some { s with cancelled := true }

def system : System UdpTunnel Label := ⟨new, step⟩

/-! ## What a step can do -/

/-- The log with one more datagram. -/
def deliver (s : UdpTunnel) (bytes : Bytes) : UdpTunnel :=
  { s with delivered := s.delivered ++ [bytes] }

/-- Every step with its guard and its effect. -/
inductive Step (s : UdpTunnel) : Label → UdpTunnel → Prop
  | malformed {bytes : Bytes} (hm : s.main = .waiting)
      (he : extractOriginSocketAddrFromDatagram bytes = .panic) :
      Step s (.datagram bytes) { s.deliver bytes with main := .panicked }
  | noOrigin {bytes payload : Bytes} (hm : s.main = .waiting)
      (he : extractOriginSocketAddrFromDatagram bytes = .ret (none, payload)) :
      Step s (.datagram bytes) (s.deliver bytes)
  | routed {bytes payload : Bytes} {origin : SocketAddr} {i : ℕ} (hm : s.main = .waiting)
      (he : extractOriginSocketAddrFromDatagram bytes = .ret (some origin, payload))
      (hi : s.udpSockets origin = some i) :
      Step s (.datagram bytes) ((s.deliver bytes).setFlow i ((s.flow i).trySend payload))
  | spawned {bytes payload : Bytes} {origin : SocketAddr} (hm : s.main = .waiting)
      (he : extractOriginSocketAddrFromDatagram bytes = .ret (some origin, payload))
      (hi : s.udpSockets origin = none) :
      Step s (.datagram bytes) { (s.deliver bytes).setFlow s.nextTask (.spawn origin) with
        main := .trySend origin payload s.nextTask
        nextTask := s.nextTask + 1 }
  | triedSend {origin : SocketAddr} {bytes : Bytes} {i : ℕ}
      (hm : s.main = .trySend origin bytes i) :
      Step s .trySend
        { s.setFlow i ((s.flow i).trySend bytes) with main := .insert origin i }
  | inserted {origin : SocketAddr} {i : ℕ} (hm : s.main = .insert origin i) :
      Step s .insert { s with
        udpSockets := Function.update s.udpSockets origin (some i)
        main := .waiting }
  | expired {m : Expiry} {ms : List Expiry} (hm : s.main = .waiting) (he : s.expired = m :: ms) :
      Step s .expire { s with
        expired := ms
        udpSockets := Function.update s.udpSockets m.socketAddr none }
  | leftClosed (hm : s.main = .waiting) (hc : s.tunnelClosed = true) :
      Step s .leaveClosed { s with main := .ended }
  | leftCancelled (hm : s.main = .waiting) (hc : s.cancelled = true) :
      Step s .leaveCancelled { s with main := .ended, tunnelClosed := true }
  | socketFailed {i : ℕ} (hi : (s.flow i).pc = .creating) :
      Step s (.socketFails i) (s.announce i false)
  | socketCreated {i : ℕ} (hi : (s.flow i).pc = .creating) :
      Step s (.socketCreated i)
        (s.setFlow i { s.flow i with pc := .running [], reply := .running })
  | noSender {i : ℕ} (hi : (s.flow i).pc = .running []) (hq : (s.flow i).channel.queue = [])
      (hs : s.senderAlive i = false) : Step s (.recvMany i) (s.setFlow i (s.flow i).endTask)
  | gotBatch {i : ℕ} (hi : (s.flow i).pc = .running []) (hq : (s.flow i).channel.queue ≠ []) :
      Step s (.recvMany i) (s.setFlow i { s.flow i with
        pc := .running ((s.flow i).channel.queue.take maxMessagesReceived)
        channel := ⟨(s.flow i).channel.queue.drop maxMessagesReceived,
          (s.flow i).channel.receiverDropped⟩ })
  | sent {i : ℕ} {bytes : Bytes} {batch : List Bytes}
      (hi : (s.flow i).pc = .running (bytes :: batch)) :
      Step s (.send i true) { s.setFlow i { s.flow i with pc := .running batch } with
        sentToTarget := s.sentToTarget ++ [(i, bytes)] }
  | notSent {i : ℕ} {bytes : Bytes} {batch : List Bytes}
      (hi : (s.flow i).pc = .running (bytes :: batch)) :
      Step s (.send i false) (s.setFlow i { s.flow i with pc := .running batch })
  | idled {i : ℕ} (hi : (s.flow i).pc = .running []) : Step s (.idle i) (s.announce i true)
  | taskCancelled {i : ℕ} (hi : (s.flow i).pc = .running []) (hc : s.cancelled = true) :
      Step s (.taskCancelled i) (s.setFlow i (s.flow i).endTask)
  | taskClosed {i : ℕ} (hi : (s.flow i).pc = .running []) (hc : s.tunnelClosed = true) :
      Step s (.taskClosed i) (s.announce i false)
  | taskReturned {i : ℕ} {cancelsSocket : Bool} (hi : (s.flow i).pc = .leaving cancelsSocket) :
      Step s (.taskReturns i)
        (s.setFlow i { (s.flow i).endTask with socketCancelled := cancelsSocket })
  | replied {i : ℕ} {data : Bytes} {ok : Bool} (hi : (s.flow i).reply = .running) :
      Step s (.reply i data ok) (s.sendReply i data ok)
  | replyReturned {i : ℕ} (hi : (s.flow i).reply = .running)
      (hc : ((s.flow i).socketCancelled || s.tunnelClosed || s.cancelled) = true) :
      Step s (.replyReturns i) (s.setFlow i { s.flow i with reply := .ended })
  | closed : Step s .closeTunnel { s with tunnelClosed := true }
  | cancelled : Step s .cancel { s with cancelled := true }

theorem step_cases {s s' : UdpTunnel} {l : Label} (hs : s.step l = some s') : Step s l s' := by
  cases l with
  | datagram bytes =>
      simp only [step, processDatagram] at hs
      split at hs
      · rename_i hm
        rw [← Option.some.inj hs]
        split
        · rename_i he
          exact .malformed hm he
        · rename_i he
          exact .noOrigin hm he
        · rename_i origin payload he
          split
          · rename_i i hi
            exact .routed hm he hi
          · rename_i hi
            exact .spawned hm he hi
      · cases hs
  | trySend =>
      simp only [step] at hs
      split at hs
      · rename_i hm
        rw [← Option.some.inj hs]
        exact .triedSend hm
      · cases hs
  | insert =>
      simp only [step] at hs
      split at hs
      · rename_i hm
        rw [← Option.some.inj hs]
        exact .inserted hm
      · cases hs
  | expire =>
      simp only [step] at hs
      split at hs
      · rename_i hm he
        rw [← Option.some.inj hs]
        exact .expired hm he
      · cases hs
  | leaveClosed =>
      simp only [step] at hs
      split at hs
      · rename_i hm hc
        rw [← Option.some.inj hs]
        exact .leftClosed hm hc
      · cases hs
  | leaveCancelled =>
      simp only [step] at hs
      split at hs
      · rename_i hm hc
        rw [← Option.some.inj hs]
        exact .leftCancelled hm hc
      · cases hs
  | socketFails i =>
      simp only [step] at hs
      split at hs
      · rename_i hi
        rw [← Option.some.inj hs]
        exact .socketFailed hi
      · cases hs
  | socketCreated i =>
      simp only [step] at hs
      split at hs
      · rename_i hi
        rw [← Option.some.inj hs]
        exact .socketCreated hi
      · cases hs
  | recvMany i =>
      simp only [step] at hs
      split at hs
      · rename_i hi
        split at hs
        · rename_i hq
          split_ifs at hs with hsender
          rw [← Option.some.inj hs]
          exact .noSender hi hq (Bool.eq_false_iff.mpr hsender)
        · rename_i hq
          rw [← Option.some.inj hs]
          exact .gotBatch hi hq
      · cases hs
  | send i ok =>
      simp only [step] at hs
      split at hs
      · rename_i hi
        rw [← Option.some.inj hs]
        cases ok with
        | true => exact .sent hi
        | false => exact .notSent hi
      · cases hs
  | idle i =>
      simp only [step] at hs
      split at hs
      · rename_i hi
        rw [← Option.some.inj hs]
        exact .idled hi
      · cases hs
  | taskCancelled i =>
      simp only [step] at hs
      split at hs
      · rename_i hi hc
        rw [← Option.some.inj hs]
        exact .taskCancelled hi hc
      · cases hs
  | taskClosed i =>
      simp only [step] at hs
      split at hs
      · rename_i hi hc
        rw [← Option.some.inj hs]
        exact .taskClosed hi hc
      · cases hs
  | taskReturns i =>
      simp only [step] at hs
      split at hs
      · rename_i hi
        rw [← Option.some.inj hs]
        exact .taskReturned hi
      · cases hs
  | reply i data ok =>
      simp only [step] at hs
      split at hs
      · rename_i hi
        rw [← Option.some.inj hs]
        exact .replied hi
      · cases hs
  | replyReturns i =>
      simp only [step] at hs
      split at hs
      · rename_i hi hc
        rw [← Option.some.inj hs]
        exact .replyReturned hi hc
      · cases hs
  | closeTunnel =>
      rw [← Option.some.inj hs]
      exact .closed
  | cancel =>
      rw [← Option.some.inj hs]
      exact .cancelled

/-- **A reply carries what the socket received, whatever was in the buffer before.**  Nothing but
the buffer of its own task changes, and the logs. -/
lemma sendReply_eq (s : UdpTunnel) (i : ℕ) (data : Bytes) (ok : Bool) :
    ∃ buffer payload, s.sendReply i data ok =
      { s.setFlow i { s.flow i with buffer := buffer } with
        received := s.received ++ [(i, payload)]
        sentToTunnel :=
          if ok then s.sentToTunnel ++ [originHeader (s.flow i).origin ++ payload]
          else s.sentToTunnel } := by
  have hsize : (recvInto (s.flow i).buffer data).2 ≤
      (recvInto (s.flow i).buffer data).1.length := by
    rw [recvInto_length]
    exact recvInto_size_le ..
  have hsent : toDatagram (s.flow i).origin (recvInto (s.flow i).buffer data).1
      (recvInto (s.flow i).buffer data).2 = .ret (originHeader (s.flow i).origin ++
        data.take (recvInto (s.flow i).buffer data).2) :=
    toDatagram_eq_ret_iff.mpr ⟨hsize, by rw [recvInto_take]⟩
  refine ⟨(recvInto (s.flow i).buffer data).1, data.take (recvInto (s.flow i).buffer data).2, ?_⟩
  simp only [sendReply, hsent]
  cases ok <;> rfl

/-! ## The three steps of a datagram -/

/-- The table and the channels of the tasks spawned so far. -/
def flows (s : UdpTunnel) : UdpFlows where
  udpSockets := s.udpSockets
  flows := (List.range s.nextTask).map fun i => (s.flow i).toFlow

/-- Changing one task changes one flow. -/
lemma flows_setFlow (s : UdpTunnel) (i : ℕ) (payload : Bytes) :
    (s.setFlow i ((s.flow i).trySend payload)).flows = { s.flows with
      flows := s.flows.flows.modify i fun f =>
        { f with channel := f.channel.trySend payload } } := by
  simp only [flows, setFlow, UdpFlows.mk.injEq, true_and]
  refine List.ext_getElem? fun j => ?_
  rw [List.getElem?_modify, List.getElem?_map, List.getElem?_map]
  rcases Nat.lt_or_ge j s.nextTask with hj | hj
  · rw [List.getElem?_range hj]
    rcases eq_or_ne j i with rfl | hne
    · simp [FlowTask.trySend]
    · simp [hne, hne.symm]
  · rw [List.getElem?_eq_none (by simpa using hj)]
    rfl

/-- Spawning a task adds one flow behind the others. -/
lemma flows_spawned (s : UdpTunnel) (f g : FlowTask) :
    (List.range (s.nextTask + 1)).map (fun i =>
      (Function.update (Function.update s.flow s.nextTask f) s.nextTask g i).toFlow) =
        s.flows.flows ++ [g.toFlow] := by
  rw [List.range_succ, List.map_append, List.map_singleton, Function.update_self]
  congr 1
  refine List.map_congr_left fun i hi => ?_
  have hne : i ≠ s.nextTask := Nat.ne_of_lt (List.mem_range.mp hi)
  rw [Function.update_of_ne hne, Function.update_of_ne hne]

/-- **A datagram with an origin is routed as `UdpFlows.route` says**, when no other task comes
between the steps. -/
theorem datagram_route {s : UdpTunnel} {bytes payload : Bytes} {origin : SocketAddr}
    (hm : s.main = .waiting)
    (he : extractOriginSocketAddrFromDatagram bytes = .ret (some origin, payload)) :
    ∃ ls s', system.exec s (.datagram bytes :: ls) = some s' ∧ s'.main = .waiting ∧
      s'.flows = s.flows.route origin payload := by
  cases hi : s.udpSockets origin with
  | some i =>
      have hs : system.step s (.datagram bytes) =
          some ((s.deliver bytes).setFlow i ((s.flow i).trySend payload)) := by
        simp only [system, step, hm, processDatagram, he, hi]
        rfl
      refine ⟨[], _, System.exec_cons hs [], hm, ?_⟩
      rw [UdpFlows.route, show s.flows.udpSockets origin = some i from hi]
      exact flows_setFlow (s.deliver bytes) i payload
  | none =>
      have hs : system.step s (.datagram bytes) =
          some { (s.deliver bytes).setFlow s.nextTask (.spawn origin) with
            main := .trySend origin payload s.nextTask
            nextTask := s.nextTask + 1 } := by
        simp only [system, step, hm, processDatagram, he, hi]
        rfl
      refine ⟨[.trySend, .insert], _, System.exec_cons hs _, rfl, ?_⟩
      rw [UdpFlows.route, show s.flows.udpSockets origin = none from hi]
      rw [show s.flows.flows.length = s.nextTask by simp [flows]]
      have hspawn : Function.update s.flow s.nextTask (.spawn origin) s.nextTask = .spawn origin :=
        Function.update_self ..
      refine congrArg (UdpFlows.mk _) ((flows_spawned s (.spawn origin)
        ((Function.update s.flow s.nextTask (.spawn origin) s.nextTask).trySend payload)).trans ?_)
      rw [hspawn]
      rfl

end UdpTunnel

end Siffleux
