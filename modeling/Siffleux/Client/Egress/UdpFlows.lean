import Mathlib.Logic.Function.Basic
import Siffleux.Common.Frames.Datagram

/-!
# The flow table of the UDP egress

`client/egress/udp_egress.rs`, `process_datagram`: for every origin that datagrams come from the
main loop of the egress keeps the sending side of a bounded channel; a task of its own sends what
comes out of the channel to the target.  A sender is named by the number of the task it feeds.

`processDatagram_returns_iff` — the main loop gets through a datagram exactly when the origin in
front of it is whole.
-/

namespace Siffleux

open ByteBuf

/-- `MAX_MESSAGES_RECEIVED`. -/
def maxMessagesReceived : ℕ := 128

/-- `mpsc::channel::<Bytes>(MAX_MESSAGES_RECEIVED)`. -/
structure Channel where
  queue : List Bytes
  receiverDropped : Bool
  deriving DecidableEq, Repr

namespace Channel

def new : Channel := ⟨[], false⟩

/-- `try_send`, whose error the caller ignores: full or abandoned channels drop the message. -/
def trySend (c : Channel) (bytes : Bytes) : Channel :=
  if c.receiverDropped ∨ maxMessagesReceived ≤ c.queue.length then c
  else { c with queue := c.queue ++ [bytes] }

end Channel

/-- A spawned tunnel-to-socket task: the origin it works for and the channel it receives from. -/
structure Flow where
  origin : SocketAddr
  channel : Channel
  deriving DecidableEq, Repr

/-- `udp_sockets`, and the tasks spawned so far. -/
structure UdpFlows where
  udpSockets : SocketAddr → Option ℕ
  flows : List Flow

namespace UdpFlows

def new : UdpFlows := ⟨fun _ => none, []⟩

/-- `process_datagram` after the origin has been read. -/
def route (s : UdpFlows) (origin : SocketAddr) (bytes : Bytes) : UdpFlows :=
  match s.udpSockets origin with
  | some i =>
      { s with flows := s.flows.modify i fun f => { f with channel := f.channel.trySend bytes } }
  | none =>
      { udpSockets := Function.update s.udpSockets origin (some s.flows.length)
        flows := s.flows ++ [⟨origin, Channel.new.trySend bytes⟩] }

/-- `process_datagram`. -/
def processDatagram (s : UdpFlows) (bytes : Bytes) : Outcome UdpFlows :=
  (extractOriginSocketAddrFromDatagram bytes).map fun r =>
    match r.1 with
    | some origin => s.route origin r.2
    | none => s

theorem processDatagram_returns_iff (s : UdpFlows) (bytes : Bytes) :
    (∃ s', s.processDatagram bytes = .ret s') ↔ OriginHeaderWhole bytes := by
  refine ⟨?_, fun h => ?_⟩
  · rintro ⟨s', hs⟩
    obtain ⟨r, hr, -⟩ := Outcome.map_eq_ret_iff.mp hs
    exact .of_extract hr
  · obtain ⟨r, hr⟩ := h.extract
    exact ⟨_, Outcome.map_eq_ret_iff.mpr ⟨r, hr, rfl⟩⟩

end UdpFlows

end Siffleux
