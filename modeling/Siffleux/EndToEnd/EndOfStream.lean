import Siffleux.Common.Protocols.HalfClose
import Siffleux.Foundation.Relay

/-!
# The end of a stream, end to end

One TCP connection from its origin to its target: the bridge of `TcpIngress::handle_stream` at one
end of a tunnel's stream, and `TcpEgress::handle_stream` at the other, which connects to the target
and runs a bridge of its own, or shuts the stream down when it gets no socket or no connection.

The stream keeps the order of each direction, delivers no more than was written and a finish only
after all of it; either side of it may fail at any time, as after a reset or when the tunnel is
lost.  It takes a window beyond what has been read at its other end.  The window that all streams of
a tunnel share is left out.

The copy "tunnel read -> TCP write" calls `shutdown` whichever way it leaves.  So the other side of
its TCP connection sees an orderly end of stream after an error or a cancellation, too.

* `Linked` — the invariant of the two bridges: each direction is relayed.
* `end_of_stream_whole` — ends are orderly in the runs in which those copies leave at the end of
  their stream, and reach a target.
* `aborted_shown_as_complete` — one that is not.
-/

namespace Siffleux

open ByteBuf Copying Transition

/-! ## Two bridges on one stream -/

namespace TcpStreamBridge

/-- What the stream may do at `near`'s end of it; `gaveUp` says that it was shut down at the other
end in place of `far`. -/
def isDelivered (far : TcpStreamBridge) (gaveUp : Bool) (near : TcpStreamBridge) : Label → Bool
  | .tcpToTunnel cl =>
      mayCredit Siffleux.tcpToTunnel.window far.tunnelToTcp.inlet.taken near.tcpToTunnel cl
  | .tunnelToTcp cl =>
      mayDeliver far.tcpToTunnel.outlet.accepted
        (far.tcpToTunnel.outlet.terminated.contains .finish || gaveUp) near.tunnelToTcp cl

/-- Each of two bridges relays what the other one sends. -/
structure Linked (nearGaveUp farGaveUp : Bool) (near far : TcpStreamBridge) : Prop where
  sent : Relays Siffleux.tcpToTunnel Siffleux.tunnelToTcp nearGaveUp
    near.tcpToTunnel far.tunnelToTcp
  received : Relays Siffleux.tcpToTunnel Siffleux.tunnelToTcp farGaveUp
    far.tcpToTunnel near.tunnelToTcp

/-- An end that either bridge has shown to its TCP connection is the other connection's own end,
and everything that came before it was forwarded. -/
structure Orderly (near far : TcpStreamBridge) : Prop where
  sent : Whole near.tcpToTunnel far.tunnelToTcp
  received : Whole far.tcpToTunnel near.tunnelToTcp

variable {near near' far : TcpStreamBridge} {nearGaveUp farGaveUp c : Bool} {l : Label}

lemma linked_new : Linked nearGaveUp farGaveUp .new .new := ⟨relays_new, relays_new⟩

lemma orderly_new : Orderly .new .new := ⟨whole_new, whole_new⟩

lemma Linked.symm (h : Linked nearGaveUp farGaveUp near far) :
    Linked farGaveUp nearGaveUp far near := ⟨h.received, h.sent⟩

lemma Orderly.symm (h : Orderly near far) : Orderly far near := ⟨h.received, h.sent⟩

/-- A stream is finished by a copy that has finished. -/
lemma finished_of_contains {t : CopyTask UInt8 StreamEnd} (h : Faithful Siffleux.tcpToTunnel t)
    (hfin : t.outlet.terminated.contains .finish = true) : t.pc = .finished := by
  rw [h.terminated] at hfin
  cases hpc : t.pc with
  | finished => rfl
  | copying | failed | cancelled =>
      rw [hpc] at hfin
      cases hfin

theorem Linked.step (h : Linked nearGaveUp farGaveUp near far) (hs : near.step c l = some near')
    (hd : isDelivered far farGaveUp near l = true) : Linked nearGaveUp farGaveUp near' far := by
  obtain ⟨d, cl, rfl, ht, hother, -⟩ := step_cases hs
  cases d with
  | tcpToTunnel =>
      have hother : near'.tunnelToTcp = near.tunnelToTcp := hother
      exact ⟨h.sent.first_step ht, by rw [hother]; exact h.received⟩
  | tunnelToTcp =>
      have hother : near'.tcpToTunnel = near.tcpToTunnel := hother
      refine ⟨by rw [hother]; exact h.sent, h.received.second_step ht hd fun hended => ?_⟩
      rcases (Bool.or_eq_true ..).mp hended with hfin | hgave
      · exact Or.inr (finished_of_contains h.received.first hfin)
      · exact Or.inl hgave

/-- The copy to the TCP connection leaves, if it does, where it has come to the end of its stream
and has written everything, and that end was nobody else's. -/
def leavesAtEof (c gaveUp : Bool) (b : TcpStreamBridge) : Label → Prop
  | .tcpToTunnel _ => True
  | .tunnelToTcp cl => cl.leaves.isSome = true →
      gaveUp = false ∧ (b.step c (.tunnelToTcp .readEof)).isSome = true

theorem Orderly.step (h : Orderly near far) (hl : Linked nearGaveUp farGaveUp near far)
    (hs : near.step c l = some near') (hok : leavesAtEof c farGaveUp near l) :
    Orderly near' far := by
  obtain ⟨d, cl, rfl, ht, hother, -⟩ := step_cases hs
  cases d with
  | tcpToTunnel =>
      have hother : near'.tunnelToTcp = near.tunnelToTcp := hother
      exact ⟨h.sent.first_step ht, by rw [hother]; exact h.received⟩
  | tunnelToTcp =>
      have hother : near'.tcpToTunnel = near.tcpToTunnel := hother
      refine ⟨by rw [hother]; exact h.sent, h.received.second_step hl.received ht fun hleave => ?_⟩
      obtain ⟨hgave, heof⟩ := hok hleave
      refine ⟨hgave, ?_⟩
      exact (isSome_step .tunnelToTcp .readEof).symm.trans heof

end TcpStreamBridge

/-! ## A connection from end to end -/

/-- The task `TcpEgress::handle_stream` spawns: connecting to the target, in its bridge, or gone
after shutting the stream down. -/
inductive TargetPc where
  | connecting
  | bridged
  | unreachable
  deriving DecidableEq, Repr

structure TcpTransfer where
  ingress : TcpStreamBridge
  target : TargetPc
  egress : TcpStreamBridge
  listenerCancelled : Bool
  processCancelled : Bool
  deriving DecidableEq, Repr

namespace TcpTransfer

open TcpStreamBridge

def new : TcpTransfer := ⟨.new, .connecting, .new, false, false⟩

inductive Label where
  | ingress (l : TcpStreamBridge.Label)
  | connected
  | connectFails
  | egress (l : TcpStreamBridge.Label)
  | cancelListener
  | cancelProcess
  deriving DecidableEq, Repr

def hasGivenUp (s : TcpTransfer) : Bool := s.target = .unreachable

/-- The egress learns of the stream when something has been sent on it. -/
def isOffered (s : TcpTransfer) : Bool := s.target = .connecting && s.ingress.isAnnounced

def step (s : TcpTransfer) : Label → Option TcpTransfer
  | .ingress l =>
      if isDelivered s.egress s.hasGivenUp s.ingress l then
        (s.ingress.step s.listenerCancelled l).map fun b => { s with ingress := b }
      else none
  | .connected => if s.isOffered then some { s with target := .bridged } else none
  | .connectFails => if s.isOffered then some { s with target := .unreachable } else none
  | .egress l =>
      if s.target = .bridged ∧ isDelivered s.ingress false s.egress l then
        (s.egress.step s.processCancelled l).map fun b => { s with egress := b }
      else none
  | .cancelListener => some { s with listenerCancelled := true }
  | .cancelProcess => some { s with processCancelled := true }

def system : System TcpTransfer Label := ⟨new, step⟩

/-- Every step with its guard and its effect. -/
inductive Step (s : TcpTransfer) : Label → TcpTransfer → Prop
  | ingress {l : TcpStreamBridge.Label} {b : TcpStreamBridge}
      (hd : isDelivered s.egress s.hasGivenUp s.ingress l = true)
      (hb : s.ingress.step s.listenerCancelled l = some b) :
      Step s (.ingress l) { s with ingress := b }
  | connected (ho : s.isOffered = true) : Step s .connected { s with target := .bridged }
  | connectFails (ho : s.isOffered = true) : Step s .connectFails { s with target := .unreachable }
  | egress {l : TcpStreamBridge.Label} {b : TcpStreamBridge} (ht : s.target = .bridged)
      (hd : isDelivered s.ingress false s.egress l = true)
      (hb : s.egress.step s.processCancelled l = some b) : Step s (.egress l) { s with egress := b }
  | cancelListener : Step s .cancelListener { s with listenerCancelled := true }
  | cancelProcess : Step s .cancelProcess { s with processCancelled := true }

variable {s s' : TcpTransfer} {ls : List Label} {l : Label}

theorem step_cases (hs : s.step l = some s') : Step s l s' := by
  cases l with
  | ingress l =>
      simp only [step, Option.ite_none_right_eq_some, Option.map_eq_some_iff] at hs
      obtain ⟨hd, b, hb, rfl⟩ := hs
      exact .ingress hd hb
  | connected =>
      simp only [step, Option.ite_none_right_eq_some, Option.some.injEq] at hs
      obtain ⟨ho, rfl⟩ := hs
      exact .connected ho
  | connectFails =>
      simp only [step, Option.ite_none_right_eq_some, Option.some.injEq] at hs
      obtain ⟨ho, rfl⟩ := hs
      exact .connectFails ho
  | egress l =>
      simp only [step, Option.ite_none_right_eq_some, Option.map_eq_some_iff] at hs
      obtain ⟨⟨ht, hd⟩, b, hb, rfl⟩ := hs
      exact .egress ht hd hb
  | cancelListener =>
      rw [← Option.some.inj hs]
      exact .cancelListener
  | cancelProcess =>
      rw [← Option.some.inj hs]
      exact .cancelProcess

/-- The two bridges are linked; the egress may have given up in place of its own. -/
def IsLinked (s : TcpTransfer) : Prop := Linked false s.hasGivenUp s.ingress s.egress

theorem IsLinked.step (h : s.IsLinked) (hs : s.step l = some s') : s'.IsLinked := by
  have hconnecting : s.isOffered = true → ∀ gaveUp, Linked false gaveUp s.ingress s.egress := by
    intro ho gaveUp
    simp only [isOffered, Bool.and_eq_true, decide_eq_true_eq] at ho
    have hgave : s.hasGivenUp = false := by simp [hasGivenUp, ho.1]
    rw [IsLinked, hgave] at h
    exact ⟨h.sent, h.received.mono⟩
  cases step_cases hs with
  | ingress hd hb => exact Linked.step h hb hd
  | connected ho => exact hconnecting ho _
  | connectFails ho => exact hconnecting ho _
  | egress ht hd hb => exact ((Linked.symm h).step hb hd).symm
  | cancelListener | cancelProcess => exact h

lemma isLinked_run (h : system.Run ls s) : s.IsLinked := by
  induction h with
  | nil => exact linked_new
  | snoc _ hs ih => exact ih.step hs

/-! ## Orderly ends -/

/-- A copy to a TCP connection leaves only at the end of its stream, and at the ingress only if
the target was reached. -/
def leavesOrderly (s : TcpTransfer) : Label → Prop
  | .ingress l => leavesAtEof s.listenerCancelled s.hasGivenUp s.ingress l
  | .egress l => leavesAtEof s.processCancelled false s.egress l
  | _ => True

theorem orderly_step (hi : s.IsLinked) (h : Orderly s.ingress s.egress) (hok : s.leavesOrderly l)
    (hs : s.step l = some s') : Orderly s'.ingress s'.egress := by
  cases step_cases hs with
  | ingress hd hb => exact h.step hi hb hok
  | egress ht hd hb => exact (h.symm.step (Linked.symm hi) hb hok).symm
  | connected | connectFails | cancelListener | cancelProcess => exact h

/-- **No end of stream is made up**, in the runs in which the copies to the two TCP connections
leave at the end of what they read. -/
theorem end_of_stream_whole (h : system.RunWithin leavesOrderly ls s) :
    Orderly s.ingress s.egress := by
  induction h with
  | nil => exact orderly_new
  | snoc hr hok hs ih => exact orderly_step (isLinked_run hr.run) ih hok hs

/-- The origin ends its side behind one byte and the target answers with an end; both are passed
on. -/
theorem end_of_stream_whole_half_closed : ∃ ls s, system.RunWithin leavesOrderly ls s ∧
    s.egress.tunnelToTcp.outlet = ⟨[1], [.shutdown], false, 0⟩ ∧
    s.ingress.tunnelToTcp.outlet = ⟨[], [.shutdown], false, 0⟩ ∧ Orderly s.ingress s.egress := by
  have hstays : ∀ {c gaveUp : Bool} {b : TcpStreamBridge} {cl : Copying.Label UInt8},
      cl.leaves = none → leavesAtEof c gaveUp b (.tunnelToTcp cl) := fun hcl hleave => by
    rw [hcl] at hleave
    cases hleave
  have h : system.RunWithin leavesOrderly
      [.ingress (.tcpToTunnel (.sends [1])), .ingress (.tcpToTunnel (.read 1)),
        .ingress (.tcpToTunnel (.write 1)), .connected, .egress (.tunnelToTcp (.sends [1])),
        .egress (.tunnelToTcp (.read 1)), .egress (.tunnelToTcp (.drains 1)),
        .egress (.tunnelToTcp (.write 1)), .ingress (.tcpToTunnel .ends),
        .ingress (.tcpToTunnel .readEof),
        .egress (.tunnelToTcp .ends), .egress (.tunnelToTcp .readEof),
        .egress (.tcpToTunnel .ends), .egress (.tcpToTunnel .readEof),
        .ingress (.tunnelToTcp .ends), .ingress (.tunnelToTcp .readEof)] _ :=
    System.runWithin_of_exec rfl
      ⟨trivial, trivial, trivial, trivial, hstays rfl, hstays rfl, hstays rfl, hstays rfl, trivial,
        trivial, hstays rfl, fun _ => ⟨rfl, rfl⟩, trivial, trivial, hstays rfl, fun _ => ⟨rfl, rfl⟩,
        trivial⟩
  exact ⟨_, _, h, rfl, rfl, end_of_stream_whole h⟩

/-- The origin's connection fails between its two bytes.  The stream is reset, and what the target
gets to see is one byte and an orderly end. -/
theorem aborted_shown_as_complete : ∃ ls s, system.Run ls s ∧
    s.ingress.tcpToTunnel.inlet = ⟨[1, 2], 1, false, true⟩ ∧
    s.ingress.tcpToTunnel.outlet = ⟨[1], [.reset Code.unknownError], false, 2097151⟩ ∧
    s.egress.tunnelToTcp.outlet = ⟨[1], [.shutdown], false, 0⟩ ∧
    ¬ Orderly s.ingress s.egress := by
  have h : system.Run
      [.ingress (.tcpToTunnel (.sends [1, 2])), .ingress (.tcpToTunnel (.read 1)),
        .ingress (.tcpToTunnel (.write 1)), .connected, .egress (.tunnelToTcp (.sends [1])),
        .egress (.tunnelToTcp (.read 1)), .egress (.tunnelToTcp (.drains 1)),
        .egress (.tunnelToTcp (.write 1)), .ingress (.tcpToTunnel .inletFails),
        .ingress (.tcpToTunnel .readFails),
        .egress (.tunnelToTcp .inletFails), .egress (.tunnelToTcp .readFails)] _ :=
    System.run_of_exec rfl
  refine ⟨_, _, h, rfl, rfl, rfl, fun horderly => ?_⟩
  have hended : false = true := (horderly.sent (by decide)).1
  cases hended

end TcpTransfer

end Siffleux
