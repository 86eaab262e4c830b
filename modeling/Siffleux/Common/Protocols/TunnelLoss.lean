import Siffleux.Common.Protocols.HalfClose
import Siffleux.Foundation.Progress

/-!
# The loss of a tunnel

When a tunnel's connection is gone, reads from its streams and writes to them fail.  A bridge learns
of that by its own next read or write only: nothing in it waits for the connection to close.

Its copy "tunnel read -> TCP write" reads until the stream has ended.  If the other side had not
ended it yet, the copy fails, cancels the bridge's token, and the bridge ends.  What it has buffered
it writes first, so it waits for a TCP connection that takes no more.  If the other side had ended
the stream, that copy is over, and the other one waits for the TCP connection alone.

* `lost_tunnel_ends_connection` — both halves of that, for any number of connections.
-/

namespace Siffleux

open ByteBuf Copying Transition

namespace TcpStreamBridge

/-- Reads from the tunnel's stream and writes to it fail. -/
def hasLostTunnel (b : TcpStreamBridge) : Prop :=
  b.tunnelToTcp.inlet.failed = true ∧ b.tcpToTunnel.outlet.failed = true

/-- Both copies are over. -/
def hasLeft (b : TcpStreamBridge) : Prop := ∀ d : Direction, (b.half d).pc ≠ .copying

/-- A step of the two copies, or one by which the TCP connection takes more after it was full. -/
def movesOn (b : TcpStreamBridge) : Label → Bool
  | .tcpToTunnel cl => cl.party = .task
  | .tunnelToTcp cl => b.tunnelToTcp.movesOn cl

/-- What the two copies have left once the tunnel is lost. -/
def remaining (b : TcpStreamBridge) : ℕ := b.tunnelToTcp.remaining + b.tcpToTunnel.attempts

/-- The other side had not ended the stream, so that the loss is an error for whoever reads it. -/
structure Failing (c : Bool) (b : TcpStreamBridge) : Prop where
  lost : b.hasLostTunnel
  unended : b.tunnelToTcp.inlet.ended = false
  unfinished : b.tunnelToTcp.pc ≠ .finished
  propagates : b.Propagates c

variable {b b' : TcpStreamBridge} {c c' : Bool} {l : Label}

lemma label_party (d : Direction) (cl : Copying.Label UInt8) :
    (d.label cl).party = .bridge ↔ cl.party = .task := by
  cases d <;> cases cl <;> simp [Direction.label, Label.party, Copying.Label.party]

theorem Failing.step (h : b.Failing c) (hs : b.step c l = some b') :
    b'.Failing c ∧ b'.remaining + (b.movesOn l).toNat ≤ b.remaining := by
  have hp := h.propagates.step hs
  obtain ⟨d, cl, rfl, ht, hother, -⟩ := step_cases hs
  simp only [remaining]
  cases d with
  | tcpToTunnel =>
      have hother : b'.tunnelToTcp = b.tunnelToTcp := hother
      obtain ⟨hf, hle⟩ := CopyTask.attempts_step h.lost.2 ht
      have hle : b'.tcpToTunnel.attempts + (b.movesOn (.tcpToTunnel cl)).toNat ≤
        b.tcpToTunnel.attempts := hle
      rw [hother]
      refine ⟨⟨⟨by rw [hother]; exact h.lost.1, hf⟩, by rw [hother]; exact h.unended,
        by rw [hother]; exact h.unfinished, hp⟩, ?_⟩
      simp only [Direction.label]
      omega
  | tunnelToTcp =>
      have hother : b'.tcpToTunnel = b.tcpToTunnel := hother
      obtain ⟨hf, hended, hle⟩ := CopyTask.remaining_step h.lost.1 ht
      have hle : b'.tunnelToTcp.remaining + (b.movesOn (.tunnelToTcp cl)).toNat ≤
        b.tunnelToTcp.remaining := hle
      rw [hother]
      refine ⟨⟨⟨hf, by rw [hother]; exact h.lost.2⟩, hended.trans h.unended,
        fun hfin => ?_, hp⟩, ?_⟩
      · exact h.unfinished (CopyTask.finished_of_step ht h.unended hfin)
      · simp only [Direction.label]
        omega

/-- The caller's token only adds to what is cancelled. -/
lemma Failing.mono (h : b.Failing c) (hc : c = true → c' = true) : b.Failing c' :=
  ⟨h.lost, h.unended, h.unfinished, h.propagates.mono hc⟩

/-- One of the two copies can move on: the one that reads the stream, until it is over; then the
other, which is cancelled. -/
theorem Failing.progress (h : b.Failing c) (hn : ¬ b.hasLeft) :
    ∃ l : Label, b.movesOn l = true ∧ (b.step c l).isSome = true := by
  by_cases hc : b.tunnelToTcp.pc = .copying
  · obtain ⟨cl, hcl, hen⟩ := CopyTask.enabled_of_inlet_failed (p := Siffleux.tunnelToTcp)
      (c := c || b.isCancelled) hc h.lost.1
    exact ⟨.tunnelToTcp cl, hcl, (isSome_step .tunnelToTcp cl).trans hen⟩
  · have hleft : b.tcpToTunnel.pc = .copying := by
      by_contra hne
      exact hn fun d => by cases d <;> assumption
    have htoken : c = true ∨ b.isCancelled = true := by
      cases hpc : b.tunnelToTcp.pc with
      | copying => exact absurd hpc hc
      | finished => exact absurd hpc h.unfinished
      | failed => exact Or.inr (h.propagates.token.mpr ⟨.tunnelToTcp, hpc⟩)
      | cancelled => exact h.propagates.cancelled .tunnelToTcp hpc
    exact ⟨.tcpToTunnel .cancelled, rfl, cancelled_enabled (d := .tcpToTunnel) hleft htoken⟩

/-- The stream has been read to its end, the TCP connection says nothing more, and nobody has
cancelled the bridge. -/
structure WaitsForTcp (c : Bool) (b : TcpStreamBridge) : Prop where
  streamRead : b.tunnelToTcp.pc = .finished
  buffer : b.tcpToTunnel.buffer = []
  unread : b.tcpToTunnel.inlet.unread = []
  quiet : b.tcpToTunnel.inlet.isOver = false
  uncancelled : c = false ∧ b.isCancelled = false

/-- Such a bridge does not move, even when its tunnel is lost. -/
theorem WaitsForTcp.no_step (h : b.WaitsForTcp c) (hl : l.party = .bridge) : b.step c l = none := by
  obtain ⟨rfl, htoken⟩ := h.uncancelled
  cases l with
  | tcpToTunnel cl =>
      have hcl := (label_party .tcpToTunnel cl).mp hl
      rw [step, htoken, Bool.or_false, CopyTask.no_step_of_idle h.buffer h.unread h.quiet hcl,
        Option.map_none]
  | tunnelToTcp cl =>
      have hcl := (label_party .tunnelToTcp cl).mp hl
      have hleft : b.tunnelToTcp.pc ≠ .copying := by simp [h.streamRead]
      rw [step, CopyTask.no_step_of_left hleft hcl, Option.map_none]

end TcpStreamBridge

namespace TcpBridges

open TcpStreamBridge

variable {s s' : TcpBridges} {ls : List Label} {l : Label} {k : ℕ}

/-- The steps of the two copies of connection `k`. -/
def isOwn (k : ℕ) : Label → Bool
  | .connection j l => j = k ∧ l.party = .bridge
  | .cancel => false

/-- These, and the TCP connection's, by which it takes more after it was full. -/
def movesOn (k : ℕ) (s : TcpBridges) : Label → Bool
  | .connection j l => j = k && (s.bridge j).movesOn l
  | .cancel => false

lemma failing_step (h : (s.bridge k).Failing s.parentCancelled) (hs : s.step l = some s') :
    (s'.bridge k).Failing s'.parentCancelled ∧
      (s'.bridge k).remaining + (movesOn k s l).toNat ≤ (s.bridge k).remaining := by
  cases step_cases hs with
  | @connection j l b hb =>
      by_cases hj : j = k
      · subst hj
        rw [setBridge_self]
        simpa [movesOn] using h.step hb
      · rw [setBridge_of_ne (Ne.symm hj)]
        simpa [movesOn, hj] using h
  | cancel => exact ⟨h.mono fun _ => rfl, by simp [movesOn]⟩

/-- **A lost tunnel ends the connections bridged over it**, if their streams were still open on the
other side: within so many steps of the two copies and of a TCP peer that reads on when its
connection is full, whatever else the TCP connection, the other connections and the caller's token
do meanwhile.  But a connection whose stream had been read to its end keeps waiting for its TCP
side. -/
theorem lost_tunnel_ends_connection (h : system.Run ls s) (hlost : (s.bridge k).hasLostTunnel) :
    ((s.bridge k).tunnelToTcp.inlet.ended = false →
      system.Ensures (movesOn k) (fun _ _ => True) (fun t => (t.bridge k).hasLeft)
        (4 + 3 * (s.bridge k).tunnelToTcp.inlet.unread.length +
          2 * (s.bridge k).tunnelToTcp.buffer.length) s) ∧
    ((s.bridge k).WaitsForTcp s.parentCancelled →
      ∀ l, isOwn k l = true → s.step l = none) := by
  refine ⟨fun hopen => ?_, fun hw l hl => ?_⟩
  · have hp := propagates_run h k
    have hf : (s.bridge k).Failing s.parentCancelled := by
      refine ⟨hlost, hopen, fun hfin => ?_, hp⟩
      have hended := (hp.carries.tunnelToTcp.complete hfin).1
      rw [hopen] at hended
      cases hended
    refine System.ensures_of_variant (fun t => (t.bridge k).Failing t.parentCancelled)
      (fun t => (t.bridge k).remaining) (fun t l t' ht _ hs => failing_step ht hs)
      (fun t ht hn => ?_) hf ?_
    · obtain ⟨l, hl, hen⟩ := ht.progress hn
      refine ⟨.connection k l, by simp [movesOn, hl], trivial, ?_⟩
      exact (isSome_step_connection l).trans hen
    · have hfull := Bool.toNat_le (s.bridge k).tunnelToTcp.outlet.isFull
      simp only [TcpStreamBridge.remaining, CopyTask.remaining, CopyTask.attempts]
      split_ifs <;> omega
  · cases l with
    | cancel => cases hl
    | connection j l =>
        simp only [isOwn, decide_eq_true_eq] at hl
        obtain ⟨rfl, hparty⟩ := hl
        rw [TcpBridges.step, hw.no_step hparty, Option.map_none]

/-- A tunnel is lost with two bytes of its stream unread and one to be written to a full connection;
the bridge is bound to end within twelve steps. -/
theorem lost_tunnel_ends_connection_unread : ∃ ls s, system.Run ls s ∧
    system.Ensures (movesOn 0) (fun _ _ => True) (fun t => (t.bridge 0).hasLeft) 12 s := by
  have h : system.Run
      [.connection 0 (.tunnelToTcp (.sends [1, 2, 3])), .connection 0 (.tunnelToTcp (.read 1)),
        .connection 0 (.tunnelToTcp .inletFails), .connection 0 (.tcpToTunnel .outletFails)] _ :=
    System.run_of_exec rfl
  exact ⟨_, _, h, (lost_tunnel_ends_connection (k := 0) h ⟨rfl, rfl⟩).1 rfl⟩

end TcpBridges

end Siffleux
