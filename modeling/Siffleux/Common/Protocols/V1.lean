import Siffleux.Common.Error
import Siffleux.Foundation.Copy

/-!
# The bridge between a TCP connection and a tunnel stream

`common/protocols/v1.rs`, `handle_protocol_v1_tcp_stream`: the same function on both ends of the
tunnel.  It spawns one copy for each direction; the two share a token, a child of the caller's, that
a failing copy cancels and that both wait for beside their copying.

A side of a copy that is not the copy's own is the TCP connection's or the tunnel's: who is behind
it is for the caller to say.

* `TcpStreamBridge.step` — the steps of the two copies, and of the two connections under them.
* `Carries.step` — the bytes of each direction are carried as `Copying.Faithful` says.
* `Silent.no_step` — a bridge whose two connections are silent waits; `Silent.step` — until one of
  them is heard.
-/

namespace Siffleux

open ByteBuf Copying

/-- What a copy terminates its writing side with: `finish` and `reset` of a tunnel's stream, and
`shutdown` of a TCP connection. -/
inductive StreamEnd where
  | finish
  | reset (code : VarInt)
  | shutdown
  deriving DecidableEq, Repr

/-- The copy "TCP read -> tunnel write".  The peer takes as much as the `stream_receive_window` of
both transport configurations ahead of what its own copy has read. -/
def tcpToTunnel : CopyProfile StreamEnd where
  capacity := 65536
  window := 2 * 1024 * 1024
  clean := .finish
  aborted := .reset Code.unknownError

/-- The copy "tunnel read -> TCP write", which shuts the connection down in any case.  What a
socket takes ahead of its reader is for the operating systems to say: they, too, make room. -/
def tunnelToTcp : CopyProfile StreamEnd where
  capacity := 65536
  window := 0
  clean := .shutdown
  aborted := .shutdown

/-- One call of `handle_protocol_v1_tcp_stream`; `isCancelled` is of its own token. -/
structure TcpStreamBridge where
  tcpToTunnel : CopyTask UInt8 StreamEnd
  tunnelToTcp : CopyTask UInt8 StreamEnd
  isCancelled : Bool
  deriving DecidableEq, Repr

namespace TcpStreamBridge

def new : TcpStreamBridge := ⟨.new Siffleux.tcpToTunnel, .new Siffleux.tunnelToTcp, false⟩

inductive Label where
  | tcpToTunnel (l : Copying.Label UInt8)
  | tunnelToTcp (l : Copying.Label UInt8)
  deriving DecidableEq, Repr

/-- Who takes a step of a bridge. -/
inductive Party where
  | tcp
  | bridge
  | tunnel
  deriving DecidableEq, Repr

def Label.party : Label → Party
  | .tcpToTunnel l =>
      match l.party with
      | .inlet => .tcp
      | .task => .bridge
      | .outlet => .tunnel
  | .tunnelToTcp l =>
      match l.party with
      | .inlet => .tunnel
      | .task => .bridge
      | .outlet => .tcp

/-- A child token is cancelled with its parent. -/
def step (parentCancelled : Bool) (b : TcpStreamBridge) : Label → Option TcpStreamBridge
  | .tcpToTunnel l =>
      (b.tcpToTunnel.step Siffleux.tcpToTunnel (parentCancelled || b.isCancelled) l).map fun t =>
        { b with tcpToTunnel := t, isCancelled := b.isCancelled || l.isError }
  | .tunnelToTcp l =>
      (b.tunnelToTcp.step Siffleux.tunnelToTcp (parentCancelled || b.isCancelled) l).map fun t =>
        { b with tunnelToTcp := t, isCancelled := b.isCancelled || l.isError }

/-- The TCP connection has sent bytes, ended or failed. -/
def isHeard (b : TcpStreamBridge) : Bool := b.tcpToTunnel.inlet.hasSpoken

/-- Data, a finish or a reset has been sent on the tunnel's stream. -/
def isAnnounced (b : TcpStreamBridge) : Bool := b.tcpToTunnel.outlet.isShown

/-! ## What a bridge carries -/

/-- Both directions carry what they are given. -/
structure Carries (b : TcpStreamBridge) : Prop where
  tcpToTunnel : Faithful Siffleux.tcpToTunnel b.tcpToTunnel
  tunnelToTcp : Faithful Siffleux.tunnelToTcp b.tunnelToTcp

variable {b b' : TcpStreamBridge} {c : Bool} {l : Label}

lemma carries_new : Carries .new := ⟨faithful_new, faithful_new⟩

theorem Carries.step (h : b.Carries) (hs : b.step c l = some b') : b'.Carries := by
  cases l with
  | tcpToTunnel l =>
      simp only [TcpStreamBridge.step, Option.map_eq_some_iff] at hs
      obtain ⟨t, ht, rfl⟩ := hs
      exact ⟨h.tcpToTunnel.step ht, h.tunnelToTcp⟩
  | tunnelToTcp l =>
      simp only [TcpStreamBridge.step, Option.map_eq_some_iff] at hs
      obtain ⟨t, ht, rfl⟩ := hs
      exact ⟨h.tcpToTunnel, h.tunnelToTcp.step ht⟩

/-! ## Silence -/

/-- Neither connection has said anything, and the bridge has done nothing. -/
structure Silent (b : TcpStreamBridge) : Prop where
  tcpToTunnel : b.tcpToTunnel.Silent
  tunnelToTcp : b.tunnelToTcp.Silent
  uncancelled : b.isCancelled = false

lemma silent_new : Silent .new := ⟨CopyTask.silent_new, CopyTask.silent_new, rfl⟩

lemma Label.tcpToTunnel_task {l : Copying.Label UInt8}
    (h : (Label.tcpToTunnel l).party = .bridge) : l.party = .task := by
  rw [Label.party] at h
  cases hp : l.party with
  | task => rfl
  | inlet | outlet => simp [hp] at h

lemma Label.tunnelToTcp_task {l : Copying.Label UInt8}
    (h : (Label.tunnelToTcp l).party = .bridge) : l.party = .task := by
  rw [Label.party] at h
  cases hp : l.party with
  | task => rfl
  | inlet | outlet => simp [hp] at h

/-- **Between two silent connections the bridge has no step.** -/
theorem Silent.no_step (h : b.Silent) (hl : l.party = .bridge) : b.step false l = none := by
  cases l with
  | tcpToTunnel l =>
      rw [TcpStreamBridge.step, h.uncancelled, Bool.or_false,
        h.tcpToTunnel.no_step (Label.tcpToTunnel_task hl), Option.map_none]
  | tunnelToTcp l =>
      rw [TcpStreamBridge.step, h.uncancelled, Bool.or_false,
        h.tunnelToTcp.no_step (Label.tunnelToTcp_task hl), Option.map_none]

/-- The tunnel has no say, and the TCP connection says nothing: everything stays silent. -/
theorem Silent.step (h : b.Silent) (hl : l.party ≠ .tunnel) (hs : b.step false l = some b')
    (hq : b'.isHeard = false) : b'.Silent := by
  by_cases hb : l.party = .bridge
  · rw [h.no_step hb] at hs
    cases hs
  cases l with
  | tcpToTunnel l =>
      simp only [TcpStreamBridge.step, Option.map_eq_some_iff] at hs
      obtain ⟨t, ht, rfl⟩ := hs
      cases l with
      | sends | ends | inletFails =>
          obtain ⟨hbuf, hout⟩ := CopyTask.step_inlet rfl ht
          refine ⟨⟨hq, hbuf.trans h.tcpToTunnel.buffer, ?_⟩, h.tunnelToTcp, ?_⟩
          · rw [hout]
            exact h.tcpToTunnel.shown
          · rw [h.uncancelled]
            rfl
      | outletFails | drains => exact absurd rfl hl
      | _ => exact absurd rfl hb
  | tunnelToTcp l =>
      simp only [TcpStreamBridge.step, Option.map_eq_some_iff] at hs
      obtain ⟨t, ht, rfl⟩ := hs
      cases l with
      | sends | ends | inletFails => exact absurd rfl hl
      | outletFails | drains =>
          simp only [CopyTask.step, Option.some.injEq] at ht
          subst ht
          refine ⟨h.tcpToTunnel, ?_, ?_⟩
          · exact ⟨h.tunnelToTcp.inlet, h.tunnelToTcp.buffer, h.tunnelToTcp.shown⟩
          · rw [h.uncancelled]
            rfl
      | _ => exact absurd rfl hb

/-- What has been heard stays heard. -/
lemma isHeard_mono (hs : b.step c l = some b') (h : b.isHeard = true) : b'.isHeard = true := by
  cases l with
  | tcpToTunnel l =>
      simp only [TcpStreamBridge.step, Option.map_eq_some_iff] at hs
      obtain ⟨t, ht, rfl⟩ := hs
      exact CopyTask.hasSpoken_mono ht h
  | tunnelToTcp l =>
      simp only [TcpStreamBridge.step, Option.map_eq_some_iff] at hs
      obtain ⟨t, -, rfl⟩ := hs
      exact h

/-- Only the tunnel makes writing to its stream fail. -/
lemma outlet_failed_of_step (hs : b.step c l = some b') (hl : l.party ≠ .tunnel) :
    b'.tcpToTunnel.outlet.failed = b.tcpToTunnel.outlet.failed := by
  cases l with
  | tcpToTunnel l =>
      simp only [TcpStreamBridge.step, Option.map_eq_some_iff] at hs
      obtain ⟨t, ht, rfl⟩ := hs
      refine CopyTask.outlet_failed_of_step ht fun hp => hl ?_
      rw [Label.party, hp]
  | tunnelToTcp l =>
      simp only [TcpStreamBridge.step, Option.map_eq_some_iff] at hs
      obtain ⟨t, -, rfl⟩ := hs
      rfl

end TcpStreamBridge

end Siffleux
