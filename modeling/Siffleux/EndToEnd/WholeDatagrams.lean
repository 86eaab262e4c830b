import Mathlib.Data.List.TakeDrop
import Siffleux.Client.Egress.FlowOrder
import Siffleux.Server.Ingress.UdpIngress

/-!
# Payloads longer than the receive buffer

Both ends receive UDP payloads into a buffer of 1500 bytes.  A socket stores what fits and discards
the rest, and says how much it has stored; whether anything was discarded it does not say.  What was
stored is put into a tunnel datagram like any other payload.

* `decodes_whole_iff` — the datagram made of the first `n` bytes of a payload.
* `UdpTunnel.bufferLength_run` — a flow's buffer keeps its length, whatever is received into it.
* `forwarded_whole_iff` — on both sides a payload is forwarded whole exactly when it fits.
-/

namespace Siffleux

open ByteBuf Transition

/-- **A datagram made of the front of a payload is the payload's own exactly when there is no
more.** -/
lemma decodes_whole_iff (origin : SocketAddr) (payload : Bytes) (n : ℕ) :
    extractOriginSocketAddrFromDatagram (originHeader origin ++ payload.take n) =
        .ret (some origin, payload) ↔ origin.IsOrigin ∧ payload.length ≤ n := by
  rw [extract_eq_ret_some_iff, List.append_cancel_left_eq, List.take_eq_self_iff]

namespace UdpIngress

variable {τ : Type} [DecidableEq τ] {w : ℕ} {s s' : UdpIngress τ w}

omit [DecidableEq τ] in
/-- What the socket loop hands to `send_datagram`, if there is a tunnel to send it to. -/
lemma handleSocketDatagram_sends (s : UdpIngress τ w) (addr : SocketAddr) (bytes : Bytes) :
    ∃ s', s.handleSocketDatagram addr bytes = .ret s' ∧
      (s.list.tunnels = [] → s'.sentToTunnels = s.sentToTunnels) ∧
      (s.list.tunnels ≠ [] → ∃ t ∈ s.list.tunnels, s'.sentToTunnels =
        s.sentToTunnels ++ [(t, originHeader addr ++ bytes.take bufferSize)]) := by
  obtain ⟨picked, r, hg, hmem, hnone⟩ := s.list.getTunnelToConnect_mem
  rw [handleSocketDatagram, hg, Outcome.bind_ret]
  cases picked with
  | none => exact ⟨_, rfl, fun _ => rfl, fun hne => absurd (hnone.mp rfl) hne⟩
  | some t =>
      have hd : toDatagram addr (bytes.take bufferSize) (bytes.take bufferSize).length =
          .ret (originHeader addr ++ bytes.take bufferSize) :=
        toDatagram_eq_ret_iff.mpr ⟨Nat.le_refl _, by rw [List.take_length]⟩
      refine ⟨_, congrArg (Outcome.map _) hd, fun hnil => ?_, fun _ => ⟨t, hmem t rfl, rfl⟩⟩
      cases hnone.mpr hnil

/-- The same of the loop's step. -/
lemma recvFrom_sends {i : ℕ} {addr : SocketAddr} {bytes : Bytes}
    (hs : step s (.recvFrom i addr bytes) = some s') :
    (s.list.tunnels = [] → s'.sentToTunnels = s.sentToTunnels) ∧
      (s.list.tunnels ≠ [] → ∃ t ∈ s.list.tunnels, s'.sentToTunnels =
        s.sentToTunnels ++ [(t, originHeader addr ++ bytes.take bufferSize)]) := by
  obtain ⟨s₁, hh, hsends⟩ := s.handleSocketDatagram_sends addr bytes
  simp only [step, Option.ite_none_right_eq_some, hh, Option.some.injEq] at hs
  obtain ⟨-, rfl⟩ := hs
  exact hsends

lemma recvFrom_enabled {i : ℕ} (h : s.socketLoop i = .running) (addr : SocketAddr)
    (bytes : Bytes) : ∃ s', step s (.recvFrom i addr bytes) = some s' := by
  obtain ⟨s₁, hh, -⟩ := s.handleSocketDatagram_sends addr bytes
  exact ⟨s₁, by simp only [step, if_pos h, hh]⟩

end UdpIngress

namespace UdpTunnel

variable {s s' : UdpTunnel} {ls : List Label}

/-- What the task hands to `send_datagram` for `data` from the target. -/
def handedReply (s : UdpTunnel) (i : ℕ) (data : Bytes) : Outcome Bytes :=
  let (buffer, size) := recvInto (s.flow i).buffer data
  toDatagram (s.flow i).origin buffer size

lemma handedReply_eq (s : UdpTunnel) (i : ℕ) (data : Bytes) : s.handedReply i data =
    .ret (originHeader (s.flow i).origin ++ data.take (s.flow i).buffer.length) := by
  have hsize : (recvInto (s.flow i).buffer data).2 ≤
      (recvInto (s.flow i).buffer data).1.length := by
    rw [recvInto_length]
    exact recvInto_size_le ..
  have hstored : (recvInto (s.flow i).buffer data).2 = min (s.flow i).buffer.length data.length :=
    Nat.min_comm ..
  refine toDatagram_eq_ret_iff.mpr ⟨hsize, congrArg _ ?_⟩
  show _ = (recvInto (s.flow i).buffer data).1.take (recvInto (s.flow i).buffer data).2
  rw [recvInto_take, hstored, ← List.take_eq_take_min]

/-- Receiving changes the task's own buffer, and nothing else of any task. -/
lemma sendReply_flow (s : UdpTunnel) (i : ℕ) (data : Bytes) (ok : Bool) :
    (s.sendReply i data ok).flow = Function.update s.flow i
        { s.flow i with buffer := (recvInto (s.flow i).buffer data).1 } ∧
      (s.sendReply i data ok).nextTask = s.nextTask := by
  have hd : toDatagram (s.flow i).origin (recvInto (s.flow i).buffer data).1
      (recvInto (s.flow i).buffer data).2 = .ret _ := s.handedReply_eq i data
  simp only [sendReply, hd]
  cases ok <;> exact ⟨rfl, rfl⟩

/-- The step hands that over, and logs it if the tunnel takes it. -/
lemma reply_sends {i : ℕ} {data bytes : Bytes} (hs : s.step (.reply i data true) = some s')
    (hd : s.handedReply i data = .ret bytes) : s'.sentToTunnel = s.sentToTunnel ++ [bytes] := by
  have hd' : toDatagram (s.flow i).origin (recvInto (s.flow i).buffer data).1
      (recvInto (s.flow i).buffer data).2 = .ret bytes := hd
  simp only [step] at hs
  split at hs
  · rw [← Option.some.inj hs]
    simp only [sendReply, hd', if_true]
  · cases hs

/-! ## The buffer of a flow -/

/-- A step receives into a buffer, or makes a new one. -/
lemma bufferLength_step {l : Label} (hs : s.step l = some s') {i : ℕ} (hi : i < s'.nextTask) :
    (i < s.nextTask ∧ (s'.flow i).buffer.length = (s.flow i).buffer.length) ∨
      (s'.flow i).buffer.length = replyBufferSize := by
  have hset : ∀ {j : ℕ} {f : FlowTask}, s'.flow = Function.update s.flow j f →
      s'.nextTask = s.nextTask → f.buffer.length = (s.flow j).buffer.length →
      (i < s.nextTask ∧ (s'.flow i).buffer.length = (s.flow i).buffer.length) ∨
        (s'.flow i).buffer.length = replyBufferSize := by
    intro j f hflow hn hf
    rw [hn] at hi
    rw [hflow]
    refine Or.inl ⟨hi, ?_⟩
    exact flow_update (P := fun g => g.buffer.length = (s.flow i).buffer.length) i
      (fun hij => by rw [hij]; exact hf) fun _ => rfl
  cases step_cases hs with
  | malformed | noOrigin | inserted | expired | leftClosed | leftCancelled | closed | cancelled =>
      exact Or.inl ⟨hi, rfl⟩
  | @spawned bytes payload origin _ _ _ =>
      have hi' : i < s.nextTask + 1 := hi
      rcases eq_or_ne i s.nextTask with rfl | hne
      · refine Or.inr ?_
        show (Function.update s.flow s.nextTask (.spawn origin) s.nextTask).buffer.length = _
        rw [Function.update_self]
        exact List.length_replicate ..
      · refine Or.inl ⟨by omega, ?_⟩
        show (Function.update s.flow s.nextTask (.spawn origin) i).buffer.length = _
        rw [Function.update_of_ne hne]
  | @replied j data ok _ =>
      obtain ⟨hflow, hn⟩ := s.sendReply_flow j data ok
      exact hset hflow hn (recvInto_length ..)
  | _ => exact hset rfl rfl rfl

theorem bufferLength_run (h : system.Run ls s) {i : ℕ} (hi : i < s.nextTask) :
    (s.flow i).buffer.length = replyBufferSize := by
  induction h with
  | nil => exact absurd hi (Nat.not_lt_zero i)
  | snoc _ hs ih =>
      rcases bufferLength_step hs hi with ⟨hlt, he⟩ | he
      · exact he.trans (ih hlt)
      · exact he

/-- A flow with a reply task has a whole buffer, and an origin that has room on the wire. -/
lemma replying_run (h : system.Run ls s) {i : ℕ} (hi : (s.flow i).reply = .running) :
    (s.flow i).buffer.length = replyBufferSize ∧ (s.flow i).origin.IsOrigin := by
  have hr := repliesSound_run h
  have hlt := hr.replying i (by rw [hi]; simp)
  exact ⟨bufferLength_run h hlt, hr.origin i hlt⟩

end UdpTunnel

/-- **A payload is forwarded whole exactly when it fits into the receive buffer.**  On the side of
the ingress, the datagram that the socket loop hands to a tunnel decodes to the origin and all that
it sent if and only if that is 1500 bytes or less (and the origin is an address the wire has room
for); on the side of the egress, the datagram that a flow hands to its tunnel decodes to the flow's
origin and all that the target sent if and only if that is 1500 bytes or less. -/
theorem forwarded_whole_iff {τ : Type} [DecidableEq τ] {w : ℕ} :
    (∀ ls (s s' : UdpIngress τ w) i addr bytes t d, (UdpIngress.system τ w).Run ls s →
      UdpIngress.step s (.recvFrom i addr bytes) = some s' →
      s'.sentToTunnels = s.sentToTunnels ++ [(t, d)] →
      (extractOriginSocketAddrFromDatagram d = .ret (some addr, bytes) ↔
        addr.IsOrigin ∧ bytes.length ≤ 1500)) ∧
    (∀ ls (s : UdpTunnel) i data, UdpTunnel.system.Run ls s → (s.flow i).reply = .running →
      ∃ d, s.handedReply i data = .ret d ∧
        (∀ s', s.step (.reply i data true) = some s' → s'.sentToTunnel = s.sentToTunnel ++ [d]) ∧
        (extractOriginSocketAddrFromDatagram d = .ret (some (s.flow i).origin, data) ↔
          data.length ≤ 1500)) := by
  refine ⟨fun ls s s' i addr bytes t d _ hs hd => ?_, fun ls s i data h hi => ?_⟩
  · obtain ⟨hnone, hsome⟩ := UdpIngress.recvFrom_sends hs
    by_cases hnil : s.list.tunnels = []
    · rw [hnone hnil] at hd
      simp at hd
    · obtain ⟨u, -, hu⟩ := hsome hnil
      rw [hu, List.append_cancel_left_eq, List.cons.injEq, Prod.mk.injEq] at hd
      rw [← hd.1.2]
      exact decodes_whole_iff addr bytes 1500
  · obtain ⟨hlength, horigin⟩ := UdpTunnel.replying_run h hi
    have hd := s.handedReply_eq i data
    refine ⟨_, hd, fun s' hs => UdpTunnel.reply_sends hs hd, ?_⟩
    rw [decodes_whole_iff, hlength]
    exact and_iff_right horigin

/-- An ingress that listens with one tunnel. -/
def oneTunnel : List (UdpIngress.Label ℕ) :=
  [.start, .spawnLoop 0, .assignTunnel 7, .spawnReader 7, .list (.spawnWatcher 7), .list (.push 7)]

/-- An egress with one flow. -/
def oneFlow : List UdpTunnel.Label :=
  [.datagram [0, 127, 0, 0, 1, 31, 144, 1], .trySend, .insert, .socketCreated 0]

/-- Three bytes there and one back. -/
theorem forwarded_whole_small :
    (∃ s s' d, (UdpIngress.system ℕ 64).Run oneTunnel s ∧
      s.step (.recvFrom 0 (.v4 ⟨#v[127, 0, 0, 1]⟩ 8080) [1, 2, 3]) = some s' ∧
      s'.sentToTunnels = s.sentToTunnels ++ [(7, d)] ∧ extractOriginSocketAddrFromDatagram d =
        .ret (some (.v4 ⟨#v[127, 0, 0, 1]⟩ 8080), [1, 2, 3])) ∧
    (∃ s d, UdpTunnel.system.Run oneFlow s ∧ s.handedReply 0 [4] = .ret d ∧
      extractOriginSocketAddrFromDatagram d = .ret (some (s.flow 0).origin, [4])) := by
  have hi : (UdpIngress.system ℕ 64).Run oneTunnel _ := System.run_of_exec rfl
  have he : UdpTunnel.system.Run oneFlow _ := System.run_of_exec rfl
  obtain ⟨d, hd, -, hwhole⟩ := (@forwarded_whole_iff ℕ _ 64).2 _ _ 0 [4] he rfl
  refine ⟨⟨_, _, _, hi, rfl, rfl, ?_⟩, _, d, he, hd, hwhole.mpr (by decide)⟩
  exact (forwarded_whole_iff.1 _ _ _ 0 (.v4 ⟨#v[127, 0, 0, 1]⟩ 8080) [1, 2, 3] 7 _ hi rfl rfl).mpr
    ⟨trivial, by decide⟩

/-- A payload of 1501 bytes arrives without its last byte, on both sides. -/
theorem forwarded_cut_short :
    (∃ s s' t d, (UdpIngress.system ℕ 64).Run oneTunnel s ∧
      s.step (.recvFrom 0 (.v4 ⟨#v[127, 0, 0, 1]⟩ 8080) (List.replicate 1501 0)) = some s' ∧
      s'.sentToTunnels = s.sentToTunnels ++ [(t, d)] ∧ extractOriginSocketAddrFromDatagram d =
        .ret (some (.v4 ⟨#v[127, 0, 0, 1]⟩ 8080), List.replicate 1500 0)) ∧
    (∃ s s' d, UdpTunnel.system.Run oneFlow s ∧
      s.step (.reply 0 (List.replicate 1501 0) true) = some s' ∧
      s'.sentToTunnel = s.sentToTunnel ++ [d] ∧ extractOriginSocketAddrFromDatagram d =
        .ret (some (s.flow 0).origin, List.replicate 1500 0)) ∧
    List.replicate 1500 (0 : UInt8) ≠ List.replicate 1501 0 := by
  have htake : (List.replicate 1501 (0 : UInt8)).take 1500 = List.replicate 1500 0 :=
    List.take_replicate
  refine ⟨?_, ?_, fun h => ?_⟩
  · obtain ⟨s, hs, hloop, htunnels⟩ : ∃ s, (UdpIngress.system ℕ 64).Run oneTunnel s ∧
        s.socketLoop 0 = .running ∧ s.list.tunnels = [7] := ⟨_, System.run_of_exec rfl, rfl, rfl⟩
    obtain ⟨s', hstep⟩ := UdpIngress.recvFrom_enabled hloop (.v4 ⟨#v[127, 0, 0, 1]⟩ 8080)
      (List.replicate 1501 0)
    obtain ⟨t, -, ht⟩ := (UdpIngress.recvFrom_sends hstep).2 (by simp [htunnels])
    exact ⟨s, s', t, _, hs, hstep, ht,
      extract_eq_ret_some_iff.mpr ⟨trivial, congrArg (originHeader _ ++ ·) htake⟩⟩
  · obtain ⟨s, hs, hreply⟩ : ∃ s, UdpTunnel.system.Run oneFlow s ∧ (s.flow 0).reply = .running :=
      ⟨_, System.run_of_exec rfl, rfl⟩
    obtain ⟨hlength, horigin⟩ := UdpTunnel.replying_run hs hreply
    have hd := s.handedReply_eq 0 (List.replicate 1501 0)
    rw [hlength] at hd
    have hstep : s.step (.reply 0 (List.replicate 1501 0) true) =
        some (s.sendReply 0 (List.replicate 1501 0) true) := by
      simp only [UdpTunnel.step, hreply]
    exact ⟨s, _, _, hs, hstep, UdpTunnel.reply_sends hstep hd,
      extract_eq_ret_some_iff.mpr ⟨horigin, congrArg (originHeader _ ++ ·) htake⟩⟩
  · have hlength := congrArg List.length h
    rw [List.length_replicate, List.length_replicate] at hlength
    omega

end Siffleux
