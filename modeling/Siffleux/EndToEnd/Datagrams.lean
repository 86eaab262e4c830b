import Siffleux.Client.Egress.UdpTunnel
import Siffleux.Server.Ingress.UdpReader

/-!
# Datagrams received through a tunnel

Both ends hand every datagram of their peer to `extract_origin_socket_addr_from_datagram`: the
reader task of the UDP ingress, and the main loop of the UDP egress through `process_datagram`.

* `datagrams_survived_iff` — the extractor answers on every datagram received, and both loops get
  through all of them, exactly when each has its origin in front of it.
* `UdpIngress.ReadersAlive`, `UdpTunnel.main_alive_step` — in the two systems: readers and main
  loops panic on nothing else.
-/

namespace Siffleux

open ByteBuf Transition

namespace UdpIngress

/-- The reader loop over the datagrams it receives, with what it has sent to the origins. -/
def readerLoop : List (SocketAddr × Bytes) → List Bytes → Outcome (List (SocketAddr × Bytes)) :=
  Outcome.foldl fun sent bytes => (forwardToOrigin bytes).map fun s => sent ++ s.toList

lemma readerLoop_returns_iff (bs : List Bytes) :
    (∃ sent, readerLoop [] bs = .ret sent) ↔ ∀ b ∈ bs, OriginHeaderWhole b := by
  refine Outcome.foldl_returns_iff (fun sent bytes => ?_) bs []
  rw [← forwardToOrigin_returns_iff]
  refine ⟨?_, ?_⟩
  · rintro ⟨r, hr⟩
    obtain ⟨s, hs, -⟩ := Outcome.map_eq_ret_iff.mp hr
    exact ⟨s, hs⟩
  · rintro ⟨s, hs⟩
    exact ⟨_, Outcome.map_eq_ret_iff.mpr ⟨s, hs, rfl⟩⟩

end UdpIngress

namespace UdpFlows

/-- The main loop of the egress over the datagrams it receives. -/
def mainLoop : UdpFlows → List Bytes → Outcome UdpFlows := Outcome.foldl processDatagram

lemma mainLoop_returns_iff (s : UdpFlows) (bs : List Bytes) :
    (∃ s', s.mainLoop bs = .ret s') ↔ ∀ b ∈ bs, OriginHeaderWhole b :=
  Outcome.foldl_returns_iff processDatagram_returns_iff bs s

end UdpFlows

/-- What is asked of the two sides about the datagrams their peer sends. -/
structure DatagramsSurvived (bs : List Bytes) : Prop where
  extracted : ∀ b ∈ bs, ∃ r, extractOriginSocketAddrFromDatagram b = .ret r
  ingress : ∃ sent, UdpIngress.readerLoop [] bs = .ret sent
  egress : ∀ s : UdpFlows, ∃ s', s.mainLoop bs = .ret s'

/-- **Every datagram is survived, on both sides, exactly when each has its origin whole**: it is
not empty, and behind tag 0 there are six more bytes, behind tag 1 eighteen. -/
theorem datagrams_survived_iff (bs : List Bytes) :
    DatagramsSurvived bs ↔ ∀ b ∈ bs, OriginHeaderWhole b := by
  refine ⟨fun h b hb => ?_, fun h => ⟨fun b hb => (h b hb).extract, ?_, fun s => ?_⟩⟩
  · obtain ⟨r, hr⟩ := h.extracted b hb
    exact .of_extract hr
  · exact (UdpIngress.readerLoop_returns_iff bs).mpr h
  · exact (UdpFlows.mainLoop_returns_iff s bs).mpr h

/-- The empty datagram, an IPv4 origin without its port, and an IPv6 tag with an IPv4 body. -/
theorem datagrams_short_panic :
    ¬ DatagramsSurvived [[]] ∧ ¬ DatagramsSurvived [[0, 127, 0, 0, 1, 31]] ∧
      ¬ DatagramsSurvived [[1, 127, 0, 0, 1, 31, 144]] ∧
      extractOriginSocketAddrFromDatagram [] = .panic := by
  refine ⟨fun h => ?_, fun h => ?_, fun h => ?_, rfl⟩
  all_goals
    obtain ⟨r, hr⟩ := h.extracted _ List.mem_cons_self
    cases hr

namespace UdpIngress

variable {τ : Type} [DecidableEq τ] {w : ℕ}

/-- Every datagram still to be read has its origin, and no reader has panicked. -/
structure ReadersAlive (s : UdpIngress τ w) : Prop where
  whole : ∀ t, ∀ b ∈ (s.connection t).datagrams, OriginHeaderWhole b
  alive : ∀ t, s.reader t ≠ .panicked

/-- The condition on a step: what arrives has its origin. -/
def ArrivesWhole (_ : UdpIngress τ w) (l : Label τ) : Prop :=
  ∀ t b, l = .arrive t b → OriginHeaderWhole b

lemma readersAlive_step {s s' : UdpIngress τ w} {l : Label τ} (h : s.ReadersAlive)
    (hok : s.ArrivesWhole l) (hs : step s l = some s') : s'.ReadersAlive := by
  have hconn : ∀ {u c}, s'.connection = Function.update s.connection u c →
      (∀ b ∈ c.datagrams, OriginHeaderWhole b) →
      ∀ t, ∀ b ∈ (s'.connection t).datagrams, OriginHeaderWhole b := by
    intro u c hc hw t
    rw [hc]
    rcases eq_or_ne t u with rfl | hne
    · rw [Function.update_self]
      exact hw
    · rw [Function.update_of_ne hne]
      exact h.whole t
  have hpc : ∀ {u pc}, s'.reader = Function.update s.reader u pc → pc ≠ .panicked →
      ∀ t, s'.reader t ≠ .panicked := by
    intro u pc hr hne t
    rw [hr]
    rcases eq_or_ne t u with rfl | htu
    · rw [Function.update_self]
      exact hne
    · rw [Function.update_of_ne htu]
      exact h.alive t
  cases step_cases hs with
  | readerSpawned => exact ⟨h.whole, hpc rfl (by simp)⟩
  | arrived =>
      refine ⟨hconn rfl ?_, h.alive⟩
      intro b hb
      rcases List.mem_append.mp hb with hb | hb
      · exact h.whole _ b hb
      · rw [List.mem_singleton.mp hb]
        exact hok _ _ rfl
  | closed => exact ⟨hconn rfl (h.whole _), h.alive⟩
  | @forwarded t _ _ _ _ _ hr _ =>
      have hw := h.whole t
      rw [TunnelConnection.datagrams_of_readDatagram hr] at hw
      exact ⟨hconn rfl fun b hb => hw b (List.mem_cons_of_mem _ hb), h.alive⟩
  | @readerPanics t _ _ _ _ hr hf =>
      have hw := h.whole t
      rw [TunnelConnection.datagrams_of_readDatagram hr] at hw
      have hmem := hw _ List.mem_cons_self
      obtain ⟨r, hret⟩ := (forwardToOrigin_returns_iff _).mpr hmem
      rw [hf] at hret
      cases hret
  | readerLeaves => exact ⟨h.whole, hpc rfl (by simp)⟩
  | readerCancelled => exact ⟨hconn rfl (h.whole _), hpc rfl (by simp)⟩
  | _ => exact ⟨h.whole, h.alive⟩

end UdpIngress

namespace UdpTunnel

variable {s s' : UdpTunnel} {l : Label}

/-- The datagram the main loop takes from the tunnel. -/
def takenBy : Label → List Bytes
  | .datagram bytes => [bytes]
  | _ => []

/-- A main loop panics on a datagram without its origin only. -/
lemma main_alive_step (hm : s.main ≠ .panicked) (hok : ∀ b ∈ takenBy l, OriginHeaderWhole b)
    (hs : s.step l = some s') : s'.main ≠ .panicked := by
  cases step_cases hs with
  | @malformed bytes _ he =>
      obtain ⟨r, hr⟩ := (hok bytes (List.mem_singleton_self bytes)).extract
      rw [he] at hr
      cases hr
  | spawned | triedSend | inserted | leftClosed | leftCancelled => exact nofun
  | @replied i data ok hi =>
      rw [sendReply]
      split
      split <;> first | exact hm | (split <;> exact hm)
  | _ => exact hm

end UdpTunnel

end Siffleux
