import Siffleux.EndToEnd.Datagrams
import Siffleux.EndToEnd.WholeDatagrams
import Siffleux.Foundation.Unreliable

/-!
# Datagrams from origin to target and back

A UDP ingress, any number of tunnels, and behind each tunnel the main loop and the flows of an
egress.  Between the two ends of a tunnel there is an unreliable medium: QUIC datagrams are not
retransmitted, so they get lost and overtake each other, and they are not duplicated.

An origin's datagrams may take different tunnels, and reach the target from a different socket each
time; what comes back goes to the origin its socket was created for.

* `requestsFrom`, `answersFor` — what an origin sent to the ingress, and what the target sent to the
  sockets of an origin, each cut at the receive buffer.
* `Sound` — what was sent, is under way and has arrived, for both directions of every tunnel.
* `NonePanicked` — what either end sends the other survives.
* `udp_path_sound` — nothing is forged, duplicated or given to another origin, over all tunnels
  together.
-/

namespace Siffleux

open ByteBuf Transition Unreliable

open scoped List

/-- The address as the other end sees it: an IPv6 address loses its flow information and scope. -/
def SocketAddr.asOrigin : SocketAddr → SocketAddr
  | .v4 ip port => .v4 ip port
  | .v6 ip port _ _ => .v6 ip port 0 0

lemma SocketAddr.IsOrigin.asOrigin_eq {a : SocketAddr} (h : a.IsOrigin) : a.asOrigin = a := by
  cases a with
  | v4 ip port => rfl
  | v6 ip port flowinfo scopeId =>
      obtain ⟨rfl, rfl⟩ := h
      rfl

lemma SocketAddr.isOrigin_asOrigin (a : SocketAddr) : a.asOrigin.IsOrigin := by
  cases a with
  | v4 ip port => exact trivial
  | v6 ip port flowinfo scopeId => exact ⟨rfl, rfl⟩

lemma originHeader_asOrigin (a : SocketAddr) : originHeader a.asOrigin = originHeader a := by
  cases a <;> rfl

/-- A datagram made for an address has it whole in front. -/
lemma originHeaderWhole (a : SocketAddr) (payload : Bytes) :
    OriginHeaderWhole (originHeader a ++ payload) := by
  rw [← originHeader_asOrigin]
  exact .of_extract ((extract_eq_ret_some_iff ..).mpr ⟨a.isOrigin_asOrigin, rfl⟩)

/-- A datagram made for an address carries its payload under that address and no other. -/
lemma payloadOf_originHeader (origin a : SocketAddr) (p : Bytes) :
    payloadOf origin (originHeader a ++ p) = if a.asOrigin = origin then some p else none := by
  have he : extractOriginSocketAddrFromDatagram (originHeader a ++ p) = .ret (some a.asOrigin, p) :=
    extract_eq_ret_some_iff.mpr ⟨a.isOrigin_asOrigin, by rw [originHeader_asOrigin]⟩
  rw [payloadOf, he]

namespace UdpIngress

variable {τ : Type} [DecidableEq τ] {w : ℕ} {s s' : UdpIngress τ w} {l : Label τ}

/-- What an origin has handed to the ingress's socket. -/
def requestOf : Label τ → List (SocketAddr × Bytes)
  | .recvFrom _ addr bytes => [(addr, bytes)]
  | _ => []

/-- The tunnel datagram a request is made into. -/
def requestDatagram (r : SocketAddr × Bytes) : Bytes := originHeader r.1 ++ r.2.take bufferSize

/-- The datagram a reader takes from its tunnel. -/
def consumedBy (s : UdpIngress τ w) : Label τ → List (τ × Bytes)
  | .readDatagram t =>
      match (s.connection t).readDatagram with
      | some (.ok bytes, _) => [(t, bytes)]
      | _ => []
  | _ => []

/-- What a datagram makes a reader send, if anything. -/
def forwarded (bytes : Bytes) : Option (SocketAddr × Bytes) :=
  match forwardToOrigin bytes with
  | .ret sent => sent
  | .panic => none

/-- The loop that receives requests sends at most one datagram for each. -/
lemma sentToTunnels_step (hs : s.step l = some s') :
    ∃ new, s'.sentToTunnels = s.sentToTunnels ++ new ∧
      new.map Prod.snd <+ (requestOf l).map requestDatagram := by
  cases step_cases hs with
  | @received i addr bytes r sent h hh =>
      obtain ⟨hnone, hsome⟩ := recvFrom_sends hs
      by_cases hnil : s.list.tunnels = []
      · exact ⟨[], (hnone hnil).trans (List.append_nil _).symm, List.nil_sublist _⟩
      · obtain ⟨t, -, ht⟩ := hsome hnil
        exact ⟨[(t, _)], ht, List.Sublist.refl _⟩
  | _ => exact ⟨[], (List.append_nil _).symm, List.nil_sublist _⟩

/-- Readers take what has arrived, and send what it says. -/
lemma consumed_step (hs : s.step l = some s') (hl : ∀ t bytes, l ≠ .arrive t bytes) :
    (∀ t, (s.connection t).datagrams =
      ofKey t (s.consumedBy l) ++ (s'.connection t).datagrams) ∧
    s'.sentToOrigins.map Prod.snd =
      s.sentToOrigins.map Prod.snd ++ (s.consumedBy l).filterMap fun e => forwarded e.2 := by
  have hkeep : ∀ {t : τ} {c : TunnelConnection}, c.datagrams = (s.connection t).datagrams →
      ∀ u, (s.connection u).datagrams = (Function.update s.connection t c u).datagrams := by
    intro t c hc u
    rcases eq_or_ne u t with rfl | hne
    · rw [Function.update_self, hc]
    · rw [Function.update_of_ne hne]
  have htake : ∀ {t : τ} {bytes : Bytes} {c : TunnelConnection},
      (s.connection t).readDatagram = some (.ok bytes, c) →
      s.consumedBy (.readDatagram t) = [(t, bytes)] ∧
      ∀ u, (s.connection u).datagrams = ofKey u [(t, bytes)] ++
        (Function.update s.connection t c u).datagrams := by
    intro t bytes c hr
    refine ⟨by simp only [consumedBy, hr], fun u => ?_⟩
    rcases eq_or_ne u t with rfl | hne
    · rw [Function.update_self, TunnelConnection.datagrams_of_readDatagram hr, ofKey_cons,
        if_pos rfl]
      rfl
    · rw [Function.update_of_ne hne, ofKey_cons, if_neg hne.symm]
      rfl
  cases step_cases hs with
  | arrived => exact absurd rfl (hl _ _)
  | closed => exact ⟨hkeep rfl, (List.append_nil _).symm⟩
  | readerCancelled => exact ⟨hkeep rfl, (List.append_nil _).symm⟩
  | @forwarded t i bytes c sent h hr hf =>
      obtain ⟨hcon, hdata⟩ := htake hr
      rw [hcon]
      refine ⟨hdata, ?_⟩
      simp only [List.map_append, List.filterMap_cons, List.filterMap_nil, UdpIngress.forwarded, hf]
      cases sent <;> rfl
  | @readerPanics t i bytes c h hr hf =>
      obtain ⟨hcon, hdata⟩ := htake hr
      rw [hcon]
      refine ⟨hdata, ?_⟩
      simp [UdpIngress.forwarded, hf]
  | @readerLeaves t i e c h hr =>
      have hcon : s.consumedBy (.readDatagram t) = [] := by simp only [consumedBy, hr]
      rw [hcon]
      exact ⟨fun _ => rfl, (List.append_nil _).symm⟩
  | @readerStays t i e c h hr =>
      have hcon : s.consumedBy (.readDatagram t) = [] := by simp only [consumedBy, hr]
      rw [hcon]
      exact ⟨fun _ => rfl, (List.append_nil _).symm⟩
  | _ => exact ⟨fun _ => rfl, (List.append_nil _).symm⟩

end UdpIngress

namespace UdpTunnel

variable {s s' : UdpTunnel} {l : Label}

/-- What the target has sent to the sockets created for an origin. -/
def answersFor (s : UdpTunnel) (origin : SocketAddr) : List Bytes :=
  s.received.filterMap fun e => if (s.flow e.1).origin = origin then some e.2 else none

lemma reachable_step (h : ∃ ls, system.Run ls s) (hs : s.step l = some s') :
    ∃ ls, system.Run ls s' := by
  obtain ⟨ls, hr⟩ := h
  exact ⟨ls ++ [l], hr.snoc hs⟩

/-- Only the main loop takes datagrams from the tunnel, and only reply tasks send any. -/
lemma logs_step (hs : s.step l = some s') : s'.delivered = s.delivered ++ takenBy l ∧
    s.sentToTunnel <+: s'.sentToTunnel ∧ (takenBy l ≠ [] → s'.sentToTunnel = s.sentToTunnel) := by
  cases step_cases hs with
  | malformed | noOrigin | routed | spawned => exact ⟨rfl, List.prefix_refl _, fun _ => rfl⟩
  | @replied i data ok hi =>
      obtain ⟨buffer, payload, he⟩ := s.sendReply_eq i data ok
      rw [he]
      refine ⟨(List.append_nil _).symm, ?_, fun h => absurd rfl h⟩
      cases ok
      · exact List.prefix_refl _
      · exact List.prefix_append ..
  | _ => exact ⟨(List.append_nil _).symm, List.prefix_refl _, fun h => absurd rfl h⟩

end UdpTunnel

/-! ## The path -/

/-- `toEgress` and `toIngress` are under way; `requests` and `consumed` are logs, of what the
ingress's socket has received and of what its readers have taken. -/
structure UdpPath (τ : Type) (w : ℕ) where
  ingress : UdpIngress τ w
  tunnel : τ → UdpTunnel
  toEgress : τ → List Bytes
  toIngress : τ → List Bytes
  requests : List (SocketAddr × Bytes)
  consumed : List (τ × Bytes)

namespace UdpPath

variable {τ : Type} [DecidableEq τ] {w : ℕ}

def new (τ : Type) (w : ℕ) : UdpPath τ w where
  ingress := .new τ w
  tunnel _ := .new
  toEgress _ := []
  toIngress _ := []
  requests := []
  consumed := []

inductive Label (τ : Type) where
  | ingress (l : UdpIngress.Label τ)
  | egress (t : τ) (l : UdpTunnel.Label)
  | arriveAtEgress (t : τ) (bytes : Bytes)
  | arriveAtIngress (t : τ) (bytes : Bytes)
  | loseToEgress (t : τ) (bytes : Bytes)
  | loseToIngress (t : τ) (bytes : Bytes)

/-- What arrives at either end is the medium's step. -/
def isArrival : UdpIngress.Label τ → Bool
  | .arrive _ _ => true
  | _ => false

def step (s : UdpPath τ w) : Label τ → Option (UdpPath τ w)
  | .ingress l =>
      if isArrival l then none
      else (s.ingress.step l).map fun g => { s with
        ingress := g
        toEgress := fun t =>
          s.toEgress t ++ ofKey t (g.sentToTunnels.drop s.ingress.sentToTunnels.length)
        requests := s.requests ++ UdpIngress.requestOf l
        consumed := s.consumed ++ s.ingress.consumedBy l }
  | .egress t l =>
      if UdpTunnel.takenBy l = [] then
        ((s.tunnel t).step l).map fun u => { s with
          tunnel := Function.update s.tunnel t u
          toIngress := Function.update s.toIngress t
            (s.toIngress t ++ u.sentToTunnel.drop (s.tunnel t).sentToTunnel.length) }
      else none
  | .arriveAtEgress t bytes =>
      if bytes ∈ s.toEgress t then
        ((s.tunnel t).step (.datagram bytes)).map fun u => { s with
          tunnel := Function.update s.tunnel t u
          toEgress := Function.update s.toEgress t ((s.toEgress t).erase bytes) }
      else none
  | .arriveAtIngress t bytes =>
      if bytes ∈ s.toIngress t then
        (s.ingress.step (.arrive t bytes)).map fun g => { s with
          ingress := g
          toIngress := Function.update s.toIngress t ((s.toIngress t).erase bytes) }
      else none
  | .loseToEgress t bytes => some { s with
      toEgress := Function.update s.toEgress t ((s.toEgress t).erase bytes) }
  | .loseToIngress t bytes => some { s with
      toIngress := Function.update s.toIngress t ((s.toIngress t).erase bytes) }

def system (τ : Type) [DecidableEq τ] (w : ℕ) : System (UdpPath τ w) (Label τ) := ⟨new τ w, step⟩

/-- What an origin sent to the ingress, as far as the receive buffer goes. -/
def requestsFrom (s : UdpPath τ w) (origin : SocketAddr) : List Bytes :=
  s.requests.filterMap fun r =>
    if r.1.asOrigin = origin then some (r.2.take UdpIngress.bufferSize) else none

/-- What the ingress sent to an origin. -/
def repliesTo (s : UdpPath τ w) (origin : SocketAddr) : List Bytes :=
  s.ingress.sentToOrigins.filterMap fun e => if e.2.1 = origin then some e.2.2 else none

/-- Both directions of every tunnel, and the two ends of the ingress. -/
structure Sound (s : UdpPath τ w) : Prop where
  reachable : ∀ t, ∃ ls, UdpTunnel.system.Run ls (s.tunnel t)
  requested : s.ingress.sentToTunnels.map Prod.snd <+ s.requests.map UdpIngress.requestDatagram
  down : ∀ t, Conserves (ofKey t s.ingress.sentToTunnels) (s.tunnel t).delivered (s.toEgress t)
  up : ∀ t, Conserves (s.tunnel t).sentToTunnel
    (ofKey t s.consumed ++ (s.ingress.connection t).datagrams) (s.toIngress t)
  answered : s.ingress.sentToOrigins.map Prod.snd =
    s.consumed.filterMap fun e => UdpIngress.forwarded e.2

lemma sound_new : (new τ w).Sound where
  reachable _ := ⟨[], .nil⟩
  requested := List.Sublist.refl []
  down _ := conserves_nil
  up _ := conserves_nil
  answered := rfl

variable {s s' : UdpPath τ w} {l : Label τ}

theorem Sound.step (h : s.Sound) (hs : s.step l = some s') : s'.Sound := by
  cases l with
  | ingress l =>
      simp only [UdpPath.step, Option.ite_none_left_eq_some, Option.map_eq_some_iff] at hs
      obtain ⟨hl, g, hg, rfl⟩ := hs
      obtain ⟨new, hnew, hsub⟩ := UdpIngress.sentToTunnels_step hg
      have harr : ∀ t bytes, l ≠ .arrive t bytes := by
        rintro t bytes rfl
        exact hl rfl
      obtain ⟨hdata, hsent⟩ := UdpIngress.consumed_step hg harr
      refine ⟨h.reachable, ?_, fun t => ?_, fun t => ?_, ?_⟩
      · simp only [hnew, List.map_append]
        exact h.requested.append hsub
      · simp only [hnew, List.drop_left, ofKey_append]
        exact (h.down t).send _
      · have hup := h.up t
        rw [hdata t, ← List.append_assoc, ← ofKey_append] at hup
        exact hup
      · simp only [hsent, h.answered, List.filterMap_append]
  | egress t l =>
      simp only [UdpPath.step, Option.ite_none_right_eq_some, Option.map_eq_some_iff] at hs
      obtain ⟨hl, u, hu, rfl⟩ := hs
      obtain ⟨hdel, ⟨new, hnew⟩, -⟩ := UdpTunnel.logs_step hu
      rw [hl, List.append_nil] at hdel
      refine ⟨fun j => ?_, h.requested, fun j => ?_, fun j => ?_, h.answered⟩
      all_goals rcases eq_or_ne j t with rfl | hne
      · simpa using UdpTunnel.reachable_step (h.reachable j) hu
      · simpa [hne] using h.reachable j
      · simpa [hdel] using h.down j
      · simpa [hne] using h.down j
      · simp only [Function.update_self, ← hnew, List.drop_left]
        exact (h.up j).send new
      · simpa [hne] using h.up j
  | arriveAtEgress t bytes =>
      simp only [UdpPath.step, Option.ite_none_right_eq_some, Option.map_eq_some_iff] at hs
      obtain ⟨hmem, u, hu, rfl⟩ := hs
      obtain ⟨hdel, -, hsent⟩ := UdpTunnel.logs_step hu
      have hsent := hsent (by simp [UdpTunnel.takenBy])
      refine ⟨fun j => ?_, h.requested, fun j => ?_, fun j => ?_, h.answered⟩
      all_goals rcases eq_or_ne j t with rfl | hne
      · simpa using UdpTunnel.reachable_step (h.reachable j) hu
      · simpa [hne] using h.reachable j
      · simp only [Function.update_self, hdel]
        exact (h.down j).arrive hmem
      · simpa [hne] using h.down j
      · simpa [hsent] using h.up j
      · simpa [hne] using h.up j
  | arriveAtIngress t bytes =>
      simp only [UdpPath.step, Option.ite_none_right_eq_some, Option.map_eq_some_iff] at hs
      obtain ⟨hmem, g, hg, rfl⟩ := hs
      cases UdpIngress.step_cases hg with
      | arrived =>
          refine ⟨h.reachable, h.requested, h.down, fun j => ?_, h.answered⟩
          rcases eq_or_ne j t with rfl | hne
          · simp only [Function.update_self, TunnelConnection.receive, ← List.append_assoc]
            exact (h.up j).arrive hmem
          · simpa [hne] using h.up j
  | loseToEgress t bytes =>
      rw [← Option.some.inj hs]
      refine ⟨h.reachable, h.requested, fun j => ?_, h.up, h.answered⟩
      rcases eq_or_ne j t with rfl | hne
      · simpa using (h.down j).lose bytes
      · simpa [hne] using h.down j
  | loseToIngress t bytes =>
      rw [← Option.some.inj hs]
      refine ⟨h.reachable, h.requested, h.down, fun j => ?_, h.answered⟩
      rcases eq_or_ne j t with rfl | hne
      · simpa using (h.up j).lose bytes
      · simpa [hne] using h.up j

lemma sound_run {ls : List (Label τ)} (h : (system τ w).Run ls s) : s.Sound :=
  h.invariant (P := Sound) sound_new fun _ _ _ hi hs => hi.step hs

/-! ## One origin's datagrams, over all tunnels -/

/-- What goes to the target for an origin was sent by that origin, and what comes back to it was
sent to a socket of that origin; each as often at most. -/
structure NothingForged (s : UdpPath τ w) : Prop where
  requests : ∀ (origin : SocketAddr) (ts : List τ), ts.Nodup →
    (ts.flatMap fun t => (s.tunnel t).sentFor origin) <+~ s.requestsFrom origin
  replies : ∀ origin : SocketAddr, ∃ ts : List τ, ts.Nodup ∧
    s.repliesTo origin <+~ ts.flatMap fun t => (s.tunnel t).answersFor origin

/-- What an egress has sent for an origin was put into its tunnel under that origin. -/
lemma Sound.sentFor_subperm (h : s.Sound) (origin : SocketAddr) (t : τ) :
    (s.tunnel t).sentFor origin <+~
      (ofKey t s.ingress.sentToTunnels).filterMap (payloadOf origin) := by
  obtain ⟨ls, hr⟩ := h.reachable t
  have hsent := (UdpTunnel.orderSound_run hr).sent origin
  exact hsent.subperm.trans (subperm_filterMap _ (h.down t).arrived_subperm)

lemma Sound.requests_subperm (h : s.Sound) (origin : SocketAddr) :
    (s.ingress.sentToTunnels.map Prod.snd).filterMap (payloadOf origin) <+~
      s.requestsFrom origin := by
  refine List.Subperm.trans (h.requested.filterMap _).subperm (List.Perm.of_eq ?_).subperm
  rw [List.filterMap_map, requestsFrom]
  exact List.filterMap_congr fun r _ => payloadOf_originHeader origin r.1 _

/-- What the readers of a tunnel have taken for an origin was received by one of its sockets. -/
lemma Sound.consumed_subperm (h : s.Sound) (origin : SocketAddr) (t : τ) :
    (ofKey t s.consumed).filterMap (payloadOf origin) <+~ (s.tunnel t).answersFor origin := by
  obtain ⟨ls, hr⟩ := h.reachable t
  have hrep := UdpTunnel.repliesSound_run hr
  have htaken : ofKey t s.consumed <+~ (s.tunnel t).sentToTunnel :=
    (List.sublist_append_left ..).subperm.trans (h.up t).arrived_subperm
  refine (subperm_filterMap _ (htaken.trans hrep.sent.subperm)).trans (List.Perm.of_eq ?_).subperm
  rw [List.filterMap_map, UdpTunnel.answersFor]
  refine List.filterMap_congr fun e he => ?_
  have horigin := (hrep.origin e.1 (hrep.logged e he)).asOrigin_eq
  exact (payloadOf_originHeader origin _ e.2).trans (by rw [horigin])

lemma forwarded_bind (origin : SocketAddr) (bytes : Bytes) :
    ((UdpIngress.forwarded bytes).bind fun e => if e.1 = origin then some e.2 else none) =
      payloadOf origin bytes := by
  rw [UdpIngress.forwarded, UdpIngress.forwardToOrigin, payloadOf]
  cases extractOriginSocketAddrFromDatagram bytes with
  | panic => rfl
  | ret r =>
      obtain ⟨addr, payload⟩ := r
      cases addr <;> rfl

lemma Sound.repliesTo_eq (h : s.Sound) (origin : SocketAddr) :
    s.repliesTo origin = (s.consumed.map Prod.snd).filterMap (payloadOf origin) := by
  have hmap : s.repliesTo origin = (s.ingress.sentToOrigins.map Prod.snd).filterMap fun e =>
      if e.1 = origin then some e.2 else none := by
    rw [List.filterMap_map]
    rfl
  rw [hmap, h.answered, List.filterMap_filterMap, List.filterMap_map]
  exact List.filterMap_congr fun e _ => forwarded_bind origin e.2

/-! ## Nobody panics -/

/-- What is under way to an egress was made of a request. -/
lemma Sound.toEgress_whole (h : s.Sound) {t : τ} {bytes : Bytes} (hb : bytes ∈ s.toEgress t) :
    OriginHeaderWhole bytes := by
  have hsent := List.mem_map_of_mem (f := Prod.snd) (mem_ofKey.mp ((h.down t).mem (Or.inr hb)))
  obtain ⟨r, -, rfl⟩ := List.mem_map.mp (h.requested.subset hsent)
  exact originHeaderWhole r.1 _

/-- What is under way to the ingress, or has arrived there, was made of an answer. -/
lemma Sound.toIngress_whole (h : s.Sound) {t : τ} {bytes : Bytes}
    (hb : bytes ∈ (s.ingress.connection t).datagrams ∨ bytes ∈ s.toIngress t) :
    OriginHeaderWhole bytes := by
  obtain ⟨ls, hr⟩ := h.reachable t
  have hsent := (h.up t).mem (hb.imp (List.mem_append_right _) id)
  obtain ⟨e, -, rfl⟩ := List.mem_map.mp ((UdpTunnel.repliesSound_run hr).sent.subset hsent)
  exact originHeaderWhole _ _

/-- No reader of the ingress has panicked, and no main loop of an egress. -/
structure NonePanicked (s : UdpPath τ w) : Prop where
  readers : ∀ t, s.ingress.reader t ≠ .panicked
  mainLoops : ∀ t, (s.tunnel t).main ≠ .panicked

lemma NonePanicked.withTunnel (h : s.NonePanicked) {t : τ} {u : UdpTunnel}
    (hu : u.main ≠ .panicked) (j : τ) : (Function.update s.tunnel t u j).main ≠ .panicked := by
  rcases eq_or_ne j t with rfl | hne
  · rw [Function.update_self]
    exact hu
  · rw [Function.update_of_ne hne]
    exact h.mainLoops j

lemma NonePanicked.step (h : s.NonePanicked) (hsound : s.Sound) (hs : s.step l = some s') :
    s'.NonePanicked := by
  have hwhole : ∀ t, ∀ bytes ∈ (s.ingress.connection t).datagrams, OriginHeaderWhole bytes :=
    fun t bytes hb => hsound.toIngress_whole (Or.inl hb)
  cases l with
  | ingress l =>
      simp only [UdpPath.step, Option.ite_none_left_eq_some, Option.map_eq_some_iff] at hs
      obtain ⟨hl, g, hg, rfl⟩ := hs
      refine ⟨(UdpIngress.readersAlive_step ⟨hwhole, h.readers⟩ ?_ hg).alive, h.mainLoops⟩
      rintro t bytes rfl
      exact absurd rfl hl
  | egress t l =>
      simp only [UdpPath.step, Option.ite_none_right_eq_some, Option.map_eq_some_iff] at hs
      obtain ⟨hl, u, hu, rfl⟩ := hs
      exact ⟨h.readers, h.withTunnel
        (UdpTunnel.main_alive_step (h.mainLoops t) (fun b hb => by simp [hl] at hb) hu)⟩
  | arriveAtEgress t bytes =>
      simp only [UdpPath.step, Option.ite_none_right_eq_some, Option.map_eq_some_iff] at hs
      obtain ⟨hmem, u, hu, rfl⟩ := hs
      refine ⟨h.readers, h.withTunnel (UdpTunnel.main_alive_step (h.mainLoops t) ?_ hu)⟩
      intro b hb
      rw [List.mem_singleton.mp hb]
      exact hsound.toEgress_whole hmem
  | arriveAtIngress t bytes =>
      simp only [UdpPath.step, Option.ite_none_right_eq_some, Option.map_eq_some_iff] at hs
      obtain ⟨hmem, g, hg, rfl⟩ := hs
      refine ⟨(UdpIngress.readersAlive_step ⟨hwhole, h.readers⟩ ?_ hg).alive, h.mainLoops⟩
      rintro u b heq
      cases heq
      exact hsound.toIngress_whole (Or.inr hmem)
  | loseToEgress | loseToIngress =>
      rw [← Option.some.inj hs]
      exact ⟨h.readers, h.mainLoops⟩

lemma nonePanicked_run {ls : List (Label τ)} (h : (system τ w).Run ls s) : s.NonePanicked := by
  induction h with
  | nil => exact ⟨fun _ => nofun, fun _ => nofun⟩
  | snoc hr hs ih => exact ih.step (sound_run hr) hs

/-- **Nothing is forged, duplicated or given to another origin on the way**, in every run: over any
number of tunnels, whatever the medium loses or reorders, and whichever sockets and flows come and
go.  Nor does either end send the other what it would panic on. -/
theorem udp_path_sound {ls : List (Label τ)} (h : (system τ w).Run ls s) :
    s.NothingForged ∧ s.NonePanicked := by
  have hsound := sound_run h
  refine ⟨⟨fun origin ts hts => ?_, fun origin => ?_⟩, nonePanicked_run h⟩
  · have hparts : (ts.flatMap fun t => (s.tunnel t).sentFor origin) <+~
        (ts.flatMap fun t => ofKey t s.ingress.sentToTunnels).filterMap (payloadOf origin) := by
      rw [List.filterMap_flatMap]
      exact flatMap_subperm_flatMap fun t _ => hsound.sentFor_subperm origin t
    refine hparts.trans (List.Subperm.trans ?_ (hsound.requests_subperm origin))
    exact subperm_filterMap _ (flatMap_ofKey_subperm hts _)
  · obtain ⟨ts, hts, hperm⟩ := exists_flatMap_ofKey s.consumed
    refine ⟨ts, hts, ?_⟩
    rw [hsound.repliesTo_eq]
    refine List.Subperm.trans (hperm.filterMap _).subperm ?_
    rw [List.filterMap_flatMap]
    exact flatMap_subperm_flatMap fun t _ => hsound.consumed_subperm origin t

/-- The second of two requests overtakes the first, which gets lost, and is answered. -/
def overtakingRun : List (Label ℕ) :=
  oneTunnel.map .ingress ++
    [.ingress (.recvFrom 0 (.v4 .localhost 8080) [1]),
      .ingress (.recvFrom 0 (.v4 .localhost 8080) [2]),
      .arriveAtEgress 7 [0, 127, 0, 0, 1, 31, 144, 2],
      .egress 7 .trySend, .egress 7 .insert, .egress 7 (.socketCreated 0), .egress 7 (.recvMany 0),
      .egress 7 (.send 0 true), .loseToEgress 7 [0, 127, 0, 0, 1, 31, 144, 1],
      .egress 7 (.reply 0 [9] true), .arriveAtIngress 7 [0, 127, 0, 0, 1, 31, 144, 9],
      .ingress (.readDatagram 7)]

set_option maxRecDepth 8000 in
theorem udp_path_sound_overtaking : ∃ s, (system ℕ 64).Run overtakingRun s ∧ s.NothingForged ∧
    s.requestsFrom (.v4 ⟨#v[127, 0, 0, 1]⟩ 8080) = [[1], [2]] ∧
    (s.tunnel 7).sentFor (.v4 ⟨#v[127, 0, 0, 1]⟩ 8080) = [[2]] ∧
    s.repliesTo (.v4 ⟨#v[127, 0, 0, 1]⟩ 8080) = [[9]] := by
  have h : (system ℕ 64).Run overtakingRun _ := System.run_of_exec rfl
  exact ⟨_, h, (udp_path_sound h).1, rfl, rfl, rfl⟩

end UdpPath

end Siffleux
