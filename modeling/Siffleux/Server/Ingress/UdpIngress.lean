import Siffleux.Common.Frames.Datagram
import Siffleux.Server.Ingress.TunnelList

/-!
# The UDP ingress

`server/ingress/udp_ingress.rs` as a transition system.  Besides the list of tunnels it has the
socket with its cancellation token, one task per socket that forwards what origins send, and one
*reader* task per tunnel that forwards what comes back.

A socket and its token are named by the number of the `start` that made them.  Of the transport
the model keeps, for each tunnel, the datagrams that have arrived and the reason its connection
ended: `read_datagram` hands out the former first and then the latter, every time it is called.

* `readDatagram` — one turn of the reader loop after `tunnel.read_datagram()` was ready.
* `handleSocketDatagram` — one turn of the socket loop after `recv_from`.
* `UdpIngress.simulation` — for the list, the UDP ingress is a registration too.
-/

namespace Siffleux

open ByteBuf Transition

/-- What the transport holds of a tunnel's connection. -/
structure TunnelConnection where
  datagrams : List Bytes
  lost : Option ConnectionError
  deriving DecidableEq, Repr

/-- A datagram from the peer. -/
def TunnelConnection.receive (c : TunnelConnection) (bytes : Bytes) : TunnelConnection :=
  { c with datagrams := c.datagrams ++ [bytes] }

/-- The end of the connection, for any reason the transport has. -/
def TunnelConnection.lose (c : TunnelConnection) (e : ConnectionError) : TunnelConnection :=
  { c with lost := some e }

/-- `connection.close(..)`: a connection that has ended stays ended for its first reason. -/
def TunnelConnection.close (c : TunnelConnection) : TunnelConnection :=
  { c with lost := some (c.lost.getD .locallyClosed) }

/-- `Tunnel::read_datagram`; `none` is a call that waits. -/
def TunnelConnection.readDatagram (c : TunnelConnection) :
    Option (Except Error Bytes × TunnelConnection) :=
  match c.datagrams, c.lost with
  | b :: rest, _ => some (.ok b, { c with datagrams := rest })
  | [], some e => some (.error (.ofConnectionError e), c)
  | [], none => none

lemma TunnelConnection.lost_of_readDatagram {c c' : TunnelConnection} {r : Except Error Bytes}
    (h : c.readDatagram = some (r, c')) : c'.lost = c.lost := by
  rw [TunnelConnection.readDatagram] at h
  split at h <;> cases h <;> rfl

lemma TunnelConnection.datagrams_of_readDatagram {c c' : TunnelConnection} {b : Bytes}
    (h : c.readDatagram = some (.ok b, c')) : c.datagrams = b :: c'.datagrams := by
  rw [TunnelConnection.readDatagram] at h
  split at h <;> cases h
  assumption

/-- `assign_tunnel` up to the watcher. -/
inductive UdpAssignPc where
  | notCalled
  | rejected
  | spawnReader (socket : ℕ)
  | register
  deriving DecidableEq, Repr

/-- The reader task of a tunnel, with the socket and token it was given. -/
inductive ReaderPc where
  | notSpawned
  | running (socket : ℕ)
  | ended
  | panicked
  deriving DecidableEq, Repr

/-- The task running `handle_socket_to_tunnel`. -/
inductive SocketLoopPc where
  | notSpawned
  | spawning
  | running
  | ended
  deriving DecidableEq, Repr

structure UdpIngress (τ : Type) (w : ℕ) where
  list : TunnelList τ w
  connection : τ → TunnelConnection
  udpSocket : Option ℕ
  nextSocket : ℕ
  isCancelled : ℕ → Bool
  socketLoop : ℕ → SocketLoopPc
  assign : τ → UdpAssignPc
  reader : τ → ReaderPc
  sentToOrigins : List (ℕ × SocketAddr × Bytes)
  sentToTunnels : List (τ × Bytes)

namespace UdpIngress

variable {τ : Type} [DecidableEq τ] {w : ℕ}

/-- `UdpIngress::new`. -/
def new (τ : Type) (w : ℕ) : UdpIngress τ w where
  list := .new τ w
  connection _ := ⟨[], none⟩
  udpSocket := none
  nextSocket := 0
  isCancelled _ := false
  socketLoop _ := .notSpawned
  assign _ := .notCalled
  reader _ := .notSpawned
  sentToOrigins := []
  sentToTunnels := []

def isClosed (s : UdpIngress τ w) (t : τ) : Bool := (s.connection t).lost.isSome

/-- `let mut buffer = [0u8; 1500]`. -/
def bufferSize : ℕ := 1500

/-- What the reader does with a datagram: send its payload to the origin it names, if any. -/
def forwardToOrigin (bytes : Bytes) : Outcome (Option (SocketAddr × Bytes)) :=
  (extractOriginSocketAddrFromDatagram bytes).map fun r => r.1.map fun addr => (addr, r.2)

/-- One turn of the reader loop with a result of `read_datagram`. -/
def readDatagram (s : UdpIngress τ w) (t : τ) (socket : ℕ) : Option (UdpIngress τ w) :=
  match (s.connection t).readDatagram with
  | none => none
  | some (.ok bytes, c) =>
      let s := { s with connection := Function.update s.connection t c }
      match forwardToOrigin bytes with
      | .ret sent =>
          some { s with sentToOrigins := s.sentToOrigins ++ sent.toList.map (Prod.mk socket) }
      | .panic => some { s with reader := Function.update s.reader t .panicked }
  | some (.error e, _) =>
      if e.isClosedTunnel then some { s with reader := Function.update s.reader t .ended }
      else some s

/-- One turn of the socket loop with a datagram from an origin; the socket stores at most the
buffer's length. -/
def handleSocketDatagram (s : UdpIngress τ w) (addr : SocketAddr) (bytes : Bytes) :
    Outcome (UdpIngress τ w) :=
  let buffer := bytes.take bufferSize
  s.list.getTunnelToConnect.bind fun r =>
    let s := { s with list := r.2 }
    match r.1 with
    | some t => (toDatagram addr buffer buffer.length).map fun d =>
        { s with sentToTunnels := s.sentToTunnels ++ [(t, d)] }
    | none => .ret s

inductive Label (τ : Type) where
  | assignTunnel (t : τ)
  | spawnReader (t : τ)
  | list (l : TunnelList.Label τ)
  | arrive (t : τ) (bytes : Bytes)
  | close (t : τ) (e : ConnectionError)
  | readDatagram (t : τ)
  | readerCancelled (t : τ)
  | start
  | spawnLoop (i : ℕ)
  | recvFrom (i : ℕ) (addr : SocketAddr) (bytes : Bytes)
  | recvFromFails (i : ℕ)
  | loopCancelled (i : ℕ)
  | stop
  deriving DecidableEq

/-- The watcher is spawned only after the reader. -/
def admits (s : UdpIngress τ w) : TunnelList.Label τ → Bool
  | .spawnWatcher t => s.assign t == .register
  | _ => true

/-- `arrive` and `close` are the transport's steps.  A `start` that is refused or fails to bind
changes nothing and is no step. -/
def step (s : UdpIngress τ w) : Label τ → Option (UdpIngress τ w)
  | .assignTunnel t =>
      if s.assign t = .notCalled then
        match s.udpSocket with
        | some i => some { s with assign := Function.update s.assign t (.spawnReader i) }
        | none => some { s with assign := Function.update s.assign t .rejected }
      else none
  | .spawnReader t =>
      match s.assign t with
      | .spawnReader i => some { s with
          assign := Function.update s.assign t .register
          reader := Function.update s.reader t (.running i) }
      | _ => none
  | .list l =>
      if s.admits l then (s.list.step s.isClosed l).map fun list => { s with list := list }
      else none
  | .arrive t bytes =>
      if (s.connection t).lost = none then
        some { s with
          connection := Function.update s.connection t ((s.connection t).receive bytes) }
      else none
  | .close t e =>
      if (s.connection t).lost = none then
        some { s with connection := Function.update s.connection t ((s.connection t).lose e) }
      else none
  | .readDatagram t =>
      match s.reader t with
      | .running i => s.readDatagram t i
      | _ => none
  | .readerCancelled t =>
      match s.reader t with
      | .running i =>
          if s.isCancelled i then some { s with
            connection := Function.update s.connection t (s.connection t).close
            reader := Function.update s.reader t .ended }
          else none
      | _ => none
  | .start =>
      if s.udpSocket = none then some { s with
        udpSocket := some s.nextSocket
        nextSocket := s.nextSocket + 1
        socketLoop := Function.update s.socketLoop s.nextSocket .spawning }
      else none
  | .spawnLoop i =>
      if s.socketLoop i = .spawning then
        some { s with socketLoop := Function.update s.socketLoop i .running }
      else none
  | .recvFrom i addr bytes =>
      if s.socketLoop i = .running then
        match s.handleSocketDatagram addr bytes with
        | .ret s' => some s'
        | .panic => some { s with socketLoop := Function.update s.socketLoop i .ended }
      else none
  | .recvFromFails i =>
      if s.socketLoop i = .running then
        some { s with socketLoop := Function.update s.socketLoop i .ended }
      else none
  | .loopCancelled i =>
      if s.socketLoop i = .running ∧ s.isCancelled i = true then
        some { s with socketLoop := Function.update s.socketLoop i .ended }
      else none
  | .stop =>
      match s.udpSocket with
      | some i => some { s with
          udpSocket := none
          isCancelled := Function.update s.isCancelled i true }
      | none => none

def system (τ : Type) [DecidableEq τ] (w : ℕ) : System (UdpIngress τ w) (Label τ) := ⟨new τ w, step⟩

/-! ## What a step can do -/

omit [DecidableEq τ] in
/-- The socket loop touches the rotation counter and what was sent to the tunnels. -/
lemma handleSocketDatagram_eq {s s' : UdpIngress τ w} {addr : SocketAddr} {bytes : Bytes}
    (hs : s.handleSocketDatagram addr bytes = .ret s') : ∃ r sent,
      s' = { s with list := { s.list with tunnelRotation := r }, sentToTunnels := sent } := by
  obtain ⟨picked, r, hg, -⟩ := s.list.getTunnelToConnect_mem
  simp only [handleSocketDatagram, hg, Outcome.bind_ret] at hs
  cases picked with
  | none =>
      rw [← Outcome.ret.inj hs]
      exact ⟨r, s.sentToTunnels, rfl⟩
  | some t =>
      obtain ⟨d, -, rfl⟩ := Outcome.map_eq_ret_iff.mp hs
      exact ⟨r, _, rfl⟩

/-- Every step with its guard and its effect. -/
inductive Step (s : UdpIngress τ w) : Label τ → UdpIngress τ w → Prop
  | assigned {t : τ} {i : ℕ} (h : s.assign t = .notCalled) (hi : s.udpSocket = some i) :
      Step s (.assignTunnel t) { s with assign := Function.update s.assign t (.spawnReader i) }
  | rejected {t : τ} (h : s.assign t = .notCalled) (hi : s.udpSocket = none) :
      Step s (.assignTunnel t) { s with assign := Function.update s.assign t .rejected }
  | readerSpawned {t : τ} {i : ℕ} (h : s.assign t = .spawnReader i) :
      Step s (.spawnReader t) { s with
        assign := Function.update s.assign t .register
        reader := Function.update s.reader t (.running i) }
  | list {k : TunnelList.Label τ} {list : TunnelList τ w} (ha : s.admits k = true)
      (h : s.list.step s.isClosed k = some list) : Step s (.list k) { s with list := list }
  | arrived {t : τ} {bytes : Bytes} (h : (s.connection t).lost = none) :
      Step s (.arrive t bytes) { s with
        connection := Function.update s.connection t ((s.connection t).receive bytes) }
  | closed {t : τ} {e : ConnectionError} (h : (s.connection t).lost = none) :
      Step s (.close t e) { s with
        connection := Function.update s.connection t ((s.connection t).lose e) }
  | forwarded {t : τ} {i : ℕ} {bytes : Bytes} {c : TunnelConnection}
      {sent : Option (SocketAddr × Bytes)} (h : s.reader t = .running i)
      (hr : (s.connection t).readDatagram = some (.ok bytes, c))
      (hf : forwardToOrigin bytes = .ret sent) :
      Step s (.readDatagram t) { s with
        connection := Function.update s.connection t c
        sentToOrigins := s.sentToOrigins ++ sent.toList.map (Prod.mk i) }
  | readerPanics {t : τ} {i : ℕ} {bytes : Bytes} {c : TunnelConnection}
      (h : s.reader t = .running i) (hr : (s.connection t).readDatagram = some (.ok bytes, c))
      (hf : forwardToOrigin bytes = .panic) :
      Step s (.readDatagram t) { s with
        connection := Function.update s.connection t c
        reader := Function.update s.reader t .panicked }
  | readerLeaves {t : τ} {i : ℕ} {e : Error} {c : TunnelConnection} (h : s.reader t = .running i)
      (hr : (s.connection t).readDatagram = some (.error e, c)) (he : e.isClosedTunnel = true) :
      Step s (.readDatagram t) { s with reader := Function.update s.reader t .ended }
  | readerStays {t : τ} {i : ℕ} {e : Error} {c : TunnelConnection} (h : s.reader t = .running i)
      (hr : (s.connection t).readDatagram = some (.error e, c)) (he : ¬ e.isClosedTunnel = true) :
      Step s (.readDatagram t) s
  | readerCancelled {t : τ} {i : ℕ} (h : s.reader t = .running i) (hc : s.isCancelled i = true) :
      Step s (.readerCancelled t) { s with
        connection := Function.update s.connection t (s.connection t).close
        reader := Function.update s.reader t .ended }
  | started (h : s.udpSocket = none) :
      Step s .start { s with
        udpSocket := some s.nextSocket
        nextSocket := s.nextSocket + 1
        socketLoop := Function.update s.socketLoop s.nextSocket .spawning }
  | loopSpawned {i : ℕ} (h : s.socketLoop i = .spawning) :
      Step s (.spawnLoop i) { s with socketLoop := Function.update s.socketLoop i .running }
  | received {i : ℕ} {addr : SocketAddr} {bytes : Bytes} {r : BitVec w} {sent : List (τ × Bytes)}
      (h : s.socketLoop i = .running) (hh : s.handleSocketDatagram addr bytes =
        .ret { s with list := { s.list with tunnelRotation := r }, sentToTunnels := sent }) :
      Step s (.recvFrom i addr bytes)
        { s with list := { s.list with tunnelRotation := r }, sentToTunnels := sent }
  | loopPanics {i : ℕ} {addr : SocketAddr} {bytes : Bytes} (h : s.socketLoop i = .running)
      (hh : s.handleSocketDatagram addr bytes = .panic) :
      Step s (.recvFrom i addr bytes)
        { s with socketLoop := Function.update s.socketLoop i .ended }
  | receiveFails {i : ℕ} (h : s.socketLoop i = .running) :
      Step s (.recvFromFails i) { s with socketLoop := Function.update s.socketLoop i .ended }
  | loopCancelled {i : ℕ} (h : s.socketLoop i = .running) (hc : s.isCancelled i = true) :
      Step s (.loopCancelled i) { s with socketLoop := Function.update s.socketLoop i .ended }
  | stopped {i : ℕ} (h : s.udpSocket = some i) :
      Step s .stop { s with
        udpSocket := none
        isCancelled := Function.update s.isCancelled i true }

lemma readDatagram_cases {s s' : UdpIngress τ w} {t : τ} {i : ℕ} (h : s.reader t = .running i)
    (hs : s.readDatagram t i = some s') : Step s (.readDatagram t) s' := by
  rw [readDatagram] at hs
  rcases hr : (s.connection t).readDatagram with _ | ⟨e | bytes, c⟩
  · rw [hr] at hs
    cases hs
  · simp only [hr] at hs
    split_ifs at hs with he <;> rw [← Option.some.inj hs]
    · exact .readerLeaves h hr he
    · exact .readerStays h hr he
  · simp only [hr] at hs
    rcases hf : forwardToOrigin bytes with sent | _ <;> simp only [hf, Option.some.injEq] at hs <;>
      subst hs
    · exact .forwarded h hr hf
    · exact .readerPanics h hr hf

/-- **The steps of the UDP ingress, inverted**: everything a step can do, with its guard. -/
theorem step_cases {s s' : UdpIngress τ w} {l : Label τ} (hs : step s l = some s') :
    Step s l s' := by
  cases l with
  | assignTunnel t =>
      simp only [step, Option.ite_none_right_eq_some] at hs
      obtain ⟨h, hs⟩ := hs
      split at hs
      · rename_i i hi
        rw [← Option.some.inj hs]
        exact .assigned h hi
      · rename_i hi
        rw [← Option.some.inj hs]
        exact .rejected h hi
  | spawnReader t =>
      simp only [step] at hs
      split at hs
      · rename_i i h
        rw [← Option.some.inj hs]
        exact .readerSpawned h
      · cases hs
  | list k =>
      simp only [step, Option.ite_none_right_eq_some, Option.map_eq_some_iff] at hs
      obtain ⟨ha, list, hk, rfl⟩ := hs
      exact .list ha hk
  | arrive t bytes =>
      simp only [step, Option.ite_none_right_eq_some, Option.some.injEq] at hs
      obtain ⟨h, rfl⟩ := hs
      exact .arrived h
  | close t e =>
      simp only [step, Option.ite_none_right_eq_some, Option.some.injEq] at hs
      obtain ⟨h, rfl⟩ := hs
      exact .closed h
  | readDatagram t =>
      simp only [step] at hs
      split at hs
      · rename_i i h
        exact readDatagram_cases h hs
      · cases hs
  | readerCancelled t =>
      simp only [step] at hs
      split at hs
      · rename_i i h
        simp only [Option.ite_none_right_eq_some, Option.some.injEq] at hs
        obtain ⟨hc, rfl⟩ := hs
        exact .readerCancelled h hc
      · cases hs
  | start =>
      simp only [step, Option.ite_none_right_eq_some, Option.some.injEq] at hs
      obtain ⟨h, rfl⟩ := hs
      exact .started h
  | spawnLoop i =>
      simp only [step, Option.ite_none_right_eq_some, Option.some.injEq] at hs
      obtain ⟨h, rfl⟩ := hs
      exact .loopSpawned h
  | recvFrom i addr bytes =>
      simp only [step, Option.ite_none_right_eq_some] at hs
      obtain ⟨h, hs⟩ := hs
      rcases hh : s.handleSocketDatagram addr bytes with s₁ | _ <;>
        simp only [hh, Option.some.injEq] at hs <;> subst hs
      · obtain ⟨r, sent, rfl⟩ := handleSocketDatagram_eq hh
        exact .received h hh
      · exact .loopPanics h hh
  | recvFromFails i =>
      simp only [step, Option.ite_none_right_eq_some, Option.some.injEq] at hs
      obtain ⟨h, rfl⟩ := hs
      exact .receiveFails h
  | loopCancelled i =>
      simp only [step, Option.ite_none_right_eq_some, Option.some.injEq] at hs
      obtain ⟨⟨h, hc⟩, rfl⟩ := hs
      exact .loopCancelled h hc
  | stop =>
      simp only [step] at hs
      split at hs
      · rename_i i h
        rw [← Option.some.inj hs]
        exact .stopped h
      · cases hs

/-! ## The list as a registration -/

def WellFormed (s : UdpIngress τ w) : Prop := s.list.WellFormed s.isClosed

def abs (s : UdpIngress τ w) : Registry.State τ := s.list.abs s.isClosed

/-- A connection ends by `close`, or because the cancelled reader closes it. -/
def lab : Label τ → Option (Registry.Label τ)
  | .list l => TunnelList.lab l
  | .close t _ => some (.close t)
  | .readerCancelled t => some (.close t)
  | _ => none

/-- Replacing a connection by one that is lost when it was leaves `isClosed`. -/
lemma isClosed_update {s s' : UdpIngress τ w} {t : τ} {c : TunnelConnection}
    (hc : s'.connection = Function.update s.connection t c)
    (hl : c.lost.isSome = (s.connection t).lost.isSome) : s'.isClosed = s.isClosed := by
  funext u
  rw [isClosed, isClosed, hc]
  rcases eq_or_ne u t with rfl | hne
  · rw [Function.update_self, hl]
  · rw [Function.update_of_ne hne]

/-- Ending the connection of `t`. -/
lemma isClosed_lost {s s' : UdpIngress τ w} {t : τ} {c : TunnelConnection}
    (hc : s'.connection = Function.update s.connection t c) (hl : c.lost.isSome = true) :
    s'.isClosed = Function.update s.isClosed t true := by
  funext u
  rw [isClosed, hc]
  rcases eq_or_ne u t with rfl | hne
  · rw [Function.update_self, Function.update_self, hl]
  · rw [Function.update_of_ne hne, Function.update_of_ne hne, isClosed]

/-- The two steps that end a connection. -/
lemma step_close {s s' : UdpIngress τ w} {l : Label τ} {t : τ} (hs : step s l = some s')
    (hlab : lab l = some (.close t)) :
    s'.isClosed = Function.update s.isClosed t true ∧ s'.list = s.list := by
  cases step_cases hs with
  | list => rename_i k _ _ _; cases k <;> cases hlab
  | closed =>
      cases hlab
      exact ⟨isClosed_lost rfl rfl, rfl⟩
  | readerCancelled =>
      cases hlab
      exact ⟨isClosed_lost rfl rfl, rfl⟩
  | _ => cases hlab

/-- A step that is none of the list's, nor the end of a connection, leaves both alone up to the
rotation counter. -/
lemma step_other {s s' : UdpIngress τ w} {l : Label τ} (hs : step s l = some s')
    (hl : ∀ k, l ≠ .list k) (hlab : lab l = none) :
    s'.isClosed = s.isClosed ∧ ∃ r, s'.list = { s.list with tunnelRotation := r } := by
  cases step_cases hs with
  | list => exact absurd rfl (hl _)
  | closed => cases hlab
  | readerCancelled => cases hlab
  | arrived => exact ⟨isClosed_update rfl rfl, s.list.tunnelRotation, rfl⟩
  | forwarded h hr hf =>
      exact ⟨isClosed_update rfl (by rw [TunnelConnection.lost_of_readDatagram hr]),
        s.list.tunnelRotation, rfl⟩
  | readerPanics h hr hf =>
      exact ⟨isClosed_update rfl (by rw [TunnelConnection.lost_of_readDatagram hr]),
        s.list.tunnelRotation, rfl⟩
  | received => exact ⟨rfl, _, rfl⟩
  | _ => exact ⟨rfl, s.list.tunnelRotation, rfl⟩

lemma step_list {s s' : UdpIngress τ w} {k : TunnelList.Label τ} (hs : step s (.list k) = some s') :
    ∃ list, s.list.step s.isClosed k = some list ∧ s' = { s with list := list } := by
  cases step_cases hs with
  | list ha h => exact ⟨_, h, rfl⟩

lemma WellFormed.step {s s' : UdpIngress τ w} {l : Label τ} (h : s.WellFormed)
    (hs : step s l = some s') : s'.WellFormed := by
  by_cases hl : ∃ k, l = .list k
  · obtain ⟨k, rfl⟩ := hl
    obtain ⟨list, hk, rfl⟩ := step_list hs
    exact TunnelList.WellFormed.step h hk
  have hne : ∀ k, l ≠ .list k := fun k e => hl ⟨k, e⟩
  by_cases hc : ∃ t, lab l = some (.close t)
  · obtain ⟨t, ht⟩ := hc
    obtain ⟨hcl, hli⟩ := step_close hs ht
    rw [WellFormed, hcl, hli]
    refine TunnelList.WellFormed.mono h fun u hu => ?_
    rcases eq_or_ne u t with rfl | hut
    · simp
    · simp [hut, hu]
  have hlab : lab l = none := by
    cases l with
    | list k => exact absurd rfl (hne k)
    | close t e => exact absurd ⟨t, rfl⟩ hc
    | readerCancelled t => exact absurd ⟨t, rfl⟩ hc
    | _ => rfl
  obtain ⟨he, r, hr⟩ := step_other hs hne hlab
  rw [WellFormed, he, hr]
  exact ⟨h.nodup, h.returned_of_mem, h.spawned_iff, h.closed_of_removing⟩

lemma step_silent {s s' : UdpIngress τ w} {l : Label τ} (h : s.WellFormed)
    (hs : step s l = some s') (hlab : lab l = none) : s'.abs = s.abs := by
  by_cases hl : ∃ k, l = .list k
  · obtain ⟨k, rfl⟩ := hl
    obtain ⟨list, hk, rfl⟩ := step_list hs
    have hr := TunnelList.step_refines h hk
    rw [show TunnelList.lab k = none from hlab] at hr
    exact hr
  · obtain ⟨he, r, hr⟩ := step_other hs (fun k e => hl ⟨k, e⟩) hlab
    rw [abs, he, hr]
    rfl

lemma step_visible {s s' : UdpIngress τ w} {l : Label τ} {k : Registry.Label τ}
    (h : s.WellFormed) (hs : step s l = some s') (hlab : lab l = some k) :
    Registry.step s.abs k = some s'.abs := by
  have hclose : ∀ t, lab l = some (.close t) → Registry.step s.abs (.close t) = some s'.abs := by
    intro t ht
    obtain ⟨hcl, hli⟩ := step_close hs ht
    rw [abs, abs, hcl, hli]
    rfl
  cases l with
  | list k' =>
      obtain ⟨list, hk, rfl⟩ := step_list hs
      have hr := TunnelList.step_refines h hk
      rw [show TunnelList.lab k' = some k from hlab] at hr
      exact hr
  | close t e =>
      rw [← Option.some.inj hlab]
      exact hclose t rfl
  | readerCancelled t =>
      rw [← Option.some.inj hlab]
      exact hclose t rfl
  | _ => cases hlab

/-- **For its list, the UDP ingress is a registration.** -/
def simulation (τ : Type) [DecidableEq τ] (w : ℕ) :
    Simulation (system τ w) (Registry.registration τ) where
  abs := abs
  lab := lab
  inv := WellFormed
  inv_init := TunnelList.wellFormed_new _
  inv_step _ _ _ h hs := h.step hs
  abs_init := TunnelList.abs_new _
  visible _ _ _ _ h hs hlab := step_visible h hs hlab
  silent _ _ _ h hs hlab := step_silent h hs hlab

end UdpIngress

end Siffleux
