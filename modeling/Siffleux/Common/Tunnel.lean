import Mathlib.Algebra.BigOperators.Group.Finset.Piecewise
import Siffleux.Common.ByteCounter
import Siffleux.Common.Frames.V1

/-!
# What a tunnel counts

A server has a counter, and so has a client; each of its tunnels has one below it, and each stream
of a tunnel one below that of the tunnel.  The readers and writers of a stream are wrapped, and tell
the stream's counter how much has gone through.  Datagrams go through the tunnel's connection
directly.

* `Endpoint` — a server or a client with its tunnels and their streams, over `ByteCounters`.
* `Endpoint.counted_run` — the counter of a tunnel holds what its streams have carried.
* `accounting_complete_iff` — so the accounts are complete exactly when the datagrams carry nothing.
-/

namespace Siffleux

open ByteBuf Transition

/-- What the counting needs of `TunnelInner`. -/
structure TunnelInner where
  id : Uuid
  serverId : ServerId
  byteCounter : ByteCounter
  deriving DecidableEq

/-- `Tunnel::new`. -/
def TunnelInner.new (id : Uuid) (serverId : ServerId) (address : ℕ)
    (parentByteCounter : Option ByteCounter) : TunnelInner :=
  ⟨id, serverId, .new address parentByteCounter⟩

structure TunnelStreamInner where
  id : UInt64
  byteCounter : ByteCounter
  deriving DecidableEq

/-- `TunnelStream::new`. -/
def TunnelStreamInner.new (id : UInt64) (address : ℕ) (tunnelByteCounter : ByteCounter) :
    TunnelStreamInner :=
  ⟨id, .new address (some tunnelByteCounter)⟩

/-- A server, or a client: its counters, its tunnels, their streams, and the payloads that their
connections have carried. -/
structure Endpoint (w : ℕ) where
  counters : ByteCounters w
  tunnels : Finset TunnelInner
  streams : Finset (TunnelInner × TunnelStreamInner)
  carried : Total → TunnelInner → List Bytes

namespace Endpoint

variable {w : ℕ}

/-- `byte_counter` of the server or the client. -/
def byteCounter : ByteCounter := .new 0 none

def new (w : ℕ) : Endpoint w where
  counters := { ByteCounters.new w with created := {byteCounter} }
  tunnels := ∅
  streams := ∅
  carried _ _ := []

/-- The connection of `T` hands over a payload, or takes one. -/
def carry (s : Endpoint w) (t : Total) (T : TunnelInner) (bytes : Bytes) : Endpoint w :=
  { s with carried := fun t' T' =>
      if t' = t ∧ T' = T then s.carried t' T' ++ [bytes] else s.carried t' T' }

/-- `read_datagram`. -/
def readDatagram (s : Endpoint w) (T : TunnelInner) (bytes : Bytes) : Endpoint w :=
  s.carry .bytesRead T bytes

/-- `send_datagram`. -/
def sendDatagram (s : Endpoint w) (T : TunnelInner) (bytes : Bytes) : Endpoint w :=
  s.carry .bytesWrite T bytes

/-- `quinn_stream_to_framed`. -/
def quinnStreamToFramed (s : Endpoint w) (T : TunnelInner) (index : UInt64) (address : ℕ) :
    Option (Endpoint w) :=
  (s.counters.step (.new address (some T.byteCounter))).map fun counters => { s with
    counters := counters
    streams := insert (T, .new index address T.byteCounter) s.streams }

/-- `create_stream`, after `open_bi`. -/
def createStream (s : Endpoint w) (T : TunnelInner) (index : UInt64) (address : ℕ) :
    Option (Endpoint w) :=
  s.quinnStreamToFramed T index address

/-- `accept_stream`, after `accept_bi`. -/
def acceptStream (s : Endpoint w) (T : TunnelInner) (index : UInt64) (address : ℕ) :
    Option (Endpoint w) :=
  s.quinnStreamToFramed T index address

/-- The wrapper of a reader calls this with what was read, and that of a writer with what was
accepted. -/
def inspect (s : Endpoint w) (t : Total) (S : TunnelStreamInner) (bytes : Bytes) :
    Option (Endpoint w) :=
  (s.counters.step (.addBytes t S.byteCounter (.ofNat w bytes.length))).map fun counters =>
    { s with counters := counters }

/-- `stream` is a read or a write of a stream, and `datagram` the same of a datagram. -/
inductive Label where
  | newTunnel (id : Uuid) (serverId : ServerId) (address : ℕ)
  | createStream (T : TunnelInner) (index : UInt64) (address : ℕ)
  | acceptStream (T : TunnelInner) (index : UInt64) (address : ℕ)
  | stream (t : Total) (T : TunnelInner) (S : TunnelStreamInner) (bytes : Bytes)
  | datagram (t : Total) (T : TunnelInner) (bytes : Bytes)
  | fetchAdd (t : Total) (i : ℕ)
  deriving DecidableEq

def step (s : Endpoint w) : Label → Option (Endpoint w)
  | .newTunnel id serverId address =>
      (s.counters.step (.new address (some byteCounter))).map fun counters => { s with
        counters := counters
        tunnels := insert (.new id serverId address (some byteCounter)) s.tunnels }
  | .createStream T index address => if T ∈ s.tunnels then s.createStream T index address else none
  | .acceptStream T index address => if T ∈ s.tunnels then s.acceptStream T index address else none
  | .stream t T S bytes =>
      if (T, S) ∈ s.streams then (s.carry t T bytes).inspect t S bytes else none
  | .datagram .bytesRead T bytes => if T ∈ s.tunnels then some (s.readDatagram T bytes) else none
  | .datagram .bytesWrite T bytes => if T ∈ s.tunnels then some (s.sendDatagram T bytes) else none
  | .fetchAdd t i => (s.counters.step (.fetchAdd t i)).map fun counters =>
      { s with counters := counters }

def system (w : ℕ) : System (Endpoint w) Label := ⟨new w, step⟩

variable {s s' : Endpoint w} {t : Total} {T : TunnelInner} {ls : List Label} {l : Label}

/-! ## The counters of a run -/

/-- What a label is to the counters. -/
def Label.counter (w : ℕ) : Label → Option (ByteCounters.Label w)
  | .newTunnel _ _ address => some (.new address (some byteCounter))
  | .createStream T _ address | .acceptStream T _ address =>
      some (.new address (some T.byteCounter))
  | .stream t _ S bytes => some (.addBytes t S.byteCounter (.ofNat w bytes.length))
  | .datagram _ _ _ => none
  | .fetchAdd t i => some (.fetchAdd t i)

/-- What a step does. -/
inductive Step (s : Endpoint w) : Label → Endpoint w → Prop
  | newTunnel {id : Uuid} {serverId : ServerId} {address : ℕ} {counters : ByteCounters w}
      (hc : s.counters.step (.new address (some byteCounter)) = some counters) :
      Step s (.newTunnel id serverId address) { s with
        counters := counters
        tunnels := insert (.new id serverId address (some byteCounter)) s.tunnels }
  | createStream {T : TunnelInner} {index : UInt64} {address : ℕ} {counters : ByteCounters w}
      (hT : T ∈ s.tunnels)
      (hc : s.counters.step (.new address (some T.byteCounter)) = some counters) :
      Step s (.createStream T index address) { s with
        counters := counters
        streams := insert (T, .new index address T.byteCounter) s.streams }
  | acceptStream {T : TunnelInner} {index : UInt64} {address : ℕ} {counters : ByteCounters w}
      (hT : T ∈ s.tunnels)
      (hc : s.counters.step (.new address (some T.byteCounter)) = some counters) :
      Step s (.acceptStream T index address) { s with
        counters := counters
        streams := insert (T, .new index address T.byteCounter) s.streams }
  | stream {t : Total} {T : TunnelInner} {S : TunnelStreamInner} {bytes : Bytes}
      {counters : ByteCounters w} (hS : (T, S) ∈ s.streams)
      (hc : s.counters.step (.addBytes t S.byteCounter (.ofNat w bytes.length)) = some counters) :
      Step s (.stream t T S bytes) { s.carry t T bytes with counters := counters }
  | datagram {t : Total} {T : TunnelInner} {bytes : Bytes} (hT : T ∈ s.tunnels) :
      Step s (.datagram t T bytes) (s.carry t T bytes)
  | fetchAdd {t : Total} {i : ℕ} {counters : ByteCounters w}
      (hc : s.counters.step (.fetchAdd t i) = some counters) :
      Step s (.fetchAdd t i) { s with counters := counters }

theorem step_cases (hs : step s l = some s') : Step s l s' := by
  cases l with
  | newTunnel id serverId address =>
      obtain ⟨counters, hc, rfl⟩ := Option.map_eq_some_iff.mp hs
      exact .newTunnel hc
  | createStream T index address =>
      simp only [step, createStream, quinnStreamToFramed, Option.ite_none_right_eq_some,
        Option.map_eq_some_iff] at hs
      obtain ⟨hT, counters, hc, rfl⟩ := hs
      exact .createStream hT hc
  | acceptStream T index address =>
      simp only [step, acceptStream, quinnStreamToFramed, Option.ite_none_right_eq_some,
        Option.map_eq_some_iff] at hs
      obtain ⟨hT, counters, hc, rfl⟩ := hs
      exact .acceptStream hT hc
  | stream t T S bytes =>
      simp only [step, inspect, Option.ite_none_right_eq_some, Option.map_eq_some_iff] at hs
      obtain ⟨hS, counters, hc, rfl⟩ := hs
      exact .stream hS hc
  | datagram t T bytes =>
      cases t <;>
      · simp only [step, Option.ite_none_right_eq_some, Option.some.injEq] at hs
        obtain ⟨hT, rfl⟩ := hs
        exact .datagram hT
  | fetchAdd t i =>
      obtain ⟨counters, hc, rfl⟩ := Option.map_eq_some_iff.mp hs
      exact .fetchAdd hc

/-- **The counters go through a run of their own.** -/
theorem counters_run (h : (system w).Run ls s) :
    (ByteCounters.system w).Run (.new 0 none :: ls.filterMap (Label.counter w)) s.counters := by
  induction h with
  | nil => exact System.run_of_exec rfl
  | @snoc ls s s' l _ hs ih =>
      rw [List.filterMap_append, ← List.cons_append]
      cases step_cases hs with
      | newTunnel hc | createStream _ hc | acceptStream _ hc | stream _ hc | fetchAdd hc =>
          exact ih.snoc hc
      | @datagram t T bytes _ =>
          rw [show [Label.datagram t T bytes].filterMap (Label.counter w) = [] from rfl,
            List.append_nil]
          exact ih

/-- How the counters hang together. -/
structure Wired (s : Endpoint w) : Prop where
  created : ∀ T ∈ s.tunnels, T.byteCounter ∈ s.counters.created
  below : ∀ T ∈ s.tunnels, T.byteCounter.parent = some byteCounter
  apart : ∀ T ∈ s.tunnels, ∀ T' ∈ s.tunnels, T.byteCounter = T'.byteCounter → T = T'
  stream : ∀ p ∈ s.streams, p.1 ∈ s.tunnels ∧ p.2.byteCounter.parent = some p.1.byteCounter

lemma wired_new : (new w).Wired := by
  constructor <;> simp [new]

/-- A step of the counters leaves those that are there. -/
lemma created_subset {c c' : ByteCounters w} {m : ByteCounters.Label w} (hs : c.step m = some c') :
    c.created ⊆ c'.created := by
  cases ByteCounters.step_cases hs with
  | created => exact Finset.subset_insert ..
  | moved => exact Finset.Subset.refl _

/-- A step that makes no tunnel and no stream. -/
lemma Wired.counters {carried : Total → TunnelInner → List Bytes} {counters : ByteCounters w}
    (h : s.Wired) (hc : s.counters.created ⊆ counters.created) :
    Wired { s with counters := counters, carried := carried } :=
  ⟨fun T hT => hc (h.created T hT), h.below, h.apart, h.stream⟩

theorem Wired.step (h : s.Wired) (hs : Endpoint.step s l = some s') : s'.Wired := by
  cases step_cases hs with
  | @newTunnel id serverId address counters hc =>
      have hsub := created_subset hc
      simp only [ByteCounters.step, Option.ite_none_right_eq_some, Option.some.injEq] at hc
      obtain ⟨⟨hfresh, -⟩, rfl⟩ := hc
      have hne : ∀ T ∈ s.tunnels, T.byteCounter ≠ .new address (some byteCounter) := by
        intro T hT he
        exact hfresh _ (h.created T hT) (by rw [he]; rfl)
      refine ⟨fun T hT => ?_, fun T hT => ?_, fun T hT T' hT' he => ?_, fun p hp => ?_⟩
      · rcases Finset.mem_insert.mp hT with rfl | hT
        · exact Finset.mem_insert_self ..
        · exact hsub (h.created T hT)
      · rcases Finset.mem_insert.mp hT with rfl | hT
        · rfl
        · exact h.below T hT
      · rcases Finset.mem_insert.mp hT with rfl | hT <;>
          rcases Finset.mem_insert.mp hT' with rfl | hT'
        · rfl
        · exact absurd he.symm (hne T' hT')
        · exact absurd he (hne T hT)
        · exact h.apart T hT T' hT' he
      · exact ⟨Finset.mem_insert_of_mem (h.stream p hp).1, (h.stream p hp).2⟩
  | createStream hT hc | acceptStream hT hc =>
      refine ⟨fun T hT => created_subset hc (h.created T hT), h.below, h.apart, fun p hp => ?_⟩
      rcases Finset.mem_insert.mp hp with rfl | hp
      · exact ⟨hT, rfl⟩
      · exact h.stream p hp
  | stream _ hc | fetchAdd hc => exact h.counters (created_subset hc)
  | datagram hT => exact h.counters (Finset.Subset.refl _)

lemma wired_run (h : (system w).Run ls s) : s.Wired :=
  h.invariant wired_new fun _ _ _ hi hs => hi.step hs

/-- The streams that have been used are there. -/
lemma stream_mem_run (h : (system w).Run ls s) : ∀ t T S bytes, .stream t T S bytes ∈ ls →
    (T, S) ∈ s.streams := by
  induction h with
  | nil => simp
  | snoc _ hs ih =>
      intro t T S bytes hmem
      rw [List.mem_append, List.mem_singleton] at hmem
      cases step_cases hs with
      | stream hS =>
          rcases hmem with hmem | he
          · exact ih t T S bytes hmem
          · cases he
            exact hS
      | createStream | acceptStream =>
          exact Finset.mem_insert_of_mem (ih t T S bytes (by simpa using hmem))
      | _ => exact ih t T S bytes (by simpa using hmem)

/-! ## What the counters count -/

/-- The bytes that have gone through the streams of the tunnels `p`. -/
def streamed (t : Total) (p : TunnelInner → Prop) [DecidablePred p] (ls : List Label) : ℕ :=
  (ls.map fun
    | .stream t' T _ bytes => if t' = t ∧ p T then bytes.length else 0
    | _ => 0).sum

lemma streamed_cons (t : Total) (p : TunnelInner → Prop) [DecidablePred p] (l : Label)
    (ls : List Label) : streamed t p (l :: ls) = (match l with
      | .stream t' T _ bytes => if t' = t ∧ p T then bytes.length else 0
      | _ => 0) + streamed t p ls := rfl

/-- The bytes of the datagrams that have gone through `T`. -/
def datagramBytes (t : Total) (T : TunnelInner) (ls : List Label) : ℕ :=
  (ls.map fun
    | .datagram t' T' bytes => if t' = t ∧ T' = T then bytes.length else 0
    | _ => 0).sum

/-- All that the connection of `T` has carried. -/
def payload (s : Endpoint w) (t : Total) (T : TunnelInner) : ℕ :=
  ((s.carried t T).map List.length).sum

/-- **A connection carries streams and datagrams.** -/
theorem payload_run (h : (system w).Run ls s) (t : Total) (T : TunnelInner) :
    s.payload t T = streamed t (· = T) ls + datagramBytes t T ls := by
  have hcarry : ∀ (s : Endpoint w) t' T' bytes, (s.carry t' T' bytes).payload t T =
      s.payload t T + if t' = t ∧ T' = T then bytes.length else 0 := by
    intro s t' T' bytes
    simp only [payload, carry, eq_comm (a := t), eq_comm (a := T)]
    split_ifs <;> simp
  induction h with
  | nil => rfl
  | @snoc ls s s' l _ hs ih =>
      simp only [streamed, datagramBytes, List.map_append, List.sum_append, List.map_singleton,
        List.sum_singleton] at ih ⊢
      cases step_cases hs with
      | @stream t' T' _ bytes counters =>
          have hstep := hcarry s t' T' bytes
          simp only [payload] at hstep ih ⊢
          omega
      | @datagram t' T' bytes =>
          have hstep := hcarry s t' T' bytes
          simp only [payload] at hstep ih ⊢
          omega
      | _ => simpa [payload] using ih

lemma added_filterMap_cons (t : Total) (c : ByteCounter) (l : Label) (ls : List Label) :
    ByteCounters.added t c ((l :: ls).filterMap (Label.counter w)) = (match l with
      | .stream t' _ S bytes =>
          if t' = t ∧ S.byteCounter.DescendsFrom c then (BitVec.ofNat w bytes.length).toNat else 0
      | _ => 0) + ByteCounters.added t c (ls.filterMap (Label.counter w)) := by
  cases l with
  | datagram t' T bytes => exact (Nat.zero_add _).symm
  | newTunnel | createStream | acceptStream | stream | fetchAdd => exact ByteCounters.added_cons ..

/-- What is added at or below `c` is what has gone through the streams below it. -/
lemma added_counter (t : Total) {c : ByteCounter} {p : TunnelInner → Prop} [DecidablePred p] :
    ∀ ls : List Label,
      (∀ t' T S bytes, .stream t' T S bytes ∈ ls → (S.byteCounter.DescendsFrom c ↔ p T)) →
        BitVec.ofNat w (ByteCounters.added t c (ls.filterMap (Label.counter w))) =
          BitVec.ofNat w (streamed t p ls) := by
  intro ls
  induction ls with
  | nil => exact fun _ => rfl
  | cons l ls ih =>
      intro hls
      have hrest := ih fun t' T S bytes hmem => hls t' T S bytes (List.mem_cons_of_mem _ hmem)
      rw [added_filterMap_cons, streamed_cons, BitVec.ofNat_add, BitVec.ofNat_add, hrest]
      refine congrArg (· + _) ?_
      cases l with
      | stream t' T S bytes =>
          simp only [hls t' T S bytes List.mem_cons_self]
          split_ifs
          · rw [BitVec.ofNat_toNat, BitVec.setWidth_eq]
          · rfl
      | _ => rfl

/-- A stream's counter is below that of its own tunnel, and of no other. -/
lemma Wired.descends_iff (h : s.Wired) {T' : TunnelInner} {S : TunnelStreamInner}
    (hS : (T', S) ∈ s.streams) (hT : T ∈ s.tunnels) :
    S.byteCounter.DescendsFrom T.byteCounter ↔ T' = T := by
  obtain ⟨hT', hparent⟩ := h.stream _ hS
  constructor
  · intro hd
    rcases Relation.ReflTransGen.cases_head hd with he | ⟨d, hd, hrest⟩
    · -- the counter of a tunnel is not below that of a tunnel
      rw [he, h.below T hT] at hparent
      have hroot := h.below T' hT'
      rw [← Option.some.inj hparent] at hroot
      cases hroot
    · obtain rfl := Option.some.inj (hparent.symm.trans hd)
      rcases Relation.ReflTransGen.cases_head hrest with he | ⟨d, hd, hrest⟩
      · exact h.apart T' hT' T hT he
      · obtain rfl := Option.some.inj ((h.below T' hT').symm.trans hd)
        rcases Relation.ReflTransGen.cases_head hrest with he | ⟨d, hd, -⟩
        · have hroot := h.below T hT
          rw [← he] at hroot
          cases hroot
        · cases hd
  · rintro rfl
    exact .single hparent

lemma Wired.descends_root (h : s.Wired) {S : TunnelStreamInner} (hS : (T, S) ∈ s.streams) :
    S.byteCounter.DescendsFrom byteCounter := by
  obtain ⟨hT, hparent⟩ := h.stream _ hS
  exact .head hparent (.single (h.below T hT))

/-- **Once the calls have ended the counter of a tunnel holds what its streams have carried.** -/
theorem counted_run (h : (system w).Run ls s) (hq : s.counters.Quiet t) (hT : T ∈ s.tunnels) :
    s.counters.bytes t T.byteCounter = BitVec.ofNat w (streamed t (· = T) ls) := by
  rw [ByteCounters.bytes_of_quiet (counters_run h) hq, ByteCounters.added_cons, Nat.zero_add]
  refine added_counter t ls fun t' T' S bytes hmem => ?_
  exact (wired_run h).descends_iff (stream_mem_run h t' T' S bytes hmem) hT

/-- The streams of all tunnels together. -/
lemma sum_streamed {tunnels : Finset TunnelInner} : ∀ ls : List Label,
    (∀ t' T S bytes, .stream t' T S bytes ∈ ls → T ∈ tunnels) →
      ∑ T ∈ tunnels, streamed t (· = T) ls = streamed t (fun _ => True) ls := by
  intro ls
  induction ls with
  | nil => simp [streamed]
  | cons l ls ih =>
      intro hls
      have hrest := ih fun t' T S bytes hmem => hls t' T S bytes (List.mem_cons_of_mem _ hmem)
      simp only [streamed_cons, Finset.sum_add_distrib, hrest]
      refine congrArg (· + _) ?_
      cases l with
      | stream t' T S bytes =>
          have hT := hls t' T S bytes List.mem_cons_self
          by_cases ht : t' = t
          · simp only [ht, true_and, if_true]
            exact (Finset.sum_ite_eq ..).trans (if_pos hT)
          · simp [ht]
      | _ => simp

/-- And the counter of the server, or the client, what the streams of all tunnels have. -/
theorem owner_run (h : (system w).Run ls s) (hq : s.counters.Quiet t) :
    s.counters.bytes t byteCounter = ∑ T ∈ s.tunnels, s.counters.bytes t T.byteCounter := by
  have hw := wired_run h
  have hroot : s.counters.bytes t byteCounter =
      BitVec.ofNat w (streamed t (fun _ => True) ls) := by
    rw [ByteCounters.bytes_of_quiet (counters_run h) hq, ByteCounters.added_cons, Nat.zero_add]
    refine added_counter t ls fun t' T S bytes hmem => iff_true_intro ?_
    exact hw.descends_root (stream_mem_run h t' T S bytes hmem)
  have htunnels : ∀ t' T S bytes, .stream t' T S bytes ∈ ls → T ∈ s.tunnels :=
    fun t' T S bytes hmem => (hw.stream _ (stream_mem_run h t' T S bytes hmem)).1
  rw [hroot, ← sum_streamed ls htunnels]
  show ByteCounters.ofNatHom w _ = _
  rw [map_sum]
  exact Finset.sum_congr rfl fun T hT => (counted_run h hq hT).symm

/-- What is asked once all operations have completed: a tunnel's counters say how much its
connection has carried, and those of the server, or the client, are the sums over the tunnels. -/
structure Complete (s : Endpoint w) : Prop where
  tunnels : ∀ T ∈ s.tunnels, ∀ t, s.counters.bytes t T.byteCounter = BitVec.ofNat w (s.payload t T)
  owner : ∀ t, s.counters.bytes t byteCounter = ∑ T ∈ s.tunnels, s.counters.bytes t T.byteCounter

end Endpoint

/-- **The accounts of a tunnel are complete exactly when its datagrams carry nothing.**  In every
run of a server or a client, with any tunnels and streams, once all operations have completed: the
counters of all tunnels are right, and so are those above them, if and only if the datagrams that
each tunnel has read, and those it has sent, have no bytes altogether, modulo `2 ^ w`. -/
theorem accounting_complete_iff {w : ℕ} {ls : List Endpoint.Label} {s : Endpoint w}
    (h : (Endpoint.system w).Run ls s) (hq : ∀ t, s.counters.Quiet t) :
    s.Complete ↔ ∀ T ∈ s.tunnels, ∀ t, 2 ^ w ∣ Endpoint.datagramBytes t T ls := by
  have htunnel : ∀ T ∈ s.tunnels, ∀ t,
      (s.counters.bytes t T.byteCounter = BitVec.ofNat w (s.payload t T) ↔
        2 ^ w ∣ Endpoint.datagramBytes t T ls) := by
    intro T hT t
    rw [Endpoint.counted_run h (hq t) hT, Endpoint.payload_run h, BitVec.ofNat_add, left_eq_add,
      Nat.dvd_iff_mod_eq_zero, ← BitVec.toNat_inj, BitVec.toNat_ofNat]
    simp
  constructor
  · intro hc T hT t
    exact (htunnel T hT t).mp (hc.tunnels T hT t)
  · intro hd
    exact ⟨fun T hT t => (htunnel T hT t).mpr (hd T hT t), fun t => Endpoint.owner_run h (hq t)⟩

/-- The one tunnel of a server. -/
def onlyTunnel : TunnelInner :=
  .new ⟨#v[0, 1, 2, 3, 4, 5, 6, 7, 8, 9, 10, 11, 12, 13, 14, 15]⟩ ⟨"server", by decide, by decide⟩ 1
    (some Endpoint.byteCounter)

/-- The one stream of that tunnel. -/
def onlyStream : TunnelStreamInner := .new 0 2 onlyTunnel.byteCounter

/-- Eight bytes written to the stream and three read from it, all of them counted. -/
def throughStream : List Endpoint.Label :=
  [.newTunnel onlyTunnel.id onlyTunnel.serverId 1, .createStream onlyTunnel 0 2,
    .stream .bytesWrite onlyTunnel onlyStream [1, 2, 3, 4, 5, 6, 7, 8],
    .stream .bytesRead onlyTunnel onlyStream [1, 2, 3],
    .fetchAdd .bytesWrite 0, .fetchAdd .bytesRead 0, .fetchAdd .bytesRead 0,
    .fetchAdd .bytesWrite 0, .fetchAdd .bytesWrite 0, .fetchAdd .bytesRead 0]

theorem accounting_complete_stream : ∃ s, (Endpoint.system 64).Run throughStream s ∧
    s.counters.bytesWrite onlyTunnel.byteCounter = 8 ∧
    s.counters.bytesRead Endpoint.byteCounter = 3 ∧ s.Complete := by
  have h : (Endpoint.system 64).Run throughStream _ := System.run_of_exec rfl
  refine ⟨_, h, rfl, rfl, (accounting_complete_iff h fun t => ?_).mpr fun T _ t => ?_⟩
  · cases t <;> decide
  · exact Nat.dvd_zero _

/-- A datagram of three bytes is sent, and counted nowhere. -/
theorem datagram_not_counted : ∃ s, (Endpoint.system 64).Run
      [.newTunnel onlyTunnel.id onlyTunnel.serverId 1,
        .datagram .bytesWrite onlyTunnel [1, 2, 3]] s ∧
    (∀ t, s.counters.Quiet t) ∧ s.payload .bytesWrite onlyTunnel = 3 ∧
    s.counters.bytesWrite onlyTunnel.byteCounter = 0 ∧ ¬ s.Complete := by
  refine ⟨_, System.run_of_exec rfl, fun t => ?_, rfl, rfl, fun h => ?_⟩
  · cases t <;> decide
  · have hcount := h.tunnels onlyTunnel (by decide) .bytesWrite
    cases hcount

end Siffleux
