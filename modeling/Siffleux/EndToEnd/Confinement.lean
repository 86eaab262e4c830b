import Siffleux.EndToEnd.UdpPath
import Siffleux.Server.AccessControl
import Siffleux.Server.Assignment

/-!
# Whose traffic an ingress carries

A server has several ingresses, each with a key of its own, and any number of clients.  What the
origins of an ingress send is only ever handed to tunnels whose client has shown the key of that
ingress, and whatever the ingress sends to an origin has come from such a tunnel.

* `UdpIngress.PassesOn` — what a UDP ingress passes on, and the tunnels it does it for.
* `traffic_confined` — in every run, with all connections, ingresses and origins interleaved.
-/

namespace Siffleux

open ByteBuf Framing Transition

namespace UdpIngress

variable {τ : Type} [DecidableEq τ] {w : ℕ} {s s' : UdpIngress τ w} {l : Label τ}

/-- A call of `assign_tunnel` is not undone. -/
lemma called_mono (hs : s.step l = some s') {t : τ} (h : s.assign t ≠ .notCalled) :
    s'.assign t ≠ .notCalled := by
  have hset : ∀ {u : τ} {pc : UdpAssignPc}, pc ≠ .notCalled →
      Function.update s.assign u pc t ≠ .notCalled := by
    intro u pc hpc
    rcases eq_or_ne t u with rfl | hne
    · rw [Function.update_self]
      exact hpc
    · rw [Function.update_of_ne hne]
      exact h
  cases step_cases hs with
  | assigned | rejected | readerSpawned => exact hset (by simp)
  | _ => exact h

/-- What the ingress has passed on, in either direction; `received` is what it has received from
origins and `arrived` what has arrived on its tunnels. -/
structure PassesOn (received : SocketAddr → Bytes → Prop) (arrived : τ → Bytes → Prop)
    (s : UdpIngress τ w) : Prop where
  toTunnels : ∀ t d, (t, d) ∈ s.sentToTunnels → s.assign t ≠ .notCalled ∧
    ∃ addr bytes, received addr bytes ∧ d = originHeader addr ++ bytes.take bufferSize
  held : ∀ t, ∀ bytes ∈ (s.connection t).datagrams, arrived t bytes
  readers : ∀ t i, s.reader t = .running i → s.assign t ≠ .notCalled
  toOrigins : ∀ e ∈ s.sentToOrigins, ∃ t bytes, s.assign t ≠ .notCalled ∧ arrived t bytes ∧
    forwardToOrigin bytes = .ret (some e.2)

variable {received received' : SocketAddr → Bytes → Prop} {arrived arrived' : τ → Bytes → Prop}

omit [DecidableEq τ] in
lemma passesOn_new : (new τ w).PassesOn received arrived where
  toTunnels _ _ h := by cases h
  held _ _ h := by cases h
  readers _ _ h := by cases h
  toOrigins _ h := by cases h

omit [DecidableEq τ] in
lemma PassesOn.mono (h : s.PassesOn received arrived) (hr : ∀ a b, received a b → received' a b)
    (ha : ∀ t b, arrived t b → arrived' t b) : s.PassesOn received' arrived' where
  toTunnels t d hd := by
    obtain ⟨ht, addr, bytes, hb, hd⟩ := h.toTunnels t d hd
    exact ⟨ht, addr, bytes, hr addr bytes hb, hd⟩
  held t bytes hb := ha t bytes (h.held t bytes hb)
  readers := h.readers
  toOrigins e he := by
    obtain ⟨t, bytes, ht, hb, hf⟩ := h.toOrigins e he
    exact ⟨t, bytes, ht, ha t bytes hb, hf⟩

/-- A connection whose datagrams are some of those it had. -/
lemma PassesOn.held_update (h : s.PassesOn received arrived) {t : τ} {c : TunnelConnection}
    (hc : ∀ bytes ∈ c.datagrams, arrived t bytes) (u : τ) :
    ∀ bytes ∈ (Function.update s.connection t c u).datagrams, arrived u bytes := by
  rcases eq_or_ne u t with rfl | hne
  · rw [Function.update_self]
    exact hc
  · rw [Function.update_of_ne hne]
    exact h.held u

lemma PassesOn.readers_update (h : s.PassesOn received arrived) {t : τ} {pc : ReaderPc}
    (hpc : ∀ i, pc ≠ .running i) (u : τ) (i : ℕ)
    (hu : Function.update s.reader t pc u = .running i) : s.assign u ≠ .notCalled := by
  rcases eq_or_ne u t with rfl | hne
  · rw [Function.update_self] at hu
    exact absurd hu (hpc i)
  · rw [Function.update_of_ne hne] at hu
    exact h.readers u i hu

/-- **A step passes on what was received, for a tunnel in the list, and what has arrived, for a
tunnel with a reader.** -/
theorem PassesOn.step (h : s.PassesOn received arrived)
    (hlisted : ∀ t ∈ s.list.tunnels, s.assign t ≠ .notCalled)
    (hreceived : ∀ i addr bytes, l = .recvFrom i addr bytes → received addr bytes)
    (harrived : ∀ t bytes, l = .arrive t bytes → arrived t bytes)
    (hs : s.step l = some s') : s'.PassesOn received arrived := by
  have hcalled : ∀ {t}, s.assign t ≠ .notCalled → s'.assign t ≠ .notCalled := called_mono hs
  have hto := fun t d hd => (h.toTunnels t d hd).imp_left hcalled
  have hfrom : ∀ e ∈ s.sentToOrigins, ∃ t bytes, s'.assign t ≠ .notCalled ∧ arrived t bytes ∧
      forwardToOrigin bytes = .ret (some e.2) := by
    intro e he
    obtain ⟨t, bytes, ht, hb, hf⟩ := h.toOrigins e he
    exact ⟨t, bytes, hcalled ht, hb, hf⟩
  have hreaders := fun t i hi => hcalled (h.readers t i hi)
  cases step_cases hs with
  | assigned | rejected | list | started | loopSpawned | stopped | loopPanics | receiveFails
  | loopCancelled => exact ⟨hto, h.held, hreaders, hfrom⟩
  | readerStays => exact h
  | @readerSpawned t i ht =>
      refine ⟨hto, h.held, fun u j hu => ?_, hfrom⟩
      rcases eq_or_ne u t with rfl | hne
      · exact hcalled (by simp [ht])
      · have hu' : Function.update s.reader t (.running i) u = .running j := hu
        rw [Function.update_of_ne hne] at hu'
        exact hreaders u j hu'
  | @arrived t bytes =>
      refine ⟨hto, h.held_update fun b hb => ?_, hreaders, hfrom⟩
      rw [TunnelConnection.receive, List.mem_append, List.mem_singleton] at hb
      rcases hb with hb | rfl
      · exact h.held t b hb
      · exact harrived t b rfl
  | @closed t e => exact ⟨hto, h.held_update (h.held t), hreaders, hfrom⟩
  | @forwarded t i bytes c sent hi hr hf =>
      have hdata := TunnelConnection.datagrams_of_readDatagram hr
      have hheld := h.held t
      rw [hdata] at hheld
      refine ⟨hto, h.held_update fun b hb => hheld b (List.mem_cons_of_mem _ hb), hreaders,
        fun e he => ?_⟩
      rw [List.mem_append, List.mem_map] at he
      rcases he with he | ⟨a, ha, rfl⟩
      · exact hfrom e he
      · refine ⟨t, bytes, hreaders t i hi, hheld bytes List.mem_cons_self, ?_⟩
        rw [hf, Option.mem_toList.mp ha]
  | @readerPanics t i bytes c hi hr hf =>
      have hdata := TunnelConnection.datagrams_of_readDatagram hr
      have hheld := h.held t
      rw [hdata] at hheld
      exact ⟨hto, h.held_update fun b hb => hheld b (List.mem_cons_of_mem _ hb),
        h.readers_update (by simp), hfrom⟩
  | readerLeaves => exact ⟨hto, h.held, h.readers_update (by simp), hfrom⟩
  | @readerCancelled t => exact ⟨hto, h.held_update (h.held t), h.readers_update (by simp), hfrom⟩
  | @received i addr bytes r sent hi hh =>
      obtain ⟨hnone, hsome⟩ := recvFrom_sends hs
      refine ⟨fun t d hd => ?_, h.held, hreaders, hfrom⟩
      by_cases hnil : s.list.tunnels = []
      · rw [hnone hnil] at hd
        exact hto t d hd
      · obtain ⟨u, hu, hsent⟩ := hsome hnil
        rw [hsent, List.mem_append, List.mem_singleton] at hd
        rcases hd with hd | hd
        · exact hto t d hd
        · obtain ⟨rfl, rfl⟩ := Prod.mk.inj hd
          exact ⟨hlisted t hu, addr, bytes, hreceived i addr bytes rfl, rfl⟩

end UdpIngress

/-! ## Over all ingresses of a server -/

namespace ServerSystem

variable {w : ℕ} {serverId : ServerId} {kind : ℕ → IngressKind} {s s' : ServerSystem w} {l : Label}
  {ls : List Label}

/-- An origin has sent `bytes` to the ingress. -/
def Received (ls : List Label) (name : ℕ) (addr : SocketAddr) (bytes : Bytes) : Prop :=
  ∃ i, .ingress name (.udp (.recvFrom i addr bytes)) ∈ ls

/-- `bytes` have arrived on tunnel `k` of the ingress. -/
def Arrived (ls : List Label) (name k : ℕ) (bytes : Bytes) : Prop :=
  .ingress name (.udp (.arrive k bytes)) ∈ ls

def PassesOn (ls : List Label) (name : ℕ) : BoxedIngress w → Prop
  | .tcp _ => True
  | .udp g => g.PassesOn (Received ls name) (Arrived ls name)

/-- **Every ingress passes on what it is handed.** -/
lemma passesOn_run (h : (system w serverId kind).Run ls s) (name : ℕ) :
    PassesOn ls name (s.ingress name) := by
  induction h with
  | nil =>
      show PassesOn [] name (BoxedIngress.new w (kind name))
      cases kind name with
      | tcp => trivial
      | udp => exact UdpIngress.passesOn_new
  | @snoc ls s s' l hr hs ih =>
      have hmono : PassesOn (ls ++ [l]) name (s.ingress name) := by
        cases hg : s.ingress name with
        | tcp g => trivial
        | udp g =>
            rw [hg] at ih
            exact ih.mono (fun a b ⟨i, hi⟩ => ⟨i, List.mem_append_left _ hi⟩)
              fun t b hb => List.mem_append_left _ hb
      cases step_cases hs with
      | server | assigned => exact hmono
      | @ingress n bl g hm hg =>
          rw [setIngress_ingress]
          rcases eq_or_ne name n with rfl | hne
          · rw [Function.update_self]
            have hreach := (assignSound_run hr).reachable name
            cases hk : s.ingress name with
            | tcp t =>
                rw [hk] at hg
                cases bl with
                | tcp bl =>
                    simp only [BoxedIngress.step, Option.map_eq_some_iff] at hg
                    obtain ⟨t', -, rfl⟩ := hg
                    trivial
                | udp bl => cases hg
            | udp u =>
                rw [hk] at hg hmono hreach
                cases bl with
                | tcp bl => cases hg
                | udp bl =>
                    simp only [BoxedIngress.step, Option.map_eq_some_iff] at hg
                    obtain ⟨u', hu, rfl⟩ := hg
                    refine UdpIngress.PassesOn.step hmono (fun t ht => ?_) ?_ ?_ hu
                    · exact hreach.hasBegun_of_listed ht
                    · rintro i addr bytes rfl
                      exact ⟨i, List.mem_append_right _ (List.mem_singleton_self _)⟩
                    · rintro t bytes rfl
                      exact List.mem_append_right _ (List.mem_singleton_self _)
          · rw [Function.update_of_ne hne]
            exact hmono

/-- The client of tunnel `k` has named an ingress with this `name` by the id it was found under,
and has shown its key. -/
def MayCarry (serverId : ServerId) (ls : List Server.Label) (s : ServerSystem w)
    (name k : ℕ) : Prop :=
  ∃ ingress, ingress.name = name ∧
    (s.server.connection k).Admitted (Server.LookedUp serverId ls k) ingress

/-- Who gets, and who gives, the traffic of the ingress `name`. -/
structure Confined (serverId : ServerId) (ls : List Label) (sls : List Server.Label)
    (s : ServerSystem w) (name : ℕ) : Prop where
  /-- A connection or a datagram goes to a tunnel whose client has the key. -/
  picked : ∀ k list, (s.ingress name).list.getTunnelToConnect = .ret (some k, list) →
    MayCarry serverId sls s name k
  /-- What tunnels were sent are datagrams of this ingress's own origins. -/
  toTunnels : ∀ g, s.ingress name = .udp g → ∀ k d, (k, d) ∈ g.sentToTunnels →
    MayCarry serverId sls s name k ∧ ∃ addr bytes, Received ls name addr bytes ∧
      d = originHeader addr ++ bytes.take UdpIngress.bufferSize
  /-- What origins were sent has come over such a tunnel. -/
  toOrigins : ∀ g, s.ingress name = .udp g → ∀ e ∈ g.sentToOrigins, ∃ k bytes,
    MayCarry serverId sls s name k ∧ Arrived ls name k bytes ∧
      UdpIngress.forwardToOrigin bytes = .ret (some e.2)

/-- **The traffic of an ingress is between its origins and the clients that have its key.**  In
every run of the server with its ingresses, whatever other ingresses and clients there are. -/
theorem traffic_confined (h : (system w serverId kind).Run ls s) :
    ∃ sls, (Server.system serverId).Run sls s.server ∧
      ∀ name, Confined serverId ls sls s name := by
  obtain ⟨sls, hserver⟩ := server_run h
  have hsound := assignSound_run h
  have hbegun : ∀ name k, (s.ingress name).HasBegun k → MayCarry serverId sls s name k := by
    intro name k hk
    obtain ⟨ingress, hmem, hname⟩ := hsound.begun name k hk
    exact ⟨ingress, hname, (Server.sound_run hserver k).assigned ingress hmem⟩
  refine ⟨sls, hserver, fun name => ⟨fun k list hg => ?_, fun g hg k d hd => ?_,
    fun g hg e he => ?_⟩⟩
  · obtain ⟨picked, r, hpick, hmem⟩ := (s.ingress name).list.getTunnelToConnect_mem
    rw [hpick] at hg
    obtain ⟨rfl, -⟩ := Prod.mk.inj (Outcome.ret.inj hg)
    exact hbegun name k ((hsound.reachable name).hasBegun_of_listed (hmem.1 k rfl))
  · have hpass := passesOn_run h name
    rw [hg] at hpass
    obtain ⟨hk, hd⟩ := hpass.toTunnels k d hd
    refine ⟨hbegun name k ?_, hd⟩
    rw [hg]
    exact hk
  · have hpass := passesOn_run h name
    rw [hg] at hpass
    obtain ⟨k, bytes, hk, hb, hf⟩ := hpass.toOrigins e he
    refine ⟨k, bytes, hbegun name k ?_, hb, hf⟩
    rw [hg]
    exact hk

def originA : SocketAddr := .v4 ⟨Vector.replicate 4 10⟩ 5000

/-- Two UDP ingresses, a client of the first, and the same origin sending to both. -/
def twoIngressesRun : List Label :=
  listeningRun ++ [.ingress 1 (.udp .start), .ingress 0 (.udp (.spawnLoop 0)),
    .ingress 1 (.udp (.spawnLoop 0)), .ingress 0 (.udp (.recvFrom 0 originA [1])),
    .ingress 1 (.udp (.recvFrom 0 originA [2]))]

theorem traffic_confined_two : ∃ s g,
    (system 64 Server.serverS fun _ => .udp).Run twoIngressesRun s ∧ s.ingress 0 = .udp g ∧
    g.sentToTunnels = [(0, originHeader originA ++ [1])] ∧
    ∃ sls, MayCarry Server.serverS sls s 0 0 := by
  have h : (system 64 Server.serverS fun _ => .udp).Run twoIngressesRun _ :=
    System.run_of_exec rfl
  obtain ⟨sls, -, hconfined⟩ := traffic_confined h
  exact ⟨_, _, h, rfl, rfl, sls,
    ((hconfined 0).toTunnels _ rfl 0 _ (List.mem_singleton_self _)).1⟩

end ServerSystem

end Siffleux
