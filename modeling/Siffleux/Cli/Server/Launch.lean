import Siffleux.Cli.Server.Ingresses

/-!
# The server program comes up

The way of the main thread to its wait: its certificate, the socket for its clients, and one ingress
after the other.

* `WellFormed` — the ids differ, and the machine has what the configuration asks for.
* `server_comes_up` — the program comes up exactly with these, and then serves all ingresses.
-/

namespace Siffleux

open ByteBuf Framing Transition

/-- The certificate of a server can be had, and each of its sockets bound beside those before it. -/
structure Machine.Suits (machine : Machine) (tls : TlsConfig) (sockets : List Binding) : Prop where
  certified : machine.certifies tls = true
  bound : ∀ n < sockets.length, machine.canBind sockets n = true

lemma ServerConfig.length_bindings (config : ServerConfig) (configs : List IngressConfig) :
    (config.bindings configs).length = configs.length + 1 := by
  simp [bindings]

namespace LaunchServer

variable {w : ℕ} {machine : Machine} {config : ServerConfig} {configs : List IngressConfig}
  {s s' : LaunchServer w} {l : Label} {ls : List Label}

/-- The ids differ, and the machine has what the configuration asks for. -/
structure WellFormed (machine : Machine) (config : ServerConfig) (configs : List IngressConfig) :
    Prop where
  distinct : (configs.map IngressConfig.id).Nodup
  suits : machine.Suits config.tls (config.bindings configs)

/-- The certificate is loaded or made, and the sockets are bound. -/
def Succeeds (_ : LaunchServer w) : Label → Prop
  | .certificate ok => ok = true
  | .listen bound => bound = true
  | .start bound => bound = true
  | _ => True

/-- The steps of the main thread on its way up. -/
def launches (_ : LaunchServer w) : Label → Bool
  | .certificate _ | .listen _ | .start _ | .assign => true
  | _ => false

/-- The steps left until all ingresses are up. -/
def launchRank (n : ℕ) : LaunchServerPc → ℕ
  | .certificate => 2 * n + 2
  | .listening => 2 * n + 1
  | .starting k => 2 * (n - k)
  | .assigning k => 2 * (n - k - 1) + 1
  | _ => 0

/-- Every ingress has its id and its socket, and clients can connect. -/
def ServesAll (configs : List IngressConfig) (s : LaunchServer w) : Prop :=
  s.system.server.endpoint = some 0 ∧ ∀ k ingressConfig, configs[k]? = some ingressConfig →
    s.system.server.ingressById ingressConfig.id = some (ingressConfig.ingress k) ∧
      (s.system.ingress k).isUp = true

lemma launchRank_entry {k : ℕ} (hk : k ≤ configs.length) :
    launchRank configs.length (entry configs k) = 2 * (configs.length - k) := by
  rcases entry_cases hk with ⟨he, -⟩ | ⟨he, hn⟩
  · rw [he]
    rfl
  · rw [he]
    simp only [launchRank]
    omega

lemma entry_ne_panicked (k : ℕ) : entry configs k ≠ .panicked := by
  rw [entry]
  split_ifs <;> simp

lemma Sound.launch_step (h : Sound machine config configs s)
    (hw : WellFormed machine config configs) (hpc : s.pc ≠ .panicked) (hok : Succeeds s l)
    (hs : LaunchServer.step machine config configs s l = some s') : s'.pc ≠ .panicked ∧
      launchRank configs.length s'.pc + (launches s l).toNat ≤ launchRank configs.length s.pc := by
  cases step_cases hs with
  | certified hk => exact ⟨by simp, by simp [hk, launchRank, launches]⟩
  | uncertified | unbound | notStarted => cases hok
  | listened hk =>
      refine ⟨entry_ne_panicked 0, ?_⟩
      rw [launchRank_entry (Nat.zero_le _), hk]
      simp [launchRank, launches]
  | @started k g hk =>
      have := h.place k (Or.inl hk)
      refine ⟨by simp, ?_⟩
      simp only [hk, launchRank, launches, Bool.toNat_true]
      omega
  | @assigned k ingressConfig g hk =>
      have hlt := h.place k (Or.inr hk)
      refine ⟨entry_ne_panicked (k + 1), ?_⟩
      rw [launchRank_entry hlt, hk]
      simp only [launchRank, launches, Bool.toNat_true]
      omega
  | @assignPanics k ingressConfig hk hc hn =>
      obtain ⟨j, other, hj, ho, heq⟩ := h.only hpc _ hn
      rw [hk] at hj
      have hjk : j = k := by
        refine (List.getElem?_inj ?_ hw.distinct).mp ?_
        · rw [List.length_map]
          exact hj.trans (h.place k (Or.inr hk))
        · rw [List.getElem?_map, List.getElem?_map, ho, hc, Option.map_some, Option.map_some, heq]
      exact absurd hjk hj.ne
  | signalled hk => exact ⟨by simp, by simp [hk, launchRank, launches]⟩
  | taken hk => exact ⟨by simp, by simp [hk, launchRank, launches]⟩
  | notTaken hk he =>
      rw [h.endpoint hpc, hk] at he
      cases he
  | locked hk => exact ⟨by simp, by simp [hk, launchRank, launches]⟩
  | stopped hk => exact ⟨by simp, by simp [hk, launchRank, launches]⟩
  | drained hk => exact ⟨by simp, by simp [hk, launchRank, launches]⟩
  | closed hk => exact ⟨by simp, by simp [hk, launchRank, launches]⟩
  | returned hk => exact ⟨by simp, by simp [hk, launchRank, launches]⟩
  | task => exact ⟨hpc, Nat.le_refl _⟩

/-- No `stop` is at work before the signal. -/
lemma Sound.lock_free (h : Sound machine config configs s) (hpc : s.pc.stopPc = .notCalled)
    (hp : s.pc ≠ .panicked) :
    s.system.server.endpointLock = none ∧ s.system.server.registryLock = none := by
  have hidle := h.not_called hpc hp
  rw [Option.eq_none_iff_forall_ne_some, Option.eq_none_iff_forall_ne_some]
  refine ⟨fun c hc => ?_, fun c hc => ?_⟩
  · have := (h.stops.lock c).mpr hc
    rw [hidle c] at this
    cases this
  · have := (h.stops.registry c).mpr hc
    rw [hidle c] at this
    cases this

lemma isSome_goOn {pc : LaunchServerPc} {sys : Option (ServerSystem w)} :
    (goOn pc sys).isSome = sys.isSome := Option.isSome_map

/-- As long as not all ingresses are up, the thread can go on. -/
lemma Sound.launch_progress (h : Sound machine config configs s)
    (hm : machine.Suits config.tls (config.bindings configs)) (hpc : s.pc ≠ .panicked)
    (hn : s.pc.isUp = false) : ∃ l, launches s l = true ∧ Succeeds s l ∧
      (LaunchServer.step machine config configs s l).isSome = true := by
  cases hk : s.pc with
  | panicked => exact absurd hk hpc
  | waiting | stopping | locking | draining | closing | idling | returned =>
      simp [hk, LaunchServerPc.isUp] at hn
  | certificate =>
      exact ⟨.certificate true, rfl, rfl, by simp [LaunchServer.step, hk, attempt, hm.certified]⟩
  | listening =>
      obtain ⟨hlock, -⟩ := h.lock_free (by rw [hk]; rfl) hpc
      have he := h.endpoint hpc
      rw [hk] at he
      refine ⟨.listen true, rfl, rfl, ?_⟩
      simp [LaunchServer.step, hk, attempt, hm.bound 0 (by simp [config.length_bindings]),
        isSome_goOn, ServerSystem.step, ServerSystem.allows, Server.step, hlock, he,
        LaunchServerPc.endpoint]
  | starting k =>
      have hup := h.up hpc k
      rw [hk] at hup
      have hstart := BoxedIngress.start_enabled (hup.trans (by simp [LaunchServerPc.startedAt]))
      have hrun : s.system.mayRun k (s.system.ingress k).start = true := by
        rw [ServerSystem.mayRun]
        cases s.system.ingress k <;> rfl
      have hlt := h.place k (Or.inl hk)
      have hbound := hm.bound (k + 1) (by rw [config.length_bindings]; omega)
      refine ⟨.start true, rfl, rfl, ?_⟩
      simp [LaunchServer.step, hk, attempt, hbound, isSome_goOn, ServerSystem.step, hrun, hstart]
  | assigning k =>
      have hlt := h.place k (Or.inr hk)
      obtain ⟨-, hlock⟩ := h.lock_free (by rw [hk]; rfl) hpc
      refine ⟨.assign, rfl, trivial, ?_⟩
      simp only [LaunchServer.step, hk, List.getElem?_eq_getElem hlt]
      cases hid : s.system.server.ingressById configs[k].id with
      | some ingress => rfl
      | none =>
          rw [isSome_goOn]
          have hnew : s.system.server.ingressById (configs[k].ingress k).id = none := hid
          simp [ServerSystem.step, ServerSystem.allows, Server.step, hlock, hnew]

/-- A program that is up has had distinct ids, and what it asked for. -/
lemma Sound.wellFormed (h : Sound machine config configs s) (hup : s.pc.isUp = true) :
    WellFormed machine config configs := by
  have hdistinct := h.distinct
  have hcertificate := h.certificate
  have hsockets := h.sockets
  cases hk : s.pc with
  | certificate | listening | starting | assigning | panicked =>
      simp [hk, LaunchServerPc.isUp] at hup
  | waiting | stopping | locking | draining | closing | idling | returned =>
      rw [hk] at hdistinct hcertificate hsockets
      rw [checked, List.take_length] at hdistinct
      · exact ⟨hdistinct, hcertificate (by simp) (by simp), fun n hn =>
          hsockets n (by rwa [config.length_bindings] at hn)⟩
      all_goals simp

/-- With these the thread does not stop on its way up. -/
theorem Sound.ensures_up (h : Sound machine config configs s)
    (hw : WellFormed machine config configs) (hpc : s.pc ≠ .panicked) :
    (program w machine config configs).Ensures launches Succeeds
      (fun t => t.pc.isUp = true) (2 * configs.length + 2) s := by
  refine System.ensures_of_variant
    (fun t => Sound machine config configs t ∧ t.pc ≠ .panicked)
    (fun t => launchRank configs.length t.pc) ?_ ?_ ⟨h, hpc⟩ ?_
  · rintro t l t' ⟨ht, hpt⟩ hok hs
    obtain ⟨hpt', hle⟩ := ht.launch_step hw hpt hok hs
    exact ⟨⟨ht.step hs, hpt'⟩, hle⟩
  · rintro t ⟨ht, hpt⟩ hn
    exact ht.launch_progress hw.suits hpt (by simpa using hn)
  · cases s.pc <;> simp [launchRank] <;> omega

/-- While it waits for its signal nothing of the configuration is missing. -/
lemma Sound.servesAll (h : Sound machine config configs s) (hpc : s.pc = .waiting) :
    ServesAll configs s := by
  have hp : s.pc ≠ .panicked := by simp [hpc]
  refine ⟨?_, fun k ingressConfig hc => ?_⟩
  · rw [h.endpoint hp, hpc]
    rfl
  · have hlt : k < configs.length := (List.getElem?_eq_some_iff.mp hc).1
    refine ⟨h.registered hp k ingressConfig (by rw [hpc]; exact hlt) hc, ?_⟩
    rw [h.up hp, hpc]
    simpa [LaunchServerPc.startedAt] using hlt

/-- While it waits, the configuration is all that is registered. -/
lemma Sound.ingressById_iff (h : Sound machine config configs s) (hpc : s.pc = .waiting)
    {id : IngressId} {ingress : Ingress} : s.system.server.ingressById id = some ingress ↔
      ∃ (k : ℕ) (c : IngressConfig), configs[k]? = some c ∧ c.id = id ∧ ingress = c.ingress k := by
  have hp : s.pc ≠ .panicked := by simp [hpc]
  constructor
  · intro hi
    obtain ⟨k, ingressConfig, -, hc, rfl⟩ := h.only hp id (by simp [hi])
    rw [((h.servesAll hpc).2 k ingressConfig hc).1] at hi
    exact ⟨k, ingressConfig, hc, rfl, (Option.some.inj hi).symm⟩
  · rintro ⟨k, ingressConfig, hc, rfl, rfl⟩
    exact ((h.servesAll hpc).2 k ingressConfig hc).1

/-- **The program comes up exactly with distinct ids, its certificate and its sockets**, in a build
whose panics unwind: then the main thread never panics, as long as what can be had and bound is, and
comes to wait for its signal within two steps of its own for each ingress and two more, whatever the
clients do meanwhile.  While it waits, every ingress of the configuration is registered and has its
socket. -/
theorem server_comes_up (h : (program w machine config configs).Run ls s) :
    (s.pc.isUp = true → WellFormed machine config configs) ∧
    (WellFormed machine config configs → s.pc ≠ .panicked →
      (program w machine config configs).Ensures launches Succeeds (fun t => t.pc.isUp = true)
        (2 * configs.length + 2) s) ∧
    (s.pc = .waiting → ServesAll configs s) :=
  ⟨(sound_run h).wellFormed, (sound_run h).ensures_up, (sound_run h).servesAll⟩

/-! ## A server with two ingresses -/

def oneServer : ServerConfig :=
  ⟨⟨"e", by decide, by decide⟩, .new defaultServerIp defaultServerPort,
    ⟨defaultServerTlsCertificateFile, defaultServerTlsPrivateKeyFile,
      defaultServerTlsSubjectAltName⟩⟩

/-- Ingresses `f` and `g`. -/
def twoIngresses : List IngressConfig :=
  [.tcp ⟨.new defaultIngressIp 3000, ⟨"f", by decide, by decide⟩, ⟨"f", by decide, by decide⟩⟩,
    .udp ⟨.new defaultIngressIp 3000, ⟨"g", by decide, by decide⟩, ⟨"g", by decide, by decide⟩⟩]

/-- A machine on which nobody else has a socket: TCP has its ports for itself, and the sockets of
the UDP ingresses are bound with `SO_REUSEPORT`, which the server's own is not. -/
def freeMachine : Machine where
  certifies _ := true
  binds before socket := match socket with
    | .endpoint addr => !before.contains (.udpIngress addr)
    | .tcpIngress addr => !before.contains (.tcpIngress addr)
    | .udpIngress addr => !before.contains (.endpoint addr)

/-- The first ingress is up, and the second is going to be. -/
theorem server_comes_up_two : ∃ s, (program 64 freeMachine oneServer twoIngresses).Run
      [.certificate true, .listen true, .start true, .assign] s ∧ s.pc = .starting 1 ∧
    (program 64 freeMachine oneServer twoIngresses).Ensures launches Succeeds
      (fun t => t.pc.isUp = true) 6 s := by
  have hpc : (((program 64 freeMachine oneServer twoIngresses).exec (new 64 twoIngresses)
      [.certificate true, .listen true, .start true, .assign]).map fun s => s.pc) =
      some (.starting 1) := by decide +kernel
  obtain ⟨s, hs, hpc⟩ := Option.map_eq_some_iff.mp hpc
  exact ⟨s, System.run_of_exec hs, hpc, (server_comes_up (System.run_of_exec hs)).2.1
    ⟨by decide, rfl, by decide⟩ (by simp [hpc])⟩

end LaunchServer

end Siffleux
