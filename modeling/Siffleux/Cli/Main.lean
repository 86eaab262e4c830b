import Siffleux.Cli.Client.Shutdown
import Siffleux.Cli.Server.Shutdown
import Siffleux.Cli.TomlConfig
import Siffleux.EndToEnd.Handshake

/-!
# The command line

`siffleux-cli/src/cli.rs` and `main.rs`: what the two programs are launched with, from a file or
from the arguments.  Reading the arguments is `clap`'s, and reading a file `toml`'s: a file is what
it is read as, or nothing if it cannot be.

* `ClientCommand.main_eq`, `ServerCommand.main_eq` — the arguments are one more way to write a file.
* `client_comes_up_iff`, `server_comes_up_iff` — which files and arguments the programs come up
  with.
* `accepted_iff_configured` — whom a server that was launched accepts.
-/

namespace Siffleux

open ByteBuf Transition

/-! ## The client's arguments -/

structure AuthenticationArgs where
  server : String
  certHash : String
  certSubjectAltName : String

def AuthenticationArgs.into (args : AuthenticationArgs) : AuthenticationConfig where
  server := args.server
  certHash := args.certHash
  certSubjectAltName := args.certSubjectAltName

structure EgressAgrs where
  id : Option EgressId
  ingressId : IngressId
  authKey : AuthKey

structure TcpEgressAgrs where
  authenticationArgs : AuthenticationArgs
  egressArgs : EgressAgrs
  target : String

structure UdpEgressAgrs where
  authenticationArgs : AuthenticationArgs
  egressArgs : EgressAgrs
  target : String

def TcpEgressAgrs.into (e : Entropy) (args : TcpEgressAgrs) : Draw EgressConfig := do
  let id ← e.orGenerate EgressId.validator 16 args.egressArgs.id
  pure (.tcp ⟨args.authenticationArgs.into, id, args.egressArgs.ingressId,
    args.egressArgs.authKey, args.target⟩)

def UdpEgressAgrs.into (e : Entropy) (args : UdpEgressAgrs) : Draw EgressConfig := do
  let id ← e.orGenerate EgressId.validator 16 args.egressArgs.id
  pure (.udp ⟨args.authenticationArgs.into, id, args.egressArgs.ingressId,
    args.egressArgs.authKey, args.target⟩)

inductive EgressCommand where
  | tcp (args : TcpEgressAgrs)
  | udp (args : UdpEgressAgrs)

def EgressCommand.into (e : Entropy) : EgressCommand → Draw EgressConfig
  | tcp args => args.into e
  | udp args => args.into e

structure ClientCommand where
  config : Option String
  egress : Option EgressCommand

/-- The egresses that `main` launches.  With neither a file nor a subcommand it launches nothing. -/
def ClientCommand.main (e : Entropy) (files : String → Option ClientToml)
    (command : ClientCommand) : Draw (Option (List EgressConfig)) :=
  match command.config, command.egress with
  | some path, _ =>
      match files path with
      | none => fun _ => .panic
      | some toml => do
          let configs ← toml.tryFrom e
          let configs ← Draw.unwrap configs
          pure (some configs)
  | none, some egress => do
      let config ← egress.into e
      pure (some [config])
  | none, none => pure none

/-! ## The server's arguments -/

structure TlsArgs where
  certPemPath : String
  keyPemPath : String
  certSubjectAltName : String

/-- The `TlsConfig` of the arguments. -/
def TlsArgs.into (args : TlsArgs) : TlsConfig where
  certPemPath := args.certPemPath
  keyPemPath := args.keyPemPath
  certSubjectAltName := args.certSubjectAltName

structure ServerArgs where
  id : Option ServerId
  ip : IpAddr
  port : UInt16
  tls : TlsArgs

def ServerArgs.into (e : Entropy) (args : ServerArgs) : Draw ServerConfig := do
  let id ← e.orGenerate ServerId.validator 16 args.id
  pure ⟨id, .new args.ip args.port, args.tls.into⟩

/-- `TcpIngressAgrs` and `UdpIngressAgrs` have the same fields. -/
structure IngressAgrs where
  ip : IpAddr
  port : UInt16
  id : Option IngressId
  authKey : Option AuthKey

abbrev TcpIngressAgrs := IngressAgrs
abbrev UdpIngressAgrs := IngressAgrs

/-- The key is drawn before the id. -/
def TcpIngressAgrs.into (e : Entropy) (args : TcpIngressAgrs) : Draw IngressConfig := do
  let authKey ← e.orGenerate AuthKey.validator 32 args.authKey
  let id ← e.orGenerate IngressId.validator 16 args.id
  pure (.tcp ⟨.new args.ip args.port, id, authKey⟩)

def UdpIngressAgrs.into (e : Entropy) (args : UdpIngressAgrs) : Draw IngressConfig := do
  let authKey ← e.orGenerate AuthKey.validator 32 args.authKey
  let id ← e.orGenerate IngressId.validator 16 args.id
  pure (.udp ⟨.new args.ip args.port, id, authKey⟩)

inductive IngressCommand where
  | tcp (args : TcpIngressAgrs)
  | udp (args : UdpIngressAgrs)

def IngressCommand.into (e : Entropy) : IngressCommand → Draw IngressConfig
  | tcp args => TcpIngressAgrs.into e args
  | udp args => UdpIngressAgrs.into e args

structure ServerCommand where
  config : Option String
  serverArgs : ServerArgs
  ingress : Option IngressCommand

/-- The server and the ingresses that `main` launches.  With a file, the arguments are not read. -/
def ServerCommand.main (e : Entropy) (files : String → Option ServerToml)
    (command : ServerCommand) : Draw (Option (ServerConfig × List IngressConfig)) :=
  match command.config, command.ingress with
  | some path, _ =>
      match files path with
      | none => fun _ => .panic
      | some toml => do
          let launched ← toml.into e
          pure (some launched)
  | none, some ingress => do
      let config ← command.serverArgs.into e
      let ingressConfig ← ingress.into e
      pure (some (config, [ingressConfig]))
  | none, none => pure none

/-! ## The arguments as a file -/

section

variable {e : Entropy} {n : ℕ}

def AuthenticationArgs.toml (args : AuthenticationArgs) : AuthenticationToml :=
  ⟨args.server, args.certHash, some args.certSubjectAltName⟩

def TcpEgressAgrs.toml (args : TcpEgressAgrs) : TcpEgressToml :=
  ⟨some args.authenticationArgs.toml, args.egressArgs.id, args.egressArgs.ingressId,
    args.egressArgs.authKey, args.target⟩

def UdpEgressAgrs.toml (args : UdpEgressAgrs) : UdpEgressToml :=
  ⟨some args.authenticationArgs.toml, args.egressArgs.id, args.egressArgs.ingressId,
    args.egressArgs.authKey, args.target⟩

/-- The file with the one egress of the arguments. -/
def EgressCommand.toml : EgressCommand → ClientToml
  | tcp args => ⟨none, [args.toml], []⟩
  | udp args => ⟨none, [], [args.toml]⟩

lemma EgressCommand.into_eq (command : EgressCommand) : ∃ config n', command.into e n =
    .ret (config, n') ∧ command.toml.error = none ∧ command.toml.egressConfigs e n = [config] := by
  cases command with
  | tcp args =>
      refine ⟨_, n + Entropy.drawn args.egressArgs.id, ?_, rfl, rfl⟩
      simp only [into, TcpEgressAgrs.into, Draw.bind_apply, Entropy.orGenerate_eq, Outcome.bind_ret]
      rfl
  | udp args =>
      refine ⟨_, n + Entropy.drawn args.egressArgs.id, ?_, rfl, rfl⟩
      simp only [into, UdpEgressAgrs.into, Draw.bind_apply, Entropy.orGenerate_eq, Outcome.bind_ret]
      rfl

/-- The file that a client is launched with, if it is launched. -/
def ClientCommand.toml (files : String → Option ClientToml) (command : ClientCommand) :
    Option ClientToml :=
  match command.config, command.egress with
  | some path, _ => files path
  | none, some egress => some egress.toml
  | none, none => none

/-- **The arguments are one more way to write a file.** -/
theorem ClientCommand.main_eq (files : String → Option ClientToml) (command : ClientCommand)
    (configs : List EgressConfig) : (∃ n', command.main e files n = .ret (some configs, n')) ↔
      ∃ toml, command.toml files = some toml ∧ toml.error = none ∧
        configs = toml.egressConfigs e n := by
  obtain ⟨config, egress⟩ := command
  cases config with
  | some path =>
      simp only [main, toml]
      cases files path with
      | none => simp
      | some toml =>
          obtain ⟨n', hn'⟩ := toml.tryFrom_eq e n
          simp only [Draw.bind_apply, hn', Outcome.bind_ret, Option.some.injEq, exists_eq_left']
          cases toml.error with
          | some msg => simp [Draw.unwrap]
          | none => simp [Draw.unwrap, eq_comm]
  | none =>
      cases egress with
      | none => simp [main, toml]
      | some egress =>
          obtain ⟨config, n', hn', herror, hconfigs⟩ := egress.into_eq (e := e) (n := n)
          simp only [main, toml, Draw.bind_apply, hn', Outcome.bind_ret, Draw.pure_apply,
            Option.some.injEq, exists_eq_left', herror, hconfigs, true_and]
          simp [eq_comm]

/-- What a server is launched with, but for what is drawn at random. -/
structure ServerRequest where
  tls : TlsConfig
  sockets : List Binding
  ingressIds : List (Option IngressId)

/-- The TCP ingresses of a file bind their sockets before the UDP ingresses. -/
def ServerToml.request (t : ServerToml) : ServerRequest where
  tls := t.tls.elim defaultTls TlsToml.into
  sockets := .endpoint (.new (t.ip.getD defaultServerIp) (t.port.getD defaultServerPort)) ::
    (t.tcpIngress.map (fun ingress => .tcpIngress ingress.addr) ++
      t.udpIngress.map fun ingress => .udpIngress ingress.addr)
  ingressIds := t.ingressIds

/-- The socket and the id of the one ingress of the arguments. -/
def IngressCommand.request : IngressCommand → Binding × Option IngressId
  | tcp args => (.tcpIngress (.new args.ip args.port), args.id)
  | udp args => (.udpIngress (.new args.ip args.port), args.id)

def ServerArgs.request (args : ServerArgs) (ingress : IngressCommand) : ServerRequest where
  tls := args.tls.into
  sockets := [.endpoint (.new args.ip args.port), ingress.request.1]
  ingressIds := [ingress.request.2]

/-- What the command asks for, if it launches a server. -/
def ServerCommand.request (files : String → Option ServerToml) (command : ServerCommand) :
    Option ServerRequest :=
  match command.config, command.ingress with
  | some path, _ => (files path).map ServerToml.request
  | none, some ingress => some (command.serverArgs.request ingress)
  | none, none => none

lemma ServerToml.bindings_eq (t : ServerToml) (m : ℕ) :
    (t.config e n).bindings (t.ingressConfigs e m) = t.request.sockets := by
  rw [ServerConfig.bindings, ingressConfigs, List.map_append, Draw.map_along, Draw.map_along]
  have hsame : ∀ (f : IngressToml → Binding) (k : ℕ) (ingresses : List IngressToml),
      Draw.along IngressToml.drawn (fun _ ingress => f ingress) k ingresses = ingresses.map f :=
    Draw.along_const
  exact congrArg₂ (fun tcp udp => _ :: (tcp ++ udp))
    (hsame (fun ingress => .tcpIngress ingress.addr) m t.tcpIngress)
    (hsame (fun ingress => .udpIngress ingress.addr) _ t.udpIngress)

lemma ServerArgs.into_eq (args : ServerArgs) : ∃ id n', args.into e n =
    .ret (⟨id, .new args.ip args.port, args.tls.into⟩, n') := by
  simp [into, Entropy.orGenerate_eq]

lemma IngressCommand.into_eq (command : IngressCommand) : ∃ config n', command.into e n =
    .ret (config, n') ∧ config.binding = command.request.1 := by
  cases command with
  | tcp args =>
      simp only [into, TcpIngressAgrs.into, Draw.bind_apply, Outcome.bind_ret, Draw.pure_apply,
        Entropy.orGenerate_eq, Entropy.orGenerate_key e AuthKey.validator 32 (by decide)]
      exact ⟨_, _, rfl, rfl⟩
  | udp args =>
      simp only [into, UdpIngressAgrs.into, Draw.bind_apply, Outcome.bind_ret, Draw.pure_apply,
        Entropy.orGenerate_eq, Entropy.orGenerate_key e AuthKey.validator 32 (by decide)]
      exact ⟨_, _, rfl, rfl⟩

end

/-! ## Coming up -/

/-- The egresses have a server each and ids of their own, and what they name can be looked up. -/
structure ClientToml.WellFormed (look : Lookup) (t : ClientToml) : Prop where
  served : none ∉ t.servers
  distinct : t.egressIds.reduceOption.Nodup
  targets : ∀ egress ∈ t.egresses, ∃ addr, look.address egress.target addr = true
  addresses : ∀ server, some server ∈ t.servers → ∃ addr, look.address server.address addr = true
  decoded : ∀ server, some server ∈ t.servers → (look.decode server.certHash).isSome = true

section

variable {e : Entropy}

/-- What the client looks up, in addresses that are given and with the base64 it draws its ids
in. -/
def Entropy.look (e : Entropy) (address : String → SocketAddr → Bool) : Lookup where
  address := address
  decode := e.engine.decode

/-- The client program comes up with this command, in some run. -/
def ClientCommand.ComesUp (e : Entropy) (files : String → Option ClientToml)
    (address : String → SocketAddr → Bool) (p : Profile) (command : ClientCommand) : Prop :=
  ∃ configs n ls s, command.main e files 0 = .ret (some configs, n) ∧
    (LaunchClient.system (e.look address) configs p).Run ls s ∧ s.pc.isUp = true

/-- What the egresses of a file can look up. -/
lemma ClientToml.forall_isUsable_iff {look : Lookup} {t : ClientToml} (hs : none ∉ t.servers) :
    (∀ config ∈ t.egressConfigs e 0, config.IsUsable look) ↔
      (∀ egress ∈ t.egresses, ∃ addr, look.address egress.target addr = true) ∧
      (∀ server, some server ∈ t.servers → ∃ addr, look.address server.address addr = true) ∧
      ∀ server, some server ∈ t.servers → (look.decode server.certHash).isSome = true := by
  have htarget := t.forall_target_iff (P := fun text => ∃ addr, look.address text addr = true) e 0
  have haddress := t.forall_authentication_iff
    (P := fun config => ∃ addr, look.address config.server addr = true) e 0 hs
  have hhash := t.forall_authentication_iff
    (P := fun config => (look.decode config.certHash).isSome = true) e 0 hs
  refine ⟨fun h => ⟨htarget.mp fun c hc => (h c hc).target, haddress.mp fun c hc => (h c hc).server,
    hhash.mp fun c hc => (h c hc).decoded⟩, ?_⟩
  rintro ⟨ht, ha, hd⟩ c hc
  exact ⟨htarget.mpr ht c hc, haddress.mpr ha c hc, hhash.mpr hd c hc⟩

lemma ClientToml.wellFormed_iff {look : Lookup} {t : ClientToml}
    (hf : e.Fresh .egressId 0 t.egressIds) (hs : none ∉ t.servers) :
    LaunchClient.WellFormed look (t.egressConfigs e 0) ↔ t.WellFormed look := by
  rw [LaunchClient.WellFormed, t.map_id_egressConfigs]
  change (e.ids .egressId 0 t.egressIds).Nodup ∧ _ ↔ _
  rw [hf.nodup_ids_iff, ClientToml.forall_isUsable_iff hs]
  exact ⟨fun ⟨hn, ht, ha, hd⟩ => ⟨hs, hn, ht, ha, hd⟩, fun h =>
    ⟨h.distinct, h.targets, h.addresses, h.decoded⟩⟩

lemma LaunchClient.new_ne_panicked (configs : List EgressConfig) :
    (LaunchClient.new configs).pc ≠ .panicked := by
  rw [LaunchClient.new, LaunchClient.entry]
  split_ifs <;> simp

/-- **A client comes up exactly with a file whose egresses have a server each and ids of their own,
and name what can be looked up**, or with the arguments of one such egress.  What comes of a file is
its egresses, with an id drawn for each that has none, or the error of the first one without a
server, TCP before UDP; and never a panic. -/
theorem client_comes_up_iff {files : String → Option ClientToml}
    {address : String → SocketAddr → Bool} {p : Profile} {command : ClientCommand}
    (hf : ∀ toml, command.toml files = some toml → e.Fresh .egressId 0 toml.egressIds) :
    (command.ComesUp e files address p ↔
      ∃ toml, command.toml files = some toml ∧ toml.WellFormed (e.look address)) ∧
    ∀ (toml : ClientToml) (n : ℕ), ∃ n', toml.tryFrom e n =
      .ret (toml.error.elim (.ok (toml.egressConfigs e n)) .error, n') := by
  refine ⟨⟨?_, ?_⟩, fun toml n => toml.tryFrom_eq e n⟩
  · rintro ⟨configs, n, ls, s, hmain, hrun, hup⟩
    obtain ⟨toml, htoml, herror, rfl⟩ := (command.main_eq files configs).mp ⟨n, hmain⟩
    refine ⟨toml, htoml, ?_⟩
    rw [← ClientToml.wellFormed_iff (hf toml htoml) (toml.error_eq_none_iff.mp herror)]
    exact (LaunchClient.sound_run hrun).wellFormed hup
  · rintro ⟨toml, htoml, hw⟩
    obtain ⟨n, hmain⟩ := (command.main_eq files (toml.egressConfigs e 0)).mpr
      ⟨toml, htoml, toml.error_eq_none_iff.mpr hw.served, rfl⟩
    have hstart : (LaunchClient.system (e.look address) (toml.egressConfigs e 0) p).Run []
        (LaunchClient.new _) := .nil
    have hwell := (ClientToml.wellFormed_iff (hf toml htoml) hw.served).mpr hw
    obtain ⟨ls, s, hrun, hup⟩ := ((LaunchClient.sound_run hstart).ensures_up hwell
      (LaunchClient.new_ne_panicked _)).exists_run hstart
    exact ⟨_, n, ls, s, hmain, hrun, hup⟩

/-- The ingresses have ids of their own, and the machine has what the server asks for. -/
structure ServerRequest.WellFormed (machine : Machine) (request : ServerRequest) : Prop where
  distinct : request.ingressIds.reduceOption.Nodup
  suits : machine.Suits request.tls request.sockets

/-- The server program comes up with this command, in some run. -/
def ServerCommand.ComesUp (e : Entropy) (files : String → Option ServerToml) (machine : Machine)
    (w : ℕ) (command : ServerCommand) : Prop :=
  ∃ config configs n ls s, command.main e files 0 = .ret (some (config, configs), n) ∧
    (LaunchServer.program w machine config configs).Run ls s ∧ s.pc.isUp = true

/-- What `main` launches is what the command asks for. -/
structure ServerRequest.Meets (request : ServerRequest) (config : ServerConfig)
    (configs : List IngressConfig) : Prop where
  distinct : (configs.map IngressConfig.id).Nodup ↔ request.ingressIds.reduceOption.Nodup
  tls : config.tls = request.tls
  sockets : config.bindings configs = request.sockets

lemma ServerRequest.Meets.wellFormed_iff {request : ServerRequest} {config : ServerConfig}
    {configs : List IngressConfig} {machine : Machine} (h : request.Meets config configs) :
    LaunchServer.WellFormed machine config configs ↔ request.WellFormed machine := by
  refine ⟨fun hw => ⟨h.distinct.mp hw.distinct, ?_⟩, fun hw => ⟨h.distinct.mpr hw.distinct, ?_⟩⟩
  · rw [← h.tls, ← h.sockets]
    exact hw.suits
  · rw [h.tls, h.sockets]
    exact hw.suits

/-- With random keys the ids of the ingresses are as many as the file says. -/
lemma ServerCommand.main_eq {files : String → Option ServerToml} {command : ServerCommand}
    (hf : ∀ path toml, command.config = some path → files path = some toml →
      e.Fresh .ingressId (Entropy.drawn toml.id) toml.ingressIds) :
    (command.request files = none ∧
      ∀ launched n, command.main e files 0 ≠ .ret (some launched, n)) ∨
    ∃ request config configs n, command.request files = some request ∧
      command.main e files 0 = .ret (some (config, configs), n) ∧
      request.Meets config configs := by
  obtain ⟨config, serverArgs, ingress⟩ := command
  cases config with
  | some path =>
      cases hp : files path with
      | none => exact Or.inl ⟨by simp [request, hp], by simp [main, hp]⟩
      | some toml =>
          obtain ⟨n', hn'⟩ := toml.into_eq e 0
          refine Or.inr ⟨toml.request, toml.config e 0,
            toml.ingressConfigs e (0 + Entropy.drawn toml.id), n', by simp [request, hp],
            by simp [main, hp, hn'], ?_, rfl, toml.bindings_eq _⟩
          rw [toml.map_id_ingressConfigs, Nat.zero_add, (hf path toml rfl hp).nodup_ids_iff]
          rfl
  | none =>
      cases ingress with
      | none => exact Or.inl ⟨rfl, by simp [main]⟩
      | some ingress =>
          obtain ⟨id, n, hserver⟩ := serverArgs.into_eq (e := e) (n := 0)
          obtain ⟨ingressConfig, n', hn', hbinding⟩ := ingress.into_eq (e := e) (n := n)
          refine Or.inr ⟨serverArgs.request ingress,
            ⟨id, .new serverArgs.ip serverArgs.port, serverArgs.tls.into⟩, [ingressConfig], n', rfl,
            ?_, ?_, rfl, ?_⟩
          · simp only [main, Draw.bind_apply, hserver, Outcome.bind_ret, hn', Draw.pure_apply]
          · simp only [ServerArgs.request]
            cases ingress.request.2 <;> simp
          · simp [ServerConfig.bindings, ServerArgs.request, hbinding]

/-- **A server comes up exactly with ids of their own for its ingresses, its certificate and its
sockets.**  What comes of a file is its server and its ingresses, with an id drawn for each that has
none; and never a panic. -/
theorem server_comes_up_iff {files : String → Option ServerToml} {machine : Machine} {w : ℕ}
    {command : ServerCommand}
    (hf : ∀ path toml, command.config = some path → files path = some toml →
      e.Fresh .ingressId (Entropy.drawn toml.id) toml.ingressIds) :
    (command.ComesUp e files machine w ↔
      ∃ request, command.request files = some request ∧ request.WellFormed machine) ∧
    ∀ (toml : ServerToml) (n : ℕ), ∃ n', toml.into e n =
      .ret ((toml.config e n, toml.ingressConfigs e (n + Entropy.drawn toml.id)), n') := by
  refine ⟨?_, fun toml n => toml.into_eq e n⟩
  rcases command.main_eq hf with ⟨hnone, hmain⟩ | ⟨request, config, configs, n, hr, hmain, hmeets⟩
  · rw [hnone]
    refine iff_of_false ?_ (by simp)
    rintro ⟨config, configs, n, ls, s, h, -⟩
    exact hmain _ _ h
  · rw [hr]
    constructor
    · rintro ⟨config', configs', n', ls, s, h, hrun, hup⟩
      rw [hmain] at h
      cases h
      exact ⟨request, rfl, hmeets.wellFormed_iff.mp ((LaunchServer.sound_run hrun).wellFormed hup)⟩
    · rintro ⟨_, ⟨rfl⟩, hw⟩
      have hstart : (LaunchServer.program w machine config configs).Run []
          (LaunchServer.new w configs) := .nil
      obtain ⟨ls, s, hrun, hup⟩ := ((LaunchServer.sound_run hstart).ensures_up
        (hmeets.wellFormed_iff.mpr hw) (by simp [LaunchServer.new])).exists_run hstart
      exact ⟨config, configs, n, ls, s, hmain, hrun, hup⟩

/-! ## Who is accepted -/

/-- The registry of a server that waits for its signal has the configuration. -/
lemma LaunchServer.accepts_iff {w : ℕ} {machine : Machine} {config : ServerConfig}
    {configs : List IngressConfig} {s : LaunchServer w} {ls : List LaunchServer.Label} {p : Parties}
    (hrun : (LaunchServer.program w machine config configs).Run ls s) (hpc : s.pc = .waiting)
    (hp : p.registry.get = s.system.server.ingressById) :
    ((∃ ingress, p.verdict = .ok ingress) ↔
      (p.ingressId, p.authKey) ∈ configs.map fun c => (c.id, c.authKey)) ∧
    (p.verdict = .error .rejectedIngressId ↔ p.ingressId ∉ configs.map IngressConfig.id) := by
  have hsound := LaunchServer.sound_run hrun
  constructor
  · simp only [Parties.verdict_eq_ok_iff, hp, hsound.ingressById_iff hpc, List.mem_map,
      Prod.mk.injEq]
    constructor
    · rintro ⟨ingress, ⟨k, c, hc, hid, rfl⟩, hkey⟩
      exact ⟨c, List.mem_of_getElem? hc, hid, hkey⟩
    · rintro ⟨c, hc, hid, hkey⟩
      obtain ⟨k, hk⟩ := List.getElem?_of_mem hc
      exact ⟨c.ingress k, ⟨k, c, hk, hid, rfl⟩, hkey⟩
  · rw [Parties.verdict_rejectedIngressId_iff, hp, ← not_iff_not, not_not, List.mem_map,
      ← ne_eq, Option.ne_none_iff_exists']
    simp only [hsound.ingressById_iff hpc]
    constructor
    · rintro ⟨ingress, k, c, hc, hid, -⟩
      exact ⟨c, List.mem_of_getElem? hc, hid⟩
    · rintro ⟨c, hc, hid⟩
      obtain ⟨k, hk⟩ := List.getElem?_of_mem hc
      exact ⟨c.ingress k, k, c, hk, hid, rfl⟩

/-- **Whom a server accepts is what its file says**: in every run of the handshake over a reliable
transport that delivers every frame whole, with no timer firing and nobody closing the connection,
with a server that was launched with a file and waits for its signal, a client that has returned has
a tunnel exactly if its ingress id and its key stand together in the file, and the error is about
the id exactly if that is not there. -/
theorem accepted_iff_configured {w n : ℕ} {machine : Machine} {toml : ServerToml}
    {s : LaunchServer w} {ls : List LaunchServer.Label} {p : Parties} {t : Handshake}
    {ms : List Handshake.Label}
    (hrun : (LaunchServer.program w machine (toml.config e 0) (toml.ingressConfigs e n)).Run ls s)
    (hpc : s.pc = .waiting) (hp : p.registry.get = s.system.server.ingressById)
    (hh : (Handshake.system p).Run ms t) (hr : t.clientResult.isSome = true) :
    ((∃ tunnel, t.clientResult = some (.ok tunnel)) ↔ (p.ingressId, p.authKey) ∈
      (e.ids .ingressId n toml.ingressIds).zip (toml.ingresses.map IngressToml.authKey)) ∧
    (t.clientResult = some (.error .rejectedIngressId) ↔
      p.ingressId ∉ e.ids .ingressId n toml.ingressIds) := by
  have hkeys := toml.map_ingressConfigs e n (f := IngressConfig.authKey) (g := IngressToml.authKey)
    (fun _ _ => rfl) (fun _ _ => rfl)
  obtain ⟨hok, hid⟩ := LaunchServer.accepts_iff hrun hpc hp
  rw [← hkeys, ← toml.map_id_ingressConfigs, List.zip_map', ← hok, ← hid]
  cases (Handshake.joined_run hh).outcome hr with
  | accepted _ _ hv hc _ | refused _ hv hc _ =>
      rw [hv, hc]
      simp

end

/-! ## Two files -/

/-- The `n`th array is filled with `n`. -/
def countingEntropy : Entropy where
  fill L n := Vector.replicate L (UInt8.ofNat n)
  engine := Base64.urlSafeEngine

/-- A server with an ingress `h` and one without an id. -/
def serverToml : ServerToml where
  id := none
  ip := none
  port := none
  tls := none
  tcpIngress := [⟨none, 3000, some ⟨"h", by decide, by decide⟩, ⟨"l", by decide, by decide⟩⟩]
  udpIngress := [⟨none, 3000, none, ⟨"m", by decide, by decide⟩⟩]

/-- A client for both. -/
def clientToml : ClientToml where
  server := some ⟨"localhost:8765", "TWFu", none⟩
  tcpEgress :=
    [⟨none, none, ⟨"h", by decide, by decide⟩, ⟨"l", by decide, by decide⟩, "localhost:80"⟩]
  udpEgress :=
    [⟨none, none, ⟨"n", by decide, by decide⟩, ⟨"m", by decide, by decide⟩, "localhost:53"⟩]

/-- The names of `clientToml`, on the machine itself. -/
def localNames : String → SocketAddr → Bool :=
  LaunchClient.knownHosts [("localhost:8765", LaunchClient.loopback 8765),
    ("localhost:80", LaunchClient.loopback 80), ("localhost:53", LaunchClient.loopback 53)]

theorem client_comes_up_two : ClientCommand.ComesUp countingEntropy (fun _ => some clientToml)
    localNames .checked ⟨some "client.toml", none⟩ := by
  have hservers : ∀ server, some server ∈ clientToml.servers →
      server = ⟨"localhost:8765", "TWFu", none⟩ := fun server hserver => by
    simpa [ClientToml.servers, ClientToml.egresses, clientToml, EgressToml.authentication] using
      hserver
  refine (client_comes_up_iff ?_).1.mpr ⟨clientToml, rfl, ?_, by decide, fun egress hegress => ?_,
    fun server hserver => ?_, fun server hserver => ?_⟩
  · rintro _ ⟨rfl⟩
    exact ⟨by decide +kernel, by decide +kernel⟩
  · simp [ClientToml.servers, ClientToml.egresses, clientToml, EgressToml.authentication]
  · simp only [ClientToml.egresses, clientToml, List.cons_append, List.nil_append, List.mem_cons,
      List.not_mem_nil, or_false] at hegress
    rcases hegress with rfl | rfl
    · exact ⟨LaunchClient.loopback 80, by decide⟩
    · exact ⟨LaunchClient.loopback 53, by decide⟩
  · exact ⟨LaunchClient.loopback 8765, by rw [hservers server hserver]; decide⟩
  · rw [hservers server hserver]
    decide +kernel

theorem server_comes_up_one : ServerCommand.ComesUp countingEntropy (fun _ => some serverToml)
    LaunchServer.freeMachine 64
    ⟨some "server.toml", ⟨none, defaultServerIp, defaultServerPort, ⟨"c.pem", "k.pem", "l"⟩⟩,
      none⟩ := by
  refine (server_comes_up_iff ?_).1.mpr ⟨serverToml.request, rfl, by decide, rfl, by decide⟩
  rintro path _ - ⟨rfl⟩
  exact ⟨by decide +kernel, by decide +kernel⟩

/-- The parties of a handshake with a server that was launched. -/
def LaunchServer.parties {w : ℕ} {machine : Machine} {config : ServerConfig}
    {configs : List IngressConfig} {s : LaunchServer w} {ls : List LaunchServer.Label}
    (hrun : (LaunchServer.program w machine config configs).Run ls s)
    (authKey : AuthKey) (ingressId : IngressId) : Parties where
  serverId := config.id
  registry := .ofServer s.system.server (LaunchServer.server_run hrun)
  authKey := authKey
  ingressId := ingressId

/-- The key of `h` is accepted, and the other is not. -/
theorem accepted_iff_configured_two : ∃ (ls : List LaunchServer.Label) (s : LaunchServer 64)
    (hrun : (LaunchServer.program 64 LaunchServer.freeMachine (serverToml.config countingEntropy 0)
      (serverToml.ingressConfigs countingEntropy 1)).Run ls s), s.pc = .waiting ∧
    (∃ ms t, (Handshake.system (LaunchServer.parties hrun ⟨"l", by decide, by decide⟩
        ⟨"h", by decide, by decide⟩)).Run ms t ∧ ∃ tunnel, t.clientResult = some (.ok tunnel)) ∧
    ∃ ms t, (Handshake.system (LaunchServer.parties hrun ⟨"m", by decide, by decide⟩
        ⟨"h", by decide, by decide⟩)).Run ms t ∧
      ¬ ∃ tunnel, t.clientResult = some (.ok tunnel) := by
  have hwaits : (((LaunchServer.program 64 LaunchServer.freeMachine
      (serverToml.config countingEntropy 0) (serverToml.ingressConfigs countingEntropy 1)).exec
      (LaunchServer.new 64 (serverToml.ingressConfigs countingEntropy 1))
      [.certificate true, .listen true, .start true, .assign, .start true, .assign]).map
        fun s => s.pc) = some .waiting := by decide +kernel
  obtain ⟨s, hs, hpc⟩ := Option.map_eq_some_iff.mp hwaits
  have hrun := System.run_of_exec hs
  have hends : ∀ p : Parties, ∃ ms t, (Handshake.system p).Run ms t ∧
      t.clientResult.isSome = true := by
    intro p
    obtain ⟨ms, t, ht, hover⟩ := (Handshake.joined_new (p := p)).ends _ rfl
    exact ⟨ms, t, System.run_of_exec ht, (Bool.and_eq_true_iff.mp hover).1⟩
  have hkey : (⟨"h", by decide, by decide⟩, ⟨"l", by decide, by decide⟩) ∈
      (countingEntropy.ids .ingressId 1 serverToml.ingressIds).zip
        (serverToml.ingresses.map IngressToml.authKey) := by decide +kernel
  have hother : (⟨"h", by decide, by decide⟩, ⟨"m", by decide, by decide⟩) ∉
      (countingEntropy.ids .ingressId 1 serverToml.ingressIds).zip
        (serverToml.ingresses.map IngressToml.authKey) := by decide +kernel
  refine ⟨_, s, hrun, hpc, ?_, ?_⟩
  · obtain ⟨ms, t, ht, hr⟩ := hends (LaunchServer.parties hrun ⟨"l", by decide, by decide⟩
      ⟨"h", by decide, by decide⟩)
    exact ⟨ms, t, ht, (accepted_iff_configured hrun hpc rfl ht hr).1.mpr hkey⟩
  · obtain ⟨ms, t, ht, hr⟩ := hends (LaunchServer.parties hrun ⟨"m", by decide, by decide⟩
      ⟨"h", by decide, by decide⟩)
    exact ⟨ms, t, ht, fun hok => hother ((accepted_iff_configured hrun hpc rfl ht hr).1.mp hok)⟩

end Siffleux
