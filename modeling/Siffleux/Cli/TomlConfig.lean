import Mathlib.Algebra.Ring.Nat
import Mathlib.Data.List.Nodup
import Mathlib.Data.List.ReduceOption
import Siffleux.Cli.SiffleuxConfig
import Siffleux.Common.Identifiers
import Siffleux.Foundation.Base64

/-!
# The configuration files

`siffleux-cli/src/toml_config.rs`: what the files have, once they are read, and what is made of it.
An id that a file leaves out is drawn at random, in the order of the file; what `getrandom` gives is
a parameter, as are the texts base64 makes of it.

* `Entropy.generateId_eq` — a random key makes a valid identifier, so drawing one never panics.
* `ids` — the ids of a list of entries: their own, or the next ones drawn.
* `ClientToml.tryFrom_eq`, `ServerToml.into_eq` — what comes out of a file.
-/

namespace Siffleux

open ByteBuf

/-! ## Drawing -/

/-- A computation that draws random arrays, so many having been drawn before it, and may panic. -/
def Draw (α : Type) := ℕ → Outcome (α × ℕ)

namespace Draw

variable {α β : Type}

instance : Monad Draw where
  pure a := fun n => .ret (a, n)
  bind x f := fun n => (x n).bind fun r => f r.1 r.2

@[simp] lemma pure_apply (a : α) (n : ℕ) : (pure a : Draw α) n = .ret (a, n) := rfl

@[simp] lemma bind_apply (x : Draw α) (f : α → Draw β) (n : ℕ) :
    (x >>= f) n = (x n).bind fun r => f r.1 r.2 := rfl

/-- `unwrap`. -/
def unwrap {ε : Type} : Except ε α → Draw α
  | .ok a => pure a
  | .error _ => fun _ => .panic

/-- `map` and `collect` into a `Vec`. -/
def collect (f : α → Draw β) : List α → Draw (List β)
  | [] => pure []
  | a :: as => do
      let b ← f a
      let bs ← collect f as
      pure (b :: bs)

/-- `map` and `collect` into a `Result` of a `Vec`.  The first error ends it. -/
def tryCollect {ε : Type} (f : α → Draw (Except ε β)) : List α → Draw (Except ε (List β))
  | [] => pure (.ok [])
  | a :: as => do
      match ← f a with
      | .error e => pure (.error e)
      | .ok b => do
          match ← tryCollect f as with
          | .error e => pure (.error e)
          | .ok bs => pure (.ok (b :: bs))

/-- The values along a list, when what an entry draws depends on the entry alone. -/
def along (cost : α → ℕ) (value : ℕ → α → β) : ℕ → List α → List β
  | _, [] => []
  | n, a :: as => value n a :: along cost value (n + cost a) as

section

variable {γ : Type} {cost : α → ℕ} {value : ℕ → α → β}

lemma map_along (f : β → γ) (n : ℕ) (as : List α) :
    (along cost value n as).map f = along cost (fun n a => f (value n a)) n as := by
  induction as generalizing n with
  | nil => rfl
  | cons a as ih => simp [along, ih]

lemma along_map (f : γ → α) (n : ℕ) (cs : List γ) :
    along cost value n (cs.map f) =
      along (fun c => cost (f c)) (fun n c => value n (f c)) n cs := by
  induction cs generalizing n with
  | nil => rfl
  | cons c cs ih => simp [along, ih]

lemma along_const (f : α → β) (n : ℕ) (as : List α) :
    along cost (fun _ a => f a) n as = as.map f := by
  induction as generalizing n with
  | nil => rfl
  | cons a as ih => simp [along, ih]

lemma along_append (n : ℕ) (as as' : List α) :
    along cost value n (as ++ as') =
      along cost value n as ++ along cost value (n + (as.map cost).sum) as' := by
  induction as generalizing n with
  | nil => simp [along]
  | cons a as ih => simp [along, ih, Nat.add_assoc]

theorem collect_eq {f : α → Draw β} (h : ∀ a n, f a n = .ret (value n a, n + cost a)) (n : ℕ)
    (as : List α) : collect f as n = .ret (along cost value n as, n + (as.map cost).sum) := by
  induction as generalizing n with
  | nil => rfl
  | cons a as ih => simp [collect, along, h, ih, Nat.add_assoc]

/-- The first entry that fails decides. -/
theorem tryCollect_eq {ε : Type} {f : α → Draw (Except ε β)} {error : α → Option ε}
    (h : ∀ a n, f a n = .ret ((error a).elim (.ok (value n a)) .error, n + cost a)) (n : ℕ)
    (as : List α) :
    ∃ n', tryCollect f as n =
        .ret ((as.findSome? error).elim (.ok (along cost value n as)) .error, n') ∧
      (as.findSome? error = none → n' = n + (as.map cost).sum) := by
  induction as generalizing n with
  | nil => exact ⟨n, rfl, fun _ => rfl⟩
  | cons a as ih =>
      cases ha : error a with
      | some e =>
          refine ⟨n + cost a, ?_, ?_⟩
          · simp [tryCollect, h, ha]
          · simp [ha]
      | none =>
          obtain ⟨n', hn', hcount⟩ := ih (n + cost a)
          refine ⟨n', ?_, ?_⟩
          · simp only [tryCollect, bind_apply, h, ha, Outcome.bind_ret, hn',
              List.findSome?_cons_of_isNone, Option.isNone_none, Option.elim_none]
            cases as.findSome? error <;> rfl
          · intro hnone
            rw [List.findSome?_cons, ha] at hnone
            rw [hcount hnone, List.map_cons, List.sum_cons, Nat.add_assoc]

end

end Draw

/-- What `getrandom::fill` puts into the `n`th array, and the engine that makes a text of it. -/
structure Entropy where
  fill : (L n : ℕ) → Vector UInt8 L
  engine : Base64.Engine

/-- The error of `client/egress/egress_id.rs`. -/
def EgressId.validator : Validator .egressId where
  invalid := .invalidEgressId
  notUtf8 := "Invalid egress ID UTF8 bytes."
  empty := "Egress ID has to be between 1 and 255 UTF8 bytes."
  tooLong := "Egress ID has to be between 1 and 255 UTF8 bytes."

namespace Entropy

variable (e : Entropy) {k : IdentifierKind}

/-- `generate_secure_random_key`. -/
def generateSecureRandomKey (L : ℕ) : Draw String := fun n =>
  .ret (e.engine.encode (e.fill L n).toList, n + 1)

/-- A key of `L` random bytes as an identifier. -/
def generateId (v : Validator k) (L : ℕ) : Draw (Identifier k) := do
  let key ← e.generateSecureRandomKey L
  Draw.unwrap (v.new key)

/-- `unwrap_or_else`. -/
def orGenerate (v : Validator k) (L : ℕ) : Option (Identifier k) → Draw (Identifier k)
  | some id => pure id
  | none => e.generateId v L

lemma utf8ByteSize_key (L n : ℕ) :
    (asBytes (e.engine.encode (e.fill L n).toList)).length = (L + 2) / 3 * 4 := by
  have hsize := e.engine.utf8ByteSize_encode (e.fill L n).toList
  rw [Vector.length_toList] at hsize
  exact hsize

/-- The identifier that the `n`th draw of `L` bytes is. -/
def key (k : IdentifierKind) (L : ℕ) (h : 0 < L ∧ L ≤ 189) (n : ℕ) : Identifier k where
  toStr := e.engine.encode (e.fill L n).toList
  nonempty he := by
    have hsize := e.utf8ByteSize_key L n
    rw [he] at hsize
    change 0 = _ at hsize
    omega
  bounded := by
    rw [e.utf8ByteSize_key, maxLength]
    omega

/-- **A random key is a valid identifier.** -/
theorem generateId_eq (v : Validator k) (L : ℕ) (h : 0 < L ∧ L ≤ 189) (n : ℕ) :
    e.generateId v L n = .ret (e.key k L h n, n + 1) := by
  have hnew := v.new_toStr (e.key k L h n)
  simp only [generateId, Draw.bind_apply, generateSecureRandomKey, Outcome.bind_ret]
  rw [show e.engine.encode (e.fill L n).toList = (e.key k L h n).toStr from rfl, hnew]
  rfl

/-- The draws that an identifier takes. -/
def drawn (id : Option (Identifier k)) : ℕ := if id.isNone then 1 else 0

lemma orGenerate_key (v : Validator k) (L : ℕ) (h : 0 < L ∧ L ≤ 189) (id : Option (Identifier k))
    (n : ℕ) : e.orGenerate v L id n = .ret (id.getD (e.key k L h n), n + drawn id) := by
  cases id with
  | none => exact e.generateId_eq v L h n
  | some id => rfl

/-- The identifier that an entry has: its own, or the next one drawn. -/
def idAt (k : IdentifierKind) (n : ℕ) (id : Option (Identifier k)) : Identifier k :=
  id.getD (e.key k 16 (by decide) n)

lemma orGenerate_eq (v : Validator k) (id : Option (Identifier k)) (n : ℕ) :
    e.orGenerate v 16 id n = .ret (e.idAt k n id, n + drawn id) := e.orGenerate_key v 16 _ id n

/-- The identifiers that a list of entries has. -/
def ids (k : IdentifierKind) (n : ℕ) (entries : List (Option (Identifier k))) :
    List (Identifier k) := Draw.along drawn (e.idAt k) n entries

/-- The ones that are drawn for it. -/
def keys (k : IdentifierKind) (n : ℕ) (entries : List (Option (Identifier k))) :
    List (Identifier k) :=
  (List.range' n (entries.map drawn).sum).map (e.key k 16 (by decide))

/-- Random keys differ, from each other and from the ids that are given. -/
structure Fresh (k : IdentifierKind) (n : ℕ) (entries : List (Option (Identifier k))) : Prop where
  nodup : (e.keys k n entries).Nodup
  disjoint : ∀ id ∈ entries.reduceOption, id ∉ e.keys k n entries

lemma ids_perm (n : ℕ) (entries : List (Option (Identifier k))) :
    (e.ids k n entries).Perm (entries.reduceOption ++ e.keys k n entries) := by
  induction entries generalizing n with
  | nil => exact List.Perm.refl _
  | cons entry entries ih =>
      cases entry with
      | some id => simpa [ids, keys, Draw.along, drawn, idAt] using (ih n).cons id
      | none =>
          have hkeys : e.keys k n (none :: entries) =
              e.key k 16 (by decide) n :: e.keys k (n + 1) entries := by
            simp [keys, drawn, Nat.add_comm 1, List.range'_succ]
          rw [hkeys, List.reduceOption_cons_of_none]
          exact ((ih (n + 1)).cons _).trans List.perm_middle.symm

/-- **With random keys, the ids differ if the given ones do.** -/
theorem Fresh.nodup_ids_iff {e : Entropy} {n : ℕ} {entries : List (Option (Identifier k))}
    (h : e.Fresh k n entries) : (e.ids k n entries).Nodup ↔ entries.reduceOption.Nodup := by
  rw [(e.ids_perm n entries).nodup_iff, List.nodup_append']
  exact ⟨fun hn => hn.1, fun hn => ⟨hn, h.nodup, fun id hid hkey =>
    h.disjoint id hid hkey⟩⟩

end Entropy

/-! ## The server's file -/

structure TlsToml where
  certPemPath : String
  keyPemPath : String
  certSubjectAltName : Option String

/-- The `TlsConfig` of a file. -/
def TlsToml.into (t : TlsToml) : TlsConfig where
  certPemPath := t.certPemPath
  keyPemPath := t.keyPemPath
  certSubjectAltName := t.certSubjectAltName.getD defaultServerTlsSubjectAltName

/-- `TcpIngressToml` and `UdpIngressToml` have the same fields. -/
structure IngressToml where
  ip : Option IpAddr
  port : UInt16
  id : Option IngressId
  authKey : AuthKey

abbrev TcpIngressToml := IngressToml
abbrev UdpIngressToml := IngressToml

def IngressToml.addr (t : IngressToml) : SocketAddr := .new (t.ip.getD defaultIngressIp) t.port

def TcpIngressToml.into (e : Entropy) (t : TcpIngressToml) : Draw IngressConfig := do
  let id ← e.orGenerate IngressId.validator 16 t.id
  pure (.tcp ⟨t.addr, id, t.authKey⟩)

def UdpIngressToml.into (e : Entropy) (t : UdpIngressToml) : Draw IngressConfig := do
  let id ← e.orGenerate IngressId.validator 16 t.id
  pure (.udp ⟨t.addr, id, t.authKey⟩)

/-- The draws that an ingress takes. -/
def IngressToml.drawn (t : IngressToml) : ℕ := Entropy.drawn t.id

/-- What it is made into. -/
def TcpIngressToml.config (e : Entropy) (n : ℕ) (t : TcpIngressToml) : IngressConfig :=
  .tcp ⟨t.addr, e.idAt .ingressId n t.id, t.authKey⟩

def UdpIngressToml.config (e : Entropy) (n : ℕ) (t : UdpIngressToml) : IngressConfig :=
  .udp ⟨t.addr, e.idAt .ingressId n t.id, t.authKey⟩

lemma TcpIngressToml.into_eq (e : Entropy) (t : TcpIngressToml) (n : ℕ) :
    into e t n = .ret (config e n t, n + IngressToml.drawn t) := by
  simp [into, Entropy.orGenerate_eq, config, IngressToml.drawn]

lemma UdpIngressToml.into_eq (e : Entropy) (t : UdpIngressToml) (n : ℕ) :
    into e t n = .ret (config e n t, n + IngressToml.drawn t) := by
  simp [into, Entropy.orGenerate_eq, config, IngressToml.drawn]

structure ServerToml where
  id : Option ServerId
  ip : Option IpAddr
  port : Option UInt16
  tls : Option TlsToml
  tcpIngress : List TcpIngressToml
  udpIngress : List UdpIngressToml

namespace ServerToml

variable (e : Entropy) (t : ServerToml)

def into : Draw (ServerConfig × List IngressConfig) := do
  let id ← e.orGenerate ServerId.validator 16 t.id
  let tcp ← Draw.collect (TcpIngressToml.into e) t.tcpIngress
  let udp ← Draw.collect (UdpIngressToml.into e) t.udpIngress
  pure (⟨id, .new (t.ip.getD defaultServerIp) (t.port.getD defaultServerPort),
    t.tls.elim defaultTls TlsToml.into⟩, tcp ++ udp)

/-- The ingresses of the file, in the order they are launched. -/
def ingresses : List IngressToml := t.tcpIngress ++ t.udpIngress

/-- The ids that the file has for them. -/
def ingressIds : List (Option IngressId) := t.ingresses.map IngressToml.id

/-- The server that is made of the file. -/
def config (n : ℕ) : ServerConfig where
  id := e.idAt .serverId n t.id
  clientAddr := .new (t.ip.getD defaultServerIp) (t.port.getD defaultServerPort)
  tls := t.tls.elim defaultTls TlsToml.into

/-- Its ingresses, when so many arrays have been drawn before. -/
def ingressConfigs (n : ℕ) : List IngressConfig :=
  Draw.along IngressToml.drawn (TcpIngressToml.config e) n t.tcpIngress ++
    Draw.along IngressToml.drawn (UdpIngressToml.config e)
      (n + (t.tcpIngress.map IngressToml.drawn).sum) t.udpIngress

theorem into_eq (n : ℕ) : ∃ n', t.into e n =
    .ret ((t.config e n, t.ingressConfigs e (n + Entropy.drawn t.id)), n') := by
  refine ⟨n + Entropy.drawn t.id + (t.tcpIngress.map IngressToml.drawn).sum +
    (t.udpIngress.map IngressToml.drawn).sum, ?_⟩
  simp only [into, Draw.bind_apply, Entropy.orGenerate_eq, Outcome.bind_ret,
    Draw.collect_eq (TcpIngressToml.into_eq e), Draw.collect_eq (UdpIngressToml.into_eq e),
    Draw.pure_apply, config, ingressConfigs]

/-- What the ingresses have of the file. -/
lemma map_ingressConfigs {β : Type} (n : ℕ) {f : IngressConfig → β} {g : IngressToml → β}
    (htcp : ∀ n ingress, f (TcpIngressToml.config e n ingress) = g ingress)
    (hudp : ∀ n ingress, f (UdpIngressToml.config e n ingress) = g ingress) :
    (t.ingressConfigs e n).map f = t.ingresses.map g := by
  simp only [ingressConfigs, ingresses, List.map_append, Draw.map_along, htcp, hudp,
    Draw.along_const]

lemma map_id_ingressConfigs (n : ℕ) :
    (t.ingressConfigs e n).map IngressConfig.id = e.ids .ingressId n t.ingressIds := by
  rw [ingressConfigs, List.map_append, Draw.map_along, Draw.map_along, Entropy.ids, ingressIds,
    ingresses, Draw.along_map, Draw.along_append]
  rfl

end ServerToml

/-! ## The client's file -/

structure AuthenticationToml where
  address : String
  certHash : String
  certSubjectAltName : Option String
  deriving Inhabited

def AuthenticationToml.into (t : AuthenticationToml) : AuthenticationConfig where
  server := t.address
  certHash := t.certHash
  certSubjectAltName := t.certSubjectAltName.getD defaultServerTlsSubjectAltName

/-- `TcpEgressToml` and `UdpEgressToml` have the same fields. -/
structure EgressToml where
  server : Option AuthenticationToml
  id : Option EgressId
  ingressId : IngressId
  authKey : AuthKey
  target : String

abbrev TcpEgressToml := EgressToml
abbrev UdpEgressToml := EgressToml

namespace EgressToml

/-- The server of an egress is its own, or the one of the file. -/
def authentication (server : Option AuthenticationToml) (t : EgressToml) :
    Option AuthenticationToml := t.server.or server

/-- The error of an egress without a server. -/
def noServer (protocol : String) (t : EgressToml) : String :=
  protocol ++ " egress ingress_id=" ++ t.ingressId.toStr ++ " doesn't a server to connect to."

/-- The two closures of `try_from`: the id is drawn before the server is looked for. -/
def tryInto (e : Entropy) (protocol : String)
    (make : AuthenticationConfig → EgressId → EgressConfig) (server : Option AuthenticationToml)
    (t : EgressToml) : Draw (Except String EgressConfig) := do
  let id ← e.orGenerate EgressId.validator 16 t.id
  match t.authentication server with
  | none => pure (.error (noServer protocol t))
  | some authentication => pure (.ok (make authentication.into id))

/-- The draws that an egress takes. -/
def drawn (t : EgressToml) : ℕ := Entropy.drawn t.id

/-- Its error, if it has one. -/
def error (protocol : String) (server : Option AuthenticationToml) (t : EgressToml) :
    Option String :=
  if (t.authentication server).isSome then none else some (noServer protocol t)

/-- What it is made into, if it has none. -/
def config (e : Entropy) (make : EgressToml → AuthenticationConfig → EgressId → EgressConfig)
    (server : Option AuthenticationToml) (n : ℕ) (t : EgressToml) : EgressConfig :=
  make t ((t.authentication server).getD default).into (e.idAt .egressId n t.id)

lemma tryInto_eq (e : Entropy) (protocol : String)
    (make : EgressToml → AuthenticationConfig → EgressId → EgressConfig)
    (server : Option AuthenticationToml) (t : EgressToml) (n : ℕ) :
    t.tryInto e protocol (make t) server n =
      .ret ((t.error protocol server).elim (.ok (t.config e make server n)) .error,
        n + t.drawn) := by
  simp only [tryInto, Draw.bind_apply, Entropy.orGenerate_eq, Outcome.bind_ret, error, config,
    drawn]
  cases t.authentication server <;> rfl

lemma error_eq_none_iff {protocol : String} {server : Option AuthenticationToml} {t : EgressToml} :
    t.error protocol server = none ↔ t.authentication server ≠ none := by
  rw [error, ite_eq_left_iff, Option.ne_none_iff_isSome]
  exact ⟨fun h => by_contra fun hn => by simpa using h hn, fun h hn => absurd h hn⟩

end EgressToml

def TcpEgressToml.make (t : TcpEgressToml) (authentication : AuthenticationConfig)
    (id : EgressId) : EgressConfig := .tcp ⟨authentication, id, t.ingressId, t.authKey, t.target⟩

def UdpEgressToml.make (t : UdpEgressToml) (authentication : AuthenticationConfig)
    (id : EgressId) : EgressConfig := .udp ⟨authentication, id, t.ingressId, t.authKey, t.target⟩

def TcpEgressToml.tryInto (e : Entropy) (server : Option AuthenticationToml) (t : TcpEgressToml) :
    Draw (Except String EgressConfig) := EgressToml.tryInto e "TCP" t.make server t

def UdpEgressToml.tryInto (e : Entropy) (server : Option AuthenticationToml) (t : UdpEgressToml) :
    Draw (Except String EgressConfig) := EgressToml.tryInto e "UDP" t.make server t

structure ClientToml where
  server : Option AuthenticationToml
  tcpEgress : List TcpEgressToml
  udpEgress : List UdpEgressToml

namespace ClientToml

variable (e : Entropy) (t : ClientToml)

def tryFrom : Draw (Except String (List EgressConfig)) := do
  match ← Draw.tryCollect (TcpEgressToml.tryInto e t.server) t.tcpEgress with
  | .error msg => pure (.error msg)
  | .ok tcp => do
      match ← Draw.tryCollect (UdpEgressToml.tryInto e t.server) t.udpEgress with
      | .error msg => pure (.error msg)
      | .ok udp => pure (.ok (tcp ++ udp))

/-- The egresses of the file, in the order they are launched. -/
def egresses : List EgressToml := t.tcpEgress ++ t.udpEgress

/-- The ids that the file has for them. -/
def egressIds : List (Option EgressId) := t.egresses.map EgressToml.id

/-- The server of each. -/
def servers : List (Option AuthenticationToml) :=
  t.egresses.map (EgressToml.authentication t.server)

/-- The first error. -/
def error : Option String :=
  (t.tcpEgress.findSome? (EgressToml.error "TCP" t.server)).or
    (t.udpEgress.findSome? (EgressToml.error "UDP" t.server))

/-- The egresses that are made of the file, when so many arrays have been drawn before. -/
def egressConfigs (n : ℕ) : List EgressConfig :=
  Draw.along EgressToml.drawn (EgressToml.config e TcpEgressToml.make t.server) n t.tcpEgress ++
    Draw.along EgressToml.drawn (EgressToml.config e UdpEgressToml.make t.server)
      (n + (t.tcpEgress.map EgressToml.drawn).sum) t.udpEgress

/-- **What comes of a client's file**: its egresses, or the first error. -/
theorem tryFrom_eq (n : ℕ) : ∃ n', t.tryFrom e n =
    .ret (t.error.elim (.ok (t.egressConfigs e n)) .error, n') := by
  obtain ⟨n₁, htcp, hn₁⟩ := Draw.tryCollect_eq
    (EgressToml.tryInto_eq e "TCP" TcpEgressToml.make t.server) n t.tcpEgress
  obtain ⟨n₂, hudp, -⟩ := Draw.tryCollect_eq
    (EgressToml.tryInto_eq e "UDP" UdpEgressToml.make t.server) n₁ t.udpEgress
  cases ht : t.tcpEgress.findSome? (EgressToml.error "TCP" t.server) with
  | some msg =>
      refine ⟨n₁, ?_⟩
      rw [ht] at htcp
      simp only [tryFrom, Draw.bind_apply, error, ht]
      exact (congrArg (Outcome.bind · _) htcp).trans rfl
  | none =>
      refine ⟨n₂, ?_⟩
      rw [ht] at htcp
      have hok : t.tryFrom e n = (Draw.tryCollect (UdpEgressToml.tryInto e t.server) t.udpEgress >>=
          fun r => match r with
            | .error msg => pure (.error msg)
            | .ok udp => pure (.ok (Draw.along EgressToml.drawn
                (EgressToml.config e TcpEgressToml.make t.server) n t.tcpEgress ++ udp))) n₁ :=
        (congrArg (Outcome.bind · _) htcp).trans rfl
      rw [hok, Draw.bind_apply]
      refine (congrArg (Outcome.bind · _) hudp).trans ?_
      simp only [error, ht, Option.none_or, egressConfigs, ← hn₁ ht]
      cases t.udpEgress.findSome? (EgressToml.error "UDP" t.server) <;> rfl

lemma error_eq_none_iff : t.error = none ↔ none ∉ t.servers := by
  simp only [error, Option.or_eq_none_iff, List.findSome?_eq_none_iff, EgressToml.error_eq_none_iff,
    servers, egresses, List.map_append, List.mem_append, List.mem_map, not_or, not_exists, not_and]

/-- What the egresses have of the file. -/
lemma map_egressConfigs {β : Type} (n : ℕ) {f : EgressConfig → β} {g : EgressToml → β}
    (htcp : ∀ n egress, f (EgressToml.config e TcpEgressToml.make t.server n egress) = g egress)
    (hudp : ∀ n egress, f (EgressToml.config e UdpEgressToml.make t.server n egress) = g egress) :
    (t.egressConfigs e n).map f = t.egresses.map g := by
  simp only [egressConfigs, egresses, List.map_append, Draw.map_along, htcp, hudp,
    Draw.along_const]

lemma map_id_egressConfigs (n : ℕ) :
    (t.egressConfigs e n).map EgressConfig.id = e.ids .egressId n t.egressIds := by
  rw [egressConfigs, List.map_append, Draw.map_along, Draw.map_along, Entropy.ids, egressIds,
    egresses, Draw.along_map, Draw.along_append]
  rfl

/-- The servers that the egresses connect to. -/
lemma forall_authentication_iff {P : AuthenticationConfig → Prop} (n : ℕ) (hs : none ∉ t.servers) :
    (∀ config ∈ t.egressConfigs e n, P config.authenticationConfig) ↔
      ∀ server, some server ∈ t.servers → P server.into := by
  have hmap : (t.egressConfigs e n).map EgressConfig.authenticationConfig =
      t.servers.map fun server => (server.getD default).into := by
    rw [t.map_egressConfigs e n (fun _ _ => rfl) (fun _ _ => rfl), servers, List.map_map]
    rfl
  have hall : (∀ config ∈ t.egressConfigs e n, P config.authenticationConfig) ↔
      ∀ server ∈ (t.egressConfigs e n).map EgressConfig.authenticationConfig, P server := by
    rw [List.forall_mem_map]
  rw [hall, hmap, List.forall_mem_map]
  refine ⟨fun h server hserver => h _ hserver, fun h server hserver => ?_⟩
  cases server with
  | none => exact absurd hserver hs
  | some server => exact h server hserver

/-- The targets that they are for. -/
lemma forall_target_iff {P : String → Prop} (n : ℕ) :
    (∀ config ∈ t.egressConfigs e n, P config.target) ↔ ∀ egress ∈ t.egresses, P egress.target := by
  have hmap : (t.egressConfigs e n).map EgressConfig.target =
      t.egresses.map fun egress => egress.target :=
    t.map_egressConfigs e n (fun _ _ => rfl) (fun _ _ => rfl)
  rw [← List.forall_mem_map (f := EgressConfig.target) (P := P), hmap, List.forall_mem_map]

end ClientToml

end Siffleux
