import Siffleux.Common.Frames.Datagram
import Siffleux.Common.Text

/-!
# The configuration

`siffleux-cli/src/siffleux_config.rs`: what the two programs are launched with, and the defaults.
A `PathBuf` is its text.
-/

namespace Siffleux

/-- `std::net::IpAddr`. -/
inductive IpAddr where
  | v4 (ip : Ipv4Addr)
  | v6 (ip : Ipv6Addr)
  deriving DecidableEq, Repr

/-- `SocketAddr::new`. -/
def SocketAddr.new : IpAddr → UInt16 → SocketAddr
  | .v4 ip, port => .v4 ip port
  | .v6 ip, port => .v6 ip port 0 0

/-- `Ipv4Addr::UNSPECIFIED`. -/
def Ipv4Addr.unspecified : Ipv4Addr := ⟨Vector.replicate 4 0⟩

def defaultServerIp : IpAddr := .v4 .unspecified
def defaultServerPort : UInt16 := 8765
def defaultServerTlsSubjectAltName : String := "self-host.siffleux.dev"
def defaultServerTlsCertificateFile : String := "siffleux-cert.pem"
def defaultServerTlsPrivateKeyFile : String := "siffleux-key.pem"
def defaultIngressIp : IpAddr := .v4 .unspecified

/-! ## The server's -/

structure TlsConfig where
  certPemPath : String
  keyPemPath : String
  certSubjectAltName : String
  deriving DecidableEq

/-- The `TlsConfig` of a server that is given none. -/
def defaultTls : TlsConfig where
  certPemPath := defaultServerTlsCertificateFile
  keyPemPath := defaultServerTlsPrivateKeyFile
  certSubjectAltName := defaultServerTlsSubjectAltName

structure ServerConfig where
  id : ServerId
  clientAddr : SocketAddr
  tls : TlsConfig
  deriving DecidableEq

structure TcpIngressConfig where
  addr : SocketAddr
  id : IngressId
  authKey : AuthKey
  deriving DecidableEq

structure UdpIngressConfig where
  addr : SocketAddr
  id : IngressId
  authKey : AuthKey
  deriving DecidableEq

inductive IngressConfig where
  | tcp (config : TcpIngressConfig)
  | udp (config : UdpIngressConfig)
  deriving DecidableEq

namespace IngressConfig

def id : IngressConfig → IngressId
  | tcp config => config.id
  | udp config => config.id

def authKey : IngressConfig → AuthKey
  | tcp config => config.authKey
  | udp config => config.authKey

end IngressConfig

/-! ## The client's -/

structure AuthenticationConfig where
  server : String
  certHash : String
  certSubjectAltName : String
  deriving DecidableEq

structure TcpEgressConfig where
  authenticationConfig : AuthenticationConfig
  id : EgressId
  ingressId : IngressId
  authKey : AuthKey
  target : String
  deriving DecidableEq

structure UdpEgressConfig where
  authenticationConfig : AuthenticationConfig
  id : EgressId
  ingressId : IngressId
  authKey : AuthKey
  target : String
  deriving DecidableEq

inductive EgressConfig where
  | tcp (config : TcpEgressConfig)
  | udp (config : UdpEgressConfig)
  deriving DecidableEq

namespace EgressConfig

def id : EgressConfig → EgressId
  | tcp config => config.id
  | udp config => config.id

def authenticationConfig : EgressConfig → AuthenticationConfig
  | tcp config => config.authenticationConfig
  | udp config => config.authenticationConfig

def target : EgressConfig → String
  | tcp config => config.target
  | udp config => config.target

def certHash (config : EgressConfig) : String := config.authenticationConfig.certHash

end EgressConfig

end Siffleux
