import Siffleux.Foundation.Buffer
import Siffleux.Foundation.Framing
import Siffleux.Foundation.FramedRead
import Siffleux.Foundation.Transition
import Siffleux.Foundation.Progress
import Siffleux.Foundation.Registry
import Siffleux.Foundation.Copy
import Siffleux.Foundation.Relay
import Siffleux.Foundation.Unreliable
import Siffleux.Foundation.Rotation
import Siffleux.Foundation.Forest
import Siffleux.Foundation.Base64
import Siffleux.Common.ByteCounter
import Siffleux.Common.Frames.V1
import Siffleux.Common.Frames.RoundTrip
import Siffleux.Common.Frames.Lengths
import Siffleux.Common.Frames.Acceptance
import Siffleux.Common.Frames.Decisions
import Siffleux.Common.Frames.Datagram
import Siffleux.Common.Tunnel
import Siffleux.Common.Protocols.V1
import Siffleux.Common.Protocols.HalfClose
import Siffleux.Common.Protocols.TunnelLoss
import Siffleux.Server.Protocols.V1
import Siffleux.Server.Server
import Siffleux.Server.Stop
import Siffleux.Server.AccessControl
import Siffleux.Server.Assignment
import Siffleux.Server.Ingress.TunnelList
import Siffleux.Server.Ingress.TcpIngress
import Siffleux.Server.Ingress.UdpIngress
import Siffleux.Server.Ingress.LoadBalancing
import Siffleux.Server.Ingress.RoundRobin
import Siffleux.Server.Ingress.UdpReader
import Siffleux.Server.Ingress.Restart
import Siffleux.Server.Ingress.Listening
import Siffleux.Client.Protocols.V1
import Siffleux.Client.Egress.UdpFlows
import Siffleux.Client.Egress.UdpTunnel
import Siffleux.Client.Egress.FlowTable
import Siffleux.Client.Egress.FlowOrder
import Siffleux.Client.Egress.Sockets
import Siffleux.Client.Egress.Lifecycle
import Siffleux.Client.Egress.Modes
import Siffleux.Client.Egress.Backoff
import Siffleux.Client.Egress.Published
import Siffleux.Client.Egress.Progress
import Siffleux.Client.Client
import Siffleux.EndToEnd.Datagrams
import Siffleux.EndToEnd.WholeDatagrams
import Siffleux.EndToEnd.UdpPath
import Siffleux.EndToEnd.TcpPath
import Siffleux.EndToEnd.SilentOrigin
import Siffleux.EndToEnd.CommandStream
import Siffleux.EndToEnd.EndOfStream
import Siffleux.EndToEnd.Delivery
import Siffleux.EndToEnd.Handshake
import Siffleux.EndToEnd.KeepAlive.CommandEnd
import Siffleux.EndToEnd.KeepAlive.Backlog
import Siffleux.EndToEnd.KeepAlive.Serving
import Siffleux.EndToEnd.KeepAlive
import Siffleux.EndToEnd.Confinement
import Siffleux.EndToEnd.ReadBuffers
import Siffleux.Cli.SiffleuxConfig
import Siffleux.Cli.Client
import Siffleux.Cli.Client.Phases
import Siffleux.Cli.Client.Launch
import Siffleux.Cli.Client.Shutdown
import Siffleux.Cli.Server
import Siffleux.Cli.Server.Ingresses
import Siffleux.Cli.Server.Launch
import Siffleux.Cli.Server.Shutdown
import Siffleux.Cli.Certificate
import Siffleux.Cli.TomlConfig
import Siffleux.Cli.Main
