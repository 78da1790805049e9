import P2Proxy.Interaction.Prog
import P2Proxy.Interaction.Obeys
import P2Proxy.Interaction.Run
import P2Proxy.Interaction.Mru
import P2Proxy.Interaction.Joined
import P2Proxy.Interaction.Sweep
import P2Proxy.Interaction.Mirror
import P2Proxy.Interaction.Cut
import P2Proxy.Interaction.Best
import P2Proxy.Multiaddr
import P2Proxy.Backoff
import P2Proxy.Config
import P2Proxy.Sticky
import P2Proxy.Fingerprint
import P2Proxy.StickyRuns
import P2Proxy.Ports
import P2Proxy.Connect
import P2Proxy.ConnectCalls
import P2Proxy.Reach
import P2Proxy.ConnectRules
import P2Proxy.StickyConnect
import P2Proxy.PinnedConnect
import P2Proxy.AskedPeer
import P2Proxy.Discovery
import P2Proxy.DiscoveryRules
import P2Proxy.PortView
import P2Proxy.Turns
import P2Proxy.Rediscovery
import P2Proxy.DarkPort
import P2Proxy.RateLimit
import P2Proxy.Network
import P2Proxy.Dials
import P2Proxy.HubLink
import P2Proxy.Links
import P2Proxy.DirectPeers
import P2Proxy.Socks
import P2Proxy.Transcript
import P2Proxy.Ui
import P2Proxy.Announcements
import P2Proxy.UiMirror
import P2Proxy.FileSticky
import P2Proxy.CrashSafety
import P2Proxy.StableExit
import P2Proxy.HardPin
import P2Proxy.LiveExit
import P2Proxy.RelayStandby
import P2Proxy.Unusable
import P2Proxy.EntryText
import P2Proxy.Interaction.StableSort
import P2Proxy.Rows
import P2Proxy.PortFrames
import P2Proxy.Attempts
import P2Proxy.Circuits
import P2Proxy.Candidates
import P2Proxy.Dropped
import P2Proxy.Resolving
import P2Proxy.Startup
import P2Proxy.NoAffinity
import P2Proxy.NetworkView
import P2Proxy.GrpcDomain
import P2Proxy.Interaction.Budget
import P2Proxy.Effort
import P2Proxy.Interaction.Once
import P2Proxy.Interaction.Threads
import P2Proxy.Sessions
import P2Proxy.Requests
import P2Proxy.Records
import P2Proxy.Interaction.Held
import P2Proxy.Interface
import P2Proxy.Selections
import P2Proxy.Provenance
import P2Proxy.Interaction.Followed
import P2Proxy.ExitSystem
import P2Proxy.ExitLinks
import P2Proxy.Requirements
