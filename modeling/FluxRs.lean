import FluxRs.Lib.BinSearch
import FluxRs.Lib.Lpm
import FluxRs.Lib.Bytes
import FluxRs.Lib.Run
import FluxRs.Lib.Assoc
import FluxRs.Lib.Json
import FluxRs.Lib.Toml
import FluxRs.Lib.Words
import FluxRs.Lib.Checked
import FluxRs.Lib.Traced
import FluxRs.Lib.Circular
import FluxRs.Lib.Fallible
import FluxRs.Lib.Percent
import FluxRs.Lib.Boundary
import FluxRs.Lib.Crc
import FluxRs.Lib.Decimal
import FluxRs.Lib.Split
import FluxRs.Lib.Gregorian
import FluxRs.Lib.Base64
import FluxRs.Lib.Sha256
import FluxRs.Lib.Directory
import FluxRs.Lib.Keyed
import FluxRs.Lib.Slices
import FluxRs.Lib.Carry
import FluxRs.Net.Cidr
import FluxRs.Net.Epoch
import FluxRs.Net.Text
import FluxRs.Net.TextRoundTrip
import FluxRs.Kmod.Uapi
import FluxRs.Kmod.Bypass
import FluxRs.Kmod.Refine
import FluxRs.Kmod.Hook
import FluxRs.Kmod.HookSpec
import FluxRs.Kmod.Reserved
import FluxRs.Dataplane.SelfAddr
import FluxRs.Dataplane.Recency
import FluxRs.Dataplane.Manager
import FluxRs.Dataplane.Ledger
import FluxRs.Dataplane.Apply
import FluxRs.Dataplane.Plane
import FluxRs.Dataplane.Commits
import FluxRs.Dataplane.Arming
import FluxRs.Dataplane.Running
import FluxRs.Dataplane.EndToEnd
import FluxRs.Bpf.Packet
import FluxRs.Bpf.Bounds
import FluxRs.Bpf.CapCore
import FluxRs.Bpf.Ingress
import FluxRs.Bpf.Object
import FluxRs.Bpf.ObjectSafety
import FluxRs.Bpf.Relocation
import FluxRs.Bpf.Ringbuf
import FluxRs.Bpf.FaultRing
import FluxRs.Bpf.Admission
import FluxRs.Bpf.Sockets
import FluxRs.Bpf.Summary
import FluxRs.Nodes.Refine
import FluxRs.Nodes.Sources
import FluxRs.Nodes.Parse
import FluxRs.Nodes.Assemble
import FluxRs.Nodes.Uri
import FluxRs.Nodes.Bridge
import FluxRs.Nodes.Downgrade
import FluxRs.Nodes.Generate
import FluxRs.Nodes.Effective
import FluxRs.Nodes.Filled
import FluxRs.Nodes.Jsonc
import FluxRs.Nodes.Closed
import FluxRs.Netlink.Wire
import FluxRs.Netlink.RoundTrip
import FluxRs.Netlink.Dump
import FluxRs.Netlink.Probe
import FluxRs.Netlink.Destroy
import FluxRs.Netlink.Objects
import FluxRs.Netlink.Dumped
import FluxRs.Netlink.Fields
import FluxRs.Dataplane.Cleanup
import FluxRs.Dataplane.CleanupSafe
import FluxRs.Dataplane.OwnedWire
import FluxRs.Migration.Prepare
import FluxRs.Migration.Candidate
import FluxRs.Migration.Moves
import FluxRs.Migration.Migrated
import FluxRs.Migration.Retry
import FluxRs.Migration.Install
import FluxRs.Migration.Backups
import FluxRs.Daemon.Checks
import FluxRs.Daemon.Prefixes
import FluxRs.Daemon.Planner
import FluxRs.Daemon.Subscription
import FluxRs.Daemon.Cache
import FluxRs.Daemon.Reactor
import FluxRs.Daemon.Events
import FluxRs.Daemon.Invariant
import FluxRs.Daemon.Convergence
import FluxRs.Daemon.Capture
import FluxRs.Daemon.PlannerMemory
import FluxRs.Daemon.Operations
import FluxRs.Daemon.Watch
import FluxRs.Daemon.Compatible
import FluxRs.Daemon.Machine
import FluxRs.Daemon.Simulation
import FluxRs.Daemon.Children
import FluxRs.Daemon.Files
import FluxRs.Daemon.Generations
import FluxRs.Daemon.Sources
import FluxRs.Daemon.Queue
import FluxRs.Daemon.Supervisor
import FluxRs.Daemon.Sessions
import FluxRs.Daemon.Exchanges
import FluxRs.Daemon.Deadlines
import FluxRs.Apps.Selector
import FluxRs.Logging.Logger
import FluxRs.Logging.Rotation
import FluxRs.Bugreport.Redact
import FluxRs.Bugreport.Urls
import FluxRs.Bugreport.Assignments
import FluxRs.Bugreport.Secrets
import FluxRs.Bugreport.Marks
import FluxRs.Bugreport.Members
import FluxRs.Bugreport.Bytes
import FluxRs.Bugreport.Carried
import FluxRs.Bugreport.Tokens
import FluxRs.Bugreport.Addresses
import FluxRs.Nodes.Shadowsocks
import FluxRs.Nodes.Digest
import FluxRs.Daemon.SourceFiles
import FluxRs.Daemon.CacheRuns
import FluxRs.Daemon.CacheRefine
import FluxRs.Daemon.EffectiveFiles
import FluxRs.Release.Version
import FluxRs.Release.Status
import FluxRs.Release.Gki
import FluxRs.Release.Modinfo
import FluxRs.Release.Dates
import FluxRs.Release.Archive
