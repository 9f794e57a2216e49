import Ferrite.Lib.Table
import Ferrite.Lib.Staged
import Ferrite.Lib.Mealy
import Ferrite.Core.Net
import Ferrite.Dhcp.Message
import Ferrite.Dhcp.Lease
import Ferrite.Dhcp.Handler
import Ferrite.Dhcp.Uniqueness
import Ferrite.Dhcp.Offers
import Ferrite.Dhcp.Server
import Ferrite.Dhcp.Stored
import Ferrite.Lib.Lts
import Ferrite.Lib.Lru
import Ferrite.Lib.Threads
import Ferrite.Core.Text
import Ferrite.Core.Addr
import Ferrite.Core.Utf8
import Ferrite.Blocklist.Names
import Ferrite.Blocklist.CacheFiles
import Ferrite.Blocklist.Engine
import Ferrite.Blocklist.Coherence
import Ferrite.Lib.Bytes
import Ferrite.Core.Wire
import Ferrite.Core.Walk
import Ferrite.Dns.Message
import Ferrite.Dns.Cache
import Ferrite.Dns.Sanitize
import Ferrite.Dns.Answers
import Ferrite.Dns.Custom
import Ferrite.Dns.Gate
import Ferrite.Dns.Handler
import Ferrite.Dns.Ttl
import Ferrite.Api.Sessions
import Ferrite.Upstream.Router
import Ferrite.App.State
import Ferrite.Api.Paths
import Ferrite.Api.Settings
import Ferrite.Api.Update
import Ferrite.Api.Live
import Ferrite.Dns.Accounting
import Ferrite.Storage.Types
import Ferrite.App.Snapshot
import Ferrite.Clients.Bindings
import Ferrite.Blocklist.Gating
import Ferrite.Blocklist.PauseSteps
import Ferrite.Blocklist.Profiles
import Ferrite.Blocklist.Rebuilds
import Ferrite.Lib.FirstMatch
import Ferrite.Blocklist.Precedence
import Ferrite.Blocklist.Explain
import Ferrite.Blocklist.Refresh
import Ferrite.Blocklist.Merged
import Ferrite.Blocklist.ProfileLists
import Ferrite.Blocklist.Parser
import Ferrite.Proxy.Intercept
import Ferrite.Proxy.Rules
import Ferrite.Proxy.Routing
import Ferrite.Proxy.Peek
import Ferrite.Api.CustomRecords
import Ferrite.Api.RecordCopies
import Ferrite.App.ConfigFile
import Ferrite.Api.Sync
import Ferrite.Api.SyncRuns
import Ferrite.Dns.Lifetimes
import Ferrite.Dns.Cloaking
import Ferrite.App.Spelling
import Ferrite.Lib.Rows
import Ferrite.Storage.Memory
import Ferrite.Storage.Sqlite
import Ferrite.Storage.Mirror
import Ferrite.Storage.Writes
import Ferrite.Storage.Interchange
import Ferrite.Lib.TokenBucket
import Ferrite.Dns.RateLimit
import Ferrite.Blocklist.Stream
import Ferrite.Lib.Frames
import Ferrite.Upstream.Streams
import Ferrite.Stats.Recording
import Ferrite.Lib.Tlv
import Ferrite.Dhcp.Wire
import Ferrite.Dhcp.Replies
import Ferrite.Api.Devices
import Ferrite.Dns.Ech
import Ferrite.Lib.Incremental
import Ferrite.Proxy.ProxyHeader
import Ferrite.Proxy.Arrival
import Ferrite.Proxy.FailClosed
import Ferrite.Secure.Requests
import Ferrite.Secure.Connections
import Ferrite.Secure.Strangers
import Ferrite.Dns.UdpBatch
import Ferrite.Lib.Lane
import Ferrite.Proxy.Relay
import Ferrite.Core.TtlRewrites
import Ferrite.Dns.CacheTtl
import Ferrite.Dns.Invented
import Ferrite.Dns.Truncation
import Ferrite.Dns.DnssecBit
import Ferrite.Dns.CacheKeys
import Ferrite.Dns.StaleWindow
import Ferrite.Blocklist.Walks
import Ferrite.Lib.Chunks
import Ferrite.Blocklist.DomainSet
import Ferrite.Blocklist.ListNames
import Ferrite.Blocklist.AdblockRules
import Ferrite.Blocklist.TextCache
import Ferrite.Blocklist.ManualEntries
import Ferrite.Lib.Paging
import Ferrite.Storage.QueryPages
import Ferrite.Stats.Shares
import Ferrite.Proxy.Alerts
import Ferrite.Lib.Hops
import Ferrite.Proxy.SplitPoint
import Ferrite.Core.AddrText
import Ferrite.Upstream.ZoneRouter
import Ferrite.Blocklist.Schedules
import Ferrite.Lib.Best
import Ferrite.Stats.TopList
import Ferrite.Lib.Loops
import Ferrite.Dns.Walkers
import Ferrite.Core.Ipv6Text
import Ferrite.Core.ClientKey
import Ferrite.Core.Networks
import Ferrite.Proxy.PassedOn
import Ferrite.Lib.Statements
import Ferrite.Proxy.WireGuardConf
import Ferrite.Lib.LittleEndian
import Ferrite.Api.Zip
import Ferrite.Secure.Dot
import Ferrite.Secure.DotRuns
import Ferrite.Dns.TcpServer
import Ferrite.Lib.Dialogue
import Ferrite.Proxy.Socks5
import Ferrite.Clients.NewDevices
import Ferrite.Lib.Expiring
import Ferrite.Proxy.TunnelDns
import Ferrite.Dns.UdpServer
import Ferrite.Upstream.Pool
import Ferrite.Proxy.WgBridge
import Ferrite.Core.Handover
import Ferrite.Stats.Window
