import Hnc.Json.Commands
import Hnc.Lib.ReadModifyWrite
import Hnc.Net.Counters
import Hnc.Net.MarkChain
import Hnc.Net.Whitelist
import Hnc.Net.V6Converge
import Hnc.Stats.Credit
import Hnc.Service.Watchdog
import Hnc.Json.Writers
import Hnc.Service.RestoreReader
import Hnc.Service.Lock
import Hnc.Service.Restore
import Hnc.Json.HncJsonScan
import Hnc.Json.HncJsonEdit
import Hnc.Json.SafeWriterScan
import Hnc.Json.SafeWriterEdit
import Hnc.Daemon.HncHelpers
import Hnc.Daemon.DeviceNames
import Hnc.Lib.JsonSearch
import Hnc.Json.RulesFile
import Hnc.Json.RulesSearch
import Hnc.Json.DeviceWrites
import Hnc.Service.RestoreReads
import Hnc.Service.RestorePasses
import Hnc.Service.RestoreMacs
import Hnc.Service.RestoreRoundTrip
import Hnc.Rules.ApplyDeviceRule
import Hnc.Rules.Blacklist
import Hnc.Rules.MarkAllocation
import Hnc.Rules.MarkOwners
import Hnc.Httpd.Pairing
import Hnc.Httpd.PairingOnce
import Hnc.Httpd.PinEffects
import Hnc.Httpd.PinGuesses
import Hnc.Httpd.RateLimitGc
import Hnc.Httpd.TokensCoherence
import Hnc.Httpd.TokensDeletion
import Hnc.Httpd.TokensLastSeen
import Hnc.Service.LockReclaim
import Hnc.Json.HncJsonLock
import Hnc.Net.TcActionLock
import Hnc.Json.GuardGrammar
import Hnc.Json.FlatStore
import Hnc.Json.DeviceStore
import Hnc.Json.WriterAgreement
import Hnc.Json.GetterAnswers
import Hnc.Daemon.Scheduler
import Hnc.Daemon.Offload
import Hnc.Daemon.MdnsAnswers
import Hnc.Daemon.RebuildDevices
import Hnc.Json.Settings
import Hnc.Httpd.TokensPrune
import Hnc.Daemon.DeviceTable
import Hnc.Daemon.DeviceTableMap
import Hnc.Daemon.DeviceTableReuse
import Hnc.Lib.BigEndian
import Hnc.Lib.Bpf
import Hnc.Dpid.Parse
import Hnc.Dpid.Filter
import Hnc.Httpd.Middleware
import Hnc.Lib.Double
import Hnc.Stats.TodayChart
import Hnc.Net.TcKnobs
import Hnc.Net.TcIndependence
import Hnc.Net.TcShaping
import Hnc.Daemon.WriteJson
import Hnc.Daemon.DevicesSearch
import Hnc.Service.OwnIp
import Hnc.Daemon.BlacklistScan
import Hnc.Httpd.BlockedFlags
import Hnc.Lib.ByteText
import Hnc.Daemon.NameSources
import Hnc.Lib.JsonBytes
import Hnc.Daemon.DevicesJson
import Hnc.Daemon.DevicesJsonRuns
import Hnc.Httpd.TokensFailures
import Hnc.Daemon.GlobalSweep
import Hnc.Daemon.JsonEscape
import Hnc.Lib.KeyedSlots
import Hnc.Daemon.HostnameCache
import Hnc.Lib.Loops
import Hnc.Daemon.HostnameCacheFile
import Hnc.Daemon.HostnameCacheReload
import Hnc.Lib.RingBuffer
import Hnc.Daemon.MdnsWorker
import Hnc.Lib.Buffers
import Hnc.Daemon.MdnsResolve
import Hnc.Daemon.MdnsEncode
import Hnc.Daemon.MdnsSafety
import Hnc.Daemon.MdnsResponses
import Hnc.Daemon.OuiLabels
import Hnc.Daemon.OuiLoad
import Hnc.Lib.OrderedSet
import Hnc.Json.StringArrays
import Hnc.Json.HncJsonC
import Hnc.Lib.AwkNumber
import Hnc.Httpd.ValidateRate
import Hnc.Httpd.RateToMbps
import Hnc.Lib.SlidingWindow
import Hnc.Httpd.WriteLimit
import Hnc.Lib.TokenBucket
import Hnc.Httpd.RateLimitBuckets
import Hnc.Httpd.RateLimitShared
import Hnc.Lib.FirstKeys
import Hnc.Httpd.DeviceList
import Hnc.Httpd.DeviceRows
import Hnc.Httpd.DeviceJoin
import Hnc.Json.DeviceFields
import Hnc.Rules.LimitRollback
import Hnc.Httpd.DelaySet
import Hnc.Stats.TrueHistory
import Hnc.Lib.JsonStrings
import Hnc.Lib.GrepSed
import Hnc.Stats.RollupNames
import Hnc.Stats.DailyLines
import Hnc.Stats.RollupReruns
import Hnc.Json.Templates
import Hnc.Dpid.FilterSpec
import Hnc.Dpid.DnsAnswers
import Hnc.Dpid.ClientHello
import Hnc.Lib.CheckedSlices
import Hnc.Dpid.ParseSafety
import Hnc.Lib.OldestFirst
import Hnc.Lib.Tallies
import Hnc.Dpid.Writer
import Hnc.Dpid.WriterTables
import Hnc.Dpid.WriterMemory
import Hnc.Lib.SortSlice
import Hnc.Dpid.Flush
import Hnc.Dpid.WriterProfiles
import Hnc.Httpd.RatePolls
import Hnc.Lib.JsonArrays
import Hnc.Json.HncJsonCWrites
import Hnc.Json.HncJsonCArrays
import Hnc.Json.HelperAgreement
import Hnc.Httpd.Audit
import Hnc.Httpd.Actions
import Hnc.Httpd.HandleAction
import Hnc.Dpid.Launcher
import Hnc.Dpid.CrashLoop
import Hnc.Service.RestoreWindow
import Hnc.Net.UndoRules
import Hnc.Stats.ShadowRollup
import Hnc.Stats.ShadowCredit
import Hnc.Lib.QuotedWords
import Hnc.Daemon.DetectCache
import Hnc.Daemon.DetectScan
import Hnc.Daemon.DetectEntries
import Hnc.Daemon.DetectMerge
import Hnc.Daemon.DetectBlacklist
import Hnc.Daemon.DetectReport
import Hnc.Daemon.DetectRuns
import Hnc.Lib.Netlink
import Hnc.Net.TcIngress
