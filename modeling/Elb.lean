import Elb.Common.Transition
import Elb.Common.Fifo
import Elb.Common.Versions
import Elb.Common.Containers
import Elb.Common.Pack
import Elb.Common.Proto
import Elb.Common.Overwrite
import Elb.Common.Queue
import Elb.Common.Counting
import Elb.Common.EditLog
import Elb.Common.Scanf
import Elb.Common.TextFile
import Elb.Common.Protobuf
import Elb.Common.ProtobufParse
import Elb.Lbagent.LbConfigure
import Elb.Lbagent.HostInfo
import Elb.Lbagent.Lb
import Elb.Lbagent.LbInvariant
import Elb.Lbagent.LbUpdate
import Elb.Lbagent.HostView
import Elb.Lbagent.LbRun
import Elb.Lbagent.UpdateOrder
import Elb.Lbagent.Batches
import Elb.Lbagent.Scheduling
import Elb.Lbagent.ProbeRate
import Elb.Lbagent.RoundRobin
import Elb.Lbagent.RouteLb
import Elb.Lbagent.RouteLbInvariant
import Elb.Lbagent.Isolation
import Elb.Lbagent.Pacing
import Elb.Lbagent.AgentSafety
import Elb.Lbagent.ReplyLoop
import Elb.Lbagent.Judgement
import Elb.Lbagent.Conservation
import Elb.Lbagent.DssClient
import Elb.Lbagent.Hysteresis
import Elb.Lbagent.TimeLimits
import Elb.Lbagent.Windows
import Elb.Lbagent.HeartBeat
import Elb.Lbagent.LeftOver
import Elb.Api.CacheLayer
import Elb.Api.ElbClient
import Elb.Api.ReportOrder
import Elb.Api.CacheCoherence
import Elb.Api.Shard
import Elb.Api.LateReply
import Elb.Api.NodeList
import Elb.Api.SkipLoop
import Elb.Api.PythonClient
import Elb.Api.StaticRoute
import Elb.Api.DamagedFile
import Elb.Api.PyStaticRoute
import Elb.Api.BatchSize
import Elb.Api.CacheCounters
import Elb.Api.CacheTurns
import Elb.Api.PyClient
import Elb.Api.PyReportOrder
import Elb.Api.ClientsAgree
import Elb.Dnsserver.Route
import Elb.Dnsserver.ChangeLog
import Elb.Dnsserver.SubscribeList
import Elb.Dnsserver.Server
import Elb.Dnsserver.Subscription
import Elb.Dnsserver.StalePush
import Elb.Dnsserver.Snapshot
import Elb.Dnsserver.Announced
import Elb.Dnsserver.Recovery
import Elb.Dnsserver.Delivery
import Elb.Dnsserver.Interest
import Elb.Dnsserver.PushedModule
import Elb.Reporter.CallStatis
import Elb.Reporter.Columns
import Elb.Reporter.RowOrder
import Elb.Wire.Messages
import Elb.Wire.Packets
import Elb.Wire.Handlers
import Elb.Deployment.Hosts
import Elb.Deployment.Provenance
import Elb.Deployment.Convergence
import Elb.Deployment.Freshness
import Elb.Deployment.Statistics
import Elb.Deployment.StaticHosts
