import Elb.Common.Pack

/-!
# The messages of `elb.proto`

One structure for each message that agent, clients and servers exchange, with the fields and wire
types of the file. `int64` versions are seconds of wall-clock time and are unbounded integers here.
-/

namespace Elb

/-- A remote node. -/
structure HostAddr where
  ip : Int32
  port : Int32
deriving DecidableEq, Repr

/-- The key of a node in every host table. -/
def HostAddr.key (h : HostAddr) : UInt64 := packKey h.ip h.port

/-- A host is found under its own key only. -/
theorem HostAddr.key_inj {h h' : HostAddr} (heq : h.key = h'.key) : h = h' := by
  obtain ⟨hip, hport⟩ := packKey_inj heq
  cases h
  cases h'
  simp_all

/-- API gets a host from the agent. -/
structure GetHostReq where
  seq : UInt32
  modid : Int32
  cmdid : Int32
deriving DecidableEq, Repr

/-- The agent gives a host to the API. -/
structure GetHostRsp where
  seq : UInt32
  modid : Int32
  cmdid : Int32
  retcode : Int32
  host : Option HostAddr
deriving DecidableEq, Repr

/-- API reports one call result to the agent. -/
structure ReportReq where
  modid : Int32
  cmdid : Int32
  host : HostAddr
  retcode : Int32
  tcost : Option UInt32
deriving DecidableEq, Repr

/-- The agent asks dnsserver, or a tool asks the agent, for a route. -/
structure GetRouteReq where
  modid : Int32
  cmdid : Int32
deriving DecidableEq, Repr

/-- dnsserver gives a route to the agent, or the agent to a tool. -/
structure GetRouteRsp where
  modid : Int32
  cmdid : Int32
  hosts : List HostAddr
deriving DecidableEq, Repr

/-- The counters of one host in a report of the agent. -/
structure HostCallResult where
  ip : Int32
  port : Int32
  succ : UInt32
  err : UInt32
  overload : Bool
deriving DecidableEq, Repr

/-- The agent reports the load of a module to the reporter. -/
structure ReportStatusReq where
  modid : Int32
  cmdid : Int32
  caller : Int32
  results : List HostCallResult
  ts : UInt32
deriving DecidableEq, Repr

/-- API cache asks the agent for a route, or for its refresh; `version` is `-1` the first time. -/
structure CacheGetRouteReq where
  modid : Int32
  cmdid : Int32
  version : ℤ
deriving DecidableEq, Repr

/-- The agent's answer to the API cache; `version` is `-1` when the agent has no such module, and
the optional `overload` reads as `false` when it is not set. -/
structure CacheGetRouteRsp where
  modid : Int32
  cmdid : Int32
  version : ℤ
  overload : Bool
  route : List HostAddr
deriving DecidableEq, Repr

/-- The successes of one host in a batch. -/
structure HostBatchCallRes where
  ip : Int32
  port : Int32
  succCnt : UInt32
deriving DecidableEq, Repr

/-- API cache reports pending successes to the agent. -/
structure CacheBatchRptReq where
  modid : Int32
  cmdid : Int32
  results : List HostBatchCallRes
deriving DecidableEq, Repr

/-! ## Datagrams between API and agent

The header of a datagram carries the message id that a constructor stands for.
-/

/-- A datagram from API to the agent. -/
inductive AgentReq
  | getHost (req : GetHostReq)
  | report (req : ReportReq)
  | getRouteByTool (req : GetRouteReq)
  | cacheGetRoute (req : CacheGetRouteReq)
  | cacheBatchRpt (req : CacheBatchRptReq)
deriving DecidableEq, Repr

/-- A datagram from the agent to API. -/
inductive AgentRsp
  | getHost (rsp : GetHostRsp)
  | getRouteByTool (rsp : GetRouteRsp)
  | cacheGetRoute (rsp : CacheGetRouteRsp)
deriving DecidableEq, Repr

end Elb
