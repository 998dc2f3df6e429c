import Elb.Common.Containers
import Elb.Common.Proto

/-!
# The cache of an API client

Reference: `api/cpp/elbApi/cacheLayer.h`, `api/cpp/elbApi/cacheLayer.cc`, and
`elbClient::batchReportRes` in `api/cpp/elbApi/elbApi.cc`.

A cached module holds its nodes in round-robin order and, for each of them, the successes that the
agent has not been told yet.
-/

namespace Elb

/-- `struct CacheUnit`, the cache of one module. A node is the pair of its ip and port. `succCnt` is
a 64-bit total that no run can wrap around. -/
structure CacheUnit where
  modid : Int32
  cmdid : Int32
  overload : Bool
  lstUpdTs : ℤ
  version : ℤ
  succCnt : ℕ
  nodeList : List HostAddr
  succAccum : HashMap UInt64 UInt32

namespace CacheUnit

/-- `CacheUnit::getHost`: the first node, which goes to the tail; `front()` needs one. -/
def getHost (cu : CacheUnit) : Option (HostAddr × CacheUnit) :=
  match cu.nodeList with
  | [] => none
  | host :: rest => some (host, { cu with nodeList := rest ++ [host] })

/-- `CacheUnit::report`: a success is kept for a node that has an accumulator. -/
def report (host : HostAddr) (cu : CacheUnit) : CacheUnit :=
  match cu.succAccum.lookup host.key with
  | some n =>
    { cu with succAccum := cu.succAccum.insert host.key (n + 1), succCnt := cu.succCnt + 1 }
  | none => cu

/-- The entries of a batch: the nodes with pending successes, taken apart from their keys. -/
def pendingResults (cu : CacheUnit) : List HostBatchCallRes :=
  cu.succAccum.entries.filterMap fun e =>
    if e.2 = 0 then none else some ⟨unpackHi e.1, unpackLo e.1, e.2⟩

/-- `elbClient::batchReportRes`: the batch sent to the agent, if any success is pending. -/
def batchReportRes (cu : CacheUnit) : CacheUnit × List AgentReq :=
  if cu.succCnt = 0 then
    (cu, [])
  else
    ({ cu with succCnt := 0, succAccum := cu.succAccum.mapVal fun _ => 0 },
      [.cacheBatchRpt ⟨cu.modid, cu.cmdid, cu.pendingResults⟩])

end CacheUnit

/-- `struct CacheLayer`. -/
abbrev CacheLayer : Type := HashMap UInt64 CacheUnit

namespace CacheLayer

/-- `CacheLayer::getCache`. -/
def getCache (modid cmdid : Int32) (cache : CacheLayer) : Option CacheUnit :=
  cache.lookup (packKey modid cmdid)

/-- `CacheLayer::addCache`, and any write through the pointer that `getCache` gives. -/
def addCache (modid cmdid : Int32) (item : CacheUnit) (cache : CacheLayer) : CacheLayer :=
  cache.insert (packKey modid cmdid) item

/-- `CacheLayer::rmCache`. -/
def rmCache (modid cmdid : Int32) (cache : CacheLayer) : CacheLayer :=
  cache.erase (packKey modid cmdid)

/-- `CacheLayer::getAll`. -/
def getAll (cache : CacheLayer) : List CacheUnit := cache.entries.map (·.2)

end CacheLayer

end Elb
