import Elb.Api.PythonClient
import Elb.Common.Containers

/-!
# The cache of the Python client

Reference: `class CacheUnit` in `api/python/elbApi/CacheLayer.py` and `class elbClient` in
`api/python/elbApi/elbClient.py`.

The Python client does what the C++ client does, with dictionaries whose keys are tuples and with
numbers that do not wrap around. It raises where the C++ client is undefined, and where protobuf
takes no number that does not fit its field; `none` stands for an exception here. A node is its ip
and port as in `HostAddr`, since `inet_ntoa` and `inet_aton` turn the text into the number and back.
What a call receives is an input, and `none` is a time-out.
-/

namespace Elb

namespace PythonClient

/-- The call has returned a host. -/
def Answer.isNode : Answer → Bool
  | .node _ _ => true
  | _ => false

/-- What is returned for a module that has no host to choose from. -/
def noExist : Answer := .error (-9998) "no exist"

/-- What a reply about another module returns. -/
def contentError : Answer := .error (-9999) "package content error"

end PythonClient

open PythonClient (Answer Datagram)

/-- `class CacheUnit`. -/
structure PyCacheUnit where
  modid : Int32
  cmdid : Int32
  overload : Bool
  lstUpdTs : ℤ
  version : ℤ
  succCnt : ℕ
  nodeList : List HostAddr
  succAccum : HashMap HostAddr ℕ

namespace PyCacheUnit

/-- `CacheUnit.getHost`; `pop(0)` needs a node. -/
def getHost (cu : PyCacheUnit) : Option (HostAddr × PyCacheUnit) :=
  match cu.nodeList with
  | [] => none
  | host :: rest => some (host, { cu with nodeList := rest ++ [host] })

/-- `CacheUnit.report`. -/
def report (host : HostAddr) (cu : PyCacheUnit) : PyCacheUnit :=
  match cu.succAccum.lookup host with
  | some n => { cu with succAccum := cu.succAccum.insert host (n + 1), succCnt := cu.succCnt + 1 }
  | none => cu

/-- The results of a batch. -/
def pendingResults (cu : PyCacheUnit) : List HostBatchCallRes :=
  cu.succAccum.entries.filterMap fun e =>
    if e.2 = 0 then none else some ⟨e.1.ip, e.1.port, UInt32.ofNat e.2⟩

/-- `elbClient.__batchReportRes`. A count that is no `uint32` raises. -/
def batchReportRes (cu : PyCacheUnit) : Option (PyCacheUnit × List AgentReq) :=
  if cu.succCnt = 0 then
    some (cu, [])
  else if cu.succAccum.entries.all fun e => e.2 < 2 ^ 32 then
    some ({ cu with succCnt := 0, succAccum := cu.succAccum.mapVal fun _ => 0 },
      [.cacheBatchRpt ⟨cu.modid, cu.cmdid, cu.pendingResults⟩])
  else
    none

end PyCacheUnit

/-- `class elbClient`, without its sockets. -/
structure PyClient where
  seq : ℕ
  agentOff : Bool
  tsget : ℤ
  cache : HashMap (Int32 × Int32) PyCacheUnit

namespace PyClient

/-- `elbClient.__init__`. -/
def new : PyClient := ⟨0, true, 0, ∅⟩

/-! ## Refreshing the cache -/

/-- `cacheItem.succAccum[(ips, h.port)] = 0` for the nodes of a route. -/
def freshAccum (route : List HostAddr) : HashMap HostAddr ℕ :=
  route.foldl (fun accum host => accum.insert host 0) ∅

/-- The item with a route that has just arrived. -/
def filled (modid cmdid : Int32) (ts : ℤ) (rsp : CacheGetRouteRsp) : PyCacheUnit where
  modid := modid
  cmdid := cmdid
  overload := rsp.overload
  lstUpdTs := ts
  version := rsp.version
  succCnt := 0
  nodeList := rsp.route
  succAccum := freshAccum rsp.route

/-- The request of `elbClient.__getRoute4Cache`. -/
def cacheGetRouteReq (modid cmdid : Int32) (c : PyClient) : CacheGetRouteReq :=
  ⟨modid, cmdid, match c.cache.lookup (modid, cmdid) with
    | some cacheItem => cacheItem.version
    | none => -1⟩

/-- `elbClient.__getRoute4Cache` on a reply about the module. -/
def applyRoute (modid cmdid : Int32) (ts : ℤ) (rsp : CacheGetRouteRsp) (c : PyClient) : PyClient :=
  if rsp.version = -1 then
    { c with cache := c.cache.erase (modid, cmdid) }
  else
    match c.cache.lookup (modid, cmdid) with
    | none => { c with cache := c.cache.insert (modid, cmdid) (filled modid cmdid ts rsp) }
    | some cacheItem =>
      let item :=
        if cacheItem.version ≠ rsp.version then
          filled cacheItem.modid cacheItem.cmdid ts rsp
        else
          { cacheItem with overload := rsp.overload, succCnt := 0, lstUpdTs := ts }
      { c with cache := c.cache.insert (modid, cmdid) item }

/-- `elbClient.__getRoute4Cache` from `recvfrom` on; `none` is the answer `(0, '')`. -/
def recvRoute4Cache (modid cmdid : Int32) (ts : ℤ) (recv : Option AgentRsp) (c : PyClient) :
    PyClient × Option Answer :=
  match recv with
  | none => (c, some PythonClient.timedOut)
  | some (.cacheGetRoute rsp) =>
    if rsp.modid ≠ modid ∨ rsp.cmdid ≠ cmdid then (c, some PythonClient.contentError)
    else (c.applyRoute modid cmdid ts rsp, none)
  | some _ => (c, some PythonClient.formatError)

/-- `elbClient.__batchReportRes` on the item of a module, if there is one. -/
def flush (modid cmdid : Int32) (c : PyClient) : Option (PyClient × List AgentReq) :=
  match c.cache.lookup (modid, cmdid) with
  | none => some (c, [])
  | some cu => do
    let (cu, sent) ← cu.batchReportRes
    return ({ c with cache := c.cache.insert (modid, cmdid) cu }, sent)

/-! ## Getting a host -/

/-- What a call of `apiGetHost` meets. -/
structure Env where
  die : Bool
  staticHost : Option HostAddr
  now : ℤ
  mills : ℤ
  first : Option AgentRsp
  again : Option AgentRsp
  recvs : List Datagram

/-- The part of `apiGetHost` that asks the agent. The sequence numbers go up to `2 ** 31 - 1`. -/
def askHost (modid cmdid : Int32) (env : Env) (c : PyClient) :
    PyClient × Answer × List AgentReq :=
  let seq := if c.seq = 2 ^ 31 then 0 else c.seq
  let answer := PythonClient.recvHost (UInt32.ofNat seq) env.recvs
  ({ c with seq := seq + 1, tsget := if answer.isNode then env.mills else c.tsget },
    answer, [.getHost ⟨UInt32.ofNat seq, modid, cmdid⟩])

/-- The end of `apiGetHost`, when the item is up to date. -/
def pickHost (modid cmdid : Int32) (env : Env) (c : PyClient) :
    Option (PyClient × Answer × List AgentReq) :=
  match c.cache.lookup (modid, cmdid) with
  | none => some (c, PythonClient.noExist, [])
  | some cacheItem =>
    if !cacheItem.overload then do
      let (host, cacheItem) ← cacheItem.getHost
      return ({ c with cache := c.cache.insert (modid, cmdid) cacheItem, tsget := env.mills },
        PythonClient.nodeOf host, [])
    else
      return c.askHost modid cmdid env

/-- The middle of `apiGetHost`: an item that was updated two seconds ago is refreshed. -/
def refreshHost (modid cmdid : Int32) (env : Env) (c : PyClient) :
    Option (PyClient × Answer × List AgentReq) :=
  match c.cache.lookup (modid, cmdid) with
  | none => some (c, PythonClient.noExist, [])
  | some cacheItem =>
    if env.now - cacheItem.lstUpdTs ≥ 2 then do
      let (c, sent₁) ← c.flush modid cmdid
      let req := c.cacheGetRouteReq modid cmdid
      let (c, _) := c.recvRoute4Cache modid cmdid env.now env.again
      let (c, answer, sent₂) ← c.pickHost modid cmdid env
      return (c, answer, sent₁ ++ .cacheGetRoute req :: sent₂)
    else
      c.pickHost modid cmdid env

/-- `elbClient.apiGetHost`. -/
def apiGetHost (modid cmdid : Int32) (env : Env) (c : PyClient) :
    Option (PyClient × Answer × List AgentReq) :=
  if env.die then
    some ({ c with agentOff := true }, (env.staticHost.map PythonClient.nodeOf).getD
      PythonClient.noExist, [])
  else
    let c := { c with agentOff := false }
    match c.cache.lookup (modid, cmdid) with
    | some _ => c.refreshHost modid cmdid env
    | none =>
      let req := c.cacheGetRouteReq modid cmdid
      match c.recvRoute4Cache modid cmdid env.now env.first with
      | (c, some err) => some (c, err, [.cacheGetRoute req])
      | (c, none) => do
        let (c, answer, sent) ← c.refreshHost modid cmdid env
        return (c, answer, .cacheGetRoute req :: sent)

/-- `elbClient.apiRegister`, which calls `apiGetHost` up to three times; one environment for each
try. -/
def apiRegister (modid cmdid : Int32) : List Env → PyClient → Option (PyClient × ℤ × List AgentReq)
  | [], c => some (c, -9998, [])
  | env :: envs, c => do
    let (c, answer, sent) ← c.apiGetHost modid cmdid env
    if answer.isNode then
      return (c, 0, sent)
    else do
      let (c, ret, sent') ← c.apiRegister modid cmdid envs
      return (c, ret, sent ++ sent')

/-! ## Reporting results -/

/-- The report of one result; `tcost` is a `uint32`. -/
def reportReq (modid cmdid : Int32) (host : HostAddr) (res : Int32) (mills : ℤ) (c : PyClient) :
    Option ReportReq :=
  if res = 0 then
    some ⟨modid, cmdid, host, res, none⟩
  else if 0 ≤ mills - c.tsget ∧ mills - c.tsget < 2 ^ 32 then
    some ⟨modid, cmdid, host, res, some (UInt32.ofNat (mills - c.tsget).toNat)⟩
  else
    none

/-- `elbClient.apiReportRes` at millisecond `mills`. -/
def apiReportRes (modid cmdid : Int32) (host : HostAddr) (res : Int32) (mills : ℤ) (c : PyClient) :
    Option (PyClient × List AgentReq) :=
  if c.agentOff then
    some (c, [])
  else
    match c.cache.lookup (modid, cmdid) with
    | some cu =>
      if !cu.overload then
        if res = 0 then
          some ({ c with cache := c.cache.insert (modid, cmdid) (cu.report host) }, [])
        else do
          let (c', sent) ← c.flush modid cmdid
          let req ← c.reportReq modid cmdid host res mills
          return (c', sent ++ [.report req])
      else do
        let req ← c.reportReq modid cmdid host res mills
        return (c, [.report req])
    | none => do
      let req ← c.reportReq modid cmdid host res mills
      return (c, [.report req])

/-- `elbClient.__del__`: what is pending goes out for every module. -/
def del (c : PyClient) : Option (List AgentReq) := do
  let items ← (c.cache.entries.map (·.2)).mapM PyCacheUnit.batchReportRes
  return items.flatMap (·.2)

end PyClient

end Elb
