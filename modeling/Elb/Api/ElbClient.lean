import Elb.Api.CacheLayer

/-!
# The API client

Reference: `api/cpp/elbApi/elbApi.h` and `api/cpp/elbApi/elbApi.cc`, `class elbClient`.

A call sends datagrams to the agent and waits for answers. What `recvfrom` yields is an input of the
call here: `none` is a send or a receive that failed, timed out or brought a malformed datagram. A
node is passed as the ip and port that `inet_aton` and `inet_ntoa` convert to and from text. The
socket of a module is chosen by its shard, so the datagrams about one module keep their order.
-/

namespace Elb

/-- `class elbClient`, without its sockets. -/
structure ElbClient where
  seqid : UInt32
  agentOff : Bool
  tsget : UInt64
  cache : CacheLayer

namespace ElbClient

/-- What the code returns when nothing came back. -/
def noAnswer : Int32 := -9999

/-- The agent's `NOEXIST`. -/
def noExist : Int32 := -9998

/-- The constructor. It leaves `_agentOff` as it finds it. -/
def new (agentOff : Bool) : ElbClient := ⟨0, agentOff, 0, ∅⟩

/-- The accumulators of a route that has just arrived. -/
def freshAccum (route : List HostAddr) : HashMap UInt64 UInt32 :=
  route.foldl (fun accum host => accum.insert host.key 0) ∅

/-- The entry that a route fills. -/
def filled (modid cmdid : Int32) (ts : ℤ) (rsp : CacheGetRouteRsp) : CacheUnit where
  modid := modid
  cmdid := cmdid
  overload := rsp.overload
  lstUpdTs := ts
  version := rsp.version
  succCnt := 0
  nodeList := rsp.route
  succAccum := freshAccum rsp.route

/-! ## Refreshing the cache -/

/-- The request of `elbClient::getRoute4Cache`; the version is `-1` the first time. -/
def cacheGetRouteReq (modid cmdid : Int32) (c : ElbClient) : CacheGetRouteReq :=
  match c.cache.getCache modid cmdid with
  | some cacheItem => ⟨modid, cmdid, cacheItem.version⟩
  | none => ⟨modid, cmdid, -1⟩

/-- What `elbClient::getRoute4Cache` does with the route it was sent. -/
def applyRoute (modid cmdid : Int32) (ts : ℤ) (rsp : CacheGetRouteRsp) (c : ElbClient) :
    ElbClient :=
  if rsp.version = -1 then
    { c with cache := c.cache.rmCache modid cmdid }
  else
    match c.cache.getCache modid cmdid with
    | none => { c with cache := c.cache.addCache modid cmdid (filled modid cmdid ts rsp) }
    | some cacheItem =>
      let item :=
        if rsp.version ≠ cacheItem.version then
          filled cacheItem.modid cacheItem.cmdid ts rsp
        else
          -- under the same version the reply has no route, and the nodes stay
          { cacheItem with overload := rsp.overload, succCnt := 0, lstUpdTs := ts }
      { c with cache := c.cache.addCache modid cmdid item }

/-- The second half of `elbClient::getRoute4Cache`, from `recvfrom` on. -/
def recvRoute4Cache (modid cmdid : Int32) (ts : ℤ) (recv : Option AgentRsp) (c : ElbClient) :
    ElbClient × Int32 :=
  match recv with
  | some (.cacheGetRoute rsp) =>
    if rsp.modid ≠ modid ∨ rsp.cmdid ≠ cmdid then (c, noAnswer)
    else (c.applyRoute modid cmdid ts rsp, 0)
  | _ => (c, noAnswer)

/-- `elbClient::getRoute4Cache`. -/
def getRoute4Cache (modid cmdid : Int32) (ts : ℤ) (recv : Option AgentRsp) (c : ElbClient) :
    ElbClient × Int32 × List AgentReq :=
  let (c', ret) := c.recvRoute4Cache modid cmdid ts recv
  (c', ret, [.cacheGetRoute (c.cacheGetRouteReq modid cmdid)])

/-- `elbClient::batchReportRes` on the entry of a module. -/
def flush (modid cmdid : Int32) (c : ElbClient) : ElbClient × List AgentReq :=
  match c.cache.getCache modid cmdid with
  | none => (c, [])
  | some cacheItem =>
    let (cacheItem, sent) := cacheItem.batchReportRes
    ({ c with cache := c.cache.addCache modid cmdid cacheItem }, sent)

/-! ## Getting a host -/

/-- What a call of `apiGetHost` meets: the heartbeat's verdict, the answer of the static route, the
two clocks, what the two refreshes receive, and what is received while a host is asked for. -/
structure Env where
  die : Bool
  staticHost : Option HostAddr
  now : ℤ
  mills : UInt64
  first : Option AgentRsp
  again : Option AgentRsp
  recvs : List AgentRsp

/-- The receiving loop of `elbClient::apiGetHost`, which skips answers to earlier requests. -/
def recvHost (seq : UInt32) (modid cmdid : Int32) : List AgentRsp → Int32 × Option HostAddr
  | .getHost rsp :: recvs =>
    -- an answer that was given up before
    if rsp.seq < seq then recvHost seq modid cmdid recvs
    else if rsp.seq ≠ seq ∨ rsp.modid ≠ modid ∨ rsp.cmdid ≠ cmdid then (noAnswer, none)
    else if rsp.retcode = 0 then (0, some (rsp.host.getD ⟨0, 0⟩))
    else (rsp.retcode, none)
  | _ => (noAnswer, none)

/-- The part of `elbClient::apiGetHost` that asks the agent. -/
def askHost (modid cmdid : Int32) (env : Env) (c : ElbClient) :
    ElbClient × (Int32 × Option HostAddr) × List AgentReq :=
  let answer := recvHost c.seqid modid cmdid env.recvs
  ({ c with
      seqid := c.seqid + 1
      tsget := if answer.1 = 0 then env.mills else c.tsget },
    answer, [.getHost ⟨c.seqid, modid, cmdid⟩])

/-- The end of `elbClient::apiGetHost`, when the entry is up to date: the cache serves the host, or
the agent if one of the module's hosts is overloaded. -/
def pickHost (modid cmdid : Int32) (env : Env) (c : ElbClient) :
    Option (ElbClient × (Int32 × Option HostAddr) × List AgentReq) :=
  match c.cache.getCache modid cmdid with
  | none => some (c, (noExist, none), [])
  | some cacheItem =>
    if !cacheItem.overload then do
      let (host, cacheItem) ← cacheItem.getHost
      return ({ c with cache := c.cache.addCache modid cmdid cacheItem, tsget := env.mills },
        (0, some host), [])
    else
      -- the agent balances the load while a host is overloaded
      return c.askHost modid cmdid env

/-- The middle of `elbClient::apiGetHost`: an entry that was updated two seconds ago is refreshed,
after what is pending has been sent. -/
def refreshHost (modid cmdid : Int32) (env : Env) (c : ElbClient) :
    Option (ElbClient × (Int32 × Option HostAddr) × List AgentReq) :=
  match c.cache.getCache modid cmdid with
  | none => some (c, (noExist, none), [])
  | some cacheItem =>
    if env.now - cacheItem.lstUpdTs ≥ 2 then do
      let (c, sent₁) := c.flush modid cmdid
      let (c, _, sent₂) := c.getRoute4Cache modid cmdid env.now env.again
      let (c, answer, sent₃) ← c.pickHost modid cmdid env
      return (c, answer, sent₁ ++ sent₂ ++ sent₃)
    else
      c.pickHost modid cmdid env

/-- `elbClient::apiGetHost`: the client afterwards, the return code and host, and what was sent. The
call is undefined when the cache serves a module without nodes. -/
def apiGetHost (modid cmdid : Int32) (env : Env) (c : ElbClient) :
    Option (ElbClient × (Int32 × Option HostAddr) × List AgentReq) :=
  if env.die then
    match env.staticHost with
    | none => some ({ c with agentOff := true }, (noExist, none), [])
    -- the backup files are asked
    | some host => some ({ c with agentOff := true }, (0, some host), [])
  else
    let c := { c with agentOff := false }
    match c.cache.getCache modid cmdid with
    | some _ => c.refreshHost modid cmdid env
    | none => do
      let (c, ret, sent₁) := c.getRoute4Cache modid cmdid env.now env.first
      if ret ≠ 0 then
        return (c, (ret, none), sent₁)
      else
        let (c, answer, sent₂) ← c.refreshHost modid cmdid env
        return (c, answer, sent₁ ++ sent₂)

/-! ## Asking for a whole route -/

/-- `elbClient::apiGetRoute` from `recvfrom` on: the return code and the nodes that it appends. -/
def recvGetRoute (recv : Option AgentRsp) : Int32 × List HostAddr :=
  match recv with
  | some (.getRouteByTool rsp) => (0, rsp.hosts)
  | _ => (-1, [])

/-- The loop of `elbClient::apiRegister` after a try that appended `route`: what it returns, or
`none` if it tries again. -/
def registerRet (retryCnt : ℕ) (route : List HostAddr) : Option Int32 :=
  if route.isEmpty then
    if retryCnt + 1 < 3 then none else some noExist
  else
    some 0

/-! ## Reporting results -/

/-- The report of one result; a failed call comes with the time it took. -/
def reportReq (modid cmdid : Int32) (host : HostAddr) (retcode : Int32) (mills : UInt64)
    (c : ElbClient) : ReportReq :=
  ⟨modid, cmdid, host, retcode, if retcode = 0 then none else some (mills - c.tsget).toUInt32⟩

/-- `elbClient::apiReportRes` at millisecond `mills`. -/
def apiReportRes (modid cmdid : Int32) (host : HostAddr) (retcode : Int32) (mills : UInt64)
    (c : ElbClient) : ElbClient × List AgentReq :=
  if c.agentOff then
    (c, [])
  else
    match c.cache.getCache modid cmdid with
    | some cacheItem =>
      if !cacheItem.overload then
        if retcode = 0 then
          ({ c with cache := c.cache.addCache modid cmdid (cacheItem.report host) }, [])
        else
          let (c', sent) := c.flush modid cmdid
          (c', sent ++ [.report (c.reportReq modid cmdid host retcode mills)])
      else
        (c, [.report (c.reportReq modid cmdid host retcode mills)])
    | none => (c, [.report (c.reportReq modid cmdid host retcode mills)])

end ElbClient

end Elb
