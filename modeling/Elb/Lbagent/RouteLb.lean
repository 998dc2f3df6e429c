import Elb.Common.Transition
import Elb.Lbagent.Lb

/-!
# The routes of one shard

Reference: `lbagent/include/RouteLb.h` and `lbagent/src/RouteLb.cc`, `class RouteLB`; the requests
come in through `lbagent/src/AgentServer.cc` and the routes through `lbagent/src/DssClient.cc`.

A `RouteLB` is shared by the UDP thread of its shard and by the thread that talks to dnsserver, and
every method works under one mutex. An interleaving of the threads is therefore a sequence of whole
method calls, which `RouteLB.system` takes in any order and at any times.
-/

namespace Elb

/-- `class RouteLB`. `nextLb` is the address of the next `LB` that it allocates. -/
structure RouteLB where
  id : ℕ
  routeMap : HashMap UInt64 LB
  nextLb : ℕ

namespace RouteLB

variable {R : Type} [RateArith R]

/-- The constructor `RouteLB(id)`. -/
def new (id : ℕ) : RouteLB := ⟨id, ∅, 0⟩

/-- Write through the pointer `_routeMap[key]`. -/
def put (s : RouteLB) (key : UInt64) (lb : LB) : RouteLB :=
  { s with routeMap := s.routeMap.insert key lb }

/-- A module asked for the first time: `new LB`, filed and pulled at once. -/
def create (s : RouteLB) (modid cmdid : Int32) : RouteLB × List GetRouteReq :=
  let (lb, req) := (LB.new s.nextLb modid cmdid).pull
  ({ s.put (packKey modid cmdid) lb with nextLb := s.nextLb + 1 }, [req])

/-- Pull the route again if no pull is under way and the route is out of date. -/
def repull (cfg : LbConfigure R) (now : ℤ) (lb : LB) : LB × List GetRouteReq :=
  if lb.status = .isNew ∧ now - lb.effectData > cfg.updateTimo then
    let (lb, req) := lb.pull
    (lb, [req])
  else
    (lb, [])

/-- `RouteLB::getHost`. -/
def getHost (cfg : LbConfigure R) (now : ℤ) (modid cmdid : Int32) (rsp : GetHostRsp)
    (s : RouteLB) : Except Fault (RouteLB × GetHostRsp × List GetRouteReq) :=
  let key := packKey modid cmdid
  match s.routeMap.lookup key with
  | some lb =>
    if lb.empty then
      if lb.status = .isPulling then
        .ok (s, { rsp with retcode := Retcode.noexist }, [])
      else
        .error (.assertion .getHostPulling)
    else do
      let (lb, ret, host) ← lb.getHost cfg
      let (lb, pulls) := repull cfg now lb
      return (s.put key lb, { rsp with retcode := ret, host := host }, pulls)
  | none =>
    let (s, pulls) := s.create modid cmdid
    .ok (s, { rsp with retcode := Retcode.noexist }, pulls)

/-- How many failures a report counts for, from the time that the failing call took: one for each
100 ms, at least one and at most 50. -/
def errcnt (req : ReportReq) : Except Fault UInt32 :=
  match req.tcost with
  | none => .ok 1
  | some tcost =>
    if req.retcode = 0 then
      .error (.assertion .reportRetcode)
    else
      let errcnt := tcost / 100
      .ok (if errcnt = 0 then 1 else if errcnt > 50 then 50 else errcnt)

/-- `RouteLB::report`. -/
def report (cfg : LbConfigure R) (now : ℤ) (req : ReportReq) (s : RouteLB) :
    Except Fault (RouteLB × List ReportStatusReq) := do
  let errcnt ← errcnt req
  let key := packKey req.modid req.cmdid
  match s.routeMap.lookup key with
  | none => return (s, [])
  | some lb =>
    let lb :=
      if errcnt = 1 then
        lb.report cfg now req.host.ip req.host.port req.retcode
      else
        lb.reportSomeErr cfg now req.host.ip req.host.port errcnt
    let (lb, rept) ← lb.report2Rpter cfg now
    return (s.put key lb, rept.toList)

/-- `RouteLB::batchReport`. -/
def batchReport (cfg : LbConfigure R) (now : ℤ) (req : CacheBatchRptReq) (s : RouteLB) :
    Except Fault (RouteLB × List ReportStatusReq) :=
  let key := packKey req.modid req.cmdid
  match s.routeMap.lookup key with
  | none => .ok (s, [])
  | some lb => do
    let lb := req.results.foldl
      -- only successes come in batches
      (fun lb cr => lb.reportSomeSucc cfg now cr.ip cr.port cr.succCnt) lb
    let (lb, rept) ← lb.report2Rpter cfg now
    return (s.put key lb, rept.toList)

/-- `RouteLB::getRoute`: the route goes into the reply, a module that is not there is created. -/
def getRoute (cfg : LbConfigure R) (now : ℤ) (modid cmdid : Int32) (rsp : GetRouteRsp)
    (s : RouteLB) : RouteLB × GetRouteRsp × List GetRouteReq :=
  let key := packKey modid cmdid
  match s.routeMap.lookup key with
  | some lb =>
    let vec := lb.getRoute
    let (lb, pulls) := repull cfg now lb
    (s.put key lb, { rsp with hosts := rsp.hosts ++ vec.map HI.addr }, pulls)
  | none =>
    let (s, pulls) := s.create modid cmdid
    (s, rsp, pulls)

/-- `RouteLB::cacheGetRoute`: the reply leaves the route out when the client's version is that of
the route. -/
def cacheGetRoute (cfg : LbConfigure R) (now : ℤ) (modid cmdid : Int32) (version : ℤ)
    (rsp : CacheGetRouteRsp) (s : RouteLB) :
    Except Fault (RouteLB × CacheGetRouteRsp × List GetRouteReq) :=
  let key := packKey modid cmdid
  match s.routeMap.lookup key with
  | some lb =>
    if lb.empty then
      if lb.status = .isPulling then
        .ok (s, { rsp with version := -1 }, [])
      else
        .error (.assertion .cacheGetRoutePulling)
    else
      -- the version is read before `repull`, which leaves it alone
      let rsp := { rsp with overload := lb.hasOvHost, version := lb.version }
      let vec := if lb.version ≠ version then lb.getRoute else []
      let (lb, pulls) := repull cfg now lb
      .ok (s.put key lb, { rsp with route := rsp.route ++ vec.map HI.addr }, pulls)
  | none =>
    let (s, pulls) := s.create modid cmdid
    .ok (s, { rsp with version := -1 }, pulls)

/-- `RouteLB::update`: a response without hosts deletes the module. -/
def update (cfg : LbConfigure R) (now : ℤ) (rsp : GetRouteRsp) (s : RouteLB) :
    Except Fault RouteLB :=
  let key := packKey rsp.modid rsp.cmdid
  match s.routeMap.lookup key with
  | none => .ok s
  | some lb =>
    if rsp.hosts.isEmpty then
      .ok { s with routeMap := s.routeMap.erase key }
    else do
      let lb ← lb.update cfg now rsp
      return s.put key lb

/-- `RouteLB::clearPulling`. -/
def clearPulling (s : RouteLB) : RouteLB :=
  { s with routeMap := s.routeMap.mapVal LB.clearPulling }

/-! ## The shard as a transition system -/

/-- The calls that the threads make. -/
inductive Op
  | getHost (req : GetHostReq)
  | report (req : ReportReq)
  | batchReport (req : CacheBatchRptReq)
  | getRoute (req : GetRouteReq)
  | cacheGetRoute (req : CacheGetRouteReq)
  | update (rsp : GetRouteRsp)
  | clearPulling

/-- What a call sends: a reply, requests for dnsserver and reports for the reporter. -/
structure Out where
  reply : Option AgentRsp
  pulls : List GetRouteReq
  repts : List ReportStatusReq
deriving DecidableEq

/-- The call that the handlers of `AgentServer.cc` make for a datagram. -/
def Op.ofReq : AgentReq → Op
  | .getHost req => .getHost req
  | .report req => .report req
  | .getRouteByTool req => .getRoute req
  | .cacheGetRoute req => .cacheGetRoute req
  | .cacheBatchRpt req => .batchReport req

/-- One call at time `now`. The replies start out as the handlers of `AgentServer.cc` set them. -/
def exec (cfg : LbConfigure R) (now : ℤ) (s : RouteLB) : Op → Except Fault (RouteLB × Out)
  | .getHost req => do
    let (s, rsp, pulls) ←
      s.getHost cfg now req.modid req.cmdid ⟨req.seq, req.modid, req.cmdid, 0, none⟩
    return (s, ⟨some (.getHost rsp), pulls, []⟩)
  | .report req => do
    let (s, repts) ← s.report cfg now req
    -- nobody waits for an answer to a report
    return (s, ⟨none, [], repts⟩)
  | .batchReport req => do
    let (s, repts) ← s.batchReport cfg now req
    return (s, ⟨none, [], repts⟩)
  | .getRoute req =>
    let (s, rsp, pulls) := s.getRoute cfg now req.modid req.cmdid ⟨req.modid, req.cmdid, []⟩
    .ok (s, ⟨some (.getRouteByTool rsp), pulls, []⟩)
  | .cacheGetRoute req => do
    let (s, rsp, pulls) ← s.cacheGetRoute cfg now req.modid req.cmdid req.version
      ⟨req.modid, req.cmdid, 0, false, []⟩
    return (s, ⟨some (.cacheGetRoute rsp), pulls, []⟩)
  | .update rsp => do
    let s ← s.update cfg now rsp
    return (s, ⟨none, [], []⟩)
  | .clearPulling => .ok (s.clearPulling, ⟨none, [], []⟩)

/-- Runs of a shard: from an empty table, any calls at any times, as long as none of them faults. -/
def system (cfg : LbConfigure R) : Transition.System RouteLB (ℤ × Op) where
  init s := ∃ id, s = new id
  step s e s' := ∃ out, s.exec cfg e.1 e.2 = .ok (s', out)

end RouteLB

end Elb
