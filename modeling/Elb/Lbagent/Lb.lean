import Elb.Common.Containers
import Elb.Lbagent.HostInfo

/-!
# The load balancer of one module

Reference: `lbagent/include/RouteLb.h` and `lbagent/src/RouteLb.cc`, `class LB`.

`_hostMap` owns the records; `_runningList` and `_downList` hold pointers to them. A pointer taken
from `_hostMap` is written through by `LB.store`, a pointer taken from a list is followed by
`LB.deref`, which fails when no record of the map lives at that address.
-/

namespace Elb

/-- The `assert`s of `RouteLb.cc`. -/
inductive Assertion
  /-- `RouteLB::getHost`: `lb->status == LB::ISPULLING`. -/
  | getHostPulling
  /-- `RouteLB::cacheGetRoute`: `lb->status == LB::ISPULLING`. -/
  | cacheGetRoutePulling
  /-- `RouteLB::report`: `req.retcode() != 0`. -/
  | reportRetcode
  /-- `LB::update`: `rsp.hosts_size() != 0`. -/
  | updateHosts
deriving DecidableEq, Repr

/-- The ways in which the code leaves defined behaviour. -/
inductive Fault
  /-- A failing `assert` aborts the agent. -/
  | assertion (a : Assertion)
  /-- `front()` of an empty list. -/
  | emptyFront
  /-- An `HI*` whose record is gone. -/
  | dangling
deriving DecidableEq, Repr

/-! ## Return codes, `lbagent/include/Server.h` -/

def Retcode.overload : Int32 := -10000
def Retcode.syserr : Int32 := -9999
def Retcode.noexist : Int32 := -9998
def Retcode.success : Int32 := 0

/-- `LB::STATUS`. -/
inductive LB.Status
  | isPulling
  | isNew
deriving DecidableEq, Repr

/-- `class LB`. `self` is the address of the object, `nextHI` the address of the next record that it
allocates. `version` is left unset by the constructor and written by the first update. -/
structure LB where
  self : ℕ
  effectData : ℤ
  lstRptTime : ℤ
  status : LB.Status
  version : ℤ
  modid : Int32
  cmdid : Int32
  accessCnt : Int32
  hostMap : HashMap UInt64 HI
  runningList : List HIPtr
  downList : List HIPtr
  nextHI : HIPtr

namespace LB

variable {R : Type} [RateArith R]

/-- The constructor `LB(modid, cmdid)`. -/
def new (self : ℕ) (modid cmdid : Int32) : LB where
  self := self
  effectData := 0
  lstRptTime := 0
  status := .isPulling
  version := 0
  modid := modid
  cmdid := cmdid
  accessCnt := 0
  hostMap := ∅
  runningList := []
  downList := []
  nextHI := 0

/-- `LB::empty`. -/
def empty (lb : LB) : Bool := lb.hostMap.entries.isEmpty

/-- `LB::hasOvHost`. -/
def hasOvHost (lb : LB) : Bool := !lb.downList.isEmpty

/-- Follow a pointer of one of the two lists. -/
def deref (lb : LB) (p : HIPtr) : Except Fault HI :=
  match lb.hostMap.entries.find? fun e => e.2.self = p with
  | some e => .ok e.2
  | none => .error .dangling

/-- `front()` with its ip and port, then `pop_front()` and `push_back()`. -/
def rotate (lb : LB) : List HIPtr → Except Fault (HostAddr × List HIPtr)
  | [] => .error .emptyFront
  | p :: rest => do
    let hi ← lb.deref p
    return (hi.addr, rest ++ [p])

/-- `LB::getHost`: the object afterwards, the return code and the host put into the reply. -/
def getHost (cfg : LbConfigure R) (lb : LB) : Except Fault (LB × Int32 × Option HostAddr) :=
  -- all hosts are overloaded: one of them is probed after `probeNum` calls that are refused
  if lb.runningList.isEmpty then
    if lb.accessCnt ≥ cfg.probeNum then do
      let (host, downList) ← lb.rotate lb.downList
      return ({ lb with accessCnt := 0, downList := downList }, Retcode.success, some host)
    else
      return ({ lb with accessCnt := lb.accessCnt + 1 }, Retcode.overload, none)
  -- none is overloaded
  else if lb.downList.isEmpty then do
    let (host, runningList) ← lb.rotate lb.runningList
    return ({ lb with accessCnt := 0, runningList := runningList }, Retcode.success, some host)
  -- some are
  else if lb.accessCnt ≥ cfg.probeNum then do
    let (host, downList) ← lb.rotate lb.downList
    return ({ lb with accessCnt := 0, downList := downList }, Retcode.success, some host)
  else do
    let (host, runningList) ← lb.rotate lb.runningList
    return ({ lb with accessCnt := lb.accessCnt + 1, runningList := runningList },
      Retcode.success, some host)

/-- `LB::getRoute`: the records of the route, in iteration order. -/
def getRoute (lb : LB) : List HI := lb.hostMap.entries.map (·.2)

/-! ## Call results -/

/-- Write through the pointer `_hostMap[key]`. -/
def store (lb : LB) (key : UInt64) (hi : HI) : LB :=
  { lb with hostMap := lb.hostMap.insert key hi }

/-- `_runningList.remove(hi); _downList.push_back(hi);`. -/
def moveDown (lb : LB) (p : HIPtr) : LB :=
  { lb with runningList := lb.runningList.filter (· ≠ p), downList := lb.downList ++ [p] }

/-- `_downList.remove(hi); _runningList.push_back(hi);`. -/
def moveRunning (lb : LB) (p : HIPtr) : LB :=
  { lb with runningList := lb.runningList ++ [p], downList := lb.downList.filter (· ≠ p) }

/-- The block that closes `report`, `reportSomeSucc` and `reportSomeErr`, the same in all three: an
idle host whose window is over, and an overloaded host whose waiting time is over. -/
def checkTimo (cfg : LbConfigure R) (now : ℤ) (key : UInt64) (lb : LB) (hi : HI) : LB :=
  if !hi.overload then
    if now - hi.windowTs ≥ cfg.clearTimo then
      let (overload, hi) := hi.checkWindow cfg
      if overload then
        (lb.moveDown hi.self).store key (hi.setOverload cfg.ovldErrCnt.toUInt32 now)
      else
        lb.store key (hi.resetIdle cfg.initSuccCnt.toUInt32 now)
    else
      lb.store key hi
  else if now - hi.overloadTs ≥ cfg.ovldWaitLim then
    (lb.moveRunning hi.self).store key (hi.resetIdle cfg.initSuccCnt.toUInt32 now)
  else
    lb.store key hi

/-- `LB::report`. -/
def report (cfg : LbConfigure R) (now : ℤ) (ip port retcode : Int32) (lb : LB) : LB :=
  let key := packKey ip port
  match lb.hostMap.lookup key with
  | none => lb
  | some hi =>
    let hi := if retcode = 0 then (hi.addSucc 1).countSucc 1 else (hi.addErr 1).countErr 1
    if !hi.overload && retcode != 0 then
      -- the comparisons are with the counters that include this result
      if RateArith.ratioGt hi.err (hi.succ + hi.err) cfg.errRate ||
          hi.continErr ≥ cfg.continErrLim.toUInt32 then
        (lb.moveDown hi.self).store key (hi.setOverload cfg.ovldErrCnt.toUInt32 now)
      else
        lb.checkTimo cfg now key hi
    else if hi.overload && retcode == 0 then
      if RateArith.ratioGt hi.succ (hi.succ + hi.err) cfg.succRate ||
          hi.continSucc ≥ cfg.continSuccLim.toUInt32 then
        (lb.moveRunning hi.self).store key (hi.resetIdle cfg.initSuccCnt.toUInt32 now)
      else
        lb.checkTimo cfg now key hi
    else
      lb.checkTimo cfg now key hi

/-- `ifIdle` and `leftSuccCnt` of `LB::reportSomeSucc`: whether the batch makes the overloaded host
idle, and how many of its successes are left over. The consecutive rule is looked at first. -/
def judgeIdle (cfg : LbConfigure R) (succCnt : UInt32) (hi : HI) : Bool × UInt32 :=
  if hi.continSucc ≥ cfg.continSuccLim.toUInt32 then
    (true, hi.continSucc - cfg.continSuccLim.toUInt32)
  else if succCnt ≥ need cfg.succRate hi.err then
    (true, succCnt - need cfg.succRate hi.err)
  else
    (false, succCnt)

/-- `ifOverload` and `leftErrCnt` of `LB::reportSomeErr`. -/
def judgeOverload (cfg : LbConfigure R) (errCnt : UInt32) (hi : HI) : Bool × UInt32 :=
  if hi.continErr ≥ cfg.continErrLim.toUInt32 then
    (true, hi.continErr - cfg.continErrLim.toUInt32)
  else if errCnt ≥ need cfg.errRate hi.succ then
    (true, errCnt - need cfg.errRate hi.succ)
  else
    (false, errCnt)

/-- `LB::reportSomeSucc`. -/
def reportSomeSucc (cfg : LbConfigure R) (now : ℤ) (ip port : Int32) (succCnt : UInt32) (lb : LB) :
    LB :=
  let key := packKey ip port
  match lb.hostMap.lookup key with
  | none => lb
  | some hi =>
    let hi := hi.countSucc succCnt
    if !hi.overload then
      lb.checkTimo cfg now key (hi.addSucc succCnt)
    else
      let (ifIdle, leftSuccCnt) := judgeIdle cfg succCnt hi
      let hi := hi.addSucc (succCnt - leftSuccCnt)
      if ifIdle then
        let hi := hi.resetIdle cfg.initSuccCnt.toUInt32 now
        -- what is left of the batch is counted for the new state
        (lb.moveRunning hi.self).checkTimo cfg now key (hi.addSucc leftSuccCnt)
      else
        lb.checkTimo cfg now key (hi.addSucc leftSuccCnt)

/-- `LB::reportSomeErr`. -/
def reportSomeErr (cfg : LbConfigure R) (now : ℤ) (ip port : Int32) (errCnt : UInt32) (lb : LB) :
    LB :=
  let key := packKey ip port
  match lb.hostMap.lookup key with
  | none => lb
  | some hi =>
    let hi := hi.countErr errCnt
    if hi.overload then
      lb.checkTimo cfg now key (hi.addErr errCnt)
    else
      let (ifOverload, leftErrCnt) := judgeOverload cfg errCnt hi
      let hi := hi.addErr (errCnt - leftErrCnt)
      if ifOverload then
        let hi := hi.setOverload cfg.ovldErrCnt.toUInt32 now
        (lb.moveDown hi.self).checkTimo cfg now key (hi.addErr leftErrCnt)
      else
        lb.checkTimo cfg now key (hi.addErr leftErrCnt)

/-! ## Routes -/

/-- The body of the first loop of `LB::update`: a host that is not in the map yet gets a record. The
flag is the local variable `updated`. -/
def addHost (cfg : LbConfigure R) (now : ℤ) (st : LB × Bool) (h : HostAddr) : LB × Bool :=
  let lb := st.1
  match lb.hostMap.lookup h.key with
  | some _ => st
  | none =>
    let hi := HI.new lb.nextHI h.ip.toUInt32 h.port cfg.initSuccCnt.toUInt32 now
    ({ lb with
        hostMap := lb.hostMap.insert h.key hi
        runningList := lb.runningList ++ [hi.self]
        nextHI := lb.nextHI + 1 }, true)

/-- The body of the last loop of `LB::update`: drop the record of `key`. -/
def delHost (lb : LB) (key : UInt64) : LB :=
  match lb.hostMap.lookup key with
  | none => lb
  | some hi =>
    if hi.overload then
      { lb with hostMap := lb.hostMap.erase key, downList := lb.downList.filter (· ≠ hi.self) }
    else
      { lb with
        hostMap := lb.hostMap.erase key
        runningList := lb.runningList.filter (· ≠ hi.self) }

/-- `LB::update`. -/
def update (cfg : LbConfigure R) (now : ℤ) (rsp : GetRouteRsp) (lb : LB) : Except Fault LB :=
  if rsp.hosts.isEmpty then
    .error (.assertion .updateHosts)
  else
    -- a module that had no hosts starts its report period now
    let resetRptTime := lb.empty
    let remote := rsp.hosts.map HostAddr.key
    let added := rsp.hosts.foldl (addHost cfg now) (lb, false)
    let todel := added.1.hostMap.keys.filter (· ∉ remote)
    let updated := added.2 || !todel.isEmpty
    let lb' := todel.foldl delHost added.1
    .ok { lb' with
      effectData := now
      status := .isNew
      lstRptTime := if resetRptTime then now else lb'.lstRptTime
      version := if updated then now else lb'.version }

/-- `LB::pull`: the request put on `pullQueue`, and the status. -/
def pull (lb : LB) : LB × GetRouteReq :=
  ({ lb with status := .isPulling }, ⟨lb.modid, lb.cmdid⟩)

/-- The body of the loop of `RouteLB::clearPulling`. -/
def clearPulling (lb : LB) : LB :=
  if lb.status = .isPulling then { lb with status := .isNew } else lb

/-- One entry of a report to the reporter. -/
def callResult (lb : LB) (overload : Bool) (p : HIPtr) : Except Fault HostCallResult := do
  let hi ← lb.deref p
  return ⟨hi.ip.toInt32, hi.port, hi.rSucc, hi.rErr, overload⟩

/-- `LB::report2Rpter`: the report put on `reptQueue`, if one is due. -/
def report2Rpter (cfg : LbConfigure R) (now : ℤ) (lb : LB) :
    Except Fault (LB × Option ReportStatusReq) :=
  if lb.empty then
    return (lb, none)
  else if now - lb.lstRptTime < cfg.reportTimo then
    return (lb, none)
  else do
    let running ← lb.runningList.mapM (lb.callResult false)
    let down ← lb.downList.mapM (lb.callResult true)
    return ({ lb with lstRptTime := now }, some {
      modid := lb.modid
      cmdid := lb.cmdid
      caller := cfg.myIp.toInt32
      results := running ++ down
      ts := UInt32.ofInt now })

end LB

end Elb
