import Elb.Common.Proto
import Elb.Lbagent.LbConfigure

/-!
# Host records

Reference: `lbagent/include/RouteLb.h`, `struct HI`, and its methods in `lbagent/src/RouteLb.cc`.

A record is allocated once and handled through pointers. `HI.self` is the address of the record, so
two records are the same object exactly when their addresses agree. Every entry point reads the
clock once, and the time is passed to whatever it calls.
-/

namespace Elb

/-- An `HI*`. -/
abbrev HIPtr : Type := ℕ

/-- `struct HI`, the load of one host of one module. -/
structure HI where
  self : HIPtr
  ip : UInt32
  port : Int32
  succ : UInt32
  err : UInt32
  rSucc : UInt32
  rErr : UInt32
  continSucc : UInt32
  continErr : UInt32
  overload : Bool
  windowTs : ℤ
  overloadTs : ℤ
  windErrCnt : UInt32
deriving DecidableEq, Repr

namespace HI

variable {R : Type} [RateArith R]

/-- The constructor `HI(myIp, myPort, initSucc)`. -/
def new (self : HIPtr) (myIp : UInt32) (myPort : Int32) (initSucc : UInt32) (now : ℤ) : HI where
  self := self
  ip := myIp
  port := myPort
  succ := initSucc
  err := 0
  rSucc := 0
  rErr := 0
  continSucc := 0
  continErr := 0
  overload := false
  windowTs := now
  overloadTs := 0
  windErrCnt := 0

/-- The address the record describes, as `set_ip` and `set_port` put it on the wire. -/
def addr (hi : HI) : HostAddr := ⟨hi.ip.toInt32, hi.port⟩

/-- The packing of the record's ip and port. -/
def key (hi : HI) : UInt64 := hi.addr.key

/-! ## Counting results

Virtual counters drive the judgement by rates, real and consecutive counters are updated together.
-/

/-- `succ += n`. -/
def addSucc (n : UInt32) (hi : HI) : HI := { hi with succ := hi.succ + n }

/-- `err += n`. -/
def addErr (n : UInt32) (hi : HI) : HI := { hi with err := hi.err + n }

/-- `rSucc += n; continSucc += n; continErr = 0;`. -/
def countSucc (n : UInt32) (hi : HI) : HI :=
  { hi with rSucc := hi.rSucc + n, continSucc := hi.continSucc + n, continErr := 0 }

/-- `rErr += n; continSucc = 0; continErr += n;`. -/
def countErr (n : UInt32) (hi : HI) : HI :=
  { hi with rErr := hi.rErr + n, continSucc := 0, continErr := hi.continErr + n }

/-! ## Windows and states -/

/-- `HI::checkWindow`: has the run of failing windows reached its limit? -/
def checkWindow (cfg : LbConfigure R) (hi : HI) : Bool × HI :=
  if hi.rSucc + hi.rErr = 0 then
    (false, { hi with windErrCnt := 0 })
  else if RateArith.ratioGe hi.rErr (hi.rSucc + hi.rErr) cfg.windErrRate then
    ((hi.windErrCnt + 1).toInt32 ≥ cfg.windErrLim, { hi with windErrCnt := hi.windErrCnt + 1 })
  else
    (false, { hi with windErrCnt := 0 })

/-- `HI::resetIdle`. -/
def resetIdle (initSucc : UInt32) (now : ℤ) (hi : HI) : HI :=
  { hi with
    succ := initSucc, err := 0, rSucc := 0, rErr := 0, continSucc := 0, continErr := 0
    overload := false, windowTs := now, overloadTs := 0 }

/-- `HI::setOverload`. -/
def setOverload (overloadErr : UInt32) (now : ℤ) (hi : HI) : HI :=
  { hi with
    succ := 0, err := overloadErr, rSucc := 0, rErr := 0, continSucc := 0, continErr := 0
    overload := true, overloadTs := now, windErrCnt := 0 }

end HI

end Elb
