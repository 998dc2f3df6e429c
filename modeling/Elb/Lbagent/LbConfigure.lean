import Mathlib.Data.Rat.Floor
import Mathlib.Algebra.Order.Floor.Semiring

/-!
# Configuration of the LB algorithm

Reference: `lbagent/src/RouteLb.cc`, `struct LbConfigure` and `initLbEnviro`.

The three rates are floating-point numbers in the source and enter the algorithm only through four
expressions, which `RateArith` collects. A result about any `RateArith` holds whatever the rounding;
the results about thresholds use the instance on `ℚ`, which reads every expression exactly.
-/

namespace Elb

/-- The floating-point expressions of the algorithm over rates of type `R`. -/
class RateArith (R : Type) where
  /-- `num * 1.0 / den > rate`. -/
  ratioGt : UInt32 → UInt32 → R → Bool
  /-- `num * 1.0 / den >= rate`. -/
  ratioGe : UInt32 → UInt32 → R → Bool
  /-- `num * 1.0 / den < rate`. -/
  ratioLt : UInt32 → UInt32 → R → Bool
  /-- `(unsigned)(rate * n / (1 - rate))`. -/
  scale : R → UInt32 → UInt32

/-- The exact reading. A quotient by zero is infinite, or not a number when `num` is zero too, as in
IEEE arithmetic; the conversion to `unsigned` truncates, and keeps the low 32 bits of a value that
does not fit. -/
instance : RateArith ℚ where
  ratioGt num den rate := if den = 0 then num ≠ 0 else rate < num.toNat / den.toNat
  ratioGe num den rate := if den = 0 then num ≠ 0 else rate ≤ num.toNat / den.toNat
  ratioLt num den rate := if den = 0 then false else (num.toNat / den.toNat : ℚ) < rate
  scale rate n := UInt32.ofNat ⌊rate * n.toNat / (1 - rate)⌋₊

/-- The thresholds `needSucc` and `needErr` of the batched reports: how many results of one kind
against `n` of the other reach `rate`. -/
def need {R : Type} [RateArith R] (rate : R) (n : UInt32) : UInt32 :=
  let need := RateArith.scale rate n
  if RateArith.ratioLt need (need + n) rate then need + 1 else need

/-- `struct LbConfigure`, with the address `MyIp` that `initLbEnviro` finds at the same time. -/
structure LbConfigure (R : Type) where
  initSuccCnt : Int32
  ovldErrCnt : Int32
  continSuccLim : Int32
  continErrLim : Int32
  probeNum : Int32
  updateTimo : ℤ
  clearTimo : ℤ
  reportTimo : ℤ
  ovldWaitLim : ℤ
  succRate : R
  errRate : R
  windErrRate : R
  windErrLim : Int32
  myIp : UInt32

/-- The defaults of `initLbEnviro`, on a machine whose host name does not resolve. -/
def LbConfigure.default : LbConfigure ℚ where
  initSuccCnt := 270
  ovldErrCnt := 5
  continSuccLim := 10
  continErrLim := 10
  probeNum := 10
  updateTimo := 15
  clearTimo := 15
  reportTimo := 15
  ovldWaitLim := 300
  succRate := 92 / 100
  errRate := 1 / 10
  windErrRate := 7 / 10
  windErrLim := 2
  myIp := 0x7F000001

end Elb
