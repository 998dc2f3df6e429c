import Elb.Lbagent.HostHistory

/-!
# What is left of a batch

Reference: `LB::reportSomeSucc` and `LB::reportSomeErr` in `lbagent/src/RouteLb.cc`.

A batch that takes a host across a limit leaves some of its results for the record that starts over.
The code finds them by unsigned subtractions, which are right only if the host had not reached its
limit in a row when the batch came. Every verdict and every time-out clears both counters in a row,
and whatever leaves the host in its list leaves it below the limit of that list: `BelowLimits`.
-/

namespace Elb

open Transition

variable {R : Type} [RateArith R]

/-! ## Unsigned subtraction -/

/-- The second number taken from the first, as unsigned integers and as numbers, is the same. -/
def ExactSub (p : UInt32 × UInt32) : Prop :=
  ((p.1 - p.2).toNat : ℤ) = p.1.toNat - p.2.toNat

/-- A difference is exact if it is not negative. -/
theorem exactSub_iff (p : UInt32 × UInt32) : ExactSub p ↔ p.2 ≤ p.1 := by
  rw [ExactSub, UInt32.le_iff_toNat_le]
  constructor
  · intro h
    omega
  · intro h
    rw [UInt32.toNat_sub_of_le p.1 p.2 (UInt32.le_iff_toNat_le.mpr h)]
    omega

/-- What is left of a batch: the results beyond the limit in a row, or else those beyond what the
rate needs. -/
def leftOver (contin lim batch need : UInt32) : UInt32 :=
  if lim ≤ contin then contin - lim
  else if need ≤ batch then batch - need
  else batch

/-- The subtractions that find what is left, and the one that takes it from the batch. -/
def leftSubs (contin lim batch need : UInt32) : List (UInt32 × UInt32) :=
  (if lim ≤ contin then [(contin, lim)]
    else if need ≤ batch then [(batch, need)]
    else []) ++ [(batch, leftOver contin lim batch need)]

/-- From below the limit no batch leaves more than it holds, even if the counter wraps around. -/
theorem left_le {c lim n need : UInt32} (h : c < lim) : leftOver (c + n) lim n need ≤ n := by
  rw [leftOver]
  split
  · next hlim =>
    rw [UInt32.le_iff_toNat_le, UInt32.toNat_sub_of_le _ _ hlim]
    rw [UInt32.lt_iff_toNat_lt] at h
    have hadd : (c + n).toNat ≤ c.toNat + n.toNat := toNat_add_le c n
    omega
  · split
    · next hneed =>
      rw [UInt32.le_iff_toNat_le, UInt32.toNat_sub_of_le _ _ hneed]
      exact Nat.sub_le _ _
    · exact UInt32.le_refl n

/-- All differences are exact if the limit was not reached before the batch. -/
theorem exactSub_of_mem_leftSubs {c lim n need : UInt32} (h : c < lim) {p : UInt32 × UInt32}
    (hp : p ∈ leftSubs (c + n) lim n need) : ExactSub p := by
  rw [exactSub_iff]
  rw [leftSubs, List.mem_append, List.mem_singleton] at hp
  rcases hp with hp | rfl
  · split at hp
    · next hlim => rwa [List.mem_singleton.mp hp]
    · split at hp
      · next hneed => rwa [List.mem_singleton.mp hp]
      · cases hp
  · exact left_le h

/-- A counter in a row that does not wrap around leaves what it has beyond the limit. -/
theorem left_eq_surplus {c n : UInt32} {lim : Int32} {need : UInt32} (hpos : 0 < lim)
    (hfit : c.toNat + n.toNat < 2 ^ 32) (hlim : lim.toInt ≤ c.toNat + n.toNat) :
    ((leftOver (c + n) lim.toUInt32 n need).toNat : ℤ) = c.toNat + n.toNat - lim.toInt := by
  have hadd : (c + n).toNat = c.toNat + n.toNat := toNat_add_of_lt hfit
  have hnum : (lim.toUInt32.toNat : ℤ) = lim.toInt := by
    rw [Int32.lt_iff_toInt_lt] at hpos
    have h0 : (0 : Int32).toInt = 0 := rfl
    have hhigh := lim.toInt_lt
    rw [toNat_toUInt32]
    omega
  have hle : lim.toUInt32 ≤ c + n := by
    rw [UInt32.le_iff_toNat_le, hadd]
    omega
  rw [leftOver, if_pos hle, UInt32.toNat_sub_of_le _ _ hle, hadd]
  omega

/-! ## Below the limits -/

namespace HI

variable {cfg : LbConfigure R} {now : ℤ} {hi : HI}

/-- The host has not reached the limit in a row that would take it out of its list. -/
structure BelowLimits (cfg : LbConfigure R) (hi : HI) : Prop where
  idle : hi.overload = false → hi.continErr < cfg.continErrLim.toUInt32
  overloaded : hi.overload = true → hi.continSucc < cfg.continSuccLim.toUInt32

omit [RateArith R] in
/-- A record with both counters cleared. -/
theorem belowLimits_of_cleared (herr : 0 < cfg.continErrLim) (hsucc : 0 < cfg.continSuccLim)
    (hE : hi.continErr = 0) (hS : hi.continSucc = 0) : hi.BelowLimits cfg where
  idle _ := hE ▸ toUInt32_pos herr
  overloaded _ := hS ▸ toUInt32_pos hsucc

end HI

namespace LB

variable {cfg : LbConfigure R} {now : ℤ} {hi hi' : HI} {op : Op}

/-- A call result that does not judge the idle host leaves it below the limit. -/
theorem Op.count_continErr_lt (hno : ¬op.Overloads cfg hi) (hpos : 0 < cfg.continErrLim)
    (hidle : hi.overload = false) (h : hi.continErr < cfg.continErrLim.toUInt32) :
    (op.count hi).continErr < cfg.continErrLim.toUInt32 := by
  cases op with
  | report ip port retcode =>
    rw [Op.count]
    split
    · exact toUInt32_pos hpos
    · next hret => exact UInt32.not_le.mp fun hlim => hno ⟨hidle, hret, .inr hlim⟩
  | reportSomeSucc ip port n => exact toUInt32_pos hpos
  | reportSomeErr ip port n => exact UInt32.not_le.mp fun hlim => hno ⟨hidle, .inl hlim⟩
  | _ => exact h

/-- A call result that does not judge the overloaded host leaves it below the limit. -/
theorem Op.count_continSucc_lt (hno : ¬op.Recovers cfg hi) (hpos : 0 < cfg.continSuccLim)
    (hover : hi.overload = true) (h : hi.continSucc < cfg.continSuccLim.toUInt32) :
    (op.count hi).continSucc < cfg.continSuccLim.toUInt32 := by
  cases op with
  | report ip port retcode =>
    rw [Op.count]
    split
    · next hret => exact UInt32.not_le.mp fun hlim => hno ⟨hover, hret, .inr hlim⟩
    · exact toUInt32_pos hpos
  | reportSomeSucc ip port n => exact UInt32.not_le.mp fun hlim => hno ⟨hover, .inl hlim⟩
  | reportSomeErr ip port n => exact toUInt32_pos hpos
  | _ => exact h

/-- Whatever a call result does, it leaves the host below the limits. -/
theorem Outcome.belowLimits (herr : 0 < cfg.continErrLim) (hsucc : 0 < cfg.continSuccLim)
    (h : hi.BelowLimits cfg) (ho : Outcome cfg now hi op hi') : hi'.BelowLimits cfg := by
  cases ho with
  | counts hno =>
    refine ⟨fun hidle => ?_, fun hover => ?_⟩
    · rw [Op.count_overload] at hidle
      exact Op.count_continErr_lt (fun ho => hno (.inl ho)) herr hidle (h.idle hidle)
    · rw [Op.count_overload] at hover
      exact Op.count_continSucc_lt (fun hr => hno (.inr (.inl hr))) hsucc hover
        (h.overloaded hover)
  -- everything else starts the record over
  | overloads => exact HI.belowLimits_of_cleared herr hsucc rfl rfl
  | recovers => exact HI.belowLimits_of_cleared herr hsucc rfl rfl
  | windowDown => exact HI.belowLimits_of_cleared herr hsucc rfl rfl
  | windowReset => exact HI.belowLimits_of_cleared herr hsucc rfl rfl
  | waitsOut => exact HI.belowLimits_of_cleared herr hsucc rfl rfl

/-- With positive limits, every host of every reachable state is below its limit. -/
theorem belowLimits_of_reachable (herr : 0 < cfg.continErrLim) (hsucc : 0 < cfg.continSuccLim)
    {lb : LB} (h : (system cfg).Reachable lb) :
    ∀ key hi, lb.hostMap.lookup key = some hi → hi.BelowLimits cfg := by
  refine h.invariant
    (P := fun lb => ∀ key hi, lb.hostMap.lookup key = some hi → hi.BelowLimits cfg) ?_ ?_
  · rintro _ ⟨self, modid, cmdid, rfl⟩ key hi hk
    simp [LB.new] at hk
  · rintro lb ⟨now, op⟩ lb' hr ih ⟨hne, out, hex⟩
    refine (repInv_of_reachable hr).exec_forall hne hex ?_ (fun key hi htgt hk => ?_) ih
    · exact fun p a => HI.belowLimits_of_cleared herr hsucc rfl rfl
    · exact (outcome_apply htgt cfg now hi).belowLimits herr hsucc (ih key hi hk)

/-! ## What a batch leaves -/

/-- The unsigned subtractions of a call result on a record: those of the judgement, which looks at an
overloaded host when successes come and at an idle one when failures come. -/
def Op.subs (cfg : LbConfigure R) (hi : HI) : Op → List (UInt32 × UInt32)
  | .reportSomeSucc _ _ succCnt =>
    if hi.overload then
      leftSubs (hi.continSucc + succCnt) cfg.continSuccLim.toUInt32 succCnt
        (need cfg.succRate hi.err)
    else []
  | .reportSomeErr _ _ errCnt =>
    if hi.overload then []
    else
      leftSubs (hi.continErr + errCnt) cfg.continErrLim.toUInt32 errCnt (need cfg.errRate hi.succ)
  | _ => []

/-- The successes that go to the new record. -/
theorem leftSucc_eq (cfg : LbConfigure R) (hi : HI) (ip port : Int32) (n : UInt32) :
    (Op.reportSomeSucc ip port n).leftSucc cfg hi =
      leftOver (hi.continSucc + n) cfg.continSuccLim.toUInt32 n (need cfg.succRate hi.err) := by
  rw [Op.leftSucc, judgeIdle, leftOver, apply_ite Prod.snd, apply_ite Prod.snd]
  rfl

/-- The failures that go to the new record. -/
theorem leftErr_eq (cfg : LbConfigure R) (hi : HI) (ip port : Int32) (n : UInt32) :
    (Op.reportSomeErr ip port n).leftErr cfg hi =
      leftOver (hi.continErr + n) cfg.continErrLim.toUInt32 n (need cfg.errRate hi.succ) := by
  rw [Op.leftErr, judgeOverload, leftOver, apply_ite Prod.snd, apply_ite Prod.snd]
  rfl

/-- Below the limits, a batch of successes leaves no more than it holds of an overloaded host, and a
batch of failures no more of an idle one. -/
theorem left_le_of_belowLimits (h : hi.BelowLimits cfg) (op : Op) :
    (hi.overload = true → op.leftSucc cfg hi ≤ op.succs) ∧
      (hi.overload = false → op.leftErr cfg hi ≤ op.errs) := by
  refine ⟨fun hover => ?_, fun hidle => ?_⟩
  · cases op with
    | reportSomeSucc ip port n =>
      rw [leftSucc_eq]
      exact left_le (h.overloaded hover)
    | _ => exact UInt32.zero_le
  · cases op with
    | reportSomeErr ip port n =>
      rw [leftErr_eq]
      exact left_le (h.idle hidle)
    | _ => exact UInt32.zero_le

/-- Below the limits, no subtraction of a call result wraps around. -/
theorem exactSub_of_belowLimits (h : hi.BelowLimits cfg) {p : UInt32 × UInt32}
    (hp : p ∈ op.subs cfg hi) : ExactSub p := by
  cases op with
  | reportSomeSucc ip port n =>
    rw [Op.subs] at hp
    split at hp
    · next hover => exact exactSub_of_mem_leftSubs (h.overloaded hover) hp
    · cases hp
  | reportSomeErr ip port n =>
    rw [Op.subs] at hp
    split at hp
    · cases hp
    · next hover => exact exactSub_of_mem_leftSubs (h.idle (by simpa using hover)) hp
  | _ => cases hp

/-- With positive limits, in every state of every run each host is below the limit of its list, so
no batch leaves more than it holds and no subtraction wraps around. A counter in a row that does
not wrap around either leaves exactly what it has beyond the limit. -/
theorem left_exact (herr : 0 < cfg.continErrLim) (hsucc : 0 < cfg.continSuccLim) {lb : LB}
    (h : (system cfg).Reachable lb) {key : UInt64} {hi : HI}
    (hk : lb.hostMap.lookup key = some hi) :
    hi.BelowLimits cfg ∧
      (∀ op : Op,
        (hi.overload = true → op.leftSucc cfg hi ≤ op.succs) ∧
          (hi.overload = false → op.leftErr cfg hi ≤ op.errs) ∧
          ∀ p ∈ op.subs cfg hi, ExactSub p) ∧
      ∀ ip port n,
        (hi.continSucc.toNat + n.toNat < 2 ^ 32 →
          cfg.continSuccLim.toInt ≤ hi.continSucc.toNat + n.toNat →
          (((Op.reportSomeSucc ip port n).leftSucc cfg hi).toNat : ℤ) =
            hi.continSucc.toNat + n.toNat - cfg.continSuccLim.toInt) ∧
        (hi.continErr.toNat + n.toNat < 2 ^ 32 →
          cfg.continErrLim.toInt ≤ hi.continErr.toNat + n.toNat →
          (((Op.reportSomeErr ip port n).leftErr cfg hi).toNat : ℤ) =
            hi.continErr.toNat + n.toNat - cfg.continErrLim.toInt) := by
  have hbelow := belowLimits_of_reachable herr hsucc h key hi hk
  refine ⟨hbelow, fun op => ?_, fun ip port n => ⟨fun hfit hlim => ?_, fun hfit hlim => ?_⟩⟩
  · obtain ⟨hS, hE⟩ := left_le_of_belowLimits hbelow op
    exact ⟨hS, hE, fun p hp => exactSub_of_belowLimits hbelow hp⟩
  · rw [leftSucc_eq]
    exact left_eq_surplus hsucc hfit hlim
  · rw [leftErr_eq]
    exact left_eq_surplus herr hfit hlim

/-- Nine failures leave the host idle, one below the limit; of a batch of five then four are left. -/
theorem left_exact_four : ∃ lb hi, (system LbConfigure.default).Reachable lb ∧
    lb.hostMap.lookup (packKey 10 80) = some hi ∧ hi.continErr = 9 ∧
    hi.BelowLimits LbConfigure.default ∧
    (Op.reportSomeErr 10 80 5).leftErr LbConfigure.default hi = 4 ∧
    ∀ p ∈ (Op.reportSomeErr 10 80 5).subs LbConfigure.default hi, ExactSub p := by
  obtain ⟨lb, hr, hk⟩ := hosts_fresh.reportSomeErr (n := 9)
    ⟨by decide, by decide, by decide, by decide⟩ 1
  obtain ⟨hbelow, hops, -⟩ := left_exact (by decide) (by decide) hr.of_restrict hk
  exact ⟨lb, _, hr.of_restrict, hk, by decide +kernel, hbelow, by decide +kernel,
    (hops (.reportSomeErr 10 80 5)).2.2⟩

end LB

end Elb
