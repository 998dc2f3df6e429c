import Elb.Common.Counting
import Elb.Lbagent.LbRun

/-!
# Batches of results and results one at a time

Reference: `lbagent/src/RouteLb.cc`, `LB::reportSomeErr` and `LB::reportSomeSucc` against
`LB::report`.

Both ways of reporting count the same results, but they judge by different numbers: a single result
is judged by the accumulated counters, a batch by the consecutive ones and by its own size, and
after a verdict the rest of a batch goes to the virtual counter alone. The two theorems say exactly
when the states agree all the same, as long as no time-out is due.
-/

namespace Elb

variable {R : Type} [RateArith R] (cfg : LbConfigure R) (now : ℤ)

namespace HI

/-- The record after `n` failures, as far as they are counted. -/
def countErrs (n : UInt32) (hi : HI) : HI := (hi.addErr n).countErr n

/-- The record after `n` successes, as far as they are counted. -/
def countSuccs (n : UInt32) (hi : HI) : HI := (hi.addSucc n).countSucc n

/-- The `j`-th of some single failures is judged to make the idle host overloaded. -/
def ErrTest (hi : HI) (j : UInt32) : Prop :=
  RateArith.ratioGt (hi.err + j) (hi.succ + (hi.err + j)) cfg.errRate = true ∨
    cfg.continErrLim.toUInt32 ≤ hi.continErr + j

instance (hi : HI) (j : UInt32) : Decidable (hi.ErrTest cfg j) :=
  inferInstanceAs (Decidable (_ ∨ _))

/-- The `j`-th of some single successes is judged to make the overloaded host idle. -/
def SuccTest (hi : HI) (j : UInt32) : Prop :=
  RateArith.ratioGt (hi.succ + j) (hi.succ + j + hi.err) cfg.succRate = true ∨
    cfg.continSuccLim.toUInt32 ≤ hi.continSucc + j

instance (hi : HI) (j : UInt32) : Decidable (hi.SuccTest cfg j) :=
  inferInstanceAs (Decidable (_ ∨ _))

/-- A batch of `n` failures reaches one of the limits of `reportSomeErr`: so many in a row, or as
many as the rate needs against all successes. -/
def ErrBatch (hi : HI) (n : UInt32) : Prop :=
  cfg.continErrLim.toUInt32 ≤ hi.continErr + n ∨ need cfg.errRate hi.succ ≤ n

/-- The limit that counts, the one in a row if it is reached, is reached without a remainder. -/
def ErrBatchExact (hi : HI) (n : UInt32) : Prop :=
  if cfg.continErrLim.toUInt32 ≤ hi.continErr + n then
    hi.continErr + n = cfg.continErrLim.toUInt32
  else n = need cfg.errRate hi.succ

/-- A batch of `n` successes reaches one of the limits of `reportSomeSucc`. -/
def SuccBatch (hi : HI) (n : UInt32) : Prop :=
  cfg.continSuccLim.toUInt32 ≤ hi.continSucc + n ∨ need cfg.succRate hi.err ≤ n

/-- The limit that counts, the one in a row if it is reached, is reached without a remainder. -/
def SuccBatchExact (hi : HI) (n : UInt32) : Prop :=
  if cfg.continSuccLim.toUInt32 ≤ hi.continSucc + n then
    hi.continSucc + n = cfg.continSuccLim.toUInt32
  else n = need cfg.succRate hi.err

end HI

namespace LB

/-! ## Reports without a time-out -/

omit [RateArith R] in
/-- Of two records stored under one key the second counts. -/
theorem store_store (lb : LB) (key : UInt64) (hi hi' : HI) :
    (lb.store key hi).store key hi' = lb.store key hi' := by
  rw [store, store, store, AList.insert_insert]

variable {cfg now}

/-- Without a time-out the closing block does nothing. -/
theorem checkTimo_of_not_due {lb : LB} {key : UInt64} {hi : HI} (hdue : ¬hi.TimoDue cfg now) :
    lb.checkTimo cfg now key hi = lb.store key hi := by
  rw [HI.TimoDue, not_or, not_and, not_and] at hdue
  rw [LB.checkTimo]
  by_cases hover : hi.overload = true
  · have hwait := hdue.2 hover
    rw [if_neg (by simp [hover]), if_neg (by omega)]
  · have hidle : hi.overload = false := by simpa using hover
    have hwindow := hdue.1 hidle
    rw [if_pos (by simp [hidle]), if_neg (by omega)]

omit [RateArith R] in
/-- The record that was stored is found. -/
theorem lookup_store_self (lb : LB) (key : UInt64) (hi : HI) :
    (lb.store key hi).hostMap.lookup key = some hi := by
  simp

omit [RateArith R] in
/-- Different records make different states. -/
theorem store_inj {lb lb' : LB} {key : UInt64} {hi hi' : HI}
    (h : lb.store key hi = lb'.store key hi') : hi = hi' := by
  have hk := congrArg (fun lb : LB => lb.hostMap.lookup key) h
  simpa using hk

/-! ## Single results -/

section Single

variable {lb : LB} {ip port : Int32} {hi : HI} {retcode : Int32}

/-- A failure of an idle host. -/
theorem report_err_idle (hk : lb.hostMap.lookup (packKey ip port) = some hi) (hret : retcode ≠ 0)
    (hidle : hi.overload = false) (hdue : ¬hi.TimoDue cfg now) :
    (hi.ErrTest cfg 1 → lb.report cfg now ip port retcode =
        (lb.moveDown hi.self).store (packKey ip port)
          (hi.setOverload cfg.ovldErrCnt.toUInt32 now)) ∧
      (¬hi.ErrTest cfg 1 → lb.report cfg now ip port retcode =
        lb.store (packKey ip port) (hi.countErrs 1)) := by
  have hdue' : ¬(hi.countErrs 1).TimoDue cfg now := hdue
  rw [LB.report, hk]
  dsimp only
  rw [if_neg hret, if_pos (by simpa [HI.addErr, HI.countErr, hidle] using hret)]
  constructor
  · intro htest
    rw [if_pos (by simpa [HI.ErrTest, HI.addErr, HI.countErr] using htest)]
    rfl
  · intro htest
    rw [if_neg (by simpa [HI.ErrTest, HI.addErr, HI.countErr] using htest)]
    exact checkTimo_of_not_due hdue'

/-- A failure of an overloaded host. -/
theorem report_err_overloaded (hk : lb.hostMap.lookup (packKey ip port) = some hi)
    (hret : retcode ≠ 0) (hover : hi.overload = true) (hdue : ¬hi.TimoDue cfg now) :
    lb.report cfg now ip port retcode = lb.store (packKey ip port) (hi.countErrs 1) := by
  have hdue' : ¬(hi.countErrs 1).TimoDue cfg now := hdue
  rw [LB.report, hk]
  dsimp only
  rw [if_neg hret, if_neg (by simp [HI.addErr, HI.countErr, hover]), if_neg (by simp [hret])]
  exact checkTimo_of_not_due hdue'

/-- A success of an overloaded host. -/
theorem report_succ_overloaded (hk : lb.hostMap.lookup (packKey ip port) = some hi)
    (hover : hi.overload = true) (hdue : ¬hi.TimoDue cfg now) :
    (hi.SuccTest cfg 1 → lb.report cfg now ip port 0 =
        (lb.moveRunning hi.self).store (packKey ip port)
          (hi.resetIdle cfg.initSuccCnt.toUInt32 now)) ∧
      (¬hi.SuccTest cfg 1 → lb.report cfg now ip port 0 =
        lb.store (packKey ip port) (hi.countSuccs 1)) := by
  have hdue' : ¬(hi.countSuccs 1).TimoDue cfg now := hdue
  rw [LB.report, hk]
  dsimp only
  rw [if_pos rfl, if_neg (by simp), if_pos (by simp [HI.addSucc, HI.countSucc, hover])]
  constructor
  · intro htest
    rw [if_pos (by simpa [HI.SuccTest, HI.addSucc, HI.countSucc] using htest)]
    rfl
  · intro htest
    rw [if_neg (by simpa [HI.SuccTest, HI.addSucc, HI.countSucc] using htest)]
    exact checkTimo_of_not_due hdue'

/-- A success of an idle host. -/
theorem report_succ_idle (hk : lb.hostMap.lookup (packKey ip port) = some hi)
    (hidle : hi.overload = false) (hdue : ¬hi.TimoDue cfg now) :
    lb.report cfg now ip port 0 = lb.store (packKey ip port) (hi.countSuccs 1) := by
  have hdue' : ¬(hi.countSuccs 1).TimoDue cfg now := hdue
  rw [LB.report, hk]
  dsimp only
  rw [if_pos rfl, if_neg (by simp), if_neg (by simp [HI.addSucc, HI.countSucc, hidle])]
  exact checkTimo_of_not_due hdue'

end Single

/-! ## Batches -/

section Batch

variable {lb : LB} {ip port : Int32} {hi : HI} {n : UInt32}

/-- Numbers that wrap around differ by zero only if they are equal. -/
theorem sub_eq_zero_iff (a b : UInt32) : a - b = 0 ↔ a = b := by
  constructor
  · intro h
    rw [← UInt32.sub_add_cancel a b, h, UInt32.zero_add]
  · rintro rfl
    exact UInt32.sub_self a

/-- The verdict on a batch of failures and what it leaves over. -/
theorem judgeOverload_batch (cfg : LbConfigure R) (hi : HI) (n : UInt32) :
    (hi.ErrBatch cfg n → (judgeOverload cfg n (hi.countErr n)).1 = true ∧
        ((judgeOverload cfg n (hi.countErr n)).2 = 0 ↔ hi.ErrBatchExact cfg n)) ∧
      (¬hi.ErrBatch cfg n → judgeOverload cfg n (hi.countErr n) = (false, n)) := by
  have hjudge : judgeOverload cfg n (hi.countErr n) =
      if cfg.continErrLim.toUInt32 ≤ hi.continErr + n then
        (true, hi.continErr + n - cfg.continErrLim.toUInt32)
      else if need cfg.errRate hi.succ ≤ n then (true, n - need cfg.errRate hi.succ)
      else (false, n) := rfl
  rw [HI.ErrBatch, HI.ErrBatchExact, hjudge]
  -- the limit in a row is looked at first, as in the source
  by_cases hcontin : cfg.continErrLim.toUInt32 ≤ hi.continErr + n
  · rw [if_pos hcontin, if_pos hcontin]
    exact ⟨fun _ => ⟨rfl, sub_eq_zero_iff _ _⟩, fun hnot => absurd (.inl hcontin) hnot⟩
  · rw [if_neg hcontin, if_neg hcontin]
    by_cases hneed : need cfg.errRate hi.succ ≤ n
    · rw [if_pos hneed]
      exact ⟨fun _ => ⟨rfl, sub_eq_zero_iff _ _⟩, fun hnot => absurd (.inr hneed) hnot⟩
    · rw [if_neg hneed]
      exact ⟨fun hor => absurd hor (by simp [hcontin, hneed]), fun _ => rfl⟩

/-- The verdict on a batch of successes and what it leaves over. -/
theorem judgeIdle_batch (cfg : LbConfigure R) (hi : HI) (n : UInt32) :
    (hi.SuccBatch cfg n → (judgeIdle cfg n (hi.countSucc n)).1 = true ∧
        ((judgeIdle cfg n (hi.countSucc n)).2 = 0 ↔ hi.SuccBatchExact cfg n)) ∧
      (¬hi.SuccBatch cfg n → judgeIdle cfg n (hi.countSucc n) = (false, n)) := by
  have hjudge : judgeIdle cfg n (hi.countSucc n) =
      if cfg.continSuccLim.toUInt32 ≤ hi.continSucc + n then
        (true, hi.continSucc + n - cfg.continSuccLim.toUInt32)
      else if need cfg.succRate hi.err ≤ n then (true, n - need cfg.succRate hi.err)
      else (false, n) := rfl
  rw [HI.SuccBatch, HI.SuccBatchExact, hjudge]
  -- the limit in a row is looked at first, as in the source
  by_cases hcontin : cfg.continSuccLim.toUInt32 ≤ hi.continSucc + n
  · rw [if_pos hcontin, if_pos hcontin]
    exact ⟨fun _ => ⟨rfl, sub_eq_zero_iff _ _⟩, fun hnot => absurd (.inl hcontin) hnot⟩
  · rw [if_neg hcontin, if_neg hcontin]
    by_cases hneed : need cfg.succRate hi.err ≤ n
    · rw [if_pos hneed]
      exact ⟨fun _ => ⟨rfl, sub_eq_zero_iff _ _⟩, fun hnot => absurd (.inr hneed) hnot⟩
    · rw [if_neg hneed]
      exact ⟨fun hor => absurd hor (by simp [hcontin, hneed]), fun _ => rfl⟩

/-- A batch of failures of an idle host. What is left over of it after the verdict goes to `err`. -/
theorem reportSomeErr_idle (hk : lb.hostMap.lookup (packKey ip port) = some hi)
    (hidle : hi.overload = false) (hdue : ¬hi.TimoDue cfg now) (hwait : 0 < cfg.ovldWaitLim) :
    (hi.ErrBatch cfg n → ∃ left, (left = 0 ↔ hi.ErrBatchExact cfg n) ∧
        lb.reportSomeErr cfg now ip port n = (lb.moveDown hi.self).store (packKey ip port)
          ((hi.setOverload cfg.ovldErrCnt.toUInt32 now).addErr left)) ∧
      (¬hi.ErrBatch cfg n → lb.reportSomeErr cfg now ip port n =
        lb.store (packKey ip port) (hi.countErrs n)) := by
  obtain ⟨hyes, hno⟩ := judgeOverload_batch cfg hi n
  rw [LB.reportSomeErr, hk]
  dsimp only
  rw [if_neg (by simp [HI.countErr, hidle])]
  constructor
  · intro hbatch
    obtain ⟨hjudge, hexact⟩ := hyes hbatch
    refine ⟨(judgeOverload cfg n (hi.countErr n)).2, hexact, ?_⟩
    rw [if_pos hjudge]
    -- the waiting time of the host starts now
    refine checkTimo_of_not_due ?_
    simpa [HI.TimoDue, HI.addErr, HI.setOverload] using hwait
  · intro hbatch
    rw [hno hbatch, if_neg (by simp)]
    have hdue' : ¬(((hi.countErr n).addErr (n - n)).addErr n).TimoDue cfg now := hdue
    refine (checkTimo_of_not_due hdue').trans ?_
    simp [HI.countErrs, HI.addErr, HI.countErr]

/-- A batch of failures of an overloaded host. -/
theorem reportSomeErr_overloaded (hk : lb.hostMap.lookup (packKey ip port) = some hi)
    (hover : hi.overload = true) (hdue : ¬hi.TimoDue cfg now) :
    lb.reportSomeErr cfg now ip port n = lb.store (packKey ip port) (hi.countErrs n) := by
  have hdue' : ¬(hi.countErrs n).TimoDue cfg now := hdue
  rw [LB.reportSomeErr, hk]
  dsimp only
  rw [if_pos (by simpa [HI.countErr] using hover)]
  exact checkTimo_of_not_due hdue'

/-- A batch of successes of an overloaded host. What is left over of it after the verdict goes to
`succ`. -/
theorem reportSomeSucc_overloaded (hk : lb.hostMap.lookup (packKey ip port) = some hi)
    (hover : hi.overload = true) (hdue : ¬hi.TimoDue cfg now) (hclear : 0 < cfg.clearTimo) :
    (hi.SuccBatch cfg n → ∃ left, (left = 0 ↔ hi.SuccBatchExact cfg n) ∧
        lb.reportSomeSucc cfg now ip port n = (lb.moveRunning hi.self).store (packKey ip port)
          ((hi.resetIdle cfg.initSuccCnt.toUInt32 now).addSucc left)) ∧
      (¬hi.SuccBatch cfg n → lb.reportSomeSucc cfg now ip port n =
        lb.store (packKey ip port) (hi.countSuccs n)) := by
  obtain ⟨hyes, hno⟩ := judgeIdle_batch cfg hi n
  rw [LB.reportSomeSucc, hk]
  dsimp only
  rw [if_neg (by simp [HI.countSucc, hover])]
  constructor
  · intro hbatch
    obtain ⟨hjudge, hexact⟩ := hyes hbatch
    refine ⟨(judgeIdle cfg n (hi.countSucc n)).2, hexact, ?_⟩
    rw [if_pos hjudge]
    -- the window of the host starts now
    refine checkTimo_of_not_due ?_
    simpa [HI.TimoDue, HI.addSucc, HI.resetIdle] using hclear
  · intro hbatch
    rw [hno hbatch, if_neg (by simp)]
    have hdue' : ¬(((hi.countSucc n).addSucc (n - n)).addSucc n).TimoDue cfg now := hdue
    refine (checkTimo_of_not_due hdue').trans ?_
    simp [HI.countSuccs, HI.addSucc, HI.countSucc]

/-- A batch of successes of an idle host. -/
theorem reportSomeSucc_idle (hk : lb.hostMap.lookup (packKey ip port) = some hi)
    (hidle : hi.overload = false) (hdue : ¬hi.TimoDue cfg now) :
    lb.reportSomeSucc cfg now ip port n = lb.store (packKey ip port) (hi.countSuccs n) := by
  have hdue' : ¬(hi.countSuccs n).TimoDue cfg now := hdue
  rw [LB.reportSomeSucc, hk]
  dsimp only
  rw [if_pos (by simpa [HI.countSucc] using hidle)]
  exact checkTimo_of_not_due hdue'

end Batch

/-! ## Single results in a row -/

/-- The state after `j` results that are only counted, if `count n` is the record after `n` of them.
-/
def counted (lb : LB) (key : UInt64) (count : UInt32 → HI) : ℕ → LB
  | 0 => lb
  | j + 1 => lb.store key (count (UInt32.ofNat (j + 1)))

omit [RateArith R] in
/-- Failures counted in two goes are failures counted at once. -/
theorem countErrs_add (hi : HI) (m n : UInt32) :
    (hi.countErrs m).countErrs n = hi.countErrs (m + n) := by
  simp [HI.countErrs, HI.addErr, HI.countErr, UInt32.add_assoc]

omit [RateArith R] in
/-- Successes counted in two goes are successes counted at once. -/
theorem countSuccs_add (hi : HI) (m n : UInt32) :
    (hi.countSuccs m).countSuccs n = hi.countSuccs (m + n) := by
  simp [HI.countSuccs, HI.addSucc, HI.countSucc, UInt32.add_assoc]

omit [RateArith R] in
/-- Counting no failure changes nothing, if no success came right before. -/
theorem countErrs_zero {hi : HI} (h : hi.continSucc = 0) : hi.countErrs 0 = hi := by
  cases hi
  simp_all [HI.countErrs, HI.addErr, HI.countErr]

omit [RateArith R] in
/-- Counting no success changes nothing, if no failure came right before. -/
theorem countSuccs_zero {hi : HI} (h : hi.continErr = 0) : hi.countSuccs 0 = hi := by
  cases hi
  simp_all [HI.countSuccs, HI.addSucc, HI.countSucc]

/-- One more result is one more in the counter. -/
theorem ofNat_succ (j : ℕ) : UInt32.ofNat (j + 1) = UInt32.ofNat j + 1 :=
  UInt32.ofNat_add j 1

/-- What a failure is tested for depends on how many there are in all. -/
theorem errTest_countErrs (hi : HI) (m n : UInt32) :
    (hi.countErrs m).ErrTest cfg n ↔ hi.ErrTest cfg (m + n) := by
  simp [HI.ErrTest, HI.countErrs, HI.addErr, HI.countErr, UInt32.add_assoc]

/-- What a success is tested for depends on how many there are in all. -/
theorem succTest_countSuccs (hi : HI) (m n : UInt32) :
    (hi.countSuccs m).SuccTest cfg n ↔ hi.SuccTest cfg (m + n) := by
  simp [HI.SuccTest, HI.countSuccs, HI.addSucc, HI.countSucc, UInt32.add_assoc]

section Row

variable {lb : LB} {ip port : Int32} {hi : HI}

/-- Single failures of an idle host are counted until one of them is judged, and then counted for
the overloaded host. -/
theorem counts_err (hk : lb.hostMap.lookup (packKey ip port) = some hi)
    (hidle : hi.overload = false) (hdue : ¬hi.TimoDue cfg now) (hwait : 0 < cfg.ovldWaitLim)
    {retcode : Int32} (hret : retcode ≠ 0) :
    Counting.Counts (fun lb => lb.report cfg now ip port retcode)
      (fun j => hi.ErrTest cfg (UInt32.ofNat j))
      (lb.counted (packKey ip port) hi.countErrs)
      (fun k => (lb.moveDown hi.self).store (packKey ip port)
        ((hi.setOverload cfg.ovldErrCnt.toUInt32 now).countErrs (UInt32.ofNat k))) where
  step j := by
    cases j with
    | zero => exact fun htest => (report_err_idle hk hret hidle hdue).2 htest
    | succ j =>
      intro htest
      rw [ofNat_succ, ← errTest_countErrs] at htest
      have hk' := lookup_store_self lb (packKey ip port) (hi.countErrs (UInt32.ofNat (j + 1)))
      refine ((report_err_idle hk' hret hidle hdue).2 htest).trans ?_
      rw [store_store, countErrs_add, ← ofNat_succ]
      rfl
  -- the record of an overloaded host starts over, so what was stored before is gone
  verdict j := by
    rw [show UInt32.ofNat 0 = 0 from rfl, countErrs_zero rfl]
    cases j with
    | zero => exact fun htest => (report_err_idle hk hret hidle hdue).1 htest
    | succ j =>
      intro htest
      rw [ofNat_succ, ← errTest_countErrs] at htest
      have hk' := lookup_store_self lb (packKey ip port) (hi.countErrs (UInt32.ofNat (j + 1)))
      refine ((report_err_idle hk' hret hidle hdue).1 htest).trans ?_
      exact store_store (lb.moveDown hi.self) _ _ _
  -- the waiting time has just begun, so no further failure ends it
  rest k := by
    have hdue' : ¬((hi.setOverload cfg.ovldErrCnt.toUInt32 now).countErrs
        (UInt32.ofNat k)).TimoDue cfg now := by
      simpa [HI.TimoDue, HI.countErrs, HI.addErr, HI.countErr, HI.setOverload] using hwait
    refine (report_err_overloaded (lookup_store_self _ _ _) hret rfl hdue').trans ?_
    rw [store_store, countErrs_add, ← ofNat_succ]

/-- Single successes of an overloaded host are counted until one of them is judged, and then counted
for the idle host. -/
theorem counts_succ (hk : lb.hostMap.lookup (packKey ip port) = some hi)
    (hover : hi.overload = true) (hdue : ¬hi.TimoDue cfg now) (hclear : 0 < cfg.clearTimo) :
    Counting.Counts (fun lb => lb.report cfg now ip port 0)
      (fun j => hi.SuccTest cfg (UInt32.ofNat j))
      (lb.counted (packKey ip port) hi.countSuccs)
      (fun k => (lb.moveRunning hi.self).store (packKey ip port)
        ((hi.resetIdle cfg.initSuccCnt.toUInt32 now).countSuccs (UInt32.ofNat k))) where
  step j := by
    cases j with
    | zero => exact fun htest => (report_succ_overloaded hk hover hdue).2 htest
    | succ j =>
      intro htest
      rw [ofNat_succ, ← succTest_countSuccs] at htest
      have hk' := lookup_store_self lb (packKey ip port) (hi.countSuccs (UInt32.ofNat (j + 1)))
      refine ((report_succ_overloaded hk' hover hdue).2 htest).trans ?_
      rw [store_store, countSuccs_add, ← ofNat_succ]
      rfl
  -- the record of an idle host starts over, so what was stored before is gone
  verdict j := by
    rw [show UInt32.ofNat 0 = 0 from rfl, countSuccs_zero rfl]
    cases j with
    | zero => exact fun htest => (report_succ_overloaded hk hover hdue).1 htest
    | succ j =>
      intro htest
      rw [ofNat_succ, ← succTest_countSuccs] at htest
      have hk' := lookup_store_self lb (packKey ip port) (hi.countSuccs (UInt32.ofNat (j + 1)))
      refine ((report_succ_overloaded hk' hover hdue).1 htest).trans ?_
      exact store_store (lb.moveRunning hi.self) _ _ _
  -- the window has just begun, so no further success ends it
  rest k := by
    have hdue' : ¬((hi.resetIdle cfg.initSuccCnt.toUInt32 now).countSuccs
        (UInt32.ofNat k)).TimoDue cfg now := by
      simpa [HI.TimoDue, HI.countSuccs, HI.addSucc, HI.countSucc, HI.resetIdle] using hclear
    refine (report_succ_idle (lookup_store_self _ _ _) rfl hdue').trans ?_
    rw [store_store, countSuccs_add, ← ofNat_succ]

/-- Single failures of an overloaded host are counted. -/
theorem iterate_err_overloaded (hk : lb.hostMap.lookup (packKey ip port) = some hi)
    (hover : hi.overload = true) (hdue : ¬hi.TimoDue cfg now) {retcode : Int32}
    (hret : retcode ≠ 0) (n : ℕ) :
    (fun lb => lb.report cfg now ip port retcode)^[n] lb =
      lb.counted (packKey ip port) hi.countErrs n := by
  refine Counting.iterate_of_step (lb.counted (packKey ip port) hi.countErrs) ?_ n
  intro j
  cases j with
  | zero => exact report_err_overloaded hk hret hover hdue
  | succ j =>
    have hk' := lookup_store_self lb (packKey ip port) (hi.countErrs (UInt32.ofNat (j + 1)))
    refine (report_err_overloaded hk' hret hover hdue).trans ?_
    rw [store_store, countErrs_add, ← ofNat_succ]
    rfl

/-- Single successes of an idle host are counted. -/
theorem iterate_succ_idle (hk : lb.hostMap.lookup (packKey ip port) = some hi)
    (hidle : hi.overload = false) (hdue : ¬hi.TimoDue cfg now) (n : ℕ) :
    (fun lb => lb.report cfg now ip port 0)^[n] lb =
      lb.counted (packKey ip port) hi.countSuccs n := by
  refine Counting.iterate_of_step (lb.counted (packKey ip port) hi.countSuccs) ?_ n
  intro j
  cases j with
  | zero => exact report_succ_idle hk hidle hdue
  | succ j =>
    have hk' := lookup_store_self lb (packKey ip port) (hi.countSuccs (UInt32.ofNat (j + 1)))
    refine (report_succ_idle hk' hidle hdue).trans ?_
    rw [store_store, countSuccs_add, ← ofNat_succ]
    rfl

end Row

/-! ## The two ways of reporting -/

omit [RateArith R] in
/-- A batch that is only counted is stored once. -/
theorem counted_toNat {n : UInt32} (hn : 0 < n) (lb : LB) (key : UInt64) (count : UInt32 → HI) :
    lb.counted key count n.toNat = lb.store key (count n) := by
  have hpos : 0 < n.toNat := UInt32.lt_iff_toNat_lt.mp hn
  obtain ⟨k, hk⟩ := Nat.exists_eq_succ_of_ne_zero hpos.ne'
  rw [hk, counted, ← Nat.succ_eq_add_one, ← hk, UInt32.ofNat_toNat]

/-- A number up to a counter is a counter. -/
theorem toNat_ofNat_of_le {j : ℕ} {n : UInt32} (h : j ≤ n.toNat) : (UInt32.ofNat j).toNat = j :=
  UInt32.toNat_ofNat_of_lt' (Nat.lt_of_le_of_lt h n.toNat_lt)

/-- Numbering results by natural numbers or by counters is the same. -/
theorem forall_ofNat_iff {P : UInt32 → Prop} {n : UInt32} :
    ((∀ j : ℕ, 0 < j → j ≤ n.toNat → P (UInt32.ofNat j)) ↔ ∀ j, 0 < j → j ≤ n → P j) ∧
      ((∀ j : ℕ, 0 < j → j < n.toNat → P (UInt32.ofNat j)) ↔ ∀ j, 0 < j → j < n → P j) := by
  simp only [UInt32.lt_iff_toNat_lt, UInt32.le_iff_toNat_le]
  have h0 : (0 : UInt32).toNat = 0 := rfl
  refine ⟨⟨fun h j hj hjn => ?_, fun h j hj hjn => ?_⟩,
    ⟨fun h j hj hjn => ?_, fun h j hj hjn => ?_⟩⟩
  · have := h j.toNat hj hjn
    rwa [UInt32.ofNat_toNat] at this
  · have hj' := toNat_ofNat_of_le hjn
    exact h _ (by omega) (by omega)
  · have := h j.toNat hj hjn
    rwa [UInt32.ofNat_toNat] at this
  · have hj' := toNat_ofNat_of_le (Nat.le_of_lt hjn)
    exact h _ (by omega) (by omega)

variable {lb : LB} {ip port : Int32} {hi : HI}

/-- When no time-out is due, a batch of `n` failures leaves the state that `n` single failures leave
exactly if the host is overloaded already, or neither way makes it overloaded, or both do so at the
very last failure. -/
theorem reportSomeErr_eq_iff (hk : lb.hostMap.lookup (packKey ip port) = some hi)
    (hdue : ¬hi.TimoDue cfg now) (hwait : 0 < cfg.ovldWaitLim) {n : UInt32} (hn : 0 < n)
    {retcode : Int32} (hret : retcode ≠ 0) :
    lb.reportSomeErr cfg now ip port n =
        (fun lb => lb.report cfg now ip port retcode)^[n.toNat] lb ↔
      hi.overload = true ∨
        (¬hi.ErrBatch cfg n ∧ ∀ j, 0 < j → j ≤ n → ¬hi.ErrTest cfg j) ∨
        (hi.ErrBatch cfg n ∧ hi.ErrBatchExact cfg n ∧ hi.ErrTest cfg n ∧
          ∀ j, 0 < j → j < n → ¬hi.ErrTest cfg j) := by
  by_cases hover : hi.overload = true
  · refine iff_of_true ?_ (.inl hover)
    rw [reportSomeErr_overloaded hk hover hdue, iterate_err_overloaded hk hover hdue hret,
      counted_toNat hn]
  · have hidle : hi.overload = false := by simpa using hover
    obtain ⟨hyes, hno⟩ := reportSomeErr_idle (n := n) hk hidle hdue hwait
    have hcounts := counts_err hk hidle hdue hwait hret
    have hflag : ∀ m hi', hi.countErrs m = hi' → hi'.overload ≠ true := by
      rintro m _ rfl
      simp [HI.countErrs, HI.addErr, HI.countErr, hidle]
    refine (hcounts.batch_eq_iff (UInt32.lt_iff_toNat_lt.mp hn) _ (hi.ErrBatch cfg n)
      (hi.ErrBatchExact cfg n) ?_ ?_ ?_ ?_ ?_).trans ?_
    · intro hbatch
      rw [counted_toNat hn]
      exact hno hbatch
    · intro hbatch
      obtain ⟨left, hexact, heq⟩ := hyes hbatch
      rw [heq, ← hexact, show UInt32.ofNat 0 = 0 from rfl, countErrs_zero rfl]
      constructor
      · intro hsame
        simpa [HI.addErr] using congrArg HI.err (store_inj hsame)
      · rintro rfl
        simp [HI.addErr]
    · intro hbatch hsame
      obtain ⟨left, -, heq⟩ := hyes hbatch
      rw [heq, counted_toNat hn] at hsame
      exact hflag _ _ (store_inj hsame).symm rfl
    · intro k hkn hk0 hsame
      by_cases hbatch : hi.ErrBatch cfg n
      · -- single failures after the verdict count for `rErr`, those of the batch do not
        obtain ⟨left, -, heq⟩ := hyes hbatch
        rw [heq] at hsame
        have hzero : UInt32.ofNat k = 0 := by
          simpa [HI.addErr, HI.countErrs, HI.countErr, HI.setOverload] using
            (congrArg HI.rErr (store_inj hsame)).symm
        have hval := toNat_ofNat_of_le (Nat.le_of_lt hkn)
        rw [hzero] at hval
        exact hk0.ne hval
      · rw [hno hbatch] at hsame
        exact hflag _ _ (store_inj hsame) rfl
    · intro k hsame
      rw [counted_toNat hn] at hsame
      exact hflag _ _ (store_inj hsame) rfl
    · rw [UInt32.ofNat_toNat, (forall_ofNat_iff (P := fun j => ¬hi.ErrTest cfg j)).1,
        (forall_ofNat_iff (P := fun j => ¬hi.ErrTest cfg j)).2]
      simp only [hidle, Bool.false_eq_true, false_or]

/-- Ten failures in a row of a host that has just joined. -/
theorem reportSomeErr_eq_ten :
    let lb := (LB.new 0 1 2).next LbConfigure.default (0, .update ⟨1, 2, [⟨10, 80⟩]⟩)
    lb.reportSomeErr LbConfigure.default 1 10 80 10 =
      (fun lb => lb.report LbConfigure.default 1 10 80 1)^[10] lb := by
  intro lb
  have hk : lb.hostMap.lookup (packKey 10 80) = some (HI.new 0 10 80 270 0) := rfl
  have hearlier : ∀ j < 10, 0 < j →
      ¬(HI.new 0 10 80 270 0).ErrTest LbConfigure.default (UInt32.ofNat j) := by
    decide +kernel
  have hexact : (HI.new 0 10 80 270 0).ErrBatchExact LbConfigure.default 10 := by
    rw [HI.ErrBatchExact, if_pos (by decide)]
    decide
  exact (reportSomeErr_eq_iff hk (by decide) (by decide) (by decide) (by decide)).mpr
    (.inr (.inr ⟨.inl (by decide), hexact, .inr (by decide),
      forall_ofNat_iff.2.mp fun j hj hj' => hearlier j hj' hj⟩))

/-- Eleven failures in a row: the last one is forgotten by the batch. -/
theorem not_reportSomeErr_eq : ∃ lb hi, (system LbConfigure.default).Reachable lb ∧
    lb.hostMap.lookup (packKey 10 80) = some hi ∧ ¬hi.TimoDue LbConfigure.default 1 ∧
      lb.reportSomeErr LbConfigure.default 1 10 80 11 ≠
        (fun lb => lb.report LbConfigure.default 1 10 80 1)^[11] lb := by
  refine ⟨(LB.new 0 1 2).next LbConfigure.default (0, .update ⟨1, 2, [⟨10, 80⟩]⟩),
    HI.new 0 10 80 270 0, .step (.init ⟨0, 1, 2, rfl⟩) (step_next _ _ _ (by decide)), rfl,
    by decide, ?_⟩
  intro hsame
  have hrErr := congrArg (fun lb : LB => (lb.hostMap.lookup (packKey 10 80)).map HI.rErr) hsame
  exact absurd hrErr (by decide +kernel)

/-- When no time-out is due, a batch of `n` successes leaves the state that `n` single successes
leave exactly if the host is idle already, or neither way makes it idle, or both do so at the very
last success. -/
theorem reportSomeSucc_eq_iff (hk : lb.hostMap.lookup (packKey ip port) = some hi)
    (hdue : ¬hi.TimoDue cfg now) (hclear : 0 < cfg.clearTimo) {n : UInt32} (hn : 0 < n) :
    lb.reportSomeSucc cfg now ip port n =
        (fun lb => lb.report cfg now ip port 0)^[n.toNat] lb ↔
      hi.overload = false ∨
        (¬hi.SuccBatch cfg n ∧ ∀ j, 0 < j → j ≤ n → ¬hi.SuccTest cfg j) ∨
        (hi.SuccBatch cfg n ∧ hi.SuccBatchExact cfg n ∧ hi.SuccTest cfg n ∧
          ∀ j, 0 < j → j < n → ¬hi.SuccTest cfg j) := by
  by_cases hover : hi.overload = true
  · obtain ⟨hyes, hno⟩ := reportSomeSucc_overloaded (n := n) hk hover hdue hclear
    have hcounts := counts_succ hk hover hdue hclear
    have hflag : ∀ m hi', hi.countSuccs m = hi' → hi'.overload ≠ false := by
      rintro m _ rfl
      simp [HI.countSuccs, HI.addSucc, HI.countSucc, hover]
    refine (hcounts.batch_eq_iff (UInt32.lt_iff_toNat_lt.mp hn) _ (hi.SuccBatch cfg n)
      (hi.SuccBatchExact cfg n) ?_ ?_ ?_ ?_ ?_).trans ?_
    · intro hbatch
      rw [counted_toNat hn]
      exact hno hbatch
    · intro hbatch
      obtain ⟨left, hexact, heq⟩ := hyes hbatch
      rw [heq, ← hexact, show UInt32.ofNat 0 = 0 from rfl, countSuccs_zero rfl]
      constructor
      · intro hsame
        simpa [HI.addSucc] using congrArg HI.succ (store_inj hsame)
      · rintro rfl
        simp [HI.addSucc]
    · intro hbatch hsame
      obtain ⟨left, -, heq⟩ := hyes hbatch
      rw [heq, counted_toNat hn] at hsame
      exact hflag _ _ (store_inj hsame).symm rfl
    · intro k hkn hk0 hsame
      by_cases hbatch : hi.SuccBatch cfg n
      · -- single successes after the verdict count for `rSucc`, those of the batch do not
        obtain ⟨left, -, heq⟩ := hyes hbatch
        rw [heq] at hsame
        have hzero : UInt32.ofNat k = 0 := by
          simpa [HI.addSucc, HI.countSuccs, HI.countSucc, HI.resetIdle] using
            (congrArg HI.rSucc (store_inj hsame)).symm
        have hval := toNat_ofNat_of_le (Nat.le_of_lt hkn)
        rw [hzero] at hval
        exact hk0.ne hval
      · rw [hno hbatch] at hsame
        exact hflag _ _ (store_inj hsame) rfl
    · intro k hsame
      rw [counted_toNat hn] at hsame
      exact hflag _ _ (store_inj hsame) rfl
    · rw [UInt32.ofNat_toNat, (forall_ofNat_iff (P := fun j => ¬hi.SuccTest cfg j)).1,
        (forall_ofNat_iff (P := fun j => ¬hi.SuccTest cfg j)).2]
      simp only [hover, Bool.true_eq_false, false_or]
  · have hidle : hi.overload = false := by simpa using hover
    refine iff_of_true ?_ (.inl hidle)
    rw [reportSomeSucc_idle hk hidle hdue, iterate_succ_idle hk hidle hdue, counted_toNat hn]

/-- Ten successes in a row of a host that has just become overloaded. -/
theorem reportSomeSucc_eq_ten :
    let lb := [(0, Op.update ⟨1, 2, [⟨10, 80⟩]⟩), (1, .reportSomeErr 10 80 10)].foldl
      (next LbConfigure.default) (LB.new 0 1 2)
    lb.reportSomeSucc LbConfigure.default 1 10 80 10 =
      (fun lb => lb.report LbConfigure.default 1 10 80 0)^[10] lb := by
  intro lb
  let hi := (HI.new 0 10 80 270 0).setOverload 5 1
  have hk : lb.hostMap.lookup (packKey 10 80) = some hi := rfl
  have hearlier : ∀ j < 10, 0 < j → ¬hi.SuccTest LbConfigure.default (UInt32.ofNat j) := by
    decide +kernel
  have hexact : hi.SuccBatchExact LbConfigure.default 10 := by
    rw [HI.SuccBatchExact, if_pos (by decide)]
    decide
  exact (reportSomeSucc_eq_iff hk (by decide) (by decide) (by decide)).mpr
    (.inr (.inr ⟨.inl (by decide), hexact, .inr (by decide),
      forall_ofNat_iff.2.mp fun j hj hj' => hearlier j hj' hj⟩))

/-- Eleven successes in a row: the batch forgets that the last one is the first of a new row. -/
theorem not_reportSomeSucc_eq : ∃ lb hi, (system LbConfigure.default).Reachable lb ∧
    lb.hostMap.lookup (packKey 10 80) = some hi ∧ ¬hi.TimoDue LbConfigure.default 1 ∧
      lb.reportSomeSucc LbConfigure.default 1 10 80 11 ≠
        (fun lb => lb.report LbConfigure.default 1 10 80 0)^[11] lb := by
  refine ⟨[(0, Op.update ⟨1, 2, [⟨10, 80⟩]⟩), (1, .reportSomeErr 10 80 10)].foldl
      (next LbConfigure.default) (LB.new 0 1 2),
    (HI.new 0 10 80 270 0).setOverload 5 1,
    Transition.System.Reachable.foldl (step_next _) (.init ⟨0, 1, 2, rfl⟩) (by decide), rfl,
    by decide, ?_⟩
  intro hsame
  have hrSucc := congrArg (fun lb : LB => (lb.hostMap.lookup (packKey 10 80)).map HI.rSucc) hsame
  exact absurd hrSucc (by decide +kernel)

end LB

end Elb
