import Elb.Lbagent.Conservation
import Elb.Lbagent.Judgement

/-!
# The history of a host

Reference: `LB::report`, `LB::reportSomeSucc` and `LB::reportSomeErr` in `lbagent/src/RouteLb.cc`.

A call result is counted, then the host may be judged, then the closing block looks at the time
limits. `Op.apply_eq` splits a call into these parts, and `HostPast` records what a record forgets:
the results since it last started over, and the windows that were closed since the host was created
or last became idle.
-/

namespace Elb

open Transition

variable {R : Type} [RateArith R]

namespace LB

/-! ## The parts of a call -/

/-- The record with the results of the call counted. -/
def Op.count (hi : HI) : Op → HI
  | .report _ _ retcode =>
    if retcode = 0 then (hi.addSucc 1).countSucc 1 else (hi.addErr 1).countErr 1
  | .reportSomeSucc _ _ succCnt => (hi.countSucc succCnt).addSucc succCnt
  | .reportSomeErr _ _ errCnt => (hi.countErr errCnt).addErr errCnt
  | _ => hi

/-- The idle host is judged overloaded, by its failure rate or by failures in a row. -/
def Op.Overloads (cfg : LbConfigure R) (hi : HI) : Op → Prop
  | .report _ _ retcode => hi.overload = false ∧ retcode ≠ 0 ∧
      (RateArith.ratioGt (hi.err + 1) (hi.succ + (hi.err + 1)) cfg.errRate = true ∨
        cfg.continErrLim.toUInt32 ≤ hi.continErr + 1)
  | .reportSomeErr _ _ errCnt => hi.overload = false ∧
      (cfg.continErrLim.toUInt32 ≤ hi.continErr + errCnt ∨ need cfg.errRate hi.succ ≤ errCnt)
  | _ => False

/-- The overloaded host is judged idle, by its success rate or by successes in a row. -/
def Op.Recovers (cfg : LbConfigure R) (hi : HI) : Op → Prop
  | .report _ _ retcode => hi.overload = true ∧ retcode = 0 ∧
      (RateArith.ratioGt (hi.succ + 1) (hi.succ + 1 + hi.err) cfg.succRate = true ∨
        cfg.continSuccLim.toUInt32 ≤ hi.continSucc + 1)
  | .reportSomeSucc _ _ succCnt => hi.overload = true ∧
      (cfg.continSuccLim.toUInt32 ≤ hi.continSucc + succCnt ∨ need cfg.succRate hi.err ≤ succCnt)
  | _ => False

instance (cfg : LbConfigure R) (hi : HI) : ∀ op : Op, Decidable (op.Overloads cfg hi)
  | .report _ _ retcode => inferInstanceAs (Decidable (hi.overload = false ∧ retcode ≠ 0 ∧ (_ ∨ _)))
  | .reportSomeErr _ _ _ => inferInstanceAs (Decidable (hi.overload = false ∧ (_ ∨ _)))
  | .getHost | .reportSomeSucc _ _ _ | .report2Rpter | .update _ | .pull | .clearPulling =>
    inferInstanceAs (Decidable False)

instance (cfg : LbConfigure R) (hi : HI) : ∀ op : Op, Decidable (op.Recovers cfg hi)
  | .report _ _ retcode => inferInstanceAs (Decidable (hi.overload = true ∧ retcode = 0 ∧ (_ ∨ _)))
  | .reportSomeSucc _ _ _ => inferInstanceAs (Decidable (hi.overload = true ∧ (_ ∨ _)))
  | .getHost | .reportSomeErr _ _ _ | .report2Rpter | .update _ | .pull | .clearPulling =>
    inferInstanceAs (Decidable False)

/-- `leftErrCnt`, the failures of a batch that are left over for the overloaded host. -/
def Op.leftErr (cfg : LbConfigure R) (hi : HI) : Op → UInt32
  | .reportSomeErr _ _ errCnt => (judgeOverload cfg errCnt (hi.countErr errCnt)).2
  | _ => 0

/-- `leftSuccCnt`, the successes of a batch that are left over for the idle host. -/
def Op.leftSucc (cfg : LbConfigure R) (hi : HI) : Op → UInt32
  | .reportSomeSucc _ _ succCnt => (judgeIdle cfg succCnt (hi.countSucc succCnt)).2
  | _ => 0

/-- The record after the judgement. -/
def Op.judge (cfg : LbConfigure R) (now : ℤ) (hi : HI) (op : Op) : HI :=
  if op.Overloads cfg hi then
    ((op.count hi).setOverload cfg.ovldErrCnt.toUInt32 now).addErr (op.leftErr cfg hi)
  else if op.Recovers cfg hi then
    ((op.count hi).resetIdle cfg.initSuccCnt.toUInt32 now).addSucc (op.leftSucc cfg hi)
  else
    op.count hi

/-- `LB::report` returns when the host has been judged, before the closing block. -/
def Op.Returns (cfg : LbConfigure R) (hi : HI) : Op → Prop
  | .report ip port retcode =>
    (Op.report ip port retcode).Overloads cfg hi ∨ (Op.report ip port retcode).Recovers cfg hi
  | _ => False

instance (cfg : LbConfigure R) (hi : HI) : ∀ op : Op, Decidable (op.Returns cfg hi)
  | .report ip port retcode => inferInstanceAs (Decidable
      ((Op.report ip port retcode).Overloads cfg hi ∨ (Op.report ip port retcode).Recovers cfg hi))
  | .getHost | .reportSomeSucc _ _ _ | .reportSomeErr _ _ _ | .report2Rpter | .update _ | .pull
  | .clearPulling => inferInstanceAs (Decidable False)

/-- The closing block finds the window of an idle host over. -/
def Op.ClosesWindow (cfg : LbConfigure R) (now : ℤ) (hi : HI) (op : Op) : Prop :=
  ¬op.Returns cfg hi ∧ (op.judge cfg now hi).overload = false ∧
    cfg.clearTimo ≤ now - (op.judge cfg now hi).windowTs

/-- The closing block finds the waiting time of an overloaded host over. -/
def Op.WaitsOut (cfg : LbConfigure R) (now : ℤ) (hi : HI) (op : Op) : Prop :=
  ¬op.Returns cfg hi ∧ (op.judge cfg now hi).overload = true ∧
    cfg.ovldWaitLim ≤ now - (op.judge cfg now hi).overloadTs

instance (cfg : LbConfigure R) (now : ℤ) (hi : HI) (op : Op) :
    Decidable (op.ClosesWindow cfg now hi) := inferInstanceAs (Decidable (_ ∧ _ ∧ _))

instance (cfg : LbConfigure R) (now : ℤ) (hi : HI) (op : Op) :
    Decidable (op.WaitsOut cfg now hi) := inferInstanceAs (Decidable (_ ∧ _ ∧ _))

section Parts

variable {cfg : LbConfigure R} {now : ℤ} {hi : HI} {op : Op}

/-- Only an idle host becomes overloaded. -/
theorem Op.Overloads.idle (h : op.Overloads cfg hi) : hi.overload = false := by
  cases op with
  | report ip port retcode => exact h.1
  | reportSomeErr ip port errCnt => exact h.1
  | _ => exact h.elim

/-- Only an overloaded host becomes idle. -/
theorem Op.Recovers.overloaded (h : op.Recovers cfg hi) : hi.overload = true := by
  cases op with
  | report ip port retcode => exact h.1
  | reportSomeSucc ip port succCnt => exact h.1
  | _ => exact h.elim

/-- `LB::report` returns before the closing block only when it has judged the host. -/
theorem Op.Returns.judged (h : op.Returns cfg hi) :
    op.Overloads cfg hi ∨ op.Recovers cfg hi := by
  cases op with
  | report ip port retcode => exact h
  | _ => exact h.elim

/-- So the closing block is reached if the host is not judged. -/
theorem Op.not_returns (ho : ¬op.Overloads cfg hi) (hr : ¬op.Recovers cfg hi) :
    ¬op.Returns cfg hi :=
  fun h => h.judged.elim ho hr

omit [RateArith R] in
/-- Counting a result leaves the state of the host alone. -/
@[simp] theorem Op.count_overload : (op.count hi).overload = hi.overload := by
  cases op with
  | report ip port retcode =>
    rw [Op.count]
    split <;> rfl
  | _ => rfl

omit [RateArith R] in
/-- It leaves the start of the window alone. -/
@[simp] theorem Op.count_windowTs : (op.count hi).windowTs = hi.windowTs := by
  cases op with
  | report ip port retcode =>
    rw [Op.count]
    split <;> rfl
  | _ => rfl

omit [RateArith R] in
/-- It leaves the start of the waiting time alone. -/
@[simp] theorem Op.count_overloadTs : (op.count hi).overloadTs = hi.overloadTs := by
  cases op with
  | report ip port retcode =>
    rw [Op.count]
    split <;> rfl
  | _ => rfl

omit [RateArith R] in
/-- It leaves the number of failing windows alone. -/
@[simp] theorem Op.count_windErrCnt : (op.count hi).windErrCnt = hi.windErrCnt := by
  cases op with
  | report ip port retcode =>
    rw [Op.count]
    split <;> rfl
  | _ => rfl

omit [RateArith R] in
/-- It adds the successes of the call. -/
theorem Op.count_succ : (op.count hi).succ = hi.succ + op.succs := by
  cases op with
  | report ip port retcode =>
    rw [Op.count, Op.succs]
    split
    · rfl
    · simp [HI.countErr, HI.addErr]
  | reportSomeSucc ip port n => rfl
  | _ => simp [Op.count, Op.succs, HI.addErr, HI.countErr]

omit [RateArith R] in
/-- It adds the failures of the call. -/
theorem Op.count_err : (op.count hi).err = hi.err + op.errs := by
  cases op with
  | report ip port retcode =>
    rw [Op.count, Op.errs]
    split
    · simp [HI.countSucc, HI.addSucc]
    · rfl
  | reportSomeErr ip port n => rfl
  | _ => simp [Op.count, Op.errs, HI.addSucc, HI.countSucc]

omit [RateArith R] in
/-- The real successes grow like the virtual ones. -/
theorem Op.count_rSucc : (op.count hi).rSucc = hi.rSucc + op.succs := by
  cases op with
  | report ip port retcode =>
    rw [Op.count, Op.succs]
    split
    · rfl
    · simp [HI.countErr, HI.addErr]
  | reportSomeSucc ip port n => rfl
  | _ => simp [Op.count, Op.succs, HI.addErr, HI.countErr]

omit [RateArith R] in
/-- The real failures grow like the virtual ones. -/
theorem Op.count_rErr : (op.count hi).rErr = hi.rErr + op.errs := by
  cases op with
  | report ip port retcode =>
    rw [Op.count, Op.errs]
    split
    · simp [HI.countSucc, HI.addSucc]
    · rfl
  | reportSomeErr ip port n => rfl
  | _ => simp [Op.count, Op.errs, HI.addSucc, HI.countSucc]

omit [RateArith R] in
/-- Successes in a row are counted or broken off. -/
theorem Op.count_continSucc_le :
    (op.count hi).continSucc.toNat ≤ hi.continSucc.toNat + op.succs.toNat := by
  cases op with
  | report ip port retcode =>
    rw [Op.count, Op.succs]
    split
    · exact toNat_add_le _ _
    · exact Nat.zero_le _
  | reportSomeSucc ip port n => exact toNat_add_le _ _
  | reportSomeErr ip port n => exact Nat.zero_le _
  | _ => exact Nat.le_add_right _ _

omit [RateArith R] in
/-- Failures in a row are counted or broken off. -/
theorem Op.count_continErr_le :
    (op.count hi).continErr.toNat ≤ hi.continErr.toNat + op.errs.toNat := by
  cases op with
  | report ip port retcode =>
    rw [Op.count, Op.errs]
    split
    · exact Nat.zero_le _
    · exact toNat_add_le _ _
  | reportSomeSucc ip port n => exact Nat.zero_le _
  | reportSomeErr ip port n => exact toNat_add_le _ _
  | _ => exact Nat.le_add_right _ _

/-- A host that becomes overloaded has its counters set, and then the rest of the batch added. -/
theorem Op.judge_of_overloads (h : op.Overloads cfg hi) : op.judge cfg now hi =
    ((op.count hi).setOverload cfg.ovldErrCnt.toUInt32 now).addErr (op.leftErr cfg hi) := by
  rw [Op.judge, if_pos h]

/-- So has a host that becomes idle. -/
theorem Op.judge_of_recovers (h : op.Recovers cfg hi) : op.judge cfg now hi =
    ((op.count hi).resetIdle cfg.initSuccCnt.toUInt32 now).addSucc (op.leftSucc cfg hi) := by
  have hno : ¬op.Overloads cfg hi := fun ho => by cases ho.idle.symm.trans h.overloaded
  rw [Op.judge, if_neg hno, if_pos h]

/-- A host that is not judged is as it was counted. -/
theorem Op.judge_of_not (ho : ¬op.Overloads cfg hi) (hr : ¬op.Recovers cfg hi) :
    op.judge cfg now hi = op.count hi := by
  rw [Op.judge, if_neg ho, if_neg hr]

end Parts

/-- `LB::report`, in its parts. -/
theorem report_eq (cfg : LbConfigure R) (now : ℤ) (ip port retcode : Int32) (hi : HI) :
    hi.report cfg now retcode =
      if (Op.report ip port retcode).Returns cfg hi then
        (Op.report ip port retcode).judge cfg now hi
      else
        ((Op.report ip port retcode).judge cfg now hi).checkTimo cfg now := by
  rw [HI.report]
  by_cases hret : retcode = 0
  · -- a success judges an overloaded host only
    subst hret
    have hno : ¬(Op.report ip port 0).Overloads cfg hi := fun ho => ho.2.1 rfl
    simp only [if_true, bne_self_eq_false, Bool.and_false, Bool.false_eq_true, if_false,
      beq_self_eq_true, Bool.and_true]
    by_cases hover : hi.overload = true
    · rw [if_pos (show ((hi.addSucc 1).countSucc 1).overload = true from hover)]
      split
      · next hj =>
        simp only [Bool.or_eq_true, decide_eq_true_eq] at hj
        have hrec : (Op.report ip port 0).Recovers cfg hi := ⟨hover, rfl, hj⟩
        rw [if_pos (.inr hrec), Op.judge_of_recovers hrec]
        simp [Op.count, Op.leftSucc, HI.addSucc]
      · next hj =>
        simp only [Bool.or_eq_true, decide_eq_true_eq] at hj
        have hrec : ¬(Op.report ip port 0).Recovers cfg hi := fun hr => hj hr.2.2
        rw [if_neg (Op.not_returns hno hrec), Op.judge_of_not hno hrec]
        simp [Op.count]
    · rw [if_neg (show ¬((hi.addSucc 1).countSucc 1).overload = true from hover)]
      have hrec : ¬(Op.report ip port 0).Recovers cfg hi := fun hr => hover hr.1
      rw [if_neg (Op.not_returns hno hrec), Op.judge_of_not hno hrec]
      simp [Op.count]
  · -- a failure judges an idle host only
    have hbne : (retcode != 0) = true := by simpa using hret
    have hbeq : (retcode == 0) = false := by simpa using hret
    have hrec : ¬(Op.report ip port retcode).Recovers cfg hi := fun hr => hret hr.2.1
    simp only [hret, if_false, hbne, Bool.and_true, hbeq, Bool.and_false, Bool.false_eq_true]
    by_cases hover : hi.overload = true
    · rw [if_neg (by simpa using show ((hi.addErr 1).countErr 1).overload = true from hover)]
      have hno : ¬(Op.report ip port retcode).Overloads cfg hi := fun ho => by
        cases hover.symm.trans ho.1
      rw [if_neg (Op.not_returns hno hrec), Op.judge_of_not hno hrec]
      simp [Op.count, hret]
    · have hidle : hi.overload = false := by simpa using hover
      rw [if_pos (by simpa using show ((hi.addErr 1).countErr 1).overload = false from hidle)]
      split
      · next hj =>
        simp only [Bool.or_eq_true, decide_eq_true_eq] at hj
        have hov : (Op.report ip port retcode).Overloads cfg hi := ⟨hidle, hret, hj⟩
        rw [if_pos (.inl hov), Op.judge_of_overloads hov]
        simp [Op.count, hret, Op.leftErr, HI.addErr]
      · next hj =>
        simp only [Bool.or_eq_true, decide_eq_true_eq] at hj
        have hno : ¬(Op.report ip port retcode).Overloads cfg hi := fun ho => hj ho.2.2
        rw [if_neg (Op.not_returns hno hrec), Op.judge_of_not hno hrec]
        simp [Op.count, hret]

/-- `LB::reportSomeSucc`, in its parts. -/
theorem reportSomeSucc_eq (cfg : LbConfigure R) (now : ℤ) (ip port : Int32) (n : UInt32) (hi : HI) :
    hi.reportSomeSucc cfg now n =
      ((Op.reportSomeSucc ip port n).judge cfg now hi).checkTimo cfg now := by
  have hno : ¬(Op.reportSomeSucc ip port n).Overloads cfg hi := id
  rw [HI.reportSomeSucc]
  by_cases hover : hi.overload = true
  · rw [if_neg (by simpa using show (hi.countSucc n).overload = true from hover)]
    -- an overloaded host: the batch reaches one of the limits or is left whole
    rcases judgeIdle_cases cfg n (hi.countSucc n) with ⟨hlim, hj⟩ | ⟨hcontin, hneed, hj⟩
    · have hrec : (Op.reportSomeSucc ip port n).Recovers cfg hi := ⟨hover, hlim⟩
      rw [if_pos hj, Op.judge_of_recovers hrec]
      rfl
    · have hrec : ¬(Op.reportSomeSucc ip port n).Recovers cfg hi := by
        rintro ⟨-, hlim | hlim⟩
        · exact absurd hlim (UInt32.not_le.mpr hcontin)
        · exact absurd hlim (UInt32.not_le.mpr hneed)
      rw [hj, if_neg (by simp), Op.judge_of_not hno hrec]
      simp [Op.count, HI.addSucc]
  · have hrec : ¬(Op.reportSomeSucc ip port n).Recovers cfg hi := fun hr => hover hr.1
    rw [if_pos (by simpa using show ¬(hi.countSucc n).overload = true from hover),
      Op.judge_of_not hno hrec]
    rfl

/-- `LB::reportSomeErr`, in its parts. -/
theorem reportSomeErr_eq (cfg : LbConfigure R) (now : ℤ) (ip port : Int32) (n : UInt32) (hi : HI) :
    hi.reportSomeErr cfg now n =
      ((Op.reportSomeErr ip port n).judge cfg now hi).checkTimo cfg now := by
  have hrec : ¬(Op.reportSomeErr ip port n).Recovers cfg hi := id
  rw [HI.reportSomeErr]
  by_cases hover : hi.overload = true
  · have hno : ¬(Op.reportSomeErr ip port n).Overloads cfg hi := fun ho => by
      cases hover.symm.trans ho.1
    rw [if_pos (show (hi.countErr n).overload = true from hover), Op.judge_of_not hno hrec]
    rfl
  · have hidle : hi.overload = false := by simpa using hover
    rw [if_neg (show ¬(hi.countErr n).overload = true from hover)]
    -- an idle host: the batch reaches one of the limits or is left whole
    rcases judgeOverload_cases cfg n (hi.countErr n) with ⟨hlim, hj⟩ | ⟨hcontin, hneed, hj⟩
    · have hov : (Op.reportSomeErr ip port n).Overloads cfg hi := ⟨hidle, hlim⟩
      rw [if_pos hj, Op.judge_of_overloads hov]
      rfl
    · have hno : ¬(Op.reportSomeErr ip port n).Overloads cfg hi := by
        rintro ⟨-, hlim | hlim⟩
        · exact absurd hlim (UInt32.not_le.mpr hcontin)
        · exact absurd hlim (UInt32.not_le.mpr hneed)
      rw [hj, if_neg (by simp), Op.judge_of_not hno hrec]
      simp [Op.count, HI.addErr]

/-- A call result is judged, and unless `LB::report` returns the closing block follows. -/
theorem Op.apply_eq {op : Op} {key : UInt64} (h : op.target = some key) (cfg : LbConfigure R)
    (now : ℤ) (hi : HI) : op.apply cfg now hi =
      if op.Returns cfg hi then op.judge cfg now hi
      else (op.judge cfg now hi).checkTimo cfg now := by
  cases op with
  | report ip port retcode => exact report_eq cfg now ip port retcode hi
  | reportSomeSucc ip port n =>
    rw [if_neg (show ¬(Op.reportSomeSucc ip port n).Returns cfg hi from id)]
    exact reportSomeSucc_eq cfg now ip port n hi
  | reportSomeErr ip port n =>
    rw [if_neg (show ¬(Op.reportSomeErr ip port n).Returns cfg hi from id)]
    exact reportSomeErr_eq cfg now ip port n hi
  | _ => cases h

/-- The call starts the record over: the host is judged, or one of its times is over. -/
def Op.Restarts (cfg : LbConfigure R) (now : ℤ) (hi : HI) (op : Op) : Prop :=
  op.Overloads cfg hi ∨ op.Recovers cfg hi ∨ op.ClosesWindow cfg now hi ∨ op.WaitsOut cfg now hi

instance (cfg : LbConfigure R) (now : ℤ) (hi : HI) (op : Op) :
    Decidable (op.Restarts cfg now hi) := inferInstanceAs (Decidable (_ ∨ _ ∨ _ ∨ _))

/-- What a call result can do to a record. -/
inductive Outcome (cfg : LbConfigure R) (now : ℤ) (hi : HI) (op : Op) : HI → Prop
  | counts (h : ¬op.Restarts cfg now hi) : Outcome cfg now hi op (op.count hi)
  | overloads (h : op.Overloads cfg hi) (hw : ¬op.WaitsOut cfg now hi) :
      Outcome cfg now hi op
        (((op.count hi).setOverload cfg.ovldErrCnt.toUInt32 now).addErr (op.leftErr cfg hi))
  | recovers (h : op.Recovers cfg hi) (hc : ¬op.ClosesWindow cfg now hi) :
      Outcome cfg now hi op
        (((op.count hi).resetIdle cfg.initSuccCnt.toUInt32 now).addSucc (op.leftSucc cfg hi))
  | windowDown (h : op.ClosesWindow cfg now hi)
      (hbad : ((op.judge cfg now hi).checkWindow cfg).1 = true) :
      Outcome cfg now hi op
        (((op.judge cfg now hi).checkWindow cfg).2.setOverload cfg.ovldErrCnt.toUInt32 now)
  | windowReset (h : op.ClosesWindow cfg now hi)
      (hgood : ((op.judge cfg now hi).checkWindow cfg).1 = false) :
      Outcome cfg now hi op
        (((op.judge cfg now hi).checkWindow cfg).2.resetIdle cfg.initSuccCnt.toUInt32 now)
  | waitsOut (h : op.WaitsOut cfg now hi) :
      Outcome cfg now hi op ((op.judge cfg now hi).resetIdle cfg.initSuccCnt.toUInt32 now)

/-- A record that no time limit starts over is as it was judged. -/
theorem outcome_judge (cfg : LbConfigure R) (now : ℤ) (hi : HI) (op : Op)
    (hc : ¬op.ClosesWindow cfg now hi) (hw : ¬op.WaitsOut cfg now hi) :
    Outcome cfg now hi op (op.judge cfg now hi) := by
  by_cases ho : op.Overloads cfg hi
  · rw [Op.judge_of_overloads ho]
    exact .overloads ho hw
  · by_cases hr : op.Recovers cfg hi
    · rw [Op.judge_of_recovers hr]
      exact .recovers hr hc
    · rw [Op.judge_of_not ho hr]
      exact .counts (by rintro (h | h | h | h); exacts [ho h, hr h, hc h, hw h])

/-- A call result does one of these things. -/
theorem outcome_apply {op : Op} {key : UInt64} (h : op.target = some key) (cfg : LbConfigure R)
    (now : ℤ) (hi : HI) : Outcome cfg now hi op (op.apply cfg now hi) := by
  rw [op.apply_eq h]
  split
  · next hret => exact outcome_judge cfg now hi op (fun hc => hc.1 hret) fun hw => hw.1 hret
  · next hret =>
    rw [HI.checkTimo]
    -- the closing block looks at the waiting time of an overloaded host, and at the window of an
    -- idle one
    by_cases hover : (op.judge cfg now hi).overload = true
    · have hc : ¬op.ClosesWindow cfg now hi := fun hc => by cases hover.symm.trans hc.2.1
      rw [if_neg (by simp [hover])]
      split
      · next hdue => exact .waitsOut ⟨hret, hover, hdue⟩
      · next hdue => exact outcome_judge cfg now hi op hc fun hw => hdue hw.2.2
    · have hidle : (op.judge cfg now hi).overload = false := by simpa using hover
      have hw : ¬op.WaitsOut cfg now hi := fun hw => hover hw.2.1
      rw [if_pos (by simp [hidle])]
      split
      · next hdue =>
        split
        · next hbad => exact .windowDown ⟨hret, hidle, hdue⟩ hbad
        · next hgood => exact .windowReset ⟨hret, hidle, hdue⟩ (by simpa using hgood)
      · next hdue => exact outcome_judge cfg now hi op (fun hc => hdue hc.2.2) hw

/-! ## What a record forgets -/

/-- The calls about a host since its record last started over, and the real successes and failures
of the windows closed since the host was created or last became idle, the last one first. -/
structure HostPast where
  since : List (ℤ × Op)
  windows : List (UInt32 × UInt32)

/-- The past of a host that has just come into the route. -/
def HostPast.empty : HostPast := ⟨[], []⟩

/-- The successes that were received since the record started over. -/
def HostPast.succs (past : HostPast) : ℕ := (past.since.map fun e => e.2.succs.toNat).sum

/-- The failures that were received since the record started over. -/
def HostPast.errs (past : HostPast) : ℕ := (past.since.map fun e => e.2.errs.toNat).sum

/-- The past after a call result. -/
def HostPast.next (cfg : LbConfigure R) (now : ℤ) (op : Op) (hi : HI) (past : HostPast) :
    HostPast where
  since := if op.Restarts cfg now hi then [] else past.since ++ [(now, op)]
  windows :=
    if op.WaitsOut cfg now hi then []
    else
      let windows := if op.Recovers cfg hi then [] else past.windows
      if op.ClosesWindow cfg now hi then
        ((op.judge cfg now hi).rSucc, (op.judge cfg now hi).rErr) :: windows
      else windows

section Past

variable {cfg : LbConfigure R} {now : ℤ} {hi : HI} {op : Op} {past : HostPast}

/-- A call that does not start the record over is added to the past. -/
theorem HostPast.next_since (h : ¬op.Restarts cfg now hi) :
    (past.next cfg now op hi).since = past.since ++ [(now, op)] :=
  if_neg h

/-- A call that starts the record over empties it. -/
theorem HostPast.next_since_of_restarts (h : op.Restarts cfg now hi) :
    (past.next cfg now op hi).since = [] :=
  if_pos h

/-- The successes of the past are summed up. -/
theorem HostPast.next_succs (h : ¬op.Restarts cfg now hi) :
    (past.next cfg now op hi).succs = past.succs + op.succs.toNat := by
  simp [HostPast.succs, next_since h]

/-- So are its failures. -/
theorem HostPast.next_errs (h : ¬op.Restarts cfg now hi) :
    (past.next cfg now op hi).errs = past.errs + op.errs.toNat := by
  simp [HostPast.errs, next_since h]

end Past

/-- A module with the time of its last call and the past of every host. -/
structure Annals where
  lb : LB
  clock : ℤ
  past : UInt64 → HostPast

/-- The past of the host of `key` after a call. A stay in the route starts with nothing. -/
def Annals.pastAfter (cfg : LbConfigure R) (s : Annals) (e : ℤ × Op) (lb : LB) (key : UInt64) :
    HostPast :=
  match s.lb.hostMap.lookup key, lb.hostMap.lookup key with
  | some hi, some _ =>
    if e.2.target = some key then (s.past key).next cfg e.1 e.2 hi else s.past key
  | _, _ => .empty

/-- Runs of one module with the past of its hosts. -/
def annals (cfg : LbConfigure R) : System Annals (ℤ × Op) where
  init s := (system cfg).init s.lb ∧ s.past = fun _ => .empty
  step s e s' := (system cfg).step s.lb e s'.lb ∧ s'.clock = e.1 ∧ s'.past = s.pastAfter cfg e s'.lb

section Annals

variable {cfg : LbConfigure R}

/-- Annals of a run are about a run. -/
theorem reachable_lb {s : Annals} (h : (annals cfg).Reachable s) :
    (system cfg).Reachable s.lb := by
  refine h.invariant (P := fun s => (system cfg).Reachable s.lb) ?_ ?_
  · exact fun s hs => .init hs.1
  · exact fun s e s' _ ih hs => ih.step hs.1

/-- Where the record and the past of a host come from. -/
theorem annals_step_cases {s s' : Annals} {e : ℤ × Op} (hinv : s.lb.RepInv)
    (hstep : (annals cfg).step s e s') {key : UInt64} {hi' : HI}
    (hk' : s'.lb.hostMap.lookup key = some hi') :
    (∃ p a, hi' = freshHI cfg e.1 p a ∧ s'.past key = .empty) ∨
      (s.lb.hostMap.lookup key = some hi' ∧ s'.past key = s.past key) ∨
      (∃ hi, e.2.target = some key ∧ s.lb.hostMap.lookup key = some hi ∧
        hi' = e.2.apply cfg e.1 hi ∧ s'.past key = (s.past key).next cfg e.1 e.2 hi) := by
  obtain ⟨⟨hne, out, hex⟩, -, hpast⟩ := hstep
  rw [hpast]
  simp only [Annals.pastAfter, hk']
  rcases hinv.exec_cases hne hex with ⟨k, hi, htgt, hk, hw⟩ | ⟨rsp, hop, -, hspec⟩ |
    ⟨hmap, -, habsent⟩
  · -- a call result, for this host or for another one
    rw [hw.lookup] at hk'
    split at hk'
    · next heq =>
      subst heq
      simp only [hk, htgt, if_true]
      exact .inr (.inr ⟨hi, trivial, rfl, (Option.some.inj hk').symm, rfl⟩)
    · next hne =>
      have hother : ¬e.2.target = some key := by rw [htgt]; simpa using fun heq => hne heq.symm
      simp only [hk', hother, if_false]
      exact .inr (.inl ⟨trivial, trivial⟩)
  · -- an update of the route adds hosts and keeps the records of the others
    have hother : ¬e.2.target = some key := by simp [hop, Op.target]
    cases hk : s.lb.hostMap.lookup key with
    | none =>
      obtain ⟨p, a, -, heq⟩ := hspec.fresh key hi' hk hk'
      exact .inl ⟨p, a, heq, rfl⟩
    | some hi =>
      rw [hspec.kept key hi hk ((hspec.keys key).mp (HashMap.mem_iff.mpr ⟨hi', hk'⟩))] at hk'
      simp only [hother, if_false]
      exact .inr (.inl ⟨hk', trivial⟩)
  · -- any other call leaves the records alone
    rw [hmap] at hk'
    have hother : ¬e.2.target = some key := fun heq => by rw [habsent key heq] at hk'; cases hk'
    simp only [hk', hother, if_false]
    exact .inr (.inl ⟨trivial, trivial⟩)

/-- The host that a call result is about meets `C`. -/
def OnHost (C : Op → HI → Prop) (s : Annals) (e : ℤ × Op) : Prop :=
  ∀ key hi, e.2.target = some key → s.lb.hostMap.lookup key = some hi → C e.2 hi

omit [RateArith R] in
/-- Nothing is asked of a call that is about no host of the route. -/
theorem onHost_of_none {C : Op → HI → Prop} {s : Annals} {e : ℤ × Op}
    (h : e.2.target.bind s.lb.hostMap.lookup = none) : OnHost C s e := by
  intro key hi htgt hk
  rw [htgt, Option.bind_some, hk] at h
  cases h

omit [RateArith R] in
/-- Of a call about a host of the route the condition is asked for this host. -/
theorem onHost_iff {C : Op → HI → Prop} {s : Annals} {e : ℤ × Op} {hi : HI}
    (h : e.2.target.bind s.lb.hostMap.lookup = some hi) : C e.2 hi ↔ OnHost C s e := by
  constructor
  · intro hc key hi' htgt hk
    rw [htgt, Option.bind_some, hk] at h
    exact Option.some.inj h ▸ hc
  · intro hc
    obtain ⟨key, htgt, hk⟩ := Option.bind_eq_some_iff.mp h
    exact hc key hi htgt hk

instance (C : Op → HI → Prop) [∀ op hi, Decidable (C op hi)] (s : Annals) (e : ℤ × Op) :
    Decidable (OnHost C s e) :=
  match h : e.2.target.bind s.lb.hostMap.lookup with
  | none => isTrue (onHost_of_none h)
  | some hi => decidable_of_iff (C e.2 hi) (onHost_iff h)

/-- What holds of a new record and is kept by call results holds of every host in every state. -/
theorem hosts_invariant {P : HostPast → HI → Prop} {C : Op → HI → Prop}
    (hfresh : ∀ now p a, P .empty (freshHI cfg now p a))
    (hstep : ∀ past hi now op key, op.target = some key → C op hi → P past hi →
      P (past.next cfg now op hi) (op.apply cfg now hi))
    {s : Annals} (h : ((annals cfg).restrict (OnHost C)).Reachable s) :
    ∀ key hi, s.lb.hostMap.lookup key = some hi → P (s.past key) hi := by
  refine h.invariant
    (P := fun s => ∀ key hi, s.lb.hostMap.lookup key = some hi → P (s.past key) hi) ?_ ?_
  · -- a new module has no hosts
    rintro s ⟨⟨self, modid, cmdid, hlb⟩, -⟩ key hi hk
    rw [hlb] at hk
    simp [LB.new] at hk
  · rintro s e s' hr ih ⟨hc, hs⟩ key hi' hk'
    have hinv := repInv_of_reachable (reachable_lb hr.of_restrict)
    -- the record is new, or untouched, or written by this call
    rcases annals_step_cases hinv hs hk' with ⟨p, a, rfl, hpast⟩ | ⟨hk, hpast⟩ |
      ⟨hi, htgt, hk, rfl, hpast⟩
    · exact hpast ▸ hfresh _ _ _
    · exact hpast ▸ ih key hi' hk
    · exact hpast ▸ hstep _ _ _ _ _ htgt (hc key hi htgt hk) (ih key hi hk)

/-- A call result about a host of the route writes its record. -/
theorem lookup_apply {s s' : Annals} {e : ℤ × Op} (hinv : s.lb.RepInv)
    (hstep : (annals cfg).step s e s') {key : UInt64} {hi : HI} (htgt : e.2.target = some key)
    (hk : s.lb.hostMap.lookup key = some hi) :
    s'.lb.hostMap.lookup key = some (e.2.apply cfg e.1 hi) := by
  obtain ⟨⟨hne, out, hex⟩, -⟩ := hstep
  rcases hinv.exec_cases hne hex with ⟨k, hi', htgt', hk', hw⟩ | ⟨rsp, hop, -⟩ | ⟨-, -, habsent⟩
  · obtain rfl := Option.some.inj (htgt.symm.trans htgt')
    obtain rfl := Option.some.inj (hk.symm.trans hk')
    rw [hw.lookup, if_pos rfl]
  · rw [hop] at htgt
    cases htgt
  · rw [habsent key htgt] at hk
    cases hk

end Annals

/-! ## Runs that are computed -/

/-- The annals after a call that does not fault. -/
def Annals.next (cfg : LbConfigure R) (s : Annals) (e : ℤ × Op) : Annals :=
  ⟨s.lb.next cfg e, e.1, s.pastAfter cfg e (s.lb.next cfg e)⟩

/-- A call that is allowed leads to the state that is computed. -/
theorem annals_step_next (cfg : LbConfigure R) (s : Annals) (e : ℤ × Op) (h : s.lb.Allowed cfg e) :
    (annals cfg).step s e (s.next cfg e) :=
  ⟨step_next cfg s.lb e h, rfl, rfl⟩

/-- Module (1, 2) before its first call. -/
def Annals.start : Annals := ⟨LB.new 0 1 2, 0, fun _ => .empty⟩

/-- Calls that are allowed and meet `C` one after another lead to a state of such a run. -/
theorem Annals.reachable_foldl {cfg : LbConfigure R} {C : Annals → ℤ × Op → Prop}
    {es : List (ℤ × Op)}
    (h : System.Legal (fun s e => C s e ∧ s.lb.Allowed cfg e) (Annals.next cfg) start es) :
    ((annals cfg).restrict C).Reachable (es.foldl (Annals.next cfg) start) := by
  have hinit : ((annals cfg).restrict C).Reachable start := .init ⟨⟨0, 1, 2, rfl⟩, rfl⟩
  refine hinit.foldl ?_ h
  rintro s e ⟨hc, hok⟩
  exact ⟨hc, annals_step_next cfg s e hok⟩

end LB

end Elb
