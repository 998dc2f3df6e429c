import Mathlib.Tactic.FieldSimp
import Mathlib.Tactic.Linarith
import Elb.Lbagent.HostView
import Elb.Lbagent.LbRun

/-!
# Overload and recovery

A host is judged overloaded when its failures exceed `errRate` of its calls or `continErrLim` come
in a row, and idle again by the same rule for successes. With exact rates, `Judged` says that no
host is in a list whose rule it breaks.

`LB::report` compares the counters with the rate. `LB::reportSomeErr` and `LB::reportSomeSucc`
compare only the batch at hand with what the opposite counter needs, and forget what the counter of
the batch already holds. Batches that are too small by themselves can therefore carry a host beyond
the rate unnoticed; `ErrBatchWeighs` and `SuccBatchWeighs` are the batches that do not.
-/

namespace Elb

/-! ## Rates -/

/-- The share that `a` calls have in `a + b`. -/
def share (a b : UInt32) : ℚ := a.toNat / (a.toNat + b.toNat)

/-- The share is within a rate when `a` does not outweigh `b`. -/
theorem share_le_iff {r : ℚ} (hr : 0 ≤ r) (a b : UInt32) :
    share a b ≤ r ↔ a.toNat * (1 - r) ≤ r * b.toNat := by
  rw [share]
  have ha : (0 : ℚ) ≤ a.toNat := Nat.cast_nonneg _
  have hb : (0 : ℚ) ≤ b.toNat := Nat.cast_nonneg _
  rcases (add_nonneg ha hb).eq_or_lt with h0 | hpos
  · rw [← h0, div_zero]
    refine iff_of_true hr ?_
    have ha0 : (a.toNat : ℚ) = 0 := by linarith
    rw [ha0, zero_mul]
    exact mul_nonneg hr hb
  · rw [div_le_iff₀ hpos]
    constructor <;> intro h <;> linarith

/-- Nothing has no share. -/
theorem share_zero (b : UInt32) : share 0 b = 0 := by simp [share]

/-- The test of `LB::report` lets no share above the rate pass, even when the sum wraps around. -/
theorem share_le_of_not_ratioGt {r : ℚ} (hr : 0 ≤ r) {a b c : UInt32}
    (hc : c.toNat ≤ a.toNat + b.toNat) (h : RateArith.ratioGt a c r = false) : share a b ≤ r := by
  simp only [RateArith.ratioGt] at h
  split at h
  · have ha : a = 0 := by simpa using h
    rw [ha, share_zero]
    exact hr
  · next hne =>
    have hpos : (0 : ℚ) < c.toNat := by
      rw [Nat.cast_pos]
      exact Nat.pos_of_ne_zero fun h0 => hne (UInt32.toNat_inj.mp h0)
    have hle : (a.toNat : ℚ) / c.toNat ≤ r := by simpa using h
    refine le_trans (div_le_div_of_nonneg_left (Nat.cast_nonneg _) hpos ?_) hle
    exact_mod_cast hc

/-- The quotient of which `scale` is the integral part. -/
theorem toNat_scale {r : ℚ} {b : UInt32} (h : ⌊r * b.toNat / (1 - r)⌋₊ < 2 ^ 32) :
    (RateArith.scale r b).toNat = ⌊r * b.toNat / (1 - r)⌋₊ := by
  simp only [RateArith.scale]
  exact UInt32.toNat_ofNat_of_lt' h

/-- An integral part that falls short of the rate is not the quotient itself, even when the sum
wraps around. -/
theorem scale_lt_of_ratioLt {r : ℚ} (hr : 0 ≤ r) (hr1 : r < 1) {a b : UInt32}
    (h : RateArith.ratioLt a (a + b) r = true) : (a.toNat : ℚ) < r * b.toNat / (1 - r) := by
  simp only [RateArith.ratioLt] at h
  split at h
  · simp at h
  · next hne =>
    have hpos : (0 : ℚ) < (a + b).toNat := by
      rw [Nat.cast_pos]
      exact Nat.pos_of_ne_zero fun h0 => hne (UInt32.toNat_inj.mp h0)
    have hlt : (a.toNat : ℚ) / (a + b).toNat < r := by simpa using h
    rw [div_lt_iff₀ hpos] at hlt
    have hle : ((a + b).toNat : ℚ) ≤ a.toNat + b.toNat := by exact_mod_cast toNat_add_le a b
    have hmul := mul_le_mul_of_nonneg_left hle hr
    rw [lt_div_iff₀ (by linarith)]
    linarith

/-- A batch that outweighs the opposite counter by itself is at least what the rate needs. -/
theorem need_le {r : ℚ} (hr : 0 ≤ r) (hr1 : r < 1) {b n : UInt32}
    (h : r * b.toNat ≤ n.toNat * (1 - r)) : need r b ≤ n := by
  have h1 : 0 < 1 - r := by linarith
  have hqn : r * b.toNat / (1 - r) ≤ n.toNat := (div_le_iff₀ h1).mpr h
  have hfn : ⌊r * b.toNat / (1 - r)⌋₊ ≤ n.toNat := Nat.floor_le_of_le hqn
  have hf := toNat_scale (hfn.trans_lt n.toNat_lt)
  rw [need]
  split
  · next hlt =>
    have hshort := (scale_lt_of_ratioLt hr hr1 hlt).trans_le hqn
    have hlt : (RateArith.scale r b).toNat < n.toNat := by exact_mod_cast hshort
    rw [UInt32.le_iff_toNat_le, UInt32.toNat_add, UInt32.toNat_one]
    have := n.toNat_lt
    omega
  · rw [UInt32.le_iff_toNat_le, hf]
    exact hfn

/-! ## One host -/

/-- Thresholds that make sense: rates strictly between 0 and 1, and positive limits. -/
structure LbConfigure.Proper (cfg : LbConfigure ℚ) : Prop where
  initSucc_pos : 0 < cfg.initSuccCnt
  ovldErr_pos : 0 < cfg.ovldErrCnt
  continSucc_pos : 0 < cfg.continSuccLim
  continErr_pos : 0 < cfg.continErrLim
  succRate_pos : 0 < cfg.succRate
  succRate_lt : cfg.succRate < 1
  errRate_pos : 0 < cfg.errRate
  errRate_lt : cfg.errRate < 1

/-- A limit that is positive stays so as an unsigned number. -/
theorem toUInt32_pos {n : Int32} (h : 0 < n) : 0 < n.toUInt32 := by
  rw [Int32.lt_iff_toInt_lt] at h
  have h0 : (0 : Int32).toInt = 0 := rfl
  have hz : (0 : UInt32).toNat = 0 := rfl
  have hnum := toNat_toUInt32 n
  have hhigh := n.toInt_lt
  rw [UInt32.lt_iff_toNat_lt]
  omega

namespace HI

variable {cfg : LbConfigure ℚ} {now : ℤ} {hi : HI}

/-- An idle host does not meet the overload rule, an overloaded one does not meet the recovery
rule. -/
structure Judged (cfg : LbConfigure ℚ) (hi : HI) : Prop where
  idle : hi.overload = false →
    share hi.err hi.succ ≤ cfg.errRate ∧ hi.continErr < cfg.continErrLim.toUInt32
  overloaded : hi.overload = true →
    share hi.succ hi.err ≤ cfg.succRate ∧ hi.continSucc < cfg.continSuccLim.toUInt32

/-- Counting `n` more results of either kind wraps no counter around. -/
structure Fits (n : UInt32) (hi : HI) : Prop where
  succ_lt : hi.succ.toNat + n.toNat < 2 ^ 32
  err_lt : hi.err.toNat + n.toNat < 2 ^ 32
  continSucc_lt : hi.continSucc.toNat + n.toNat < 2 ^ 32
  continErr_lt : hi.continErr.toNat + n.toNat < 2 ^ 32

instance (n : UInt32) (hi : HI) : Decidable (hi.Fits n) :=
  decidable_of_iff (hi.succ.toNat + n.toNat < 2 ^ 32 ∧ hi.err.toNat + n.toNat < 2 ^ 32 ∧
      hi.continSucc.toNat + n.toNat < 2 ^ 32 ∧ hi.continErr.toNat + n.toNat < 2 ^ 32)
    ⟨fun h => ⟨h.1, h.2.1, h.2.2.1, h.2.2.2⟩, fun h => ⟨h.1, h.2, h.3, h.4⟩⟩

/-- A batch of `n` failures on an idle host reaches a limit by itself, or falls on the end of the
window, or leaves the share of failures within the rate. -/
def ErrBatchWeighs (cfg : LbConfigure ℚ) (now : ℤ) (n : UInt32) (hi : HI) : Prop :=
  hi.overload = false →
    cfg.continErrLim.toUInt32.toNat ≤ hi.continErr.toNat + n.toNat ∨
      cfg.errRate * hi.succ.toNat ≤ n.toNat * (1 - cfg.errRate) ∨
      cfg.clearTimo ≤ now - hi.windowTs ∨
      (hi.err.toNat + n.toNat) * (1 - cfg.errRate) ≤ cfg.errRate * hi.succ.toNat

/-- A batch of `n` successes on an overloaded host reaches a limit by itself, or falls on the end of
the waiting time, or leaves the share of successes within the rate. -/
def SuccBatchWeighs (cfg : LbConfigure ℚ) (now : ℤ) (n : UInt32) (hi : HI) : Prop :=
  hi.overload = true →
    cfg.continSuccLim.toUInt32.toNat ≤ hi.continSucc.toNat + n.toNat ∨
      cfg.succRate * hi.err.toNat ≤ n.toNat * (1 - cfg.succRate) ∨
      cfg.ovldWaitLim ≤ now - hi.overloadTs ∨
      (hi.succ.toNat + n.toNat) * (1 - cfg.succRate) ≤ cfg.succRate * hi.err.toNat

/-- A record without failures. -/
theorem judged_of_idle (hcfg : cfg.Proper) (hover : hi.overload = false) (herr : hi.err = 0)
    (hcontin : hi.continErr = 0) : hi.Judged cfg where
  idle _ := ⟨by rw [herr, share_zero]; exact hcfg.errRate_pos.le,
    hcontin ▸ toUInt32_pos hcfg.continErr_pos⟩
  overloaded h := by rw [hover] at h; cases h

/-- A record without successes. -/
theorem judged_of_overloaded (hcfg : cfg.Proper) (hover : hi.overload = true) (hsucc : hi.succ = 0)
    (hcontin : hi.continSucc = 0) : hi.Judged cfg where
  idle h := by rw [hover] at h; cases h
  overloaded _ := ⟨by rw [hsucc, share_zero]; exact hcfg.succRate_pos.le,
    hcontin ▸ toUInt32_pos hcfg.continSucc_pos⟩

/-- A host that starts over as idle. -/
theorem judged_resetIdle (hcfg : cfg.Proper) (n : UInt32) (hi : HI) :
    (hi.resetIdle n now).Judged cfg :=
  judged_of_idle hcfg rfl rfl rfl

/-- A host that starts over as overloaded. -/
theorem judged_setOverload (hcfg : cfg.Proper) (n : UInt32) (hi : HI) :
    (hi.setOverload n now).Judged cfg :=
  judged_of_overloaded hcfg rfl rfl rfl

/-- The closing block starts a record over or leaves it alone. -/
theorem Judged.checkTimo (hcfg : cfg.Proper) (h : hi.Judged cfg) :
    (hi.checkTimo cfg now).Judged cfg := by
  rw [HI.checkTimo]
  split
  · split
    · split
      · exact judged_setOverload hcfg _ _
      · exact judged_resetIdle hcfg _ _
    · -- the window goes on
      exact h
  · split
    · exact judged_resetIdle hcfg _ _
    · exact h

/-- The end of the window starts an idle record over, whatever it holds. -/
theorem judged_checkTimo_of_window (hcfg : cfg.Proper) (hover : hi.overload = false)
    (hdue : cfg.clearTimo ≤ now - hi.windowTs) : (hi.checkTimo cfg now).Judged cfg := by
  rw [HI.checkTimo, if_pos (by simp [hover]), if_pos hdue]
  split
  · exact judged_setOverload hcfg _ _
  · exact judged_resetIdle hcfg _ _

/-- The end of the waiting time starts an overloaded record over, whatever it holds. -/
theorem judged_checkTimo_of_wait (hcfg : cfg.Proper) (hover : hi.overload = true)
    (hdue : cfg.ovldWaitLim ≤ now - hi.overloadTs) : (hi.checkTimo cfg now).Judged cfg := by
  rw [HI.checkTimo, if_neg (by simp [hover]), if_pos hdue]
  exact judged_resetIdle hcfg _ _

/-- More of the good results does not lower the share of the others. -/
theorem share_add_le {r : ℚ} (hr : 0 ≤ r) {a b n : UInt32} (h : share a b ≤ r)
    (hfit : b.toNat + n.toNat < 2 ^ 32) : share a (b + n) ≤ r := by
  rw [share_le_iff hr] at h ⊢
  rw [toNat_add_of_lt hfit]
  push_cast
  have := mul_nonneg hr (Nat.cast_nonneg (α := ℚ) n.toNat)
  linarith

/-- Successes on an idle host. -/
theorem Judged.countSucc_idle (hcfg : cfg.Proper) (h : hi.Judged cfg) (hover : hi.overload = false)
    {n : UInt32} (hfit : hi.Fits n) : ((hi.addSucc n).countSucc n).Judged cfg where
  idle _ := ⟨share_add_le hcfg.errRate_pos.le (h.idle hover).1 hfit.succ_lt,
    toUInt32_pos hcfg.continErr_pos⟩
  overloaded hov := by cases hover.symm.trans hov

/-- Failures on an overloaded host. -/
theorem Judged.countErr_overloaded (hcfg : cfg.Proper) (h : hi.Judged cfg)
    (hover : hi.overload = true) {n : UInt32} (hfit : hi.Fits n) :
    ((hi.addErr n).countErr n).Judged cfg where
  idle hov := by cases hover.symm.trans hov
  overloaded _ := ⟨share_add_le hcfg.succRate_pos.le (h.overloaded hover).1 hfit.err_lt,
    toUInt32_pos hcfg.continSucc_pos⟩

/-! ## One result -/

/-- `LB::report` judges every host that it takes across a limit. -/
theorem Judged.report (hcfg : cfg.Proper) (h : hi.Judged cfg) (hfit : hi.Fits 1)
    (retcode : Int32) : (hi.report cfg now retcode).Judged cfg := by
  rw [HI.report]
  -- by the sign of the result and the list of the host; only a success can bring it back and only a
  -- failure take it out
  by_cases hret : retcode = 0
  · simp only [hret, if_true, bne_self_eq_false, Bool.and_false, Bool.false_eq_true, if_false,
      beq_self_eq_true, Bool.and_true]
    by_cases hover : hi.overload = true
    · rw [if_pos (show ((hi.addSucc 1).countSucc 1).overload = true from hover)]
      split
      · exact judged_resetIdle hcfg _ _
      · next hnot =>
        simp only [Bool.or_eq_true, not_or, Bool.not_eq_true, decide_eq_true_eq] at hnot
        -- neither limit is reached, which is what the rule asks for
        refine Judged.checkTimo hcfg ⟨fun hov => ?_, fun _ => ⟨?_, ?_⟩⟩
        · cases hover.symm.trans hov
        · exact share_le_of_not_ratioGt hcfg.succRate_pos.le (toNat_add_le _ _) hnot.1
        · simpa using hnot.2
    · rw [if_neg (show ¬((hi.addSucc 1).countSucc 1).overload = true from hover)]
      exact (h.countSucc_idle hcfg (by simpa using hover) hfit).checkTimo hcfg
  · simp only [hret, if_false]
    have hbne : (retcode != 0) = true := by simpa using hret
    have hbeq : (retcode == 0) = false := by simpa using hret
    simp only [hbne, Bool.and_true, hbeq, Bool.and_false, Bool.false_eq_true, if_false]
    by_cases hover : hi.overload = true
    · rw [if_neg (by simpa using show ((hi.addErr 1).countErr 1).overload = true from hover)]
      exact (h.countErr_overloaded hcfg hover hfit).checkTimo hcfg
    · have hidle : hi.overload = false := by simpa using hover
      rw [if_pos (by simpa using show ((hi.addErr 1).countErr 1).overload = false from hidle)]
      split
      · exact judged_setOverload hcfg _ _
      · next hnot =>
        simp only [Bool.or_eq_true, not_or, Bool.not_eq_true, decide_eq_true_eq] at hnot
        refine Judged.checkTimo hcfg ⟨fun _ => ⟨?_, ?_⟩, fun hov => ?_⟩
        · refine share_le_of_not_ratioGt hcfg.errRate_pos.le ?_ hnot.1
          rw [Nat.add_comm]
          exact toNat_add_le _ _
        · simpa using hnot.2
        · cases hidle.symm.trans hov

/-! ## Batches -/

/-- A counter that does not wrap around is compared as a number. -/
theorem lt_of_add_lt {a n lim : UInt32} (hfit : a.toNat + n.toNat < 2 ^ 32) (h : a + n < lim) :
    ¬lim.toNat ≤ a.toNat + n.toNat := by
  rw [UInt32.lt_iff_toNat_lt, toNat_add_of_lt hfit] at h
  omega

/-- A share with a counter that does not wrap around. -/
theorem share_le_of_add {r : ℚ} (hr : 0 ≤ r) {a b n : UInt32} (hfit : a.toNat + n.toNat < 2 ^ 32)
    (h : (a.toNat + n.toNat) * (1 - r) ≤ r * b.toNat) : share (a + n) b ≤ r := by
  rw [share_le_iff hr, toNat_add_of_lt hfit]
  exact_mod_cast h

/-- `LB::reportSomeErr` judges a host that it takes across a limit, if the batch weighs. -/
theorem Judged.reportSomeErr (hcfg : cfg.Proper) (h : hi.Judged cfg) {n : UInt32}
    (hfit : hi.Fits n) (hw : hi.ErrBatchWeighs cfg now n) :
    (hi.reportSomeErr cfg now n).Judged cfg := by
  rw [HI.reportSomeErr]
  by_cases hover : hi.overload = true
  · rw [if_pos (show (hi.countErr n).overload = true from hover)]
    exact (h.countErr_overloaded hcfg hover hfit).checkTimo hcfg
  · have hidle : hi.overload = false := by simpa using hover
    rw [if_neg (show ¬(hi.countErr n).overload = true from hover)]
    rcases LB.judgeOverload_cases cfg n (hi.countErr n) with ⟨-, hj⟩ | ⟨hcontin, hneed, hj⟩
    · rw [if_pos hj]
      exact (judged_of_overloaded hcfg rfl rfl rfl).checkTimo hcfg
    · rw [hj, if_neg (by simp)]
      have hlt := lt_of_add_lt hfit.continErr_lt hcontin
      -- the batch, compared by itself, reached neither limit: then the record starts over, or its
      -- share is within the rate anyway
      rcases hw hidle with hlim | hbatch | hdue | hshare
      · exact absurd hlim hlt
      · exact absurd (need_le hcfg.errRate_pos.le hcfg.errRate_lt hbatch)
          (UInt32.not_le.mpr hneed)
      · exact judged_checkTimo_of_window hcfg hidle hdue
      · refine Judged.checkTimo hcfg ⟨fun _ => ⟨?_, hcontin⟩, fun hov => ?_⟩
        · have := share_le_of_add hcfg.errRate_pos.le hfit.err_lt hshare
          simpa [addErr, countErr] using this
        · cases hidle.symm.trans hov

/-- `LB::reportSomeSucc` judges a host that it takes across a limit, if the batch weighs. -/
theorem Judged.reportSomeSucc (hcfg : cfg.Proper) (h : hi.Judged cfg) {n : UInt32}
    (hfit : hi.Fits n) (hw : hi.SuccBatchWeighs cfg now n) :
    (hi.reportSomeSucc cfg now n).Judged cfg := by
  rw [HI.reportSomeSucc]
  by_cases hover : hi.overload = true
  · rw [if_neg (by simpa using show (hi.countSucc n).overload = true from hover)]
    rcases LB.judgeIdle_cases cfg n (hi.countSucc n) with ⟨-, hj⟩ | ⟨hcontin, hneed, hj⟩
    · rw [if_pos hj]
      exact (judged_of_idle hcfg rfl rfl rfl).checkTimo hcfg
    · rw [hj, if_neg (by simp)]
      have hlt := lt_of_add_lt hfit.continSucc_lt hcontin
      rcases hw hover with hlim | hbatch | hdue | hshare
      · exact absurd hlim hlt
      · exact absurd (need_le hcfg.succRate_pos.le hcfg.succRate_lt hbatch)
          (UInt32.not_le.mpr hneed)
      · exact judged_checkTimo_of_wait hcfg hover hdue
      · refine Judged.checkTimo hcfg ⟨fun hov => ?_, fun _ => ⟨?_, hcontin⟩⟩
        · cases hover.symm.trans hov
        · have := share_le_of_add hcfg.succRate_pos.le hfit.succ_lt hshare
          simpa [addSucc, countSucc] using this
  · have hidle : hi.overload = false := by simpa using hover
    rw [if_pos (by simpa using show (hi.countSucc n).overload = false from hidle)]
    exact (h.countSucc_idle hcfg hidle hfit).checkTimo hcfg

end HI

/-! ## Runs -/

namespace LB

variable {cfg : LbConfigure ℚ}

/-- No counter of the host that a call result is about wraps around. -/
def CountersFit (lb : LB) (e : ℤ × Op) : Prop :=
  match e.2 with
  | .report ip port _ => ∀ hi ∈ lb.hostMap.lookup (packKey ip port), hi.Fits 1
  | .reportSomeSucc ip port n => ∀ hi ∈ lb.hostMap.lookup (packKey ip port), hi.Fits n
  | .reportSomeErr ip port n => ∀ hi ∈ lb.hostMap.lookup (packKey ip port), hi.Fits n
  | _ => True

/-- A batch weighs on the host that it is about. -/
def BatchWeighs (cfg : LbConfigure ℚ) (lb : LB) (e : ℤ × Op) : Prop :=
  match e.2 with
  | .reportSomeSucc ip port n =>
    ∀ hi ∈ lb.hostMap.lookup (packKey ip port), hi.SuccBatchWeighs cfg e.1 n
  | .reportSomeErr ip port n =>
    ∀ hi ∈ lb.hostMap.lookup (packKey ip port), hi.ErrBatchWeighs cfg e.1 n
  | _ => True

/-- No host of the route is in a list whose rule it breaks. -/
def Judged (cfg : LbConfigure ℚ) (lb : LB) : Prop :=
  ∀ key hi, lb.hostMap.lookup key = some hi → hi.Judged cfg

/-- One call, if no counter wraps around and a batch weighs. -/
theorem Judged.exec (hcfg : cfg.Proper) {now : ℤ} {lb lb' : LB} {op : Op} {out : Out}
    (h : lb.Judged cfg) (hinv : lb.RepInv) (hne : op = .getHost → lb.empty = false)
    (hfit : CountersFit lb (now, op)) (hweighs : BatchWeighs cfg lb (now, op))
    (hex : lb.exec cfg now op = .ok (lb', out)) : lb'.Judged cfg := by
  -- only the record that the result is about is written
  refine hinv.exec_forall hne hex (fun p a => HI.judged_of_idle hcfg rfl rfl rfl)
    (fun key hi htgt hk => ?_) h
  cases op with
  | report ip port retcode =>
    obtain rfl := Option.some.inj htgt
    exact (h _ hi hk).report hcfg (hfit hi hk) retcode
  | reportSomeSucc ip port n =>
    obtain rfl := Option.some.inj htgt
    exact (h _ hi hk).reportSomeSucc hcfg (hfit hi hk) (hweighs hi hk)
  | reportSomeErr ip port n =>
    obtain rfl := Option.some.inj htgt
    exact (h _ hi hk).reportSomeErr hcfg (hfit hi hk) (hweighs hi hk)
  | _ => cases htgt

/-- Runs in which no counter wraps around. -/
def fitSystem (cfg : LbConfigure ℚ) : Transition.System LB (ℤ × Op) :=
  (system cfg).restrict CountersFit

/-- In every run whose batches all weigh, no host ever is in a list whose rule it breaks. -/
theorem judged_of_batchWeighs (hcfg : cfg.Proper) {lb : LB}
    (h : ((fitSystem cfg).restrict (BatchWeighs cfg)).Reachable lb) : lb.Judged cfg := by
  -- by induction on the run
  refine h.invariant ?_ ?_
  · rintro _ ⟨self, modid, cmdid, rfl⟩ key hi hk
    simp [LB.new] at hk
  · rintro lb ⟨now, op⟩ lb' hr ih ⟨hweighs, hfit, hne, out, hex⟩
    exact ih.exec hcfg (repInv_of_reachable hr.of_restrict.of_restrict) hne hfit hweighs hex

/-- A host joins the route and fails in one batch that takes it across the limit in a row. -/
theorem judged_after_batch : ∃ lb, (system LbConfigure.default).Reachable lb ∧
    lb.downList = [0] ∧ lb.Judged LbConfigure.default := by
  have hcfg : LbConfigure.default.Proper := ⟨by decide, by decide, by decide, by decide, by
    decide +kernel, by decide +kernel, by decide +kernel, by decide +kernel⟩
  have h₁ : ((fitSystem LbConfigure.default).restrict (BatchWeighs LbConfigure.default)).Reachable
      _ :=
    .step (e := (0, .update ⟨1, 2, [⟨10, 80⟩]⟩)) (.init ⟨0, 1, 2, rfl⟩)
      ⟨trivial, trivial, by simp, _, rfl⟩
  have h₂ := h₁.step (e := (1, .reportSomeErr 10 80 30))
    ⟨by rintro hi ⟨⟩ -; exact .inl (by decide),
      by rintro hi ⟨⟩; exact ⟨by decide, by decide, by decide, by decide⟩, by simp, _, rfl⟩
  exact ⟨_, h₂.of_restrict.of_restrict, rfl, judged_of_batchWeighs hcfg h₂⟩

/-- Some run leads to a state with this record. -/
def Hosts (cfg : LbConfigure ℚ) (key : UInt64) (hi : HI) : Prop :=
  ∃ lb, (fitSystem cfg).Reachable lb ∧ lb.hostMap.lookup key = some hi

/-- A run goes on with one result. -/
theorem Hosts.report {ip port : Int32} {hi : HI} (h : Hosts cfg (packKey ip port) hi)
    (hfit : hi.Fits 1) (now : ℤ) (retcode : Int32) :
    Hosts cfg (packKey ip port) (hi.report cfg now retcode) := by
  obtain ⟨lb, hr, hk⟩ := h
  refine ⟨_, hr.step (e := (now, .report ip port retcode)) ⟨?_, by simp, _, rfl⟩, ?_⟩
  · intro hi' hk'
    obtain rfl := Option.some.inj (hk.symm.trans hk')
    exact hfit
  · rw [(report_writes cfg now hk retcode).lookup, if_pos rfl]

/-- A run goes on with a batch of failures. -/
theorem Hosts.reportSomeErr {ip port : Int32} {hi : HI} (h : Hosts cfg (packKey ip port) hi)
    {n : UInt32} (hfit : hi.Fits n) (now : ℤ) :
    Hosts cfg (packKey ip port) (hi.reportSomeErr cfg now n) := by
  obtain ⟨lb, hr, hk⟩ := h
  refine ⟨_, hr.step (e := (now, .reportSomeErr ip port n)) ⟨?_, by simp, _, rfl⟩, ?_⟩
  · intro hi' hk'
    obtain rfl := Option.some.inj (hk.symm.trans hk')
    exact hfit
  · rw [(reportSomeErr_writes cfg now hk n).lookup, if_pos rfl]

/-- A host that has just joined the route. -/
theorem hosts_fresh : Hosts LbConfigure.default (packKey 10 80) (HI.new 0 10 80 270 0) :=
  ⟨_, .step (e := (0, .update ⟨1, 2, [⟨10, 80⟩]⟩)) (.init ⟨0, 1, 2, rfl⟩)
      ⟨trivial, by simp, _, rfl⟩,
    rfl⟩

/-- A batch of nine failures and then a success, `k` times over, in the default configuration. -/
def errBatches (hi : HI) : ℕ → HI
  | 0 => hi
  | k + 1 =>
    ((errBatches hi k).reportSomeErr LbConfigure.default 1 9).report LbConfigure.default 1 0

/-- Four batches of nine failures, each followed by a success, leave a host idle with 36 failures
against 274 successes, a share above the rate of one in ten. -/
theorem not_judged : ∃ lb, (fitSystem LbConfigure.default).Reachable lb ∧
    ¬lb.Judged LbConfigure.default := by
  have hfit : ∀ k < 4, (errBatches (HI.new 0 10 80 270 0) k).Fits 9 ∧
      ((errBatches (HI.new 0 10 80 270 0) k).reportSomeErr LbConfigure.default 1 9).Fits 1 := by
    decide +kernel
  have hhost : ∀ k ≤ 4, Hosts LbConfigure.default (packKey 10 80)
      (errBatches (HI.new 0 10 80 270 0) k) := by
    intro k hk
    induction k with
    | zero => exact hosts_fresh
    | succ k ih =>
      exact ((ih (by omega)).reportSomeErr (hfit k (by omega)).1 1).report (hfit k (by omega)).2 1 0
  obtain ⟨lb, hr, hk⟩ := hhost 4 le_rfl
  refine ⟨lb, hr, fun hj => ?_⟩
  have hshare := ((hj _ _ hk).idle (by decide +kernel)).1
  exact absurd hshare (by decide +kernel)

end LB

end Elb
