import Elb.Lbagent.HostHistory

/-!
# Failing windows

Reference: `HI::checkWindow`, `HI::resetIdle` and `HI::setOverload` in `lbagent/src/RouteLb.cc`.

A host with little traffic may fail in every window and still stay below the limits of a judgement,
so `windErrCnt` counts failing windows in a row. Windows are closed by whichever call result comes
next; `resetIdle` keeps the count and `setOverload` clears it. `windErrCnt_eq_badRun` ties it to the
windows that were closed since the host was created or last became idle.
-/

namespace Elb

open Transition

/-! ## One window -/

/-- The real failures of the window reach the rate; a window without results does not. -/
def BadWindow (cfg : LbConfigure ℚ) (w : UInt32 × UInt32) : Bool :=
  w.1.toNat + w.2.toNat ≠ 0 ∧ cfg.windErrRate ≤ share w.2 w.1

/-- How many of the last windows are failing ones in a row. -/
def badRun (cfg : LbConfigure ℚ) (windows : List (UInt32 × UInt32)) : ℕ :=
  (windows.takeWhile (BadWindow cfg)).length

variable {cfg : LbConfigure ℚ}

/-- A failing window prolongs the run. -/
theorem badRun_cons_of_bad {w : UInt32 × UInt32} (h : BadWindow cfg w = true)
    (windows : List (UInt32 × UInt32)) : badRun cfg (w :: windows) = badRun cfg windows + 1 := by
  rw [badRun, List.takeWhile_cons_of_pos h, List.length_cons, badRun]

/-- Another one ends it. -/
theorem badRun_cons_of_good {w : UInt32 × UInt32} (h : BadWindow cfg w = false)
    (windows : List (UInt32 × UInt32)) : badRun cfg (w :: windows) = 0 := by
  rw [badRun, List.takeWhile_cons_of_neg (by simp [h]), List.length_nil]

/-- A window fails when its results are not all missing and their share of failures reaches the
rate. -/
theorem badWindow_iff (hi : HI) (hsum : hi.rSucc.toNat + hi.rErr.toNat < 2 ^ 32) :
    BadWindow cfg (hi.rSucc, hi.rErr) = true ↔ hi.rSucc + hi.rErr ≠ 0 ∧
      RateArith.ratioGe hi.rErr (hi.rSucc + hi.rErr) cfg.windErrRate = true := by
  have hnat : (hi.rSucc + hi.rErr).toNat = hi.rSucc.toNat + hi.rErr.toNat := toNat_add_of_lt hsum
  have hzero : hi.rSucc + hi.rErr = 0 ↔ hi.rSucc.toNat + hi.rErr.toNat = 0 := by
    rw [← UInt32.toNat_inj, hnat, UInt32.toNat_zero]
  simp only [BadWindow, decide_eq_true_eq, ne_eq, hzero, RateArith.ratioGe]
  refine and_congr_right fun hne => ?_
  rw [if_neg hne, share, hnat]
  push_cast
  rw [add_comm]
  simp

/-- `HI::checkWindow` on a failing window. -/
theorem checkWindow_of_bad {hi : HI} (hsum : hi.rSucc.toNat + hi.rErr.toNat < 2 ^ 32)
    (h : BadWindow cfg (hi.rSucc, hi.rErr) = true) : hi.checkWindow cfg =
      (decide ((hi.windErrCnt + 1).toInt32 ≥ cfg.windErrLim),
        { hi with windErrCnt := hi.windErrCnt + 1 }) := by
  obtain ⟨hne, hge⟩ := (badWindow_iff hi hsum).mp h
  rw [HI.checkWindow, if_neg hne, if_pos hge]

/-- `HI::checkWindow` on a window without results, or with few failures. -/
theorem checkWindow_of_good {hi : HI} (hsum : hi.rSucc.toNat + hi.rErr.toNat < 2 ^ 32)
    (h : BadWindow cfg (hi.rSucc, hi.rErr) = false) :
    hi.checkWindow cfg = (false, { hi with windErrCnt := 0 }) := by
  rw [HI.checkWindow]
  split
  · rfl
  · next hne =>
    rw [if_neg fun hge => ?_]
    rw [(badWindow_iff hi hsum).mpr ⟨hne, hge⟩] at h
    cases h

/-- A count below the limit does not wrap around, and its successor is compared as a number. -/
theorem succ_ge_iff {c : UInt32} {lim : Int32} (h : (c.toNat : ℤ) < lim.toInt) :
    (c + 1).toNat = c.toNat + 1 ∧ ((c + 1).toInt32 ≥ lim ↔ lim.toInt ≤ c.toNat + 1) := by
  have hlim : lim.toInt < 2 ^ 31 := Int32.toInt_lt lim
  have hnat : (c + 1).toNat = c.toNat + 1 := toNat_succ (by omega)
  have hint : (c + 1).toInt32.toInt = c.toNat + 1 := by
    rw [← Int32.toInt_toBitVec, UInt32.toBitVec_toInt32, BitVec.toInt_eq_toNat_bmod,
      UInt32.toNat_toBitVec, hnat, Int.bmod_eq_of_le (by omega) (by omega)]
    push_cast
    rfl
  exact ⟨hnat, by rw [ge_iff_le, Int32.le_iff_toInt_le, hint]⟩

namespace LB

variable {now : ℤ} {hi : HI} {op : Op} {past : HostPast} {key : UInt64}

/-! ## One call -/

/-- The real counters of the host and their sum stay within 32 bits. -/
def Op.RealFits (op : Op) (hi : HI) : Prop :=
  hi.rSucc.toNat + hi.rErr.toNat + op.succs.toNat + op.errs.toNat < 2 ^ 32

instance (op : Op) (hi : HI) : Decidable (op.RealFits hi) := inferInstanceAs (Decidable (_ < _))

/-- `windErrCnt` is zero for an overloaded host, and for an idle one it is the number of failing
windows in a row, below the limit. -/
structure WindowCount (cfg : LbConfigure ℚ) (past : HostPast) (hi : HI) : Prop where
  overloaded : hi.overload = true → hi.windErrCnt = 0
  idle : hi.overload = false → hi.windErrCnt.toNat = badRun cfg past.windows ∧
    (badRun cfg past.windows : ℤ) < cfg.windErrLim.toInt

/-- The windows that count when the closing block starts. -/
def Op.windows (cfg : LbConfigure ℚ) (past : HostPast) (hi : HI) (op : Op) :
    List (UInt32 × UInt32) :=
  if op.Recovers cfg hi then [] else past.windows

/-- A call that closes no window leaves the closed ones as they are. -/
theorem next_windows (h : ¬op.WaitsOut cfg now hi) (hc : ¬op.ClosesWindow cfg now hi) :
    (past.next cfg now op hi).windows = op.windows cfg past hi := by
  simp only [HostPast.next, if_neg h, if_neg hc, Op.windows]

/-- A call that closes a window records its counters. -/
theorem next_windows_of_closes (h : op.ClosesWindow cfg now hi) :
    (past.next cfg now op hi).windows =
      ((op.judge cfg now hi).rSucc, (op.judge cfg now hi).rErr) :: op.windows cfg past hi := by
  have hw : ¬op.WaitsOut cfg now hi := fun hw => by cases h.2.1.symm.trans hw.2.1
  simp only [HostPast.next, if_neg hw, if_pos h, Op.windows]

/-- At the end of the waiting time the count starts anew. -/
theorem next_windows_of_waitsOut (h : op.WaitsOut cfg now hi) :
    (past.next cfg now op hi).windows = [] := by
  simp only [HostPast.next, if_pos h]

/-- The count when the closing block starts. -/
theorem WindowCount.judge (h : WindowCount cfg past hi) (hlim : 1 ≤ cfg.windErrLim) :
    WindowCount cfg { past with windows := op.windows cfg past hi } (op.judge cfg now hi) := by
  have hlim' : (1 : ℤ) ≤ cfg.windErrLim.toInt := Int32.le_iff_toInt_le.mp hlim
  by_cases ho : op.Overloads cfg hi
  · rw [Op.judge_of_overloads ho]
    exact ⟨fun _ => rfl, by rintro ⟨⟩⟩
  · by_cases hr : op.Recovers cfg hi
    · rw [Op.judge_of_recovers hr, Op.windows, if_pos hr]
      have hcnt : (op.count hi).windErrCnt = 0 :=
        Op.count_windErrCnt.trans (h.overloaded hr.overloaded)
      refine ⟨by rintro ⟨⟩, fun _ => ?_⟩
      simp only [HI.addSucc, HI.resetIdle, hcnt]
      exact ⟨rfl, show (0 : ℤ) < _ by omega⟩
    · rw [Op.judge_of_not ho hr, Op.windows, if_neg hr]
      refine ⟨fun hover => ?_, fun hover => ?_⟩
      · rw [Op.count_windErrCnt]
        exact h.overloaded (Op.count_overload.symm.trans hover)
      · rw [Op.count_windErrCnt]
        exact h.idle (Op.count_overload.symm.trans hover)

/-- The real counters of the window that is closed. -/
theorem Op.RealFits.judge (h : op.RealFits hi) :
    (op.judge cfg now hi).rSucc.toNat + (op.judge cfg now hi).rErr.toNat < 2 ^ 32 := by
  by_cases ho : op.Overloads cfg hi
  · rw [Op.judge_of_overloads ho]
    exact Nat.two_pow_pos 32
  · by_cases hr : op.Recovers cfg hi
    · rw [Op.judge_of_recovers hr]
      exact Nat.two_pow_pos 32
    · have hs := toNat_add_le hi.rSucc op.succs
      have he := toNat_add_le hi.rErr op.errs
      rw [Op.judge_of_not ho hr, Op.count_rSucc, Op.count_rErr]
      rw [Op.RealFits] at h
      omega

/-- Closing a window counts it if it fails and starts the count over if it does not; the limit makes
the host overloaded. -/
theorem checkWindow_of_closes (h : WindowCount cfg past hi) (hlim : 1 ≤ cfg.windErrLim)
    (hfit : op.RealFits hi) (hc : op.ClosesWindow cfg now hi) :
    (((op.judge cfg now hi).checkWindow cfg).1 = true ↔
        cfg.windErrLim.toInt ≤ badRun cfg (past.next cfg now op hi).windows) ∧
      ((op.judge cfg now hi).checkWindow cfg).2.windErrCnt.toNat =
        badRun cfg (past.next cfg now op hi).windows ∧
      (badRun cfg (past.next cfg now op hi).windows : ℤ) ≤ cfg.windErrLim.toInt := by
  have hlim' : (1 : ℤ) ≤ cfg.windErrLim.toInt := Int32.le_iff_toInt_le.mp hlim
  obtain ⟨hcnt, hlt⟩ := (h.judge hlim).idle hc.2.1
  dsimp only at hcnt hlt
  rw [next_windows_of_closes hc]
  cases hbad : BadWindow cfg ((op.judge cfg now hi).rSucc, (op.judge cfg now hi).rErr) with
  | true =>
    -- the run grows by one, which may reach the limit
    rw [← hcnt] at hlt
    obtain ⟨hnat, hge⟩ := succ_ge_iff hlt
    rw [checkWindow_of_bad hfit.judge hbad, badRun_cons_of_bad hbad, ← hcnt]
    refine ⟨?_, hnat, by push_cast; omega⟩
    rw [decide_eq_true_eq, hge]
    push_cast
    rfl
  | false =>
    rw [checkWindow_of_good hfit.judge hbad, badRun_cons_of_good hbad]
    refine ⟨?_, rfl, by push_cast; omega⟩
    simp only [Bool.false_eq_true, false_iff, not_le]
    push_cast
    omega

/-- Every call result keeps the count. -/
theorem WindowCount.apply (h : WindowCount cfg past hi) (hlim : 1 ≤ cfg.windErrLim)
    (hfit : op.RealFits hi) (htgt : op.target = some key) :
    WindowCount cfg (past.next cfg now op hi) (op.apply cfg now hi) := by
  have hjudge : WindowCount cfg _ (op.judge cfg now hi) := h.judge hlim
  have hempty : (0 : ℤ) < cfg.windErrLim.toInt :=
    lt_of_lt_of_le Int.zero_lt_one (Int32.le_iff_toInt_le.mp hlim)
  have hout := outcome_apply htgt cfg now hi
  generalize op.apply cfg now hi = hi' at hout ⊢
  cases hout with
  | counts hno =>
    rw [Op.Restarts, not_or, not_or, not_or] at hno
    obtain ⟨ho, hr, hc, hw⟩ := hno
    rw [Op.judge_of_not ho hr] at hjudge
    exact ⟨hjudge.overloaded, by rw [next_windows hw hc]; exact hjudge.idle⟩
  | overloads => exact ⟨fun _ => rfl, by rintro ⟨⟩⟩
  | recovers hr hc =>
    -- `resetIdle` keeps the count, which is zero for an overloaded host
    have hw : ¬op.WaitsOut cfg now hi := fun hw => by
      have hover := hw.2.1
      rw [Op.judge_of_recovers hr] at hover
      cases hover
    rw [Op.judge_of_recovers hr] at hjudge
    exact ⟨hjudge.overloaded, by rw [next_windows hw hc]; exact hjudge.idle⟩
  | windowDown => exact ⟨fun _ => rfl, by rintro ⟨⟩⟩
  | windowReset hc hgood =>
    obtain ⟨hiff, hcnt, -⟩ := checkWindow_of_closes h hlim hfit hc
    refine ⟨by rintro ⟨⟩, fun _ => ⟨hcnt, lt_of_not_ge fun hge => ?_⟩⟩
    rw [hiff.mpr hge] at hgood
    cases hgood
  | waitsOut hw =>
    refine ⟨by rintro ⟨⟩, fun _ => ?_⟩
    rw [next_windows_of_waitsOut hw]
    have hzero : (op.judge cfg now hi).windErrCnt = 0 := hjudge.overloaded hw.2.1
    simp only [HI.resetIdle, hzero]
    exact ⟨rfl, hempty⟩

/-- A call that closes a window makes the host overloaded at the limit. -/
theorem overload_of_closes (h : WindowCount cfg past hi) (hlim : 1 ≤ cfg.windErrLim)
    (hfit : op.RealFits hi) (htgt : op.target = some key) (hc : op.ClosesWindow cfg now hi) :
    (op.apply cfg now hi).overload = true ↔
      (badRun cfg (past.next cfg now op hi).windows : ℤ) = cfg.windErrLim.toInt := by
  obtain ⟨hiff, -, hle⟩ := checkWindow_of_closes h hlim hfit hc
  have heq : (badRun cfg (past.next cfg now op hi).windows : ℤ) = cfg.windErrLim.toInt ↔
      ((op.judge cfg now hi).checkWindow cfg).1 = true := by
    rw [hiff]
    omega
  rw [heq]
  have hout := outcome_apply htgt cfg now hi
  generalize op.apply cfg now hi = hi' at hout ⊢
  cases hout with
  | counts hno => exact absurd (.inr (.inr (.inl hc))) hno
  | overloads ho =>
    have hidle := hc.2.1
    rw [Op.judge_of_overloads ho] at hidle
    cases hidle
  | recovers _ hno => exact absurd hc hno
  | windowDown _ hbad => exact iff_of_true rfl hbad
  | windowReset _ hgood =>
    rw [hgood]
    rfl
  | waitsOut hw => cases hc.2.1.symm.trans hw.2.1

/-! ## Every run -/

/-- In every run `windErrCnt` is zero for an overloaded host; for an idle one it is the number of
failing windows in a row among those closed since the host was created or last became idle, and it
is below the limit. A call that closes a window puts the host into `_downList` exactly when the
window makes the run as long as the limit. -/
theorem windErrCnt_eq_badRun (hlim : 1 ≤ cfg.windErrLim) {s : Annals}
    (h : ((annals cfg).restrict (OnHost Op.RealFits)).Reachable s)
    (hk : s.lb.hostMap.lookup key = some hi) :
    (hi.overload = true → hi.windErrCnt = 0) ∧
    (hi.overload = false → hi.windErrCnt.toNat = badRun cfg (s.past key).windows ∧
      (badRun cfg (s.past key).windows : ℤ) < cfg.windErrLim.toInt) ∧
    ∀ t op s', op.target = some key → op.RealFits hi → (annals cfg).step s (t, op) s' →
      op.ClosesWindow cfg t hi → (hi.self ∈ s'.lb.downList ↔
        (badRun cfg (s'.past key).windows : ℤ) = cfg.windErrLim.toInt) := by
  have hempty : (0 : ℤ) < cfg.windErrLim.toInt :=
    lt_of_lt_of_le Int.zero_lt_one (Int32.le_iff_toInt_le.mp hlim)
  have hcount : WindowCount cfg (s.past key) hi :=
    hosts_invariant (fun _ _ _ => ⟨fun _ => rfl, fun _ => ⟨rfl, hempty⟩⟩)
      (fun _ _ _ _ _ htgt hfit h => h.apply hlim hfit htgt) h key hi hk
  refine ⟨hcount.overloaded, hcount.idle, fun t op s' htgt hfit hstep hc => ?_⟩
  have hreach := reachable_lb h.of_restrict
  have hinv := repInv_of_reachable hreach
  have hinv' := repInv_of_reachable (hreach.step hstep.1)
  have hk' := lookup_apply hinv hstep htgt hk
  have hpast : s'.past key = (s.past key).next cfg t op hi := by
    rw [hstep.2.2]
    simp only [Annals.pastAfter, hk, hk', htgt, if_true]
  rw [hpast, ← overload_of_closes hcount hlim hfit htgt hc, ← hinv'.mem_down key _ hk',
    (op.sameHost_apply hi).1]

/-- A host of the default configuration joins the route, fails once, and fails again after the end
of its window, which is one failing window. -/
def failingWindow : List (ℤ × Op) :=
  [(0, .update ⟨1, 2, [⟨10, 80⟩]⟩), (1, .report 10 80 1), (15, .report 10 80 1)]

/-- The failure after the end of the next window closes the second failing window in a row, and puts
the host into `_downList`. -/
theorem down_after_two_windows : ∃ s hi s', (annals LbConfigure.default).step s
      (30, .report 10 80 1) s' ∧ s.lb.hostMap.lookup (packKey 10 80) = some hi ∧
    hi.windErrCnt = 1 ∧ hi.self ∈ s'.lb.downList := by
  have h : ((annals LbConfigure.default).restrict (OnHost Op.RealFits)).Reachable
      (failingWindow.foldl (Annals.next LbConfigure.default) .start) :=
    Annals.reachable_foldl (by decide +kernel)
  have hstep := annals_step_next LbConfigure.default _ (30, .report 10 80 1)
    (show LB.Allowed LbConfigure.default
      (failingWindow.foldl (Annals.next LbConfigure.default) .start).lb _ by decide +kernel)
  have hk : (failingWindow.foldl (Annals.next LbConfigure.default) .start).lb.hostMap.lookup
      (packKey 10 80) = some { HI.new 0 10 80 270 15 with windErrCnt := 1 } := by decide +kernel
  have hdown := (windErrCnt_eq_badRun (by decide) h hk).2.2 30 (.report 10 80 1) _ rfl
    (by decide) hstep (by decide +kernel)
  exact ⟨_, _, _, hstep, hk, rfl, hdown.mpr (by decide +kernel)⟩

end LB

end Elb
