import Elb.Lbagent.HostHistory

/-!
# Hysteresis

Reference: `lbagent/README.md`, the preset virtual counts; `HI::resetIdle` and `HI::setOverload` in
`lbagent/src/RouteLb.cc`.

An idle host starts with `initSuccCnt` virtual successes and an overloaded one with `ovldErrCnt`
virtual failures, so that a few results do not throw it back. `Preset` says that these counts are
still there, and that the opposite counter holds no more than was received since the host changed;
a judgement then has to outweigh the preset count.
-/

namespace Elb

open Transition

/-! ## How many results a rate asks for -/

/-- The least number of results of one kind that reaches the rate against `n` of the other kind. -/
def threshold (r : ℚ) (n : ℕ) : ℕ := ⌈r * n / (1 - r)⌉₊

/-- The threshold is the least number of results that brings the share to `r`. -/
theorem threshold_le_iff {r : ℚ} (hr1 : r < 1) (n k : ℕ) :
    threshold r n ≤ k ↔ r * n ≤ k * (1 - r) := by
  rw [threshold, Nat.ceil_le, div_le_iff₀ (by linarith)]

/-- More results of the other kind ask for more. -/
theorem threshold_mono {r : ℚ} (hr : 0 ≤ r) (hr1 : r < 1) {n m : ℕ} (h : n ≤ m) :
    threshold r n ≤ threshold r m := by
  have hnm : (n : ℚ) ≤ m := by exact_mod_cast h
  have h1 : 0 ≤ 1 - r := by linarith
  exact Nat.ceil_mono (div_le_div_of_nonneg_right (mul_le_mul_of_nonneg_left hnm hr) h1)

/-- The test of `LB::report` passes only beyond the threshold, if the sum does not wrap around. -/
theorem threshold_le_of_ratioGt {r : ℚ} (hr1 : r < 1) {a b c : UInt32}
    (hc : c.toNat = a.toNat + b.toNat) (h : RateArith.ratioGt a c r = true) :
    threshold r b.toNat ≤ a.toNat := by
  rw [threshold_le_iff hr1]
  simp only [RateArith.ratioGt] at h
  split at h
  · next h0 =>
    have ha : a ≠ 0 := by simpa using h
    have hz : c.toNat = 0 := by rw [h0, UInt32.toNat_zero]
    exact absurd (UInt32.toNat_inj.mp (by rw [UInt32.toNat_zero]; omega)) ha
  · next hne =>
    have hpos : (0 : ℚ) < c.toNat := by
      rw [Nat.cast_pos]
      exact Nat.pos_of_ne_zero fun h0 => hne (UInt32.toNat_inj.mp h0)
    have hlt : r < (a.toNat : ℚ) / c.toNat := by simpa using h
    rw [lt_div_iff₀ hpos, hc] at hlt
    push_cast at hlt
    linarith

/-- A batch that has what `need` computes reaches the threshold, if neither the threshold nor the
sum of the two counters leaves 32 bits. -/
theorem threshold_le_of_need_le {r : ℚ} (hr : 0 ≤ r) (hr1 : r < 1) {b n : UInt32}
    (hfit : threshold r b.toNat < 2 ^ 32) (hsum : b.toNat + n.toNat < 2 ^ 32)
    (h : need r b ≤ n) : threshold r b.toNat ≤ n.toNat := by
  have hf := toNat_scale ((Nat.floor_le_ceil _).trans_lt hfit)
  rw [need] at h
  split at h
  · next hlt =>
    have hshort := scale_lt_of_ratioLt hr hr1 hlt
    rw [hf] at hshort
    have hceil := Nat.lt_ceil.mpr hshort
    rw [← threshold] at hceil
    -- the threshold is the next number, so the increment does not wrap around
    have hle : threshold r b.toNat ≤ ⌊r * b.toNat / (1 - r)⌋₊ + 1 := Nat.ceil_le_floor_add_one _
    rw [UInt32.le_iff_toNat_le, toNat_succ (by omega), hf] at h
    omega
  · next hge =>
    rw [UInt32.le_iff_toNat_le] at h
    have hc : (RateArith.scale r b + b).toNat = (RateArith.scale r b).toNat + b.toNat :=
      toNat_add_of_lt (by omega)
    refine le_trans ((threshold_le_iff hr1 _ _).mpr ?_) h
    simp only [RateArith.ratioLt] at hge
    split at hge
    · next h0 =>
      have hz : b.toNat = 0 := by
        have : (RateArith.scale r b + b).toNat = 0 := by rw [h0, UInt32.toNat_zero]
        omega
      rw [hz, Nat.cast_zero, mul_zero]
      exact mul_nonneg (Nat.cast_nonneg _) (by linarith)
    · next hne =>
      have hpos : (0 : ℚ) < (RateArith.scale r b + b).toNat := by
        rw [Nat.cast_pos]
        exact Nat.pos_of_ne_zero fun h0 => hne (UInt32.toNat_inj.mp h0)
      have hle : r ≤ ((RateArith.scale r b).toNat : ℚ) / (RateArith.scale r b + b).toNat := by
        simpa using hge
      rw [le_div_iff₀ hpos, hc] at hle
      push_cast at hle
      linarith

namespace LB

variable {cfg : LbConfigure ℚ} {now : ℤ} {hi : HI} {op : Op} {past : HostPast}

/-! ## Preset counts -/

/-- No 32-bit number that the call computes wraps around: the virtual counters and their sum, the
consecutive counters, the threshold of a batch, and a preset count with what is left of the batch.
-/
structure Op.Exact (cfg : LbConfigure ℚ) (op : Op) (hi : HI) : Prop where
  virtual_lt : hi.succ.toNat + hi.err.toNat + op.succs.toNat + op.errs.toNat < 2 ^ 32
  continSucc_lt : hi.continSucc.toNat + op.succs.toNat < 2 ^ 32
  continErr_lt : hi.continErr.toNat + op.errs.toNat < 2 ^ 32
  needErr_lt : ∀ ip port n, op = .reportSomeErr ip port n → hi.overload = false →
    threshold cfg.errRate hi.succ.toNat < 2 ^ 32
  needSucc_lt : ∀ ip port n, op = .reportSomeSucc ip port n → hi.overload = true →
    threshold cfg.succRate hi.err.toNat < 2 ^ 32
  leftErr_lt : op.Overloads cfg hi →
    cfg.ovldErrCnt.toUInt32.toNat + (op.leftErr cfg hi).toNat < 2 ^ 32
  leftSucc_lt : op.Recovers cfg hi →
    cfg.initSuccCnt.toUInt32.toNat + (op.leftSucc cfg hi).toNat < 2 ^ 32

/-- The preset count of the host's state is there, and the counters that the host is judged by hold
at most what was received since the record started over. -/
structure Preset (cfg : LbConfigure ℚ) (past : HostPast) (hi : HI) : Prop where
  idle : hi.overload = false → cfg.initSuccCnt.toUInt32.toNat ≤ hi.succ.toNat ∧
    hi.err.toNat ≤ past.errs ∧ hi.continErr.toNat ≤ past.errs
  overloaded : hi.overload = true → cfg.ovldErrCnt.toUInt32.toNat ≤ hi.err.toNat ∧
    hi.succ.toNat ≤ past.succs ∧ hi.continSucc.toNat ≤ past.succs

/-- A record that has become idle. -/
theorem preset_idle (hover : hi.overload = false)
    (hsucc : cfg.initSuccCnt.toUInt32.toNat ≤ hi.succ.toNat) (herr : hi.err = 0)
    (hcontin : hi.continErr = 0) : Preset cfg past hi where
  idle _ := by
    rw [herr, hcontin]
    exact ⟨hsucc, Nat.zero_le _, Nat.zero_le _⟩
  overloaded h := by cases hover.symm.trans h

/-- A record that has become overloaded. -/
theorem preset_overloaded (hover : hi.overload = true)
    (herr : cfg.ovldErrCnt.toUInt32.toNat ≤ hi.err.toNat) (hsucc : hi.succ = 0)
    (hcontin : hi.continSucc = 0) : Preset cfg past hi where
  idle h := by cases hover.symm.trans h
  overloaded _ := by
    rw [hsucc, hcontin]
    exact ⟨herr, Nat.zero_le _, Nat.zero_le _⟩

/-- A call result that starts nothing over only adds. -/
theorem Preset.count (h : Preset cfg past hi) (hfit : op.Exact cfg hi)
    (hno : ¬op.Restarts cfg now hi) : Preset cfg (past.next cfg now op hi) (op.count hi) := by
  have hsucc : (op.count hi).succ.toNat = hi.succ.toNat + op.succs.toNat := by
    have := hfit.virtual_lt
    rw [Op.count_succ, toNat_add_of_lt (by omega)]
  have herr : (op.count hi).err.toNat = hi.err.toNat + op.errs.toNat := by
    have := hfit.virtual_lt
    rw [Op.count_err, toNat_add_of_lt (by omega)]
  have hcs : (op.count hi).continSucc.toNat ≤ _ := Op.count_continSucc_le
  have hce : (op.count hi).continErr.toNat ≤ _ := Op.count_continErr_le
  refine ⟨fun hover => ?_, fun hover => ?_⟩
  · obtain ⟨h1, h2, h3⟩ := h.idle (Op.count_overload.symm.trans hover)
    rw [HostPast.next_errs hno]
    exact ⟨by omega, by omega, by omega⟩
  · obtain ⟨h1, h2, h3⟩ := h.overloaded (Op.count_overload.symm.trans hover)
    rw [HostPast.next_succs hno]
    exact ⟨by omega, by omega, by omega⟩

/-- Every call result keeps the preset counts, or sets them. -/
theorem Preset.apply {key : UInt64} (h : Preset cfg past hi) (htgt : op.target = some key)
    (hfit : op.Exact cfg hi) : Preset cfg (past.next cfg now op hi) (op.apply cfg now hi) := by
  have hout := outcome_apply htgt cfg now hi
  generalize op.apply cfg now hi = hi' at hout ⊢
  cases hout with
  | counts hno => exact h.count hfit hno
  | overloads ho =>
    refine preset_overloaded rfl ?_ rfl rfl
    have hleft := hfit.leftErr_lt ho
    simp only [HI.addErr, HI.setOverload]
    rw [toNat_add_of_lt hleft]
    exact Nat.le_add_right _ _
  | recovers hr =>
    refine preset_idle rfl ?_ rfl rfl
    have hleft := hfit.leftSucc_lt hr
    simp only [HI.addSucc, HI.resetIdle]
    rw [toNat_add_of_lt hleft]
    exact Nat.le_add_right _ _
  | windowDown => exact preset_overloaded rfl le_rfl rfl rfl
  | windowReset => exact preset_idle rfl le_rfl rfl rfl
  | waitsOut => exact preset_idle rfl le_rfl rfl rfl

/-! ## What a judgement has to outweigh -/

/-- A sum that stays within 32 bits. -/
theorem le_of_le_add {lim a n : UInt32} (hfit : a.toNat + n.toNat < 2 ^ 32) (h : lim ≤ a + n) :
    lim.toNat ≤ a.toNat + n.toNat := by
  rw [UInt32.le_iff_toNat_le, toNat_add_of_lt hfit] at h
  exact h

/-- An idle host is judged overloaded for its failures in a row or for its share of failures. -/
theorem Op.Overloads.outweighs (hcfg : cfg.Proper) (h : op.Overloads cfg hi)
    (hfit : op.Exact cfg hi) :
    cfg.continErrLim.toUInt32.toNat ≤ hi.continErr.toNat + op.errs.toNat ∨
      threshold cfg.errRate hi.succ.toNat ≤ hi.err.toNat + op.errs.toNat := by
  have hv := hfit.virtual_lt
  cases op with
  | report ip port retcode =>
    obtain ⟨-, hret, hj⟩ := h
    have herrs : (Op.report ip port retcode).errs = 1 := if_neg hret
    have h1 : (1 : UInt32).toNat = 1 := rfl
    rw [herrs, h1] at hv ⊢
    have herr : (hi.err + 1).toNat = hi.err.toNat + 1 := toNat_succ (by omega)
    -- `report` compares the rate itself
    rcases hj with hrate | hcontin
    · refine .inr (herr ▸ threshold_le_of_ratioGt hcfg.errRate_lt ?_ hrate)
      rw [toNat_add_of_lt (by omega), herr]
      omega
    · have hce := hfit.continErr_lt
      rw [herrs] at hce
      exact .inl (le_of_le_add hce hcontin)
  | reportSomeErr ip port n =>
    obtain ⟨hidle, hcontin | hneed⟩ := h
    · exact .inl (le_of_le_add hfit.continErr_lt hcontin)
    · -- `reportSomeErr` compares the size of the batch with `needErr`
      have hn : (Op.reportSomeErr ip port n).errs = n := rfl
      rw [hn] at hv ⊢
      have hle := threshold_le_of_need_le hcfg.errRate_pos.le hcfg.errRate_lt
        (hfit.needErr_lt ip port n rfl hidle) (by omega) hneed
      exact .inr (hle.trans (Nat.le_add_left _ _))
  | _ => exact h.elim

/-- An overloaded host is judged idle for its successes in a row or for its share of successes. -/
theorem Op.Recovers.outweighs (hcfg : cfg.Proper) (h : op.Recovers cfg hi)
    (hfit : op.Exact cfg hi) :
    cfg.continSuccLim.toUInt32.toNat ≤ hi.continSucc.toNat + op.succs.toNat ∨
      threshold cfg.succRate hi.err.toNat ≤ hi.succ.toNat + op.succs.toNat := by
  have hv := hfit.virtual_lt
  cases op with
  | report ip port retcode =>
    obtain ⟨-, rfl, hj⟩ := h
    have hsuccs : (Op.report ip port 0).succs = 1 := rfl
    have h1 : (1 : UInt32).toNat = 1 := rfl
    rw [hsuccs, h1] at hv ⊢
    have hsucc : (hi.succ + 1).toNat = hi.succ.toNat + 1 := toNat_succ (by omega)
    rcases hj with hrate | hcontin
    · refine .inr (hsucc ▸ threshold_le_of_ratioGt hcfg.succRate_lt ?_ hrate)
      rw [toNat_add_of_lt (by omega), hsucc]
    · have hcs := hfit.continSucc_lt
      rw [hsuccs] at hcs
      exact .inl (le_of_le_add hcs hcontin)
  | reportSomeSucc ip port n =>
    obtain ⟨hover, hcontin | hneed⟩ := h
    · exact .inl (le_of_le_add hfit.continSucc_lt hcontin)
    · have hn : (Op.reportSomeSucc ip port n).succs = n := rfl
      rw [hn] at hv ⊢
      have hle := threshold_le_of_need_le hcfg.succRate_pos.le hcfg.succRate_lt
        (hfit.needSucc_lt ip port n rfl hover) (by omega) hneed
      exact .inr (hle.trans (Nat.le_add_left _ _))
  | _ => exact h.elim

/-- In every run that stays within 32 bits, the preset counts are there. -/
theorem preset_of_exact {s : Annals}
    (h : ((annals cfg).restrict (OnHost (Op.Exact cfg))).Reachable s) :
    ∀ key hi, s.lb.hostMap.lookup key = some hi → Preset cfg (s.past key) hi :=
  hosts_invariant (fun _ _ _ => preset_idle rfl le_rfl rfl rfl)
    (fun _ _ _ _ _ htgt hfit h => h.apply htgt hfit) h

/-- A call judges an idle host overloaded only after as many failures since the record started over
as the limit in a row or the rate against the preset successes asks for, and an overloaded host idle
only after as many successes. -/
theorem hysteresis (hcfg : cfg.Proper) {s : Annals}
    (h : ((annals cfg).restrict (OnHost (Op.Exact cfg))).Reachable s) {key : UInt64}
    (hk : s.lb.hostMap.lookup key = some hi) (hfit : op.Exact cfg hi) :
    (op.Overloads cfg hi →
      min cfg.continErrLim.toUInt32.toNat
          (threshold cfg.errRate cfg.initSuccCnt.toUInt32.toNat) ≤
        (s.past key).errs + op.errs.toNat) ∧
    (op.Recovers cfg hi →
      min cfg.continSuccLim.toUInt32.toNat
          (threshold cfg.succRate cfg.ovldErrCnt.toUInt32.toNat) ≤
        (s.past key).succs + op.succs.toNat) := by
  have hp := preset_of_exact h key hi hk
  constructor
  · intro ho
    obtain ⟨hsucc, herr, hcontin⟩ := hp.idle ho.idle
    rcases ho.outweighs hcfg hfit with hlim | hrate
    · exact (min_le_left _ _).trans (by omega)
    · have hmono := threshold_mono hcfg.errRate_pos.le hcfg.errRate_lt hsucc
      exact (min_le_right _ _).trans (by omega)
  · intro hr
    obtain ⟨herr, hsucc, hcontin⟩ := hp.overloaded hr.overloaded
    rcases hr.outweighs hcfg hfit with hlim | hrate
    · exact (min_le_left _ _).trans (by omega)
    · have hmono := threshold_mono hcfg.succRate_pos.le hcfg.succRate_lt herr
      exact (min_le_right _ _).trans (by omega)

/-- A host joins the route and fails thirty times in one batch: the limit of ten in a row is less
than the rate asks for, and the batch has as many. -/
theorem hysteresis_batch : ∃ s hi, ((annals LbConfigure.default).restrict
      (OnHost (Op.Exact LbConfigure.default))).Reachable s ∧
    s.lb.hostMap.lookup (packKey 10 80) = some hi ∧
    (Op.reportSomeErr 10 80 30).Overloads LbConfigure.default hi ∧
    threshold LbConfigure.default.errRate LbConfigure.default.initSuccCnt.toUInt32.toNat = 30 ∧
    min LbConfigure.default.continErrLim.toUInt32.toNat
        (threshold LbConfigure.default.errRate LbConfigure.default.initSuccCnt.toUInt32.toNat) ≤
      (s.past (packKey 10 80)).errs + (Op.reportSomeErr 10 80 30).errs.toNat := by
  have hcfg : LbConfigure.default.Proper := ⟨by decide, by decide, by decide, by decide, by
    decide +kernel, by decide +kernel, by decide +kernel, by decide +kernel⟩
  have hs : ((annals LbConfigure.default).restrict
      (OnHost (Op.Exact LbConfigure.default))).Reachable ⟨_, 0, _⟩ :=
    .step (e := (0, .update ⟨1, 2, [⟨10, 80⟩]⟩))
      (.init (s := ⟨LB.new 0 1 2, 0, fun _ => .empty⟩) ⟨⟨0, 1, 2, rfl⟩, rfl⟩)
      ⟨by rintro key hi ⟨⟩, ⟨by simp, _, rfl⟩, rfl, rfl⟩
  have hj : (Op.reportSomeErr 10 80 30).Overloads LbConfigure.default (HI.new 0 10 80 270 0) :=
    ⟨rfl, .inl (by decide)⟩
  refine ⟨_, HI.new 0 10 80 270 0, hs, rfl, hj, by decide +kernel, (hysteresis hcfg hs rfl ?_).1 hj⟩
  refine ⟨by decide, by decide, by decide, ?_, ?_, ?_, ?_⟩
  · rintro ip port n - -
    decide +kernel
  · rintro ip port n ⟨⟩
  · exact fun _ => by decide
  · exact fun hr => absurd hr id

end LB

end Elb
