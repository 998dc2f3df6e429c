import Elb.Lbagent.HostHistory

/-!
# Time limits

Reference: the block that closes `LB::report`, `LB::reportSomeSucc` and `LB::reportSomeErr` in
`lbagent/src/RouteLb.cc`.

Time limits are looked at only when a result comes in, but then by every one of the three functions:
after a call result its host is within its window, or within its waiting time.
-/

namespace Elb.LB

open Transition

variable {R : Type} [RateArith R] {cfg : LbConfigure R} {now : ℤ} {hi : HI} {op : Op}
  {past : HostPast} {key : UInt64}

/-! ## One call -/

/-- A record that a call result did not start over is within its time limits. -/
theorem not_timoDue_of_not_restarts (h : ¬op.Restarts cfg now hi) :
    ¬(op.count hi).TimoDue cfg now := by
  rw [Op.Restarts, not_or, not_or, not_or] at h
  obtain ⟨ho, hr, hc, hw⟩ := h
  have hret := Op.not_returns ho hr
  have hjudge : op.judge cfg now hi = op.count hi := Op.judge_of_not ho hr
  rintro (⟨hidle, hdue⟩ | ⟨hover, hdue⟩)
  · exact hc ⟨hret, by rw [hjudge]; exact hidle, by rw [hjudge]; exact hdue⟩
  · exact hw ⟨hret, by rw [hjudge]; exact hover, by rw [hjudge]; exact hdue⟩

/-- After a call result no time limit of the host is due. -/
theorem not_timoDue_apply (hclear : 0 < cfg.clearTimo) (hwait : 0 < cfg.ovldWaitLim)
    (htgt : op.target = some key) : ¬(op.apply cfg now hi).TimoDue cfg now := by
  -- a record that started over at this moment
  have hidle : ∀ m : HI, m.overload = false → m.windowTs = now → ¬m.TimoDue cfg now := by
    rintro m hover hts (⟨-, hdue⟩ | ⟨hover', -⟩)
    · omega
    · cases hover.symm.trans hover'
  have hdown : ∀ m : HI, m.overload = true → m.overloadTs = now → ¬m.TimoDue cfg now := by
    rintro m hover hts (⟨hover', -⟩ | ⟨-, hdue⟩)
    · cases hover.symm.trans hover'
    · omega
  have hout := outcome_apply htgt cfg now hi
  generalize op.apply cfg now hi = hi' at hout ⊢
  cases hout with
  | counts hno => exact not_timoDue_of_not_restarts hno
  | overloads => exact hdown _ rfl rfl
  | recovers => exact hidle _ rfl rfl
  | windowDown => exact hdown _ rfl rfl
  | windowReset => exact hidle _ rfl rfl
  | waitsOut => exact hidle _ rfl rfl

/-- A host whose waiting time is over becomes idle, whatever the result is. -/
theorem idle_of_waited (hclear : 0 < cfg.clearTimo) (htgt : op.target = some key)
    (hover : hi.overload = true) (hdue : cfg.ovldWaitLim ≤ now - hi.overloadTs) :
    (op.apply cfg now hi).overload = false := by
  have hout := outcome_apply htgt cfg now hi
  generalize op.apply cfg now hi = hi' at hout ⊢
  cases hout with
  | counts hno =>
    refine absurd (.inr ⟨?_, ?_⟩) (not_timoDue_of_not_restarts hno)
    · rw [Op.count_overload, hover]
    · rw [Op.count_overloadTs]
      exact hdue
  | overloads ho => cases hover.symm.trans ho.idle
  | recovers => rfl
  | windowDown hc =>
    -- only a host that has just recovered has a window, which cannot be over
    obtain ⟨-, hidle, hover'⟩ := hc
    by_cases hr : op.Recovers cfg hi
    · rw [Op.judge_of_recovers hr] at hover'
      simp only [HI.addSucc, HI.resetIdle, sub_self] at hover'
      omega
    · rw [Op.judge_of_not (fun ho => by cases hover.symm.trans ho.idle) hr, Op.count_overload,
        hover] at hidle
      cases hidle
  | windowReset => rfl
  | waitsOut => rfl

/-! ## What the counters hold -/

/-- The real counters, and the virtual failures of an idle host, are what was received since the
record started over, modulo 2^32. -/
structure Carries (past : HostPast) (hi : HI) : Prop where
  rSucc : hi.rSucc.toNat = past.succs % 2 ^ 32
  rErr : hi.rErr.toNat = past.errs % 2 ^ 32
  err : hi.overload = false → hi.err.toNat = past.errs % 2 ^ 32

/-- Adding what a call brings. -/
theorem toNat_add_mod {a n : UInt32} {k : ℕ} (h : a.toNat = k % 2 ^ 32) :
    (a + n).toNat = (k + n.toNat) % 2 ^ 32 := by
  rw [UInt32.toNat_add, h, Nat.mod_add_mod]

/-- A call result is carried, or the record starts over and carries nothing. -/
theorem Carries.apply (h : Carries past hi) (htgt : op.target = some key) :
    Carries (past.next cfg now op hi) (op.apply cfg now hi) := by
  -- a record that starts over has no results, and no past either
  have hzero : ∀ m : HI, op.Restarts cfg now hi → m.rSucc = 0 → m.rErr = 0 →
      (m.overload = false → m.err = 0) → Carries (past.next cfg now op hi) m := by
    intro m hr hs he herr
    have hns : (past.next cfg now op hi).succs = 0 := by
      simp [HostPast.succs, HostPast.next_since_of_restarts hr]
    have hne : (past.next cfg now op hi).errs = 0 := by
      simp [HostPast.errs, HostPast.next_since_of_restarts hr]
    refine ⟨by rw [hs, hns]; rfl, by rw [he, hne]; rfl, fun hover => ?_⟩
    rw [herr hover, hne]
    rfl
  have hout := outcome_apply htgt cfg now hi
  generalize op.apply cfg now hi = hi' at hout ⊢
  cases hout with
  | counts hno =>
    refine ⟨?_, ?_, fun hover => ?_⟩
    · rw [Op.count_rSucc, HostPast.next_succs hno, toNat_add_mod h.rSucc]
    · rw [Op.count_rErr, HostPast.next_errs hno, toNat_add_mod h.rErr]
    · rw [Op.count_err, HostPast.next_errs hno,
        toNat_add_mod (h.err (Op.count_overload.symm.trans hover))]
  | overloads ho => exact hzero _ (.inl ho) rfl rfl (by rintro ⟨⟩)
  | recovers hr => exact hzero _ (.inr (.inl hr)) rfl rfl fun _ => rfl
  | windowDown hc => exact hzero _ (.inr (.inr (.inl hc))) rfl rfl (by rintro ⟨⟩)
  | windowReset hc => exact hzero _ (.inr (.inr (.inl hc))) rfl rfl fun _ => rfl
  | waitsOut hw => exact hzero _ (.inr (.inr (.inr hw))) rfl rfl fun _ => rfl

/-! ## The age of what is held -/

/-- What was received since an idle record started over came within its window. -/
def Within (clock : ℤ) (past : HostPast) (hi : HI) : Prop :=
  hi.overload = false → hi.windowTs ≤ clock ∧ ∀ e ∈ past.since, hi.windowTs ≤ e.1

/-- A result on the host comes within its window, or starts another one. -/
theorem Within.apply {clock : ℤ} (h : Within clock past hi) (hclock : clock ≤ now)
    (htgt : op.target = some key) :
    Within now (past.next cfg now op hi) (op.apply cfg now hi) := by
  have hnil : ∀ m : HI, op.Restarts cfg now hi → m.windowTs = now →
      Within now (past.next cfg now op hi) m := by
    intro m hr hts _
    rw [HostPast.next_since_of_restarts hr]
    exact ⟨hts.le, by simp⟩
  have hout := outcome_apply htgt cfg now hi
  generalize op.apply cfg now hi = hi' at hout ⊢
  cases hout with
  | counts hno =>
    intro hover
    obtain ⟨hts, hall⟩ := h (Op.count_overload.symm.trans hover)
    rw [Op.count_windowTs, HostPast.next_since hno]
    refine ⟨hts.trans hclock, fun e he => ?_⟩
    rcases List.mem_append.mp he with he | he
    · exact hall e he
    · rw [List.mem_singleton.mp he]
      exact hts.trans hclock
  | overloads => rintro ⟨⟩
  | recovers hr => exact hnil _ (.inr (.inl hr)) rfl
  | windowDown => rintro ⟨⟩
  | windowReset hc => exact hnil _ (.inr (.inr (.inl hc))) rfl
  | waitsOut hw => exact hnil _ (.inr (.inr (.inr hw))) rfl

/-- The clock does not go back. -/
def Forward (s : Annals) (e : ℤ × Op) : Prop := s.clock ≤ e.1

instance (s : Annals) (e : ℤ × Op) : Decidable (Forward s e) :=
  inferInstanceAs (Decidable (s.clock ≤ e.1))

/-- In every run in which the clock does not go back, records carry what was received since they
started over, and idle ones received it within their window. -/
theorem carries_within {s : Annals} (h : ((annals cfg).restrict Forward).Reachable s) (key : UInt64)
    (hi : HI) (hk : s.lb.hostMap.lookup key = some hi) :
    Carries (s.past key) hi ∧ Within s.clock (s.past key) hi := by
  refine h.invariant (P := fun s => ∀ key hi, s.lb.hostMap.lookup key = some hi →
    Carries (s.past key) hi ∧ Within s.clock (s.past key) hi) ?_ ?_ key hi hk
  · rintro s ⟨⟨self, modid, cmdid, hlb⟩, -⟩ key hi hk
    rw [hlb] at hk
    simp [LB.new] at hk
  · rintro s ⟨t, op⟩ s' hr ih ⟨hclock, hs⟩ key hi' hk'
    have hinv := repInv_of_reachable (reachable_lb hr.of_restrict)
    have hnow : s'.clock = t := hs.2.1
    rcases annals_step_cases hinv hs hk' with ⟨p, a, rfl, hpast⟩ | ⟨hk, hpast⟩ |
      ⟨hi, htgt, hk, rfl, hpast⟩
    · -- a new host, one that the call is not about, and one that it is about
      rw [hpast, hnow]
      exact ⟨⟨rfl, rfl, fun _ => rfl⟩, fun _ => ⟨le_rfl, by simp [HostPast.empty]⟩⟩
    · rw [hpast, hnow]
      obtain ⟨hcarries, hwithin⟩ := ih key hi' hk
      exact ⟨hcarries, fun hover =>
        ⟨(hwithin hover).1.trans hclock, (hwithin hover).2⟩⟩
    · rw [hpast, hnow]
      obtain ⟨hcarries, hwithin⟩ := ih key hi hk
      exact ⟨hcarries.apply htgt, hwithin.apply hclock htgt⟩

/-! ## Every run -/

/-- After a call result the host is within its time limits. A host that has waited long enough
leaves `_downList`, and an idle host carries nothing that is older than one window. -/
theorem limits_after_result (hclear : 0 < cfg.clearTimo) (hwait : 0 < cfg.ovldWaitLim)
    {s s' : Annals} (h : ((annals cfg).restrict Forward).Reachable s) {t : ℤ} (hclock : s.clock ≤ t)
    (hstep : (annals cfg).step s (t, op) s') (htgt : op.target = some key)
    (hk : s.lb.hostMap.lookup key = some hi) :
    ∃ hi', s'.lb.hostMap.lookup key = some hi' ∧
      (hi'.overload = false → t - hi'.windowTs < cfg.clearTimo) ∧
      (hi'.overload = true → t - hi'.overloadTs < cfg.ovldWaitLim) ∧
      (hi.overload = true → cfg.ovldWaitLim ≤ t - hi.overloadTs →
        hi.self ∈ s.lb.downList ∧ hi'.self = hi.self ∧ hi'.self ∉ s'.lb.downList) ∧
      (hi'.overload = false → Carries (s'.past key) hi' ∧
        ∀ e ∈ (s'.past key).since, t - e.1 < cfg.clearTimo) := by
  have hinv := repInv_of_reachable (reachable_lb h.of_restrict)
  have h' : ((annals cfg).restrict Forward).Reachable s' :=
    h.step (e := (t, op)) ⟨hclock, hstep⟩
  have hinv' := repInv_of_reachable (reachable_lb h'.of_restrict)
  have hk' := lookup_apply hinv hstep htgt hk
  obtain ⟨hcarries, hwithin⟩ := carries_within h' key _ hk'
  have hdue : ¬(op.apply cfg t hi).TimoDue cfg t := not_timoDue_apply hclear hwait htgt
  have hwindow : (op.apply cfg t hi).overload = false →
      t - (op.apply cfg t hi).windowTs < cfg.clearTimo :=
    fun hover => lt_of_not_ge fun hge => hdue (.inl ⟨hover, hge⟩)
  refine ⟨_, hk', hwindow, fun hover => lt_of_not_ge fun hge => hdue (.inr ⟨hover, hge⟩), ?_, ?_⟩
  · intro hover hwaited
    refine ⟨(hinv.mem_down key hi hk).mpr hover, (op.sameHost_apply hi).1, fun hmem => ?_⟩
    have hidle := idle_of_waited hclear htgt hover hwaited
    cases hidle.symm.trans ((hinv'.mem_down key _ hk').mp hmem)
  · intro hover
    refine ⟨hcarries, fun e he => ?_⟩
    have hts := (hwithin hover).2 e he
    have := hwindow hover
    dsimp only at this hts
    omega

/-- A host of the default configuration joins the route, is overloaded by ten failures in a row, and
leaves `_downList` with the failure that is reported after the waiting time. -/
theorem limits_after_failure : ∃ s s' hi hi', (annals LbConfigure.default).step s
      (301, .report 10 80 1) s' ∧
    s.lb.hostMap.lookup (packKey 10 80) = some hi ∧ hi.overload = true ∧
    s'.lb.hostMap.lookup (packKey 10 80) = some hi' ∧ hi'.self ∉ s'.lb.downList := by
  have h : ((annals LbConfigure.default).restrict Forward).Reachable
      ([(0, .update ⟨1, 2, [⟨10, 80⟩]⟩), (1, .reportSomeErr 10 80 10)].foldl
        (Annals.next LbConfigure.default) .start) :=
    Annals.reachable_foldl (by decide +kernel)
  have hstep := annals_step_next LbConfigure.default _ (301, .report 10 80 1)
    (show LB.Allowed LbConfigure.default ([(0, .update ⟨1, 2, [⟨10, 80⟩]⟩),
      (1, .reportSomeErr 10 80 10)].foldl (Annals.next LbConfigure.default) .start).lb _ by
        decide +kernel)
  obtain ⟨hi', hk', -, -, hleave, -⟩ := limits_after_result (by decide) (by decide) h
    (show (1 : ℤ) ≤ 301 by decide) hstep
    (show Op.target (.report 10 80 1) = some (packKey 10 80) from rfl) rfl
  exact ⟨_, _, _, hi', hstep, rfl, rfl, hk', (hleave rfl (by decide)).2.2⟩

end Elb.LB
