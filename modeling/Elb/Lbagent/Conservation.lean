import Elb.Lbagent.LbRun

/-!
# What the reporter is told

`HI::rSucc` and `HI::rErr` count real results for the reporter and are meant to be reset once in
each report period. A `Ledger` keeps, for a host during its stay in the route, what was applied to
it and what was sent for it; it balances when the difference is what the record still holds.

Reference: `lbagent/include/RouteLb.h`, the comments on `rSucc` and `rErr`. `LB::report2Rpter` only
reads the two counters; the window, overload and recovery reset them without a report.
-/

namespace Elb

open Transition

variable {R : Type} [RateArith R] {cfg : LbConfigure R} {now : ℤ}

/-! ## When a record starts over -/

/-- The closing block starts the record over, with the real counters at zero, or leaves it alone. -/
theorem HI.checkTimo_cases (cfg : LbConfigure R) (now : ℤ) (hi : HI) :
    (hi.TimoDue cfg now ∧ (hi.checkTimo cfg now).rSucc = 0 ∧ (hi.checkTimo cfg now).rErr = 0) ∨
      (¬hi.TimoDue cfg now ∧ hi.checkTimo cfg now = hi) := by
  rw [HI.checkTimo, HI.TimoDue]
  by_cases hover : hi.overload = true
  · by_cases hdue : cfg.ovldWaitLim ≤ now - hi.overloadTs
    · exact .inl ⟨.inr ⟨hover, hdue⟩, by simp [hover, hdue, HI.resetIdle]⟩
    · exact .inr ⟨by simp [hover, hdue], by simp [hover, hdue]⟩
  · have hidle : hi.overload = false := by simpa using hover
    by_cases hdue : cfg.clearTimo ≤ now - hi.windowTs
    · refine .inl ⟨.inl ⟨hidle, hdue⟩, ?_⟩
      rw [if_pos (by simp [hidle]), if_pos hdue]
      split <;> exact ⟨rfl, rfl⟩
    · exact .inr ⟨by simp [hidle, hdue], by simp [hidle, hdue]⟩

/-- The closing block leaves empty counters empty. -/
theorem HI.checkTimo_of_zero (cfg : LbConfigure R) (now : ℤ) (hi : HI) (hs : hi.rSucc = 0)
    (he : hi.rErr = 0) :
    (hi.checkTimo cfg now).rSucc = 0 ∧ (hi.checkTimo cfg now).rErr = 0 := by
  rcases hi.checkTimo_cases cfg now with ⟨-, h⟩ | ⟨-, heq⟩
  · exact h
  · rw [heq]
    exact ⟨hs, he⟩

namespace LB

/-- The successes of a call result. -/
def Op.succs : Op → UInt32
  | .report _ _ retcode => if retcode = 0 then 1 else 0
  | .reportSomeSucc _ _ succCnt => succCnt
  | _ => 0

/-- The failures of a call result. -/
def Op.errs : Op → UInt32
  | .report _ _ retcode => if retcode = 0 then 0 else 1
  | .reportSomeErr _ _ errCnt => errCnt
  | _ => 0

/-- The call result starts the record over: by its time, or because it takes the host across one of
the limits. -/
def Op.StartsOver (cfg : LbConfigure R) (now : ℤ) (hi : HI) : Op → Prop
  | .report _ _ retcode =>
    hi.TimoDue cfg now ∨
      (hi.overload = false ∧ retcode ≠ 0 ∧
        (RateArith.ratioGt (hi.err + 1) (hi.succ + (hi.err + 1)) cfg.errRate = true ∨
          cfg.continErrLim.toUInt32 ≤ hi.continErr + 1)) ∨
      (hi.overload = true ∧ retcode = 0 ∧
        (RateArith.ratioGt (hi.succ + 1) (hi.succ + 1 + hi.err) cfg.succRate = true ∨
          cfg.continSuccLim.toUInt32 ≤ hi.continSucc + 1))
  | .reportSomeSucc _ _ n =>
    hi.TimoDue cfg now ∨
      (hi.overload = true ∧
        (cfg.continSuccLim.toUInt32 ≤ hi.continSucc + n ∨ need cfg.succRate hi.err ≤ n))
  | .reportSomeErr _ _ n =>
    hi.TimoDue cfg now ∨
      (hi.overload = false ∧
        (cfg.continErrLim.toUInt32 ≤ hi.continErr + n ∨ need cfg.errRate hi.succ ≤ n))
  | _ => False

/-- What a call result does to the real counters: they start over, or they count it. -/
inductive Counted (cfg : LbConfigure R) (now : ℤ) (op : Op) (hi : HI) : HI → Prop
  | reset {hi' : HI} (h : op.StartsOver cfg now hi) (hs : hi'.rSucc = 0) (he : hi'.rErr = 0) :
      Counted cfg now op hi hi'
  | count {hi' : HI} (h : ¬op.StartsOver cfg now hi) (hs : hi'.rSucc = hi.rSucc + op.succs)
      (he : hi'.rErr = hi.rErr + op.errs) : Counted cfg now op hi hi'

/-- A result that is counted and closed without a change of lists. -/
theorem Counted.checkTimo {op : Op} {hi hi₁ : HI}
    (hdue : op.StartsOver cfg now hi ↔ hi₁.TimoDue cfg now)
    (hs : hi₁.rSucc = hi.rSucc + op.succs) (he : hi₁.rErr = hi.rErr + op.errs) :
    Counted cfg now op hi (hi₁.checkTimo cfg now) := by
  rcases hi₁.checkTimo_cases cfg now with ⟨h, hs', he'⟩ | ⟨h, heq⟩
  · exact .reset (hdue.mpr h) hs' he'
  · rw [heq]
    exact .count (fun hso => h (hdue.mp hso)) hs he

/-- `LB::report`. -/
theorem counted_report (ip port retcode : Int32) (hi : HI) :
    Counted cfg now (.report ip port retcode) hi (hi.report cfg now retcode) := by
  rw [HI.report]
  by_cases hret : retcode = 0
  · simp only [hret, if_true, bne_self_eq_false, Bool.and_false, Bool.false_eq_true, if_false,
      beq_self_eq_true, Bool.and_true]
    by_cases hover : hi.overload = true
    · rw [if_pos (show ((hi.addSucc 1).countSucc 1).overload = true from hover)]
      split
      · next hj =>
        simp only [Bool.or_eq_true, decide_eq_true_eq] at hj
        exact .reset (.inr (.inr ⟨hover, rfl, hj⟩)) rfl rfl
      · next hj =>
        simp only [Bool.or_eq_true, decide_eq_true_eq] at hj
        refine .checkTimo ⟨?_, .inl⟩ rfl (by simp [HI.countSucc, HI.addSucc, Op.errs])
        rintro (hdue | ⟨-, h0, -⟩ | ⟨-, -, hj'⟩)
        · exact hdue
        · exact absurd rfl h0
        · exact absurd hj' hj
    · rw [if_neg (show ¬((hi.addSucc 1).countSucc 1).overload = true from hover)]
      refine .checkTimo ⟨?_, .inl⟩ rfl (by simp [HI.countSucc, HI.addSucc, Op.errs])
      rintro (hdue | ⟨-, h0, -⟩ | ⟨hover', -⟩)
      · exact hdue
      · exact absurd rfl h0
      · exact absurd hover' hover
  · have hbne : (retcode != 0) = true := by simpa using hret
    have hbeq : (retcode == 0) = false := by simpa using hret
    simp only [hret, if_false, hbne, Bool.and_true, hbeq, Bool.and_false, Bool.false_eq_true]
    by_cases hover : hi.overload = true
    · rw [if_neg (by simpa using show ((hi.addErr 1).countErr 1).overload = true from hover)]
      refine .checkTimo ⟨?_, .inl⟩ (by simp [HI.countErr, HI.addErr, Op.succs, hret])
        (by simp [HI.countErr, HI.addErr, Op.errs, hret])
      rintro (hdue | ⟨hidle, -⟩ | ⟨-, h0, -⟩)
      · exact hdue
      · cases hover.symm.trans hidle
      · exact absurd h0 hret
    · have hidle : hi.overload = false := by simpa using hover
      rw [if_pos (by simpa using show ((hi.addErr 1).countErr 1).overload = false from hidle)]
      split
      · next hj =>
        simp only [Bool.or_eq_true, decide_eq_true_eq] at hj
        exact .reset (.inr (.inl ⟨hidle, hret, hj⟩)) rfl rfl
      · next hj =>
        simp only [Bool.or_eq_true, decide_eq_true_eq] at hj
        refine .checkTimo ⟨?_, .inl⟩ (by simp [HI.countErr, HI.addErr, Op.succs, hret])
          (by simp [HI.countErr, HI.addErr, Op.errs, hret])
        rintro (hdue | ⟨-, -, hj'⟩ | ⟨-, h0, -⟩)
        · exact hdue
        · exact absurd hj' hj
        · exact absurd h0 hret

/-- `LB::reportSomeSucc`. -/
theorem counted_reportSomeSucc (ip port : Int32) (n : UInt32) (hi : HI) :
    Counted cfg now (.reportSomeSucc ip port n) hi (hi.reportSomeSucc cfg now n) := by
  rw [HI.reportSomeSucc]
  by_cases hover : hi.overload = true
  · rw [if_neg (by simpa using show (hi.countSucc n).overload = true from hover)]
    rcases judgeIdle_cases cfg n (hi.countSucc n) with ⟨hlim, hj⟩ | ⟨hcontin, hneed, hj⟩
    · -- the left-over part goes to `succ`, which no report shows
      rw [if_pos hj]
      obtain ⟨hs, he⟩ := HI.checkTimo_of_zero cfg now
        ((((hi.countSucc n).addSucc (n - (judgeIdle cfg n (hi.countSucc n)).2)).resetIdle
          cfg.initSuccCnt.toUInt32 now).addSucc (judgeIdle cfg n (hi.countSucc n)).2) rfl rfl
      exact .reset (.inr ⟨hover, hlim⟩) hs he
    · rw [hj, if_neg (by simp)]
      refine .checkTimo ⟨?_, .inl⟩ rfl (by simp [HI.countSucc, HI.addSucc, Op.errs])
      rintro (hdue | ⟨-, hlim | hlim⟩)
      · exact hdue
      · exact absurd hlim (UInt32.not_le.mpr hcontin)
      · exact absurd hlim (UInt32.not_le.mpr hneed)
  · have hidle : hi.overload = false := by simpa using hover
    rw [if_pos (by simpa using show (hi.countSucc n).overload = false from hidle)]
    refine .checkTimo ⟨?_, .inl⟩ rfl (by simp [HI.countSucc, HI.addSucc, Op.errs])
    rintro (hdue | ⟨hover', -⟩)
    · exact hdue
    · exact absurd hover' hover

/-- `LB::reportSomeErr`. -/
theorem counted_reportSomeErr (ip port : Int32) (n : UInt32) (hi : HI) :
    Counted cfg now (.reportSomeErr ip port n) hi (hi.reportSomeErr cfg now n) := by
  rw [HI.reportSomeErr]
  by_cases hover : hi.overload = true
  · rw [if_pos (show (hi.countErr n).overload = true from hover)]
    refine .checkTimo ⟨?_, .inl⟩ (by simp [HI.countErr, HI.addErr, Op.succs]) rfl
    rintro (hdue | ⟨hidle, -⟩)
    · exact hdue
    · cases hover.symm.trans hidle
  · have hidle : hi.overload = false := by simpa using hover
    rw [if_neg (show ¬(hi.countErr n).overload = true from hover)]
    rcases judgeOverload_cases cfg n (hi.countErr n) with ⟨hlim, hj⟩ | ⟨hcontin, hneed, hj⟩
    · rw [if_pos hj]
      obtain ⟨hs, he⟩ := HI.checkTimo_of_zero cfg now
        ((((hi.countErr n).addErr (n - (judgeOverload cfg n (hi.countErr n)).2)).setOverload
          cfg.ovldErrCnt.toUInt32 now).addErr (judgeOverload cfg n (hi.countErr n)).2) rfl rfl
      exact .reset (.inr ⟨hidle, hlim⟩) hs he
    · rw [hj, if_neg (by simp)]
      refine .checkTimo ⟨?_, .inl⟩ (by simp [HI.countErr, HI.addErr, Op.succs]) rfl
      rintro (hdue | ⟨-, hlim | hlim⟩)
      · exact hdue
      · exact absurd hlim (UInt32.not_le.mpr hcontin)
      · exact absurd hlim (UInt32.not_le.mpr hneed)

/-- Every call result starts the real counters over or counts. -/
theorem counted_apply {op : Op} {key : UInt64} (h : op.target = some key) (hi : HI) :
    Counted cfg now op hi (op.apply cfg now hi) := by
  cases op with
  | report ip port retcode => exact counted_report ip port retcode hi
  | reportSomeSucc ip port n => exact counted_reportSomeSucc ip port n hi
  | reportSomeErr ip port n => exact counted_reportSomeErr ip port n hi
  | _ => cases h

/-! ## Ledgers -/

/-- What was applied to a host and what was sent for it, during its stay in the route. -/
structure Ledger where
  appliedSucc : ℕ
  appliedErr : ℕ
  sentSucc : ℕ
  sentErr : ℕ

/-- The entries of a report about one host. -/
def entriesFor (key : UInt64) (rept : Option ReportStatusReq) : List HostCallResult :=
  (rept.toList.flatMap ReportStatusReq.results).filter fun r => packKey r.ip r.port = key

/-- The ledger of a host after a call. A stay starts when the host comes into the map, and call
results on other hosts do not count. -/
def Ledger.next (key : UInt64) (lb : LB) (op : Op) (out : Out) (lb' : LB) (l : Ledger) : Ledger :=
  if key ∈ lb.hostMap ∧ key ∈ lb'.hostMap then
    { appliedSucc := l.appliedSucc + if op.target = some key then op.succs.toNat else 0
      appliedErr := l.appliedErr + if op.target = some key then op.errs.toNat else 0
      sentSucc := l.sentSucc + ((entriesFor key out.rept).map fun r => r.succ.toNat).sum
      sentErr := l.sentErr + ((entriesFor key out.rept).map fun r => r.err.toNat).sum }
  else
    ⟨0, 0, 0, 0⟩

/-- Runs of an `LB` with a ledger for every host. -/
def ledgerSystem (cfg : LbConfigure R) : System (LB × (UInt64 → Ledger)) (ℤ × Op) where
  init s := (system cfg).init s.1 ∧ s.2 = fun _ => ⟨0, 0, 0, 0⟩
  step s e s' := (e.2 = .getHost → s.1.empty = false) ∧ ∃ lb out,
    s.1.exec cfg e.1 e.2 = .ok (lb, out) ∧
      s' = (lb, fun key => (s.2 key).next key s.1 e.2 out lb)

/-- What was applied has been sent, or is in the record still. -/
def Ledger.Balanced (l : Ledger) (hi : HI) : Prop :=
  l.appliedSucc = l.sentSucc + hi.rSucc.toNat ∧ l.appliedErr = l.sentErr + hi.rErr.toNat

/-- The ledger of every host of the route balances. -/
def Conserved (s : LB × (UInt64 → Ledger)) : Prop :=
  ∀ key hi, s.1.hostMap.lookup key = some hi → (s.2 key).Balanced hi

/-- A call result counts without wrapping around, or starts over a record that holds nothing and
brings nothing. -/
def Op.Keeps (cfg : LbConfigure R) (now : ℤ) (op : Op) (hi : HI) : Prop :=
  (op.StartsOver cfg now hi →
    hi.rSucc = 0 ∧ hi.rErr = 0 ∧ op.succs = 0 ∧ op.errs = 0) ∧
  (¬op.StartsOver cfg now hi →
    hi.rSucc.toNat + op.succs.toNat < 2 ^ 32 ∧ hi.rErr.toNat + op.errs.toNat < 2 ^ 32)

/-- The condition on a call: a call result keeps what it counts, and a report is sent only while all
real counters are zero. -/
def KeepsCounts (cfg : LbConfigure R) (s : LB × (UInt64 → Ledger)) (e : ℤ × Op) : Prop :=
  (∀ key hi, e.2.target = some key → s.1.hostMap.lookup key = some hi → e.2.Keeps cfg e.1 hi) ∧
  (e.2 = .report2Rpter → s.1.Due cfg e.1 →
    ∀ key hi, s.1.hostMap.lookup key = some hi → hi.rSucc = 0 ∧ hi.rErr = 0)

/-! ## One call -/

/-- A report has one entry about each host, which shows what the record holds. -/
theorem Names.entriesFor_eq {lb : LB} {req : ReportStatusReq} (hn : lb.Names req) (h : lb.RepInv)
    {key : UInt64} {hi : HI} (hk : lb.hostMap.lookup key = some hi) :
    entriesFor key (some req) = [result hi] := by
  have hkey : ∀ hi', packKey (result hi').ip (result hi').port = hi'.key := fun _ => rfl
  have hnd : (entriesFor key (some req)).Nodup := by
    simpa [entriesFor] using (hn.nodup.of_map _).filter _
  -- a list without repetition that has this entry only
  refine List.perm_singleton.mp ((List.perm_ext_iff_of_nodup hnd (List.nodup_singleton _)).mpr ?_)
  intro r
  simp only [entriesFor, Option.toList_some, List.flatMap_singleton, List.mem_filter,
    decide_eq_true_eq, List.mem_singleton]
  constructor
  · rintro ⟨hr, hrk⟩
    obtain ⟨k, hi', hk', rfl⟩ := (hn.mem_iff r).mp hr
    rw [hkey, h.key_eq k hi' hk'] at hrk
    rw [hrk, hk] at hk'
    rw [Option.some.inj hk']
  · rintro rfl
    exact ⟨(hn.mem_iff _).mpr ⟨key, hi, hk, rfl⟩, by rw [hkey, h.key_eq key hi hk]⟩

/-- The counters hold what they held and what was counted exactly when the call keeps it. -/
theorem Counted.keeps_iff {op : Op} {hi hi' : HI} (h : Counted cfg now op hi hi') :
    (hi'.rSucc.toNat = hi.rSucc.toNat + op.succs.toNat ∧
      hi'.rErr.toNat = hi.rErr.toNat + op.errs.toNat) ↔ op.Keeps cfg now hi := by
  have hzero : ∀ a : UInt32, a = 0 ↔ a.toNat = 0 := fun a => UInt32.toNat_inj.symm
  cases h with
  -- a record that starts over forgets the result too, which must be nothing
  | reset h hs he =>
    rw [hs, he, Op.Keeps]
    simp only [h, forall_const, not_true_eq_false, false_imp_iff, and_true, hzero,
      UInt32.toNat_zero]
    omega
  -- the sums are modulo 2^32
  | count h hs he =>
    rw [hs, he, Op.Keeps, UInt32.toNat_add, UInt32.toNat_add]
    simp only [h, false_imp_iff, not_false_eq_true, forall_const, true_and]
    omega

/-- The ledger of a host that stays in the route, after a call that sends no report. -/
theorem Ledger.next_of_none {key : UInt64} {lb lb' : LB} {op : Op} {out : Out} (l : Ledger)
    (hk : key ∈ lb.hostMap) (hk' : key ∈ lb'.hostMap) (hout : out.rept = none) :
    l.next key lb op out lb' =
      ⟨l.appliedSucc + if op.target = some key then op.succs.toNat else 0,
        l.appliedErr + if op.target = some key then op.errs.toNat else 0,
        l.sentSucc, l.sentErr⟩ := by
  rw [Ledger.next, if_pos ⟨hk, hk'⟩, hout]
  simp [entriesFor]

/-- The ledger of a host that comes into the route. -/
theorem Ledger.next_of_not_mem {key : UInt64} {lb lb' : LB} {op : Op} {out : Out} (l : Ledger)
    (hk : key ∉ lb.hostMap) : l.next key lb op out lb' = ⟨0, 0, 0, 0⟩ := by
  rw [Ledger.next, if_neg fun h => hk h.1]

section Step

variable {lb lb' : LB} {ledger : UInt64 → Ledger} {op : Op} {out : Out}

/-- A call result moves the ledger of its host only. -/
theorem Conserved.result_iff (h : Conserved (lb, ledger)) {key : UInt64} {hi : HI}
    (htgt : op.target = some key) (hk : lb.hostMap.lookup key = some hi)
    (hw : Writes lb key (op.apply cfg now hi) lb') (hout : out.rept = none) :
    Conserved (lb', fun k => (ledger k).next k lb op out lb') ↔ op.Keeps cfg now hi := by
  have hmem := hw.mem_iff hk
  have hbal := h key hi hk
  have hin := HashMap.mem_iff.mpr ⟨hi, hk⟩
  rw [← (counted_apply htgt hi).keeps_iff]
  constructor
  · intro hc
    have hbal' := hc key (op.apply cfg now hi) (by rw [hw.lookup, if_pos rfl])
    simp only [Ledger.next_of_none _ hin ((hmem key).mpr hin) hout, htgt, if_true,
      Ledger.Balanced] at hbal' hbal
    omega
  · intro hkeep k hi' hk'
    rw [hw.lookup] at hk'
    split at hk'
    · next heq =>
      subst heq
      obtain rfl := Option.some.inj hk'
      simp only [Ledger.next_of_none _ hin ((hmem k).mpr hin) hout, htgt, if_true,
        Ledger.Balanced] at hbal ⊢
      omega
    · -- another host, with its record and its ledger as they were
      next hne =>
      have hin' := HashMap.mem_iff.mpr ⟨hi', hk'⟩
      have hother : op.target ≠ some k := by rw [htgt]; simpa using fun heq => hne heq.symm
      simp only [Ledger.next_of_none _ hin' ((hmem k).mpr hin') hout, hother, if_false,
        Nat.add_zero]
      exact h k hi' hk'

omit [RateArith R] in
/-- An update leaves the ledgers of the hosts that stay, and the others start with nothing. -/
theorem Conserved.update (h : Conserved (lb, ledger)) {rsp : GetRouteRsp}
    (hspec : UpdateSpec cfg now lb rsp lb') (hout : out.rept = none) :
    Conserved (lb', fun k => (ledger k).next k lb (.update rsp) out lb') := by
  intro k hi hk'
  have hin' := HashMap.mem_iff.mpr ⟨hi, hk'⟩
  cases hk : lb.hostMap.lookup k with
  -- a host that comes in starts with nothing applied
  | none =>
    obtain ⟨p, a, -, rfl⟩ := hspec.fresh k hi hk hk'
    simp only [Ledger.next_of_not_mem _ (AList.lookup_eq_none.mp hk), Ledger.Balanced]
    exact ⟨rfl, rfl⟩
  | some hi₀ =>
    rw [hspec.kept k hi₀ hk ((hspec.keys k).mp hin')] at hk'
    obtain rfl := Option.some.inj hk'
    simp only [Ledger.next_of_none _ (HashMap.mem_iff.mpr ⟨_, hk⟩) hin' hout, Op.target,
      reduceCtorEq, if_false, Nat.add_zero]
    exact h k hi₀ hk

/-- A call that touches no record and sends no report. -/
theorem Conserved.inert (h : Conserved (lb, ledger)) (hmap : lb'.hostMap = lb.hostMap)
    (habsent : ∀ key, op.target = some key → lb.hostMap.lookup key = none)
    (hout : out.rept = none) : Conserved (lb', fun k => (ledger k).next k lb op out lb') := by
  intro k hi hk
  rw [hmap] at hk
  have hin := HashMap.mem_iff.mpr ⟨hi, hk⟩
  have hother : op.target ≠ some k := fun heq => by rw [habsent k heq] at hk; cases hk
  simp only [Ledger.next_of_none _ hin (hmap ▸ hin) hout, hother, if_false, Nat.add_zero]
  exact h k hi hk

/-- A report is sent: what it shows must be nothing, for the records keep it. -/
theorem Conserved.report2Rpter_iff (h : Conserved (lb, ledger)) (hinv : lb.RepInv)
    (hmap : lb'.hostMap = lb.hostMap) {req : ReportStatusReq} (hout : out.rept = some req)
    (hn : lb.Names req) :
    Conserved (lb', fun k => (ledger k).next k lb .report2Rpter out lb') ↔
      ∀ key hi, lb.hostMap.lookup key = some hi → hi.rSucc = 0 ∧ hi.rErr = 0 := by
  rw [Conserved]
  simp only [hmap]
  refine forall_congr' fun k => forall_congr' fun hi => forall_congr' fun hk => ?_
  have hin := HashMap.mem_iff.mpr ⟨hi, hk⟩
  have hbal := h k hi hk
  rw [Ledger.next, if_pos ⟨hin, hmap ▸ hin⟩, hout, hn.entriesFor_eq hinv hk]
  have hzero : ∀ a : UInt32, a = 0 ↔ a.toNat = 0 := fun a => UInt32.toNat_inj.symm
  simp only [Ledger.Balanced, Op.target, reduceCtorEq, if_false, List.map_cons, List.map_nil,
    List.sum_cons, List.sum_nil, Nat.add_zero, LB.result, hzero] at hbal ⊢
  omega

/-- A call keeps all ledgers balanced exactly when it keeps what is counted. -/
theorem Conserved.exec_iff (h : Conserved (lb, ledger)) (hinv : lb.RepInv)
    (hne : op = .getHost → lb.empty = false) (hex : lb.exec cfg now op = .ok (lb', out)) :
    Conserved (lb', fun k => (ledger k).next k lb op out lb') ↔
      KeepsCounts cfg (lb, ledger) (now, op) := by
  -- a call result on a known host, an update, or a call that touches no record
  rcases hinv.exec_cases hne hex with ⟨key, hi, htgt, hk, hw⟩ | ⟨rsp, rfl, -, hspec⟩ |
    ⟨hmap, -, habsent⟩
  · have hnot : op ≠ .report2Rpter := by rintro rfl; cases htgt
    rcases hinv.exec_rept hex with ⟨heq, -⟩ | ⟨-, hout⟩
    · exact absurd heq hnot
    · rw [h.result_iff htgt hk hw hout]
      constructor
      · intro hkeep
        refine ⟨fun key' hi' htgt' hk' => ?_, fun heq => absurd heq hnot⟩
        obtain rfl := Option.some.inj (htgt.symm.trans htgt')
        exact Option.some.inj (hk.symm.trans hk') ▸ hkeep
      · exact fun hkeep => hkeep.1 key hi htgt hk
  · rcases hinv.exec_rept hex with ⟨heq, -⟩ | ⟨-, hout⟩
    · cases heq
    · exact iff_of_true (h.update hspec hout) ⟨by simp [Op.target], by simp⟩
  · have habs : ∀ key hi, op.target = some key → lb.hostMap.lookup key = some hi →
        op.Keeps cfg now hi := fun key hi htgt hk => by rw [habsent key htgt] at hk; cases hk
    rcases hinv.exec_rept hex with ⟨rfl, hdue, req, hout, hn⟩ | ⟨hnot, hout⟩
    · rw [h.report2Rpter_iff hinv hmap hout hn]
      exact ⟨fun hz => ⟨habs, fun _ _ => hz⟩, fun hkeep => hkeep.2 rfl hdue⟩
    · exact iff_of_true (h.inert hmap habsent hout)
        ⟨habs, fun heq hdue => absurd ⟨heq, hdue⟩ hnot⟩

end Step

/-! ## Runs -/

/-- A run with ledgers is a run. -/
theorem repInv_step {s s' : LB × (UInt64 → Ledger)} {e : ℤ × Op} (hinv : s.1.RepInv)
    (hstep : (ledgerSystem cfg).step s e s') : s'.1.RepInv := by
  obtain ⟨hne, lb, out, hex, rfl⟩ := hstep
  exact hinv.exec hne hex

/-- In every run, what was applied is what was sent and what is left, for all hosts in all states,
exactly when every call keeps what is counted. -/
theorem conserved_iff_keepsCounts {s₀ : LB × (UInt64 → Ledger)}
    {tr : List ((ℤ × Op) × (LB × (UInt64 → Ledger)))} (h₀ : (ledgerSystem cfg).init s₀)
    (h : (ledgerSystem cfg).Run s₀ tr) :
    (∀ x ∈ tr, Conserved x.2) ↔ System.Along (KeepsCounts cfg) s₀ tr := by
  obtain ⟨⟨self, modid, cmdid, hlb⟩, -⟩ := h₀
  -- call by call, along the run
  refine h.forall_iff_along (I := fun s => s.1.RepInv) ?_ ?_ ?_ ?_
  · exact fun s e s' hinv hstep => repInv_step hinv hstep
  · rintro ⟨lb, ledger⟩ ⟨now, op⟩ s' hinv hc ⟨hne, lb', out, hex, rfl⟩
    exact hc.exec_iff hinv hne hex
  · exact hlb ▸ repInv_new self modid cmdid
  · intro key hi hk
    rw [hlb] at hk
    simp [LB.new] at hk

/-- A host joins the route, and a success is applied that no report has shown yet. -/
theorem conserved_after_success : ∃ s₀ s₁ s₂, (ledgerSystem LbConfigure.default).Run s₀
    [((0, .update ⟨1, 2, [⟨10, 80⟩]⟩), s₁), ((1, .report 10 80 0), s₂)] ∧
    (s₂.2 (packKey 10 80)).appliedSucc = 1 ∧ Conserved s₂ := by
  have h : (ledgerSystem LbConfigure.default).Run (LB.new 0 1 2, fun _ => ⟨0, 0, 0, 0⟩)
      [((0, .update ⟨1, 2, [⟨10, 80⟩]⟩), _), ((1, .report 10 80 0), _)] :=
    .cons ⟨by simp, _, _, rfl, rfl⟩ (.cons ⟨by simp, _, _, rfl, rfl⟩ (.nil _))
  refine ⟨_, _, _, h, rfl, (conserved_iff_keepsCounts ⟨⟨0, 1, 2, rfl⟩, rfl⟩ h).mpr ?_ _
    (List.mem_cons_of_mem _ List.mem_cons_self)⟩
  refine ⟨⟨by simp [Op.target], by simp⟩, ⟨fun key hi _ hk => ?_, by simp⟩, trivial⟩
  cases List.mem_singleton.mp (HashMap.mem_entries_iff.mpr hk)
  refine ⟨fun hover => ?_, fun _ => by decide⟩
  rcases hover with (⟨-, hdue⟩ | ⟨hoverload, -⟩) | ⟨-, hret, -⟩ | ⟨hoverload, -⟩
  · exact absurd hdue (by decide)
  · cases hoverload
  · exact absurd rfl hret
  · cases hoverload

/-- One success is applied; two reports are sent, and both show it. -/
theorem not_conserved : ∃ s₀ s₁ s₂ s₃ s₄, (ledgerSystem LbConfigure.default).init s₀ ∧
    (ledgerSystem LbConfigure.default).Run s₀
      [((0, .update ⟨1, 2, [⟨10, 80⟩]⟩), s₁), ((1, .report 10 80 0), s₂),
        ((15, .report2Rpter), s₃), ((30, .report2Rpter), s₄)] ∧
    (s₄.2 (packKey 10 80)).appliedSucc = 1 ∧ (s₄.2 (packKey 10 80)).sentSucc = 2 ∧
    ¬Conserved s₄ := by
  have h : (ledgerSystem LbConfigure.default).Run (LB.new 0 1 2, fun _ => ⟨0, 0, 0, 0⟩)
      [((0, .update ⟨1, 2, [⟨10, 80⟩]⟩), _), ((1, .report 10 80 0), _),
        ((15, .report2Rpter), _), ((30, .report2Rpter), _)] :=
    .cons ⟨by simp, _, _, rfl, rfl⟩ (.cons ⟨by simp, _, _, rfl, rfl⟩
      (.cons ⟨by simp, _, _, rfl, rfl⟩ (.cons ⟨by simp, _, _, rfl, rfl⟩ (.nil _))))
  refine ⟨_, _, _, _, _, ⟨⟨0, 1, 2, rfl⟩, rfl⟩, h, rfl, rfl, fun hc => ?_⟩
  have hbal := (hc (packKey 10 80) _ rfl).1
  exact absurd hbal (by decide)

end LB

end Elb
