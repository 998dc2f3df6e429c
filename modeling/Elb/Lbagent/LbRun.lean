import Elb.Common.Transition
import Elb.Lbagent.HostView
import Elb.Lbagent.LbUpdate

/-!
# Runs of one `LB`

The methods of `LB` as a transition system, in any order and at any times. The representation
invariant holds in every state that a run reaches.
-/

namespace Elb.LB

variable {R : Type} [RateArith R]

/-- The calls of `RouteLB` on one of its modules. -/
inductive Op
  | getHost
  | report (ip port retcode : Int32)
  | reportSomeSucc (ip port : Int32) (succCnt : UInt32)
  | reportSomeErr (ip port : Int32) (errCnt : UInt32)
  | report2Rpter
  | update (rsp : GetRouteRsp)
  | pull
  | clearPulling
deriving DecidableEq

/-- What a call gives back: the return code and host of `getHost`, and a report. -/
structure Out where
  picked : Option (Int32 × Option HostAddr)
  rept : Option ReportStatusReq
deriving DecidableEq

/-- One call at time `now`. -/
def exec (cfg : LbConfigure R) (now : ℤ) (lb : LB) : Op → Except Fault (LB × Out)
  | .getHost => do
    let (lb, ret, host) ← lb.getHost cfg
    return (lb, ⟨some (ret, host), none⟩)
  | .report ip port retcode => .ok (lb.report cfg now ip port retcode, ⟨none, none⟩)
  | .reportSomeSucc ip port succCnt =>
    .ok (lb.reportSomeSucc cfg now ip port succCnt, ⟨none, none⟩)
  | .reportSomeErr ip port errCnt => .ok (lb.reportSomeErr cfg now ip port errCnt, ⟨none, none⟩)
  | .report2Rpter => do
    let (lb, rept) ← lb.report2Rpter cfg now
    return (lb, ⟨none, rept⟩)
  | .update rsp => do
    let lb ← lb.update cfg now rsp
    return (lb, ⟨none, none⟩)
  | .pull => .ok (lb.pull.1, ⟨none, none⟩)
  | .clearPulling => .ok (lb.clearPulling, ⟨none, none⟩)

/-- Runs of one module. `RouteLB::getHost` asks for a host only when the route is not empty. -/
def system (cfg : LbConfigure R) : Transition.System LB (ℤ × Op) where
  init lb := ∃ self modid cmdid, lb = LB.new self modid cmdid
  step lb e lb' :=
    (e.2 = .getHost → lb.empty = false) ∧ ∃ out, lb.exec cfg e.1 e.2 = .ok (lb', out)

/-- A new module has no hosts and empty lists. -/
theorem repInv_new (self : ℕ) (modid cmdid : Int32) : (LB.new self modid cmdid).RepInv where
  running_nodup := List.nodup_nil
  down_nodup := List.nodup_nil
  disjoint := List.disjoint_nil_left _
  mem_lists := by simp [LB.new]
  mem_down := by simp [LB.new]
  key_eq := by simp [LB.new]
  self_inj := by simp [LB.new]
  self_lt := by simp [LB.new]

/-- Marking a module touches neither its map nor its lists. -/
theorem RepInv.clearPulling {lb : LB} (h : lb.RepInv) : lb.clearPulling.RepInv := by
  rw [LB.clearPulling]
  split
  · exact h.perm rfl rfl .rfl .rfl
  · exact h

/-- Every call keeps the representation invariant. -/
theorem RepInv.exec {cfg : LbConfigure R} {now : ℤ} {lb lb' : LB} {op : Op} {out : Out}
    (h : lb.RepInv) (hne : op = .getHost → lb.empty = false)
    (hex : lb.exec cfg now op = .ok (lb', out)) : lb'.RepInv := by
  cases op with
  | getHost =>
    obtain ⟨cnt, run, down, ret, host, heq, hrun, hdown, -⟩ := h.getHost cfg (hne rfl)
    rw [LB.exec, heq] at hex
    rw [← (Prod.mk.inj (Except.ok.inj hex)).1]
    exact h.perm rfl rfl hrun hdown
  | report ip port retcode =>
    rw [← (Prod.mk.inj (Except.ok.inj hex)).1]
    exact h.report cfg now ip port retcode
  | reportSomeSucc ip port succCnt =>
    rw [← (Prod.mk.inj (Except.ok.inj hex)).1]
    exact h.reportSomeSucc cfg now ip port succCnt
  | reportSomeErr ip port errCnt =>
    rw [← (Prod.mk.inj (Except.ok.inj hex)).1]
    exact h.reportSomeErr cfg now ip port errCnt
  | report2Rpter =>
    obtain ⟨rpt, req, heq, -⟩ := h.report2Rpter cfg now
    rw [LB.exec, heq] at hex
    rw [← (Prod.mk.inj (Except.ok.inj hex)).1]
    exact h.perm rfl rfl .rfl .rfl
  | update rsp =>
    rw [LB.exec] at hex
    -- an update without hosts runs into the assertion and is no step
    cases hup : lb.update cfg now rsp with
    | error f => rw [hup] at hex; cases hex
    | ok lb₁ =>
      rw [hup] at hex
      rw [← (Prod.mk.inj (Except.ok.inj hex)).1]
      exact RepInv.update cfg now h hup
  | pull =>
    rw [← (Prod.mk.inj (Except.ok.inj hex)).1]
    exact h.perm rfl rfl .rfl .rfl
  | clearPulling =>
    rw [← (Prod.mk.inj (Except.ok.inj hex)).1]
    exact h.clearPulling

/-! ## What a call does to the records -/

/-- The host that a call result is about. -/
def Op.target : Op → Option UInt64
  | .report ip port _ => some (packKey ip port)
  | .reportSomeSucc ip port _ => some (packKey ip port)
  | .reportSomeErr ip port _ => some (packKey ip port)
  | _ => none

/-- The record of that host afterwards. -/
def Op.apply (cfg : LbConfigure R) (now : ℤ) (hi : HI) : Op → HI
  | .report _ _ retcode => hi.report cfg now retcode
  | .reportSomeSucc _ _ succCnt => hi.reportSomeSucc cfg now succCnt
  | .reportSomeErr _ _ errCnt => hi.reportSomeErr cfg now errCnt
  | _ => hi

/-- A call result leaves the identity of the record alone. -/
theorem Op.sameHost_apply {cfg : LbConfigure R} {now : ℤ} (op : Op) (hi : HI) :
    SameHost hi (op.apply cfg now hi) := by
  cases op with
  | report ip port retcode => exact LB.sameHost_report cfg now retcode hi
  | reportSomeSucc ip port succCnt => exact LB.sameHost_reportSomeSucc cfg now succCnt hi
  | reportSomeErr ip port errCnt => exact LB.sameHost_reportSomeErr cfg now errCnt hi
  | _ => exact ⟨rfl, rfl, rfl⟩

/-- A call result writes the record of its host, an update sets the hosts of the route, and nothing
else touches a record. -/
theorem RepInv.exec_cases {cfg : LbConfigure R} {now : ℤ} {lb lb' : LB} {op : Op} {out : Out}
    (h : lb.RepInv) (hne : op = .getHost → lb.empty = false)
    (hex : lb.exec cfg now op = .ok (lb', out)) :
    (∃ key hi, op.target = some key ∧ lb.hostMap.lookup key = some hi ∧
        Writes lb key (op.apply cfg now hi) lb') ∨
      (∃ rsp, op = .update rsp ∧ rsp.hosts ≠ [] ∧ UpdateSpec cfg now lb rsp lb') ∨
      (lb'.hostMap = lb.hostMap ∧ (∀ rsp, op ≠ .update rsp) ∧
        ∀ key, op.target = some key → lb.hostMap.lookup key = none) := by
  cases op with
  | getHost =>
    obtain ⟨cnt, run, down, ret, host, heq, -⟩ := h.getHost cfg (hne rfl)
    rw [LB.exec, heq] at hex
    obtain ⟨rfl, -⟩ := Prod.mk.inj (Except.ok.inj hex)
    exact .inr (.inr ⟨rfl, by simp, by simp [Op.target]⟩)
  | report ip port retcode =>
    obtain ⟨rfl, -⟩ := Prod.mk.inj (Except.ok.inj hex)
    -- a result about a host that the map does not have is dropped
    cases hk : lb.hostMap.lookup (packKey ip port) with
    | none =>
      exact .inr (.inr ⟨by rw [report_of_none cfg now hk], by simp, by simpa [Op.target] using hk⟩)
    | some hi => exact .inl ⟨_, hi, rfl, hk, report_writes cfg now hk retcode⟩
  | reportSomeSucc ip port succCnt =>
    obtain ⟨rfl, -⟩ := Prod.mk.inj (Except.ok.inj hex)
    cases hk : lb.hostMap.lookup (packKey ip port) with
    | none =>
      exact .inr (.inr ⟨by rw [reportSomeSucc_of_none cfg now hk], by simp,
        by simpa [Op.target] using hk⟩)
    | some hi => exact .inl ⟨_, hi, rfl, hk, reportSomeSucc_writes cfg now hk succCnt⟩
  | reportSomeErr ip port errCnt =>
    obtain ⟨rfl, -⟩ := Prod.mk.inj (Except.ok.inj hex)
    cases hk : lb.hostMap.lookup (packKey ip port) with
    | none =>
      exact .inr (.inr ⟨by rw [reportSomeErr_of_none cfg now hk], by simp,
        by simpa [Op.target] using hk⟩)
    | some hi => exact .inl ⟨_, hi, rfl, hk, reportSomeErr_writes cfg now hk errCnt⟩
  | report2Rpter =>
    obtain ⟨rpt, req, heq, -⟩ := h.report2Rpter cfg now
    rw [LB.exec, heq] at hex
    obtain ⟨rfl, -⟩ := Prod.mk.inj (Except.ok.inj hex)
    exact .inr (.inr ⟨rfl, by simp, by simp [Op.target]⟩)
  | update rsp =>
    rw [LB.exec] at hex
    cases hup : lb.update cfg now rsp with
    | error f => rw [hup] at hex; cases hex
    | ok lb₁ =>
      rw [hup] at hex
      obtain ⟨rfl, -⟩ := Prod.mk.inj (Except.ok.inj hex)
      obtain ⟨hhosts, hspec⟩ := updateSpec_of_ok cfg now hup
      exact .inr (.inl ⟨rsp, rfl, hhosts, hspec⟩)
  | pull =>
    obtain ⟨rfl, -⟩ := Prod.mk.inj (Except.ok.inj hex)
    exact .inr (.inr ⟨rfl, by simp, by simp [Op.target]⟩)
  | clearPulling =>
    obtain ⟨rfl, -⟩ := Prod.mk.inj (Except.ok.inj hex)
    refine .inr (.inr ⟨?_, by simp, by simp [Op.target]⟩)
    rw [LB.clearPulling]
    split <;> rfl

/-- What holds of every record before a call, of a new record, and of the record that a call result
writes holds of every record after the call. -/
theorem RepInv.exec_forall {P : HI → Prop} {cfg : LbConfigure R} {now : ℤ} {lb lb' : LB} {op : Op}
    {out : Out} (h : lb.RepInv) (hne : op = .getHost → lb.empty = false)
    (hex : lb.exec cfg now op = .ok (lb', out)) (hfresh : ∀ p a, P (freshHI cfg now p a))
    (happly : ∀ key hi, op.target = some key → lb.hostMap.lookup key = some hi →
      P (op.apply cfg now hi))
    (hall : ∀ key hi, lb.hostMap.lookup key = some hi → P hi) :
    ∀ key hi, lb'.hostMap.lookup key = some hi → P hi := by
  intro key hi hk
  rcases h.exec_cases hne hex with ⟨key', hi₀, htgt, hk₀, hw⟩ | ⟨rsp, -, -, hspec⟩ | ⟨hmap, -⟩
  · -- the record of the host that the result is about, or of another one
    rw [hw.lookup] at hk
    split at hk
    · exact Option.some.inj hk ▸ happly key' hi₀ htgt hk₀
    · exact hall key hi hk
  · rcases hspec.lookup_cases hk with hk₀ | ⟨p, a, -, rfl⟩
    · exact hall key hi hk₀
    · exact hfresh p a
  · exact hall key hi (hmap ▸ hk)

/-- What a call leaves as it is: which object and which module this is, the version unless it is an
update, and the status unless it is about pulls. -/
structure Frame (op : Op) (lb lb' : LB) : Prop where
  self_eq : lb'.self = lb.self
  modid_eq : lb'.modid = lb.modid
  cmdid_eq : lb'.cmdid = lb.cmdid
  version_eq : (∀ rsp, op ≠ .update rsp) → lb'.version = lb.version
  status_eq : (∀ rsp, op ≠ .update rsp) → op ≠ .pull → op ≠ .clearPulling →
    lb'.status = lb.status

/-- A change of map and lists alone is within any frame. -/
theorem SameMeta.frame {lb lb' : LB} (h : SameMeta lb lb') (op : Op) : Frame op lb lb' :=
  ⟨h.self_eq, h.modid_eq, h.cmdid_eq, fun _ => h.version_eq, fun _ _ _ => h.status_eq⟩

/-- Every call stays within its frame. -/
theorem RepInv.exec_frame {cfg : LbConfigure R} {now : ℤ} {lb lb' : LB} {op : Op} {out : Out}
    (h : lb.RepInv) (hne : op = .getHost → lb.empty = false)
    (hex : lb.exec cfg now op = .ok (lb', out)) : Frame op lb lb' := by
  -- a call that writes no record changes its fields in the open
  rcases h.exec_cases hne hex with ⟨key, hi, -, hk, hw⟩ | ⟨rsp, rfl, -, hspec⟩ | ⟨-, hup, hnone⟩
  · exact hw.sameMeta.frame op
  · exact ⟨hspec.self_eq, hspec.modid_eq, hspec.cmdid_eq, fun hop => absurd rfl (hop rsp),
      fun hop => absurd rfl (hop rsp)⟩
  · cases op with
    | getHost =>
      obtain ⟨cnt, run, down, ret, host, heq, -⟩ := h.getHost cfg (hne rfl)
      rw [LB.exec, heq] at hex
      obtain ⟨rfl, -⟩ := Prod.mk.inj (Except.ok.inj hex)
      exact ⟨rfl, rfl, rfl, fun _ => rfl, fun _ _ _ => rfl⟩
    | report ip port retcode =>
      rw [LB.exec, report_of_none cfg now (hnone _ rfl)] at hex
      obtain ⟨rfl, -⟩ := Prod.mk.inj (Except.ok.inj hex)
      exact (SameMeta.refl lb).frame _
    | reportSomeSucc ip port succCnt =>
      rw [LB.exec, reportSomeSucc_of_none cfg now (hnone _ rfl)] at hex
      obtain ⟨rfl, -⟩ := Prod.mk.inj (Except.ok.inj hex)
      exact (SameMeta.refl lb).frame _
    | reportSomeErr ip port errCnt =>
      rw [LB.exec, reportSomeErr_of_none cfg now (hnone _ rfl)] at hex
      obtain ⟨rfl, -⟩ := Prod.mk.inj (Except.ok.inj hex)
      exact (SameMeta.refl lb).frame _
    | report2Rpter =>
      obtain ⟨rpt, req, heq, -⟩ := h.report2Rpter cfg now
      rw [LB.exec, heq] at hex
      obtain ⟨rfl, -⟩ := Prod.mk.inj (Except.ok.inj hex)
      exact ⟨rfl, rfl, rfl, fun _ => rfl, fun _ _ _ => rfl⟩
    | update rsp => exact absurd rfl (hup rsp)
    | pull =>
      obtain ⟨rfl, -⟩ := Prod.mk.inj (Except.ok.inj hex)
      exact ⟨rfl, rfl, rfl, fun _ => rfl, fun _ hop => absurd rfl hop⟩
    | clearPulling =>
      obtain ⟨rfl, -⟩ := Prod.mk.inj (Except.ok.inj hex)
      rw [LB.clearPulling]
      split <;> exact ⟨rfl, rfl, rfl, fun _ => rfl, fun _ _ hop => absurd rfl hop⟩

/-- Only `LB::report2Rpter` sends a report, when one is due. -/
theorem RepInv.exec_rept {cfg : LbConfigure R} {now : ℤ} {lb lb' : LB} {op : Op} {out : Out}
    (h : lb.RepInv) (hex : lb.exec cfg now op = .ok (lb', out)) :
    (op = .report2Rpter ∧ lb.Due cfg now ∧ ∃ req, out.rept = some req ∧ lb.Names req) ∨
      (¬(op = .report2Rpter ∧ lb.Due cfg now) ∧ out.rept = none) := by
  cases op with
  | getHost =>
    rw [LB.exec] at hex
    cases hg : lb.getHost cfg with
    | error f => rw [hg] at hex; cases hex
    | ok res =>
      rw [hg] at hex
      obtain ⟨-, rfl⟩ := Prod.mk.inj (Except.ok.inj hex)
      exact .inr ⟨by simp, rfl⟩
  | report2Rpter =>
    obtain ⟨rpt, req, heq, hnames, hdue⟩ := h.report2Rpter cfg now
    rw [LB.exec, heq] at hex
    obtain ⟨-, rfl⟩ := Prod.mk.inj (Except.ok.inj hex)
    -- a report comes out exactly when one is due
    cases req with
    | none => exact .inr ⟨fun hd => by simpa using hdue.mpr hd.2, rfl⟩
    | some r => exact .inl ⟨rfl, hdue.mp rfl, r, rfl, hnames r rfl⟩
  | update rsp =>
    rw [LB.exec] at hex
    cases hup : lb.update cfg now rsp with
    | error f => rw [hup] at hex; cases hex
    | ok lb₁ =>
      rw [hup] at hex
      obtain ⟨-, rfl⟩ := Prod.mk.inj (Except.ok.inj hex)
      exact .inr ⟨by simp, rfl⟩
  | _ =>
    obtain ⟨-, rfl⟩ := Prod.mk.inj (Except.ok.inj hex)
    exact .inr ⟨by simp, rfl⟩

/-- The representation invariant holds in every state of every run. -/
theorem repInv_of_reachable {cfg : LbConfigure R} {lb : LB} (h : (system cfg).Reachable lb) :
    lb.RepInv := by
  refine h.invariant ?_ ?_
  · rintro _ ⟨self, modid, cmdid, rfl⟩
    exact repInv_new self modid cmdid
  · rintro lb ⟨now, op⟩ lb' - ih ⟨hne, out, hex⟩
    exact ih.exec hne hex

/-! ## Runs that are computed -/

/-- The state after a call; a call that faults leaves none. -/
def next (cfg : LbConfigure R) (lb : LB) (e : ℤ × Op) : LB :=
  match lb.exec cfg e.1 e.2 with
  | .ok (lb', _) => lb'
  | .error _ => lb

/-- The module can be called, and the call does not fault. -/
def Allowed (cfg : LbConfigure R) (lb : LB) (e : ℤ × Op) : Prop :=
  (e.2 = .getHost → lb.empty = false) ∧ (lb.exec cfg e.1 e.2).toOption.isSome

instance (cfg : LbConfigure R) (lb : LB) (e : ℤ × Op) : Decidable (lb.Allowed cfg e) :=
  inferInstanceAs (Decidable ((_ → _) ∧ _))

/-- A call that is allowed leads to the state that is computed. -/
theorem step_next (cfg : LbConfigure R) (lb : LB) (e : ℤ × Op) (h : lb.Allowed cfg e) :
    (system cfg).step lb e (lb.next cfg e) := by
  obtain ⟨hne, hok⟩ := h
  refine ⟨hne, ?_⟩
  rw [next]
  cases hex : lb.exec cfg e.1 e.2 with
  | error f => rw [hex] at hok; cases hok
  | ok r => exact ⟨r.2, rfl⟩

end Elb.LB
