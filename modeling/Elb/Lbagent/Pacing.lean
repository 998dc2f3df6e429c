import Elb.Lbagent.Isolation
import Elb.Lbagent.RouteLbInvariant

/-!
# How often a module sends

Reference: `lbagent/src/RouteLb.cc`, `LB::report2Rpter`, `LB::pull`, `LB::update` and the calls of
`RouteLB` that make them.

Four fields of an `LB` decide when its module asks dnsserver for the route again and when it reports
to the reporter. `TimerStep` is what a call may do to these fields of one module and what it may
send for it; `Inv.steps` shows that no call does anything else. The module may be deleted and
created again in between, which starts the fields anew.
-/

namespace Elb

open Transition

variable {R : Type} [RateArith R] {cfg : LbConfigure R} {now : ℤ}

/-! ## The timers of a module -/

/-- The fields of an `LB` that decide what its module sends when. -/
structure Timers where
  status : LB.Status
  effectData : ℤ
  lstRptTime : ℤ
  empty : Bool

/-- The timers of a module. -/
def LB.timers (lb : LB) : Timers := ⟨lb.status, lb.effectData, lb.lstRptTime, lb.empty⟩

/-- What a call may do to the timers of a module and what it may send for it, at time `now`. -/
inductive TimerStep (cfg : LbConfigure R) (now : ℤ) (modid cmdid : Int32) : RouteLB.Op →
    Option Timers → Option Timers → List GetRouteReq → List ReportStatusReq → Prop
  | same {op : RouteLB.Op} (x : Option Timers) : TimerStep cfg now modid cmdid op x x [] []
  | create {op : RouteLB.Op} : TimerStep cfg now modid cmdid op none (some ⟨.isPulling, 0, 0, true⟩)
      [⟨modid, cmdid⟩] []
  | repull {op : RouteLB.Op} {x : Timers} (hstatus : x.status = .isNew)
      (hold : now - x.effectData > cfg.updateTimo) :
      TimerStep cfg now modid cmdid op (some x) (some { x with status := .isPulling })
        [⟨modid, cmdid⟩] []
  | rept {op : RouteLB.Op} {x : Timers} {req : ReportStatusReq} (hm : req.modid = modid)
      (hc : req.cmdid = cmdid) (hne : x.empty = false)
      (hdue : cfg.reportTimo ≤ now - x.lstRptTime) :
      TimerStep cfg now modid cmdid op (some x) (some { x with lstRptTime := now }) [] [req]
  | update {rsp : GetRouteRsp} {x : Timers} (hm : rsp.modid = modid) (hc : rsp.cmdid = cmdid) :
      TimerStep cfg now modid cmdid (.update rsp) (some x)
        (some ⟨.isNew, now, if x.empty then now else x.lstRptTime, false⟩) [] []
  | delete {rsp : GetRouteRsp} (x : Option Timers) (hm : rsp.modid = modid)
      (hc : rsp.cmdid = cmdid) (hnil : rsp.hosts = []) :
      TimerStep cfg now modid cmdid (.update rsp) x none [] []
  | clearPulling (x : Option Timers) : TimerStep cfg now modid cmdid .clearPulling x
      (x.map fun x => { x with status := .isNew }) [] []

omit [RateArith R] in
/-- What is sent is about the module. -/
theorem TimerStep.about {modid cmdid : Int32} {op : RouteLB.Op} {x x' : Option Timers}
    {pulls : List GetRouteReq} {repts : List ReportStatusReq}
    (h : TimerStep cfg now modid cmdid op x x' pulls repts) :
    (∀ req ∈ pulls, req = ⟨modid, cmdid⟩) ∧
      ∀ req ∈ repts, req.modid = modid ∧ req.cmdid = cmdid := by
  cases h with
  | rept hm hc =>
    refine ⟨by simp, fun req hmem => ?_⟩
    rw [List.mem_singleton.mp hmem]
    exact ⟨hm, hc⟩
  | _ => simp

namespace LB

/-- The same module with the same timers. -/
structure SameTimers (lb lb' : LB) : Prop where
  timers : lb'.timers = lb.timers
  modid : lb'.modid = lb.modid
  cmdid : lb'.cmdid = lb.cmdid

/-- Nothing was done. -/
theorem SameTimers.refl (lb : LB) : SameTimers lb lb := ⟨rfl, rfl, rfl⟩

/-- Writing a record that is there leaves the timers alone. -/
theorem Writes.sameTimers {lb lb' : LB} {key : UInt64} {hi hi₀ : HI} (h : Writes lb key hi lb')
    (hk : lb.hostMap.lookup key = some hi₀) : SameTimers lb lb' := by
  have hmeta := h.sameMeta
  refine ⟨?_, hmeta.modid_eq, hmeta.cmdid_eq⟩
  rw [LB.timers, LB.timers, hmeta.status_eq, hmeta.effectData_eq, hmeta.lstRptTime_eq,
    empty_congr (h.mem_iff hk)]

/-- A call result leaves the timers alone, whether its host is in the route or not. -/
theorem sameTimers_report (cfg : LbConfigure R) (now : ℤ) (lb : LB) (ip port retcode : Int32) :
    SameTimers lb (lb.report cfg now ip port retcode) := by
  cases hk : lb.hostMap.lookup (packKey ip port) with
  | none =>
    rw [report_of_none cfg now hk]
    exact .refl lb
  | some hi => exact (report_writes cfg now hk retcode).sameTimers hk

/-- So does a batch of failures. -/
theorem sameTimers_reportSomeErr (cfg : LbConfigure R) (now : ℤ) (lb : LB) (ip port : Int32)
    (n : UInt32) : SameTimers lb (lb.reportSomeErr cfg now ip port n) := by
  cases hk : lb.hostMap.lookup (packKey ip port) with
  | none =>
    rw [reportSomeErr_of_none cfg now hk]
    exact .refl lb
  | some hi => exact (reportSomeErr_writes cfg now hk n).sameTimers hk

/-- So does a batch of successes. -/
theorem sameTimers_reportSomeSucc (cfg : LbConfigure R) (now : ℤ) (lb : LB) (ip port : Int32)
    (n : UInt32) : SameTimers lb (lb.reportSomeSucc cfg now ip port n) := by
  cases hk : lb.hostMap.lookup (packKey ip port) with
  | none =>
    rw [reportSomeSucc_of_none cfg now hk]
    exact .refl lb
  | some hi => exact (reportSomeSucc_writes cfg now hk n).sameTimers hk

/-- So do all entries of a batch. -/
theorem sameTimers_batch (cfg : LbConfigure R) (now : ℤ) (lb : LB)
    (results : List HostBatchCallRes) : SameTimers lb
      (results.foldl (fun lb cr => lb.reportSomeSucc cfg now cr.ip cr.port cr.succCnt) lb) := by
  induction results generalizing lb with
  | nil => exact .refl lb
  | cons cr results ih =>
    have hone := sameTimers_reportSomeSucc cfg now lb cr.ip cr.port cr.succCnt
    have hrest := ih (lb.reportSomeSucc cfg now cr.ip cr.port cr.succCnt)
    exact ⟨hrest.timers.trans hone.timers, hrest.modid.trans hone.modid,
      hrest.cmdid.trans hone.cmdid⟩

omit [RateArith R] in
/-- `report2Rpter` sends nothing, or reports and takes the time. -/
theorem report2Rpter_cases {lb lb' : LB} {rept : Option ReportStatusReq}
    (h : lb.report2Rpter cfg now = .ok (lb', rept)) :
    rept = none ∧ lb' = lb ∨ ∃ req, rept = some req ∧ req.modid = lb.modid ∧
      req.cmdid = lb.cmdid ∧ lb.empty = false ∧ cfg.reportTimo ≤ now - lb.lstRptTime ∧
        lb' = { lb with lstRptTime := now } := by
  rw [report2Rpter] at h
  split at h
  · cases h
    exact .inl ⟨rfl, rfl⟩
  · next hne =>
    split at h
    · cases h
      exact .inl ⟨rfl, rfl⟩
    · next hdue =>
      obtain ⟨running, -, h⟩ := Except.bind_eq_ok_iff.mp h
      obtain ⟨down, -, h⟩ := Except.bind_eq_ok_iff.mp h
      cases h
      exact .inr ⟨_, rfl, rfl, rfl, by simpa using hne, not_lt.mp hdue, rfl⟩

end LB

namespace RouteLB

variable {s s' : RouteLB} {modid cmdid : Int32}

/-- The timers of a module of the table. -/
def timers (s : RouteLB) (modid cmdid : Int32) : Option Timers :=
  (s.routeMap.lookup (packKey modid cmdid)).map LB.timers

/-- The timers of a module of the table. -/
theorem timers_of_lookup {lb : LB} (hk : s.routeMap.lookup (packKey modid cmdid) = some lb) :
    s.timers modid cmdid = some lb.timers := by
  rw [timers, hk]
  rfl

/-- A module that is not in the table has no timers. -/
theorem timers_of_none (hk : s.routeMap.lookup (packKey modid cmdid) = none) :
    s.timers modid cmdid = none := by
  rw [timers, hk]
  rfl

/-- A module that is put back has the timers of its object. -/
theorem timers_put (lb : LB) :
    (s.put (packKey modid cmdid) lb).timers modid cmdid = some lb.timers := by
  rw [timers, put_lookup, if_pos rfl]
  rfl

/-- A module that is created is being pulled. -/
theorem timers_create : (s.create modid cmdid).1.timers modid cmdid =
    some ⟨.isPulling, 0, 0, true⟩ := by
  rw [timers, create_lookup, if_pos rfl]
  rfl

omit [RateArith R] in
/-- Pulling again, if it is time. -/
theorem timerStep_repull (cfg : LbConfigure R) (now : ℤ) (lb : LB) (hm : lb.modid = modid)
    (hc : lb.cmdid = cmdid) (op : Op) :
    TimerStep cfg now modid cmdid op (some lb.timers) (some (repull cfg now lb).1.timers)
      (repull cfg now lb).2 [] := by
  rw [repull]
  split
  · next hold =>
    rw [← hm, ← hc]
    exact .repull hold.1 hold.2
  · exact .same _

omit [RateArith R] in
/-- The report that closes `report` and `batchReport`. -/
theorem timerStep_rept {lb lb' : LB} {rept : Option ReportStatusReq} (hm : lb.modid = modid)
    (hc : lb.cmdid = cmdid) (h : lb.report2Rpter cfg now = .ok (lb', rept)) (op : Op) :
    TimerStep cfg now modid cmdid op (some lb.timers) (some lb'.timers) [] rept.toList := by
  rcases LB.report2Rpter_cases h with ⟨rfl, rfl⟩ | ⟨req, rfl, hmr, hcr, hne, hdue, rfl⟩
  · exact .same _
  · exact .rept (hmr.trans hm) (hcr.trans hc) hne hdue

/-- A module is filed under its own ids. -/
theorem Inv.lookup_ids (h : s.Inv cfg) {lb : LB}
    (hk : s.routeMap.lookup (packKey modid cmdid) = some lb) :
    lb.modid = modid ∧ lb.cmdid = cmdid :=
  packKey_inj (h.key_eq _ lb hk)

omit [RateArith R] in
/-- A response with hosts makes the route of a module that is there new. -/
theorem timers_update {lb : LB} {rsp : GetRouteRsp}
    (hk : s.routeMap.lookup (packKey rsp.modid rsp.cmdid) = some lb) (hhosts : rsp.hosts ≠ [])
    (h : s.update cfg now rsp = .ok s') : s'.timers rsp.modid rsp.cmdid =
      some ⟨.isNew, now, if lb.empty then now else lb.lstRptTime, false⟩ := by
  unfold RouteLB.update at h
  simp only [hk, List.isEmpty_iff, if_neg hhosts] at h
  obtain ⟨lb₁, hup, heq⟩ := Except.bind_eq_ok_iff.mp h
  cases heq
  obtain ⟨hne, hspec⟩ := LB.updateSpec_of_ok _ _ hup
  rw [timers_put, LB.timers, hspec.status_eq, hspec.effectData_eq, hspec.lstRptTime_eq,
    hspec.empty_eq hne]

/-- A call about a module does one of these steps to its timers. -/
theorem Inv.timerStep_ids (h : s.Inv cfg) {op : Op} (hids : op.ids = some (modid, cmdid))
    {out : Out} (hex : s.exec cfg now op = .ok (s', out)) :
    TimerStep cfg now modid cmdid op (s.timers modid cmdid) (s'.timers modid cmdid) out.pulls
      out.repts := by
  cases op with
  | getHost req =>
    obtain ⟨rfl, rfl⟩ := Prod.mk.inj (Option.some.inj hids)
    obtain ⟨⟨s₁, rsp, pulls⟩, hcall, heq⟩ := Except.bind_eq_ok_iff.mp hex
    cases heq
    unfold RouteLB.getHost at hcall
    dsimp only at hcall
    split at hcall
    · next lb hk =>
      obtain ⟨hm, hc⟩ := h.lookup_ids hk
      split at hcall
      · split at hcall <;> cases hcall
        exact .same _
      · next hemp =>
        obtain ⟨cnt, run, down, ret, host, heq, -⟩ :=
          (LB.repInv_of_reachable (h.lb_reachable _ lb hk)).getHost cfg (by simpa using hemp)
        rw [heq] at hcall
        cases hcall
        rw [timers_of_lookup hk, timers_put]
        exact timerStep_repull cfg now
          { lb with accessCnt := cnt, runningList := run, downList := down } hm hc _
    · next hk =>
      cases hcall
      rw [timers_of_none hk, timers_create]
      exact .create
  | report req =>
    obtain ⟨rfl, rfl⟩ := Prod.mk.inj (Option.some.inj hids)
    obtain ⟨⟨s₁, repts⟩, hcall, heq⟩ := Except.bind_eq_ok_iff.mp hex
    cases heq
    unfold RouteLB.report at hcall
    obtain ⟨n, -, hcall⟩ := Except.bind_eq_ok_iff.mp hcall
    dsimp only at hcall
    split at hcall
    · cases hcall
      exact .same _
    · next lb hk =>
      obtain ⟨hm, hc⟩ := h.lookup_ids hk
      -- counting the result leaves the timers alone
      have hsame : LB.SameTimers lb (if n = 1 then
          lb.report cfg now req.host.ip req.host.port req.retcode
        else lb.reportSomeErr cfg now req.host.ip req.host.port n) := by
        split
        · exact LB.sameTimers_report cfg now lb _ _ _
        · exact LB.sameTimers_reportSomeErr cfg now lb _ _ _
      obtain ⟨⟨lb₂, rept⟩, hrept, heq⟩ := Except.bind_eq_ok_iff.mp hcall
      cases heq
      rw [timers_of_lookup hk, timers_put, ← hsame.timers]
      exact timerStep_rept (hsame.modid.trans hm) (hsame.cmdid.trans hc) hrept _
  | batchReport req =>
    obtain ⟨rfl, rfl⟩ := Prod.mk.inj (Option.some.inj hids)
    obtain ⟨⟨s₁, repts⟩, hcall, heq⟩ := Except.bind_eq_ok_iff.mp hex
    cases heq
    unfold RouteLB.batchReport at hcall
    dsimp only at hcall
    split at hcall
    · cases hcall
      exact .same _
    · next lb hk =>
      obtain ⟨hm, hc⟩ := h.lookup_ids hk
      have hsame := LB.sameTimers_batch cfg now lb req.results
      obtain ⟨⟨lb₂, rept⟩, hrept, heq⟩ := Except.bind_eq_ok_iff.mp hcall
      cases heq
      rw [timers_of_lookup hk, timers_put, ← hsame.timers]
      exact timerStep_rept (hsame.modid.trans hm) (hsame.cmdid.trans hc) hrept _
  | getRoute req =>
    obtain ⟨rfl, rfl⟩ := Prod.mk.inj (Option.some.inj hids)
    obtain ⟨rfl, rfl⟩ := Prod.mk.inj (Except.ok.inj hex)
    dsimp only
    split
    · next lb hk =>
      obtain ⟨hm, hc⟩ := h.lookup_ids hk
      rw [timers_of_lookup hk, timers_put]
      exact timerStep_repull cfg now lb hm hc _
    · next hk =>
      rw [timers_of_none hk, timers_create]
      exact .create
  | cacheGetRoute req =>
    obtain ⟨rfl, rfl⟩ := Prod.mk.inj (Option.some.inj hids)
    obtain ⟨⟨s₁, rsp, pulls⟩, hcall, heq⟩ := Except.bind_eq_ok_iff.mp hex
    cases heq
    unfold RouteLB.cacheGetRoute at hcall
    dsimp only at hcall
    split at hcall
    · next lb hk =>
      obtain ⟨hm, hc⟩ := h.lookup_ids hk
      split at hcall
      · split at hcall <;> cases hcall
        exact .same _
      · cases hcall
        rw [timers_of_lookup hk, timers_put]
        exact timerStep_repull cfg now lb hm hc _
    · next hk =>
      cases hcall
      rw [timers_of_none hk, timers_create]
      exact .create
  | update rsp =>
    obtain ⟨rfl, rfl⟩ := Prod.mk.inj (Option.some.inj hids)
    obtain ⟨s₁, hcall, heq⟩ := Except.bind_eq_ok_iff.mp hex
    cases heq
    have hup := hcall
    unfold RouteLB.update at hcall
    dsimp only at hcall
    split at hcall
    · cases hcall
      exact .same _
    · next lb hk =>
      split at hcall
      · next hnil =>
        cases hcall
        have hnone : RouteLB.timers { s with
            routeMap := s.routeMap.erase (packKey rsp.modid rsp.cmdid) } rsp.modid rsp.cmdid =
              none := timers_of_none (AList.lookup_erase _ _)
        rw [hnone]
        exact .delete _ rfl rfl (by simpa using hnil)
      · next hne =>
        rw [timers_of_lookup hk, timers_update hk (by simpa using hne) hup]
        exact .update rfl rfl
  | clearPulling => cases hids

/-- The call asks dnsserver for the route of the module. -/
def Call.pulls (modid cmdid : Int32) (e : Call) : Prop := ⟨modid, cmdid⟩ ∈ e.out.pulls

/-- The call reports the module to the reporter. -/
def Call.reports (modid cmdid : Int32) (e : Call) : Prop :=
  ∃ req ∈ e.out.repts, req.modid = modid ∧ req.cmdid = cmdid

/-- The call takes in a response about the module. -/
def Call.updates (modid cmdid : Int32) (e : Call) : Prop :=
  ∃ rsp, e.op = .update rsp ∧ rsp.modid = modid ∧ rsp.cmdid = cmdid

/-- What a call does to the timers of a module is one of the steps, and what it sends for the module
is what the step sends. -/
def Call.Steps (cfg : LbConfigure R) (modid cmdid : Int32) (e : Call) (x x' : Option Timers) :
    Prop :=
  ∃ pulls repts, TimerStep cfg e.now modid cmdid e.op x x' pulls repts ∧
    (e.pulls modid cmdid → ⟨modid, cmdid⟩ ∈ pulls) ∧
      ∀ req ∈ e.out.repts, req.modid = modid → req.cmdid = cmdid → req ∈ repts

/-- Any call does so to any module. -/
theorem Inv.steps (h : s.Inv cfg) {e : Call} (hex : (recorded cfg).step s e s')
    (modid cmdid : Int32) :
    e.Steps cfg modid cmdid (s.timers modid cmdid) (s'.timers modid cmdid) := by
  obtain ⟨now, op, out⟩ := e
  have hex : s.exec cfg now op = .ok (s', out) := hex
  cases hids : op.ids with
  | none =>
    cases op with
    | clearPulling =>
      obtain ⟨rfl, rfl⟩ := Prod.mk.inj (Except.ok.inj hex)
      have htimers : s.clearPulling.timers modid cmdid =
          (s.timers modid cmdid).map fun x => { x with status := .isNew } := by
        rw [timers, timers, RouteLB.clearPulling, HashMap.lookup_mapVal]
        cases s.routeMap.lookup (packKey modid cmdid) with
        | none => rfl
        | some lb =>
          refine congrArg some ?_
          rw [LB.clearPulling]
          split
          · rfl
          · next hne =>
            have hnew : lb.status = .isNew := by
              cases hst : lb.status with
              | isPulling => exact absurd hst hne
              | isNew => rfl
            rw [LB.timers, hnew]
      rw [htimers]
      exact ⟨[], [], .clearPulling _, by simp [Call.pulls], by simp⟩
    | _ => cases hids
  | some ids =>
    obtain ⟨m, c⟩ := ids
    have hstep := h.timerStep_ids hids hex
    by_cases hmod : m = modid ∧ c = cmdid
    · obtain ⟨rfl, rfl⟩ := hmod
      exact ⟨_, _, hstep, fun hmem => hmem, fun _ hmem _ _ => hmem⟩
    · -- the call is about another module
      have hne : packKey modid cmdid ≠ packKey m c := fun heq => by
        obtain ⟨rfl, rfl⟩ := packKey_inj heq
        exact hmod ⟨rfl, rfl⟩
      have htimers : s'.timers modid cmdid = s.timers modid cmdid := by
        rw [timers, exec_lookup_of_ne hids hne hex, timers]
      obtain ⟨hpulls, hrepts⟩ := hstep.about
      refine ⟨[], [], htimers ▸ .same _, fun hmem => ?_, fun req hmem hm hc => ?_⟩
      · obtain ⟨rfl, rfl⟩ := GetRouteReq.mk.inj (hpulls _ hmem)
        exact absurd ⟨rfl, rfl⟩ hmod
      · obtain ⟨hm', hc'⟩ := hrepts req hmem
        exact absurd ⟨hm'.symm.trans hm, hc'.symm.trans hc⟩ hmod

omit [RateArith R] in
/-- A call that reports a module had its report due. -/
theorem Call.Steps.of_reports {e : Call} {x x' : Option Timers} (h : e.Steps cfg modid cmdid x x')
    (hr : e.reports modid cmdid) : ∃ t, x = some t ∧ x' = some { t with lstRptTime := e.now } ∧
      t.empty = false ∧ cfg.reportTimo ≤ e.now - t.lstRptTime := by
  obtain ⟨now, op, out⟩ := e
  obtain ⟨pulls, repts, hstep, -, hrepts⟩ := h
  obtain ⟨req, hmem, hm, hc⟩ := hr
  have hmem := hrepts req hmem hm hc
  dsimp only at hstep
  cases hstep with
  | rept _ _ hne hdue => exact ⟨_, rfl, rfl, hne, hdue⟩
  | _ => cases hmem

omit [RateArith R] in
/-- A call that pulls a module found it without a pull under way, and out of date if it was there.
-/
theorem Call.Steps.of_pulls {e : Call} {x x' : Option Timers} (h : e.Steps cfg modid cmdid x x')
    (hp : e.pulls modid cmdid) :
    (∀ t ∈ x, t.status = .isNew ∧ cfg.updateTimo < e.now - t.effectData) ∧
      ∃ t', x' = some t' ∧ t'.status = .isPulling := by
  obtain ⟨now, op, out⟩ := e
  obtain ⟨pulls, repts, hstep, hpulls, -⟩ := h
  have hmem := hpulls hp
  dsimp only at hstep
  cases hstep with
  | create => exact ⟨by simp, _, rfl, rfl⟩
  | repull hstatus hold =>
    refine ⟨?_, _, rfl, rfl⟩
    rintro t ⟨⟩
    exact ⟨hstatus, hold⟩
  | _ => cases hmem

/-! ## Whole runs -/

/-- The invariant holds in runs that record what the calls return, too. -/
theorem inv_of_recorded {s : RouteLB} (h : (recorded cfg).Reachable s) : s.Inv cfg := by
  refine h.invariant ?_ ?_
  · rintro _ ⟨id, rfl⟩
    exact inv_new id
  · intro s e s' _ ih hex
    exact ih.effect (ih.result hex).effect

/-- A call of a run does one of the steps to any module. -/
theorem steps_of_run {id : ℕ} {before after : List (Call × RouteLB)} {e : Call} {s' : RouteLB}
    (h : (recorded cfg).Run (new id) (before ++ (e, s') :: after)) (modid cmdid : Int32) :
    e.Steps cfg modid cmdid ((System.last (new id) before).timers modid cmdid)
      (s'.timers modid cmdid) := by
  obtain ⟨hbefore, hstep, -⟩ := h.split
  exact (inv_of_recorded (hbefore.reachable_last (.init ⟨id, rfl⟩))).steps hstep modid cmdid

/-- A response about a module that leaves it in the table makes its route new. -/
theorem effectData_of_updates {e : Call} (hex : s.exec cfg e.now e.op = .ok (s', e.out))
    (hu : e.updates modid cmdid) (hin : packKey modid cmdid ∈ s'.routeMap) :
    ∃ t, s'.timers modid cmdid = some t ∧ t.effectData = e.now := by
  obtain ⟨now, op, out⟩ := e
  obtain ⟨rsp, hop, rfl, rfl⟩ := hu
  dsimp only at hop hex ⊢
  subst hop
  obtain ⟨s₁, hup, heq⟩ := Except.bind_eq_ok_iff.mp hex
  cases heq
  cases hk : s.routeMap.lookup (packKey rsp.modid rsp.cmdid) with
  | none =>
    have hout : packKey rsp.modid rsp.cmdid ∉ s'.routeMap := by
      simp only [RouteLB.update, hk] at hup
      cases hup
      exact AList.lookup_eq_none.mp hk
    exact absurd hin hout
  | some lb =>
    by_cases hhosts : rsp.hosts = []
    · have hout : packKey rsp.modid rsp.cmdid ∉ s'.routeMap := by
        simp only [RouteLB.update, hk, hhosts, List.isEmpty_nil, if_true] at hup
        cases hup
        simp
      exact absurd hin hout
    · exact ⟨_, timers_update hk hhosts hup, rfl⟩

/-- What holds of the timers after one call and is kept by the calls in the middle holds before the
other call. -/
theorem timers_between {id : ℕ} {before mid after : List (Call × RouteLB)} {e₁ e₂ : Call}
    {s₁ s₂ : RouteLB} {P : Option Timers → Prop} {C : Call → Prop}
    (h : (recorded cfg).Run (new id) (before ++ (e₁, s₁) :: (mid ++ (e₂, s₂) :: after)))
    (hstart : P (s₁.timers modid cmdid))
    (hkeep : ∀ e x x', C e → P x → Call.Steps cfg modid cmdid e x x' → P x')
    (hmid : ∀ x ∈ mid, C x.1) : ∃ x x', P x ∧ e₂.Steps cfg modid cmdid x x' := by
  obtain ⟨hbefore, hstep₁, hrest⟩ := h.split
  obtain ⟨hrun, hstep₂, -⟩ := hrest.split
  have hinv₁ : s₁.Inv cfg ∧ P (s₁.timers modid cmdid) :=
    ⟨inv_of_recorded ((hbefore.reachable_last (.init ⟨id, rfl⟩)).step hstep₁), hstart⟩
  have hlast : (System.last s₁ mid).Inv cfg ∧ P ((System.last s₁ mid).timers modid cmdid) := by
    refine hrun.last_of_along (P := fun s => s.Inv cfg ∧ P (s.timers modid cmdid)) ?_
      (System.along_of_forall s₁ hmid) hinv₁
    intro s e s' hs hC hstep
    exact ⟨hs.1.effect (hs.1.result hstep).effect, hkeep e _ _ hC hs.2 (hs.1.steps hstep _ _)⟩
  exact ⟨_, _, hlast.2, hlast.1.steps hstep₂ modid cmdid⟩

/-- Two reports of one module are at least `reportTimo` seconds apart, if the clock does not go back
behind the first, even if the module is deleted and created again in between. -/
theorem reports_apart {id : ℕ} (before mid after : List (Call × RouteLB)) {e₁ e₂ : Call}
    {s₁ s₂ : RouteLB}
    (h : (recorded cfg).Run (new id) (before ++ (e₁, s₁) :: (mid ++ (e₂, s₂) :: after)))
    (hclock : ∀ x ∈ mid, e₁.now ≤ x.1.now) (h₁ : e₁.reports modid cmdid)
    (h₂ : e₂.reports modid cmdid) : e₁.now + cfg.reportTimo ≤ e₂.now := by
  have hstart : ∀ t ∈ s₁.timers modid cmdid, t.empty = false → e₁.now ≤ t.lstRptTime := by
    intro t ht _
    obtain ⟨t₀, -, heq, -⟩ := (steps_of_run h modid cmdid).of_reports h₁
    rw [heq] at ht
    cases ht
    exact le_refl _
  have hkeep : ∀ e x x', e₁.now ≤ e.now → (∀ t ∈ x, t.empty = false → e₁.now ≤ t.lstRptTime) →
      Call.Steps cfg modid cmdid e x x' → ∀ t ∈ x', t.empty = false → e₁.now ≤ t.lstRptTime := by
    rintro ⟨now, op, out⟩ x x' hclock hx ⟨pulls, repts, hstep, -⟩ t ht hne
    dsimp only at hstep hclock
    cases hstep with
    | same => exact hx t ht hne
    | create =>
      cases ht
      cases hne
    | @repull _ t₀ =>
      cases ht
      exact hx t₀ rfl hne
    | rept =>
      cases ht
      exact hclock
    | @update rsp t₀ =>
      -- the first hosts of a module start its time anew
      cases ht
      dsimp only
      split
      · exact hclock
      · next hemp => exact hx t₀ rfl (by simpa using hemp)
    | delete => cases ht
    | clearPulling =>
      obtain ⟨t₀, ht₀, rfl⟩ := Option.map_eq_some_iff.mp ht
      exact hx t₀ ht₀ hne
  obtain ⟨x, x', hP, hsteps⟩ := timers_between h hstart hkeep hclock
  obtain ⟨t, rfl, -, hne, hdue⟩ := hsteps.of_reports h₂
  have hlast := hP t rfl hne
  omega

/-- The shard after the call. -/
def afterCall (cfg : LbConfigure R) (s : RouteLB) (e : Call) : RouteLB :=
  (s.exec cfg e.now e.op).toOption.elim s Prod.fst

/-- A call that returns what is recorded is a step. -/
theorem step_afterCall (s : RouteLB) (e : Call)
    (h : (s.exec cfg e.now e.op).toOption.map Prod.snd = some e.out) :
    (recorded cfg).step s e (s.afterCall cfg e) := by
  unfold afterCall
  cases hex : s.exec cfg e.now e.op with
  | error f =>
    rw [hex] at h
    cases h
  | ok r =>
    rw [hex] at h
    have hex : s.exec cfg e.now e.op = .ok (r.1, r.2) := hex
    rw [Option.some.inj h] at hex
    exact hex

/-- The host is reported to the agent, which reports the module to the reporter. -/
def reportAt (t : ℤ) (ts : UInt32) : Call :=
  ⟨t, .report ⟨1, 2, ⟨10, 80⟩, 0, none⟩,
    ⟨none, [], [⟨1, 2, 0x7F000001, [⟨10, 80, 0, 0, false⟩], ts⟩]⟩⟩

/-- A module with one host is asked for, updated, reported, pulled again and reported. -/
def twoReports : List Call :=
  [asked 1 2 [⟨1, 2⟩], ⟨8, .update ⟨1, 2, [⟨10, 80⟩]⟩, ⟨none, [], []⟩⟩, reportAt 23 23,
    ⟨30, .getRoute ⟨1, 2⟩, ⟨some (.getRouteByTool ⟨1, 2, [⟨10, 80⟩]⟩), [⟨1, 2⟩], []⟩⟩,
    reportAt 38 38]

/-- The two reports come one after another. -/
theorem twoReports_run : (recorded LbConfigure.default).Run (new 1)
    (System.trace (afterCall LbConfigure.default) (new 1) twoReports) :=
  .trace step_afterCall (by decide +kernel)

/-- The two reports of the run. -/
theorem reports_apart_default :
    (reportAt 23 23).now + LbConfigure.default.reportTimo ≤ (reportAt 38 38).now :=
  reports_apart [_, _] [_] [] twoReports_run (by decide)
    ⟨_, List.mem_singleton_self _, rfl, rfl⟩ ⟨_, List.mem_singleton_self _, rfl, rfl⟩

/-- A module is pulled with no pull under way and out of date. If no response about it comes between
an earlier call and a pull, and the earlier call was a pull too, then the pulls under way were given
up in between; and if it was a response that left the module in the table, it is older than
`updateTimo`. -/
theorem pulls_paced {id : ℕ} (before mid after : List (Call × RouteLB)) {e₁ e₂ : Call}
    {s₁ s₂ : RouteLB}
    (h : (recorded cfg).Run (new id) (before ++ (e₁, s₁) :: (mid ++ (e₂, s₂) :: after)))
    (hmid : ∀ x ∈ mid, ¬x.1.updates modid cmdid) (h₂ : e₂.pulls modid cmdid) :
    (e₁.pulls modid cmdid → ∃ x ∈ mid, x.1.op = .clearPulling) ∧
      (e₁.updates modid cmdid → packKey modid cmdid ∈ s₁.routeMap →
        e₁.now + cfg.updateTimo < e₂.now) := by
  constructor
  · intro h₁
    by_contra hclear
    push Not at hclear
    -- the pull stays under way
    have hstart : ∃ t, s₁.timers modid cmdid = some t ∧ t.status = .isPulling :=
      ((steps_of_run h modid cmdid).of_pulls h₁).2
    have hkeep : ∀ (e : Call) (x x' : Option Timers),
        ¬e.updates modid cmdid ∧ e.op ≠ .clearPulling →
          (∃ t, x = some t ∧ t.status = .isPulling) → e.Steps cfg modid cmdid x x' →
            ∃ t, x' = some t ∧ t.status = .isPulling := by
      rintro ⟨now, op, out⟩ _ x' ⟨hup, hclear⟩ ⟨t, rfl, ht⟩ ⟨pulls, repts, hstep, -⟩
      dsimp only at hstep
      cases hstep with
      | same => exact ⟨t, rfl, ht⟩
      | repull => exact ⟨_, rfl, rfl⟩
      | rept => exact ⟨_, rfl, ht⟩
      | update hm hc => exact absurd ⟨_, rfl, hm, hc⟩ hup
      | delete _ hm hc => exact absurd ⟨_, rfl, hm, hc⟩ hup
      | clearPulling => exact absurd rfl hclear
    obtain ⟨x, x', ⟨t, rfl, ht⟩, hsteps⟩ :=
      timers_between h hstart hkeep fun x hx => ⟨hmid x hx, hclear x hx⟩
    have hnew := ((hsteps.of_pulls h₂).1 t rfl).1
    rw [ht] at hnew
    cases hnew
  · intro h₁ hin
    -- the time of the response stays
    have hstart : ∃ t, s₁.timers modid cmdid = some t ∧ t.effectData = e₁.now :=
      effectData_of_updates h.split.2.1 h₁ hin
    have hkeep : ∀ (e : Call) (x x' : Option Timers), ¬e.updates modid cmdid →
        (∃ t, x = some t ∧ t.effectData = e₁.now) → e.Steps cfg modid cmdid x x' →
          ∃ t, x' = some t ∧ t.effectData = e₁.now := by
      rintro ⟨now, op, out⟩ _ x' hup ⟨t, rfl, ht⟩ ⟨pulls, repts, hstep, -⟩
      dsimp only at hstep
      cases hstep with
      | same => exact ⟨t, rfl, ht⟩
      | repull => exact ⟨_, rfl, ht⟩
      | rept => exact ⟨_, rfl, ht⟩
      | update hm hc => exact absurd ⟨_, rfl, hm, hc⟩ hup
      | delete _ hm hc => exact absurd ⟨_, rfl, hm, hc⟩ hup
      | clearPulling => exact ⟨_, rfl, ht⟩
    obtain ⟨x, x', ⟨t, rfl, ht⟩, hsteps⟩ := timers_between h hstart hkeep hmid
    have hold := ((hsteps.of_pulls h₂).1 t rfl).2
    omega

/-- The response of the run and the pull after it. -/
theorem pulls_paced_default :
    twoReports[1].now + LbConfigure.default.updateTimo < twoReports[3].now := by
  have hmid : ∀ x ∈ [(reportAt 23 23, afterCall LbConfigure.default (afterCall LbConfigure.default
      (afterCall LbConfigure.default (new 1) twoReports[0]) twoReports[1]) (reportAt 23 23))],
      ¬x.1.updates 1 2 := by
    intro x hx hup
    rw [List.mem_singleton.mp hx] at hup
    obtain ⟨rsp, hop, -⟩ := hup
    cases hop
  exact (pulls_paced [_] _ [_] twoReports_run hmid List.mem_cons_self).2
    ⟨_, rfl, rfl, rfl⟩ (by decide +kernel)

end RouteLB

end Elb
