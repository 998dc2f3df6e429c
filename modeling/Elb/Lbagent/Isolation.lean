import Elb.Lbagent.RouteLb

/-!
# Modules do not interfere

Reference: `lbagent/src/RouteLb.cc`, `class RouteLB` and `class LB`.

A shard keeps all its modules in one table and under one mutex. What it does for a module depends
nevertheless on the calls about this module alone, and on `clearPulling`: take the other calls out
of a run, and the calls that are left return the same and send the same. Only the addresses of the
objects change, which nothing looks at.
-/

namespace Elb

open Transition

variable {R : Type} [RateArith R] {cfg : LbConfigure R} {now : ℤ}

/-! ## The address of an object -/

namespace LB

/-- The object at another address. -/
def moveTo (a : ℕ) (lb : LB) : LB := { lb with self := a }

omit [RateArith R] in
/-- Which host is given, and what becomes of the lists, is the same at any address. -/
theorem moveTo_getHost (a : ℕ) (lb : LB) :
    (lb.moveTo a).getHost cfg = (lb.getHost cfg).map fun r => (r.1.moveTo a, r.2) := by
  have hrotate : ∀ l, (lb.moveTo a).rotate l = lb.rotate l := fun l => by cases l <;> rfl
  have hrun : (lb.moveTo a).runningList = lb.runningList := rfl
  have hdown : (lb.moveTo a).downList = lb.downList := rfl
  have hcnt : (lb.moveTo a).accessCnt = lb.accessCnt := rfl
  unfold getHost
  rw [hrotate, hrotate, hrun, hdown, hcnt]
  -- no idle host, no overloaded one, or both, as in the source
  split
  · split
    · cases lb.rotate lb.downList <;> rfl
    · rfl
  · split
    · cases lb.rotate lb.runningList <;> rfl
    · split
      · cases lb.rotate lb.downList <;> rfl
      · cases lb.rotate lb.runningList <;> rfl

/-- The closing block is the same at any address. -/
theorem moveTo_checkTimo (a : ℕ) (lb : LB) (key : UInt64) (hi : HI) :
    (lb.moveTo a).checkTimo cfg now key hi = (lb.checkTimo cfg now key hi).moveTo a := by
  unfold checkTimo
  split
  · split
    · dsimp only
      split <;> rfl
    · rfl
  · split <;> rfl

/-- So is `LB::report`. -/
theorem moveTo_report (a : ℕ) (lb : LB) (ip port retcode : Int32) :
    (lb.moveTo a).report cfg now ip port retcode =
      (lb.report cfg now ip port retcode).moveTo a := by
  have hmap : (lb.moveTo a).hostMap = lb.hostMap := rfl
  unfold report
  dsimp only
  rw [hmap]
  cases lb.hostMap.lookup (packKey ip port) with
  | none => rfl
  | some hi =>
    dsimp only
    -- what comes after the counting looks at the counted record only
    generalize (if retcode = 0 then (hi.addSucc 1).countSucc 1
      else (hi.addErr 1).countErr 1) = hi
    rw [moveTo_checkTimo]
    split
    · split <;> rfl
    · split
      · split <;> rfl
      · rfl

/-- So is `LB::reportSomeSucc`. -/
theorem moveTo_reportSomeSucc (a : ℕ) (lb : LB) (ip port : Int32) (n : UInt32) :
    (lb.moveTo a).reportSomeSucc cfg now ip port n =
      (lb.reportSomeSucc cfg now ip port n).moveTo a := by
  have hmap : (lb.moveTo a).hostMap = lb.hostMap := rfl
  unfold reportSomeSucc
  dsimp only
  rw [hmap]
  cases lb.hostMap.lookup (packKey ip port) with
  | none => rfl
  | some hi =>
    dsimp only
    split
    · exact moveTo_checkTimo a lb _ _
    · split
      · exact moveTo_checkTimo a (lb.moveRunning _) _ _
      · exact moveTo_checkTimo a lb _ _

/-- So is `LB::reportSomeErr`. -/
theorem moveTo_reportSomeErr (a : ℕ) (lb : LB) (ip port : Int32) (n : UInt32) :
    (lb.moveTo a).reportSomeErr cfg now ip port n =
      (lb.reportSomeErr cfg now ip port n).moveTo a := by
  have hmap : (lb.moveTo a).hostMap = lb.hostMap := rfl
  unfold reportSomeErr
  dsimp only
  rw [hmap]
  cases lb.hostMap.lookup (packKey ip port) with
  | none => rfl
  | some hi =>
    dsimp only
    split
    · exact moveTo_checkTimo a lb _ _
    · split
      · exact moveTo_checkTimo a (lb.moveDown _) _ _
      · exact moveTo_checkTimo a lb _ _

/-- So is the loop of `RouteLB::batchReport` over the entries of a batch. -/
theorem moveTo_batch (a : ℕ) (results : List HostBatchCallRes) (lb : LB) :
    results.foldl (fun lb cr => lb.reportSomeSucc cfg now cr.ip cr.port cr.succCnt) (lb.moveTo a) =
      (results.foldl (fun lb cr => lb.reportSomeSucc cfg now cr.ip cr.port cr.succCnt) lb).moveTo
        a := by
  induction results generalizing lb with
  | nil => rfl
  | cons cr results ih =>
    rw [List.foldl_cons, List.foldl_cons, moveTo_reportSomeSucc]
    exact ih _

omit [RateArith R] in
/-- What is reported to the reporter does not depend on the address. -/
theorem moveTo_report2Rpter (a : ℕ) (lb : LB) :
    (lb.moveTo a).report2Rpter cfg now =
      (lb.report2Rpter cfg now).map fun r => (r.1.moveTo a, r.2) := by
  have hres : ∀ b, (lb.moveTo a).callResult b = lb.callResult b := fun _ => rfl
  have hemp : (lb.moveTo a).empty = lb.empty := rfl
  have hts : (lb.moveTo a).lstRptTime = lb.lstRptTime := rfl
  have hrun : (lb.moveTo a).runningList = lb.runningList := rfl
  have hdown : (lb.moveTo a).downList = lb.downList := rfl
  unfold report2Rpter
  rw [hres, hres, hemp, hts, hrun, hdown]
  split
  · rfl
  · split
    · rfl
    · cases lb.runningList.mapM (lb.callResult false) with
      | error fault => rfl
      | ok running => cases lb.downList.mapM (lb.callResult true) <;> rfl

omit [RateArith R] in
/-- The first loop of `LB::update`, over the hosts of the response. -/
theorem moveTo_addHosts (a : ℕ) (hosts : List HostAddr) (lb : LB) (updated : Bool) :
    hosts.foldl (addHost cfg now) (lb.moveTo a, updated) =
      ((hosts.foldl (addHost cfg now) (lb, updated)).1.moveTo a,
        (hosts.foldl (addHost cfg now) (lb, updated)).2) := by
  have hone : ∀ (lb : LB) updated host, addHost cfg now (lb.moveTo a, updated) host =
      ((addHost cfg now (lb, updated) host).1.moveTo a,
        (addHost cfg now (lb, updated) host).2) := by
    intro lb updated host
    have hmap : (lb.moveTo a).hostMap = lb.hostMap := rfl
    unfold addHost
    dsimp only
    rw [hmap]
    cases lb.hostMap.lookup host.key <;> rfl
  -- the loop carries the object and whether the route has changed
  induction hosts generalizing lb updated with
  | nil => rfl
  | cons host hosts ih =>
    rw [List.foldl_cons, List.foldl_cons, hone]
    exact ih _ _

/-- The second loop of `LB::update`, over the hosts that are gone. -/
theorem moveTo_delHosts (a : ℕ) (keys : List UInt64) (lb : LB) :
    keys.foldl delHost (lb.moveTo a) = (keys.foldl delHost lb).moveTo a := by
  have hone : ∀ (lb : LB) key, delHost (lb.moveTo a) key = (delHost lb key).moveTo a := by
    intro lb key
    have hmap : (lb.moveTo a).hostMap = lb.hostMap := rfl
    unfold delHost
    rw [hmap]
    cases lb.hostMap.lookup key with
    | none => rfl
    | some hi =>
      dsimp only
      split <;> rfl
  induction keys generalizing lb with
  | nil => rfl
  | cons key keys ih =>
    rw [List.foldl_cons, List.foldl_cons, hone]
    exact ih _

omit [RateArith R] in
/-- `LB::update` is the same at any address. -/
theorem moveTo_update (a : ℕ) (lb : LB) (rsp : GetRouteRsp) :
    (lb.moveTo a).update cfg now rsp = (lb.update cfg now rsp).map (moveTo a) := by
  have hemp : (lb.moveTo a).empty = lb.empty := rfl
  unfold update
  split
  · rfl
  · dsimp only
    rw [moveTo_addHosts, hemp]
    dsimp only
    -- both loops run on the object, first the one that adds
    have hmap : ∀ lb : LB, (lb.moveTo a).hostMap = lb.hostMap := fun _ => rfl
    rw [hmap, moveTo_delHosts]
    rfl

end LB

namespace RouteLB

/-! ## One module in two shards -/

/-- The ids that a call is about; `clearPulling` is about every module. -/
def Op.ids : Op → Option (Int32 × Int32)
  | .getHost req => some (req.modid, req.cmdid)
  | .report req => some (req.modid, req.cmdid)
  | .batchReport req => some (req.modid, req.cmdid)
  | .getRoute req => some (req.modid, req.cmdid)
  | .cacheGetRoute req => some (req.modid, req.cmdid)
  | .update rsp => some (rsp.modid, rsp.cmdid)
  | .clearPulling => none

/-- The call is about the module. -/
def Op.about (modid cmdid : Int32) (op : Op) : Bool := op.ids.all (· = (modid, cmdid))

/-- A call about the module has the ids of the module, if it has any. -/
theorem Op.ids_eq {op : Op} {modid cmdid : Int32} (h : op.about modid cmdid) {ids : Int32 × Int32}
    (hids : op.ids = some ids) : ids = (modid, cmdid) := by
  rw [Op.about, hids] at h
  exact of_decide_eq_true h

/-- The module is in both shards, in the same state, or in neither. -/
def SameModule (modid cmdid : Int32) (s t : RouteLB) : Prop :=
  ∃ a, t.routeMap.lookup (packKey modid cmdid) =
    (s.routeMap.lookup (packKey modid cmdid)).map (LB.moveTo a)

/-- Both calls fault alike, or return the same and leave the module in the same state. -/
def SameResult {α : Type} (modid cmdid : Int32) (x y : Except Fault (RouteLB × α)) : Prop :=
  Except.Rel (fun x y => SameModule modid cmdid x.1 y.1 ∧ x.2 = y.2) x y

variable {s t s' : RouteLB} {modid cmdid : Int32}

/-- The module in the same state is put into both tables. -/
theorem SameModule.put {a : ℕ} (lb : LB) : SameModule modid cmdid (s.put (packKey modid cmdid) lb)
    (t.put (packKey modid cmdid) (lb.moveTo a)) := by
  refine ⟨a, ?_⟩
  rw [RouteLB.put, RouteLB.put, AList.lookup_insert, AList.lookup_insert]
  rfl

/-- A module that is created starts in the same state in both tables. -/
theorem SameModule.create : SameModule modid cmdid (s.create modid cmdid).1
    (t.create modid cmdid).1 := by
  refine ⟨t.nextLb, ?_⟩
  rw [RouteLB.create, RouteLB.create]
  dsimp only [RouteLB.put]
  rw [AList.lookup_insert, AList.lookup_insert]
  rfl

omit [RateArith R] in
/-- Whether an object is pulled again does not depend on its address. -/
theorem repull_moveTo (a : ℕ) (lb : LB) :
    repull cfg now (lb.moveTo a) = ((repull cfg now lb).1.moveTo a, (repull cfg now lb).2) := by
  unfold repull
  have hstatus : (lb.moveTo a).status = lb.status := rfl
  have heffect : (lb.moveTo a).effectData = lb.effectData := rfl
  rw [hstatus, heffect]
  split <;> rfl

/-- If one call returns, the other one returns the same. -/
theorem SameResult.exists_ok {α : Type} {x y : Except Fault (RouteLB × α)}
    (h : SameResult modid cmdid x y) {out : α} (hx : x = .ok (s', out)) :
    ∃ t', y = .ok (t', out) ∧ SameModule modid cmdid s' t' := by
  subst hx
  obtain ⟨⟨t', _⟩, heq, hsame, rfl⟩ := Except.Rel.of_ok h
  exact ⟨t', heq, hsame⟩

/-- What is returned is the same, a fault included. -/
theorem SameResult.map_snd {α : Type} {x y : Except Fault (RouteLB × α)}
    (h : SameResult modid cmdid x y) : x.map Prod.snd = y.map Prod.snd := by
  cases h with
  | ok hres => exact congrArg Except.ok hres.2
  | error fault => rfl

/-! ### The calls about the module -/

omit [RateArith R] in
/-- `RouteLB::getHost` does the same with the module in both shards. -/
theorem SameModule.getHost (h : SameModule modid cmdid s t) (rsp : GetHostRsp) :
    SameResult modid cmdid (s.getHost cfg now modid cmdid rsp)
      (t.getHost cfg now modid cmdid rsp) := by
  obtain ⟨a, ha⟩ := h
  unfold RouteLB.getHost
  dsimp only
  rw [ha]
  cases hk : s.routeMap.lookup (packKey modid cmdid) with
  | none => exact .ok ⟨.create, rfl⟩
  | some lb =>
    -- an empty module is answered or runs into the assertion, by its status
    have hemp : (lb.moveTo a).empty = lb.empty := rfl
    have hstatus : (lb.moveTo a).status = lb.status := rfl
    dsimp only [Option.map_some]
    rw [hemp, hstatus, LB.moveTo_getHost]
    split
    · split
      · exact .ok ⟨⟨a, by rw [ha, hk]⟩, rfl⟩
      · exact .error _
    · refine Except.Rel.bind_map ?_
      rintro ⟨lb, ret, host⟩
      dsimp only
      rw [repull_moveTo]
      exact .ok ⟨.put _, rfl⟩

/-- `RouteLB::report` does the same with the module in both shards. -/
theorem SameModule.report (h : SameModule modid cmdid s t) {req : ReportReq}
    (hm : req.modid = modid) (hc : req.cmdid = cmdid) :
    SameResult modid cmdid (s.report cfg now req) (t.report cfg now req) := by
  obtain ⟨a, ha⟩ := h
  subst hm hc
  unfold RouteLB.report
  -- `errcnt` is computed from the request alone, and may fault
  cases errcnt req with
  | error fault => exact .error fault
  | ok n =>
    simp only [bind, Except.bind]
    rw [ha]
    cases hk : s.routeMap.lookup (packKey req.modid req.cmdid) with
    | none => exact .ok ⟨⟨a, by rw [ha, hk]⟩, rfl⟩
    | some lb =>
      dsimp only [Option.map_some]
      rw [LB.moveTo_report, LB.moveTo_reportSomeErr, ← apply_ite (LB.moveTo a),
        LB.moveTo_report2Rpter]
      refine Except.Rel.bind_map ?_
      rintro ⟨lb, rept⟩
      exact .ok ⟨.put _, rfl⟩

/-- `RouteLB::batchReport` does the same with the module in both shards. -/
theorem SameModule.batchReport (h : SameModule modid cmdid s t) {req : CacheBatchRptReq}
    (hm : req.modid = modid) (hc : req.cmdid = cmdid) :
    SameResult modid cmdid (s.batchReport cfg now req) (t.batchReport cfg now req) := by
  obtain ⟨a, ha⟩ := h
  subst hm hc
  unfold RouteLB.batchReport
  dsimp only
  rw [ha]
  cases hk : s.routeMap.lookup (packKey req.modid req.cmdid) with
  | none => exact .ok ⟨⟨a, by rw [ha, hk]⟩, rfl⟩
  | some lb =>
    dsimp only [Option.map_some]
    rw [LB.moveTo_batch, LB.moveTo_report2Rpter]
    refine Except.Rel.bind_map ?_
    rintro ⟨lb, rept⟩
    exact .ok ⟨.put _, rfl⟩

omit [RateArith R] in
/-- `RouteLB::getRoute` does the same with the module in both shards. -/
theorem SameModule.getRoute (h : SameModule modid cmdid s t) (cfg : LbConfigure R) (now : ℤ)
    (rsp : GetRouteRsp) :
    SameModule modid cmdid (s.getRoute cfg now modid cmdid rsp).1
        (t.getRoute cfg now modid cmdid rsp).1 ∧
      (s.getRoute cfg now modid cmdid rsp).2 = (t.getRoute cfg now modid cmdid rsp).2 := by
  obtain ⟨a, ha⟩ := h
  unfold RouteLB.getRoute
  dsimp only
  rw [ha]
  cases hk : s.routeMap.lookup (packKey modid cmdid) with
  | none => exact ⟨.create, rfl⟩
  | some lb =>
    dsimp only [Option.map_some]
    rw [repull_moveTo]
    exact ⟨.put _, rfl⟩

omit [RateArith R] in
/-- `RouteLB::cacheGetRoute` does the same with the module in both shards. -/
theorem SameModule.cacheGetRoute (h : SameModule modid cmdid s t) (version : ℤ)
    (rsp : CacheGetRouteRsp) :
    SameResult modid cmdid (s.cacheGetRoute cfg now modid cmdid version rsp)
      (t.cacheGetRoute cfg now modid cmdid version rsp) := by
  obtain ⟨a, ha⟩ := h
  unfold RouteLB.cacheGetRoute
  dsimp only
  rw [ha]
  cases hk : s.routeMap.lookup (packKey modid cmdid) with
  | none => exact .ok ⟨.create, rfl⟩
  | some lb =>
    have hemp : (lb.moveTo a).empty = lb.empty := rfl
    have hstatus : (lb.moveTo a).status = lb.status := rfl
    dsimp only [Option.map_some]
    rw [hemp, hstatus, repull_moveTo]
    split
    · split
      · exact .ok ⟨⟨a, by rw [ha, hk]⟩, rfl⟩
      · exact .error _
    · exact .ok ⟨.put _, rfl⟩

omit [RateArith R] in
/-- `RouteLB::update` does the same with the module in both shards. -/
theorem SameModule.update (h : SameModule modid cmdid s t) {rsp : GetRouteRsp}
    (hm : rsp.modid = modid) (hc : rsp.cmdid = cmdid) :
    Except.Rel (SameModule modid cmdid) (s.update cfg now rsp) (t.update cfg now rsp) := by
  obtain ⟨a, ha⟩ := h
  subst hm hc
  unfold RouteLB.update
  dsimp only
  rw [ha]
  cases hk : s.routeMap.lookup (packKey rsp.modid rsp.cmdid) with
  | none => exact .ok ⟨a, by rw [ha, hk]⟩
  | some lb =>
    dsimp only [Option.map_some]
    rw [LB.moveTo_update]
    -- an empty response deletes the module, any other one updates it
    split
    · refine .ok ⟨a, ?_⟩
      rw [AList.lookup_erase, AList.lookup_erase]
      rfl
    · exact Except.Rel.bind_map fun lb => .ok (.put lb)

/-- `RouteLB::clearPulling` goes through all modules, and does the same with this one. -/
theorem SameModule.clearPulling (h : SameModule modid cmdid s t) :
    SameModule modid cmdid s.clearPulling t.clearPulling := by
  obtain ⟨a, ha⟩ := h
  refine ⟨a, ?_⟩
  rw [RouteLB.clearPulling, RouteLB.clearPulling, HashMap.lookup_mapVal, HashMap.lookup_mapVal, ha]
  cases s.routeMap.lookup (packKey modid cmdid) with
  | none => rfl
  | some lb =>
    dsimp only [Option.map_some, LB.clearPulling, LB.moveTo]
    split <;> rfl

/-- A call about the module does the same in both shards. -/
theorem SameModule.exec (h : SameModule modid cmdid s t) {op : Op} (hop : op.about modid cmdid)
    (now : ℤ) : SameResult modid cmdid (s.exec cfg now op) (t.exec cfg now op) := by
  cases op with
  | getHost req =>
    obtain ⟨rfl, rfl⟩ := Prod.mk.inj (Op.ids_eq hop rfl)
    refine Except.Rel.bind (h.getHost _) ?_
    rintro ⟨s', rsp, pulls⟩ ⟨t', rsp', pulls'⟩ ⟨h', heq⟩
    cases heq
    exact .ok ⟨h', rfl⟩
  | report req =>
    obtain ⟨hm, hc⟩ := Prod.mk.inj (Op.ids_eq hop rfl)
    refine Except.Rel.bind (h.report hm hc) ?_
    rintro ⟨s', repts⟩ ⟨t', repts'⟩ ⟨h', heq⟩
    cases heq
    exact .ok ⟨h', rfl⟩
  | batchReport req =>
    obtain ⟨hm, hc⟩ := Prod.mk.inj (Op.ids_eq hop rfl)
    refine Except.Rel.bind (h.batchReport hm hc) ?_
    rintro ⟨s', repts⟩ ⟨t', repts'⟩ ⟨h', heq⟩
    cases heq
    exact .ok ⟨h', rfl⟩
  | getRoute req =>
    obtain ⟨rfl, rfl⟩ := Prod.mk.inj (Op.ids_eq hop rfl)
    obtain ⟨h', heq⟩ := h.getRoute cfg now ⟨req.modid, req.cmdid, []⟩
    exact .ok ⟨h', congrArg (fun r : GetRouteRsp × List GetRouteReq =>
      (⟨some (.getRouteByTool r.1), r.2, []⟩ : Out)) heq⟩
  | cacheGetRoute req =>
    obtain ⟨rfl, rfl⟩ := Prod.mk.inj (Op.ids_eq hop rfl)
    refine Except.Rel.bind (h.cacheGetRoute _ _) ?_
    rintro ⟨s', rsp, pulls⟩ ⟨t', rsp', pulls'⟩ ⟨h', heq⟩
    cases heq
    exact .ok ⟨h', rfl⟩
  | update rsp =>
    obtain ⟨hm, hc⟩ := Prod.mk.inj (Op.ids_eq hop rfl)
    exact Except.Rel.bind (h.update hm hc) fun s' t' h' => .ok ⟨h', rfl⟩
  | clearPulling => exact .ok ⟨h.clearPulling, rfl⟩

/-! ### The other calls -/

/-- Putting a module under its key leaves the other keys alone. -/
theorem lookup_put_of_ne {k key : UInt64} (hk : k ≠ key) (lb : LB) :
    (s.put key lb).routeMap.lookup k = s.routeMap.lookup k := by
  rw [RouteLB.put, HashMap.lookup_insert_eq, if_neg hk]

/-- So does creating one. -/
theorem lookup_create_of_ne {k : UInt64} {m c : Int32} (hk : k ≠ packKey m c) :
    (s.create m c).1.routeMap.lookup k = s.routeMap.lookup k :=
  lookup_put_of_ne hk _

/-- A call about one module leaves the others alone. -/
theorem exec_lookup_of_ne {op : Op} {m c : Int32} (hids : op.ids = some (m, c)) {k : UInt64}
    (hk : k ≠ packKey m c) {out : Out} (hex : s.exec cfg now op = .ok (s', out)) :
    s'.routeMap.lookup k = s.routeMap.lookup k := by
  cases op with
  | getHost req =>
    obtain ⟨rfl, rfl⟩ := Prod.mk.inj (Option.some.inj hids)
    obtain ⟨⟨s₁, rsp, pulls⟩, hcall, heq⟩ := Except.bind_eq_ok_iff.mp hex
    cases heq
    unfold RouteLB.getHost at hcall
    dsimp only at hcall
    split at hcall
    · split at hcall
      · split at hcall <;> cases hcall
        rfl
      · obtain ⟨⟨lb, ret, host⟩, -, heq⟩ := Except.bind_eq_ok_iff.mp hcall
        cases heq
        exact lookup_put_of_ne hk _
    · cases hcall
      exact lookup_create_of_ne hk
  | report req =>
    obtain ⟨rfl, rfl⟩ := Prod.mk.inj (Option.some.inj hids)
    obtain ⟨⟨s₁, repts⟩, hcall, heq⟩ := Except.bind_eq_ok_iff.mp hex
    cases heq
    unfold RouteLB.report at hcall
    obtain ⟨n, -, hcall⟩ := Except.bind_eq_ok_iff.mp hcall
    dsimp only at hcall
    split at hcall
    · cases hcall
      rfl
    · obtain ⟨⟨lb, rept⟩, -, heq⟩ := Except.bind_eq_ok_iff.mp hcall
      cases heq
      exact lookup_put_of_ne hk _
  | batchReport req =>
    obtain ⟨rfl, rfl⟩ := Prod.mk.inj (Option.some.inj hids)
    obtain ⟨⟨s₁, repts⟩, hcall, heq⟩ := Except.bind_eq_ok_iff.mp hex
    cases heq
    unfold RouteLB.batchReport at hcall
    dsimp only at hcall
    split at hcall
    · cases hcall
      rfl
    · obtain ⟨⟨lb, rept⟩, -, heq⟩ := Except.bind_eq_ok_iff.mp hcall
      cases heq
      exact lookup_put_of_ne hk _
  | getRoute req =>
    obtain ⟨rfl, rfl⟩ := Prod.mk.inj (Option.some.inj hids)
    obtain ⟨rfl, -⟩ := Prod.mk.inj (Except.ok.inj hex)
    dsimp only
    split
    · exact lookup_put_of_ne hk _
    · exact lookup_create_of_ne hk
  | cacheGetRoute req =>
    obtain ⟨rfl, rfl⟩ := Prod.mk.inj (Option.some.inj hids)
    obtain ⟨⟨s₁, rsp, pulls⟩, hcall, heq⟩ := Except.bind_eq_ok_iff.mp hex
    cases heq
    unfold RouteLB.cacheGetRoute at hcall
    dsimp only at hcall
    split at hcall
    · split at hcall
      · split at hcall <;> cases hcall
        rfl
      · cases hcall
        exact lookup_put_of_ne hk _
    · cases hcall
      exact lookup_create_of_ne hk
  | update rsp =>
    obtain ⟨rfl, rfl⟩ := Prod.mk.inj (Option.some.inj hids)
    obtain ⟨s₁, hcall, heq⟩ := Except.bind_eq_ok_iff.mp hex
    cases heq
    unfold RouteLB.update at hcall
    dsimp only at hcall
    split at hcall
    · cases hcall
      rfl
    · split at hcall
      · cases hcall
        exact AList.lookup_erase_ne hk
      · obtain ⟨lb, -, heq⟩ := Except.bind_eq_ok_iff.mp hcall
        cases heq
        exact lookup_put_of_ne hk _
  | clearPulling => cases hids

/-- A call about another module keeps the module in the state it has in the other shard. -/
theorem SameModule.of_other (h : SameModule modid cmdid s t) {op : Op}
    (hop : op.about modid cmdid = false) {out : Out} (hex : s.exec cfg now op = .ok (s', out)) :
    SameModule modid cmdid s' t := by
  obtain ⟨a, ha⟩ := h
  refine ⟨a, ?_⟩
  cases hids : op.ids with
  | none =>
    rw [Op.about, hids] at hop
    cases hop
  | some ids =>
    obtain ⟨m, c⟩ := ids
    rw [Op.about, hids] at hop
    -- other ids have another key
    have hne : packKey modid cmdid ≠ packKey m c := fun heq => by
      obtain ⟨rfl, rfl⟩ := packKey_inj heq
      exact of_decide_eq_false hop rfl
    rw [exec_lookup_of_ne hids hne hex, ha]

/-! ## Whole runs -/

/-- A call with its time and what it returned and sent. -/
structure Call where
  now : ℤ
  op : Op
  out : Out

/-- Runs of a shard that record what the calls return. -/
def recorded (cfg : LbConfigure R) : System RouteLB Call where
  init s := ∃ id, s = new id
  step s e s' := s.exec cfg e.now e.op = .ok (s', e.out)

/-- For every run of a shard and every module, the calls about the module, at their times and with
what they returned and sent, are a run on their own. After both runs the next call about the module
does the same. -/
theorem calls_about_module_run (id id' : ℕ) (modid cmdid : Int32) {tr : List (Call × RouteLB)}
    (h : (recorded cfg).Run (new id) tr) :
    ∃ tr', (recorded cfg).Run (new id') tr' ∧
      tr'.map Prod.fst = (tr.map Prod.fst).filter (·.op.about modid cmdid) ∧
        ∀ now op, op.about modid cmdid →
          ((System.last (new id) tr).exec cfg now op).map Prod.snd =
            ((System.last (new id') tr').exec cfg now op).map Prod.snd := by
  have hkeep : ∀ (s : RouteLB) (e : Call) (s' t : RouteLB), SameModule modid cmdid s t →
      e.op.about modid cmdid = true → (recorded cfg).step s e s' →
        ∃ t', (recorded cfg).step t e t' ∧ SameModule modid cmdid s' t' := by
    intro s e s' t hsame hop hstep
    exact (hsame.exec hop e.now).exists_ok hstep
  have hdrop : ∀ (s : RouteLB) (e : Call) (s' t : RouteLB), SameModule modid cmdid s t →
      e.op.about modid cmdid = false → (recorded cfg).step s e s' → SameModule modid cmdid s' t :=
    fun _ _ _ _ hsame hop hstep => hsame.of_other hop hstep
  have hinit : SameModule modid cmdid (new id) (new id') := ⟨0, rfl⟩
  obtain ⟨tr', hrun, hmap, hlast⟩ := h.project hkeep hdrop hinit
  exact ⟨tr', hrun, hmap, fun now op hop => (hlast.exec hop now).map_snd⟩

/-- A module that is asked for, with or without being in the table. -/
def asked (modid cmdid : Int32) (pulls : List GetRouteReq) : Call :=
  ⟨7, .getHost ⟨0, modid, cmdid⟩,
    ⟨some (.getHost ⟨0, modid, cmdid, Retcode.noexist, none⟩), pulls, []⟩⟩

/-- Another module is asked for in between. -/
theorem calls_about_module_two : ∃ tr', (recorded LbConfigure.default).Run (new 2) tr' ∧
    tr'.map Prod.fst = [asked 1 2 [⟨1, 2⟩], asked 1 2 []] := by
  have h : (recorded LbConfigure.default).Run (new 1)
      [(asked 1 2 [⟨1, 2⟩], ((new 1).create 1 2).1),
        (asked 3 4 [⟨3, 4⟩], (((new 1).create 1 2).1.create 3 4).1),
        (asked 1 2 [], (((new 1).create 1 2).1.create 3 4).1)] :=
    .cons rfl (.cons rfl (.cons rfl (.nil _)))
  obtain ⟨tr', hrun, hmap, -⟩ := calls_about_module_run 1 2 1 2 h
  exact ⟨tr', hrun, hmap⟩

end RouteLB

end Elb
