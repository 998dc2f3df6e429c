import Elb.Lbagent.HostView
import Elb.Lbagent.LbRun
import Elb.Lbagent.RouteLb

/-!
# The invariant of a shard

A call of `RouteLB` creates one `LB`, drops one, makes a few calls on one, or marks all of them.
`Effect` lists these cases once, and whatever holds of every run of an `LB` carries over to the
modules of a shard. The assertions are the only faults that a call can run into; `Stuck` says when.
-/

namespace Elb

variable {R : Type} [RateArith R] {cfg : LbConfigure R} {now : ℤ}

namespace LB

/-! ## Serving requests -/

/-- The calls that serve requests about the route as it is. -/
def Op.Serving : Op → Prop
  | .update _ => False
  | .clearPulling => False
  | _ => True

/-- Calls at time `now` that serve requests lead from `lb` to `lb'`. -/
inductive Served (cfg : LbConfigure R) (now : ℤ) (lb : LB) : LB → Prop
  | refl : Served cfg now lb lb
  | step {lb₁ lb₂ : LB} {out : Out} (h : Served cfg now lb lb₁) (op : Op) (hop : op.Serving)
      (hne : op = .getHost → lb₁.empty = false) (hex : lb₁.exec cfg now op = .ok (lb₂, out)) :
      Served cfg now lb lb₂

/-- Calls that serve requests are steps of a run of the module. -/
theorem Served.reachable {lb lb' : LB} (h : Served cfg now lb lb')
    (hr : (system cfg).Reachable lb) : (system cfg).Reachable lb' := by
  induction h with
  | refl => exact hr
  | step _ _ _ hne hex ih => exact ih.step (e := (now, _)) ⟨hne, _, hex⟩

/-- What serving requests leaves alone: which module this is, its version and its hosts. A pull may
get under way. -/
structure SameRoute (lb lb' : LB) : Prop where
  modid_eq : lb'.modid = lb.modid
  cmdid_eq : lb'.cmdid = lb.cmdid
  version_eq : lb'.version = lb.version
  mem_iff : ∀ k, k ∈ lb'.hostMap ↔ k ∈ lb.hostMap
  status : lb'.status = lb.status ∨ lb'.status = .isPulling

/-- No call at all. -/
theorem SameRoute.refl (lb : LB) : SameRoute lb lb := ⟨rfl, rfl, rfl, fun _ => .rfl, .inl rfl⟩

/-- Some calls and some more. -/
theorem SameRoute.trans {lb lb' lb'' : LB} (h : SameRoute lb lb') (h' : SameRoute lb' lb'') :
    SameRoute lb lb'' := by
  refine ⟨h'.1.trans h.1, h'.2.trans h.2, h'.3.trans h.3, fun k => (h'.4 k).trans (h.4 k), ?_⟩
  rcases h'.status with heq | heq
  · exact heq ▸ h.status
  · exact .inr heq

/-- One call that serves a request. -/
theorem RepInv.exec_sameRoute {lb lb' : LB} {op : Op} {out : Out} (h : lb.RepInv)
    (hop : op.Serving) (hne : op = .getHost → lb.empty = false)
    (hex : lb.exec cfg now op = .ok (lb', out)) : SameRoute lb lb' := by
  have hup : ∀ rsp, op ≠ .update rsp := by
    rintro rsp rfl
    exact hop
  have hclear : op ≠ .clearPulling := by
    rintro rfl
    exact hop
  -- ids and version by what the call does not touch, the hosts by what it writes
  have hframe := h.exec_frame hne hex
  refine ⟨hframe.modid_eq, hframe.cmdid_eq, hframe.version_eq hup, fun k => ?_, ?_⟩
  · rcases h.exec_cases hne hex with ⟨key, hi, -, hk, hw⟩ | ⟨rsp, rfl, -⟩ | ⟨hmap, -⟩
    · exact hw.mem_iff hk k
    · exact absurd rfl (hup rsp)
    · rw [hmap]
  · by_cases hpull : op = .pull
    · subst hpull
      obtain ⟨rfl, -⟩ := Prod.mk.inj (Except.ok.inj hex)
      exact .inr rfl
    · exact .inl (hframe.status_eq hup hpull hclear)

/-- Any number of calls that serve requests. -/
theorem Served.sameRoute {lb lb' : LB} (h : Served cfg now lb lb')
    (hr : (system cfg).Reachable lb) : SameRoute lb lb' := by
  induction h with
  | refl => exact .refl lb
  | step h _ hop hne hex ih =>
    exact ih.trans ((repInv_of_reachable (h.reachable hr)).exec_sameRoute hop hne hex)

/-- Serving requests neither fills nor empties a route. -/
theorem SameRoute.empty_eq {lb lb' : LB} (h : SameRoute lb lb') : lb'.empty = lb.empty :=
  empty_congr h.mem_iff

end LB

namespace RouteLB

/-! ## What a call does to the table -/

/-- The effect of a call on the table of modules. -/
inductive Effect (cfg : LbConfigure R) (now : ℤ) (s : RouteLB) : Op → RouteLB → Prop
  | same {op : Op} : Effect cfg now s op s
  | serve {op : Op} {key : UInt64} {lb lb' : LB} (hk : s.routeMap.lookup key = some lb)
      (h : lb.Served cfg now lb') : Effect cfg now s op (s.put key lb')
  | create {op : Op} {modid cmdid : Int32} (hk : s.routeMap.lookup (packKey modid cmdid) = none) :
      Effect cfg now s op (s.create modid cmdid).1
  | update {rsp : GetRouteRsp} {lb lb' : LB}
      (hk : s.routeMap.lookup (packKey rsp.modid rsp.cmdid) = some lb) (hne : rsp.hosts ≠ [])
      (h : lb.update cfg now rsp = .ok lb') :
      Effect cfg now s (.update rsp) (s.put (packKey rsp.modid rsp.cmdid) lb')
  | delete {rsp : GetRouteRsp} (hnil : rsp.hosts = []) :
      Effect cfg now s (.update rsp)
        { s with routeMap := s.routeMap.erase (packKey rsp.modid rsp.cmdid) }
  | clearPulling : Effect cfg now s .clearPulling s.clearPulling

/-- Every module of the table got where it is by calls on it, and is filed under its own ids. -/
structure Inv (cfg : LbConfigure R) (s : RouteLB) : Prop where
  lb_reachable : ∀ key lb, s.routeMap.lookup key = some lb → (LB.system cfg).Reachable lb
  key_eq : ∀ key lb, s.routeMap.lookup key = some lb → packKey lb.modid lb.cmdid = key

/-- The assertion that a call runs into. -/
def Stuck (s : RouteLB) : Op → Assertion → Prop
  | .getHost req, .getHostPulling => ∃ lb,
      s.routeMap.lookup (packKey req.modid req.cmdid) = some lb ∧ lb.empty = true ∧
        lb.status ≠ .isPulling
  | .cacheGetRoute req, .cacheGetRoutePulling => ∃ lb,
      s.routeMap.lookup (packKey req.modid req.cmdid) = some lb ∧ lb.empty = true ∧
        lb.status ≠ .isPulling
  | .report req, .reportRetcode => req.tcost.isSome ∧ req.retcode = 0
  | _, _ => False

/-- The answer to `GetHostReq`: that of the module's `LB`, or that there is no route. -/
def Answers (s : RouteLB) (req : GetHostReq) (rsp : GetHostRsp) : Prop :=
  rsp.seq = req.seq ∧ rsp.modid = req.modid ∧ rsp.cmdid = req.cmdid ∧
    match s.routeMap.lookup (packKey req.modid req.cmdid) with
    | some lb =>
      if lb.empty then rsp.retcode = Retcode.noexist ∧ rsp.host = none
      else lb.HostAnswer rsp.retcode rsp.host
    | none => rsp.retcode = Retcode.noexist ∧ rsp.host = none

/-- What a call that goes through does. -/
structure Result (cfg : LbConfigure R) (now : ℤ) (s : RouteLB) (op : Op) (s' : RouteLB)
    (out : Out) : Prop where
  effect : Effect cfg now s op s'
  answers : ∀ req rsp, op = .getHost req → out.reply = some (.getHost rsp) → s.Answers req rsp
  names : ∀ rept ∈ out.repts, ∃ key lb, s'.routeMap.lookup key = some lb ∧ lb.Names rept

/-- The object of one module is replaced. -/
@[simp] theorem put_lookup (s : RouteLB) (key k : UInt64) (lb : LB) :
    (s.put key lb).routeMap.lookup k = if k = key then some lb else s.routeMap.lookup k :=
  HashMap.lookup_insert_eq _ _ _ _

/-- One module comes in. -/
@[simp] theorem create_lookup (s : RouteLB) (modid cmdid : Int32) (k : UInt64) :
    (s.create modid cmdid).1.routeMap.lookup k =
      if k = packKey modid cmdid then some (LB.new s.nextLb modid cmdid)
      else s.routeMap.lookup k :=
  HashMap.lookup_insert_eq _ _ _ _

/-- Pulling again is one more call on the module. -/
theorem repull_served {lb lb' : LB} (h : lb.Served cfg now lb') :
    lb.Served cfg now (repull cfg now lb').1 := by
  rw [repull]
  split
  · exact h.step .pull trivial (by simp) rfl
  · exact h

/-- The report that closes `report` and `batchReport`. -/
theorem report2Rpter_served {lb lb' : LB} (h : lb.Served cfg now lb')
    (hr : (LB.system cfg).Reachable lb) : ∃ lb'' rept, lb'.report2Rpter cfg now = .ok (lb'', rept) ∧
      lb.Served cfg now lb'' ∧ ∀ r ∈ rept.toList, lb''.Names r := by
  obtain ⟨rpt, rept, heq, hnames, -⟩ :=
    (LB.repInv_of_reachable (h.reachable hr)).report2Rpter cfg now
  refine ⟨_, rept, heq, h.step .report2Rpter trivial (by simp) (by rw [LB.exec, heq]; rfl),
    fun r hmem => ?_⟩
  have hn := hnames r (Option.mem_toList.mp hmem)
  exact ⟨hn.modid_eq, hn.cmdid_eq, hn.nodup, hn.mem_iff⟩

/-- The loop of `RouteLB::batchReport`. -/
theorem batch_served {lb lb' : LB} (h : lb.Served cfg now lb') (results : List HostBatchCallRes) :
    lb.Served cfg now (results.foldl
      (fun lb cr => lb.reportSomeSucc cfg now cr.ip cr.port cr.succCnt) lb') := by
  induction results generalizing lb' with
  | nil => exact h
  | cons cr results ih =>
    exact ih (h.step (.reportSomeSucc cr.ip cr.port cr.succCnt) trivial (by simp) rfl)

/-! ## Every call -/

section Calls

variable {s : RouteLB}

/-- `getHost` goes through, or runs into the assertion for an empty module that is not being pulled.
-/
theorem getHost_result (h : s.Inv cfg)
    (req : GetHostReq) :
    (∃ a, s.exec cfg now (.getHost req) = .error (.assertion a) ∧ s.Stuck (.getHost req) a) ∨
      ∃ s' out, s.exec cfg now (.getHost req) = .ok (s', out) ∧
        Result cfg now s (.getHost req) s' out := by
  cases hk : s.routeMap.lookup (packKey req.modid req.cmdid) with
  | none =>
    refine .inr ⟨_, _, by simp only [exec, getHost, hk]; rfl, .create hk, ?_, by simp⟩
    rintro _ _ ⟨⟩ ⟨⟩
    exact ⟨rfl, rfl, rfl, by rw [hk]; exact ⟨rfl, rfl⟩⟩
  | some lb =>
    -- a module without hosts is answered if its first pull is under way
    by_cases hemp : lb.empty = true
    · by_cases hst : lb.status = .isPulling
      · refine .inr ⟨_, _, by simp only [exec, getHost, hk, hemp, hst]; rfl, .same, ?_, by simp⟩
        rintro _ _ ⟨⟩ ⟨⟩
        exact ⟨rfl, rfl, rfl, by rw [hk]; simp [hemp]⟩
      · exact .inl ⟨.getHostPulling, by simp only [exec, getHost, hk, hemp, hst]; rfl,
          lb, hk, hemp, hst⟩
    · have hne : lb.empty = false := by simpa using hemp
      obtain ⟨cnt, run, down, ret, host, heq, -, -, hans⟩ :=
        (LB.repInv_of_reachable (h.lb_reachable _ lb hk)).getHost cfg hne
      have hserve : lb.Served cfg now
          { lb with accessCnt := cnt, runningList := run, downList := down } :=
        LB.Served.refl.step .getHost trivial (fun _ => hne) (by rw [LB.exec, heq]; rfl)
      refine .inr ⟨_, _, by simp only [exec, getHost, hk, hne, heq]; rfl,
        .serve hk (repull_served hserve), ?_, by simp⟩
      rintro _ _ ⟨⟩ ⟨⟩
      exact ⟨rfl, rfl, rfl, by rw [hk]; simpa [hne] using hans⟩

/-- `report` goes through, or runs into the assertion on a success that has a time. -/
theorem report_result (h : s.Inv cfg)
    (req : ReportReq) :
    (∃ a, s.exec cfg now (.report req) = .error (.assertion a) ∧ s.Stuck (.report req) a) ∨
      ∃ s' out, s.exec cfg now (.report req) = .ok (s', out) ∧
        Result cfg now s (.report req) s' out := by
  by_cases hbad : req.tcost.isSome ∧ req.retcode = 0
  · obtain ⟨tcost, htc⟩ := Option.isSome_iff_exists.mp hbad.1
    exact .inl ⟨.reportRetcode, by simp [exec, report, errcnt, htc, hbad.2, bind, Except.bind],
      hbad⟩
  · -- otherwise the result counts `n` times
    obtain ⟨n, hn⟩ : ∃ n, errcnt req = .ok n := by
      rw [errcnt]
      split
      · exact ⟨_, rfl⟩
      · next tcost htc =>
        rw [if_neg fun h0 => hbad ⟨by simp [htc], h0⟩]
        exact ⟨_, rfl⟩
    right
    cases hk : s.routeMap.lookup (packKey req.modid req.cmdid) with
    | none =>
      exact ⟨_, _, by simp only [exec, report, hn, hk]; rfl, .same, by simp, by simp⟩
    | some lb =>
      -- a single result and a batch of failures are calls of different methods
      set lb₁ := if n = 1 then lb.report cfg now req.host.ip req.host.port req.retcode
        else lb.reportSomeErr cfg now req.host.ip req.host.port n with hlb₁
      have hserve : lb.Served cfg now lb₁ := by
        rw [hlb₁]
        split
        · exact LB.Served.refl.step (.report _ _ _) trivial (by simp) rfl
        · exact LB.Served.refl.step (.reportSomeErr _ _ _) trivial (by simp) rfl
      obtain ⟨lb₂, rept, heq, hserve, hnames⟩ := report2Rpter_served hserve (h.lb_reachable _ lb hk)
      refine ⟨s.put (packKey req.modid req.cmdid) lb₂, ⟨none, [], rept.toList⟩, ?_,
        .serve hk hserve, by simp,
        fun r hr => ⟨packKey req.modid req.cmdid, lb₂, by simp, hnames r hr⟩⟩
      simp only [exec, report, hn, hk, ← hlb₁, bind, Except.bind, heq]
      rfl

/-- `batchReport` always goes through. -/
theorem batchReport_result (h : s.Inv cfg) (req : CacheBatchRptReq) :
    ∃ s' out, s.exec cfg now (.batchReport req) = .ok (s', out) ∧
      Result cfg now s (.batchReport req) s' out := by
  cases hk : s.routeMap.lookup (packKey req.modid req.cmdid) with
  | none => exact ⟨_, _, by simp only [exec, batchReport, hk]; rfl, .same, by simp, by simp⟩
  | some lb =>
    obtain ⟨lb₂, rept, heq, hserve, hnames⟩ :=
      report2Rpter_served (batch_served .refl req.results) (h.lb_reachable _ lb hk)
    refine ⟨s.put (packKey req.modid req.cmdid) lb₂, ⟨none, [], rept.toList⟩, ?_,
      .serve hk hserve, by simp,
      fun r hr => ⟨packKey req.modid req.cmdid, lb₂, by simp, hnames r hr⟩⟩
    simp only [exec, batchReport, hk, bind, Except.bind, heq]
    rfl

/-- `getRoute` always goes through. -/
theorem getRoute_result (req : GetRouteReq) :
    ∃ s' out, s.exec cfg now (.getRoute req) = .ok (s', out) ∧
      Result cfg now s (.getRoute req) s' out := by
  cases hk : s.routeMap.lookup (packKey req.modid req.cmdid) with
  | none => exact ⟨_, _, by simp only [exec, getRoute, hk]; rfl, .create hk, by simp, by simp⟩
  | some lb =>
    exact ⟨_, _, by simp only [exec, getRoute, hk]; rfl, .serve hk (repull_served .refl), by simp,
      by simp⟩

/-- `cacheGetRoute` goes through, or runs into the same assertion as `getHost`. -/
theorem cacheGetRoute_result (req : CacheGetRouteReq) :
    (∃ a, s.exec cfg now (.cacheGetRoute req) = .error (.assertion a) ∧
        s.Stuck (.cacheGetRoute req) a) ∨
      ∃ s' out, s.exec cfg now (.cacheGetRoute req) = .ok (s', out) ∧
        Result cfg now s (.cacheGetRoute req) s' out := by
  cases hk : s.routeMap.lookup (packKey req.modid req.cmdid) with
  | none =>
    exact .inr ⟨_, _, by simp only [exec, cacheGetRoute, hk]; rfl, .create hk, by simp, by simp⟩
  | some lb =>
    by_cases hemp : lb.empty = true
    · by_cases hst : lb.status = .isPulling
      · exact .inr ⟨_, _, by simp only [exec, cacheGetRoute, hk, hemp, hst]; rfl, .same, by simp,
          by simp⟩
      · exact .inl ⟨.cacheGetRoutePulling, by simp only [exec, cacheGetRoute, hk, hemp, hst]; rfl,
          lb, hk, hemp, hst⟩
    · have hne : lb.empty = false := by simpa using hemp
      exact .inr ⟨_, _, by simp only [exec, cacheGetRoute, hk, hne]; rfl,
        .serve hk (repull_served .refl), by simp, by simp⟩

/-- A response with hosts for a module of the table. -/
theorem update_exec {rsp : GetRouteRsp} {lb lb' : LB}
    (hk : s.routeMap.lookup (packKey rsp.modid rsp.cmdid) = some lb) (hne : rsp.hosts ≠ [])
    (hup : lb.update cfg now rsp = .ok lb') :
    s.exec cfg now (.update rsp) =
      .ok (s.put (packKey rsp.modid rsp.cmdid) lb', ⟨none, [], []⟩) := by
  have hne' : rsp.hosts.isEmpty = false := by simpa using hne
  simp only [exec, update, hk, hne', hup, bind, Except.bind]
  rfl

/-- A response for a module of the table either deletes the module or updates it. -/
theorem update_cases {s' : RouteLB} {rsp : GetRouteRsp} {lb : LB} {out : Out}
    (hk : s.routeMap.lookup (packKey rsp.modid rsp.cmdid) = some lb)
    (hex : s.exec cfg now (.update rsp) = .ok (s', out)) :
    (rsp.hosts = [] ∧
        s' = { s with routeMap := s.routeMap.erase (packKey rsp.modid rsp.cmdid) }) ∨
      ∃ lb', lb.update cfg now rsp = .ok lb' ∧ s' = s.put (packKey rsp.modid rsp.cmdid) lb' := by
  by_cases hnil : rsp.hosts = []
  · left
    simp only [exec, update, hk, hnil] at hex
    exact ⟨hnil, (Prod.mk.inj (Except.ok.inj hex)).1.symm⟩
  · obtain ⟨lb', hup, -⟩ := LB.update_spec cfg now lb hnil
    rw [update_exec hk hnil hup] at hex
    exact .inr ⟨lb', hup, (Prod.mk.inj (Except.ok.inj hex)).1.symm⟩

/-- `update` always goes through: it calls `LB::update` only with a host listed. -/
theorem update_result (rsp : GetRouteRsp) :
    ∃ s' out, s.exec cfg now (.update rsp) = .ok (s', out) ∧
      Result cfg now s (.update rsp) s' out := by
  cases hk : s.routeMap.lookup (packKey rsp.modid rsp.cmdid) with
  | none => exact ⟨_, _, by simp only [exec, update, hk]; rfl, .same, by simp, by simp⟩
  | some lb =>
    by_cases hnil : rsp.hosts = []
    · exact ⟨_, _, by simp only [exec, update, hk, hnil]; rfl, .delete hnil, by simp, by simp⟩
    · obtain ⟨lb', heq, -⟩ := LB.update_spec cfg now lb hnil
      exact ⟨_, _, update_exec hk hnil heq, .update hk hnil heq, by simp, by simp⟩

/-- A call that is not stuck goes through: no list is empty where `front()` is taken, and no pointer
dangles. -/
theorem exec_result (h : s.Inv cfg) (now : ℤ) (op : Op) :
    (∃ a, s.exec cfg now op = .error (.assertion a) ∧ s.Stuck op a) ∨
      ∃ s' out, s.exec cfg now op = .ok (s', out) ∧ Result cfg now s op s' out := by
  cases op with
  | getHost req => exact getHost_result h req
  | report req => exact report_result h req
  | batchReport req => exact .inr (batchReport_result h req)
  | getRoute req => exact .inr (getRoute_result req)
  | cacheGetRoute req => exact cacheGetRoute_result req
  | update rsp => exact .inr (update_result rsp)
  | clearPulling => exact .inr ⟨_, _, rfl, .clearPulling, by simp, by simp⟩

end Calls

/-! ## Every run -/

/-- A new shard has no modules. -/
theorem inv_new (id : ℕ) : (new id).Inv cfg where
  lb_reachable := by simp [new]
  key_eq := by simp [new]

/-- A module that was created is at the start of its runs. -/
theorem new_reachable (self : ℕ) (modid cmdid : Int32) :
    (LB.system cfg).Reachable (LB.new self modid cmdid) :=
  .init ⟨self, modid, cmdid, rfl⟩

/-- Writing a reachable module back under its ids keeps the invariant. -/
theorem Inv.put {s : RouteLB} (h : s.Inv cfg) {key : UInt64} {lb : LB}
    (hr : (LB.system cfg).Reachable lb) (hkey : packKey lb.modid lb.cmdid = key) :
    (s.put key lb).Inv cfg := by
  constructor
  all_goals
    intro k lb' hk
    rw [put_lookup] at hk
    split at hk
  · exact Option.some.inj hk ▸ hr
  · exact h.lb_reachable k lb' hk
  · next heq => rw [heq, ← Option.some.inj hk, hkey]
  · exact h.key_eq k lb' hk

/-- Every module is marked by a call of its own. -/
theorem Inv.clearPulling {s : RouteLB} (h : s.Inv cfg) : s.clearPulling.Inv cfg := by
  constructor
  all_goals
    intro k lb hk
    rw [RouteLB.clearPulling, HashMap.lookup_mapVal, Option.map_eq_some_iff] at hk
    obtain ⟨lb₀, hk, rfl⟩ := hk
  · exact (h.lb_reachable k lb₀ hk).step (e := (0, .clearPulling)) ⟨by simp, _, rfl⟩
  · rw [LB.clearPulling]
    split <;> exact h.key_eq k lb₀ hk

/-- Every call keeps the invariant. -/
theorem Inv.effect {s s' : RouteLB} {op : Op} (h : s.Inv cfg) (he : Effect cfg now s op s') :
    s'.Inv cfg := by
  cases he with
  | same => exact h
  | @serve _ key lb lb' hk hserve =>
    have hr := h.lb_reachable key lb hk
    have hroute := hserve.sameRoute hr
    exact h.put (hserve.reachable hr) (by rw [hroute.modid_eq, hroute.cmdid_eq, h.key_eq key lb hk])
  | @create _ modid cmdid hk =>
    -- the counter of objects goes up too, which the invariant does not look at
    have hput := h.put (new_reachable s.nextLb modid cmdid) rfl
    exact ⟨hput.lb_reachable, hput.key_eq⟩
  | @update rsp lb lb' hk hne hup =>
    obtain ⟨-, hspec⟩ := LB.updateSpec_of_ok _ _ hup
    refine h.put ((h.lb_reachable _ lb hk).step (e := (now, .update rsp))
      ⟨by simp, ⟨none, none⟩, by rw [LB.exec, hup]; rfl⟩) ?_
    rw [hspec.modid_eq, hspec.cmdid_eq, h.key_eq _ lb hk]
  | delete hnil =>
    -- what is left in the table was there before
    exact ⟨fun k lb hk => h.lb_reachable k lb (HashMap.lookup_of_erase hk).2,
      fun k lb hk => h.key_eq k lb (HashMap.lookup_of_erase hk).2⟩
  | clearPulling => exact h.clearPulling

/-- A call that went through, as `Result` describes it. -/
theorem Inv.result {s s' : RouteLB} {op : Op} {out : Out} (h : s.Inv cfg)
    (hex : s.exec cfg now op = .ok (s', out)) : Result cfg now s op s' out := by
  rcases exec_result h now op with ⟨a, heq, -⟩ | ⟨s₁, out₁, heq, hres⟩
  · rw [hex] at heq
    cases heq
  · rw [hex] at heq
    obtain ⟨rfl, rfl⟩ := Prod.mk.inj (Except.ok.inj heq)
    exact hres

/-- The invariant holds in every state of every run. -/
theorem inv_of_reachable {s : RouteLB} (h : (system cfg).Reachable s) : s.Inv cfg := by
  refine h.invariant ?_ ?_
  · rintro _ ⟨id, rfl⟩
    exact inv_new id
  · rintro s ⟨now, op⟩ s' - ih ⟨out, hex⟩
    exact ih.effect (ih.result hex).effect

end RouteLB

end Elb
