import Elb.Api.Shard
import Elb.Lbagent.RouteLbInvariant

/-!
# Pulls under way

Reference: `LB::pull` and `RouteLB::clearPulling` in `lbagent/src/RouteLb.cc`, `recvRoute`,
`newPullReq` and `whenConnected` in `lbagent/src/DssClient.cc`, the handlers in
`lbagent/src/AgentServer.cc`.

Three UDP threads put requests for routes on `pullQueue`, and one thread talks to dnsserver: it
sends them, takes in routes, and clears the marks of lost pulls on every connection. `LB::pull` puts
the request on the queue before it marks the module, so a call that pulls is two steps here, between
which the mutex of its shard is held. `PullUnderWay` says that a mark is never left behind.
-/

namespace Elb

open Transition

variable {R : Type} [RateArith R] {cfg : LbConfigure R} {now : ℤ}

/-- A `RouteLB` with its mutex. While a call is between the two statements of `LB::pull`, nobody
else sees the table, and `commit` is the table that the call will leave. -/
structure LockedLB where
  table : RouteLB
  commit : Option RouteLB

/-- The three shards, the queue of pulls, and the connection to dnsserver with what is on the wire
in each direction. `cleared` counts the shards that the latest `whenConnected` has cleared. -/
structure DssAgent where
  routeLB : Fin 3 → LockedLB
  pullQueue : List GetRouteReq
  up : Bool
  cleared : ℕ
  reqs : List GetRouteReq
  rsps : List GetRouteRsp

/-- The module whose route the request is about; a report is not about a route. -/
def AgentReq.routeOf : AgentReq → Option (Int32 × Int32)
  | .getHost req => some (req.modid, req.cmdid)
  | .getRouteByTool req => some (req.modid, req.cmdid)
  | .cacheGetRoute req => some (req.modid, req.cmdid)
  | .report _ => none
  | .cacheBatchRpt _ => none

namespace DssAgent

/-- Three new shards that are not connected. -/
def new : DssAgent := ⟨fun i => ⟨.new (i + 1), none⟩, [], false, 3, [], []⟩

/-- Replace a shard. -/
def set (s : DssAgent) (i : Fin 3) (lb : LockedLB) : DssAgent :=
  { s with routeLB := Function.update s.routeLB i lb }

/-- What happens next: a UDP thread serves a datagram, or marks the module that it has asked for;
the thread of the connection drains `pullQueue`, takes in a route, or clears the next shard;
dnsserver answers or pushes; the connection is lost or made. -/
inductive Event
  | serve (i : Fin 3) (now : ℤ) (req : AgentReq)
  | setPulling (i : Fin 3)
  | newPullReq
  | recvRoute (now : ℤ)
  | clearPulling
  | answer (hosts : List HostAddr)
  | push (rsp : GetRouteRsp)
  | lose
  | connect

/-- One step, if it can be taken: nobody waits for the mutex of a shard that is in a call, and the
thread of the connection does nothing else until `whenConnected` has cleared all shards. -/
def exec (cfg : LbConfigure R) (s : DssAgent) : Event → Option DssAgent
  | .serve i now req =>
    match (s.routeLB i).commit, (s.routeLB i).table.exec cfg now (.ofReq req) with
    | none, .ok (table, out) =>
      if out.pulls.isEmpty then
        some (s.set i ⟨table, none⟩)
      else
        some { s.set i ⟨(s.routeLB i).table, some table⟩ with
          pullQueue := s.pullQueue ++ out.pulls }
    | _, _ => none
  | .setPulling i => (s.routeLB i).commit.map fun table => s.set i ⟨table, none⟩
  | .newPullReq =>
    if s.cleared = 3 then
      -- `send_data` drops what is sent on a closed connection
      some { s with pullQueue := [], reqs := if s.up then s.reqs ++ s.pullQueue else s.reqs }
    else none
  | .recvRoute now =>
    match s.rsps with
    | [] => none
    | rsp :: rsps => do
      let i ← Shard.slot (Shard.recvRouteIndex rsp.modid rsp.cmdid).toInt
      if s.cleared = 3 ∧ (s.routeLB i).commit.isNone then
        let table ← ((s.routeLB i).table.update cfg now rsp).toOption
        return { s.set i ⟨table, none⟩ with rsps := rsps }
      else none
  | .clearPulling =>
    if h : s.cleared < 3 then
      let i : Fin 3 := ⟨s.cleared, h⟩
      if (s.routeLB i).commit.isNone then
        some { s.set i ⟨(s.routeLB i).table.clearPulling, none⟩ with cleared := s.cleared + 1 }
      else none
    else none
  | .answer hosts =>
    match s.reqs with
    | [] => none
    | req :: reqs => some { s with reqs := reqs, rsps := s.rsps ++ [⟨req.modid, req.cmdid, hosts⟩] }
  | .push rsp => if s.up then some { s with rsps := s.rsps ++ [rsp] } else none
  | .lose => some { s with up := false, reqs := [], rsps := [] }
  | .connect =>
    if s.up = false ∧ s.cleared = 3 then some { s with up := true, cleared := 0 } else none

/-- Runs of the agent and its connection, the threads in any order. -/
def system (cfg : LbConfigure R) : System DssAgent Event where
  init s := s = new
  step s e s' := s.exec cfg e = some s'

/-- A request for the route of the module, or the route, is on its way. -/
def InFlight (s : DssAgent) (modid cmdid : Int32) : Prop :=
  ⟨modid, cmdid⟩ ∈ s.pullQueue ∨ ⟨modid, cmdid⟩ ∈ s.reqs ∨
    ∃ hosts, ⟨modid, cmdid, hosts⟩ ∈ s.rsps

/-- The tables of a shard: the one that there is, and the one that a call is about to leave. -/
def Table (s : DssAgent) (i : Fin 3) (table : RouteLB) : Prop :=
  table = (s.routeLB i).table ∨ (s.routeLB i).commit = some table

/-- While the connection is up and `whenConnected` has finished, every module that is marked as
pulling, or is about to be, has its request or its route on the way. -/
def PullUnderWay (s : DssAgent) : Prop :=
  s.up = true → s.cleared = 3 → ∀ i table, s.Table i table → ∀ key lb,
    table.routeMap.lookup key = some lb → lb.status = .isPulling → s.InFlight lb.modid lb.cmdid

/-- A request for a route comes to the shard that `recvRoute` will hand the route to. -/
def AsksHome (_ : DssAgent) : Event → Prop
  | .serve i _ req => ∀ m ∈ req.routeOf, (Shard.recvRouteIndex m.1 m.2).toInt = i
  | _ => True

instance (s : DssAgent) : ∀ e, Decidable (s.AsksHome e)
  | .serve i _ req =>
    show Decidable (∀ m ∈ req.routeOf, (Shard.recvRouteIndex m.1 m.2).toInt = i) from
      Option.decidableForallMem req.routeOf
  | .setPulling _ => inferInstanceAs (Decidable True)
  | .newPullReq => inferInstanceAs (Decidable True)
  | .recvRoute _ => inferInstanceAs (Decidable True)
  | .clearPulling => inferInstanceAs (Decidable True)
  | .answer _ => inferInstanceAs (Decidable True)
  | .push _ => inferInstanceAs (Decidable True)
  | .lose => inferInstanceAs (Decidable True)
  | .connect => inferInstanceAs (Decidable True)

end DssAgent

/-! ## What a call pulls -/

namespace RouteLB

variable {s s' : RouteLB}

/-- What serving a datagram does to the table and which routes it asks for. -/
inductive Pulls (cfg : LbConfigure R) (now : ℤ) (s : RouteLB) (req : AgentReq) :
    RouteLB → List GetRouteReq → Prop
  | same : Pulls cfg now s req s []
  | serve {key : UInt64} {lb lb' : LB} (hk : s.routeMap.lookup key = some lb)
      (hst : lb'.status = lb.status) : Pulls cfg now s req (s.put key lb') []
  | repull {key : UInt64} {lb lb' : LB} (hk : s.routeMap.lookup key = some lb)
      (hst : lb'.status = lb.status) :
      Pulls cfg now s req (s.put key (repull cfg now lb').1) (repull cfg now lb').2
  | create {modid cmdid : Int32} (hreq : req.routeOf = some (modid, cmdid))
      (hk : s.routeMap.lookup (packKey modid cmdid) = none) :
      Pulls cfg now s req (s.create modid cmdid).1 (s.create modid cmdid).2

/-- A call result leaves the status alone. -/
theorem serve_once {lb lb' : LB} {out : LB.Out} (op : LB.Op)
    (hr : (LB.system cfg).Reachable lb) (hop : op.Serving) (hne : op ≠ .getHost)
    (hpull : op ≠ .pull) (hex : lb.exec cfg now op = .ok (lb', out)) :
    lb.Served cfg now lb' ∧ lb'.status = lb.status := by
  have hframe := (LB.repInv_of_reachable hr).exec_frame (fun heq => absurd heq hne) hex
  refine ⟨.step .refl op hop (fun heq => absurd heq hne) hex, hframe.status_eq ?_ hpull ?_⟩
  · rintro rsp rfl
    exact hop
  · rintro rfl
    exact hop

/-- The report that closes `report` and `batchReport` leaves the status alone. -/
theorem report2Rpter_ok {lb lb' : LB} (hr : (LB.system cfg).Reachable lb)
    (h : lb.Served cfg now lb') (hst : lb'.status = lb.status) : ∃ lb'' rept,
      lb'.report2Rpter cfg now = .ok (lb'', rept) ∧ lb''.status = lb.status := by
  obtain ⟨rpt, rept, heq, -⟩ := (LB.repInv_of_reachable (h.reachable hr)).report2Rpter cfg now
  exact ⟨_, rept, heq, hst⟩

/-- The loop of `batchReport` leaves the status alone. -/
theorem batch_status (lb : LB) (results : List HostBatchCallRes) :
    (results.foldl (fun lb cr => lb.reportSomeSucc cfg now cr.ip cr.port cr.succCnt) lb).status =
      lb.status := by
  -- on the results, each of which is written to one record
  induction results generalizing lb with
  | nil => rfl
  | cons cr results ih =>
    rw [List.foldl_cons, ih]
    cases hk : lb.hostMap.lookup (packKey cr.ip cr.port) with
    | none => rw [LB.reportSomeSucc_of_none cfg now hk]
    | some hi => exact (LB.reportSomeSucc_writes cfg now hk cr.succCnt).sameMeta.status_eq

section Calls

variable {out : Out}

/-- `RouteLB::getHost`. -/
theorem Inv.pulls_getHost (h : s.Inv cfg) {req : GetHostReq}
    (hex : s.exec cfg now (.getHost req) = .ok (s', out)) :
    Pulls cfg now s (.getHost req) s' out.pulls := by
  simp only [exec, getHost] at hex
  cases hk : s.routeMap.lookup (packKey req.modid req.cmdid) with
  | none =>
    rw [hk] at hex
    obtain ⟨rfl, rfl⟩ := Prod.mk.inj (Except.ok.inj hex)
    exact .create rfl hk
  | some lb =>
    rw [hk] at hex
    dsimp only at hex
    split at hex
    · split at hex
      · obtain ⟨rfl, rfl⟩ := Prod.mk.inj (Except.ok.inj hex)
        exact .same
      · cases hex
    · next hemp =>
      obtain ⟨cnt, run, down, ret, host, heq, -⟩ :=
        (LB.repInv_of_reachable (h.lb_reachable _ lb hk)).getHost cfg (by simpa using hemp)
      rw [heq] at hex
      obtain ⟨rfl, rfl⟩ := Prod.mk.inj (Except.ok.inj hex)
      exact .repull hk rfl

/-- `RouteLB::report`. -/
theorem Inv.pulls_report (h : s.Inv cfg) {req : ReportReq}
    (hex : s.exec cfg now (.report req) = .ok (s', out)) :
    Pulls cfg now s (.report req) s' out.pulls := by
  simp only [exec, report] at hex
  cases hn : errcnt req with
  | error f =>
    rw [hn] at hex
    cases hex
  | ok n =>
    rw [hn] at hex
    simp only [bind, Except.bind] at hex
    cases hk : s.routeMap.lookup (packKey req.modid req.cmdid) with
    | none =>
      rw [hk] at hex
      obtain ⟨rfl, rfl⟩ := Prod.mk.inj (Except.ok.inj hex)
      exact .same
    | some lb =>
      rw [hk] at hex
      dsimp only at hex
      have hr := h.lb_reachable _ lb hk
      -- a single result and a batch of failures are calls of different methods
      set lb₁ := if n = 1 then lb.report cfg now req.host.ip req.host.port req.retcode
        else lb.reportSomeErr cfg now req.host.ip req.host.port n with hlb₁
      have hserve : lb.Served cfg now lb₁ ∧ lb₁.status = lb.status := by
        rw [hlb₁]
        split
        · exact serve_once (.report _ _ _) hr trivial (by simp) (by simp) rfl
        · exact serve_once (.reportSomeErr _ _ _) hr trivial (by simp) (by simp) rfl
      obtain ⟨lb₂, rept, heq, hst₂⟩ := report2Rpter_ok hr hserve.1 hserve.2
      rw [heq] at hex
      obtain ⟨rfl, rfl⟩ := Prod.mk.inj (Except.ok.inj hex)
      exact .serve hk hst₂

/-- `RouteLB::getRoute`. -/
theorem pulls_getRoute {req : GetRouteReq}
    (hex : s.exec cfg now (.getRoute req) = .ok (s', out)) :
    Pulls cfg now s (.getRouteByTool req) s' out.pulls := by
  simp only [exec, getRoute] at hex
  cases hk : s.routeMap.lookup (packKey req.modid req.cmdid) with
  | none =>
    rw [hk] at hex
    obtain ⟨rfl, rfl⟩ := Prod.mk.inj (Except.ok.inj hex)
    exact .create rfl hk
  | some lb =>
    rw [hk] at hex
    obtain ⟨rfl, rfl⟩ := Prod.mk.inj (Except.ok.inj hex)
    exact .repull hk rfl

/-- `RouteLB::cacheGetRoute`. -/
theorem pulls_cacheGetRoute {req : CacheGetRouteReq}
    (hex : s.exec cfg now (.cacheGetRoute req) = .ok (s', out)) :
    Pulls cfg now s (.cacheGetRoute req) s' out.pulls := by
  simp only [exec, cacheGetRoute] at hex
  cases hk : s.routeMap.lookup (packKey req.modid req.cmdid) with
  | none =>
    rw [hk] at hex
    obtain ⟨rfl, rfl⟩ := Prod.mk.inj (Except.ok.inj hex)
    exact .create rfl hk
  | some lb =>
    rw [hk] at hex
    dsimp only at hex
    split at hex
    · split at hex
      · obtain ⟨rfl, rfl⟩ := Prod.mk.inj (Except.ok.inj hex)
        exact .same
      · cases hex
    · obtain ⟨rfl, rfl⟩ := Prod.mk.inj (Except.ok.inj hex)
      exact .repull hk rfl

/-- `RouteLB::batchReport`. -/
theorem Inv.pulls_batchReport (h : s.Inv cfg) {req : CacheBatchRptReq}
    (hex : s.exec cfg now (.batchReport req) = .ok (s', out)) :
    Pulls cfg now s (.cacheBatchRpt req) s' out.pulls := by
  simp only [exec, batchReport] at hex
  cases hk : s.routeMap.lookup (packKey req.modid req.cmdid) with
  | none =>
    rw [hk] at hex
    obtain ⟨rfl, rfl⟩ := Prod.mk.inj (Except.ok.inj hex)
    exact .same
  | some lb =>
    rw [hk] at hex
    have hserve : lb.Served cfg now _ := batch_served .refl req.results
    obtain ⟨lb₂, rept, heq, hst⟩ :=
      report2Rpter_ok (h.lb_reachable _ lb hk) hserve (batch_status lb req.results)
    simp only [heq, bind, Except.bind] at hex
    obtain ⟨rfl, rfl⟩ := Prod.mk.inj (Except.ok.inj hex)
    exact .serve hk hst

/-- What a datagram pulls. -/
theorem Inv.pulls {req : AgentReq} (h : s.Inv cfg)
    (hex : s.exec cfg now (.ofReq req) = .ok (s', out)) : Pulls cfg now s req s' out.pulls := by
  cases req with
  | getHost req => exact h.pulls_getHost hex
  | report req => exact h.pulls_report hex
  | getRouteByTool req => exact pulls_getRoute hex
  | cacheGetRoute req => exact pulls_cacheGetRoute hex
  | cacheBatchRpt req => exact h.pulls_batchReport hex

end Calls

/-- A module that is marked as pulling was so before, or its route has just been asked for. -/
theorem Pulls.pulling {req : AgentReq} {pulls : List GetRouteReq} (h : Pulls cfg now s req s' pulls)
    (hinv' : s'.Inv cfg) {modid cmdid : Int32} {lb : LB}
    (hk : s'.routeMap.lookup (packKey modid cmdid) = some lb) (hp : lb.status = .isPulling) :
    (∃ lb₀, s.routeMap.lookup (packKey modid cmdid) = some lb₀ ∧ lb₀.status = .isPulling) ∨
      ⟨modid, cmdid⟩ ∈ pulls := by
  have hids := packKey_inj (hinv'.key_eq _ lb hk)
  cases h with
  | same => exact .inl ⟨lb, hk, hp⟩
  | @serve key lb₀ lb' hk₀ hst =>
    rw [put_lookup] at hk
    split at hk
    · next heq =>
      obtain rfl := Option.some.inj hk
      exact .inl ⟨lb₀, heq ▸ hk₀, hst ▸ hp⟩
    · exact .inl ⟨lb, hk, hp⟩
  | @repull key lb₀ lb' hk₀ hst =>
    rw [put_lookup] at hk
    split at hk
    · next heq =>
      obtain rfl := Option.some.inj hk
      -- `repull` marks the module and asks for it together
      rw [RouteLB.repull] at hp hids ⊢
      split at hp
      · next hdue =>
        rw [if_pos hdue] at hids ⊢
        exact .inr (List.mem_singleton.mpr (by rw [← hids.1, ← hids.2]; rfl))
      · exact .inl ⟨lb₀, heq ▸ hk₀, hst ▸ hp⟩
    · exact .inl ⟨lb, hk, hp⟩
  | @create m k hreq hk₀ =>
    rw [create_lookup] at hk
    split at hk
    · next heq =>
      obtain ⟨rfl, rfl⟩ := packKey_inj heq
      exact .inr (List.mem_singleton_self _)
    · exact .inl ⟨lb, hk, hp⟩

omit [RateArith R] in
/-- A module of the table was there before, or the datagram is about its route. -/
theorem Pulls.mem {req : AgentReq} {pulls : List GetRouteReq} (h : Pulls cfg now s req s' pulls)
    {modid cmdid : Int32} (hmem : packKey modid cmdid ∈ s'.routeMap) :
    packKey modid cmdid ∈ s.routeMap ∨ req.routeOf = some (modid, cmdid) := by
  cases h with
  | same => exact .inl hmem
  | serve hk hst =>
    rcases (AList.mem_insert _).mp hmem with heq | hmem
    · exact .inl (heq ▸ HashMap.mem_iff.mpr ⟨_, hk⟩)
    · exact .inl hmem
  | repull hk hst =>
    rcases (AList.mem_insert _).mp hmem with heq | hmem
    · exact .inl (heq ▸ HashMap.mem_iff.mpr ⟨_, hk⟩)
    · exact .inl hmem
  | create hreq hk =>
    rcases (AList.mem_insert _).mp hmem with heq | hmem
    · obtain ⟨rfl, rfl⟩ := packKey_inj heq
      exact .inr hreq
    · exact .inl hmem

/-- A route that is taken in leaves its module without the mark, and the other modules as they were.
-/
theorem Inv.update_marks {rsp : GetRouteRsp} (h : s.Inv cfg) (hup : s.update cfg now rsp = .ok s') :
    s'.Inv cfg ∧ (∀ key, key ∈ s'.routeMap → key ∈ s.routeMap) ∧
      ∀ key lb, s'.routeMap.lookup key = some lb → lb.status = .isPulling →
        key ≠ packKey rsp.modid rsp.cmdid ∧ s.routeMap.lookup key = some lb := by
  have hex : s.exec cfg now (.update rsp) = .ok (s', ⟨none, [], []⟩) := by
    rw [exec, hup]
    rfl
  refine ⟨h.effect (h.result hex).effect, ?_⟩
  cases hk : s.routeMap.lookup (packKey rsp.modid rsp.cmdid) with
  | none =>
    rw [update, hk] at hup
    obtain rfl := Except.ok.inj hup
    refine ⟨fun _ hmem => hmem, fun key lb hk' _ => ⟨?_, hk'⟩⟩
    rintro rfl
    cases hk.symm.trans hk'
  | some lb₀ =>
    rcases update_cases hk hex with ⟨-, rfl⟩ | ⟨lb', hlb', rfl⟩
    · exact ⟨fun key hmem => (AList.mem_erase.mp hmem).2,
        fun key lb hk' _ => HashMap.lookup_of_erase hk'⟩
    · refine ⟨fun key hmem => ?_, fun key lb hk' hp => ?_⟩
      · rcases (AList.mem_insert _).mp hmem with rfl | hmem
        · exact HashMap.mem_iff.mpr ⟨lb₀, hk⟩
        · exact hmem
      · rw [put_lookup] at hk'
        split at hk'
        · obtain rfl := Option.some.inj hk'
          cases (LB.updateSpec_of_ok _ _ hlb').2.status_eq.symm.trans hp
        · next hne => exact ⟨hne, hk'⟩

end RouteLB

/-! ## Every step -/

namespace DssAgent

variable {s s' : DssAgent}

/-- A table of a shard holds modules of this shard only; the route of a module that is marked as
pulling is on its way, or the mark is to be cleared on the next connection, or on this one. -/
structure Fits (cfg : LbConfigure R) (s : DssAgent) (i : Fin 3) (table : RouteLB) : Prop where
  inv : table.Inv cfg
  home : ∀ modid cmdid, packKey modid cmdid ∈ table.routeMap →
    (Shard.recvRouteIndex modid cmdid).toInt = i
  pulled : ∀ modid cmdid lb, table.routeMap.lookup (packKey modid cmdid) = some lb →
    lb.status = .isPulling → s.InFlight modid cmdid ∨ s.up = false ∨ s.cleared ≤ i

/-- The invariant: all tables fit. -/
def Inv (cfg : LbConfigure R) (s : DssAgent) : Prop :=
  ∀ i table, s.Table i table → s.Fits cfg i table

/-- A table that fits does so as long as the routes of its modules stay on the way. -/
theorem Fits.mono {i : Fin 3} {table : RouteLB} (h : s.Fits cfg i table)
    (hmono : ∀ modid cmdid, (Shard.recvRouteIndex modid cmdid).toInt = i →
      s.InFlight modid cmdid ∨ s.up = false ∨ s.cleared ≤ i →
        s'.InFlight modid cmdid ∨ s'.up = false ∨ s'.cleared ≤ i) : s'.Fits cfg i table where
  inv := h.inv
  home := h.home
  pulled modid cmdid lb hk hp := hmono modid cmdid
    (h.home modid cmdid (HashMap.mem_iff.mpr ⟨lb, hk⟩)) (h.pulled modid cmdid lb hk hp)

/-- The tables after one shard is replaced. -/
theorem table_set {i : Fin 3} {lb : LockedLB} {j : Fin 3} {table : RouteLB} :
    (s.set i lb).Table j table ↔
      if j = i then table = lb.table ∨ lb.commit = some table else s.Table j table := by
  have hset : (s.set i lb).routeLB j = if j = i then lb else s.routeLB j :=
    Function.update_apply s.routeLB i lb j
  rw [Table, hset]
  split
  · exact .rfl
  · exact .rfl

/-- What each event does. -/
inductive Effect (cfg : LbConfigure R) (s : DssAgent) : Event → DssAgent → Prop
  | serve {i : Fin 3} {now : ℤ} {req : AgentReq} {table : RouteLB} {out : RouteLB.Out}
      (h : (s.routeLB i).table.exec cfg now (.ofReq req) = .ok (table, out))
      (hnil : out.pulls = []) : Effect cfg s (.serve i now req) (s.set i ⟨table, none⟩)
  | pull {i : Fin 3} {now : ℤ} {req : AgentReq} {table : RouteLB} {out : RouteLB.Out}
      (h : (s.routeLB i).table.exec cfg now (.ofReq req) = .ok (table, out)) :
      Effect cfg s (.serve i now req)
        { s.set i ⟨(s.routeLB i).table, some table⟩ with pullQueue := s.pullQueue ++ out.pulls }
  | setPulling {i : Fin 3} {table : RouteLB} (h : (s.routeLB i).commit = some table) :
      Effect cfg s (.setPulling i) (s.set i ⟨table, none⟩)
  | newPullReq :
      Effect cfg s .newPullReq
        { s with pullQueue := [], reqs := if s.up then s.reqs ++ s.pullQueue else s.reqs }
  | recvRoute {now : ℤ} {rsp : GetRouteRsp} {rsps : List GetRouteRsp} {i : Fin 3} {table : RouteLB}
      (hrsps : s.rsps = rsp :: rsps)
      (hi : (Shard.recvRouteIndex rsp.modid rsp.cmdid).toInt = i)
      (h : (s.routeLB i).table.update cfg now rsp = .ok table) :
      Effect cfg s (.recvRoute now) { s.set i ⟨table, none⟩ with rsps := rsps }
  | clearPulling {i : Fin 3} (hi : (i : ℕ) = s.cleared) :
      Effect cfg s .clearPulling
        { s.set i ⟨(s.routeLB i).table.clearPulling, none⟩ with cleared := s.cleared + 1 }
  | answer {hosts : List HostAddr} {req : GetRouteReq} {reqs : List GetRouteReq}
      (hreqs : s.reqs = req :: reqs) :
      Effect cfg s (.answer hosts)
        { s with reqs := reqs, rsps := s.rsps ++ [⟨req.modid, req.cmdid, hosts⟩] }
  | push {rsp : GetRouteRsp} : Effect cfg s (.push rsp) { s with rsps := s.rsps ++ [rsp] }
  | lose : Effect cfg s .lose { s with up := false, reqs := [], rsps := [] }
  | connect : Effect cfg s .connect { s with up := true, cleared := 0 }

/-- An event has one of these effects. -/
theorem effect_of_exec {e : Event} (hex : s.exec cfg e = some s') : Effect cfg s e s' := by
  cases e with
  | serve i now req =>
    simp only [exec] at hex
    split at hex
    · next table out hcommit htable =>
      split at hex
      · next hnil =>
        obtain rfl := Option.some.inj hex
        exact .serve htable (List.isEmpty_iff.mp hnil)
      · obtain rfl := Option.some.inj hex
        exact .pull htable
    · cases hex
  | setPulling i =>
    obtain ⟨table, hcommit, rfl⟩ := Option.map_eq_some_iff.mp hex
    exact .setPulling hcommit
  | newPullReq =>
    simp only [exec] at hex
    split at hex
    · obtain rfl := Option.some.inj hex
      exact .newPullReq
    · cases hex
  | recvRoute now =>
    simp only [exec] at hex
    split at hex
    · cases hex
    · next rsp rsps hrsps =>
      obtain ⟨i, hi, hex⟩ := Option.bind_eq_some_iff.mp hex
      split at hex
      · obtain ⟨table, htable, hex⟩ := Option.bind_eq_some_iff.mp hex
        obtain rfl := Option.some.inj hex
        cases hup : (s.routeLB i).table.update cfg now rsp with
        | error f =>
          rw [hup] at htable
          cases htable
        | ok table' =>
          rw [hup] at htable
          obtain rfl : table' = table := Option.some.inj htable
          exact .recvRoute hrsps (Shard.toInt_of_slot hi) hup
      · cases hex
  | clearPulling =>
    simp only [exec] at hex
    split at hex
    · split at hex
      · obtain rfl := Option.some.inj hex
        exact .clearPulling rfl
      · cases hex
    · cases hex
  | answer hosts =>
    simp only [exec] at hex
    split at hex
    · cases hex
    · next req reqs hreqs =>
      obtain rfl := Option.some.inj hex
      exact .answer hreqs
  | push rsp =>
    simp only [exec] at hex
    split at hex
    · obtain rfl := Option.some.inj hex
      exact .push
    · cases hex
  | lose =>
    obtain rfl := Option.some.inj hex
    exact .lose
  | connect =>
    simp only [exec] at hex
    split at hex
    · obtain rfl := Option.some.inj hex
      exact .connect
    · cases hex

/-- A table that was there before, or that a call leaves of the shard's. A route comes to the shard
that `recvRoute` hands it to. -/
def TableAfter (cfg : LbConfigure R) (s : DssAgent) (i : Fin 3) (table : RouteLB) : Prop :=
  s.Table i table ∨ ∃ now op out, (s.routeLB i).table.exec cfg now op = .ok (table, out) ∧
    ∀ rsp, op = .update rsp → (Shard.recvRouteIndex rsp.modid rsp.cmdid).toInt = i

/-- The tables after one shard is replaced, if those of this shard come from a call. -/
theorem TableAfter.of_set {i : Fin 3} {own : RouteLB} {commit : Option RouteLB}
    (hset : s'.routeLB = (s.set i ⟨own, commit⟩).routeLB) (hown : s.TableAfter cfg i own)
    (hcommit : ∀ table ∈ commit, s.TableAfter cfg i table) {j : Fin 3} {table : RouteLB}
    (ht : s'.Table j table) : s.TableAfter cfg j table := by
  have ht' : (s.set i ⟨own, commit⟩).Table j table := by rwa [Table, ← hset]
  rw [table_set] at ht'
  split at ht'
  · next heq =>
    subst heq
    rcases ht' with rfl | ht'
    · exact hown
    · exact hcommit table ht'
  · exact .inl ht'

/-- A datagram is no route. -/
theorem TableAfter.of_req {i : Fin 3} {req : AgentReq} {table : RouteLB} {out : RouteLB.Out}
    (h : (s.routeLB i).table.exec cfg now (.ofReq req) = .ok (table, out)) :
    s.TableAfter cfg i table := by
  refine .inr ⟨now, .ofReq req, out, h, fun rsp heq => ?_⟩
  cases req <;> cases heq

/-- What a step does to the tables. -/
theorem Effect.tableAfter {e : Event} (h : Effect cfg s e s') {i : Fin 3} {table : RouteLB}
    (ht : s'.Table i table) : s.TableAfter cfg i table := by
  cases h with
  | serve h _ => exact .of_set rfl (.of_req h) (by simp) ht
  | pull h =>
    refine .of_set rfl (.inl (.inl rfl)) ?_ ht
    rintro _ ⟨⟩
    exact .of_req h
  | setPulling h => exact .of_set rfl (.inl (.inr h)) (by simp) ht
  | @recvRoute now rsp rsps j table' hrsps hj h =>
    refine .of_set rfl (.inr ⟨now, .update rsp, ⟨none, [], []⟩, ?_, ?_⟩) (by simp) ht
    · rw [RouteLB.exec, h]
      rfl
    · rintro _ ⟨⟩
      exact hj
  | clearPulling hj =>
    refine .of_set rfl (.inr ⟨0, .clearPulling, _, rfl, ?_⟩) (by simp) ht
    rintro _ ⟨⟩
  | newPullReq => exact .inl ht
  | answer _ => exact .inl ht
  | push => exact .inl ht
  | lose => exact .inl ht
  | connect => exact .inl ht

/-- One shard is replaced, and the routes of the modules stay on the way. -/
theorem Inv.set (h : s.Inv cfg) {i : Fin 3} {lb : LockedLB}
    (htable : ∀ j table, s'.Table j table ↔ (s.set i lb).Table j table)
    (hmono : ∀ j ≠ i, ∀ modid cmdid, (Shard.recvRouteIndex modid cmdid).toInt = j →
      s.InFlight modid cmdid ∨ s.up = false ∨ s.cleared ≤ j →
        s'.InFlight modid cmdid ∨ s'.up = false ∨ s'.cleared ≤ j)
    (hfits : s'.Fits cfg i lb.table) (hcommit : ∀ table ∈ lb.commit, s'.Fits cfg i table) :
    s'.Inv cfg := by
  intro j table ht
  rw [htable, table_set] at ht
  split at ht
  · next heq =>
    subst heq
    rcases ht with rfl | ht
    · exact hfits
    · exact hcommit table ht
  · next hne => exact (h j table ht).mono (hmono j hne)

/-- The table that a datagram leaves, once its pulls are on the queue. -/
theorem Fits.serve {i : Fin 3} {req : AgentReq} {table : RouteLB} {out : RouteLB.Out}
    (h : s.Fits cfg i (s.routeLB i).table) (hc : s.AsksHome (.serve i now req))
    (hex : (s.routeLB i).table.exec cfg now (.ofReq req) = .ok (table, out))
    (hmono : ∀ modid cmdid, s.InFlight modid cmdid ∨ s.up = false ∨ s.cleared ≤ i →
      s'.InFlight modid cmdid ∨ s'.up = false ∨ s'.cleared ≤ i)
    (hqueue : ∀ pull ∈ out.pulls, pull ∈ s'.pullQueue) : s'.Fits cfg i table := by
  have hpulls := h.inv.pulls hex
  have hinv' := h.inv.effect (h.inv.result hex).effect
  refine ⟨hinv', fun modid cmdid hmem => ?_, fun modid cmdid lb hk hp => ?_⟩
  · rcases hpulls.mem hmem with hmem | hreq
    · exact h.home modid cmdid hmem
    · exact hc (modid, cmdid) hreq
  · rcases hpulls.pulling hinv' hk hp with ⟨lb₀, hk₀, hp₀⟩ | hmem
    · exact hmono modid cmdid (h.pulled modid cmdid lb₀ hk₀ hp₀)
    · exact .inl (.inl (hqueue _ hmem))

/-- A UDP thread serves a datagram and asks for a route: the pulls go on the queue. -/
theorem Inv.pull (h : s.Inv cfg) {i : Fin 3} {req : AgentReq} {table : RouteLB} {out : RouteLB.Out}
    (hc : s.AsksHome (.serve i now req))
    (hex : (s.routeLB i).table.exec cfg now (.ofReq req) = .ok (table, out)) :
    Inv cfg { s.set i ⟨(s.routeLB i).table, some table⟩ with
      pullQueue := s.pullQueue ++ out.pulls } := by
  have hfits := h i (s.routeLB i).table (.inl rfl)
  -- the queue only grows
  have hmono : ∀ (j : Fin 3) modid cmdid,
      s.InFlight modid cmdid ∨ s.up = false ∨ s.cleared ≤ j →
      InFlight { s.set i ⟨(s.routeLB i).table, some table⟩ with
        pullQueue := s.pullQueue ++ out.pulls } modid cmdid ∨ s.up = false ∨ s.cleared ≤ j := by
    intro j modid cmdid
    exact .imp_left (.imp_left fun hmem => List.mem_append_left _ hmem)
  refine h.set (i := i) (fun _ _ => .rfl) (fun j _ modid cmdid _ => hmono j modid cmdid) ?_ ?_
  · exact hfits.mono fun modid cmdid _ => hmono i modid cmdid
  · rintro _ ⟨⟩
    exact hfits.serve hc hex (hmono i) fun pull hmem => List.mem_append_right _ hmem

/-- The thread of the connection takes in a route. -/
theorem Inv.recvRoute (h : s.Inv cfg) {rsp : GetRouteRsp} {rsps : List GetRouteRsp} {i : Fin 3}
    {table : RouteLB} (hrsps : s.rsps = rsp :: rsps)
    (hi : (Shard.recvRouteIndex rsp.modid rsp.cmdid).toInt = i)
    (hup : (s.routeLB i).table.update cfg now rsp = .ok table) :
    Inv cfg { s.set i ⟨table, none⟩ with rsps := rsps } := by
  have hfits := h i (s.routeLB i).table (.inl rfl)
  obtain ⟨hinv', hmem, hmarks⟩ := hfits.inv.update_marks hup
  -- the route that was taken in is the only one that is not on its way any more
  have hmono : ∀ (j : Fin 3) modid cmdid, ¬(modid = rsp.modid ∧ cmdid = rsp.cmdid) →
      s.InFlight modid cmdid ∨ s.up = false ∨ s.cleared ≤ j →
        InFlight { s.set i ⟨table, none⟩ with rsps := rsps } modid cmdid ∨
          s.up = false ∨ s.cleared ≤ j := by
    intro j modid cmdid hne
    refine .imp_left (.imp_right (.imp_right fun ⟨hosts, hin⟩ => ⟨hosts, ?_⟩))
    rw [hrsps] at hin
    rcases List.mem_cons.mp hin with heq | hin
    · exact absurd ⟨congrArg GetRouteRsp.modid heq, congrArg GetRouteRsp.cmdid heq⟩ hne
    · exact hin
  refine h.set (i := i) (fun _ _ => .rfl) (fun j hj modid cmdid hhome => ?_) ?_ (by simp)
  · refine hmono j modid cmdid ?_
    rintro ⟨rfl, rfl⟩
    exact hj (Fin.ext (by omega))
  · refine ⟨hinv', fun modid cmdid hin => hfits.home modid cmdid (hmem _ hin),
      fun modid cmdid lb hk hp => ?_⟩
    obtain ⟨hne, hk₀⟩ := hmarks _ lb hk hp
    refine hmono i modid cmdid ?_ (hfits.pulled modid cmdid lb hk₀ hp)
    rintro ⟨rfl, rfl⟩
    exact hne rfl

/-- `whenConnected` clears the next shard. -/
theorem Inv.clearPulling (h : s.Inv cfg) {i : Fin 3} (hi : (i : ℕ) = s.cleared) :
    Inv cfg { s.set i ⟨(s.routeLB i).table.clearPulling, none⟩ with cleared := s.cleared + 1 } := by
  have hfits := h i (s.routeLB i).table (.inl rfl)
  refine h.set (fun _ _ => .rfl) (fun j hj modid cmdid _ => ?_) ?_ (by simp)
  · refine .imp_right (.imp_right fun hle => ?_)
    have hne : (i : ℕ) ≠ (j : ℕ) := fun heq => hj (Fin.ext heq.symm)
    change s.cleared + 1 ≤ (j : ℕ)
    omega
  · refine ⟨hfits.inv.clearPulling, fun modid cmdid hmem => hfits.home modid cmdid ?_,
      fun modid cmdid lb hk hp => ?_⟩
    · exact (HashMap.mem_mapVal _ _ _).mp hmem
    · -- no mark is left in this shard
      rw [RouteLB.clearPulling, HashMap.lookup_mapVal, Option.map_eq_some_iff] at hk
      obtain ⟨lb₀, -, rfl⟩ := hk
      rw [LB.clearPulling] at hp
      split at hp
      · cases hp
      · contradiction

/-- A step that leaves the tables as they are and the routes of their modules on the way. -/
theorem Inv.wire (h : s.Inv cfg) (htable : s'.routeLB = s.routeLB)
    (hmono : ∀ (i : Fin 3) modid cmdid, s.InFlight modid cmdid ∨ s.up = false ∨ s.cleared ≤ i →
      s'.InFlight modid cmdid ∨ s'.up = false ∨ s'.cleared ≤ i) : s'.Inv cfg := by
  intro i table ht
  rw [Table, htable] at ht
  exact (h i table ht).mono fun modid cmdid _ => hmono i modid cmdid

/-- Every step that keeps to the shards keeps the invariant. -/
theorem Inv.step {e : Event} (h : s.Inv cfg) (hc : s.AsksHome e) (he : Effect cfg s e s') :
    s'.Inv cfg := by
  cases he with
  | @serve i now req table out hex hnil =>
    have hfits := h i (s.routeLB i).table (.inl rfl)
    refine h.set (fun _ _ => .rfl) (fun _ _ _ _ _ h => h) ?_ (by simp)
    exact hfits.serve hc hex (fun _ _ h => h) (by simp [hnil])
  | pull hex => exact h.pull hc hex
  | @setPulling i table hcommit =>
    have hfits := h i table (.inr hcommit)
    exact h.set (fun _ _ => .rfl) (fun _ _ _ _ _ h => h) (hfits.mono fun _ _ _ h => h) (by simp)
  | recvRoute hrsps hi hup => exact h.recvRoute hrsps hi hup
  | clearPulling hi => exact h.clearPulling hi
  | newPullReq =>
    refine h.wire rfl fun i modid cmdid => ?_
    -- on a closed connection the requests are dropped, and the next one clears the marks
    by_cases hup : s.up = true
    · refine .imp_left fun hin => .inr ?_
      dsimp only
      rw [if_pos hup]
      rcases hin with hin | hin | hin
      · exact .inl (List.mem_append_right _ hin)
      · exact .inl (List.mem_append_left _ hin)
      · exact .inr hin
    · exact fun _ => .inr (.inl (by simpa using hup))
  | @answer hosts req reqs hreqs =>
    refine h.wire rfl fun i modid cmdid => .imp_left ?_
    rintro (hin | hin | ⟨hosts', hin⟩)
    · exact .inl hin
    · rw [hreqs] at hin
      rcases List.mem_cons.mp hin with rfl | hin
      · exact .inr (.inr ⟨hosts, List.mem_append_right _ (List.mem_singleton_self _)⟩)
      · exact .inr (.inl hin)
    · exact .inr (.inr ⟨hosts', List.mem_append_left _ hin⟩)
  | push =>
    refine h.wire rfl fun i modid cmdid => .imp_left (.imp_right (.imp_right ?_))
    exact fun ⟨hosts, hin⟩ => ⟨hosts, List.mem_append_left _ hin⟩
  | lose => exact h.wire rfl fun i modid cmdid _ => .inr (.inl rfl)
  | connect => exact h.wire rfl fun i modid cmdid _ => .inr (.inr (Nat.zero_le _))

/-! ## Every run -/

/-- If every request for a route comes to the shard that the route is handed to, no module stays
marked as pulling without a pull under way. -/
theorem pullUnderWay_of_asksHome (h : ((system cfg).restrict AsksHome).Reachable s) :
    s.PullUnderWay := by
  have hinv : s.Inv cfg := by
    refine h.invariant ?_ fun s e s' _ hinv hstep => hinv.step hstep.1 (effect_of_exec hstep.2)
    rintro _ rfl i table (rfl | ht)
    · refine ⟨RouteLB.inv_new _, fun modid cmdid hmem => ?_, by rintro _ _ _ ⟨⟩⟩
      cases hmem
    · cases ht
  intro hup hcleared i table ht key lb hk hp
  have hfits := hinv i table ht
  obtain rfl := hfits.inv.key_eq key lb hk
  rcases hfits.pulled _ _ lb hk hp with hin | hdown | hle
  · exact hin
  · cases hup.symm.trans hdown
  · have hi := i.isLt
    omega

/-- The state after an event; an event that is not possible leaves the state. -/
def next (cfg : LbConfigure R) (s : DssAgent) (e : Event) : DssAgent := (s.exec cfg e).getD s

/-- An event that can happen is a step. -/
theorem step_next (cfg : LbConfigure R) (s : DssAgent) (e : Event) (h : (s.exec cfg e).isSome) :
    (system cfg).step s e (s.next cfg e) := by
  obtain ⟨s', hs'⟩ := Option.isSome_iff_exists.mp h
  change s.exec cfg e = some (s.next cfg e)
  rw [next, hs', Option.getD_some]

/-- The connection comes up, and a module is asked for. -/
def connectThenAsk (i : Fin 3) (modid cmdid : Int32) : List Event :=
  [.connect, .clearPulling, .clearPulling, .clearPulling, .serve i 5 (.getHost ⟨0, modid, cmdid⟩),
    .setPulling i, .newPullReq]

/-- The route comes and grows old; the pull that a tool's request starts is lost with the
connection, and the next request pulls again. -/
def pullIsLost (i : Fin 3) : List Event :=
  [.answer [⟨10, 80⟩], .recvRoute 6, .serve i 30 (.getRouteByTool ⟨1, 2⟩), .lose, .setPulling i,
    .newPullReq, .connect, .clearPulling, .clearPulling, .clearPulling,
    .serve i 31 (.getHost ⟨1, 1, 2⟩)]

/-- A pull is lost with its connection, which is made anew. -/
theorem pullUnderWay_after_loss :
    ((connectThenAsk 0 1 2 ++ pullIsLost 0).foldl (next LbConfigure.default) new).PullUnderWay := by
  have hinit : ((system LbConfigure.default).restrict AsksHome).Reachable new := .init rfl
  have hstep : ∀ (s : DssAgent) e, s.AsksHome e ∧ (s.exec LbConfigure.default e).isSome →
      ((system LbConfigure.default).restrict AsksHome).step s e (s.next LbConfigure.default e) :=
    fun s e h => ⟨h.1, step_next _ s e h.2⟩
  exact pullUnderWay_of_asksHome (hinit.foldl hstep (by decide +kernel))

/-- A module whose ids have a sum beyond an `int`: the Python client asks shard 1, and its route
goes to shard 0. It stays marked in shard 1, and nothing is on its way. -/
theorem not_pullUnderWay : Shard.elbClientIndex 2147483647 2147483646 = 1 ∧
    ∃ s, (system LbConfigure.default).Reachable s ∧ s.up = true ∧ s.cleared = 3 ∧
      s.pullQueue = [] ∧ s.reqs = [] ∧ s.rsps = [] ∧ ¬s.PullUnderWay := by
  have hinit : (system LbConfigure.default).Reachable new := .init rfl
  have h : (system LbConfigure.default).Reachable
      ((connectThenAsk 1 2147483647 2147483646 ++
        [Event.answer [⟨10, 80⟩], .recvRoute 6]).foldl (next LbConfigure.default) new) :=
    hinit.foldl (step_next LbConfigure.default) (by decide +kernel)
  refine ⟨by decide, _, h, rfl, rfl, rfl, rfl, rfl, fun hpull => ?_⟩
  rcases hpull rfl rfl 1 _ (.inl rfl) (packKey 2147483647 2147483646) _ rfl rfl with
    hin | hin | ⟨hosts, hin⟩
  · cases hin
  · cases hin
  · cases hin

end DssAgent

end Elb
