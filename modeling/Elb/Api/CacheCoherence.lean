import Elb.Api.ReportOrder
import Elb.Lbagent.RouteLbInvariant

/-!
# Coherence of cached routes

Reference: `elbClient::getRoute4Cache` in `api/cpp/elbApi/elbApi.cc`, `RouteLB::cacheGetRoute` and
`LB::update` in `lbagent/src/RouteLb.cc`, `api/CacheLayer.md`.

Clients keep a copy of a route with its version and ask the agent again from time to time; a reply
for the same version comes without the route. `Coherent` says what this needs: whoever holds the
version of a route holds the route. The version is the second of the last change, so a second change
in the same second gives another route the same version.
-/

namespace Elb

open Transition

/-! ## Entries and routes -/

namespace CacheUnit

/-- The accumulators are those of the nodes. -/
def Matched (cu : CacheUnit) : Prop :=
  ∀ k, k ∈ cu.succAccum ↔ k ∈ cu.nodeList.map HostAddr.key

/-- The entry holds the hosts of the route. -/
def Holds (cu : CacheUnit) (lb : LB) : Prop := ∀ host, host ∈ cu.nodeList ↔ host.key ∈ lb.hostMap

/-- What a call that only uses the entry leaves alone. -/
structure SameNodes (cu cu' : CacheUnit) : Prop where
  version_eq : cu'.version = cu.version
  mem_node : ∀ host, host ∈ cu'.nodeList ↔ host ∈ cu.nodeList
  mem_accum : ∀ k, k ∈ cu'.succAccum ↔ k ∈ cu.succAccum

/-- Nothing was done. -/
theorem SameNodes.refl (cu : CacheUnit) : SameNodes cu cu := ⟨rfl, fun _ => .rfl, fun _ => .rfl⟩

/-- With the same nodes and accumulators an entry still has one accumulator for each node. -/
theorem SameNodes.matched {cu cu' : CacheUnit} (h : SameNodes cu cu') (hm : cu.Matched) :
    cu'.Matched := by
  intro k
  rw [h.mem_accum, hm k]
  simp only [List.mem_map, h.mem_node]

/-- A batch sets the accumulators to zero and leaves the nodes. -/
theorem batchReportRes_sameNodes (cu : CacheUnit) : SameNodes cu cu.batchReportRes.1 := by
  rw [batchReportRes]
  split
  · exact .refl cu
  · exact ⟨rfl, fun _ => .rfl, fun k => HashMap.mem_mapVal _ _ k⟩

/-- A success changes the value of an accumulator. -/
theorem report_sameNodes (host : HostAddr) (cu : CacheUnit) : SameNodes cu (cu.report host) := by
  rw [report]
  split
  · next n hn =>
    refine ⟨rfl, fun _ => .rfl, fun k => ?_⟩
    rw [AList.mem_insert, or_iff_right_of_imp]
    rintro rfl
    exact HashMap.mem_iff.mpr ⟨n, hn⟩
  · exact .refl cu

/-- Serving a node turns the list round. -/
theorem getHost_sameNodes {cu cu' : CacheUnit} {host : HostAddr}
    (h : cu.getHost = some (host, cu')) : SameNodes cu cu' := by
  rw [getHost] at h
  split at h
  · cases h
  · next a rest heq =>
    cases h
    refine ⟨rfl, fun b => ?_, fun _ => .rfl⟩
    rw [heq]
    simp [or_comm]

end CacheUnit

namespace ElbClient

/-- The entries of `c'` are entries of `c`, used but not refreshed. -/
def SameRoutes (c c' : ElbClient) : Prop :=
  ∀ modid cmdid cu', c'.cache.getCache modid cmdid = some cu' →
    ∃ cu, c.cache.getCache modid cmdid = some cu ∧ cu.SameNodes cu'

/-- The parts of the client's calls that do not refresh the cache, with what they send. -/
inductive LocalCall (c : ElbClient) (modid cmdid : Int32) : ElbClient → List AgentReq → Prop
  | heartbeat (agentOff : Bool) : LocalCall c modid cmdid { c with agentOff := agentOff } []
  | flush : LocalCall c modid cmdid (c.flush modid cmdid).1 (c.flush modid cmdid).2
  | pick {env : Env} {c' : ElbClient} {answer : Int32 × Option HostAddr} {sent : List AgentReq}
      (h : c.pickHost modid cmdid env = some (c', answer, sent)) : LocalCall c modid cmdid c' sent
  | report (host : HostAddr) (retcode : Int32) (mills : UInt64) :
      LocalCall c modid cmdid (c.apiReportRes modid cmdid host retcode mills).1
        (c.apiReportRes modid cmdid host retcode mills).2

/-- The entry of the module may have been used, and all else stays. -/
def Uses (c : ElbClient) (modid cmdid : Int32) (c' : ElbClient) : Prop :=
  c'.cache = c.cache ∨ ∃ cu cu', c.cache.getCache modid cmdid = some cu ∧ cu.SameNodes cu' ∧
    c'.cache = c.cache.addCache modid cmdid cu'

/-- Nothing was done. -/
theorem Uses.refl (c : ElbClient) (modid cmdid : Int32) : c.Uses modid cmdid c := .inl rfl

/-- `batchReportRes` uses the entry of its module. -/
theorem flush_uses (modid cmdid : Int32) (c : ElbClient) :
    c.Uses modid cmdid (c.flush modid cmdid).1 := by
  rw [flush]
  cases hk : c.cache.getCache modid cmdid with
  | none => exact .refl c modid cmdid
  | some cu => exact .inr ⟨cu, _, hk, cu.batchReportRes_sameNodes, rfl⟩

/-- `apiReportRes` uses the entry of its module, whether it keeps the result or sends it. -/
theorem apiReportRes_uses (modid cmdid : Int32) (host : HostAddr) (retcode : Int32)
    (mills : UInt64) (c : ElbClient) :
    c.Uses modid cmdid (c.apiReportRes modid cmdid host retcode mills).1 := by
  rw [apiReportRes]
  split
  · exact .refl c modid cmdid
  · cases hk : c.cache.getCache modid cmdid with
    | none => exact .refl c modid cmdid
    | some cu =>
      dsimp only
      split
      · split
        · exact .inr ⟨cu, _, hk, cu.report_sameNodes host, rfl⟩
        · exact flush_uses modid cmdid c
      · exact .refl c modid cmdid

/-- So does the end of `apiGetHost`. -/
theorem pickHost_uses {modid cmdid : Int32} {env : Env} {c c' : ElbClient}
    {answer : Int32 × Option HostAddr} {sent : List AgentReq}
    (h : c.pickHost modid cmdid env = some (c', answer, sent)) : c.Uses modid cmdid c' := by
  rw [pickHost] at h
  split at h
  · cases h
    exact .refl c modid cmdid
  · next cu hk =>
    split at h
    · obtain ⟨⟨host, cu'⟩, hcu', heq⟩ := Option.bind_eq_some_iff.mp h
      cases heq
      exact .inr ⟨cu, cu', hk, CacheUnit.getHost_sameNodes hcu', rfl⟩
    · cases h
      exact .refl c modid cmdid

/-- The cache changes only by refreshes. -/
theorem LocalCall.uses {modid cmdid : Int32} {c c' : ElbClient} {sent : List AgentReq}
    (h : c.LocalCall modid cmdid c' sent) : c.Uses modid cmdid c' := by
  cases h with
  | heartbeat agentOff => exact .inl rfl
  | flush => exact flush_uses modid cmdid c
  | pick h => exact pickHost_uses h
  | report host retcode mills => exact apiReportRes_uses modid cmdid host retcode mills c

/-- What was used has its nodes, and the others are untouched. -/
theorem Uses.sameRoutes {c c' : ElbClient} {modid cmdid : Int32} (h : c.Uses modid cmdid c') :
    SameRoutes c c' := by
  intro m k cu₁ hcu₁
  rcases h with heq | ⟨cu, cu', hk, hsame, heq⟩
  · rw [heq] at hcu₁
    exact ⟨cu₁, hcu₁, .refl cu₁⟩
  · rw [heq, getCache_addCache] at hcu₁
    split at hcu₁
    · next hids => exact ⟨cu, by rw [hids.1, hids.2, hk], Option.some.inj hcu₁ ▸ hsame⟩
    · exact ⟨cu₁, hcu₁, .refl cu₁⟩

/-- The version of each entry stays. -/
theorem Uses.version_eq {c c' : ElbClient} {modid cmdid : Int32} (h : c.Uses modid cmdid c')
    (m k : Int32) : (c'.cache.getCache m k).map (·.version) =
      (c.cache.getCache m k).map (·.version) := by
  rcases h with heq | ⟨cu, cu', hk, hsame, heq⟩
  · rw [heq]
  · rw [heq, getCache_addCache]
    split
    · next hids => rw [hids.1, hids.2, hk, Option.map_some, Option.map_some, hsame.version_eq]
    · rfl

/-- No part of a call but a refresh gives an entry other nodes. -/
theorem LocalCall.sameRoutes {modid cmdid : Int32} {c c' : ElbClient} {sent : List AgentReq}
    (h : c.LocalCall modid cmdid c' sent) : SameRoutes c c' := h.uses.sameRoutes

/-- Every entry has its accumulators. -/
def Matched (c : ElbClient) : Prop :=
  ∀ modid cmdid cu, c.cache.getCache modid cmdid = some cu → cu.Matched

/-- Using entries keeps their accumulators those of their nodes. -/
theorem SameRoutes.matched {c c' : ElbClient} (h : SameRoutes c c') (hm : c.Matched) :
    c'.Matched := by
  intro modid cmdid cu' hcu'
  obtain ⟨cu, hcu, hsame⟩ := h modid cmdid cu' hcu'
  exact hsame.matched (hm modid cmdid cu hcu)

/-- A new entry has one accumulator for each node of the reply. -/
theorem matched_filled (modid cmdid : Int32) (ts : ℤ) (rsp : CacheGetRouteRsp) :
    (filled modid cmdid ts rsp).Matched := by
  intro k
  rw [filled, ← AList.lookup_isSome, freshAccum_lookup]
  split <;> simp_all

/-- The request names the module, with an entry or without. -/
@[simp] theorem cacheGetRouteReq_modid (modid cmdid : Int32) (c : ElbClient) :
    (c.cacheGetRouteReq modid cmdid).modid = modid := by
  rw [cacheGetRouteReq]
  split <;> rfl

/-- The request names the module, with an entry or without. -/
@[simp] theorem cacheGetRouteReq_cmdid (modid cmdid : Int32) (c : ElbClient) :
    (c.cacheGetRouteReq modid cmdid).cmdid = cmdid := by
  rw [cacheGetRouteReq]
  split <;> rfl

/-- `applyRoute` on a reply with a route: the entry afterwards has the version and the flag of the
reply, and the nodes of an entry with that version or else those of the reply. -/
theorem applyRoute_cases (modid cmdid : Int32) (ts : ℤ) (rsp : CacheGetRouteRsp) (c : ElbClient)
    (hv : rsp.version ≠ -1) :
    ∃ cu', (∀ m k, (c.applyRoute modid cmdid ts rsp).cache.getCache m k =
        if m = modid ∧ k = cmdid then some cu' else c.cache.getCache m k) ∧
      cu'.overload = rsp.overload ∧ cu'.version = rsp.version ∧
      ((∃ cu, c.cache.getCache modid cmdid = some cu ∧ cu.version = rsp.version ∧
          cu.SameNodes cu') ∨
        (c.cacheGetRouteReq modid cmdid).version ≠ rsp.version ∧ cu'.nodeList = rsp.route ∧
          cu'.Matched) := by
  rw [applyRoute, if_neg hv, cacheGetRouteReq]
  cases hk : c.cache.getCache modid cmdid with
  | none =>
    exact ⟨_, fun m k => getCache_addCache _ _ _ _ _ _, rfl, rfl,
      .inr ⟨fun heq => hv heq.symm, rfl, matched_filled modid cmdid ts rsp⟩⟩
  | some cu =>
    -- the same version keeps the nodes, another one replaces them
    by_cases hver : rsp.version = cu.version
    · refine ⟨_, fun m k => getCache_addCache _ _ _ _ _ _, ?_⟩
      rw [if_neg (not_not.mpr hver)]
      exact ⟨rfl, hver.symm, .inl ⟨cu, rfl, hver.symm, rfl, fun _ => .rfl, fun _ => .rfl⟩⟩
    · refine ⟨_, fun m k => getCache_addCache _ _ _ _ _ _, ?_⟩
      rw [if_pos hver]
      exact ⟨rfl, rfl, .inr ⟨fun heq => hver heq.symm, rfl, matched_filled _ _ ts rsp⟩⟩

end ElbClient

/-! ## Clients and agent -/

/-- One shard of the agent, the time it has reached, and the clients that use it. -/
structure CacheNet (ι : Type) where
  agent : RouteLB
  clock : ℤ
  client : ι → ElbClient

namespace CacheNet

variable {R : Type} [RateArith R] {cfg : LbConfigure R} {now : ℤ} {ι : Type}

/-- A request of `getRoute4Cache` whose reply is read by the call that sent it: the agent, the
client and the return code afterwards. -/
def fetch (cfg : LbConfigure R) (now : ℤ) (modid cmdid : Int32) (ts : ℤ) (agent : RouteLB)
    (c : ElbClient) : Except Fault (RouteLB × ElbClient × Int32) := do
  let (agent, out) ← agent.exec cfg now (.cacheGetRoute (c.cacheGetRouteReq modid cmdid))
  let res := c.getRoute4Cache modid cmdid ts out.reply
  return (agent, res.1, res.2.1)

/-- Whatever happens at the agent, requests whose replies are lost included; a refresh; a part of a
client's call that refreshes nothing. -/
inductive Op (ι : Type)
  | agent (op : RouteLB.Op)
  | fetch (i : ι) (modid cmdid : Int32) (ts : ℤ)
  | locally (i : ι)

/-- One step at a time that is not before the last. A client has its own clock. -/
inductive Step [DecidableEq ι] (cfg : LbConfigure R) (s : CacheNet ι) : ℤ × Op ι → CacheNet ι → Prop
  | agent {now : ℤ} {op : RouteLB.Op} {agent : RouteLB} {out : RouteLB.Out} (hnow : s.clock ≤ now)
      (hex : s.agent.exec cfg now op = .ok (agent, out)) :
      Step cfg s (now, .agent op) ⟨agent, now, s.client⟩
  | fetch {now : ℤ} {i : ι} {modid cmdid : Int32} {ts : ℤ} {agent : RouteLB} {c : ElbClient}
      {ret : Int32} (hnow : s.clock ≤ now)
      (hex : CacheNet.fetch cfg now modid cmdid ts s.agent (s.client i) = .ok (agent, c, ret)) :
      Step cfg s (now, .fetch i modid cmdid ts) ⟨agent, now, Function.update s.client i c⟩
  | locally {now : ℤ} {i : ι} {modid cmdid : Int32} {c : ElbClient} {sent : List AgentReq}
      (hnow : s.clock ≤ now) (hcall : (s.client i).LocalCall modid cmdid c sent) :
      Step cfg s (now, .locally i) ⟨s.agent, now, Function.update s.client i c⟩

/-- Runs from an agent without modules and new clients. Time is counted from an epoch. -/
def system [DecidableEq ι] (cfg : LbConfigure R) : System (CacheNet ι) (ℤ × Op ι) where
  init s := (∃ id, s.agent = .new id) ∧ 0 ≤ s.clock ∧ ∀ i, ∃ agentOff, s.client i = .new agentOff
  step := Step cfg

/-- The client knows what the agent knows about the module: that there is no route, or the hosts of
the route and whether one of them is overloaded. -/
def UpToDate (agent : RouteLB) (modid cmdid : Int32) (c : ElbClient) : Prop :=
  ((∀ lb, agent.routeMap.lookup (packKey modid cmdid) = some lb → lb.empty = true) ∧
      c.cache.getCache modid cmdid = none) ∨
    ∃ lb cu, agent.routeMap.lookup (packKey modid cmdid) = some lb ∧ lb.empty = false ∧
      c.cache.getCache modid cmdid = some cu ∧ cu.Holds lb ∧
      (∀ k, k ∈ cu.succAccum ↔ k ∈ lb.hostMap) ∧ cu.overload = lb.hasOvHost

/-- Whichever refresh comes next, if it returns 0 then its client is up to date. -/
def FetchesRight (cfg : LbConfigure R) (s : CacheNet ι) : Prop :=
  ∀ now ≥ s.clock, ∀ i modid cmdid ts agent c,
    fetch cfg now modid cmdid ts s.agent (s.client i) = .ok (agent, c, 0) →
      UpToDate s.agent modid cmdid c

/-- Whoever holds the version of a route holds the route. -/
def Coherent (s : CacheNet ι) : Prop :=
  ∀ i modid cmdid cu lb, (s.client i).cache.getCache modid cmdid = some cu →
    s.agent.routeMap.lookup (packKey modid cmdid) = some lb → lb.empty = false →
      cu.version = lb.version → cu.Holds lb

/-- The agent's modules are as its calls leave them, the version of a route is a past second, and
every entry of a client has its accumulators. -/
structure Inv (cfg : LbConfigure R) (s : CacheNet ι) : Prop where
  agent : s.agent.Inv cfg
  clock_nonneg : 0 ≤ s.clock
  version : ∀ key lb, s.agent.routeMap.lookup key = some lb → lb.empty = false →
    0 ≤ lb.version ∧ lb.version ≤ s.clock
  matched : ∀ i, (s.client i).Matched

/-! ## What a refresh brings -/

/-- The hosts of a route as a reply lists them. -/
theorem mem_route {lb : LB} (h : lb.RepInv) (host : HostAddr) :
    host ∈ lb.getRoute.map HI.addr ↔ host.key ∈ lb.hostMap := by
  rw [LB.getRoute, List.map_map, List.mem_map, HashMap.mem_iff]
  constructor
  · rintro ⟨⟨k, hi⟩, he, rfl⟩
    have hk := HashMap.mem_entries_iff.mp he
    obtain rfl : hi.addr.key = k := h.key_eq k hi hk
    exact ⟨hi, hk⟩
  · rintro ⟨hi, hk⟩
    exact ⟨⟨host.key, hi⟩, HashMap.mem_entries_iff.mpr hk, HostAddr.key_inj (h.key_eq _ hi hk)⟩

/-- The reply of an agent that has a route to a client that names `version`. -/
def routeReply (modid cmdid : Int32) (version : ℤ) (lb : LB) : CacheGetRouteRsp :=
  ⟨modid, cmdid, lb.version, lb.hasOvHost,
    if lb.version ≠ version then lb.getRoute.map HI.addr else []⟩

/-- A client that names another version is sent the hosts. -/
theorem routeReply_route (modid cmdid : Int32) {version : ℤ} {lb : LB}
    (hne : version ≠ lb.version) :
    (routeReply modid cmdid version lb).route = lb.getRoute.map HI.addr :=
  if_pos (Ne.symm hne)

/-- The reply to `CacheGetRouteReq`. -/
theorem cacheGetRoute_reply {agent agent' : RouteLB} {req : CacheGetRouteReq} {out : RouteLB.Out}
    (hex : agent.exec cfg now (.cacheGetRoute req) = .ok (agent', out)) :
    ((∀ lb, agent.routeMap.lookup (packKey req.modid req.cmdid) = some lb → lb.empty = true) ∧
        out.reply = some (.cacheGetRoute ⟨req.modid, req.cmdid, -1, false, []⟩)) ∨
      ∃ lb, agent.routeMap.lookup (packKey req.modid req.cmdid) = some lb ∧ lb.empty = false ∧
        out.reply = some (.cacheGetRoute (routeReply req.modid req.cmdid req.version lb)) := by
  rw [RouteLB.exec, RouteLB.cacheGetRoute] at hex
  cases hk : agent.routeMap.lookup (packKey req.modid req.cmdid) with
  | none =>
    rw [hk] at hex
    cases hex
    exact .inl ⟨by simp, rfl⟩
  | some lb =>
    simp only [hk] at hex
    by_cases hemp : lb.empty = true
    · rw [if_pos hemp] at hex
      split at hex
      · cases hex
        exact .inl ⟨fun lb' hlb' => Option.some.inj hlb' ▸ hemp, rfl⟩
      · cases hex
    · rw [if_neg hemp] at hex
      cases hex
      refine .inr ⟨lb, rfl, by simpa using hemp, ?_⟩
      rw [routeReply]
      split <;> rfl

/-- A refresh returns 0. Without a route at the agent the entry goes; otherwise the reply is
applied, which has the hosts of the route unless the client named its version. -/
theorem fetch_cases {agent agent' : RouteLB} {c c' : ElbClient} {modid cmdid : Int32} {ts : ℤ}
    {ret : Int32} (hex : fetch cfg now modid cmdid ts agent c = .ok (agent', c', ret)) :
    (∃ req out, agent.exec cfg now (.cacheGetRoute req) = .ok (agent', out)) ∧ ret = 0 ∧
      (((∀ lb, agent.routeMap.lookup (packKey modid cmdid) = some lb → lb.empty = true) ∧
          c' = { c with cache := c.cache.rmCache modid cmdid }) ∨
        ∃ lb, agent.routeMap.lookup (packKey modid cmdid) = some lb ∧ lb.empty = false ∧
          c' = c.applyRoute modid cmdid ts
            (routeReply modid cmdid (c.cacheGetRouteReq modid cmdid).version lb)) := by
  -- the reply is about the module, so it is applied
  have hrecv : ∀ rsp : CacheGetRouteRsp, rsp.modid = modid → rsp.cmdid = cmdid →
      c.recvRoute4Cache modid cmdid ts (some (.cacheGetRoute rsp)) =
        (c.applyRoute modid cmdid ts rsp, 0) := fun rsp hm hk => by
    rw [ElbClient.recvRoute4Cache, if_neg (by simp [hm, hk])]
  rw [fetch] at hex
  cases hreply : agent.exec cfg now (.cacheGetRoute (c.cacheGetRouteReq modid cmdid)) with
  | error fault =>
    rw [hreply] at hex
    cases hex
  | ok res =>
    obtain ⟨agent₁, out⟩ := res
    rw [hreply] at hex
    cases hex
    have hcases := cacheGetRoute_reply hreply
    rw [ElbClient.cacheGetRouteReq_modid, ElbClient.cacheGetRouteReq_cmdid] at hcases
    rw [ElbClient.getRoute4Cache]
    rcases hcases with ⟨hnone, hout⟩ | ⟨lb, hk, hemp, hout⟩
    · rw [hout, hrecv _ rfl rfl]
      exact ⟨⟨_, out, hreply⟩, rfl, .inl ⟨hnone, rfl⟩⟩
    · rw [hout, hrecv _ rfl rfl]
      exact ⟨⟨_, out, hreply⟩, rfl, .inr ⟨lb, hk, hemp, rfl⟩⟩

/-- A refresh touches the entry of its module only. Without a route at the agent the entry is gone;
otherwise it has the flag of the route, and its nodes are those of an entry with the version of the
route, or else the hosts of the route. -/
theorem fetch_spec {s : CacheNet ι} (h : s.Inv cfg) {i : ι} {modid cmdid : Int32} {ts : ℤ}
    {agent : RouteLB} {c : ElbClient} {ret : Int32}
    (hex : fetch cfg now modid cmdid ts s.agent (s.client i) = .ok (agent, c, ret)) :
    (∀ m k, ¬(m = modid ∧ k = cmdid) →
        c.cache.getCache m k = (s.client i).cache.getCache m k) ∧ c.Matched ∧
      (((∀ lb, s.agent.routeMap.lookup (packKey modid cmdid) = some lb → lb.empty = true) ∧
          c.cache.getCache modid cmdid = none) ∨
        ∃ lb cu', s.agent.routeMap.lookup (packKey modid cmdid) = some lb ∧ lb.empty = false ∧
          c.cache.getCache modid cmdid = some cu' ∧ cu'.overload = lb.hasOvHost ∧
          ((∃ cu, (s.client i).cache.getCache modid cmdid = some cu ∧ cu.version = lb.version ∧
              cu.SameNodes cu') ∨
            ((s.client i).cacheGetRouteReq modid cmdid).version ≠ lb.version ∧
              cu'.nodeList = lb.getRoute.map HI.addr)) := by
  obtain ⟨-, -, ⟨hnone, rfl⟩ | ⟨lb, hk, hemp, rfl⟩⟩ := fetch_cases hex
  · refine ⟨fun m k hne => by simp [hne], fun m k cu hcu => ?_, .inl ⟨hnone, by simp⟩⟩
    rw [ElbClient.getCache_rmCache] at hcu
    split at hcu
    · cases hcu
    · exact h.matched i m k cu hcu
  · -- the version of a route is a second of the clock and not the one for no route
    have hver : lb.version ≠ -1 := by
      have := (h.version _ lb hk hemp).1
      omega
    obtain ⟨cu', hcache, hover, -, hnodes⟩ :=
      ElbClient.applyRoute_cases modid cmdid ts
        (routeReply modid cmdid ((s.client i).cacheGetRouteReq modid cmdid).version lb) (s.client i)
        hver
    have hmatched : cu'.Matched := by
      rcases hnodes with ⟨cu, hcu, -, hsame⟩ | ⟨-, -, hmatched⟩
      · exact hsame.matched (h.matched i modid cmdid cu hcu)
      · exact hmatched
    refine ⟨fun m k hne => by rw [hcache, if_neg hne], fun m k cu hcu => ?_,
      .inr ⟨lb, cu', hk, hemp, by rw [hcache, if_pos ⟨rfl, rfl⟩], hover, ?_⟩⟩
    · rw [hcache] at hcu
      split at hcu
      · exact Option.some.inj hcu ▸ hmatched
      · exact h.matched i m k cu hcu
    · rcases hnodes with hold | ⟨hne, hroute, -⟩
      · exact .inl hold
      · exact .inr ⟨hne, by rw [hroute, routeReply_route modid cmdid hne]⟩

/-- With the version of a route comes the route, so a refresh brings its client up to date. -/
theorem fetch_upToDate {s : CacheNet ι} (h : s.Inv cfg) (hc : s.Coherent) {i : ι}
    {modid cmdid : Int32} {ts : ℤ} {agent : RouteLB} {c : ElbClient} {ret : Int32}
    (hex : fetch cfg now modid cmdid ts s.agent (s.client i) = .ok (agent, c, ret)) :
    UpToDate s.agent modid cmdid c := by
  obtain ⟨-, hmatched, hnone | ⟨lb, cu', hk, hemp, hcu', hover, hnodes⟩⟩ := fetch_spec h hex
  · exact .inl hnone
  · have hrep := LB.repInv_of_reachable (h.agent.lb_reachable _ lb hk)
    have hholds : cu'.Holds lb := by
      intro host
      rcases hnodes with ⟨cu, hcu, hversion, hsame⟩ | ⟨-, hroute⟩
      · -- the reply has no route, and the entry holds it
        rw [hsame.mem_node, hc i modid cmdid cu lb hcu hk hemp hversion host]
      · rw [hroute, mem_route hrep]
    refine .inr ⟨lb, cu', hk, hemp, hcu', hholds, fun k => ?_, hover⟩
    rw [hmatched modid cmdid cu' hcu' k, List.mem_map]
    constructor
    · rintro ⟨host, hhost, rfl⟩
      exact (hholds host).mp hhost
    · intro hmem
      obtain ⟨hi, hlk⟩ := HashMap.mem_iff.mp hmem
      obtain rfl : hi.addr.key = k := hrep.key_eq k hi hlk
      exact ⟨hi.addr, (hholds hi.addr).mpr hmem, rfl⟩

/-- With a route at the agent a refresh goes through. -/
theorem fetch_ok {s : CacheNet ι} (h : s.Inv cfg) (now : ℤ) {i : ι} {modid cmdid : Int32} {lb : LB}
    (hk : s.agent.routeMap.lookup (packKey modid cmdid) = some lb) (hemp : lb.empty = false) :
    ∃ agent c, fetch cfg now modid cmdid 0 s.agent (s.client i) = .ok (agent, c, 0) := by
  rcases RouteLB.exec_result h.agent now
      (.cacheGetRoute ((s.client i).cacheGetRouteReq modid cmdid)) with
    ⟨a, -, hstuck⟩ | ⟨agent, out, heq, -⟩
  · cases a <;> try exact hstuck.elim
    obtain ⟨lb', hk', hemp', -⟩ := hstuck
    rw [ElbClient.cacheGetRouteReq_modid, ElbClient.cacheGetRouteReq_cmdid, hk] at hk'
    rw [← Option.some.inj hk', hemp] at hemp'
    cases hemp'
  · obtain ⟨⟨agent, c, ret⟩, hex⟩ : ∃ res,
        fetch cfg now modid cmdid 0 s.agent (s.client i) = .ok res := ⟨_, by rw [fetch, heq]; rfl⟩
    obtain rfl := (fetch_cases hex).2.1
    exact ⟨agent, c, hex⟩

/-- Refreshes are right exactly if whoever holds the version of a route holds the route. -/
theorem Inv.fetchesRight_iff {s : CacheNet ι} (h : s.Inv cfg) :
    FetchesRight cfg s ↔ s.Coherent := by
  constructor
  · intro hright i modid cmdid cu lb hcu hk hemp hver host
    obtain ⟨agent, c, hex⟩ := fetch_ok h s.clock (i := i) hk hemp
    rcases hright s.clock le_rfl i modid cmdid 0 agent c hex with
      ⟨hnone, -⟩ | ⟨lb₁, cu₁, hk₁, -, hcu₁, hholds, -⟩
    · rw [hnone lb hk] at hemp
      cases hemp
    · obtain rfl := Option.some.inj (hk₁.symm.trans hk)
      obtain ⟨-, -, ⟨hnone, -⟩ | ⟨lb₂, cu₂, hk₂, -, hcu₂, -, hnodes⟩⟩ := fetch_spec h hex
      · rw [hnone lb₁ hk] at hemp
        cases hemp
      · obtain rfl := Option.some.inj (hcu₁.symm.trans hcu₂)
        obtain rfl := Option.some.inj (hk₁.symm.trans hk₂)
        -- the refresh found the version it named, and left the nodes as they are
        rcases hnodes with ⟨cu', hcu', -, hsame⟩ | ⟨hne, -⟩
        · obtain rfl := Option.some.inj (hcu.symm.trans hcu')
          rw [← hsame.mem_node, hholds host]
        · rw [ElbClient.cacheGetRouteReq, hcu] at hne
          exact absurd hver hne
  · intro hc now _ i modid cmdid ts agent c hex
    exact fetch_upToDate h hc hex

/-! ## Steps -/

/-- Where a module of the table comes from: it was there with the same version and hosts, it is new
and without hosts, or a response has just updated it. -/
theorem effect_lookup {agent agent' : RouteLB} {op : RouteLB.Op} (h : agent.Inv cfg)
    (he : RouteLB.Effect cfg now agent op agent') {key : UInt64} {lb' : LB}
    (hk' : agent'.routeMap.lookup key = some lb') :
    (∃ lb, agent.routeMap.lookup key = some lb ∧ lb'.version = lb.version ∧
        ∀ k, k ∈ lb'.hostMap ↔ k ∈ lb.hostMap) ∨ lb'.empty = true ∨
      ∃ rsp lb, op = .update rsp ∧ packKey rsp.modid rsp.cmdid = key ∧
        agent.routeMap.lookup key = some lb ∧ rsp.hosts ≠ [] ∧ lb.UpdateSpec cfg now rsp lb' := by
  have hold : ∀ {lb}, agent.routeMap.lookup key = some lb → ∃ lb₀,
      agent.routeMap.lookup key = some lb₀ ∧ lb.version = lb₀.version ∧
        ∀ k, k ∈ lb.hostMap ↔ k ∈ lb₀.hostMap := fun hk => ⟨_, hk, rfl, fun _ => .rfl⟩
  cases he with
  | same => exact .inl (hold hk')
  | @serve _ key₀ lb lb₁ hk hserve =>
    rw [RouteLB.put_lookup] at hk'
    split at hk'
    · next heq =>
      have hroute := hserve.sameRoute (h.lb_reachable key₀ lb hk)
      obtain rfl := Option.some.inj hk'
      exact .inl ⟨lb, by rw [heq, hk], hroute.version_eq, hroute.mem_iff⟩
    · exact .inl (hold hk')
  | create hk =>
    rw [RouteLB.create_lookup] at hk'
    split at hk'
    · exact .inr (.inl (Option.some.inj hk' ▸ rfl))
    · exact .inl (hold hk')
  | @update rsp lb lb₁ hk hne hup =>
    rw [RouteLB.put_lookup] at hk'
    split at hk'
    · next heq =>
      obtain rfl := Option.some.inj hk'
      exact .inr (.inr ⟨rsp, lb, rfl, heq.symm, by rw [heq, hk], hne,
        (LB.updateSpec_of_ok _ _ hup).2⟩)
    · exact .inl (hold hk')
  | delete hnil => exact .inl (hold (HashMap.lookup_of_erase hk').2)
  | clearPulling =>
    rw [RouteLB.clearPulling, HashMap.lookup_mapVal, Option.map_eq_some_iff] at hk'
    obtain ⟨lb, hk, rfl⟩ := hk'
    refine .inl ⟨lb, hk, ?_⟩
    rw [LB.clearPulling]
    split <;> exact ⟨rfl, fun _ => .rfl⟩

/-- If a response changes the hosts of a route, nobody holds the present second as the version of
other hosts than it lists. -/
def SecondIsFresh (s : CacheNet ι) (e : ℤ × Op ι) : Prop :=
  ∀ rsp lb, e.2 = .agent (.update rsp) →
    s.agent.routeMap.lookup (packKey rsp.modid rsp.cmdid) = some lb → rsp.hosts ≠ [] →
      lb.Changes rsp → ∀ i cu, (s.client i).cache.getCache rsp.modid rsp.cmdid = some cu →
        cu.version = e.1 → ∀ host, host ∈ cu.nodeList ↔ host ∈ rsp.hosts

/-- A host is listed if its key is the key of a listed host. -/
theorem mem_keys_iff {hosts : List HostAddr} {host : HostAddr} :
    host.key ∈ hosts.map HostAddr.key ↔ host ∈ hosts := by
  rw [List.mem_map]
  exact ⟨fun ⟨a, ha, heq⟩ => HostAddr.key_inj heq ▸ ha, fun h => ⟨host, h, rfl⟩⟩

/-- What the agent does keeps clients and agent coherent, unless it gives a version away twice. -/
theorem Coherent.effect {s : CacheNet ι} (h : s.Coherent) (hinv : s.agent.Inv cfg)
    {op : RouteLB.Op} {agent : RouteLB} (he : RouteLB.Effect cfg now s.agent op agent)
    (hfresh : s.SecondIsFresh (now, .agent op)) (clock : ℤ) :
    Coherent ⟨agent, clock, s.client⟩ := by
  intro i modid cmdid cu lb' hcu hk' hemp hver host
  rcases effect_lookup hinv he hk' with
    ⟨lb, hk, hversion, hmem⟩ | hnew | ⟨rsp, lb, rfl, hkey, hk, hne, hup⟩
  · have hemp₀ : lb.empty = false := (LB.empty_congr hmem).symm.trans hemp
    rw [hmem]
    exact h i modid cmdid cu lb hcu hk hemp₀ (hver.trans hversion) host
  · rw [hemp] at hnew
    cases hnew
  · obtain ⟨rfl, rfl⟩ := packKey_inj hkey
    rw [hup.keys]
    by_cases hch : lb.Changes rsp
    · rw [mem_keys_iff]
      exact hfresh rsp lb rfl hk hne hch i cu hcu (hver.trans (hup.version_of_changes hch)) host
    · have hsame : ∀ k, k ∈ lb.hostMap ↔ k ∈ rsp.hosts.map HostAddr.key := not_not.mp hch
      have hmem : ∀ k, k ∈ lb'.hostMap ↔ k ∈ lb.hostMap := fun k =>
        (hup.keys k).trans (hsame k).symm
      have hemp₀ : lb.empty = false := (LB.empty_congr hmem).symm.trans hemp
      rw [← hsame]
      exact h i rsp.modid rsp.cmdid cu lb hcu hk hemp₀
        (hver.trans (hup.version_of_not_changes hch)) host

/-- A client whose entries are used, or hold their routes, stays coherent with the agent. -/
theorem Coherent.client [DecidableEq ι] {s : CacheNet ι} (h : s.Coherent) {i : ι} {c : ElbClient}
    (hc : ∀ modid cmdid cu', c.cache.getCache modid cmdid = some cu' →
      (∃ cu, (s.client i).cache.getCache modid cmdid = some cu ∧ cu.SameNodes cu') ∨
        ∀ lb, s.agent.routeMap.lookup (packKey modid cmdid) = some lb → lb.empty = false →
          cu'.Holds lb) (clock : ℤ) : Coherent ⟨s.agent, clock, Function.update s.client i c⟩ := by
  intro j modid cmdid cu' lb hcu' hk hemp hver host
  by_cases hj : j = i
  · subst hj
    simp only [Function.update_self] at hcu'
    rcases hc modid cmdid cu' hcu' with ⟨cu, hcu, hsame⟩ | hholds
    · rw [hsame.mem_node]
      exact h j modid cmdid cu lb hcu hk hemp (hsame.version_eq.symm.trans hver) host
    · exact hholds lb hk hemp host
  · simp only [Function.update_of_ne hj] at hcu'
    exact h j modid cmdid cu' lb hcu' hk hemp hver host

/-- The versions of routes stay past seconds. -/
theorem Inv.version_effect {s : CacheNet ι} (h : s.Inv cfg) (hnow : s.clock ≤ now) {op : RouteLB.Op}
    {agent : RouteLB} (he : RouteLB.Effect cfg now s.agent op agent) :
    ∀ key lb, agent.routeMap.lookup key = some lb → lb.empty = false →
      0 ≤ lb.version ∧ lb.version ≤ now := by
  intro key lb' hk' hemp
  have hclock := h.clock_nonneg
  have hold : ∀ lb, s.agent.routeMap.lookup key = some lb → lb'.version = lb.version →
      (∀ k, k ∈ lb'.hostMap ↔ k ∈ lb.hostMap) → 0 ≤ lb'.version ∧ lb'.version ≤ now := by
    intro lb hk hversion hmem
    have hemp₀ : lb.empty = false := (LB.empty_congr hmem).symm.trans hemp
    have := h.version key lb hk hemp₀
    omega
  rcases effect_lookup h.agent he hk' with
    ⟨lb, hk, hversion, hmem⟩ | hnew | ⟨rsp, lb, rfl, hkey, hk, hne, hup⟩
  · exact hold lb hk hversion hmem
  · rw [hemp] at hnew
    cases hnew
  · by_cases hch : lb.Changes rsp
    · rw [hup.version_of_changes hch]
      omega
    · exact hold lb hk (hup.version_of_not_changes hch) fun k =>
        (hup.keys k).trans (not_not.mp hch k).symm

/-- Every step keeps the invariant. -/
theorem Inv.step [DecidableEq ι] {s s' : CacheNet ι} {e : ℤ × Op ι} (h : s.Inv cfg)
    (hs : s.Step cfg e s') : s'.Inv cfg := by
  have hclock := h.clock_nonneg
  have hclient : ∀ i c, ElbClient.Matched c → ∀ j, (Function.update s.client i c j).Matched := by
    intro i c hc j
    by_cases hj : j = i
    · rw [hj, Function.update_self]
      exact hc
    · rw [Function.update_of_ne hj]
      exact h.matched j
  cases hs with
  | agent hnow hex =>
    have he := (h.agent.result hex).effect
    exact ⟨h.agent.effect he, hclock.trans hnow, h.version_effect hnow he, h.matched⟩
  | @fetch now i modid cmdid ts agent c ret hnow hex =>
    obtain ⟨⟨req, out, hcall⟩, -⟩ := fetch_cases hex
    have he := (h.agent.result hcall).effect
    exact ⟨h.agent.effect he, hclock.trans hnow, h.version_effect hnow he,
      hclient i c (fetch_spec h hex).2.1⟩
  | @locally now i _ _ c _ hnow hcall =>
    refine ⟨h.agent, hclock.trans hnow, fun key lb hk hemp => ?_,
      hclient i c (hcall.sameRoutes.matched (h.matched i))⟩
    have := h.version key lb hk hemp
    exact ⟨this.1, this.2.trans hnow⟩

/-- One step keeps clients and agent coherent exactly if it gives no version away twice. -/
theorem Coherent.step_iff [DecidableEq ι] {s s' : CacheNet ι} {e : ℤ × Op ι} (hc : s.Coherent)
    (h : s.Inv cfg) (hs : s.Step cfg e s') : s'.Coherent ↔ s.SecondIsFresh e := by
  cases hs with
  | @agent now op agent out hnow hex =>
    have he := (h.agent.result hex).effect
    refine ⟨fun hc' rsp lb heq hk hne hch i cu hcu hver host => ?_, fun hfresh =>
      hc.effect h.agent he hfresh now⟩
    cases heq
    obtain ⟨lb', hlb', hup⟩ := LB.update_spec cfg now lb hne
    rw [RouteLB.update_exec hk hne hlb'] at hex
    cases hex
    have hk' : (s.agent.put (packKey rsp.modid rsp.cmdid) lb').routeMap.lookup
        (packKey rsp.modid rsp.cmdid) = some lb' := by simp
    rw [hc' i rsp.modid rsp.cmdid cu lb' hcu hk' (hup.empty_eq hne)
      (hver.trans (hup.version_of_changes hch).symm) host, hup.keys, mem_keys_iff]
  | @fetch now i modid cmdid ts agent c ret hnow hex =>
    refine iff_of_true ?_ (by rintro _ _ ⟨⟩)
    obtain ⟨⟨req, out, hcall⟩, -⟩ := fetch_cases hex
    obtain ⟨hother, -, hthis⟩ := fetch_spec h hex
    have hc₁ : Coherent ⟨s.agent, s.clock, Function.update s.client i c⟩ := by
      refine hc.client (fun m k cu' hcu' => ?_) s.clock
      by_cases hmk : m = modid ∧ k = cmdid
      · obtain ⟨rfl, rfl⟩ := hmk
        rcases fetch_upToDate h hc hex with ⟨-, hnone⟩ | ⟨lb, cu, hk, -, hcu, hholds, -⟩
        · rw [hnone] at hcu'
          cases hcu'
        · obtain rfl := Option.some.inj (hcu.symm.trans hcu')
          exact .inr fun lb' hk' _ => Option.some.inj (hk.symm.trans hk') ▸ hholds
      · exact .inl ⟨cu', by rw [← hother m k hmk, hcu'], .refl cu'⟩
    exact hc₁.effect h.agent (h.agent.result hcall).effect (by rintro _ _ ⟨⟩) now
  | @locally now i _ _ c _ hnow hcall =>
    refine iff_of_true ?_ (by rintro _ _ ⟨⟩)
    exact hc.client (fun modid cmdid cu' hcu' => .inl (hcall.sameRoutes modid cmdid cu' hcu')) now

/-- Without modules and entries there is nothing to hold. -/
theorem inv_init [DecidableEq ι] {s : CacheNet ι} (h : (system cfg).init s) :
    s.Inv cfg ∧ s.Coherent := by
  obtain ⟨⟨id, hagent⟩, hclock, hclient⟩ := h
  have hempty : ∀ i modid cmdid, (s.client i).cache.getCache modid cmdid = none := by
    intro i modid cmdid
    obtain ⟨agentOff, heq⟩ := hclient i
    rw [heq]
    rfl
  refine ⟨⟨hagent ▸ RouteLB.inv_new id, hclock, ?_, ?_⟩, ?_⟩
  · rw [hagent]
    intro key lb hk
    cases hk
  · intro i modid cmdid cu hcu
    rw [hempty] at hcu
    cases hcu
  · intro i modid cmdid cu lb hcu
    rw [hempty] at hcu
    cases hcu

/-- In every run, the refreshes from all of its states are right exactly if no second in which the
hosts of a route change is the version of other hosts already. -/
theorem fetchesRight_iff_secondIsFresh [DecidableEq ι] {s : CacheNet ι} (hs : (system cfg).init s)
    {tr : List ((ℤ × Op ι) × CacheNet ι)} (h : (system cfg).Run s tr) :
    (FetchesRight cfg s ∧ ∀ x ∈ tr, FetchesRight cfg x.2) ↔ System.Along SecondIsFresh s tr := by
  obtain ⟨hinv, hc⟩ := inv_init hs
  rw [and_iff_right (hinv.fetchesRight_iff.mpr hc)]
  refine h.forall_iff_along (I := fun s => s.Inv cfg) (fun s e s' hi hstep => hi.step hstep) ?_ hinv
    (hinv.fetchesRight_iff.mpr hc)
  intro s e s' hi hright hstep
  rw [(hi.step hstep).fetchesRight_iff]
  exact (hi.fetchesRight_iff.mp hright).step_iff hi hstep

/-- An agent without modules and a new client. -/
def start : CacheNet Unit := ⟨.new 1, 5, fun _ => .new false⟩

/-- The client refreshes a module at second `t`. -/
def refreshed (t : ℤ) (s : CacheNet Unit) : CacheNet Unit :=
  match fetch LbConfigure.default t 1 2 t s.agent (s.client ()) with
  | .ok (agent, c, _) => ⟨agent, t, Function.update s.client () c⟩
  | .error _ => s

/-- A response that lists one host arrives at second `t`. -/
def rerouted (t : ℤ) (host : HostAddr) (s : CacheNet Unit) : CacheNet Unit :=
  match s.agent.exec LbConfigure.default t (.update ⟨1, 2, [host]⟩) with
  | .ok (agent, _) => ⟨agent, t, s.client⟩
  | .error _ => s

/-- The client has the route of one host. -/
def routed : CacheNet Unit := refreshed 5 (rerouted 5 ⟨10, 80⟩ (refreshed 5 start))

/-- The run of the example starts in such a state. -/
theorem start_init : (system LbConfigure.default).init start :=
  ⟨⟨1, rfl⟩, by decide, fun _ => ⟨false, rfl⟩⟩

/-- The route changes a second after it was fetched, and the next refresh is right. -/
theorem fetchesRight_after_change :
    FetchesRight LbConfigure.default (rerouted 6 ⟨20, 80⟩ routed) := by
  have h : (system LbConfigure.default).Run start
      [((5, .fetch () 1 2 5), refreshed 5 start),
        ((5, .agent (.update ⟨1, 2, [⟨10, 80⟩]⟩)), rerouted 5 ⟨10, 80⟩ (refreshed 5 start)),
        ((5, .fetch () 1 2 5), routed),
        ((6, .agent (.update ⟨1, 2, [⟨20, 80⟩]⟩)), rerouted 6 ⟨20, 80⟩ routed)] :=
    .cons (.fetch le_rfl rfl) (.cons (.agent le_rfl rfl) (.cons (.fetch le_rfl rfl)
      (.cons (.agent (by decide) rfl) (.nil _))))
  refine ((fetchesRight_iff_secondIsFresh start_init h).mpr ⟨?_, ?_, ?_, ?_, trivial⟩).2 _
    (.tail _ (.tail _ (.tail _ (.head _))))
  · rintro _ _ ⟨⟩
  · rintro _ _ ⟨⟩ - - - _ _ ⟨⟩
  · rintro _ _ ⟨⟩
  · rintro _ _ ⟨⟩ - - - _ _ ⟨⟩ hver
    exact absurd hver (by decide)

/-- Two responses in one second: the next refresh returns 0 and leaves the client with the host of
the first, while the agent has the host of the second. -/
theorem not_fetchesRight : (system LbConfigure.default).Reachable (rerouted 5 ⟨20, 80⟩ routed) ∧
    ¬FetchesRight LbConfigure.default (rerouted 5 ⟨20, 80⟩ routed) := by
  have h₁ : (system LbConfigure.default).Reachable (refreshed 5 start) :=
    .step (e := (5, .fetch () 1 2 5)) (.init start_init) (.fetch le_rfl rfl)
  have h₂ : (system LbConfigure.default).Reachable (rerouted 5 ⟨10, 80⟩ (refreshed 5 start)) :=
    h₁.step (e := (5, .agent (.update ⟨1, 2, [⟨10, 80⟩]⟩))) (.agent le_rfl rfl)
  have h₃ : (system LbConfigure.default).Reachable routed :=
    h₂.step (e := (5, .fetch () 1 2 5)) (.fetch le_rfl rfl)
  refine ⟨h₃.step (e := (5, .agent (.update ⟨1, 2, [⟨20, 80⟩]⟩))) (.agent le_rfl rfl),
    fun hright => ?_⟩
  rcases hright 7 (by decide) () 1 2 7 _ _ rfl with ⟨-, hnone⟩ | ⟨lb, cu, hk, -, hcu, hholds, -⟩
  · cases hnone
  · cases hk
    cases hcu
    exact absurd ((hholds ⟨10, 80⟩).mp (by decide)) (by decide)

end CacheNet

end Elb
