import Elb.Api.LateReply
import Elb.Common.Versions

/-!
# The node list of a cached route

Reference: `elbClient::apiGetHost` and `elbClient::getRoute4Cache` in `api/cpp/elbApi/elbApi.cc`,
`CacheUnit::getHost` in `api/cpp/elbApi/cacheLayer.cc`, `RouteLB::cacheGetRoute` in
`lbagent/src/RouteLb.cc`.

`CacheUnit::getHost` takes the first node of the list. A reply without a route, for a client that
holds the version of the agent, may come late, when the client has removed its entry; it then fills
a new entry with no node. The versions of the client, of the agent and of all datagrams between them
form an `Exchange` for each module, and as long as it is sound such a reply finds the entry that it
is for.
-/

namespace Elb

open Transition Versions

/-! ## Versions of a module -/

/-- A version as the datagrams name it; -1 stands for none. -/
def versionOf (version : ℤ) : Option ℤ := if version = -1 then none else some version

/-- A version that is not -1 is one of a route. -/
theorem versionOf_of_ne {version : ℤ} (h : version ≠ -1) : versionOf version = some version :=
  if_neg h

/-- The version that a request for the module names. -/
def AgentReq.asks (modid cmdid : Int32) : AgentReq → Option (Option ℤ)
  | .cacheGetRoute q =>
    if q.modid = modid ∧ q.cmdid = cmdid then some (versionOf q.version) else none
  | _ => none

/-- What a reply says about the module. -/
def AgentRsp.answers (modid cmdid : Int32) : AgentRsp → Option (Answer ℤ)
  | .cacheGetRoute rsp =>
    if rsp.modid = modid ∧ rsp.cmdid = cmdid then
      some (if rsp.version = -1 then .gone
        else if rsp.route = [] then .same rsp.version else .full rsp.version)
    else none
  | _ => none

namespace RouteLB

variable {R : Type} [RateArith R] {cfg : LbConfigure R} {now : ℤ}

/-- The version under which the agent has a route. -/
def routeVersion (key : UInt64) (s : RouteLB) : Option ℤ :=
  (s.routeMap.lookup key).bind fun lb => if lb.empty then none else some lb.version

/-- A shard has a version for a module exactly if it has a route with hosts for it. -/
theorem routeVersion_eq_some {key : UInt64} {s : RouteLB} {v : ℤ} :
    s.routeVersion key = some v ↔
      ∃ lb, s.routeMap.lookup key = some lb ∧ lb.empty = false ∧ lb.version = v := by
  rw [routeVersion, Option.bind_eq_some_iff]
  constructor
  · rintro ⟨lb, hk, hv⟩
    split at hv
    · cases hv
    · next hemp => exact ⟨lb, hk, by simpa using hemp, Option.some.inj hv⟩
  · rintro ⟨lb, hk, hemp, rfl⟩
    exact ⟨lb, hk, by rw [hemp]; rfl⟩

/-- It has none if the module is missing or has no hosts yet. -/
theorem routeVersion_eq_none {key : UInt64} {s : RouteLB} :
    s.routeVersion key = none ↔ ∀ lb, s.routeMap.lookup key = some lb → lb.empty = true := by
  rw [routeVersion, Option.bind_eq_none_iff]
  refine forall_congr' fun lb => imp_congr_right fun _ => ?_
  split <;> simp_all

/-- The version of a module stays, or is gone, or a response has made it the present second. -/
theorem routeVersion_effect {s s' : RouteLB} {op : Op} (h : s.Inv cfg)
    (he : Effect cfg now s op s') (key : UInt64) :
    s'.routeVersion key = s.routeVersion key ∨ s'.routeVersion key = none ∨
      ∃ rsp lb, op = .update rsp ∧ packKey rsp.modid rsp.cmdid = key ∧ rsp.hosts ≠ [] ∧
        s.routeMap.lookup key = some lb ∧ s'.routeVersion key = some now := by
  cases hver : s'.routeVersion key with
  | none => exact .inr (.inl rfl)
  | some v =>
    obtain ⟨lb', hk', hemp, rfl⟩ := routeVersion_eq_some.mp hver
    have hold : ∀ lb, s.routeMap.lookup key = some lb → lb'.version = lb.version →
        (∀ k, k ∈ lb'.hostMap ↔ k ∈ lb.hostMap) → some lb'.version = s.routeVersion key := by
      intro lb hk hversion hmem
      exact (routeVersion_eq_some.mpr
        ⟨lb, hk, (LB.empty_congr hmem).symm.trans hemp, hversion.symm⟩).symm
    rcases CacheNet.effect_lookup h he hk' with
      ⟨lb, hk, hversion, hmem⟩ | hnew | ⟨rsp, lb, rfl, hkey, hk, hne, hup⟩
    · exact .inl (hold lb hk hversion hmem)
    · rw [hemp] at hnew
      cases hnew
    · by_cases hch : lb.Changes rsp
      · exact .inr (.inr ⟨rsp, lb, rfl, hkey, hne, hk, by rw [hup.version_of_changes hch]⟩)
      · exact .inl (hold lb hk (hup.version_of_not_changes hch) fun k =>
          (hup.keys k).trans (not_not.mp hch k).symm)

/-- The reply of an agent that has a route, for a client that asks under some version. -/
theorem routeReply_answers {lb : LB} (hemp : lb.empty = false) (hver : lb.version ≠ -1)
    (q : CacheGetRouteReq) :
    (AgentRsp.cacheGetRoute (CacheNet.routeReply q.modid q.cmdid q.version lb)).answers
      q.modid q.cmdid = some (Exchange.answer (some lb.version) (versionOf q.version)) := by
  have hroute : lb.getRoute.map HI.addr ≠ [] := by
    rw [LB.empty, List.isEmpty_eq_false_iff] at hemp
    simpa [LB.getRoute] using hemp
  rw [AgentRsp.answers, CacheNet.routeReply]
  dsimp only
  rw [if_pos ⟨rfl, rfl⟩, Exchange.answer, if_neg hver]
  by_cases hq : lb.version = q.version
  · rw [if_neg (not_not.mpr hq), ← hq, versionOf_of_ne hver, if_pos rfl, if_pos rfl]
  · have hne : versionOf q.version ≠ some lb.version := by
      rw [versionOf]
      split
      · simp
      · exact fun heq => hq (Option.some.inj heq).symm
    rw [if_pos hq, if_neg hroute, if_neg hne]

/-- A reply says what an exchange of versions would. -/
theorem exec_answers {s s' : RouteLB} {req : AgentReq} {out : Out}
    (hpos : ∀ key v, s.routeVersion key = some v → 0 ≤ v)
    (hex : s.exec cfg now (.ofReq req) = .ok (s', out)) (modid cmdid : Int32) :
    out.reply.bind (AgentRsp.answers modid cmdid) =
      (req.asks modid cmdid).map (Exchange.answer (s.routeVersion (packKey modid cmdid))) := by
  have hrep := exec_reply hex
  cases req with
  | getHost q =>
    obtain ⟨rsp, heq⟩ := hrep
    rw [heq]
    rfl
  | report q =>
    rw [show out.reply = none from hrep]
    rfl
  | getRouteByTool q =>
    rw [show out.reply = some _ from hrep]
    rfl
  | cacheBatchRpt q =>
    rw [show out.reply = none from hrep]
    rfl
  | cacheGetRoute q =>
    by_cases hids : q.modid = modid ∧ q.cmdid = cmdid
    · obtain ⟨rfl, rfl⟩ := hids
      rw [AgentReq.asks, if_pos ⟨rfl, rfl⟩, Option.map_some]
      rcases CacheNet.cacheGetRoute_reply hex with ⟨hnone, heq⟩ | ⟨lb, hk, hemp, heq⟩
      · rw [heq, Option.bind_some, routeVersion_eq_none.mpr hnone, AgentRsp.answers,
          if_pos ⟨rfl, rfl⟩]
        rfl
      · have hver := routeVersion_eq_some.mpr ⟨lb, hk, hemp, rfl⟩
        have hge : lb.version ≠ -1 := by
          have := hpos _ _ hver
          omega
        rw [heq, Option.bind_some, hver]
        exact routeReply_answers hemp hge q
    · obtain ⟨rsp, heq, hm, hk⟩ := hrep
      rw [heq, Option.bind_some, AgentRsp.answers, AgentReq.asks, hm, hk, if_neg hids,
        if_neg hids]
      rfl

end RouteLB

namespace ElbClient

/-- The version of the entry of a module. -/
def heldVersion (modid cmdid : Int32) (c : ElbClient) : Option ℤ :=
  (c.cache.getCache modid cmdid).map (·.version)

/-- Every entry has a node to take, and a version. -/
def Rotates (c : ElbClient) : Prop :=
  ∀ modid cmdid cu, c.cache.getCache modid cmdid = some cu → cu.nodeList ≠ [] ∧ cu.version ≠ -1

/-- The client asks under the version that it holds. -/
theorem Rotates.asks {c : ElbClient} (h : c.Rotates) (modid cmdid : Int32) :
    versionOf (c.cacheGetRouteReq modid cmdid).version = c.heldVersion modid cmdid := by
  rw [cacheGetRouteReq, heldVersion]
  cases hk : c.cache.getCache modid cmdid with
  | none => rfl
  | some cu => exact versionOf_of_ne (h modid cmdid cu hk).2

/-- Using an entry neither empties nor fills its nodes. -/
theorem nodeList_ne_nil_iff {cu cu' : CacheUnit} (h : cu.SameNodes cu') :
    cu'.nodeList ≠ [] ↔ cu.nodeList ≠ [] := by
  simp only [ne_eq, List.eq_nil_iff_forall_not_mem, h.mem_node]

/-- So the entries of a client keep their nodes as long as they are only used. -/
theorem Rotates.uses {c c' : ElbClient} {modid cmdid : Int32} (h : c.Rotates)
    (huses : c.Uses modid cmdid c') : c'.Rotates := by
  intro m k cu' hcu'
  obtain ⟨cu, hcu, hsame⟩ := huses.sameRoutes m k cu' hcu'
  rw [nodeList_ne_nil_iff hsame, hsame.version_eq]
  exact h m k cu hcu

/-- The agent has no route, so the entry goes. -/
theorem Rotates.rmCache {c : ElbClient} (h : c.Rotates) (modid cmdid : Int32) :
    Rotates { c with cache := c.cache.rmCache modid cmdid } := by
  intro m k cu hcu
  rw [getCache_rmCache] at hcu
  split at hcu
  · cases hcu
  · exact h m k cu hcu

/-- An entry that a reply fills or leaves has a node, if a reply without a route finds the version
that it is for. -/
theorem Rotates.node_of_applied {c : ElbClient} (h : c.Rotates) {modid cmdid : Int32}
    {rsp : CacheGetRouteRsp} {cu' : CacheUnit}
    (hnodes : (∃ cu, c.cache.getCache modid cmdid = some cu ∧ cu.version = rsp.version ∧
        cu.SameNodes cu') ∨
      (c.cacheGetRouteReq modid cmdid).version ≠ rsp.version ∧ cu'.nodeList = rsp.route ∧
        cu'.Matched)
    (hheld : rsp.route = [] → c.heldVersion modid cmdid = some rsp.version) :
    cu'.nodeList ≠ [] := by
  rcases hnodes with ⟨cu, hcu, -, hsame⟩ | ⟨hother, hroute, -⟩
  · exact (nodeList_ne_nil_iff hsame).mpr (h modid cmdid cu hcu).1
  · rw [hroute]
    intro hnil
    have hnamed := hheld hnil
    rw [← h.asks, versionOf] at hnamed
    split at hnamed
    · cases hnamed
    · exact hother (Option.some.inj hnamed)

/-- What a reply brings: the entry has its version, and still a node. -/
theorem Rotates.applyRoute {c : ElbClient} (h : c.Rotates) {modid cmdid : Int32} (ts : ℤ)
    {rsp : CacheGetRouteRsp} {a : Answer ℤ}
    (ha : (AgentRsp.cacheGetRoute rsp).answers modid cmdid = some a)
    (hsame : ∀ u, a = .same u → c.heldVersion modid cmdid = some u) :
    (c.applyRoute modid cmdid ts rsp).Rotates ∧
      ∀ m k, (c.applyRoute modid cmdid ts rsp).heldVersion m k =
        if m = modid ∧ k = cmdid then a.version else c.heldVersion m k := by
  rw [AgentRsp.answers] at ha
  split at ha
  · obtain rfl := Option.some.inj ha
    by_cases hv : rsp.version = -1
    · rw [ElbClient.applyRoute, if_pos hv, if_pos hv]
      refine ⟨h.rmCache modid cmdid, fun m k => ?_⟩
      rw [heldVersion, getCache_rmCache]
      split <;> rfl
    · rw [if_neg hv] at hsame ⊢
      obtain ⟨cu', hcache, -, hversion, hnodes⟩ := applyRoute_cases modid cmdid ts rsp c hv
      have hne := h.node_of_applied hnodes fun hnil => hsame rsp.version (if_pos hnil)
      constructor
      · intro m k cu hcu
        rw [hcache] at hcu
        split at hcu
        · exact Option.some.inj hcu ▸ ⟨hne, hversion ▸ hv⟩
        · exact h m k cu hcu
      · intro m k
        rw [heldVersion, hcache]
        split
        · rw [Option.map_some, hversion]
          split <;> rfl
        · rfl
  · cases ha

/-- `apiGetHost` finds a node. -/
theorem Rotates.pickHost {c : ElbClient} (h : c.Rotates) (modid cmdid : Int32) (env : Env) :
    (c.pickHost modid cmdid env).isSome := by
  rw [ElbClient.pickHost]
  split
  · rfl
  · next cu hk =>
    obtain ⟨host, rest, hnodes⟩ := List.exists_cons_of_ne_nil (h modid cmdid cu hk).1
    split
    · rw [CacheUnit.getHost, hnodes]
      rfl
    · rfl

end ElbClient

/-- The versions of a module between a client and a shard. -/
def Link.versions (l : Link) (c : ElbClient) (modid cmdid : Int32) : Exchange ℤ where
  server := l.agent.routeVersion (packKey modid cmdid)
  held := c.heldVersion modid cmdid
  asked := l.reqs.filterMap fun q => q.2.asks modid cmdid
  sent := l.rsps.filterMap fun r => r.rsp.answers modid cmdid

/-- What holds of a shard and its socket: the versions of every module that the client asks the
shard about are sound, and none is beyond `now`. -/
structure LinkDated {R : Type} [RateArith R] (cfg : LbConfigure R) (now : ℤ) (c : ElbClient)
    (i : Fin 3) (l : Link) : Prop where
  agent : l.agent.Inv cfg
  version_nonneg : ∀ key v, l.agent.routeVersion key = some v → 0 ≤ v
  dated : ∀ modid cmdid, Shard.slot (Shard.elbApiIndex modid cmdid).toInt = some i →
    (l.versions c modid cmdid).Dated now

namespace LinkDated

variable {R : Type} [RateArith R] {cfg : LbConfigure R} {now : ℤ} {c : ElbClient} {i : Fin 3}
  {l : Link}

/-- Time may go on. -/
theorem mono (h : LinkDated cfg now c i l) {now' : ℤ} (hle : now ≤ now') :
    LinkDated cfg now' c i l :=
  ⟨h.agent, h.version_nonneg, fun modid cmdid hi => (h.dated modid cmdid hi).mono hle⟩

/-- A client that holds the same versions. -/
theorem client (h : LinkDated cfg now c i l) {c' : ElbClient}
    (hheld : ∀ modid cmdid, Shard.slot (Shard.elbApiIndex modid cmdid).toInt = some i →
      c'.heldVersion modid cmdid = c.heldVersion modid cmdid) : LinkDated cfg now c' i l := by
  refine ⟨h.agent, h.version_nonneg, fun modid cmdid hi => ?_⟩
  have hd := h.dated modid cmdid hi
  rwa [Link.versions, ← hheld modid cmdid hi] at hd

/-- The shard is called at second `now`. -/
theorem effect (h : LinkDated cfg now c i l) (hnow : 0 ≤ now) {op : RouteLB.Op} {agent : RouteLB}
    (he : RouteLB.Effect cfg now l.agent op agent)
    (hfresh : ∀ rsp lb, op = .update rsp → rsp.hosts ≠ [] →
      l.agent.routeMap.lookup (packKey rsp.modid rsp.cmdid) = some lb → lb.empty = true →
        Shard.slot (Shard.elbApiIndex rsp.modid rsp.cmdid).toInt = some i →
          ¬(l.versions c rsp.modid rsp.cmdid).Token now) :
    LinkDated cfg now c i { l with agent := agent } := by
  refine ⟨h.agent.effect he, fun key v hv => ?_, fun modid cmdid hi => ?_⟩
  · -- the call leaves the version, deletes the module, or sets the version to this second
    rcases RouteLB.routeVersion_effect h.agent he key with heq | heq | ⟨-, -, -, -, -, -, heq⟩
    · exact h.version_nonneg key v (heq ▸ hv)
    · rw [heq] at hv
      cases hv
    · rw [heq] at hv
      cases hv
      exact hnow
  · have hd := h.dated modid cmdid hi
    rw [Link.versions]
    dsimp only
    rcases RouteLB.routeVersion_effect h.agent he (packKey modid cmdid) with
      heq | heq | ⟨rsp, lb, hop, hkey, hne, hk, heq⟩
    · rw [heq]
      exact hd
    · rw [heq]
      exact hd.clear
    · obtain ⟨rfl, rfl⟩ := packKey_inj hkey
      rw [heq]
      refine hd.install fun hnone => ?_
      exact hfresh rsp lb hop hne hk (RouteLB.routeVersion_eq_none.mp hnone lb hk) hi

/-- The client sends a request, which asks under the version that it holds if it asks for one. -/
theorem send (h : LinkDated cfg now c i l) {n : ℕ} {req : AgentReq}
    (hreq : ∀ modid cmdid q, req.asks modid cmdid = some q → q = c.heldVersion modid cmdid) :
    LinkDated cfg now c i { l with reqs := l.reqs ++ [(n, req)] } := by
  refine ⟨h.agent, h.version_nonneg, fun modid cmdid hi => ?_⟩
  have hd := h.dated modid cmdid hi
  rw [Link.versions, List.filterMap_append]
  cases hasks : req.asks modid cmdid with
  | none =>
    simp only [List.filterMap_cons, List.filterMap_nil, hasks, List.append_nil]
    exact hd
  | some q =>
    simp only [List.filterMap_cons, List.filterMap_nil, hasks, hreq modid cmdid q hasks]
    exact hd.ask

/-- The client sends requests that are not answered. -/
theorem tell (h : LinkDated cfg now c i l) (n : ℕ) {sent : List AgentReq}
    (hsent : ∀ req ∈ sent, req.answered = false) :
    LinkDated cfg now c i { l with reqs := l.reqs ++ sent.map fun req => (n, req) } := by
  refine ⟨h.agent, h.version_nonneg, fun modid cmdid hi => ?_⟩
  have hnil : (sent.map fun req => (n, req)).filterMap (fun q => q.2.asks modid cmdid) = [] := by
    rw [List.filterMap_eq_nil_iff]
    intro p hp
    obtain ⟨req, hreq, rfl⟩ := List.mem_map.mp hp
    have hans := hsent req hreq
    cases req with
    | report q => rfl
    | cacheBatchRpt q => rfl
    | getHost q => cases hans
    | getRouteByTool q => cases hans
    | cacheGetRoute q => cases hans
  rw [Link.versions, List.filterMap_append, hnil, List.append_nil]
  exact h.dated modid cmdid hi

/-- The shard handles the first request. -/
theorem handle (h : LinkDated cfg now c i l) (hnow : 0 ≤ now) {n made : ℕ} {req : AgentReq}
    {reqs : List (ℕ × AgentReq)} {agent : RouteLB} {out : RouteLB.Out}
    (hreqs : l.reqs = (n, req) :: reqs)
    (hex : l.agent.exec cfg now (.ofReq req) = .ok (agent, out)) :
    LinkDated cfg now c i ⟨agent, reqs, l.rsps ++ (out.reply.map fun rsp =>
      (⟨n, req, made, l.agent, rsp⟩ : Reply)).toList⟩ := by
  have hanswers := RouteLB.exec_answers h.version_nonneg hex
  -- first the request becomes a reply, with the shard as it was
  have hmid : LinkDated cfg now c i ⟨l.agent, reqs, l.rsps ++ (out.reply.map fun rsp =>
      (⟨n, req, made, l.agent, rsp⟩ : Reply)).toList⟩ := by
    refine ⟨h.agent, h.version_nonneg, fun modid cmdid hi => ?_⟩
    have hd := h.dated modid cmdid hi
    have hsent : (out.reply.map fun rsp =>
        (⟨n, req, made, l.agent, rsp⟩ : Reply)).toList.filterMap
          (fun r => r.rsp.answers modid cmdid) =
            (out.reply.bind (AgentRsp.answers modid cmdid)).toList := by
      cases out.reply with
      | none => rfl
      | some rsp => cases hrsp : rsp.answers modid cmdid <;> simp [hrsp]
    rw [Link.versions, List.filterMap_append, hsent, hanswers modid cmdid]
    dsimp only
    cases hasks : req.asks modid cmdid with
    | none =>
      rw [Option.map_none, Option.toList_none, List.append_nil]
      simp only [Link.versions, hreqs, List.filterMap_cons, hasks] at hd
      exact hd
    | some q =>
      rw [Option.map_some, Option.toList_some]
      simp only [Link.versions, hreqs, List.filterMap_cons, hasks] at hd
      exact hd.answer rfl
  -- then the shard goes on; a request is no response, so no version is set
  refine hmid.effect hnow (h.agent.result hex).effect fun rsp lb hop => ?_
  cases req <;> cases hop

/-- The client throws the first reply away, or datagrams are lost. -/
theorem lose (h : LinkDated cfg now c i l) {reqs : List (ℕ × AgentReq)} {rsps : List Reply}
    (hreqs : reqs.Sublist l.reqs) (hrsps : rsps.Sublist l.rsps) :
    LinkDated cfg now c i { l with reqs := reqs, rsps := rsps } :=
  ⟨h.agent, h.version_nonneg, fun modid cmdid hi =>
    (h.dated modid cmdid hi).lose (hreqs.filterMap _).subset (hrsps.filterMap _)⟩

/-- The client applies the first reply. -/
theorem receive (h : LinkDated cfg now c i l) {r : Reply} {rsps : List Reply}
    (hrsps : l.rsps = r :: rsps) {c' : ElbClient}
    (hheld : ∀ modid cmdid, c'.heldVersion modid cmdid =
      match r.rsp.answers modid cmdid with
      | some a => a.version
      | none => c.heldVersion modid cmdid) :
    LinkDated cfg now c' i { l with rsps := rsps } := by
  refine ⟨h.agent, h.version_nonneg, fun modid cmdid hi => ?_⟩
  have hd := h.dated modid cmdid hi
  rw [Link.versions, hheld modid cmdid]
  cases hans : r.rsp.answers modid cmdid with
  | none =>
    simp only [Link.versions, hrsps, List.filterMap_cons, hans] at hd
    exact hd
  | some a =>
    simp only [Link.versions, hrsps, List.filterMap_cons, hans] at hd
    exact hd.receive rfl

end LinkDated

/-! ## Sessions with a clock -/

/-- A session on one machine, and the time that it has reached. -/
structure TimedSession where
  session : Session
  clock : ℤ

namespace TimedSession

variable {R : Type} [RateArith R] {cfg : LbConfigure R}

/-- A step of the session, or datagrams on a socket are lost. -/
inductive Op
  | session (op : Session.Op)
  | lose (i : Fin 3)

/-- The step can be taken at second `now`. A call of `apiGetHost` has read the clock before it
refreshes an entry, which it does if there is none or it is two seconds old. -/
def At (s : TimedSession) (now : ℤ) : Session.Op → Prop
  | .send (.getRoute4Cache modid cmdid ts) => ts ≤ now ∧
      ∀ cu, s.session.client.cache.getCache modid cmdid = some cu → ts - cu.lstUpdTs ≥ 2
  | .handle _ t => t = now
  | .agent _ t _ => t = now
  | _ => True

/-- One step at a time that is not before the last. -/
inductive Step (cfg : LbConfigure R) (s : TimedSession) : ℤ × Op → TimedSession → Prop
  | session {now : ℤ} {op : Session.Op} {t : Session} (hnow : s.clock ≤ now) (hat : s.At now op)
      (hs : Session.Step cfg s.session op t) : Step cfg s (now, .session op) ⟨t, now⟩
  | lose {now : ℤ} {i : Fin 3} {reqs : List (ℕ × AgentReq)} {rsps : List Reply}
      (hnow : s.clock ≤ now) (hreqs : reqs.Sublist (s.session.link i).reqs)
      (hrsps : rsps.Sublist (s.session.link i).rsps) :
      Step cfg s (now, .lose i)
        ⟨s.session.setLink i { s.session.link i with reqs := reqs, rsps := rsps }, now⟩

/-- Runs from a new client and an agent without modules. Time is counted from an epoch. -/
def system (cfg : LbConfigure R) : System TimedSession (ℤ × Op) where
  init s := (Session.system cfg).init s.session ∧ 0 ≤ s.clock
  step := Step cfg

/-- A response of dnsserver that comes to a shard. -/
def Op.response : Op → Option (Fin 3 × GetRouteRsp)
  | .session (.agent i _ (.update rsp)) => some (i, rsp)
  | _ => none

/-- If a response gives a module without hosts its first ones, then the present second is not the
version of the client's entry, nor in any request or reply about the module on its socket. -/
def FreshVersion (s : TimedSession) (e : ℤ × Op) : Prop :=
  ∀ p ∈ e.2.response,
    ∀ lb ∈ (s.session.link p.1).agent.routeMap.lookup (packKey p.2.modid p.2.cmdid),
      lb.empty = true → p.2.hosts ≠ [] →
        Shard.slot (Shard.elbApiIndex p.2.modid p.2.cmdid).toInt = some p.1 →
          ¬((s.session.link p.1).versions s.session.client p.2.modid p.2.cmdid).Token e.1

/-- The invariant of a session. -/
structure Inv (cfg : LbConfigure R) (s : TimedSession) : Prop where
  clock_nonneg : 0 ≤ s.clock
  rotates : s.session.client.Rotates
  link : ∀ i, LinkDated cfg s.clock s.session.client i (s.session.link i)

/-- A datagram changes the cache only if `getRoute4Cache` applies it. -/
theorem receive_cases (mills : UInt64) (n : ℕ) (rsp : AgentRsp) (c : ElbClient) (call : Call) :
    (Session.receive mills n (some rsp) c call).1.cache = c.cache ∨
      ∃ modid cmdid ts x, call = .getRoute4Cache modid cmdid ts ∧ rsp = .cacheGetRoute x ∧
        x.modid = modid ∧ x.cmdid = cmdid ∧
          (Session.receive mills n (some rsp) c call).1 = c.applyRoute modid cmdid ts x := by
  cases call with
  | getHost seq modid cmdid =>
    left
    simp only [Session.receive]
    split
    · split
      · rfl
      · split <;> rfl
    · rfl
  | getRoute modid cmdid retryCnt => exact .inl rfl
  | getRoute4Cache modid cmdid ts =>
    cases rsp with
    | getHost x => exact .inl rfl
    | getRouteByTool x => exact .inl rfl
    | cacheGetRoute x =>
      -- a reply about another module is thrown away
      by_cases hids : x.modid ≠ modid ∨ x.cmdid ≠ cmdid
      · left
        rw [Session.receive, ElbClient.recvRoute4Cache, if_pos hids]
      · right
        refine ⟨modid, cmdid, ts, x, rfl, rfl, ?_⟩
        rw [Session.receive, ElbClient.recvRoute4Cache, if_neg hids]
        push Not at hids
        exact ⟨hids.1, hids.2, rfl⟩

/-- A time-out leaves the cache alone. -/
theorem timeout_cache (mills : UInt64) (n : ℕ) (c : ElbClient) (call : Call) :
    (Session.receive mills n none c call).1.cache = c.cache := by
  cases call <;> rfl

/-- So does sending a request. -/
theorem sent_cache (c : ElbClient) (call : Call) : (call.sent c).cache = c.cache := by
  cases call <;> rfl

/-- A request asks under the version that the client holds. -/
theorem asks_req {c : ElbClient} (h : c.Rotates) (call : Call) {modid cmdid : Int32}
    {q : Option ℤ} (hq : (call.req c).asks modid cmdid = some q) :
    q = c.heldVersion modid cmdid := by
  cases call with
  | getHost seq m k => cases hq
  | getRoute m k retryCnt => cases hq
  | getRoute4Cache m k ts =>
    rw [Call.req, AgentReq.asks] at hq
    split at hq
    · next hids =>
      rw [ElbClient.cacheGetRouteReq_modid, ElbClient.cacheGetRouteReq_cmdid] at hids
      rw [← Option.some.inj hq, h.asks, hids.1, hids.2]
    · cases hq

/-- A step that replaces one link and leaves the versions of the client as they are. -/
theorem Inv.setLink {s : TimedSession} (h : s.Inv cfg) {now : ℤ} (hnow : s.clock ≤ now)
    {c : ElbClient} {modid cmdid : Int32} (huses : s.session.client.Uses modid cmdid c) {i : Fin 3}
    {l : Link} (hl : LinkDated cfg now s.session.client i l) (next : ℕ) (phase : Phase) :
    Inv cfg ⟨⟨c, Function.update s.session.link i l, next, phase⟩, now⟩ where
  clock_nonneg := h.clock_nonneg.trans hnow
  rotates := h.rotates.uses huses
  link := (Function.forall_update_iff _ fun j l => LinkDated cfg now c j l).mpr
    ⟨hl.client fun m k _ => huses.version_eq m k,
      fun j _ => ((h.link j).mono hnow).client fun m k _ => huses.version_eq m k⟩

/-- The client receives the first reply. -/
theorem Inv.receive {s : TimedSession} (h : s.Inv cfg) {now : ℤ} (hnow : s.clock ≤ now) {n : ℕ}
    {call : Call} {i : Fin 3} {r : Reply} {rsps : List Reply} (mills : UInt64)
    (hi : call.index = some i) (hrsps : (s.session.link i).rsps = r :: rsps) (next : ℕ)
    (phase : Phase) :
    Inv cfg ⟨⟨(Session.receive mills n (some r.rsp) s.session.client call).1,
      Function.update s.session.link i { s.session.link i with rsps := rsps }, next, phase⟩,
        now⟩ := by
  have hl := (h.link i).mono hnow
  rcases receive_cases mills n r.rsp s.session.client call with
    heq | ⟨modid, cmdid, ts, x, rfl, hx, hm, hk, heq⟩
  · exact h.setLink hnow (show s.session.client.Uses 0 0 _ from .inl heq)
      (hl.lose (.refl _) (hrsps ▸ List.sublist_cons_self r rsps)) next phase
  · -- the reply is about the module of the call
    obtain ⟨a, ha⟩ : ∃ a, r.rsp.answers modid cmdid = some a := by
      rw [hx, AgentRsp.answers, if_pos ⟨hm, hk⟩]
      exact ⟨_, rfl⟩
    -- for every other module it is as if it was lost
    have hother : ∀ m k, ¬(m = modid ∧ k = cmdid) → r.rsp.answers m k = none := by
      intro m k hne
      rw [hx, AgentRsp.answers, if_neg fun hids => hne ⟨hids.1.symm.trans hm, hids.2.symm.trans hk⟩]
    obtain ⟨hrot, hheld⟩ := h.rotates.applyRoute ts (hx ▸ ha) fun u hu =>
      (hl.dated modid cmdid hi).same u (by
        simp only [Link.versions, hrsps, List.filterMap_cons, ha, hu]
        exact List.mem_cons_self)
    rw [heq]
    refine ⟨h.clock_nonneg.trans hnow, hrot,
      (Function.forall_update_iff _ fun j l => LinkDated cfg now _ j l).mpr
        ⟨hl.receive hrsps fun m k => ?_, fun j hj => ?_⟩⟩
    · rw [hheld]
      split
      · next hids => rw [hids.1, hids.2, ha]
      · next hids => rw [hother m k hids]
    · -- the other shards are asked about other modules
      refine ((h.link j).mono hnow).client fun m k hj' => ?_
      rw [hheld, if_neg]
      rintro ⟨rfl, rfl⟩
      exact hj (Option.some.inj (hj'.symm.trans hi))

/-- Every step that finds its second fresh keeps the invariant. -/
theorem Inv.step {s s' : TimedSession} {e : ℤ × Op} (h : s.Inv cfg) (hf : s.FreshVersion e)
    (hs : Step cfg s e s') : s'.Inv cfg := by
  cases hs with
  | @lose now i reqs rsps hnow hreqs hrsps =>
    -- what is left is in the same order
    exact h.setLink hnow (.refl _ 0 0) (((h.link i).mono hnow).lose hreqs hrsps) _ _
  | @session now op t hnow hat hs =>
    have hpos := h.clock_nonneg.trans hnow
    cases hs with
    | @send call i hphase hi hseq =>
      exact h.setLink hnow (show s.session.client.Uses 0 0 _ from .inl (sent_cache _ call))
        (((h.link i).mono hnow).send fun m k q hq => asks_req h.rotates call hq) _ _
    | register hphase => exact ⟨hpos, h.rotates, fun j => (h.link j).mono hnow⟩
    | offline hphase => exact ⟨hpos, h.rotates, fun j => (h.link j).mono hnow⟩
    | @tell modid cmdid i c sent hphase hi hcall hsent =>
      exact h.setLink hnow hcall.uses (((h.link i).mono hnow).tell s.session.next hsent) _ _
    | @handle i n req reqs _ agent out hreqs hex =>
      obtain rfl := hat
      exact h.setLink hnow (.refl _ 0 0) (((h.link i).mono hnow).handle hpos hreqs hex) _ _
    | @agent i _ op agent out hex =>
      obtain rfl := hat
      have hl := (h.link i).mono hnow
      refine h.setLink hnow (.refl _ 0 0) (hl.effect hpos (hl.agent.result hex).effect
        fun rsp lb hop hne hk hemp hi => ?_) _ _
      subst hop
      exact hf (i, rsp) rfl lb hk hemp hne hi
    | @receive n call i r rsps mills hphase hi hrsps => exact h.receive hnow mills hi hrsps _ _
    | @timeout n call mills hphase =>
      have huses : s.session.client.Uses 0 0
          (Session.receive mills n none s.session.client call).1 :=
        .inl (timeout_cache mills n _ call)
      exact ⟨hpos, h.rotates.uses huses, fun j =>
        ((h.link j).mono hnow).client fun m k _ => huses.version_eq m k⟩

/-- Without entries, versions and datagrams there is nothing to hold. -/
theorem inv_init {s : TimedSession} (h : (system cfg).init s) : s.Inv cfg := by
  obtain ⟨⟨-, ⟨agentOff, hclient⟩, hlink⟩, hclock⟩ := h
  refine ⟨hclock, ?_, fun i => ?_⟩
  · rw [hclient]
    rintro modid cmdid cu ⟨⟩
  · obtain ⟨id, heq⟩ := hlink i
    rw [heq, hclient]
    refine ⟨RouteLB.inv_new id, ?_, fun modid cmdid _ => Exchange.dated_new s.clock⟩
    rintro key v ⟨⟩

/-- In every run in which the versions of re-created modules are fresh, every entry of the cache has
a node, and `apiGetHost` finds one. -/
theorem nodeList_ne_nil {s : TimedSession} (h : ((system cfg).restrict FreshVersion).Reachable s) :
    (∀ cu ∈ s.session.client.cache.getAll, cu.nodeList ≠ []) ∧
      ∀ modid cmdid env, (s.session.client.pickHost modid cmdid env).isSome := by
  have hinv : s.Inv cfg := by
    refine h.invariant (P := fun s => s.Inv cfg) ?_ ?_
    · exact fun s hs => inv_init hs
    · rintro s e s' - hinv ⟨hf, hs⟩
      exact hinv.step hf hs
  refine ⟨fun cu hcu => ?_, hinv.rotates.pickHost⟩
  obtain ⟨⟨key, _⟩, he, rfl⟩ := List.mem_map.mp hcu
  obtain ⟨modid, cmdid, rfl⟩ := packKey_surj key
  exact (hinv.rotates modid cmdid _ (HashMap.mem_entries_iff.mp he)).1

end TimedSession

/-! ## Two runs -/

namespace Session

variable {R : Type} [RateArith R] {cfg : LbConfigure R}

/-- The session after a call of `getRoute4Cache` is made, or after a step that a shard or a waiting
call takes, if it can be taken. -/
def after (cfg : LbConfigure R) (s : Session) : Op → Option Session
  | .send (.getRoute4Cache modid cmdid ts) =>
    match s.phase, (Call.getRoute4Cache modid cmdid ts).index with
    | .idle, some i => some
        { s.setLink i { s.link i with reqs := (s.link i).reqs ++
            [(s.next, (Call.getRoute4Cache modid cmdid ts).req s.client)] } with
          next := s.next + 1
          phase := .waiting s.next (.getRoute4Cache modid cmdid ts) }
    | _, _ => none
  | .handle i now =>
    match (s.link i).reqs with
    | [] => none
    | (n, req) :: reqs =>
      match (s.link i).agent.exec cfg now (.ofReq req) with
      | .error _ => none
      | .ok (agent, out) => some (s.setLink i ⟨agent, reqs, (s.link i).rsps ++
          (out.reply.map fun rsp => (⟨n, req, s.next, (s.link i).agent, rsp⟩ : Reply)).toList⟩)
  | .agent i now op =>
    match (s.link i).agent.exec cfg now op with
    | .error _ => none
    | .ok (agent, _) => some (s.setLink i { s.link i with agent := agent })
  | .receive =>
    match s.phase with
    | .waiting n call =>
      match call.index with
      | none => none
      | some i =>
        match (s.link i).rsps with
        | [] => none
        | r :: rsps => some
            { s.setLink i { s.link i with rsps := rsps } with
              client := (Session.receive 0 n (some r.rsp) s.client call).1
              phase := (Session.receive 0 n (some r.rsp) s.client call).2 }
    | _ => none
  | .timeout =>
    match s.phase with
    | .waiting n call => some
        { s with
          client := (Session.receive 0 n none s.client call).1
          phase := (Session.receive 0 n none s.client call).2 }
    | _ => none
  | _ => none

/-- What `after` computes is a step. -/
theorem step_of_after {s s' : Session} {op : Op} (h : s.after cfg op = some s') :
    Step cfg s op s' := by
  unfold after at h
  split at h
  · split at h
    · next hphase hi =>
      obtain rfl := Option.some.inj h
      refine .send (hphase ▸ trivial) hi ?_
      rintro _ _ _ ⟨⟩
    · cases h
  · split at h
    · cases h
    · next hreqs =>
      split at h
      · cases h
      · next hex =>
        obtain rfl := Option.some.inj h
        exact .handle hreqs hex
  · split at h
    · cases h
    · next hex =>
      obtain rfl := Option.some.inj h
      exact .agent hex
  · split at h
    · next hphase =>
      split at h
      · cases h
      · next hi =>
        split at h
        · cases h
        · next hrsps =>
          obtain rfl := Option.some.inj h
          exact .receive 0 hphase hi hrsps
    · cases h
  · split at h
    · next hphase =>
      obtain rfl := Option.some.inj h
      exact .timeout 0 hphase
    · cases h
  · cases h

end Session

namespace TimedSession

instance (s : TimedSession) (now : ℤ) : ∀ op, Decidable (s.At now op)
  | .send (.getRoute4Cache modid cmdid ts) => inferInstanceAs (Decidable (ts ≤ now ∧
      ∀ cu ∈ s.session.client.cache.getCache modid cmdid, ts - cu.lstUpdTs ≥ 2))
  | .send (.getHost _ _ _) => .isTrue trivial
  | .send (.getRoute _ _ _) => .isTrue trivial
  | .register _ _ => .isTrue trivial
  | .offline => .isTrue trivial
  | .tell => .isTrue trivial
  | .handle _ t => inferInstanceAs (Decidable (t = now))
  | .agent _ t _ => inferInstanceAs (Decidable (t = now))
  | .receive => .isTrue trivial
  | .timeout => .isTrue trivial

instance (s : TimedSession) (e : ℤ × Op) : Decidable (s.FreshVersion e) :=
  inferInstanceAs (Decidable (∀ p ∈ e.2.response,
    ∀ lb ∈ (s.session.link p.1).agent.routeMap.lookup (packKey p.2.modid p.2.cmdid),
      _ → _ → _ → ¬_))

/-- The state after an event, if it is possible. -/
def after (s : TimedSession) (e : ℤ × Op) : Option TimedSession :=
  match e.2 with
  | .session op =>
    if s.clock ≤ e.1 ∧ s.At e.1 op then
      (s.session.after LbConfigure.default op).map fun t => ⟨t, e.1⟩
    else
      none
  | .lose _ => none

/-- What `after` computes is a step of the run with a clock. -/
theorem step_of_after {s s' : TimedSession} {e : ℤ × Op} (h : s.after e = some s') :
    Step LbConfigure.default s e s' := by
  obtain ⟨now, op⟩ := e
  cases op with
  | lose i => cases h
  | session op =>
    simp only [after] at h
    split at h
    · next hat =>
      obtain ⟨t, ht, rfl⟩ := Option.map_eq_some_iff.mp h
      exact .session hat.1 hat.2 (Session.step_of_after ht)
    · cases h

/-- The same, if the event meets the condition. -/
def freshAfter (s : TimedSession) (e : ℤ × Op) : Option TimedSession :=
  if s.FreshVersion e then s.after e else none

/-- It meets the condition too, if that is checked. -/
theorem step_of_freshAfter {s s' : TimedSession} {e : ℤ × Op} (h : s.freshAfter e = some s') :
    ((system LbConfigure.default).restrict FreshVersion).step s e s' := by
  rw [freshAfter] at h
  split at h
  · next hf => exact ⟨hf, step_of_after h⟩
  · cases h

/-- A new client and a new agent. -/
def start : TimedSession := ⟨Session.start, 5⟩

/-- The runs of the examples start in such a state. -/
theorem start_init : (system LbConfigure.default).init start := ⟨Session.start_init, by decide⟩

/-- A call of `getRoute4Cache` about the one module of these runs. -/
def fetch (ts : ℤ) : ℤ × Op := (ts, .session (.send (.getRoute4Cache 1 2 ts)))

/-- Another client asks for this module. -/
def ask (i : Fin 3) (now : ℤ) : ℤ × Op := (now, .session (.agent i now (.getHost ⟨0, 1, 2⟩)))

/-- A response about this module. -/
def respond (i : Fin 3) (now : ℤ) (hosts : List HostAddr) : ℤ × Op :=
  (now, .session (.agent i now (.update ⟨1, 2, hosts⟩)))

/-- The shard of the module handles the first request, and the waiting call goes on with its reply
or without. -/
def handle (i : Fin 3) (now : ℤ) : ℤ × Op := (now, .session (.handle i now))

/-- The waiting call receives its first reply. -/
def receive (now : ℤ) : ℤ × Op := (now, .session .receive)

/-- The waiting call gives up. -/
def timeout (now : ℤ) : ℤ × Op := (now, .session .timeout)

/-- Another client has asked for the module, its route arrives, and this client asks for it. -/
def fetched (i : Fin 3) : List (ℤ × Op) := [ask i 5, respond i 5 [⟨10, 80⟩], fetch 5, handle i 5]

/-- The module is deleted, comes back two seconds later, and is fetched again. -/
def recreatedLater (i : Fin 3) : List (ℤ × Op) :=
  fetched i ++ [receive 5, respond i 6 [], ask i 6, respond i 8 [⟨20, 80⟩], fetch 8, handle i 8,
    receive 8]

/-- The module is deleted and comes back in the second of its version. The client receives the reply
to its first call in the second, and the reply to the second in the third, which asks under that
version; the reply to the third has no route, and comes when the entry is gone. -/
def recreatedAtOnce (i : Fin 3) : List (ℤ × Op) :=
  fetched i ++ [timeout 5, fetch 5, receive 5, respond i 5 [], handle i 5, respond i 5 [⟨20, 80⟩],
    fetch 7, receive 7, handle i 7, fetch 7, receive 7]

/-- After the module has come back the client has its new route. -/
theorem nodeList_after_recreate : ∃ s : TimedSession,
    s.session.client.cache.getAll.map (·.nodeList) = [[⟨20, 80⟩]] ∧
      (∀ cu ∈ s.session.client.cache.getAll, cu.nodeList ≠ []) ∧
        ∀ modid cmdid env, (s.session.client.pickHost modid cmdid env).isSome := by
  obtain ⟨s, hs, hnodes⟩ := System.Reachable.foldlM
    (T := (system LbConfigure.default).restrict FreshVersion) (fun _ _ _ => step_of_freshAfter)
    (.init start_init)
    (p := fun s => s.session.client.cache.getAll.map (·.nodeList) = [[⟨20, 80⟩]])
    (show ((recreatedLater 0).foldlM freshAfter start).any _ = true by decide +kernel)
  exact ⟨s, of_decide_eq_true hnodes, nodeList_ne_nil hs⟩

/-- When the second of a version comes back, the cache has an entry without nodes and `apiGetHost`
takes the first of them. -/
theorem not_nodeList_ne_nil : ∃ s, (system LbConfigure.default).Reachable s ∧
    (∃ cu ∈ s.session.client.cache.getAll, cu.nodeList = []) ∧
      s.session.client.pickHost 1 2 ⟨false, none, 7, 0, none, none, []⟩ = none := by
  obtain ⟨s, hs, hnil⟩ := System.Reachable.foldlM (T := system LbConfigure.default)
    (fun _ _ _ => step_of_after) (.init start_init)
    (p := fun s => (∃ cu ∈ s.session.client.cache.getAll, cu.nodeList = []) ∧
      (s.session.client.pickHost 1 2 ⟨false, none, 7, 0, none, none, []⟩).isNone)
    (show ((recreatedAtOnce 0).foldlM after start).any _ = true by decide +kernel)
  obtain ⟨hcu, hnone⟩ := of_decide_eq_true hnil
  exact ⟨s, hs, hcu, Option.isNone_iff_eq_none.mp hnone⟩

end TimedSession

end Elb
