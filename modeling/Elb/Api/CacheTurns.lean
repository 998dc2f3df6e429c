import Elb.Api.CacheCounters
import Elb.Common.Queue

/-!
# The cache serves in turn

Reference: `CacheUnit::getHost` in `api/cpp/elbApi/cacheLayer.cc`, `elbClient::apiGetHost`,
`elbClient::getRoute4Cache` and `elbClient::apiReportRes` in `api/cpp/elbApi/elbApi.cc`.

An entry is rotated with every host that the cache serves from it, and by nothing else: reports and
batches leave its nodes alone, a refresh keeps them or gives the entry another version, and hosts
that the agent is asked for are not counted.
-/

namespace Elb

open Transition

/-- The request asks the agent for a host. -/
def AgentReq.asksHost : AgentReq → Bool
  | .getHost _ => true
  | _ => false

namespace ElbClient

variable {c c' : ElbClient} {modid cmdid m k : Int32}

/-! ## The nodes of an entry -/

/-- The version of the module's entry and its nodes in their order. -/
def shape (modid cmdid : Int32) (c : ElbClient) : Option (ℤ × List HostAddr) :=
  (c.cache.getCache modid cmdid).map fun cu => (cu.version, cu.nodeList)

/-- Storing an entry concerns its module only. -/
theorem shape_addCache {cu : CacheUnit}
    (h : c'.cache = c.cache.addCache m k cu) (modid cmdid : Int32) :
    c'.shape modid cmdid =
      if modid = m ∧ cmdid = k then some (cu.version, cu.nodeList) else c.shape modid cmdid := by
  rw [shape, h, getCache_addCache]
  split <;> rfl

/-- A batch leaves the nodes alone, and asks for no host. -/
theorem shape_flush (m k : Int32) (c : ElbClient) (modid cmdid : Int32) :
    (c.flush m k).1.shape modid cmdid = c.shape modid cmdid ∧
      ∀ req ∈ (c.flush m k).2, req.asksHost = false := by
  rw [flush]
  cases hcu : c.cache.getCache m k with
  | none => exact ⟨rfl, by simp⟩
  | some cu =>
    have hsame : cu.batchReportRes.1.version = cu.version ∧
        cu.batchReportRes.1.nodeList = cu.nodeList ∧
          ∀ req ∈ cu.batchReportRes.2, req.asksHost = false := by
      rw [CacheUnit.batchReportRes]
      split
      · exact ⟨rfl, rfl, by simp⟩
      · exact ⟨rfl, rfl, by simp [AgentReq.asksHost]⟩
    obtain ⟨hver, hnodes, hsent⟩ := hsame
    refine ⟨?_, hsent⟩
    rw [shape_addCache rfl, hver, hnodes]
    split
    · next hids => rw [shape, hids.1, hids.2, hcu, Option.map_some]
    · rfl

/-- Reporting leaves the nodes and their order alone. -/
theorem shape_apiReportRes (m k : Int32) (host : HostAddr) (retcode : Int32) (mills : UInt64)
    (c : ElbClient) (modid cmdid : Int32) :
    (c.apiReportRes m k host retcode mills).1.shape modid cmdid = c.shape modid cmdid := by
  rw [apiReportRes]
  split
  · rfl
  · cases hcu : c.cache.getCache m k with
    | none => rfl
    | some cu =>
      dsimp only
      split
      · split
        · have hsame : (cu.report host).version = cu.version ∧
              (cu.report host).nodeList = cu.nodeList := by
            rw [CacheUnit.report]
            split <;> exact ⟨rfl, rfl⟩
          rw [shape_addCache rfl, hsame.1, hsame.2]
          split
          · next hids => rw [shape, hids.1, hids.2, hcu, Option.map_some]
          · rfl
        · exact (shape_flush m k c modid cmdid).1
      · rfl

/-- A refresh concerns the entry of its module. It keeps the nodes or gives the entry another
version, and it asks for no host. -/
theorem shape_getRoute4Cache (m k : Int32) (ts : ℤ) (recv : Option AgentRsp) (c : ElbClient) :
    (∀ modid cmdid, ¬(modid = m ∧ cmdid = k) →
        (c.getRoute4Cache m k ts recv).1.shape modid cmdid = c.shape modid cmdid) ∧
      (∀ v nodes nodes', c.shape m k = some (v, nodes) →
        (c.getRoute4Cache m k ts recv).1.shape m k = some (v, nodes') → nodes' = nodes) ∧
      ∀ req ∈ (c.getRoute4Cache m k ts recv).2.2, req.asksHost = false := by
  have hkept : ∀ v nodes nodes', c.shape m k = some (v, nodes) →
      c.shape m k = some (v, nodes') → nodes' = nodes := by
    intro v nodes nodes' h h'
    exact (Prod.mk.inj (Option.some.inj (h'.symm.trans h))).2
  have hsent : ∀ req ∈ (c.getRoute4Cache m k ts recv).2.2, req.asksHost = false := by
    simp [getRoute4Cache, AgentReq.asksHost]
  rcases recv with _ | (_ | _ | rsp)
  · exact ⟨fun _ _ _ => rfl, hkept, hsent⟩
  · exact ⟨fun _ _ _ => rfl, hkept, hsent⟩
  · exact ⟨fun _ _ _ => rfl, hkept, hsent⟩
  · rw [getRoute4Cache, recvRoute4Cache] at hsent ⊢
    dsimp only at hsent ⊢
    split
    · exact ⟨fun _ _ _ => rfl, hkept, by simp [AgentReq.asksHost]⟩
    · refine ⟨fun modid cmdid hids => ?_, fun v nodes nodes' h h' => ?_,
        by simp [AgentReq.asksHost]⟩
      · rw [applyRoute]
        split
        · rw [shape, getCache_rmCache, if_neg hids]
          rfl
        · split <;> rw [shape_addCache rfl, if_neg hids]
      · -- the entry is removed, filled or kept; filled it has another version
        rw [applyRoute] at h'
        split at h'
        · rw [shape, getCache_rmCache, if_pos ⟨rfl, rfl⟩] at h'
          cases h'
        · rw [shape, Option.map_eq_some_iff] at h
          obtain ⟨cu, hcu, heq⟩ := h
          cases heq
          rw [hcu, shape_addCache rfl, if_pos ⟨rfl, rfl⟩] at h'
          split at h'
          · next hver => exact absurd (Prod.mk.inj (Option.some.inj h')).1 hver
          · exact (Prod.mk.inj (Option.some.inj h')).2.symm

/-! ## Calls -/

/-- The host that a call returns, unless the agent was asked for it. -/
def fromCache (answer : Int32 × Option HostAddr) (sent : List AgentReq) : Option HostAddr :=
  if sent.any AgentReq.asksHost then none else answer.2

/-- Batches and refreshes sent before do not count as asking for a host. -/
theorem fromCache_append {answer : Int32 × Option HostAddr} {sent sent' : List AgentReq}
    (h : ∀ req ∈ sent, req.asksHost = false) :
    fromCache answer (sent ++ sent') = fromCache answer sent' := by
  have hnone : sent.any AgentReq.asksHost = false := List.any_eq_false.mpr fun req hreq => by
    rw [h req hreq]
    exact Bool.false_ne_true
  rw [fromCache, List.any_append, hnone, Bool.false_or, fromCache]

/-- The entry is rotated if a host is served from it, and everything else stays. -/
theorem shape_pickHost {env : Env} {answer : Int32 × Option HostAddr} {sent : List AgentReq}
    (h : c.pickHost m k env = some (c', answer, sent)) :
    (fromCache answer sent = none ∧ ∀ modid cmdid, c'.shape modid cmdid = c.shape modid cmdid) ∨
      ∃ host rest v, fromCache answer sent = some host ∧ c.shape m k = some (v, host :: rest) ∧
        ∀ modid cmdid, c'.shape modid cmdid =
          if modid = m ∧ cmdid = k then some (v, rest ++ [host]) else c.shape modid cmdid := by
  rw [pickHost] at h
  split at h
  · cases h
    exact .inl ⟨rfl, fun _ _ => rfl⟩
  · next cu hcu =>
    split at h
    · obtain ⟨⟨host, cu'⟩, hget, heq⟩ := Option.bind_eq_some_iff.mp h
      cases heq
      rw [CacheUnit.getHost] at hget
      split at hget
      · cases hget
      · next rest hnodes =>
        cases hget
        refine .inr ⟨host, rest, cu.version, rfl, ?_, fun modid cmdid => ?_⟩
        · rw [shape, hcu, Option.map_some, hnodes]
        · rw [shape_addCache rfl]
    · cases h
      exact .inl ⟨rfl, fun _ _ => rfl⟩

/-- The host at the front of the nodes is served and goes to their end, or no host is. -/
def Turn (nodes nodes' : List HostAddr) (served : Option HostAddr) : Prop :=
  served = none ∧ nodes' = nodes ∨
    ∃ host rest, served = some host ∧ nodes = host :: rest ∧ nodes' = rest ++ [host]

/-- The end of `apiGetHost` serves the host at the front, or none. -/
theorem turn_pickHost {env : Env} {answer : Int32 × Option HostAddr} {sent : List AgentReq}
    (h : c.pickHost m k env = some (c', answer, sent)) {v : ℤ} {nodes nodes' : List HostAddr}
    (hc : c.shape m k = some (v, nodes)) (hc' : c'.shape m k = some (v, nodes')) :
    Turn nodes nodes' (fromCache answer sent) := by
  rcases shape_pickHost h with ⟨hnone, hshape⟩ | ⟨host, rest, v', hserved, hfront, hshape⟩
  · rw [hshape, hc] at hc'
    cases hc'
    exact .inl ⟨hnone, rfl⟩
  · rw [hshape, if_pos ⟨rfl, rfl⟩] at hc'
    rw [hfront] at hc
    cases hc
    cases hc'
    exact .inr ⟨host, rest, hserved, rfl, rfl⟩

/-- The end of a call gives no entry another version. -/
theorem shape_of_pickHost {env : Env} {answer : Int32 × Option HostAddr} {sent : List AgentReq}
    (h : c.pickHost m k env = some (c', answer, sent)) {v : ℤ} {nodes' : List HostAddr}
    (hc' : c'.shape m k = some (v, nodes')) : ∃ nodes, c.shape m k = some (v, nodes) := by
  rcases shape_pickHost h with ⟨-, hshape⟩ | ⟨host, rest, v', -, hfront, hshape⟩
  · exact ⟨nodes', hshape m k ▸ hc'⟩
  · rw [hshape, if_pos ⟨rfl, rfl⟩] at hc'
    cases hc'
    exact ⟨_, hfront⟩

/-- So does the rest of it, if the refresh leaves the version. -/
theorem turn_refreshHost {env : Env} {answer : Int32 × Option HostAddr} {sent : List AgentReq}
    (h : c.refreshHost m k env = some (c', answer, sent)) {v : ℤ} {nodes nodes' : List HostAddr}
    (hc : c.shape m k = some (v, nodes)) (hc' : c'.shape m k = some (v, nodes')) :
    Turn nodes nodes' (fromCache answer sent) := by
  rw [refreshHost] at h
  split at h
  · next hcu =>
    rw [shape, hcu] at hc
    cases hc
  · split at h
    · obtain ⟨⟨c₃, answer₃, sent₃⟩, hpick, heq⟩ := Option.bind_eq_some_iff.mp h
      cases heq
      obtain ⟨-, hkept, hsent₂⟩ := shape_getRoute4Cache m k env.now env.again (c.flush m k).1
      obtain ⟨hflush, hsent₁⟩ := shape_flush m k c m k
      -- the refresh has left the version, and so the nodes
      obtain ⟨nodes₂, hc₂⟩ := shape_of_pickHost hpick hc'
      obtain rfl := hkept v nodes nodes₂ (hflush.trans hc) hc₂
      have hsent : ∀ req ∈ (c.flush m k).2 ++
          ((c.flush m k).1.getRoute4Cache m k env.now env.again).2.2, req.asksHost = false := by
        intro req hreq
        rcases List.mem_append.mp hreq with hreq | hreq
        · exact hsent₁ req hreq
        · exact hsent₂ req hreq
      have hturn := turn_pickHost hpick hc₂ hc'
      rw [← fromCache_append hsent] at hturn
      exact hturn
    · exact turn_pickHost h hc hc'

/-- A call about another module leaves the entry alone. -/
theorem shape_apiGetHost_of_ne {env : Env} {answer : Int32 × Option HostAddr}
    {sent : List AgentReq} (h : c.apiGetHost m k env = some (c', answer, sent))
    (hids : ¬(modid = m ∧ cmdid = k)) : c'.shape modid cmdid = c.shape modid cmdid := by
  have hpick : ∀ {c₀ c₁ : ElbClient} {answer : Int32 × Option HostAddr} {sent : List AgentReq},
      c₀.pickHost m k env = some (c₁, answer, sent) →
        c₁.shape modid cmdid = c₀.shape modid cmdid := by
    intro c₀ c₁ answer sent h
    rcases shape_pickHost h with ⟨-, hshape⟩ | ⟨host, rest, v, -, -, hshape⟩
    · exact hshape modid cmdid
    · rw [hshape, if_neg hids]
  have hrefresh : ∀ {c₀ c₁ : ElbClient} {answer : Int32 × Option HostAddr} {sent : List AgentReq},
      c₀.refreshHost m k env = some (c₁, answer, sent) →
        c₁.shape modid cmdid = c₀.shape modid cmdid := by
    intro c₀ c₁ answer sent h
    rw [refreshHost] at h
    split at h
    · cases h
      rfl
    · split at h
      · obtain ⟨⟨c₃, answer₃, sent₃⟩, hp, heq⟩ := Option.bind_eq_some_iff.mp h
        cases heq
        have hroute := shape_getRoute4Cache m k env.now env.again (c₀.flush m k).1
        exact (hpick hp).trans ((hroute.1 modid cmdid hids).trans
          (shape_flush m k c₀ modid cmdid).1)
      · exact hpick h
  rw [apiGetHost] at h
  split at h
  · split at h <;> cases h <;> rfl
  · dsimp only at h
    have halive : shape modid cmdid { c with agentOff := false } = c.shape modid cmdid := rfl
    -- without an entry the route is asked for first
    have hroute := (shape_getRoute4Cache m k env.now env.first { c with agentOff := false }).1
    split at h
    · rw [hrefresh h, halive]
    · split at h
      · cases h
        exact hroute modid cmdid hids
      · obtain ⟨⟨c₂, answer₂, sent₂⟩, hr, heq⟩ := Option.bind_eq_some_iff.mp h
        cases heq
        exact (hrefresh hr).trans (hroute modid cmdid hids)

/-! ## Runs -/

/-- The host of the module that the cache serves in the call. -/
def served (modid cmdid : Int32) (c : ElbClient) : Op → Option HostAddr
  | .apiGetHost m k env =>
    if modid = m ∧ cmdid = k ∧ env.die = false then
      (c.apiGetHost m k env).bind fun res => fromCache res.2.1 res.2.2
    else none
  | .apiReportRes _ _ _ _ _ => none

/-- A call that leaves the version of the entry. -/
theorem turn_of_step {op : Op} (hs : system.step c op c') {v : ℤ} {nodes nodes' : List HostAddr}
    (hc : c.shape modid cmdid = some (v, nodes)) (hc' : c'.shape modid cmdid = some (v, nodes')) :
    Turn nodes nodes' (c.served modid cmdid op) := by
  have hsame : ∀ op', c.served modid cmdid op' = none →
      c'.shape modid cmdid = c.shape modid cmdid →
        Turn nodes nodes' (c.served modid cmdid op') := by
    intro op' hnone hshape
    rw [hshape, hc] at hc'
    cases hc'
    exact .inl ⟨hnone, rfl⟩
  cases op with
  | apiReportRes m k host retcode mills =>
    have heq : c' = (c.apiReportRes m k host retcode mills).1 := hs
    exact hsame _ rfl (heq ▸ shape_apiReportRes m k host retcode mills c modid cmdid)
  | apiGetHost m k env =>
    obtain ⟨answer, sent, hcall⟩ := hs
    by_cases hids : modid = m ∧ cmdid = k
    · obtain ⟨rfl, rfl⟩ := hids
      cases hdie : env.die with
      | true =>
        refine hsame _ (by simp [served, hdie]) ?_
        rw [apiGetHost, if_pos hdie] at hcall
        split at hcall <;> cases hcall <;> rfl
      | false =>
        have hserved : c.served modid cmdid (.apiGetHost modid cmdid env) =
            fromCache answer sent := by
          rw [served, if_pos ⟨rfl, rfl, hdie⟩, hcall]
          rfl
        rw [hserved]
        rw [apiGetHost, if_neg (by simp [hdie])] at hcall
        dsimp only at hcall
        split at hcall
        · exact turn_refreshHost hcall hc hc'
        · next hcu =>
          rw [shape, hcu] at hc
          cases hc
    · refine hsame _ ?_ (shape_apiGetHost_of_ne hcall hids)
      rw [served, if_neg fun h => hids ⟨h.1, h.2.1⟩]

/-- The hosts of the module that the cache serves in a run. -/
def serves (modid cmdid : Int32) : ElbClient → List (Op × ElbClient) → List HostAddr
  | _, [] => []
  | c, (op, c') :: tr => (c.served modid cmdid op).toList ++ serves modid cmdid c' tr

/-- While the version of the entry stays, its nodes have their turns. -/
theorem serves_eq_turns {tr : List (Op × ElbClient)} (hrun : system.Run c tr) {v : ℤ}
    {nodes : List HostAddr} (hc : c.shape modid cmdid = some (v, nodes))
    (hkeep : ∀ x ∈ tr, ∃ nodes', x.2.shape modid cmdid = some (v, nodes')) :
    serves modid cmdid c tr = Queue.turns (serves modid cmdid c tr).length nodes := by
  induction hrun generalizing nodes with
  | nil => rfl
  | @cons c c' op tr hs _ ih =>
    obtain ⟨⟨nodes', hc'⟩, htr⟩ := List.forall_mem_cons.mp hkeep
    have hrest := ih hc' htr
    rcases turn_of_step hs hc hc' with ⟨hnone, rfl⟩ | ⟨host, rest, hhost, rfl, rfl⟩
    · rw [serves, hnone]
      exact hrest
    · have hrot : (host :: rest).rotate 1 = rest ++ [host] := by
        rw [List.rotate_cons_succ, List.rotate_zero]
      rw [serves, hhost, Option.toList_some, List.singleton_append, List.length_cons, Queue.turns,
        hrot, ← hrest]
      rfl

/-- Whatever the network, the agent and the business do, and whatever is asked and reported in
between: while the version of an entry stays, any hosts that the cache serves for the module one
after another, as many as there are nodes, are the nodes in their cyclic order. -/
theorem isRotated_of_serves {tr : List (Op × ElbClient)} (hrun : system.Run c tr) {cu : CacheUnit}
    (hcu : c.cache.getCache modid cmdid = some cu)
    (hkeep : ∀ x ∈ tr, ∃ cu', x.2.cache.getCache modid cmdid = some cu' ∧
      cu'.version = cu.version)
    {before window after : List HostAddr}
    (h : serves modid cmdid c tr = before ++ window ++ after)
    (hlen : window.length = cu.nodeList.length) : window.IsRotated cu.nodeList := by
  have hc : c.shape modid cmdid = some (cu.version, cu.nodeList) := by
    rw [shape, hcu, Option.map_some]
  have hshape : ∀ x ∈ tr, ∃ nodes', x.2.shape modid cmdid = some (cu.version, nodes') := by
    intro x hx
    obtain ⟨cu', hcu', hver⟩ := hkeep x hx
    exact ⟨cu'.nodeList, by rw [shape, hcu', Option.map_some, hver]⟩
  rw [serves_eq_turns hrun hc hshape] at h
  exact Queue.isRotated_of_turns h hlen

/-- A client that has got a route with two hosts at second 5. -/
def twoHosts : ElbClient where
  seqid := 0
  agentOff := false
  tsget := 0
  cache := AList.insert (packKey 1 2) (filled 1 2 5 ⟨1, 2, 7, false, [⟨10, 80⟩, ⟨20, 80⟩]⟩) ∅

/-- A call at second 6, without an agent. -/
def soon : Env := ⟨false, none, 6, 0, none, none, []⟩

/-- Three hosts are asked for and a success is reported: the last two hosts are the nodes. -/
theorem isRotated_of_serves_two_hosts :
    List.IsRotated [(⟨20, 80⟩ : HostAddr), ⟨10, 80⟩] [⟨10, 80⟩, ⟨20, 80⟩] := by
  have hcu : twoHosts.cache.getCache 1 2 =
    some (filled 1 2 5 ⟨1, 2, 7, false, [⟨10, 80⟩, ⟨20, 80⟩]⟩) := rfl
  obtain ⟨tr, hrun, hserves, hkeep⟩ : ∃ tr, system.Run twoHosts tr ∧
      serves 1 2 twoHosts tr = [⟨10, 80⟩] ++ [⟨20, 80⟩, ⟨10, 80⟩] ++ [] ∧
        ∀ x ∈ tr, ∃ cu, x.2.cache.getCache 1 2 = some cu ∧ cu.version = 7 := by
    refine ⟨[(.apiGetHost 1 2 soon, _), (.apiReportRes 1 2 ⟨10, 80⟩ 0 3, _),
      (.apiGetHost 1 2 soon, _), (.apiGetHost 1 2 soon, _)],
      .cons ⟨_, _, rfl⟩ (.cons rfl (.cons ⟨_, _, rfl⟩ (.cons ⟨_, _, rfl⟩ (.nil _)))), rfl, ?_⟩
    simp only [List.forall_mem_cons]
    exact ⟨⟨_, rfl, rfl⟩, ⟨_, rfl, rfl⟩, ⟨_, rfl, rfl⟩, ⟨_, rfl, rfl⟩, by simp⟩
  exact isRotated_of_serves hrun hcu hkeep hserves rfl

end ElbClient

end Elb
