import Elb.Api.CacheCoherence

/-!
# The counters of a cached module

Reference: `elbClient::apiGetHost`, `elbClient::getRoute4Cache`, `elbClient::batchReportRes` and
`elbClient::apiReportRes` in `api/cpp/elbApi/elbApi.cc`, `CacheUnit::report` in
`api/cpp/elbApi/cacheLayer.cc`.

An entry keeps the successes of each node in `succAccum` and their number in `succCnt`, and looks at
the number alone to see whether there is anything to send. A refresh that finds the version
unchanged clears the number and leaves the accumulators as they are, which is right because every
refresh of an entry comes behind a batch.
-/

namespace Elb

open Transition

/-! ## One entry -/

namespace CacheUnit

/-- The successes that the accumulators hold. -/
def accumulated (cu : CacheUnit) : ℕ := HashMap.total UInt32.toNat cu.succAccum

/-- The number of successes is what the accumulators hold, the accumulators are those of the nodes,
and the entry of a module with an overloaded host counts nothing. -/
structure Consistent (cu : CacheUnit) : Prop where
  succCnt_eq : cu.succCnt = cu.accumulated
  matched : cu.Matched
  succCnt_of_overload : cu.overload = true → cu.succCnt = 0

/-- The accumulators sum up to zero exactly if all of them are zero. -/
theorem accumulated_eq_zero_iff (cu : CacheUnit) : cu.accumulated = 0 ↔ cu.Drained := by
  rw [accumulated, HashMap.total_eq_zero_iff, Drained]
  refine forall_congr' fun k => forall_congr' fun n => imp_congr_right fun _ => ?_
  rw [← UInt32.toNat_inj, UInt32.toNat_zero]

/-- An entry in which nothing is pending. -/
theorem consistent_of_drained {cu : CacheUnit} (hz : cu.succCnt = 0) (hd : cu.Drained)
    (hm : cu.Matched) : cu.Consistent where
  succCnt_eq := by rw [hz, (accumulated_eq_zero_iff cu).mpr hd]
  matched := hm
  succCnt_of_overload _ := hz

namespace Consistent

variable {cu : CacheUnit}

/-- The test of `batchReportRes` is right: no batch is sent exactly if nothing is pending. -/
theorem batchReportRes_eq_nil_iff (h : cu.Consistent) :
    cu.batchReportRes.2 = [] ↔ cu.Drained := by
  rw [← accumulated_eq_zero_iff, ← h.succCnt_eq, batchReportRes]
  split
  · next hz => exact iff_of_true rfl hz
  · next hz => exact iff_of_false (List.cons_ne_nil _ _) hz

/-- A batch leaves nothing pending. -/
theorem batchReportRes (h : cu.Consistent) :
    cu.batchReportRes.1.Consistent ∧ cu.batchReportRes.1.Drained := by
  have hm := cu.batchReportRes_sameNodes.matched h.matched
  rw [CacheUnit.batchReportRes] at hm ⊢
  -- the test on the number agrees with the accumulators
  split
  · next hz => exact ⟨h, (accumulated_eq_zero_iff cu).mp (h.succCnt_eq ▸ hz)⟩
  · next hz =>
    rw [if_neg hz] at hm
    have hd := cu.drained_mapVal_zero
    exact ⟨consistent_of_drained rfl hd hm, hd⟩

/-- A success goes into the accumulator of its node and into the number. -/
theorem report (h : cu.Consistent) (hidle : cu.overload = false) {host : HostAddr}
    (hfit : cu.pending host + 1 < 2 ^ 32) : (cu.report host).Consistent := by
  have hm := (cu.report_sameNodes host).matched h.matched
  rw [CacheUnit.report] at hm ⊢
  split
  · next n hn =>
    rw [hn] at hm
    have hpend : cu.pending host = n.toNat := by rw [pending, hn]; rfl
    have hsucc : (n + 1).toNat = n.toNat + 1 := toNat_succ (by omega)
    have htotal := HashMap.total_insert UInt32.toNat hn (n + 1)
    refine ⟨?_, hm, fun hover => by cases hidle.symm.trans hover⟩
    have heq := h.succCnt_eq
    rw [accumulated] at heq ⊢
    dsimp only
    omega
  · exact h

/-- Serving a node turns the list of nodes round. -/
theorem getHost (h : cu.Consistent) {cu' : CacheUnit} {host : HostAddr}
    (hg : cu.getHost = some (host, cu')) : cu'.Consistent := by
  have hm := (getHost_sameNodes hg).matched h.matched
  rw [CacheUnit.getHost] at hg
  split at hg
  · cases hg
  · cases hg
    exact ⟨h.succCnt_eq, hm, h.succCnt_of_overload⟩

end Consistent

end CacheUnit

/-! ## The pieces of a call -/

namespace ElbClient

/-- Every entry of the cache is consistent. -/
def Consistent (c : ElbClient) : Prop := ∀ key cu, c.cache.lookup key = some cu → cu.Consistent

/-- The entry of a module is one of the entries. -/
theorem Consistent.getCache {c : ElbClient} (h : c.Consistent) {modid cmdid : Int32}
    {cu : CacheUnit} (hcu : c.cache.getCache modid cmdid = some cu) : cu.Consistent :=
  h _ cu hcu

/-- A consistent entry is stored. -/
theorem Consistent.of_addCache {c c' : ElbClient} (h : c.Consistent) {modid cmdid : Int32}
    {item : CacheUnit} (hitem : item.Consistent)
    (heq : c'.cache = c.cache.addCache modid cmdid item) : c'.Consistent := by
  rw [Consistent, heq]
  exact HashMap.forall_insert h hitem

/-- An entry is removed. -/
theorem Consistent.of_rmCache {c c' : ElbClient} (h : c.Consistent) {modid cmdid : Int32}
    (heq : c'.cache = c.cache.rmCache modid cmdid) : c'.Consistent := by
  rw [Consistent, heq]
  exact fun key cu hk => h key cu (HashMap.lookup_of_erase hk).2

/-- `batchReportRes` on the entry of a module. -/
theorem Consistent.flush {c : ElbClient} (h : c.Consistent) (modid cmdid : Int32) :
    (c.flush modid cmdid).1.Consistent ∧ (c.flush modid cmdid).1.Drained modid cmdid := by
  rw [ElbClient.flush]
  cases hk : c.cache.getCache modid cmdid with
  | none => exact ⟨h, drained_of_none hk⟩
  | some cu =>
    obtain ⟨hcons, hd⟩ := (h.getCache hk).batchReportRes
    exact ⟨h.of_addCache hcons rfl, drained_of_some (getCache_addCache_self _ _ _ _) hd⟩

/-- The route of a module arrives while nothing is pending for it: the entry is removed, filled, or
has its number cleared. -/
theorem Consistent.applyRoute {c : ElbClient} (h : c.Consistent) {modid cmdid : Int32}
    (hd : c.Drained modid cmdid) (ts : ℤ) (rsp : CacheGetRouteRsp) :
    (c.applyRoute modid cmdid ts rsp).Consistent := by
  have hfilled : ∀ m k, (filled m k ts rsp).Consistent := fun m k =>
    CacheUnit.consistent_of_drained rfl (inv_filled m k ts rsp).2 (matched_filled m k ts rsp)
  rw [ElbClient.applyRoute]
  split
  · exact h.of_rmCache rfl
  · split
    · exact h.of_addCache (hfilled modid cmdid) rfl
    · next cu hcu =>
      dsimp only
      split
      · exact h.of_addCache (hfilled cu.modid cu.cmdid) rfl
      · -- the number alone is cleared, and the accumulators hold nothing
        have hitem : CacheUnit.Consistent
            { cu with overload := rsp.overload, succCnt := 0, lstUpdTs := ts } :=
          CacheUnit.consistent_of_drained rfl (hd cu hcu) (h.getCache hcu).matched
        exact h.of_addCache hitem rfl

/-- `getRoute4Cache` changes the entry only if its reply comes. -/
theorem Consistent.recvRoute4Cache {c : ElbClient} (h : c.Consistent) {modid cmdid : Int32}
    (hd : c.Drained modid cmdid) (ts : ℤ) (recv : Option AgentRsp) :
    (c.recvRoute4Cache modid cmdid ts recv).1.Consistent := by
  cases recv with
  | none => exact h
  | some rsp =>
    cases rsp with
    | cacheGetRoute rsp =>
      rw [ElbClient.recvRoute4Cache]
      split
      · exact h
      · exact h.applyRoute hd ts rsp
    | _ => exact h

/-- So sending the request first makes no difference. -/
theorem Consistent.getRoute4Cache {c : ElbClient} (h : c.Consistent) {modid cmdid : Int32}
    (hd : c.Drained modid cmdid) (ts : ℤ) (recv : Option AgentRsp) :
    (c.getRoute4Cache modid cmdid ts recv).1.Consistent :=
  h.recvRoute4Cache hd ts recv

/-- The end of `apiGetHost` turns the nodes of an entry round at most. -/
theorem Consistent.pickHost {c c' : ElbClient} (h : c.Consistent) {modid cmdid : Int32} {env : Env}
    {answer : Int32 × Option HostAddr} {sent : List AgentReq}
    (hp : c.pickHost modid cmdid env = some (c', answer, sent)) : c'.Consistent := by
  rw [ElbClient.pickHost] at hp
  split at hp
  · cases hp
    exact h
  · next cu hcu =>
    split at hp
    · obtain ⟨⟨host, cu'⟩, hget, heq⟩ := Option.bind_eq_some_iff.mp hp
      cases heq
      exact h.of_addCache ((h.getCache hcu).getHost hget) rfl
    · cases hp
      exact h

/-- With an entry, `apiGetHost` sends the batch before it asks for the route. -/
theorem Consistent.refreshHost {c c' : ElbClient} (h : c.Consistent) {modid cmdid : Int32}
    {env : Env} {answer : Int32 × Option HostAddr} {sent : List AgentReq}
    (hp : c.refreshHost modid cmdid env = some (c', answer, sent)) : c'.Consistent := by
  rw [ElbClient.refreshHost] at hp
  split at hp
  · cases hp
    exact h
  · split at hp
    · -- the refresh comes behind the batch
      obtain ⟨hcons, hd⟩ := h.flush modid cmdid
      have hroute := hcons.getRoute4Cache hd env.now env.again
      obtain ⟨⟨c₃, answer₃, sent₃⟩, hpick, heq⟩ := Option.bind_eq_some_iff.mp hp
      cases heq
      exact hroute.pickHost hpick
    · exact h.pickHost hp

/-! ## Whole calls -/

/-- `apiGetHost` keeps all entries consistent, whatever it receives. -/
theorem Consistent.apiGetHost {c c' : ElbClient} (h : c.Consistent) {modid cmdid : Int32}
    {env : Env} {answer : Int32 × Option HostAddr} {sent : List AgentReq}
    (hp : c.apiGetHost modid cmdid env = some (c', answer, sent)) : c'.Consistent := by
  rw [ElbClient.apiGetHost] at hp
  split at hp
  · split at hp <;> cases hp <;> exact h
  · have halive : Consistent { c with agentOff := false } := h
    dsimp only at hp
    split at hp
    · exact halive.refreshHost hp
    · next hnone =>
      -- a module without an entry has nothing pending
      have hd : Drained modid cmdid { c with agentOff := false } := drained_of_none hnone
      have hroute := halive.getRoute4Cache hd env.now env.first
      split at hp
      · cases hp
        exact hroute
      · obtain ⟨⟨c₂, answer₂, sent₂⟩, hrefresh, heq⟩ := Option.bind_eq_some_iff.mp hp
        cases heq
        exact hroute.refreshHost hrefresh

/-- So does `apiReportRes`, if the accumulator of the host does not wrap around. -/
theorem Consistent.apiReportRes {c : ElbClient} (h : c.Consistent) {modid cmdid : Int32}
    {host : HostAddr} {retcode : Int32} (mills : UInt64)
    (hfit : retcode = 0 → c.pending modid cmdid host + 1 < 2 ^ 32) :
    (c.apiReportRes modid cmdid host retcode mills).1.Consistent := by
  rw [ElbClient.apiReportRes]
  split
  · exact h
  · cases hcu : c.cache.getCache modid cmdid with
    | none => exact h
    | some cu =>
      dsimp only
      split
      · next hidle =>
        split
        · next hret =>
          have hpend : c.pending modid cmdid host = cu.pending host := by rw [pending, hcu]; rfl
          refine h.of_addCache ((h.getCache hcu).report (by simpa using hidle) ?_) rfl
          rw [← hpend]
          exact hfit hret
        · exact (h.flush modid cmdid).1
      · exact h

/-! ## Runs of calls -/

/-- The calls of a client, with what they meet. -/
inductive Op
  | apiGetHost (modid cmdid : Int32) (env : Env)
  | apiReportRes (modid cmdid : Int32) (host : HostAddr) (retcode : Int32) (mills : UInt64)

/-- Runs of a new client: calls in any order that meet any replies and time-outs. A call that is
undefined has no step. -/
def system : System ElbClient Op where
  init c := ∃ agentOff, c = .new agentOff
  step c op c' :=
    match op with
    | .apiGetHost modid cmdid env =>
      ∃ answer sent, c.apiGetHost modid cmdid env = some (c', answer, sent)
    | .apiReportRes modid cmdid host retcode mills =>
      c' = (c.apiReportRes modid cmdid host retcode mills).1

/-- Fewer than `2 ^ 32` successes are pending for the host of a reported success, this one
included. -/
def PendingFits (c : ElbClient) : Op → Prop
  | .apiGetHost _ _ _ => True
  | .apiReportRes modid cmdid host retcode _ =>
    retcode = 0 → c.pending modid cmdid host + 1 < 2 ^ 32

/-- In every run in which fewer than `2 ^ 32` successes are pending for each host, the number of
every entry is what its accumulators hold, its accumulators are those of its nodes, and it is zero
while a host is overloaded. So `batchReportRes` sends nothing exactly if nothing is pending. -/
theorem consistent_of_reachable {c : ElbClient} (h : (system.restrict PendingFits).Reachable c) :
    ∀ key cu, c.cache.lookup key = some cu →
      cu.Consistent ∧ (cu.batchReportRes.2 = [] ↔ cu.Drained) := by
  have hcons : c.Consistent := by
    refine h.invariant ?_ ?_
    · rintro _ ⟨agentOff, rfl⟩ key cu hk
      cases hk
    · rintro c op c' - ih ⟨hfit, hs⟩
      cases op with
      | apiGetHost modid cmdid env =>
        obtain ⟨answer, sent, hcall⟩ := hs
        exact ih.apiGetHost hcall
      | apiReportRes modid cmdid host retcode mills =>
        rw [hs]
        exact ih.apiReportRes mills hfit
  intro key cu hk
  exact ⟨hcons key cu hk, (hcons key cu hk).batchReportRes_eq_nil_iff⟩

/-- A host is asked for and its success is reported: one success is pending, and the number says
so. -/
theorem consistent_one_success : ∃ c cu, system.Reachable c ∧
    c.cache.getCache 1 2 = some cu ∧ cu.succCnt = 1 ∧ cu.pending ⟨7, 80⟩ = 1 ∧
    cu.Consistent ∧ (cu.batchReportRes.2 = [] ↔ cu.Drained) := by
  have h₁ : (system.restrict PendingFits).Reachable (Business.routed ⟨7, 80⟩ 0) :=
    .step (e := .apiGetHost 1 2 (Business.routeEnv ⟨7, 80⟩)) (.init ⟨false, rfl⟩)
      ⟨trivial, _, _, rfl⟩
  have h₂ : (system.restrict PendingFits).Reachable (Business.routed ⟨7, 80⟩ 1) :=
    h₁.step (e := .apiReportRes 1 2 ⟨7, 80⟩ 0 3) ⟨fun _ => by decide, rfl⟩
  obtain ⟨hcons, hsends⟩ := consistent_of_reachable h₂ (packKey 1 2) _ rfl
  exact ⟨_, _, h₂.of_restrict, rfl, rfl, rfl, hcons, hsends⟩

end ElbClient

end Elb
