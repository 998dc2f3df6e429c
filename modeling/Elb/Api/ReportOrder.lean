import Elb.Api.BatchSize
import Elb.Common.Transition

/-!
# The order of call results

Reference: `api/CacheLayer.md`. The cache keeps successes and sends them on before anything else
about the module, so that the agent sees the results of each host in the order in which the business
had them.

`Business` is a client together with what was reported to it and what it sent. The order survives
because the cache is empty whenever it is bypassed or replaced, which `Drained` and the invariant
`ElbClient.Inv` state. Two things break it. The batch takes its nodes apart from their keys, and the
key of a node with a negative port has lost one from the ip. And a batch of more than 4096 bytes is
written past the end of `wbuf`, after which the program is undefined: `Step` and `Destroy` then
allow every state. `Sendable` excludes both.
-/

namespace Elb

open Transition

/-! ## What the agent is told about a host -/

/-- The results about one host that a batch stands for. -/
def HostBatchCallRes.results (host : HostAddr) (cr : HostBatchCallRes) : List Bool :=
  if cr.ip = host.ip ∧ cr.port = host.port then List.replicate cr.succCnt.toNat true else []

/-- The results about one host that a datagram brings to the agent, in order; `true` is a success.
-/
def AgentReq.results (modid cmdid : Int32) (host : HostAddr) : AgentReq → List Bool
  | .report req =>
    if req.modid = modid ∧ req.cmdid = cmdid ∧ req.host = host then [req.retcode = 0] else []
  | .cacheBatchRpt req =>
    if req.modid = modid ∧ req.cmdid = cmdid then req.results.flatMap (·.results host) else []
  | _ => []

/-- The results about one host that a sequence of datagrams brings. -/
def received (modid cmdid : Int32) (host : HostAddr) (sent : List AgentReq) : List Bool :=
  sent.flatMap (·.results modid cmdid host)

/-- Nothing is sent, nothing is received. -/
@[simp] theorem received_nil (modid cmdid : Int32) (host : HostAddr) :
    received modid cmdid host [] = [] := rfl

/-- What is received of two parts of a call, one after the other. -/
@[simp] theorem received_append (modid cmdid : Int32) (host : HostAddr) (s₁ s₂ : List AgentReq) :
    received modid cmdid host (s₁ ++ s₂) =
      received modid cmdid host s₁ ++ received modid cmdid host s₂ :=
  List.flatMap_append

namespace CacheUnit

/-- The successes of a node that the agent has not been told. -/
def pending (host : HostAddr) (cu : CacheUnit) : ℕ :=
  ((cu.succAccum.lookup host.key).map UInt32.toNat).getD 0

/-- Nothing is pending. -/
def Drained (cu : CacheUnit) : Prop := ∀ k n, cu.succAccum.lookup k = some n → n = 0

/-- No success is pending for a node with a negative port. -/
def Clean (cu : CacheUnit) : Prop :=
  ∀ k n, cu.succAccum.lookup k = some n → n ≠ 0 → 0 ≤ unpackLo k

/-- The accumulators are those of the nodes; an entry that counts no success holds none, and neither
does the entry of a module with an overloaded host. -/
structure Inv (cu : CacheUnit) : Prop where
  accum_of_node : ∀ host ∈ cu.nodeList, host.key ∈ cu.succAccum
  accum_key : ∀ k ∈ cu.succAccum, ∃ host : HostAddr, host.key = k
  drained_of_zero : cu.succCnt = 0 → cu.Drained
  drained_of_overload : cu.overload = true → cu.Drained

/-- An entry that holds nothing has nothing pending for any host. -/
theorem Drained.pending_eq {cu : CacheUnit} (h : cu.Drained) (host : HostAddr) :
    cu.pending host = 0 := by
  rw [pending]
  cases hk : cu.succAccum.lookup host.key with
  | none => rfl
  | some n => rw [h _ n hk]; rfl

/-- A batch brings the pending successes of each node. -/
theorem pendingResults_results {cu : CacheUnit} (h : cu.Inv) (hc : cu.Clean) (host : HostAddr) :
    cu.pendingResults.flatMap (·.results host) = List.replicate (cu.pending host) true := by
  have hentry : ∀ e ∈ cu.succAccum.entries,
      (if e.2 = 0 then none
        else some (⟨unpackHi e.1, unpackLo e.1, e.2⟩ : HostBatchCallRes)).toList.flatMap
        (·.results host) = if e.1 = host.key then List.replicate e.2.toNat true else [] := by
    rintro ⟨k, n⟩ he
    have hk : cu.succAccum.lookup k = some n := HashMap.mem_entries_iff.mp he
    by_cases hn : n = 0
    · subst hn
      simp
    · obtain ⟨a, rfl⟩ := h.accum_key k (HashMap.mem_iff.mpr ⟨n, hk⟩)
      -- the port is not negative, so the key comes apart as it was packed
      have hport := hc _ n hk hn
      rw [HostAddr.key, unpackLo_packKey] at hport
      have hip : unpackHi a.key = a.ip := by
        rw [HostAddr.key, unpackHi_packKey, if_neg (Int32.not_lt.mpr hport)]
      have hlo : unpackLo a.key = a.port := unpackLo_packKey a.ip a.port
      have hsame : (a.ip = host.ip ∧ a.port = host.port) ↔ a.key = host.key :=
        ⟨fun heq => by rw [HostAddr.key, HostAddr.key, heq.1, heq.2],
          fun heq => by rw [HostAddr.key_inj heq]; exact ⟨rfl, rfl⟩⟩
      rw [if_neg hn, Option.toList_some, List.flatMap_singleton, HostBatchCallRes.results]
      simp only [hip, hlo, hsame]
  rw [pendingResults, List.filterMap_eq_flatMap_toList, List.flatMap_assoc,
    List.flatMap_congr hentry]
  rw [HashMap.flatMap_entries_ite cu.succAccum host.key fun n => List.replicate n.toNat true,
    pending]
  cases cu.succAccum.lookup host.key <;> rfl

/-- Nothing is pending once all accumulators are at zero. -/
theorem drained_mapVal_zero (cu : CacheUnit) :
    Drained { cu with succCnt := 0, succAccum := cu.succAccum.mapVal fun _ => 0 } := by
  intro k n hk
  rw [HashMap.lookup_mapVal, Option.map_eq_some_iff] at hk
  obtain ⟨_, -, rfl⟩ := hk
  rfl

/-- An entry with other nodes, in order, and all accumulators at zero. -/
theorem Inv.mapVal_zero {cu : CacheUnit} (h : cu.Inv) :
    Inv { cu with succCnt := 0, succAccum := cu.succAccum.mapVal fun _ => 0 } := by
  have hdrained := cu.drained_mapVal_zero
  refine ⟨fun host hmem => ?_, fun k hk => ?_, fun _ => hdrained, fun _ => hdrained⟩
  · exact (HashMap.mem_mapVal _ _ _).mpr (h.accum_of_node host hmem)
  · exact h.accum_key k ((HashMap.mem_mapVal _ _ _).mp hk)

/-- `batchReportRes` sends what is pending and keeps nothing. -/
theorem batchReportRes_spec {cu : CacheUnit} (h : cu.Inv) (hc : cu.Clean) :
    cu.batchReportRes.1.Inv ∧ cu.batchReportRes.1.Drained ∧
      cu.batchReportRes.1.modid = cu.modid ∧ cu.batchReportRes.1.cmdid = cu.cmdid ∧
      ∀ modid cmdid host, received modid cmdid host cu.batchReportRes.2 =
        if cu.modid = modid ∧ cu.cmdid = cmdid then List.replicate (cu.pending host) true
        else [] := by
  rw [batchReportRes]
  split
  · next hz =>
    have hd := h.drained_of_zero hz
    refine ⟨h, hd, rfl, rfl, fun modid cmdid host => ?_⟩
    rw [hd.pending_eq, received_nil, List.replicate_zero, ite_self]
  · have hinv := h.mapVal_zero
    refine ⟨hinv, hinv.drained_of_zero rfl, rfl, rfl, fun modid cmdid host => ?_⟩
    rw [received, List.flatMap_singleton, AgentReq.results, pendingResults_results h hc]

end CacheUnit

namespace ElbClient

/-- The successes of a host that the agent has not been told. -/
def pending (modid cmdid : Int32) (host : HostAddr) (c : ElbClient) : ℕ :=
  ((c.cache.getCache modid cmdid).map (·.pending host)).getD 0

/-- Every entry has its invariant and is filed under its own module. -/
structure Inv (c : ElbClient) : Prop where
  unit : ∀ key cu, c.cache.lookup key = some cu → cu.Inv
  key_eq : ∀ key cu, c.cache.lookup key = some cu → packKey cu.modid cu.cmdid = key

/-- Nothing is pending for the module. -/
def Drained (modid cmdid : Int32) (c : ElbClient) : Prop :=
  ∀ cu, c.cache.getCache modid cmdid = some cu → cu.Drained

/-- What is sent and what is pending afterwards is what was pending before, for every host. -/
def Faithful (c c' : ElbClient) (sent : List AgentReq) : Prop :=
  ∀ modid cmdid host, received modid cmdid host sent ++
    List.replicate (c'.pending modid cmdid host) true =
      List.replicate (c.pending modid cmdid host) true

/-- Two parts of a call, one after the other. -/
theorem Faithful.trans {c c' c'' : ElbClient} {s₁ s₂ : List AgentReq} (h : Faithful c c' s₁)
    (h' : Faithful c' c'' s₂) : Faithful c c'' (s₁ ++ s₂) := by
  intro modid cmdid host
  rw [received_append, List.append_assoc, h' modid cmdid host, h modid cmdid host]

/-- An entry that is stored is found for its module, and the others are as they were. -/
@[simp] theorem getCache_addCache (cache : CacheLayer) (modid cmdid m k : Int32)
    (item : CacheUnit) :
    (cache.addCache modid cmdid item).getCache m k =
      if m = modid ∧ k = cmdid then some item else cache.getCache m k := by
  rw [CacheLayer.getCache, CacheLayer.addCache, HashMap.lookup_insert_eq, CacheLayer.getCache]
  by_cases h : m = modid ∧ k = cmdid
  · rw [if_pos h, if_pos (by rw [h.1, h.2])]
  · rw [if_neg h, if_neg fun heq => h (packKey_inj heq)]

/-- An entry that is removed is not found any more. -/
@[simp] theorem getCache_rmCache (cache : CacheLayer) (modid cmdid m k : Int32) :
    (cache.rmCache modid cmdid).getCache m k =
      if m = modid ∧ k = cmdid then none else cache.getCache m k := by
  rw [CacheLayer.getCache, CacheLayer.rmCache, HashMap.lookup_erase_eq, CacheLayer.getCache]
  by_cases h : m = modid ∧ k = cmdid
  · rw [if_pos h, if_pos (by rw [h.1, h.2])]
  · rw [if_neg h, if_neg fun heq => h (packKey_inj heq)]

/-- A step on one module: the others keep their entries and nothing is sent about them. -/
theorem faithful_of_module {c c' : ElbClient} {sent : List AgentReq} (modid cmdid : Int32)
    (hother : ∀ m k, ¬(m = modid ∧ k = cmdid) →
      c'.cache.getCache m k = c.cache.getCache m k ∧ ∀ host, received m k host sent = [])
    (hthis : ∀ host, received modid cmdid host sent ++
      List.replicate (c'.pending modid cmdid host) true =
        List.replicate (c.pending modid cmdid host) true) : Faithful c c' sent := by
  intro m k host
  by_cases heq : m = modid ∧ k = cmdid
  · rw [heq.1, heq.2]
    exact hthis host
  · obtain ⟨hcache, hsent⟩ := hother m k heq
    rw [hsent, pending, pending, hcache, List.nil_append]

/-- Storing an entry of the right module keeps the invariant. -/
theorem Inv.addCache {c : ElbClient} (h : c.Inv) {modid cmdid : Int32} {item : CacheUnit}
    (hitem : item.Inv) (hm : item.modid = modid) (hk : item.cmdid = cmdid) :
    Inv { c with cache := c.cache.addCache modid cmdid item } where
  unit := HashMap.forall_insert h.unit hitem
  key_eq := HashMap.forall_insert h.key_eq (by rw [hm, hk])

/-- Removing an entry keeps the invariant of the others. -/
theorem Inv.rmCache {c : ElbClient} (h : c.Inv) (modid cmdid : Int32) :
    Inv { c with cache := c.cache.rmCache modid cmdid } where
  unit key cu hk := h.unit key cu (HashMap.lookup_of_erase hk).2
  key_eq key cu hk := h.key_eq key cu (HashMap.lookup_of_erase hk).2

/-- The entry of a module is the entry of that module. -/
theorem Inv.getCache {c : ElbClient} (h : c.Inv) {modid cmdid : Int32} {cu : CacheUnit}
    (hk : c.cache.getCache modid cmdid = some cu) :
    cu.Inv ∧ cu.modid = modid ∧ cu.cmdid = cmdid :=
  ⟨h.unit _ cu hk, packKey_inj (h.key_eq _ cu hk)⟩

/-- A module without an entry has nothing pending. -/
theorem drained_of_none {c : ElbClient} {modid cmdid : Int32}
    (h : c.cache.getCache modid cmdid = none) : c.Drained modid cmdid := by
  intro cu hcu
  rw [h] at hcu
  cases hcu

/-- A module has nothing pending if its entry holds nothing. -/
theorem drained_of_some {c : ElbClient} {modid cmdid : Int32} {cu : CacheUnit}
    (h : c.cache.getCache modid cmdid = some cu) (hd : cu.Drained) : c.Drained modid cmdid :=
  fun _ hcu => Option.some.inj (h.symm.trans hcu) ▸ hd

/-- The entry that has just been stored. -/
theorem getCache_addCache_self (cache : CacheLayer) (modid cmdid : Int32) (item : CacheUnit) :
    (cache.addCache modid cmdid item).getCache modid cmdid = some item := by
  rw [getCache_addCache, if_pos ⟨rfl, rfl⟩]

/-! ## The pieces of a call -/

/-- `batchReportRes` on the entry of a module, when it can be taken apart. -/
theorem flush_spec {c : ElbClient} (h : c.Inv) {modid cmdid : Int32}
    (hc : ∀ cu, c.cache.getCache modid cmdid = some cu → cu.Clean) :
    (c.flush modid cmdid).1.Inv ∧ (c.flush modid cmdid).1.Drained modid cmdid ∧
      Faithful c (c.flush modid cmdid).1 (c.flush modid cmdid).2 := by
  rw [flush]
  cases hk : c.cache.getCache modid cmdid with
  | none => exact ⟨h, drained_of_none hk, fun m k host => by simp⟩
  | some cu =>
    obtain ⟨hinv, rfl, rfl⟩ := h.getCache hk
    obtain ⟨hinv', hdrained, hm, hk', hrecv⟩ := CacheUnit.batchReportRes_spec hinv (hc cu hk)
    refine ⟨h.addCache hinv' hm hk', drained_of_some (getCache_addCache_self _ _ _ _) hdrained,
      faithful_of_module cu.modid cu.cmdid (fun m k hne => ?_) fun host => ?_⟩
    · refine ⟨by simp [hne], fun host => ?_⟩
      rw [hrecv, if_neg fun heq => hne ⟨heq.1.symm, heq.2.symm⟩]
    · rw [hrecv, if_pos ⟨rfl, rfl⟩, pending, pending, hk, getCache_addCache_self]
      simp [hdrained.pending_eq]

/-- In an entry that has just been filled nothing is pending. -/
theorem inv_filled (modid cmdid : Int32) (ts : ℤ) (rsp : CacheGetRouteRsp) :
    (filled modid cmdid ts rsp).Inv ∧ (filled modid cmdid ts rsp).Drained := by
  have hdrained : (filled modid cmdid ts rsp).Drained := by
    intro k n hk
    rw [filled, freshAccum_lookup] at hk
    split at hk
    · exact (Option.some.inj hk).symm
    · cases hk
  refine ⟨⟨fun host hmem => ?_, fun k hk => ?_, fun _ => hdrained, fun _ => hdrained⟩, hdrained⟩
  · have hroute : host.key ∈ rsp.route.map HostAddr.key := List.mem_map_of_mem hmem
    rw [filled, ← AList.lookup_isSome, freshAccum_lookup, if_pos hroute]
    rfl
  · rw [filled, ← AList.lookup_isSome, freshAccum_lookup] at hk
    split at hk
    · next hmem =>
      obtain ⟨host, -, rfl⟩ := List.mem_map.mp hmem
      exact ⟨host, rfl⟩
    · cases hk

/-- `getRoute4Cache` with nothing pending for the module, whatever it receives, touches no other
module and leaves nothing pending. -/
theorem recvRoute4Cache_spec {c : ElbClient} (h : c.Inv) {modid cmdid : Int32}
    (hd : c.Drained modid cmdid) (ts : ℤ) (recv : Option AgentRsp) :
    (c.recvRoute4Cache modid cmdid ts recv).1.Inv ∧
      (∀ m k, ¬(m = modid ∧ k = cmdid) →
        (c.recvRoute4Cache modid cmdid ts recv).1.cache.getCache m k = c.cache.getCache m k) ∧
      (c.recvRoute4Cache modid cmdid ts recv).1.Drained modid cmdid := by
  have hsame : c.Inv ∧ (∀ m k, ¬(m = modid ∧ k = cmdid) →
      c.cache.getCache m k = c.cache.getCache m k) ∧ c.Drained modid cmdid :=
    ⟨h, fun _ _ _ => rfl, hd⟩
  have hstore : ∀ item : CacheUnit, item.Inv → item.Drained → item.modid = modid →
      item.cmdid = cmdid →
      Inv { c with cache := c.cache.addCache modid cmdid item } ∧
        (∀ m k, ¬(m = modid ∧ k = cmdid) →
          (c.cache.addCache modid cmdid item).getCache m k = c.cache.getCache m k) ∧
        Drained modid cmdid { c with cache := c.cache.addCache modid cmdid item } := by
    intro item hinv hdr hm hk
    exact ⟨h.addCache hinv hm hk, fun m k hne => by simp [hne],
      drained_of_some (getCache_addCache_self _ _ _ _) hdr⟩
  rcases recv with _ | (_ | _ | rsp)
  · exact hsame
  · exact hsame
  · exact hsame
  · rw [recvRoute4Cache]
    split
    · exact hsame
    · rw [applyRoute]
      split
      · refine ⟨h.rmCache modid cmdid, fun m k hne => by simp [hne], fun cu hcu => ?_⟩
        simp at hcu
      · split
        · obtain ⟨hinv, hdr⟩ := inv_filled modid cmdid ts rsp
          exact hstore _ hinv hdr rfl rfl
        · next cu hcu =>
          obtain ⟨hinv, hm, hk⟩ := h.getCache hcu
          have hdr := hd cu hcu
          dsimp only
          split
          · obtain ⟨hinv', hdr'⟩ := inv_filled cu.modid cu.cmdid ts rsp
            exact hstore _ hinv' hdr' hm hk
          · exact hstore _ ⟨hinv.accum_of_node, hinv.accum_key, fun _ => hdr, fun _ => hdr⟩
              hdr hm hk

/-- So nothing is pending for any of its hosts. -/
theorem Drained.pending_eq {c : ElbClient} {modid cmdid : Int32} (hd : c.Drained modid cmdid)
    (host : HostAddr) : c.pending modid cmdid host = 0 := by
  rw [pending]
  cases hk : c.cache.getCache modid cmdid with
  | none => rfl
  | some cu => exact (hd cu hk).pending_eq host

/-- So `getRoute4Cache` loses nothing. -/
theorem getRoute4Cache_spec {c : ElbClient} (h : c.Inv) {modid cmdid : Int32}
    (hd : c.Drained modid cmdid) (ts : ℤ) (recv : Option AgentRsp) :
    (c.getRoute4Cache modid cmdid ts recv).1.Inv ∧
      Faithful c (c.getRoute4Cache modid cmdid ts recv).1
        (c.getRoute4Cache modid cmdid ts recv).2.2 := by
  obtain ⟨hinv, hother, hdrained⟩ := recvRoute4Cache_spec h hd ts recv
  refine ⟨hinv, faithful_of_module modid cmdid (fun m k hne => ⟨hother m k hne, fun _ => rfl⟩)
    fun host => ?_⟩
  rw [hd.pending_eq, getRoute4Cache, hdrained.pending_eq]
  rfl

/-- Serving a host leaves what is pending alone. -/
theorem pickHost_spec {c c' : ElbClient} (h : c.Inv) {modid cmdid : Int32} {env : Env}
    {answer : Int32 × Option HostAddr} {sent : List AgentReq}
    (hp : c.pickHost modid cmdid env = some (c', answer, sent)) : c'.Inv ∧ Faithful c c' sent := by
  rw [pickHost] at hp
  split at hp
  · cases hp
    exact ⟨h, fun m k host => by simp⟩
  · next cu hcu =>
    obtain ⟨hinv, hm, hk⟩ := h.getCache hcu
    split at hp
    · rw [CacheUnit.getHost] at hp
      split at hp
      · cases hp
      · next host rest hnodes =>
        cases hp
        have hinv' : CacheUnit.Inv { cu with nodeList := rest ++ [host] } := by
          refine ⟨fun a ha => hinv.accum_of_node a ?_, hinv.accum_key, hinv.drained_of_zero,
            hinv.drained_of_overload⟩
          rw [hnodes]
          simpa [or_comm] using ha
        have hst := h.addCache hinv' hm hk
        refine ⟨⟨hst.unit, hst.key_eq⟩, faithful_of_module modid cmdid (fun m k hne => ?_)
          fun a => ?_⟩
        · exact ⟨by simp [hne], fun _ => rfl⟩
        · rw [received_nil, List.nil_append, pending, pending, hcu,
            getCache_addCache_self]
          rfl
    · cases hp
      exact ⟨⟨h.unit, h.key_eq⟩, fun m k host => rfl⟩

/-! ## Whole calls -/

/-- `apiGetHost` refreshes the entry of the module. -/
def RefreshDue (modid cmdid : Int32) (now : ℤ) (c : ElbClient) : Prop :=
  ∃ cu, c.cache.getCache modid cmdid = some cu ∧ now - cu.lstUpdTs ≥ 2

/-- With an entry, `apiGetHost` loses nothing, if what it sends on can be taken apart. -/
theorem refreshHost_spec {c c' : ElbClient} (h : c.Inv) {modid cmdid : Int32} {env : Env}
    {answer : Int32 × Option HostAddr} {sent : List AgentReq}
    (hc : c.RefreshDue modid cmdid env.now →
      ∀ cu, c.cache.getCache modid cmdid = some cu → cu.Clean)
    (hp : c.refreshHost modid cmdid env = some (c', answer, sent)) :
    c'.Inv ∧ Faithful c c' sent := by
  rw [refreshHost] at hp
  split at hp
  · cases hp
    exact ⟨h, fun m k host => by simp⟩
  · next cu hcu =>
    split at hp
    · -- the batch goes first, so that the refresh finds nothing pending
      next hdue =>
      obtain ⟨hinv₁, hdrained, hf₁⟩ := flush_spec h (hc ⟨cu, hcu, hdue⟩)
      obtain ⟨hinv₂, hf₂⟩ := getRoute4Cache_spec hinv₁ hdrained env.now env.again
      obtain ⟨⟨c₃, answer₃, sent₃⟩, hpick, heq⟩ := Option.bind_eq_some_iff.mp hp
      obtain ⟨hinv₃, hf₃⟩ := pickHost_spec hinv₂ hpick
      cases heq
      exact ⟨hinv₃, (hf₁.trans hf₂).trans hf₃⟩
    · exact pickHost_spec h hp

/-- `apiGetHost` loses nothing, if what it sends on can be taken apart. -/
theorem apiGetHost_spec {c c' : ElbClient} (h : c.Inv) {modid cmdid : Int32} {env : Env}
    (halive : env.die = false) {answer : Int32 × Option HostAddr} {sent : List AgentReq}
    (hc : c.RefreshDue modid cmdid env.now →
      ∀ cu, c.cache.getCache modid cmdid = some cu → cu.Clean)
    (hp : c.apiGetHost modid cmdid env = some (c', answer, sent)) :
    c'.Inv ∧ Faithful c c' sent := by
  have h₀ : Inv { c with agentOff := false } := ⟨h.unit, h.key_eq⟩
  rw [apiGetHost, if_neg (by simp [halive])] at hp
  dsimp only at hp
  split at hp
  · obtain ⟨hinv, hf⟩ := refreshHost_spec h₀ hc hp
    exact ⟨hinv, hf⟩
  · next hnone =>
    have hd₀ : Drained modid cmdid { c with agentOff := false } := drained_of_none hnone
    obtain ⟨hinv₁, hf₁⟩ := getRoute4Cache_spec h₀ hd₀ env.now env.first
    split at hp
    · cases hp
      exact ⟨hinv₁, hf₁⟩
    · obtain ⟨⟨c₂, answer₂, sent₂⟩, hrefresh, heq⟩ := Option.bind_eq_some_iff.mp hp
      -- a new entry holds nothing that could not be taken apart
      have hclean : RefreshDue modid cmdid env.now
          ((ElbClient.getRoute4Cache modid cmdid env.now env.first
            { c with agentOff := false }).1) →
          ∀ cu, (ElbClient.getRoute4Cache modid cmdid env.now env.first
            { c with agentOff := false }).1.cache.getCache modid cmdid = some cu → cu.Clean := by
        intro _ cu hcu k n hk hn
        exact absurd ((recvRoute4Cache_spec h₀ hd₀ env.now env.first).2.2 cu hcu k n hk) hn
      obtain ⟨hinv₂, hf₂⟩ := refreshHost_spec hinv₁ hclean hrefresh
      cases heq
      exact ⟨hinv₂, hf₁.trans hf₂⟩

/-- The report of a single result. -/
theorem received_report (modid cmdid m k : Int32) (host a : HostAddr) (retcode : Int32)
    (mills : UInt64) (c : ElbClient) :
    received m k a [.report (c.reportReq modid cmdid host retcode mills)] =
      if modid = m ∧ cmdid = k ∧ host = a then [decide (retcode = 0)] else [] := by
  simp [received, AgentReq.results, reportReq]

/-- A result that is sent at once, with nothing pending for the module. -/
theorem Drained.report {c : ElbClient} {modid cmdid : Int32} (hd : c.Drained modid cmdid)
    (host : HostAddr) (retcode : Int32) (mills : UInt64) (c₀ : ElbClient) (m k : Int32)
    (a : HostAddr) :
    List.replicate (c.pending m k a) true ++
        (if modid = m ∧ cmdid = k ∧ host = a then [decide (retcode = 0)] else []) =
      received m k a [.report (c₀.reportReq modid cmdid host retcode mills)] ++
        List.replicate (c.pending m k a) true := by
  rw [received_report]
  split
  · next heq =>
    obtain ⟨rfl, rfl, rfl⟩ := heq
    rw [hd.pending_eq, List.replicate_zero, List.nil_append, List.append_nil]
  · rw [List.append_nil, List.nil_append]

/-- A success that is kept in the entry of its module. -/
theorem report_spec {c : ElbClient} (h : c.Inv) {modid cmdid : Int32} {host : HostAddr}
    {cu : CacheUnit} (hcu : c.cache.getCache modid cmdid = some cu) (hidle : cu.overload = false)
    (hnode : host ∈ cu.nodeList) (hfit : c.pending modid cmdid host + 1 < 2 ^ 32) :
    Inv { c with cache := c.cache.addCache modid cmdid (cu.report host) } ∧
      ∀ m k a, List.replicate (c.pending m k a) true ++
        (if modid = m ∧ cmdid = k ∧ host = a then [true] else []) =
          List.replicate (pending m k a
            { c with cache := c.cache.addCache modid cmdid (cu.report host) }) true := by
  obtain ⟨hinv, hm, hk⟩ := h.getCache hcu
  obtain ⟨n, hn⟩ := HashMap.mem_iff.mp (hinv.accum_of_node host hnode)
  have hpend : c.pending modid cmdid host = n.toNat := by simp [pending, hcu, CacheUnit.pending, hn]
  have hsucc : (n + 1).toNat = n.toNat + 1 := toNat_succ (by omega)
  have hrep : cu.report host =
      { cu with succAccum := cu.succAccum.insert host.key (n + 1), succCnt := cu.succCnt + 1 } := by
    rw [CacheUnit.report, hn]
  rw [hrep]
  refine ⟨h.addCache ⟨fun a ha => ?_, fun k hk => ?_, by simp, by simp [hidle]⟩ hm hk, ?_⟩
  · exact AList.mem_insert _ |>.mpr (.inr (hinv.accum_of_node a ha))
  · rcases (AList.mem_insert _).mp hk with rfl | hk
    · exact ⟨host, rfl⟩
    · exact hinv.accum_key k hk
  · intro m k a
    rw [pending, pending, getCache_addCache]
    by_cases hmod : m = modid ∧ k = cmdid
    · obtain ⟨rfl, rfl⟩ := hmod
      simp only [hcu, and_self, if_true, Option.map_some, Option.getD_some, CacheUnit.pending,
        HashMap.lookup_insert_eq, true_and]
      -- the count of this host goes up by one, the others stay
      by_cases ha : host = a
      · subst ha
        rw [if_pos rfl, if_pos rfl, hn]
        simp [hsucc, List.replicate_succ']
      · rw [if_neg ha, if_neg fun heq => ha (HostAddr.key_inj heq).symm, List.append_nil]
    · rw [if_neg hmod, if_neg fun heq => hmod ⟨heq.1.symm, heq.2.1.symm⟩, List.append_nil]

/-- `apiReportRes` puts the result behind what is pending, if what it sends on can be taken apart
and no accumulator wraps around. -/
theorem apiReportRes_spec {c : ElbClient} (h : c.Inv) {modid cmdid : Int32} {host : HostAddr}
    {retcode : Int32} (mills : UInt64) (halive : c.agentOff = false)
    (hnode : ∀ cu, c.cache.getCache modid cmdid = some cu → host ∈ cu.nodeList)
    (hfit : retcode = 0 → c.pending modid cmdid host + 1 < 2 ^ 32)
    (hc : retcode ≠ 0 → ∀ cu, c.cache.getCache modid cmdid = some cu → cu.overload = false →
      cu.Clean) :
    (c.apiReportRes modid cmdid host retcode mills).1.Inv ∧
      ∀ m k a, List.replicate (c.pending m k a) true ++
        (if modid = m ∧ cmdid = k ∧ host = a then [decide (retcode = 0)] else []) =
          received m k a (c.apiReportRes modid cmdid host retcode mills).2 ++
            List.replicate
              ((c.apiReportRes modid cmdid host retcode mills).1.pending m k a) true := by
  rw [apiReportRes, if_neg (by simp [halive])]
  cases hcu : c.cache.getCache modid cmdid with
  | none =>
    have hd : c.Drained modid cmdid := drained_of_none hcu
    exact ⟨h, fun m k a => hd.report host retcode mills c m k a⟩
  | some cu =>
    dsimp only
    by_cases hover : cu.overload = true
    · rw [if_neg (by simp [hover])]
      have hd : c.Drained modid cmdid :=
        drained_of_some hcu ((h.getCache hcu).1.drained_of_overload hover)
      exact ⟨h, fun m k a => hd.report host retcode mills c m k a⟩
    · have hidle : cu.overload = false := by simpa using hover
      rw [if_pos (by simp [hidle])]
      -- a success is kept, a failure goes behind the batch
      by_cases hret : retcode = 0
      · simp only [if_pos hret, decide_eq_true hret, received_nil, List.nil_append]
        exact report_spec h hcu hidle (hnode cu hcu) (hfit hret)
      · rw [if_neg hret]
        have hclean : ∀ cu', c.cache.getCache modid cmdid = some cu' → cu'.Clean := by
          intro cu' hcu'
          obtain rfl := Option.some.inj (hcu.symm.trans hcu')
          exact hc hret cu hcu hidle
        obtain ⟨hinv, hd, hf⟩ := flush_spec h hclean
        refine ⟨hinv, fun m k a => ?_⟩
        rw [received_append, List.append_assoc, ← hd.report host retcode mills c m k a,
          ← List.append_assoc, hf m k a]

end ElbClient

/-! ## The business -/

/-- A call result that the business had. -/
structure CallResult where
  modid : Int32
  cmdid : Int32
  host : HostAddr
  ok : Bool

/-- A client, the results that were reported to it, and the datagrams that it sent. -/
structure Business where
  client : ElbClient
  calls : List CallResult
  sent : List AgentReq

namespace Business

/-- The results that the business had with one host. -/
def reported (modid cmdid : Int32) (host : HostAddr) (s : Business) : List Bool :=
  s.calls.flatMap fun r => if r.modid = modid ∧ r.cmdid = cmdid ∧ r.host = host then [r.ok] else []

/-- The calls of the business. -/
inductive Op
  | getHost (modid cmdid : Int32) (env : ElbClient.Env)
  | reportRes (modid cmdid : Int32) (host : HostAddr) (retcode : Int32) (mills : UInt64)

/-- The call sends the batch of this entry. -/
def Flushes (s : Business) (cu : CacheUnit) : Op → Prop
  | .getHost modid cmdid env => s.client.FlushedByGetHost modid cmdid env cu
  | .reportRes modid cmdid _ retcode _ => s.client.FlushedByReport modid cmdid retcode cu

/-- The call writes a batch past the end of `wbuf`. -/
def Overruns (s : Business) (op : Op) : Prop := ∃ cu, s.Flushes cu op ∧ cu.Overruns

/-- One call while the agent is judged alive. A reported host is in the cached route, if the module
has one, and fewer than `2 ^ 32` successes are pending for it. A call that overruns `wbuf` is
undefined: whatever it leads to is a step. -/
inductive Step (s : Business) : Op → Business → Prop
  | getHost {modid cmdid : Int32} {env : ElbClient.Env} {c : ElbClient}
      {answer : Int32 × Option HostAddr} {sent : List AgentReq} (halive : env.die = false)
      (hroom : ¬s.Overruns (.getHost modid cmdid env))
      (hcall : s.client.apiGetHost modid cmdid env = some (c, answer, sent)) :
      Step s (.getHost modid cmdid env) ⟨c, s.calls, s.sent ++ sent⟩
  | reportRes {modid cmdid : Int32} {host : HostAddr} {retcode : Int32} {mills : UInt64}
      (halive : s.client.agentOff = false)
      (hnode : ∀ cu, s.client.cache.getCache modid cmdid = some cu → host ∈ cu.nodeList)
      (hfit : retcode = 0 → s.client.pending modid cmdid host + 1 < 2 ^ 32)
      (hroom : ¬s.Overruns (.reportRes modid cmdid host retcode mills)) :
      Step s (.reportRes modid cmdid host retcode mills)
        ⟨(s.client.apiReportRes modid cmdid host retcode mills).1,
          s.calls ++ [⟨modid, cmdid, host, retcode = 0⟩],
          s.sent ++ (s.client.apiReportRes modid cmdid host retcode mills).2⟩
  | overrun {op : Op} (s' : Business) (h : s.Overruns op) : Step s op s'

/-- Runs of a business, from a new client. -/
def system : System Business Op where
  init s := ∃ agentOff, s = ⟨.new agentOff, [], []⟩
  step := Step

/-- A batch that is sent has no successes of a node with a negative port, and `wbuf` holds it. -/
def Sendable (cu : CacheUnit) : Prop := cu.Clean ∧ ¬cu.Overruns

/-- A call that sends pending successes on can do so. -/
def SendsClean (s : Business) (op : Op) : Prop := ∀ cu, s.Flushes cu op → Sendable cu

/-- For every host, the results that the business had are those that the agent received and then the
successes that are pending. -/
def InOrder (s : Business) : Prop :=
  ∀ modid cmdid host, s.reported modid cmdid host =
    received modid cmdid host s.sent ++
      List.replicate (s.client.pending modid cmdid host) true

/-- A call that loses nothing keeps the order. -/
theorem InOrder.getHost {s : Business} (h : s.InOrder) {c : ElbClient} {sent : List AgentReq}
    (hf : ElbClient.Faithful s.client c sent) : InOrder ⟨c, s.calls, s.sent ++ sent⟩ := by
  intro modid cmdid host
  have heq := h modid cmdid host
  rw [← hf modid cmdid host, ← List.append_assoc, ← received_append] at heq
  exact heq

/-- One call keeps the order. -/
theorem InOrder.step {s s' : Business} {op : Op} (h : s.InOrder) (hinv : s.client.Inv)
    (hc : s.SendsClean op) (hs : s.Step op s') : s'.InOrder ∧ s'.client.Inv := by
  cases hs with
  | @getHost modid cmdid env c answer sent halive hroom hcall =>
    -- the batch that is due can be taken apart
    have hclean : s.client.RefreshDue modid cmdid env.now →
        ∀ cu, s.client.cache.getCache modid cmdid = some cu → cu.Clean := by
      rintro ⟨cu₀, hcu₀, hdue⟩ cu hcu
      obtain rfl := Option.some.inj (hcu₀.symm.trans hcu)
      exact (hc cu₀ ⟨halive, hcu, hdue⟩).1
    obtain ⟨hinv', hf⟩ := ElbClient.apiGetHost_spec hinv halive hclean hcall
    exact ⟨h.getHost hf, hinv'⟩
  | @reportRes modid cmdid host retcode mills halive hnode hfit hroom =>
    obtain ⟨hinv', heq⟩ := ElbClient.apiReportRes_spec hinv mills halive hnode hfit
      fun hret cu hcu hidle => (hc cu ⟨halive, hret, hcu, hidle⟩).1
    refine ⟨fun m k a => ?_, hinv'⟩
    rw [reported, List.flatMap_append, List.flatMap_singleton, received_append, List.append_assoc,
      ← heq m k a, ← List.append_assoc, ← h m k a]
    rfl
  | overrun s' hover =>
    -- the condition says that no call overruns the buffer
    obtain ⟨cu, hflush, hover⟩ := hover
    exact absurd hover (hc cu hflush).2

/-- A new business whose first request is answered with a route of one node. -/
def routeEnv (node : HostAddr) : ElbClient.Env where
  die := false
  staticHost := none
  now := 10
  mills := 0
  first := some (.cacheGetRoute ⟨1, 2, 5, false, [node]⟩)
  again := none
  recvs := []

/-- The client that has been given the route of one node, with `n` successes pending for it. -/
def routed (node : HostAddr) (n : ℕ) : ElbClient where
  seqid := 0
  agentOff := false
  tsget := 0
  cache := CacheLayer.addCache 1 2
    ⟨1, 2, false, 10, 5, n, [node], (∅ : HashMap _ _).insert node.key (UInt32.ofNat n)⟩ ∅

/-- The request that the route answers. -/
def routeReq : AgentReq := .cacheGetRoute ⟨1, 2, -1⟩

end Business

end Elb
