import Elb.Api.PyReportOrder

/-!
# The Python client against the C++ client

Reference: `api/cpp/elbApi/elbApi.cc`, `api/cpp/elbApi/cacheLayer.cc`,
`api/python/elbApi/elbClient.py`, `api/python/elbApi/CacheLayer.py`.

Two clients that get the same calls, one of each kind, go through states that match: the same items
in the cache, with the same nodes in the same order and the same pending successes. So they return
the same and send the same, up to the order in a batch. `Comparable` has what this needs, which is
where the two differ: the sign of a port, the width of a number, the loop that skips late replies,
and the 4096 bytes that the C++ client has for a batch.
-/

namespace Elb

open Transition

/-- The same request. A batch lists its nodes in the order of a hash table. -/
inductive AgentReq.Same : AgentReq → AgentReq → Prop
  | refl (req : AgentReq) : Same req req
  | batch (modid cmdid : Int32) {results results' : List HostBatchCallRes}
      (h : results.Perm results') :
      Same (.cacheBatchRpt ⟨modid, cmdid, results⟩) (.cacheBatchRpt ⟨modid, cmdid, results'⟩)

/-! ## Items that match -/

/-- The same item, with the same successes for each node and no node with a negative port. -/
structure CacheUnit.Matches (cu : CacheUnit) (item : PyCacheUnit) : Prop where
  modid : cu.modid = item.modid
  cmdid : cu.cmdid = item.cmdid
  overload : cu.overload = item.overload
  lstUpdTs : cu.lstUpdTs = item.lstUpdTs
  version : cu.version = item.version
  succCnt : cu.succCnt = item.succCnt
  nodeList : cu.nodeList = item.nodeList
  accum : ∀ host : HostAddr,
    (cu.succAccum.lookup host.key).map UInt32.toNat = item.succAccum.lookup host
  accum_key : ∀ k ∈ cu.succAccum, ∃ host : HostAddr, host.key = k ∧ 0 ≤ host.port

namespace CacheUnit.Matches

variable {cu : CacheUnit} {item : PyCacheUnit}

/-- The entries of the dictionary are those of the table under the nodes' keys. -/
theorem entries_perm (h : cu.Matches item) :
    (item.succAccum.entries.map fun e =>
      (⟨e.1.key, UInt32.ofNat e.2⟩ : Sigma fun _ : UInt64 => UInt32)).Perm
      cu.succAccum.entries := by
  -- what the dictionary has for a node is what the table has under its key
  have hof : ∀ host n, item.succAccum.lookup host = some n →
      cu.succAccum.lookup host.key = some (UInt32.ofNat n) := by
    intro host n hn
    obtain ⟨m, hm, rfl⟩ := Option.map_eq_some_iff.mp ((h.accum host).trans hn)
    rw [hm, UInt32.ofNat_toNat]
  refine (List.perm_ext_iff_of_nodup ?_ cu.succAccum.nodupKeys.nodup).mpr fun e => ?_
  · have hkeys := item.succAccum.nodupKeys
    rw [List.NodupKeys, List.keys] at hkeys
    refine List.Nodup.of_map Sigma.fst ?_
    rw [List.map_map]
    have hinj : Function.Injective HostAddr.key := fun _ _ heq => HostAddr.key_inj heq
    have := hkeys.map hinj
    rwa [List.map_map] at this
  · obtain ⟨k, n⟩ := e
    rw [List.mem_map, HashMap.mem_entries_iff]
    constructor
    · rintro ⟨⟨host, m⟩, he, heq⟩
      cases heq
      exact hof host m (HashMap.mem_entries_iff.mp he)
    · intro hk
      obtain ⟨host, rfl, -⟩ := h.accum_key k (HashMap.mem_iff.mpr ⟨n, hk⟩)
      refine ⟨⟨host, n.toNat⟩, HashMap.mem_entries_iff.mpr ?_, by rw [UInt32.ofNat_toNat]⟩
      rw [← h.accum host, hk]
      rfl

/-- A count of the dictionary fits its field. -/
theorem entry_lt (h : cu.Matches item) {host : HostAddr} {n : ℕ}
    (hn : item.succAccum.lookup host = some n) : n < 2 ^ 32 := by
  obtain ⟨m, -, rfl⟩ := Option.map_eq_some_iff.mp ((h.accum host).trans hn)
  exact m.toNat_lt

/-- The two batches have the same results. -/
theorem pendingResults_perm (h : cu.Matches item) :
    cu.pendingResults.Perm item.pendingResults := by
  have hentry : ∀ e ∈ item.succAccum.entries,
      (if UInt32.ofNat e.2 = 0 then none
        else some (⟨unpackHi e.1.key, unpackLo e.1.key, UInt32.ofNat e.2⟩ : HostBatchCallRes)) =
      if e.2 = 0 then none else some ⟨e.1.ip, e.1.port, UInt32.ofNat e.2⟩ := by
    rintro ⟨host, n⟩ he
    have hn := HashMap.mem_entries_iff.mp he
    obtain ⟨m, hm, hmn⟩ := Option.map_eq_some_iff.mp ((h.accum host).trans hn)
    obtain ⟨host', hkey, hport⟩ := h.accum_key host.key (HashMap.mem_iff.mpr ⟨m, hm⟩)
    obtain rfl := HostAddr.key_inj hkey
    -- the port is not negative, so the key comes apart as it was packed
    have hhi : unpackHi host'.key = host'.ip := by
      rw [HostAddr.key, unpackHi_packKey, if_neg (Int32.not_lt.mpr hport)]
    have hlo : unpackLo host'.key = host'.port := unpackLo_packKey host'.ip host'.port
    have hzero : UInt32.ofNat n = 0 ↔ n = 0 := by
      rw [← UInt32.toNat_inj, UInt32.toNat_ofNat_of_lt' (h.entry_lt hn), UInt32.toNat_zero]
    dsimp only
    rw [hhi, hlo]
    exact if_congr hzero rfl rfl
  rw [CacheUnit.pendingResults, PyCacheUnit.pendingResults]
  refine (h.entries_perm.symm.filterMap _).trans ?_
  rw [List.filterMap_map]
  exact .of_eq (List.filterMap_congr hentry)

/-- Both send a batch or neither, and it raises nothing. -/
theorem batchReportRes (h : cu.Matches item) : ∃ item' sent,
    item.batchReportRes = some (item', sent) ∧ cu.batchReportRes.1.Matches item' ∧
      List.Forall₂ AgentReq.Same cu.batchReportRes.2 sent := by
  have hfit : item.succAccum.entries.all fun e => e.2 < 2 ^ 32 := by
    rw [List.all_eq_true]
    rintro ⟨host, n⟩ he
    exact decide_eq_true (h.entry_lt (HashMap.mem_entries_iff.mp he))
  rw [CacheUnit.batchReportRes, PyCacheUnit.batchReportRes, ← h.succCnt, if_pos hfit]
  by_cases hz : cu.succCnt = 0
  · rw [if_pos hz, if_pos hz]
    exact ⟨item, [], rfl, h, .nil⟩
  · rw [if_neg hz, if_neg hz, h.modid, h.cmdid]
    refine ⟨_, _, rfl, ⟨rfl, rfl, h.overload, h.lstUpdTs, h.version, rfl, h.nodeList,
      fun host => ?_, fun k hk => ?_⟩, .cons (.batch _ _ h.pendingResults_perm) .nil⟩
    · rw [HashMap.lookup_mapVal, HashMap.lookup_mapVal, ← h.accum host, Option.map_map,
        Option.map_map]
      rfl
    · exact h.accum_key k ((HashMap.mem_mapVal _ _ _).mp hk)

/-- Both keep a success, or neither does. -/
theorem report (h : cu.Matches item) {host : HostAddr} (hfit : cu.pending host + 1 < 2 ^ 32) :
    (cu.report host).Matches (item.report host) := by
  have haccum := h.accum host
  rw [CacheUnit.report, PyCacheUnit.report, ← haccum]
  cases hn : cu.succAccum.lookup host.key with
  | none => exact h
  | some n =>
    have hpend : cu.pending host = n.toNat := by rw [pending, hn]; rfl
    have hsucc : (n + 1).toNat = n.toNat + 1 := toNat_succ (by omega)
    refine ⟨h.modid, h.cmdid, h.overload, h.lstUpdTs, h.version, congrArg (· + 1) h.succCnt,
      h.nodeList, fun a => ?_, fun k hk => ?_⟩
    · dsimp only [Option.map_some]
      rw [HashMap.lookup_insert_eq, HashMap.lookup_insert_eq]
      by_cases ha : a = host
      · subst ha
        rw [if_pos rfl, if_pos rfl, Option.map_some, hsucc]
      · rw [if_neg ha, if_neg fun heq => ha (HostAddr.key_inj heq)]
        exact h.accum a
    · rcases (AList.mem_insert _).mp hk with rfl | hk
      · exact h.accum_key _ (HashMap.mem_iff.mpr ⟨n, hn⟩)
      · exact h.accum_key k hk

/-- Both serve the same node, or neither can. -/
theorem getHost (h : cu.Matches item) :
    Option.Rel (fun x y => x.1 = y.1 ∧ x.2.Matches y.2) cu.getHost item.getHost := by
  rw [CacheUnit.getHost, PyCacheUnit.getHost, ← h.nodeList]
  cases cu.nodeList with
  | nil => exact .none
  | cons host rest =>
    exact .some ⟨rfl, h.modid, h.cmdid, h.overload, h.lstUpdTs, h.version, h.succCnt, rfl, h.accum,
      h.accum_key⟩

/-- A route without negative ports fills both alike. -/
theorem filled (modid cmdid : Int32) (ts : ℤ) {rsp : CacheGetRouteRsp}
    (hport : ∀ host ∈ rsp.route, 0 ≤ host.port) :
    (ElbClient.filled modid cmdid ts rsp).Matches (PyClient.filled modid cmdid ts rsp) := by
  refine ⟨rfl, rfl, rfl, rfl, rfl, rfl, rfl, fun host => ?_, fun k hk => ?_⟩
  · have hmem : host.key ∈ rsp.route.map HostAddr.key ↔ host ∈ rsp.route := by
      rw [List.mem_map]
      refine ⟨?_, fun ha => ⟨host, ha, rfl⟩⟩
      rintro ⟨a, ha, heq⟩
      exact HostAddr.key_inj heq ▸ ha
    rw [ElbClient.filled, PyClient.filled, ElbClient.freshAccum_lookup, PyClient.freshAccum_lookup]
    simp only [hmem]
    split <;> rfl
  · rw [ElbClient.filled, ← AList.lookup_isSome, ElbClient.freshAccum_lookup] at hk
    split at hk
    · next hmem =>
      obtain ⟨host, hhost, rfl⟩ := List.mem_map.mp hmem
      exact ⟨host, rfl, hport host hhost⟩
    · cases hk

end CacheUnit.Matches

/-! ## Clients that match -/

/-- The same cache and the same counters. -/
structure ElbClient.Matches (c : ElbClient) (p : PyClient) : Prop where
  seq : c.seqid.toNat = p.seq
  agentOff : c.agentOff = p.agentOff
  tsget : (c.tsget.toNat : ℤ) = p.tsget
  cache : ∀ modid cmdid, Option.Rel CacheUnit.Matches (c.cache.getCache modid cmdid)
    (p.cache.lookup (modid, cmdid))

namespace ElbClient.Matches

open PythonClient (Answer cppResult)

variable {c : ElbClient} {p : PyClient}

/-- Both store an item of the same module. -/
theorem insert (h : c.Matches p) (modid cmdid : Int32) {cu : CacheUnit} {item : PyCacheUnit}
    (hitem : cu.Matches item) :
    Matches { c with cache := c.cache.addCache modid cmdid cu }
      { p with cache := p.cache.insert (modid, cmdid) item } := by
  refine ⟨h.seq, h.agentOff, h.tsget, fun m k => ?_⟩
  rw [getCache_addCache, HashMap.lookup_insert_eq]
  by_cases hmod : m = modid ∧ k = cmdid
  · rw [if_pos hmod, if_pos (by rw [hmod.1, hmod.2])]
    exact .some hitem
  · rw [if_neg hmod, if_neg fun heq => hmod (Prod.mk.inj heq)]
    exact h.cache m k

/-- Both remove the item of the same module. -/
theorem erase (h : c.Matches p) (modid cmdid : Int32) :
    Matches { c with cache := c.cache.rmCache modid cmdid }
      { p with cache := p.cache.erase (modid, cmdid) } := by
  refine ⟨h.seq, h.agentOff, h.tsget, fun m k => ?_⟩
  rw [getCache_rmCache, HashMap.lookup_erase_eq]
  by_cases hmod : m = modid ∧ k = cmdid
  · rw [if_pos hmod, if_pos (by rw [hmod.1, hmod.2])]
    exact .none
  · rw [if_neg hmod, if_neg fun heq => hmod (Prod.mk.inj heq)]
    exact h.cache m k

/-- Both ask for the route with the same version. -/
theorem cacheGetRouteReq (h : c.Matches p) (modid cmdid : Int32) :
    c.cacheGetRouteReq modid cmdid = p.cacheGetRouteReq modid cmdid := by
  rw [ElbClient.cacheGetRouteReq, PyClient.cacheGetRouteReq]
  rcases (h.cache modid cmdid).none_or_some with ⟨hcu, hitem⟩ | ⟨cu, item, hcu, hitem, hunit⟩
  · rw [hcu, hitem]
  · rw [hcu, hitem]
    dsimp only
    rw [hunit.version]

/-! ### The pieces of a call -/

/-- Both send the batch of the module, and it raises nothing. -/
theorem flush (h : c.Matches p) (modid cmdid : Int32) : ∃ p' sent,
    p.flush modid cmdid = some (p', sent) ∧ Matches (c.flush modid cmdid).1 p' ∧
      List.Forall₂ AgentReq.Same (c.flush modid cmdid).2 sent := by
  rw [ElbClient.flush, PyClient.flush]
  rcases (h.cache modid cmdid).none_or_some with ⟨hcu, hitem⟩ | ⟨cu, item, hcu, hitem, hunit⟩
  · rw [hcu, hitem]
    exact ⟨p, [], rfl, h, .nil⟩
  · obtain ⟨item', sent, hbatch, hunit', hsent⟩ := hunit.batchReportRes
    rw [hcu, hitem]
    dsimp only
    rw [hbatch]
    exact ⟨_, sent, rfl, h.insert modid cmdid hunit', hsent⟩

/-- The ports of a route that a client receives. -/
def Ports (recv : Option AgentRsp) : Prop :=
  ∀ rsp, recv = some (.cacheGetRoute rsp) → ∀ host ∈ rsp.route, 0 ≤ host.port

/-- Both apply a reply alike: remove the item, fill it, or keep its nodes. -/
theorem applyRoute (h : c.Matches p) (modid cmdid : Int32) (ts : ℤ) {rsp : CacheGetRouteRsp}
    (hport : ∀ host ∈ rsp.route, 0 ≤ host.port) :
    Matches (c.applyRoute modid cmdid ts rsp) (p.applyRoute modid cmdid ts rsp) := by
  rw [ElbClient.applyRoute, PyClient.applyRoute]
  split
  · exact h.erase modid cmdid
  · rcases (h.cache modid cmdid).none_or_some with ⟨hcu, hitem⟩ | ⟨cu, item, hcu, hitem, hunit⟩
    · rw [hcu, hitem]
      exact h.insert modid cmdid (.filled modid cmdid ts hport)
    · rw [hcu, hitem]
      refine h.insert modid cmdid ?_
      rw [hunit.version, hunit.modid, hunit.cmdid]
      -- the clients compare the versions the other way round
      by_cases hver : rsp.version = item.version
      · rw [if_neg (not_not.mpr hver), if_neg (not_not.mpr hver.symm)]
        exact ⟨rfl, rfl, rfl, rfl, rfl, rfl, hunit.nodeList, hunit.accum, hunit.accum_key⟩
      · rw [if_pos hver, if_pos fun heq => hver heq.symm]
        exact .filled item.modid item.cmdid ts hport

/-- Both take the route, or both return the code for no answer. -/
theorem recvRoute4Cache (h : c.Matches p) (modid cmdid : Int32) (ts : ℤ) {recv : Option AgentRsp}
    (hport : Ports recv) :
    Matches (c.recvRoute4Cache modid cmdid ts recv).1 (p.recvRoute4Cache modid cmdid ts recv).1 ∧
      ((c.recvRoute4Cache modid cmdid ts recv).2 = 0 ∧
          (p.recvRoute4Cache modid cmdid ts recv).2 = none ∨
        (c.recvRoute4Cache modid cmdid ts recv).2 = noAnswer ∧
          ∃ err, (p.recvRoute4Cache modid cmdid ts recv).2 = some err ∧ err.isNode = false ∧
            err.result = some (cppResult (noAnswer, none))) := by
  unfold ElbClient.recvRoute4Cache PyClient.recvRoute4Cache
  rcases recv with _ | (_ | _ | rsp)
  · exact ⟨h, .inr ⟨rfl, _, rfl, rfl, rfl⟩⟩
  · exact ⟨h, .inr ⟨rfl, _, rfl, rfl, rfl⟩⟩
  · exact ⟨h, .inr ⟨rfl, _, rfl, rfl, rfl⟩⟩
  · dsimp only
    split
    · exact ⟨h, .inr ⟨rfl, _, rfl, rfl, rfl⟩⟩
    · exact ⟨h.applyRoute modid cmdid ts (hport rsp rfl), .inl ⟨rfl, rfl⟩⟩

/-- Both calls meet the same: the replies about a host are about the module, no late one among them
stands in front of the answer, and no port is negative. -/
structure SameEnv (modid cmdid : Int32) (seq : UInt32) (env : Env) (env' : PyClient.Env) :
    Prop where
  die : env.die = env'.die
  staticHost : env.staticHost = env'.staticHost
  now : env.now = env'.now
  mills : (env.mills.toNat : ℤ) = env'.mills
  first : env.first = env'.first
  again : env.again = env'.again
  ports : Ports env.first ∧ Ports env.again
  recvs : ∃ rsps : List GetHostRsp, env.recvs = rsps.map .getHost ∧
    List.Forall₂ PythonClient.Datagram.Carries env'.recvs rsps ∧
      (∀ rsp ∈ rsps, rsp.modid = modid ∧ rsp.cmdid = cmdid) ∧ PythonClient.FirstInTime seq rsps

/-- Both return the same and send the same, and go on in states that match. -/
def SameOutcome (x : ElbClient × (Int32 × Option HostAddr) × List AgentReq)
    (y : PyClient × Answer × List AgentReq) : Prop :=
  x.1.Matches y.1 ∧ y.2.1.result = some (cppResult x.2.1) ∧ List.Forall₂ AgentReq.Same x.2.2 y.2.2

/-- The tuple of the Python client stands for the host of the C++ client. -/
theorem nodeOf_result (host : HostAddr) :
    (PythonClient.nodeOf host).result = some (cppResult (0, some host)) := by
  rw [PythonClient.nodeOf, PythonClient.packI_unsignedIp]
  rfl

/-- The C++ client has a host if it returns zero. -/
theorem recvHost_isSome (seq : UInt32) (modid cmdid : Int32) (recvs : List AgentRsp)
    (h0 : (recvHost seq modid cmdid recvs).1 = 0) :
    (recvHost seq modid cmdid recvs).2.isSome := by
  have hno : noAnswer ≠ 0 := by decide
  induction recvs with
  | nil => exact absurd h0 hno
  | cons recv recvs ih =>
    cases recv with
    | getHost rsp =>
      rw [recvHost] at h0 ⊢
      split at h0
      · next hlt =>
        rw [if_pos hlt]
        exact ih h0
      · next hlt =>
        rw [if_neg hlt]
        split at h0
        · exact absurd h0 hno
        · next hown =>
          rw [if_neg hown]
          split at h0
          · next hret =>
            rw [if_pos hret]
            rfl
          · next hret => exact absurd h0 hret
    | _ => exact absurd h0 hno

/-- Returning the same, the one has a host exactly if the other has. -/
theorem isNode_iff {answer : Answer} {ret : Int32 × Option HostAddr}
    (h : answer.result = some (cppResult ret)) (hsome : ret.1 = 0 → ret.2.isSome) :
    answer.isNode = true ↔ ret.1 = 0 := by
  cases answer with
  | node ip port =>
    have hret := congrArg Prod.fst (Option.some.inj h)
    exact iff_of_true rfl (Int32.toInt_inj.mp hret.symm)
  | error retcode message =>
    have hnone := congrArg Prod.snd (Option.some.inj h)
    refine iff_of_false (fun hnode => by cases hnode) fun h0 => ?_
    obtain ⟨host, hhost⟩ := Option.isSome_iff_exists.mp (hsome h0)
    rw [cppResult, hhost] at hnone
    cases hnone
  | raised => cases h

/-- The two receiving loops return the same for the replies of the agent about a module, if the
first of them is not late, or no answer comes behind the late ones. -/
theorem recvHost_result_of_firstInTime {seq : UInt32} {modid cmdid : Int32}
    {recvs : List PythonClient.Datagram} {rsps : List GetHostRsp}
    (hrecvs : List.Forall₂ PythonClient.Datagram.Carries recvs rsps)
    (hmod : ∀ rsp ∈ rsps, rsp.modid = modid ∧ rsp.cmdid = cmdid)
    (hfirst : PythonClient.FirstInTime seq rsps) :
    (PythonClient.recvHost seq recvs).result =
      some (cppResult (recvHost seq modid cmdid (rsps.map .getHost))) := by
  rw [PythonClient.cpp_recvHost_eq hmod]
  cases hrecvs with
  | nil => rfl
  | @cons d rsp recvs rsps hd hrest =>
    -- the first datagram is accepted whatever its sequence number
    have hstart : PythonClient.recvHost seq (d :: recvs) =
        PythonClient.recvAgain seq rsp recvs := by
      rw [PythonClient.recvHost, if_neg (by simp [hd.id, hd.length]), hd.rsp]
    rw [hstart]
    by_cases hlt : rsp.seq < seq
    · -- late: the loop fails at the next one, and the C++ client finds no answer
      have hlate := hfirst.resolve_left fun h => h rsp rfl hlt
      rw [List.find?_cons_of_neg (by simpa using hlt)] at hlate ⊢
      rw [PythonClient.recvAgain_result_of_lt hlt hrest]
      cases hfind : rsps.find? fun rsp => ¬rsp.seq < seq with
      | none => rfl
      | some rsp' =>
        have hno := (PythonClient.cppResult_eq_noAnswer_iff seq rsp').mpr (hlate rsp' hfind)
        exact congrArg some hno.symm
    · have htake : PythonClient.recvAgain seq rsp recvs = PythonClient.answer seq rsp := by
        cases recvs <;> rw [PythonClient.recvAgain, if_neg hlt]
      rw [htake, PythonClient.answer_result, List.find?_cons_of_pos (by simpa using hlt)]

/-- Both ask the agent for a host and return the same, if no request number is wider than the Python
client's. -/
theorem askHost (h : c.Matches p) {modid cmdid : Int32} {env : Env} {env' : PyClient.Env}
    (henv : SameEnv modid cmdid c.seqid env env') (hseq : c.seqid.toNat < 2 ^ 31) :
    SameOutcome (c.askHost modid cmdid env) (p.askHost modid cmdid env') := by
  obtain ⟨rsps, hrecvs, hcarry, hmod, hfirst⟩ := henv.recvs
  have hpseq : (if p.seq = 2 ^ 31 then 0 else p.seq) = c.seqid.toNat := by
    rw [h.seq, if_neg (by have := h.seq; omega)]
  have hresult : (PythonClient.recvHost c.seqid env'.recvs).result =
      some (cppResult (recvHost c.seqid modid cmdid env.recvs)) := by
    rw [hrecvs]
    exact recvHost_result_of_firstInTime hcarry hmod hfirst
  have hnode := isNode_iff hresult (recvHost_isSome c.seqid modid cmdid env.recvs)
  have hnext : (c.seqid + 1).toNat = c.seqid.toNat + 1 := toNat_succ (by omega)
  unfold ElbClient.askHost PyClient.askHost
  dsimp only
  rw [hpseq, UInt32.ofNat_toNat]
  refine ⟨⟨hnext, h.agentOff, ?_, h.cache⟩, hresult, .cons (.refl _) .nil⟩
  simp only [hnode]
  split
  · exact henv.mills
  · exact h.tsget

/-- With an idle item both serve its first node, otherwise both ask the agent. -/
theorem pickHost (h : c.Matches p) {modid cmdid : Int32} {env : Env} {env' : PyClient.Env}
    (henv : SameEnv modid cmdid c.seqid env env') (hseq : c.seqid.toNat < 2 ^ 31) :
    Option.Rel SameOutcome (c.pickHost modid cmdid env) (p.pickHost modid cmdid env') := by
  rw [ElbClient.pickHost, PyClient.pickHost]
  rcases (h.cache modid cmdid).none_or_some with ⟨hcu, hitem⟩ | ⟨cu, item, hcu, hitem, hunit⟩
  · rw [hcu, hitem]
    exact .some ⟨h, rfl, .nil⟩
  · rw [hcu, hitem]
    dsimp only
    rw [← hunit.overload]
    split
    · refine hunit.getHost.bind ?_
      rintro ⟨host, cu'⟩ ⟨host', item'⟩ ⟨hhost, hunit'⟩
      obtain rfl : host = host' := hhost
      have hst := h.insert modid cmdid hunit'
      exact .some ⟨⟨hst.seq, hst.agentOff, henv.mills, hst.cache⟩, nodeOf_result host, .nil⟩
    · exact .some (h.askHost henv hseq)

/-! ### Whole calls -/

/-- A batch takes no request number. -/
theorem seqid_flush (c : ElbClient) (modid cmdid : Int32) :
    (c.flush modid cmdid).1.seqid = c.seqid := by
  rw [ElbClient.flush]
  cases c.cache.getCache modid cmdid <;> rfl

/-- Nor does a refresh. -/
theorem seqid_getRoute4Cache (c : ElbClient) (modid cmdid : Int32) (ts : ℤ)
    (recv : Option AgentRsp) : (c.getRoute4Cache modid cmdid ts recv).1.seqid = c.seqid := by
  unfold ElbClient.getRoute4Cache ElbClient.recvRoute4Cache
  rcases recv with _ | (_ | _ | rsp)
  · rfl
  · rfl
  · rfl
  · dsimp only
    split
    · rfl
    · unfold ElbClient.applyRoute
      split
      · rfl
      · split <;> rfl

/-- Both refresh an item that is two seconds old, and go on alike. -/
theorem refreshHost (h : c.Matches p) {modid cmdid : Int32} {env : Env} {env' : PyClient.Env}
    (henv : SameEnv modid cmdid c.seqid env env') (hseq : c.seqid.toNat < 2 ^ 31) :
    Option.Rel SameOutcome (c.refreshHost modid cmdid env) (p.refreshHost modid cmdid env') := by
  rw [ElbClient.refreshHost, PyClient.refreshHost]
  rcases (h.cache modid cmdid).none_or_some with ⟨hcu, hitem⟩ | ⟨cu, item, hcu, hitem, hunit⟩
  · rw [hcu, hitem]
    exact .some ⟨h, rfl, .nil⟩
  · rw [hcu, hitem]
    dsimp only
    rw [← henv.now, ← hunit.lstUpdTs]
    split
    · -- the batch, the request for a route, and the rest
      obtain ⟨p₁, sent₁, hflush, h₁, hsent₁⟩ := h.flush modid cmdid
      have hreq := h₁.cacheGetRouteReq modid cmdid
      have h₂ := (h₁.recvRoute4Cache modid cmdid env.now henv.ports.2).1
      have hseqid : (ElbClient.getRoute4Cache modid cmdid env.now env.again
          (c.flush modid cmdid).1).1.seqid = c.seqid := by
        rw [seqid_getRoute4Cache, seqid_flush]
      rw [hflush, ← henv.again]
      simp only [Option.bind_eq_bind, Option.bind_some]
      refine Option.Rel.bind (h₂.pickHost (hseqid.symm ▸ henv) (hseqid.symm ▸ hseq)) ?_
      rintro ⟨c₃, ret, sent₃⟩ ⟨p₃, answer, sent₃'⟩ ⟨h₃, hresult, hsent₃⟩
      refine .some ⟨h₃, hresult, ?_⟩
      dsimp only at hsent₃ ⊢
      rw [← hreq, List.append_assoc]
      exact List.rel_append hsent₁ (.cons (.refl _) hsent₃)
    · exact h.pickHost henv hseq

/-- `apiGetHost` does the same in both clients. -/
theorem apiGetHost (h : c.Matches p) {modid cmdid : Int32} {env : Env} {env' : PyClient.Env}
    (henv : SameEnv modid cmdid c.seqid env env') (hseq : c.seqid.toNat < 2 ^ 31) :
    Option.Rel SameOutcome (c.apiGetHost modid cmdid env) (p.apiGetHost modid cmdid env') := by
  rw [ElbClient.apiGetHost, PyClient.apiGetHost, ← henv.die, ← henv.staticHost]
  split
  · have hoff : Matches { c with agentOff := true } { p with agentOff := true } :=
      ⟨h.seq, rfl, h.tsget, h.cache⟩
    cases env.staticHost with
    | none => exact .some ⟨hoff, rfl, .nil⟩
    | some host => exact .some ⟨hoff, nodeOf_result host, .nil⟩
  · have halive : Matches { c with agentOff := false } { p with agentOff := false } :=
      ⟨h.seq, rfl, h.tsget, h.cache⟩
    dsimp only
    rcases (h.cache modid cmdid).none_or_some with ⟨hcu, hitem⟩ | ⟨cu, item, hcu, hitem, -⟩
    · rw [hcu, hitem]
      have hreq := halive.cacheGetRouteReq modid cmdid
      obtain ⟨h₁, hret⟩ := halive.recvRoute4Cache modid cmdid env.now henv.ports.1
      have hseqid := seqid_getRoute4Cache { c with agentOff := false } modid cmdid env.now env.first
      rw [← henv.now, ← henv.first]
      generalize PyClient.recvRoute4Cache modid cmdid env.now env.first
        { p with agentOff := false } = got at h₁ hret ⊢
      obtain ⟨p₁, err⟩ := got
      -- the C++ client returns the code for no answer where the Python client returns an error
      -- tuple
      rcases hret with ⟨h0, rfl⟩ | ⟨hno, err, rfl, -, hresult⟩
      · rw [ElbClient.getRoute4Cache] at hseqid ⊢
        dsimp only at h0 h₁ hseqid ⊢
        rw [if_neg (not_not.mpr h0)]
        refine Option.Rel.bind (h₁.refreshHost (hseqid.symm ▸ henv) (hseqid.symm ▸ hseq)) ?_
        rintro ⟨c₂, ret, sent₂⟩ ⟨p₂, answer, sent₂'⟩ ⟨h₂, hresult, hsent₂⟩
        exact .some ⟨h₂, hresult, .cons (hreq ▸ .refl _) hsent₂⟩
      · rw [ElbClient.getRoute4Cache]
        dsimp only at hno h₁ ⊢
        have hne : noAnswer ≠ 0 := by decide
        rw [← hno] at hne hresult
        rw [if_pos hne]
        exact .some ⟨h₁, hresult, .cons (hreq ▸ .refl _) .nil⟩
    · rw [hcu, hitem]
      exact halive.refreshHost henv hseq

/-- Both report the same result, with the same time if it failed. -/
theorem reportReq (h : c.Matches p) (modid cmdid : Int32) (host : HostAddr) {retcode : Int32}
    {mills : UInt64} (htime : retcode ≠ 0 → c.tsget.toNat ≤ mills.toNat ∧
      mills.toNat < c.tsget.toNat + 2 ^ 32) :
    p.reportReq modid cmdid host retcode mills.toNat =
      some (c.reportReq modid cmdid host retcode mills) := by
  rw [PyClient.reportReq, ElbClient.reportReq]
  by_cases hret : retcode = 0
  · rw [if_pos hret, if_pos hret]
  · obtain ⟨hle, hlt⟩ := htime hret
    have htsget := h.tsget
    -- the C++ client subtracts in 64 unsigned bits and then cuts to 32
    have hsub : (mills - c.tsget).toNat = mills.toNat - c.tsget.toNat :=
      UInt64.toNat_sub_of_le _ _ (UInt64.le_iff_toNat_le.mpr hle)
    have hcost : UInt32.ofNat ((mills.toNat : ℤ) - p.tsget).toNat = (mills - c.tsget).toUInt32 := by
      rw [← UInt32.toNat_inj, UInt64.toNat_toUInt32, UInt32.toNat_ofNat', hsub]
      congr 1
      omega
    rw [if_neg hret, if_neg hret, if_pos ⟨by omega, by omega⟩, hcost]

/-- Both report, or keep the success, and nothing is raised. -/
theorem apiReportRes (h : c.Matches p) {modid cmdid : Int32} {host : HostAddr} {retcode : Int32}
    {mills : UInt64} (hfit : retcode = 0 → c.pending modid cmdid host + 1 < 2 ^ 32)
    (htime : retcode ≠ 0 → c.tsget.toNat ≤ mills.toNat ∧ mills.toNat < c.tsget.toNat + 2 ^ 32) :
    ∃ p' sent, p.apiReportRes modid cmdid host retcode mills.toNat = some (p', sent) ∧
      Matches (c.apiReportRes modid cmdid host retcode mills).1 p' ∧
        List.Forall₂ AgentReq.Same (c.apiReportRes modid cmdid host retcode mills).2 sent := by
  have hreq := h.reportReq modid cmdid host htime
  rw [ElbClient.apiReportRes, PyClient.apiReportRes, hreq]
  by_cases hoff : c.agentOff = true
  · rw [if_pos hoff, if_pos (h.agentOff ▸ hoff)]
    exact ⟨p, [], rfl, h, .nil⟩
  · rw [if_neg hoff, if_neg (h.agentOff ▸ hoff)]
    rcases (h.cache modid cmdid).none_or_some with ⟨hcu, hitem⟩ | ⟨cu, item, hcu, hitem, hunit⟩
    · rw [hcu, hitem]
      exact ⟨p, _, rfl, h, .cons (.refl _) .nil⟩
    · rw [hcu, hitem]
      dsimp only
      rw [← hunit.overload]
      split
      · by_cases hret : retcode = 0
        · have hpend : c.pending modid cmdid host = cu.pending host := by rw [pending, hcu]; rfl
          rw [if_pos hret, if_pos hret]
          exact ⟨_, [], rfl, h.insert modid cmdid (hunit.report (hpend ▸ hfit hret)), .nil⟩
        · obtain ⟨p', sent, hflush, h', hsent⟩ := h.flush modid cmdid
          rw [if_neg hret, if_neg hret, hflush]
          exact ⟨p', _, rfl, h', List.rel_append hsent (.cons (.refl _) .nil)⟩
      · exact ⟨p, _, rfl, h, .cons (.refl _) .nil⟩

end ElbClient.Matches

/-! ## Two clients side by side -/

/-- A client of each kind, with what they have sent and what their calls for a host returned. -/
structure Clients where
  cpp : ElbClient
  python : PyClient
  sent : List AgentReq
  sent' : List AgentReq
  returned : List (Int32 × Option HostAddr)
  returned' : List PythonClient.Answer

namespace Clients

/-- A call of both. -/
inductive Op
  | getHost (modid cmdid : Int32) (env : ElbClient.Env) (env' : PyClient.Env)
  | reportRes (modid cmdid : Int32) (host : HostAddr) (retcode : Int32) (mills : UInt64)

/-- The C++ client writes a batch past the end of `wbuf`. -/
def Overruns (s : Clients) : Op → Prop
  | .getHost modid cmdid env _ => ∃ cu, s.cpp.FlushedByGetHost modid cmdid env cu ∧ cu.Overruns
  | .reportRes modid cmdid _ retcode _ =>
    ∃ cu, s.cpp.FlushedByReport modid cmdid retcode cu ∧ cu.Overruns

/-- One call that both come back from. If the C++ client overruns `wbuf`, it is undefined what
comes then. -/
inductive Step (s : Clients) : Op → Clients → Prop
  | getHost {modid cmdid : Int32} {env : ElbClient.Env} {env' : PyClient.Env} {c : ElbClient}
      {p : PyClient} {ret : Int32 × Option HostAddr} {answer : PythonClient.Answer}
      {sent sent' : List AgentReq} (hroom : ¬s.Overruns (.getHost modid cmdid env env'))
      (hcpp : s.cpp.apiGetHost modid cmdid env = some (c, ret, sent))
      (hpython : s.python.apiGetHost modid cmdid env' = some (p, answer, sent')) :
      Step s (.getHost modid cmdid env env') ⟨c, p, s.sent ++ sent, s.sent' ++ sent',
        s.returned ++ [ret], s.returned' ++ [answer]⟩
  | reportRes {modid cmdid : Int32} {host : HostAddr} {retcode : Int32} {mills : UInt64}
      {p : PyClient} {sent' : List AgentReq}
      (hroom : ¬s.Overruns (.reportRes modid cmdid host retcode mills))
      (hpython : s.python.apiReportRes modid cmdid host retcode mills.toNat = some (p, sent')) :
      Step s (.reportRes modid cmdid host retcode mills)
        ⟨(s.cpp.apiReportRes modid cmdid host retcode mills).1, p,
          s.sent ++ (s.cpp.apiReportRes modid cmdid host retcode mills).2, s.sent' ++ sent',
          s.returned, s.returned'⟩
  | overrun {op : Op} (s' : Clients) (h : s.Overruns op) : Step s op s'

/-- Runs of two new clients. The constructor of the C++ client does not set `_agentOff`; it is set
here as the Python client sets it. -/
def system : System Clients Op where
  init s := s = ⟨.new true, .new, [], [], [], []⟩
  step := Step

/-- Both calls meet the same, and no number is too wide: the client has asked fewer than `2 ^ 31`
times, fewer than `2 ^ 32` successes are pending for the host, and a failed call took less than
`2 ^ 32` milliseconds. -/
def SameCall (s : Clients) : Op → Prop
  | .getHost modid cmdid env env' =>
    s.cpp.seqid.toNat < 2 ^ 31 ∧ ElbClient.Matches.SameEnv modid cmdid s.cpp.seqid env env'
  | .reportRes modid cmdid host retcode mills =>
    (retcode = 0 → s.cpp.pending modid cmdid host + 1 < 2 ^ 32) ∧
      (retcode ≠ 0 → s.cpp.tsget.toNat ≤ mills.toNat ∧ mills.toNat < s.cpp.tsget.toNat + 2 ^ 32)

/-- It is the same call, and the batch that the C++ client sends, if any, fits in `wbuf`. -/
def Comparable (s : Clients) (op : Op) : Prop := s.SameCall op ∧ ¬s.Overruns op

/-- The C++ client comes back from the call: it does not overrun `wbuf`, nor serve a module without
nodes. -/
def CppReturns (s : Clients) : Op → Prop
  | .getHost modid cmdid env env' =>
    ¬s.Overruns (.getHost modid cmdid env env') ∧ (s.cpp.apiGetHost modid cmdid env).isSome
  | .reportRes modid cmdid host retcode mills =>
    ¬s.Overruns (.reportRes modid cmdid host retcode mills)

/-- The Python client comes back from the call: nothing is raised. -/
def PythonReturns (s : Clients) : Op → Prop
  | .getHost modid cmdid _ env' => (s.python.apiGetHost modid cmdid env').isSome
  | .reportRes modid cmdid host retcode mills =>
    (s.python.apiReportRes modid cmdid host retcode mills.toNat).isSome

/-- Both return from the call, or neither does. -/
def Returns (s : Clients) (op : Op) : Prop := s.CppReturns op ↔ s.PythonReturns op

/-- The states match, the same was sent, and the same was returned. -/
structure Agree (s : Clients) : Prop where
  client : s.cpp.Matches s.python
  sent : List.Forall₂ AgentReq.Same s.sent s.sent'
  returned : s.returned'.map PythonClient.Answer.result =
    s.returned.map fun ret => some (PythonClient.cppResult ret)

/-- One call of both. -/
theorem Agree.step {s s' : Clients} {op : Op} (h : s.Agree) (hop : s.Comparable op)
    (hs : s.Step op s') : s'.Agree := by
  obtain ⟨hsame, hfits⟩ := hop
  cases hs with
  | getHost hroom hcpp hpython =>
    have hrel := h.client.apiGetHost hsame.2 hsame.1
    rw [hcpp, hpython] at hrel
    cases hrel with
    | some hout =>
      obtain ⟨hclient, hresult, hsent⟩ := hout
      refine ⟨hclient, List.rel_append h.sent hsent, ?_⟩
      rw [List.map_append, List.map_append, h.returned, List.map_singleton, List.map_singleton,
        hresult]
  | reportRes hroom hpython =>
    obtain ⟨p', sent, hcall, hclient, hsent⟩ := h.client.apiReportRes hsame.1 hsame.2
    cases hpython.symm.trans hcall
    exact ⟨hclient, List.rel_append h.sent hsent, h.returned⟩
  | overrun s' hover => exact absurd hover hfits

end Clients

end Elb
