import Elb.Api.PyClient
import Elb.Api.ReportOrder

/-!
# The order of call results in the Python client

Reference: `apiGetHost`, `apiReportRes`, `apiRegister`, `__getRoute4Cache`, `__batchReportRes` and
`__del__` in `api/python/elbApi/elbClient.py`.

The Python client keeps successes and sends them on as the C++ client does. Its nodes are tuples,
not packed keys, so it has no node that its batches take for another one, and its counts do not wrap
around. Hence the order of the results holds in every run, whatever the ports of the nodes.
-/

namespace Elb

open Transition

/-! ## One item -/

namespace PyCacheUnit

/-- The successes of a node that the agent has not been told. -/
def pending (host : HostAddr) (cu : PyCacheUnit) : ℕ := (cu.succAccum.lookup host).getD 0

/-- `succCnt` is what the dictionary holds, whose keys are the nodes, and the item of a module with
an overloaded host counts nothing. -/
structure Inv (cu : PyCacheUnit) : Prop where
  succCnt_eq : cu.succCnt = HashMap.total id cu.succAccum
  mem_iff : ∀ host, host ∈ cu.succAccum ↔ host ∈ cu.nodeList
  succCnt_of_overload : cu.overload = true → cu.succCnt = 0

/-- An item that counts nothing has nothing pending. -/
theorem Inv.pending_eq_zero {cu : PyCacheUnit} (h : cu.Inv) (hz : cu.succCnt = 0)
    (host : HostAddr) : cu.pending host = 0 := by
  have htotal : HashMap.total id cu.succAccum = 0 := h.succCnt_eq ▸ hz
  rw [pending]
  cases hk : cu.succAccum.lookup host with
  | none => rfl
  | some n => exact (HashMap.total_eq_zero_iff id).mp htotal host n hk

/-- An item in which every count is zero. -/
theorem inv_of_zero {cu : PyCacheUnit} (hz : cu.succCnt = 0)
    (hall : ∀ host n, cu.succAccum.lookup host = some n → n = 0)
    (hmem : ∀ host, host ∈ cu.succAccum ↔ host ∈ cu.nodeList) : cu.Inv where
  succCnt_eq := hz.trans ((HashMap.total_eq_zero_iff id).mpr hall).symm
  mem_iff := hmem
  succCnt_of_overload _ := hz

/-- A batch brings the pending successes of each node. -/
theorem pendingResults_results {cu : PyCacheUnit}
    (hfit : ∀ e ∈ cu.succAccum.entries, e.2 < 2 ^ 32) (host : HostAddr) :
    cu.pendingResults.flatMap (·.results host) = List.replicate (cu.pending host) true := by
  have hentry : ∀ e ∈ cu.succAccum.entries,
      (if e.2 = 0 then none
        else some (⟨e.1.ip, e.1.port, UInt32.ofNat e.2⟩ : HostBatchCallRes)).toList.flatMap
        (·.results host) = if e.1 = host then List.replicate e.2 true else [] := by
    rintro ⟨a, n⟩ he
    have hn : (UInt32.ofNat n).toNat = n := UInt32.toNat_ofNat_of_lt' (hfit _ he)
    have hsame : (a.ip = host.ip ∧ a.port = host.port) ↔ a = host := by
      cases a
      cases host
      rw [HostAddr.mk.injEq]
    by_cases hz : n = 0
    · subst hz
      simp
    · rw [if_neg hz, Option.toList_some, List.flatMap_singleton, HostBatchCallRes.results, hn]
      simp only [hsame]
  rw [pendingResults, List.filterMap_eq_flatMap_toList, List.flatMap_assoc,
    List.flatMap_congr hentry,
    HashMap.flatMap_entries_ite cu.succAccum host fun n => List.replicate n true, pending]
  cases cu.succAccum.lookup host <;> rfl

/-- `__batchReportRes` sends what is pending and keeps nothing. -/
theorem batchReportRes_spec {cu cu' : PyCacheUnit} {sent : List AgentReq} (h : cu.Inv)
    (hb : cu.batchReportRes = some (cu', sent)) :
    cu'.Inv ∧ cu'.succCnt = 0 ∧ cu'.modid = cu.modid ∧ cu'.cmdid = cu.cmdid ∧
      ∀ modid cmdid host, received modid cmdid host sent =
        if cu.modid = modid ∧ cu.cmdid = cmdid then List.replicate (cu.pending host) true
        else [] := by
  rw [batchReportRes] at hb
  split at hb
  · next hz =>
    cases hb
    refine ⟨h, hz, rfl, rfl, fun modid cmdid host => ?_⟩
    rw [h.pending_eq_zero hz, received_nil, List.replicate_zero, ite_self]
  · split at hb
    · next hfit =>
      cases hb
      have hall : ∀ e ∈ cu.succAccum.entries, e.2 < 2 ^ 32 := by simpa using hfit
      refine ⟨inv_of_zero rfl (fun host n hk => ?_) fun host => ?_, rfl, rfl, rfl,
        fun modid cmdid host => ?_⟩
      · rw [HashMap.lookup_mapVal, Option.map_eq_some_iff] at hk
        obtain ⟨_, -, rfl⟩ := hk
        rfl
      · rw [HashMap.mem_mapVal, h.mem_iff]
      · rw [received, List.flatMap_singleton, AgentReq.results, pendingResults_results hall]
    · -- a count too large for its field raises an exception, and nothing is returned
      cases hb

end PyCacheUnit

namespace PyClient

/-- The successes of a host that the agent has not been told. -/
def pending (modid cmdid : Int32) (host : HostAddr) (c : PyClient) : ℕ :=
  ((c.cache.lookup (modid, cmdid)).map (·.pending host)).getD 0

/-- Every item has its invariant and is filed under its own module. -/
structure Inv (c : PyClient) : Prop where
  unit : ∀ key cu, c.cache.lookup key = some cu → cu.Inv
  key_eq : ∀ key cu, c.cache.lookup key = some cu → (cu.modid, cu.cmdid) = key

/-- Nothing is counted for the module. -/
def Settled (modid cmdid : Int32) (c : PyClient) : Prop :=
  ∀ cu, c.cache.lookup (modid, cmdid) = some cu → cu.succCnt = 0

/-- What is sent and what is pending afterwards is what was pending before, for every host. -/
def Faithful (c c' : PyClient) (sent : List AgentReq) : Prop :=
  ∀ modid cmdid host, received modid cmdid host sent ++
    List.replicate (c'.pending modid cmdid host) true =
      List.replicate (c.pending modid cmdid host) true

/-- Nothing is done and nothing is sent. -/
theorem Faithful.refl (c : PyClient) : Faithful c c [] := fun _ _ _ => rfl

/-- Two parts of a call, one after the other. -/
theorem Faithful.trans {c c' c'' : PyClient} {s₁ s₂ : List AgentReq} (h : Faithful c c' s₁)
    (h' : Faithful c' c'' s₂) : Faithful c c'' (s₁ ++ s₂) := by
  intro modid cmdid host
  rw [received_append, List.append_assoc, h' modid cmdid host, h modid cmdid host]

/-- A request for a route brings no results. -/
theorem Faithful.cons_cacheGetRoute {c c' : PyClient} {sent : List AgentReq}
    (h : Faithful c c' sent) (req : CacheGetRouteReq) :
    Faithful c c' (.cacheGetRoute req :: sent) := h

/-- The item of a module is the item of that module. -/
theorem Inv.lookup {c : PyClient} (h : c.Inv) {modid cmdid : Int32} {cu : PyCacheUnit}
    (hk : c.cache.lookup (modid, cmdid) = some cu) :
    cu.Inv ∧ cu.modid = modid ∧ cu.cmdid = cmdid :=
  ⟨h.unit _ cu hk, Prod.mk.inj (h.key_eq _ cu hk)⟩

/-- Storing an item of the right module keeps the invariant. -/
theorem Inv.insert {c c' : PyClient} (h : c.Inv) {modid cmdid : Int32} {item : PyCacheUnit}
    (hitem : item.Inv) (hm : item.modid = modid) (hk : item.cmdid = cmdid)
    (heq : c'.cache = c.cache.insert (modid, cmdid) item) : c'.Inv where
  unit := heq ▸ HashMap.forall_insert h.unit hitem
  key_eq := heq ▸ HashMap.forall_insert h.key_eq (by rw [hm, hk])

/-- If nothing is counted, nothing is pending. -/
theorem Settled.pending_eq {c : PyClient} {modid cmdid : Int32} (hs : c.Settled modid cmdid)
    (h : c.Inv) (host : HostAddr) : c.pending modid cmdid host = 0 := by
  rw [pending]
  cases hk : c.cache.lookup (modid, cmdid) with
  | none => rfl
  | some cu => exact (h.unit _ cu hk).pending_eq_zero (hs cu hk) host

/-- A module without an item has nothing counted. -/
theorem settled_of_none {c : PyClient} {modid cmdid : Int32}
    (h : c.cache.lookup (modid, cmdid) = none) : c.Settled modid cmdid := by
  intro cu hcu
  rw [h] at hcu
  cases hcu

/-- A step that writes the item of one module and sends nothing about the others. -/
theorem faithful_of_insert {c c' : PyClient} {modid cmdid : Int32} {item : PyCacheUnit}
    {sent : List AgentReq} (heq : c'.cache = c.cache.insert (modid, cmdid) item)
    (hother : ∀ m k, ¬(modid = m ∧ cmdid = k) → ∀ host, received m k host sent = [])
    (hthis : ∀ host, received modid cmdid host sent ++ List.replicate (item.pending host) true =
      List.replicate (c.pending modid cmdid host) true) : Faithful c c' sent := by
  intro m k host
  rw [pending, heq, HashMap.lookup_insert_eq]
  by_cases hmod : modid = m ∧ cmdid = k
  · obtain ⟨rfl, rfl⟩ := hmod
    rw [if_pos rfl]
    exact hthis host
  · rw [hother m k hmod, if_neg fun h => hmod ⟨(Prod.mk.inj h).1.symm, (Prod.mk.inj h).2.symm⟩]
    rfl

/-! ## The pieces of a call -/

/-- `__batchReportRes` on the item of a module sends what is pending. -/
theorem flush_spec {c c' : PyClient} (h : c.Inv) {modid cmdid : Int32} {sent : List AgentReq}
    (hf : c.flush modid cmdid = some (c', sent)) :
    c'.Inv ∧ c'.Settled modid cmdid ∧ Faithful c c' sent := by
  rw [flush] at hf
  split at hf
  · next hnone =>
    cases hf
    exact ⟨h, settled_of_none hnone, .refl c⟩
  · next cu hcu =>
    obtain ⟨⟨cu', sent'⟩, hb, heq⟩ := Option.bind_eq_some_iff.mp hf
    cases heq
    obtain ⟨hinv, rfl, rfl⟩ := h.lookup hcu
    obtain ⟨hinv', hz, hm, hk, hrecv⟩ := PyCacheUnit.batchReportRes_spec hinv hb
    refine ⟨h.insert hinv' hm hk rfl, fun item hitem => ?_,
      faithful_of_insert rfl (fun m k hne host => ?_) fun host => ?_⟩
    · rw [AList.lookup_insert] at hitem
      exact Option.some.inj hitem ▸ hz
    · rw [hrecv, if_neg hne]
    · rw [hrecv, if_pos ⟨rfl, rfl⟩, hinv'.pending_eq_zero hz, pending, hcu]
      exact List.append_nil _

/-- The dictionary of a route has its nodes, each with a zero. -/
theorem freshAccum_lookup (route : List HostAddr) (host : HostAddr) :
    (freshAccum route).lookup host = if host ∈ route then some 0 else none := by
  have hfold : ∀ m : HashMap HostAddr ℕ,
      (route.foldl (fun accum a => accum.insert a 0) m).lookup host =
        if host ∈ route then some 0 else m.lookup host := by
    induction route with
    | nil => intro m; rfl
    | cons a route ih =>
      intro m
      rw [List.foldl_cons, ih, HashMap.lookup_insert_eq]
      -- a node that is listed twice is inserted twice, with the same zero
      by_cases ha : host = a <;> by_cases hmem : host ∈ route <;> simp [ha, hmem]
  exact hfold ∅

/-- In an item that has just been filled nothing is counted. -/
theorem inv_filled (modid cmdid : Int32) (ts : ℤ) (rsp : CacheGetRouteRsp) :
    (filled modid cmdid ts rsp).Inv := by
  refine PyCacheUnit.inv_of_zero rfl (fun host n hk => ?_) fun host => ?_
  · rw [filled, freshAccum_lookup] at hk
    split at hk
    · exact (Option.some.inj hk).symm
    · cases hk
  · rw [filled, ← AList.lookup_isSome, freshAccum_lookup]
    by_cases hmem : host ∈ rsp.route <;> simp [hmem]

/-- A route that arrives while nothing is counted for its module loses nothing. -/
theorem applyRoute_spec {c : PyClient} (h : c.Inv) {modid cmdid : Int32}
    (hs : c.Settled modid cmdid) (ts : ℤ) (rsp : CacheGetRouteRsp) :
    (c.applyRoute modid cmdid ts rsp).Inv ∧ Faithful c (c.applyRoute modid cmdid ts rsp) [] := by
  -- the item that is stored counts nothing, and neither did the one that it replaces
  have hstore : ∀ item : PyCacheUnit, item.Inv → item.succCnt = 0 → item.modid = modid →
      item.cmdid = cmdid →
      Inv { c with cache := c.cache.insert (modid, cmdid) item } ∧
        Faithful c { c with cache := c.cache.insert (modid, cmdid) item } [] := by
    intro item hinv hz hm hk
    refine ⟨h.insert hinv hm hk rfl, faithful_of_insert rfl (fun _ _ _ _ => rfl) fun host => ?_⟩
    rw [hinv.pending_eq_zero hz, hs.pending_eq h]
    rfl
  rw [applyRoute]
  split
  · refine ⟨⟨fun key cu hk => h.unit key cu (HashMap.lookup_of_erase hk).2,
      fun key cu hk => h.key_eq key cu (HashMap.lookup_of_erase hk).2⟩, fun m k host => ?_⟩
    rw [received_nil, List.nil_append, pending, HashMap.lookup_erase_eq]
    split
    · next heq =>
      obtain ⟨rfl, rfl⟩ := Prod.mk.inj heq
      rw [hs.pending_eq h]
      rfl
    · rfl
  · split
    · exact hstore _ (inv_filled modid cmdid ts rsp) rfl rfl rfl
    · next cu hcu =>
      obtain ⟨hinv, rfl, rfl⟩ := h.lookup hcu
      have hz := hs cu hcu
      dsimp only
      split
      · exact hstore _ (inv_filled cu.modid cu.cmdid ts rsp) rfl rfl rfl
      · have hcleared : PyCacheUnit.Inv
            { cu with overload := rsp.overload, succCnt := 0, lstUpdTs := ts } :=
          ⟨hz.symm.trans hinv.succCnt_eq, hinv.mem_iff, fun _ => rfl⟩
        exact hstore _ hcleared rfl rfl rfl

/-- Whatever is received, `__getRoute4Cache` with nothing counted loses nothing. -/
theorem recvRoute4Cache_spec {c c' : PyClient} (h : c.Inv) {modid cmdid : Int32}
    (hs : c.Settled modid cmdid) {ts : ℤ} {recv : Option AgentRsp}
    {err : Option PythonClient.Answer} (hr : c.recvRoute4Cache modid cmdid ts recv = (c', err)) :
    c'.Inv ∧ Faithful c c' [] := by
  unfold recvRoute4Cache at hr
  split at hr
  · cases hr
    exact ⟨h, .refl c⟩
  · split at hr
    · cases hr
      exact ⟨h, .refl c⟩
    · cases hr
      exact applyRoute_spec h hs ts _
  · cases hr
    exact ⟨h, .refl c⟩

/-- Serving a host leaves what is pending alone. -/
theorem pickHost_spec {c c' : PyClient} (h : c.Inv) {modid cmdid : Int32} {env : Env}
    {answer : PythonClient.Answer} {sent : List AgentReq}
    (hp : c.pickHost modid cmdid env = some (c', answer, sent)) : c'.Inv ∧ Faithful c c' sent := by
  rw [pickHost] at hp
  split at hp
  · cases hp
    exact ⟨h, .refl c⟩
  · next cu hcu =>
    obtain ⟨hinv, hm, hk⟩ := h.lookup hcu
    split at hp
    · rw [PyCacheUnit.getHost] at hp
      split at hp
      · cases hp
      · next host rest hnodes =>
        cases hp
        have hinv' : PyCacheUnit.Inv { cu with nodeList := rest ++ [host] } := by
          refine ⟨hinv.succCnt_eq, fun a => ?_, hinv.succCnt_of_overload⟩
          rw [hinv.mem_iff a, hnodes, List.mem_append, List.mem_singleton, List.mem_cons, or_comm]
        refine ⟨h.insert hinv' hm hk rfl, faithful_of_insert rfl (fun _ _ _ _ => rfl) fun a => ?_⟩
        rw [received_nil, List.nil_append, pending, hcu]
        rfl
    · cases hp
      exact ⟨⟨h.unit, h.key_eq⟩, fun _ _ _ => rfl⟩

/-! ## Whole calls -/

/-- With an item, `apiGetHost` loses nothing. -/
theorem refreshHost_spec {c c' : PyClient} (h : c.Inv) {modid cmdid : Int32} {env : Env}
    {answer : PythonClient.Answer} {sent : List AgentReq}
    (hp : c.refreshHost modid cmdid env = some (c', answer, sent)) :
    c'.Inv ∧ Faithful c c' sent := by
  rw [refreshHost] at hp
  split at hp
  · cases hp
    exact ⟨h, .refl c⟩
  · split at hp
    · -- the batch comes first, so that the route finds nothing pending
      obtain ⟨⟨c₁, sent₁⟩, hflush, hp⟩ := Option.bind_eq_some_iff.mp hp
      obtain ⟨hinv₁, hs₁, hf₁⟩ := flush_spec h hflush
      obtain ⟨hinv₂, hf₂⟩ := recvRoute4Cache_spec hinv₁ hs₁ rfl
      obtain ⟨⟨c₃, answer₃, sent₃⟩, hpick, heq⟩ := Option.bind_eq_some_iff.mp hp
      obtain ⟨hinv₃, hf₃⟩ := pickHost_spec hinv₂ hpick
      cases heq
      exact ⟨hinv₃, hf₁.trans ((hf₂.trans hf₃).cons_cacheGetRoute _)⟩
    · exact pickHost_spec h hp

/-- `apiGetHost` loses nothing, whether the agent is alive or not. -/
theorem apiGetHost_spec {c c' : PyClient} (h : c.Inv) {modid cmdid : Int32} {env : Env}
    {answer : PythonClient.Answer} {sent : List AgentReq}
    (hp : c.apiGetHost modid cmdid env = some (c', answer, sent)) :
    c'.Inv ∧ Faithful c c' sent := by
  rw [apiGetHost] at hp
  split at hp
  · cases hp
    exact ⟨⟨h.unit, h.key_eq⟩, fun _ _ _ => rfl⟩
  · have halive : Inv { c with agentOff := false } := ⟨h.unit, h.key_eq⟩
    dsimp only at hp
    split at hp
    · exact refreshHost_spec halive hp
    · next hnone =>
      have hs : Settled modid cmdid { c with agentOff := false } := settled_of_none hnone
      split at hp
      · next c₁ err hrecv =>
        cases hp
        obtain ⟨hinv₁, hf₁⟩ := recvRoute4Cache_spec halive hs hrecv
        exact ⟨hinv₁, hf₁.cons_cacheGetRoute _⟩
      · next c₁ hrecv =>
        obtain ⟨hinv₁, hf₁⟩ := recvRoute4Cache_spec halive hs hrecv
        obtain ⟨⟨c₂, answer₂, sent₂⟩, hrefresh, heq⟩ := Option.bind_eq_some_iff.mp hp
        cases heq
        obtain ⟨hinv₂, hf₂⟩ := refreshHost_spec hinv₁ hrefresh
        exact ⟨hinv₂, (hf₁.trans hf₂).cons_cacheGetRoute _⟩

/-- All tries of `apiRegister` together lose nothing. -/
theorem apiRegister_spec {c c' : PyClient} (h : c.Inv) {modid cmdid : Int32} {envs : List Env}
    {ret : ℤ} {sent : List AgentReq}
    (hp : c.apiRegister modid cmdid envs = some (c', ret, sent)) :
    c'.Inv ∧ Faithful c c' sent := by
  -- on the tries; each one is a call of `apiGetHost`
  induction envs generalizing c sent with
  | nil =>
    cases hp
    exact ⟨h, .refl _⟩
  | cons env envs ih =>
    rw [apiRegister] at hp
    obtain ⟨⟨c₁, answer, sent₁⟩, hcall, hp⟩ := Option.bind_eq_some_iff.mp hp
    obtain ⟨hinv₁, hf₁⟩ := apiGetHost_spec h hcall
    dsimp only at hp
    split at hp
    · cases hp
      exact ⟨hinv₁, hf₁⟩
    · obtain ⟨⟨c₂, ret₂, sent₂⟩, hagain, heq⟩ := Option.bind_eq_some_iff.mp hp
      cases heq
      obtain ⟨hinv₂, hf₂⟩ := ih hinv₁ hagain
      exact ⟨hinv₂, hf₁.trans hf₂⟩

/-- `apiReportRes` takes the result: the agent is alive, and a success is not for a host that the
cached route lacks. -/
def takes (modid cmdid : Int32) (host : HostAddr) (res : Int32) (c : PyClient) : Bool :=
  !c.agentOff && match c.cache.lookup (modid, cmdid) with
    | some cu => res ≠ 0 || cu.overload || host ∈ cu.nodeList
    | none => true

/-- The result as it is taken for a host. -/
def taken (modid cmdid : Int32) (host : HostAddr) (res : Int32) (c : PyClient) (m k : Int32)
    (a : HostAddr) : List Bool :=
  if modid = m ∧ cmdid = k ∧ host = a ∧ c.takes modid cmdid host res then [res = 0] else []

/-- A report has the module, the host and the result that it was called with. -/
theorem reportReq_fields {c : PyClient} {modid cmdid : Int32} {host : HostAddr} {res : Int32}
    {mills : ℤ} {req : ReportReq} (h : c.reportReq modid cmdid host res mills = some req) :
    req.modid = modid ∧ req.cmdid = cmdid ∧ req.host = host ∧ req.retcode = res := by
  rw [reportReq] at h
  split at h
  · cases h
    exact ⟨rfl, rfl, rfl, rfl⟩
  · split at h
    · cases h
      exact ⟨rfl, rfl, rfl, rfl⟩
    · cases h

/-- A result that is sent at once, with nothing pending for the module. -/
theorem Settled.report {c c₀ : PyClient} (h : c.Inv) {modid cmdid : Int32}
    (hs : c.Settled modid cmdid) {host : HostAddr} {res : Int32} {mills : ℤ} {req : ReportReq}
    (hreq : c₀.reportReq modid cmdid host res mills = some req)
    (htakes : c₀.takes modid cmdid host res) (m k : Int32) (a : HostAddr) :
    List.replicate (c.pending m k a) true ++ c₀.taken modid cmdid host res m k a =
      received m k a [.report req] ++ List.replicate (c.pending m k a) true := by
  obtain ⟨rfl, rfl, rfl, rfl⟩ := reportReq_fields hreq
  rw [taken, received, List.flatMap_singleton, AgentReq.results]
  by_cases heq : req.modid = m ∧ req.cmdid = k ∧ req.host = a
  · obtain ⟨rfl, rfl, rfl⟩ := heq
    rw [hs.pending_eq h, if_pos ⟨rfl, rfl, rfl, htakes⟩, if_pos ⟨rfl, rfl, rfl⟩]
    rfl
  · rw [if_neg heq, if_neg fun hall => heq ⟨hall.1, hall.2.1, hall.2.2.1⟩, List.append_nil,
      List.nil_append]

/-- A success that is kept in the item of its module, or dropped if its host is no node. -/
theorem report_spec {c : PyClient} (h : c.Inv) {modid cmdid : Int32} {host : HostAddr}
    {cu : PyCacheUnit} (hcu : c.cache.lookup (modid, cmdid) = some cu)
    (halive : c.agentOff = false) (hidle : cu.overload = false) :
    Inv { c with cache := c.cache.insert (modid, cmdid) (cu.report host) } ∧
      ∀ m k a, List.replicate (c.pending m k a) true ++ c.taken modid cmdid host 0 m k a =
        List.replicate (pending m k a
          { c with cache := c.cache.insert (modid, cmdid) (cu.report host) }) true := by
  obtain ⟨hinv, hm, hk⟩ := h.lookup hcu
  have htakes : c.takes modid cmdid host 0 = decide (host ∈ cu.nodeList) := by
    simp [takes, halive, hcu, hidle]
  have hpend : ∀ a, c.pending modid cmdid a = cu.pending a := fun a => by rw [pending, hcu]; rfl
  -- what is pending for the module is what is pending in its item
  have hframe : ∀ item : PyCacheUnit, (∀ a, List.replicate (cu.pending a) true ++
      (if host = a ∧ host ∈ cu.nodeList then [true] else []) =
        List.replicate (item.pending a) true) →
      ∀ m k a, List.replicate (c.pending m k a) true ++ c.taken modid cmdid host 0 m k a =
        List.replicate (pending m k a
          { c with cache := c.cache.insert (modid, cmdid) item }) true := by
    intro item hitem m k a
    rw [taken, htakes]
    simp only [pending, HashMap.lookup_insert_eq]
    by_cases hmod : modid = m ∧ cmdid = k
    · obtain ⟨rfl, rfl⟩ := hmod
      simpa [hcu] using hitem a
    · rw [if_neg fun hall => hmod ⟨hall.1, hall.2.1⟩, List.append_nil,
        if_neg fun heq => hmod ⟨(Prod.mk.inj heq).1.symm, (Prod.mk.inj heq).2.symm⟩]
  rw [PyCacheUnit.report]
  cases hn : cu.succAccum.lookup host with
  | none =>
    have hnode : host ∉ cu.nodeList := by
      rw [← hinv.mem_iff, ← AList.lookup_eq_none, hn]
    refine ⟨h.insert hinv hm hk rfl, hframe cu fun a => ?_⟩
    rw [if_neg fun heq => hnode heq.2, List.append_nil]
  | some n =>
    have hmem : host ∈ cu.succAccum := HashMap.mem_iff.mpr ⟨n, hn⟩
    have hnode : host ∈ cu.nodeList := (hinv.mem_iff host).mp hmem
    have htotal := HashMap.total_insert id hn (n + 1)
    have hreported : PyCacheUnit.Inv { cu with
        succAccum := cu.succAccum.insert host (n + 1), succCnt := cu.succCnt + 1 } := by
      refine ⟨?_, fun a => ?_, fun hover => ?_⟩
      · have heq := hinv.succCnt_eq
        dsimp only [id] at htotal ⊢
        omega
      · rw [AList.mem_insert, hinv.mem_iff]
        exact or_iff_right_of_imp fun ha => ha ▸ hnode
      · cases hidle.symm.trans hover
    refine ⟨h.insert hreported hm hk rfl, hframe _ fun a => ?_⟩
    rw [PyCacheUnit.pending, PyCacheUnit.pending, HashMap.lookup_insert_eq]
    by_cases ha : host = a
    · subst ha
      rw [if_pos ⟨rfl, hnode⟩, if_pos rfl, hn]
      exact List.replicate_succ'.symm
    · rw [if_neg fun heq => ha heq.1, if_neg fun heq => ha heq.symm, List.append_nil]

/-- `apiReportRes` puts the result behind what is pending, if it takes it. -/
theorem apiReportRes_spec {c c' : PyClient} (h : c.Inv) {modid cmdid : Int32} {host : HostAddr}
    {res : Int32} {mills : ℤ} {sent : List AgentReq}
    (hp : c.apiReportRes modid cmdid host res mills = some (c', sent)) :
    c'.Inv ∧ ∀ m k a,
      List.replicate (c.pending m k a) true ++ c.taken modid cmdid host res m k a =
        received m k a sent ++ List.replicate (c'.pending m k a) true := by
  rw [apiReportRes] at hp
  split at hp
  · next hoff =>
    cases hp
    refine ⟨h, fun m k a => ?_⟩
    simp [taken, takes, hoff]
  · next hoff =>
    have halive : c.agentOff = false := by simpa using hoff
    split at hp
    · next cu hcu =>
      split at hp
      · next hidle =>
        have hidle : cu.overload = false := by simpa using hidle
        split at hp
        · next hres =>
          cases hp
          rw [hres]
          exact report_spec h hcu halive hidle
        · next hres =>
          obtain ⟨⟨c₁, sent₁⟩, hflush, hp⟩ := Option.bind_eq_some_iff.mp hp
          obtain ⟨req, hreq, heq⟩ := Option.bind_eq_some_iff.mp hp
          cases heq
          have htakes : c.takes modid cmdid host res := by simp [takes, halive, hcu, hres]
          obtain ⟨hinv, hs, hf⟩ := flush_spec h hflush
          refine ⟨hinv, fun m k a => ?_⟩
          rw [received_append, List.append_assoc, ← hs.report hinv hreq htakes,
            ← List.append_assoc, hf m k a]
      · next hover =>
        obtain ⟨req, hreq, heq⟩ := Option.bind_eq_some_iff.mp hp
        cases heq
        have hover : cu.overload = true := by simpa using hover
        have htakes : c.takes modid cmdid host res := by simp [takes, halive, hcu, hover]
        have hs : c.Settled modid cmdid := fun cu' hcu' =>
          Option.some.inj (hcu.symm.trans hcu') ▸ (h.lookup hcu).1.succCnt_of_overload hover
        exact ⟨h, hs.report h hreq htakes⟩
    · next hnone =>
      obtain ⟨req, hreq, heq⟩ := Option.bind_eq_some_iff.mp hp
      cases heq
      have htakes : c.takes modid cmdid host res := by simp [takes, halive, hnone]
      exact ⟨h, (settled_of_none hnone).report h hreq htakes⟩

/-- What `__del__` sends is what is pending. -/
theorem del_spec {c : PyClient} (h : c.Inv) {sent : List AgentReq} (hd : c.del = some sent)
    (modid cmdid : Int32) (host : HostAddr) :
    received modid cmdid host sent = List.replicate (c.pending modid cmdid host) true := by
  obtain ⟨items, hitems, heq⟩ := Option.bind_eq_some_iff.mp hd
  obtain rfl := Option.some.inj heq
  have hentry : ∀ e ∈ c.cache.entries, ∀ item, e.2.batchReportRes = some item →
      received modid cmdid host item.2 =
        if e.1 = (modid, cmdid) then List.replicate (e.2.pending host) true else [] := by
    intro e he item hb
    have hk : c.cache.lookup e.1 = some e.2 := HashMap.mem_entries_iff.mp he
    rw [(PyCacheUnit.batchReportRes_spec (h.unit _ _ hk) hb).2.2.2.2, ← h.key_eq _ _ hk]
    simp only [Prod.mk.injEq]
  rw [List.mapM_map] at hitems
  rw [received, List.flatMap_assoc]
  refine (List.flatMap_of_mapM hentry hitems).trans ?_
  rw [HashMap.flatMap_entries_ite c.cache (modid, cmdid)
    fun cu => List.replicate (cu.pending host) true, pending]
  cases c.cache.lookup (modid, cmdid) <;> rfl

end PyClient

/-! ## The business -/

/-- A Python client, the results that it took, and the datagrams that it sent. -/
structure PyBusiness where
  client : PyClient
  calls : List CallResult
  sent : List AgentReq

namespace PyBusiness

/-- The results with one host that the client took. -/
def reported (modid cmdid : Int32) (host : HostAddr) (s : PyBusiness) : List Bool :=
  s.calls.flatMap fun r => if r.modid = modid ∧ r.cmdid = cmdid ∧ r.host = host then [r.ok] else []

/-- The calls of the business. -/
inductive Op
  | getHost (modid cmdid : Int32) (env : PyClient.Env)
  | register (modid cmdid : Int32) (envs : List PyClient.Env)
  | reportRes (modid cmdid : Int32) (host : HostAddr) (res : Int32) (mills : ℤ)

/-- One call that raises nothing. -/
inductive Step (s : PyBusiness) : Op → PyBusiness → Prop
  | getHost {modid cmdid : Int32} {env : PyClient.Env} {c : PyClient}
      {answer : PythonClient.Answer} {sent : List AgentReq}
      (hcall : s.client.apiGetHost modid cmdid env = some (c, answer, sent)) :
      Step s (.getHost modid cmdid env) ⟨c, s.calls, s.sent ++ sent⟩
  | register {modid cmdid : Int32} {envs : List PyClient.Env} {c : PyClient} {ret : ℤ}
      {sent : List AgentReq} (hlen : envs.length = 3)
      (hcall : s.client.apiRegister modid cmdid envs = some (c, ret, sent)) :
      Step s (.register modid cmdid envs) ⟨c, s.calls, s.sent ++ sent⟩
  | reportRes {modid cmdid : Int32} {host : HostAddr} {res : Int32} {mills : ℤ} {c : PyClient}
      {sent : List AgentReq}
      (hcall : s.client.apiReportRes modid cmdid host res mills = some (c, sent)) :
      Step s (.reportRes modid cmdid host res mills)
        ⟨c, if s.client.takes modid cmdid host res then s.calls ++ [⟨modid, cmdid, host, res = 0⟩]
          else s.calls, s.sent ++ sent⟩

/-- Runs of a business, from a new client. -/
def system : System PyBusiness Op where
  init s := s = ⟨.new, [], []⟩
  step := Step

/-- For every host, the results that the client took are those that the agent received and then the
successes that are pending. What the agent receives is what the client sends: datagrams are neither
lost nor reordered between the two, and `sendto` takes each of them (UDP carries 65507 bytes). -/
def InOrder (s : PyBusiness) : Prop :=
  ∀ modid cmdid host, s.reported modid cmdid host =
    received modid cmdid host s.sent ++
      List.replicate (s.client.pending modid cmdid host) true

/-- A call that loses nothing keeps the order. -/
theorem InOrder.call {s : PyBusiness} (h : s.InOrder) {c : PyClient} {sent : List AgentReq}
    (hf : PyClient.Faithful s.client c sent) : InOrder ⟨c, s.calls, s.sent ++ sent⟩ := by
  intro modid cmdid host
  have heq := h modid cmdid host
  rw [← hf modid cmdid host, ← List.append_assoc, ← received_append] at heq
  exact heq

/-- One call keeps the order. -/
theorem InOrder.step {s s' : PyBusiness} {op : Op} (h : s.InOrder) (hinv : s.client.Inv)
    (hs : s.Step op s') : s'.InOrder ∧ s'.client.Inv := by
  cases hs with
  | getHost hcall =>
    obtain ⟨hinv', hf⟩ := PyClient.apiGetHost_spec hinv hcall
    exact ⟨h.call hf, hinv'⟩
  | register _ hcall =>
    obtain ⟨hinv', hf⟩ := PyClient.apiRegister_spec hinv hcall
    exact ⟨h.call hf, hinv'⟩
  | @reportRes modid cmdid host res mills c sent hcall =>
    obtain ⟨hinv', heq⟩ := PyClient.apiReportRes_spec hinv hcall
    refine ⟨fun m k a => ?_, hinv'⟩
    rw [received_append, List.append_assoc, ← heq m k a, ← List.append_assoc, ← h m k a,
      PyClient.taken, reported, reported]
    by_cases htakes : s.client.takes modid cmdid host res
    · rw [if_pos htakes, List.flatMap_append, List.flatMap_singleton]
      simp only [htakes, and_true]
    · rw [if_neg htakes, if_neg fun hall => htakes hall.2.2.2, List.append_nil]

/-- The order and the invariant hold in every state of every run. -/
theorem inOrder_inv_of_reachable {s : PyBusiness} (h : system.Reachable s) :
    s.InOrder ∧ s.client.Inv := by
  refine h.invariant (P := fun s => s.InOrder ∧ s.client.Inv) ?_ ?_
  · rintro _ rfl
    exact ⟨fun _ _ _ => rfl, by simp [PyClient.new], by simp [PyClient.new]⟩
  · intro s op s' _ ih hs
    exact ih.1.step ih.2 hs

/-- In every run of the Python client, every result that it takes reaches the agent in the order of
its host, none dropped and none twice; what `__del__` sends completes them. -/
theorem inOrder_of_reachable {s : PyBusiness} (h : system.Reachable s) :
    s.InOrder ∧ ∀ sent, s.client.del = some sent → ∀ modid cmdid host,
      s.reported modid cmdid host = received modid cmdid host (s.sent ++ sent) := by
  obtain ⟨ho, hinv⟩ := inOrder_inv_of_reachable h
  refine ⟨ho, fun sent hd modid cmdid host => ?_⟩
  rw [ho modid cmdid host, received_append, PyClient.del_spec hinv hd]

/-- The first request is answered with a route of one node. -/
def routeEnv (node : HostAddr) : PyClient.Env where
  die := false
  staticHost := none
  now := 10
  mills := 0
  first := some (.cacheGetRoute ⟨1, 2, 5, false, [node]⟩)
  again := none
  recvs := []

/-- The client that has been given the route, with `n` successes pending for its node. -/
def routed (node : HostAddr) (n : ℕ) : PyClient where
  seq := 0
  agentOff := false
  tsget := 0
  cache := (∅ : HashMap _ _).insert (1, 2)
    ⟨1, 2, false, 10, 5, n, [node], (∅ : HashMap _ _).insert node n⟩

/-- A success and then a failure of a node with a negative port: the agent receives both. -/
theorem inOrder_negative_port : ∃ s, system.Reachable s ∧
    s.reported 1 2 ⟨7, -1⟩ = [true, false] ∧ received 1 2 ⟨7, -1⟩ s.sent = [true, false] ∧
    s.InOrder := by
  have h₁ : system.Reachable ⟨routed ⟨7, -1⟩ 0, [], [Business.routeReq]⟩ :=
    .step (e := .getHost 1 2 (routeEnv ⟨7, -1⟩)) (.init rfl) (.getHost rfl)
  have h₂ : system.Reachable
      ⟨routed ⟨7, -1⟩ 1, [⟨1, 2, ⟨7, -1⟩, true⟩], [Business.routeReq]⟩ :=
    h₁.step (e := .reportRes 1 2 ⟨7, -1⟩ 0 3) (.reportRes rfl)
  have h₃ : system.Reachable ⟨routed ⟨7, -1⟩ 0,
      [⟨1, 2, ⟨7, -1⟩, true⟩, ⟨1, 2, ⟨7, -1⟩, false⟩],
      [Business.routeReq, .cacheBatchRpt ⟨1, 2, [⟨7, -1, 1⟩]⟩,
        .report ⟨1, 2, ⟨7, -1⟩, 1, some 4⟩]⟩ :=
    h₂.step (e := .reportRes 1 2 ⟨7, -1⟩ 1 4) (.reportRes rfl)
  exact ⟨_, h₃, rfl, rfl, (inOrder_of_reachable h₃).1⟩

end PyBusiness

end Elb
