import Elb.Api.PythonClient
import Elb.Common.Protobuf
import Mathlib.Algebra.Order.BigOperators.Group.List

/-!
# The buffer of a batch

Reference: `elbClient::batchReportRes` and `elbClient::getRoute4Cache` in
`api/cpp/elbApi/elbApi.cc`; `common/proto/elb.proto`; the header as in
`api/python/elbApi/elbClient.py`.

`batchReportRes` writes its batch behind the header into `wbuf`, an array of 4096 bytes on the
stack, without a look at its size. How many hosts a batch has is bounded by the route reply only,
which comes in a buffer of 81920 bytes.
-/

namespace Elb

open Protobuf

/-! ## The messages as bytes -/

/-- `message HostAddr`. -/
def HostAddr.encode (host : HostAddr) : List UInt8 :=
  numField 1 (int32 host.ip) ++ numField 2 (int32 host.port)

/-- `message CacheGetRouteRsp`, with `overload` set. -/
def CacheGetRouteRsp.encode (rsp : CacheGetRouteRsp) : List UInt8 :=
  numField 1 (int32 rsp.modid) ++ numField 2 (int32 rsp.cmdid) ++
    numField 3 (int64 rsp.version) ++ numField 4 rsp.overload.toNat ++
    rsp.route.flatMap fun host => msgField 5 host.encode

/-- `message HostBatchCallRes`. -/
def HostBatchCallRes.encode (res : HostBatchCallRes) : List UInt8 :=
  numField 1 (int32 res.ip) ++ numField 2 (int32 res.port) ++ numField 3 res.succCnt.toNat

/-- `message CacheBatchRptReq`. -/
def CacheBatchRptReq.encode (req : CacheBatchRptReq) : List UInt8 :=
  numField 1 (int32 req.modid) ++ numField 2 (int32 req.cmdid) ++
    req.results.flatMap fun res => msgField 3 res.encode

/-- `CacheGetRouteRspId`. -/
def cacheGetRouteRspId : Int32 := 10

/-- `CacheBatchRptReqId`. -/
def cacheBatchRptReqId : Int32 := 11

/-- A datagram: the message id and the length, each as an `int` in memory, and the message. -/
def datagram (id : Int32) (body : List UInt8) : List UInt8 :=
  PythonClient.sAddr id ++ PythonClient.sAddr (Int32.ofNat body.length) ++ body

/-- What is written to `wbuf` lies within it. -/
def CacheBatchRptReq.Fits (req : CacheBatchRptReq) : Prop :=
  (datagram cacheBatchRptReqId req.encode).length ≤ 4096

/-- The route reply has come whole. -/
def CacheGetRouteRsp.Fits (rsp : CacheGetRouteRsp) : Prop :=
  (datagram cacheGetRouteRspId rsp.encode).length ≤ 81920

/-! ## Sizes -/

/-- The header takes eight bytes. -/
theorem length_datagram (id : Int32) (body : List UInt8) :
    (datagram id body).length = 8 + body.length := by
  rw [datagram, List.length_append, List.length_append]
  rfl

/-- The size of an address by its two numbers. -/
theorem HostAddr.length_encode (host : HostAddr) :
    host.encode.length = 2 + intWidth host.ip + intWidth host.port := by
  rw [encode, List.length_append, length_numField (by omega), length_numField (by omega),
    width_int32, width_int32]
  omega

/-- The size of an entry by its three numbers. -/
theorem HostBatchCallRes.length_encode (res : HostBatchCallRes) :
    res.encode.length = 3 + intWidth res.ip + intWidth res.port + width res.succCnt.toNat := by
  rw [encode, List.length_append, List.length_append, length_numField (by omega),
    length_numField (by omega), length_numField (by omega), width_int32, width_int32]
  omega

/-- The length of an entry takes one byte. -/
theorem HostBatchCallRes.length_msgField (res : HostBatchCallRes) :
    (msgField 3 res.encode).length =
      5 + intWidth res.ip + intWidth res.port + width res.succCnt.toNat := by
  have hip := intWidth_le res.ip
  have hport := intWidth_le res.port
  have hcnt := width_uint32_le res.succCnt
  have hlen := res.length_encode
  rw [Protobuf.length_msgField (by omega), width_of_lt (by omega), hlen]
  omega

/-- The size of a batch by its ids and its entries. -/
theorem CacheBatchRptReq.length_encode (req : CacheBatchRptReq) :
    req.encode.length = 2 + intWidth req.modid + intWidth req.cmdid +
      (req.results.map fun res =>
        5 + intWidth res.ip + intWidth res.port + width res.succCnt.toNat).sum := by
  rw [encode, List.length_append, List.length_append, length_numField (by omega),
    length_numField (by omega), width_int32, width_int32, List.length_flatMap]
  simp only [HostBatchCallRes.length_msgField]
  omega

/-- A reply with up to 3000 hosts comes whole. -/
theorem CacheGetRouteRsp.fits_of_length_le {rsp : CacheGetRouteRsp} (h : rsp.route.length ≤ 3000) :
    rsp.Fits := by
  -- a host takes two bytes before its own 22 at most
  have hhost : ∀ host : HostAddr, (msgField 5 host.encode).length ≤ 24 := by
    intro host
    have hip := intWidth_le host.ip
    have hport := intWidth_le host.port
    have hlen := host.length_encode
    rw [Protobuf.length_msgField (by omega), width_of_lt (by omega)]
    omega
  have hsum := List.sum_le_card_nsmul
    (rsp.route.map fun host => (msgField 5 host.encode).length) 24 (by
      intro k hk
      obtain ⟨host, -, rfl⟩ := List.mem_map.mp hk
      exact hhost host)
  have hmodid := intWidth_le rsp.modid
  have hcmdid := intWidth_le rsp.cmdid
  have hversion := width_int64_le rsp.version
  have hoverload : width rsp.overload.toNat = 1 := by
    cases rsp.overload <;> exact width_of_lt (by decide)
  rw [List.length_map, Nat.nsmul_eq_mul] at hsum
  rw [Fits, length_datagram, encode, List.length_append, List.length_append, List.length_append,
    List.length_append, length_numField (by omega), length_numField (by omega),
    length_numField (by omega), length_numField (by omega), width_int32, width_int32,
    List.length_flatMap]
  omega

/-! ## What a cache unit sends -/

/-- The accumulators of a route are those of its nodes, all at zero. -/
theorem ElbClient.freshAccum_lookup (route : List HostAddr) (k : UInt64) :
    (freshAccum route).lookup k = if k ∈ route.map HostAddr.key then some 0 else none := by
  have hfold : ∀ m : HashMap UInt64 UInt32,
      (route.foldl (fun accum host => accum.insert host.key 0) m).lookup k =
        if k ∈ route.map HostAddr.key then some 0 else m.lookup k := by
    induction route with
    | nil => intro m; rfl
    | cons host route ih =>
      intro m
      rw [List.foldl_cons, ih, HashMap.lookup_insert_eq]
      -- a node that is listed twice is inserted twice, with the same zero
      by_cases hk : k = host.key <;> by_cases hmem : k ∈ route.map HostAddr.key <;>
        simp [hk, hmem]
  exact hfold ∅

namespace CacheUnit

/-- The accumulators that are not zero. -/
def unreported (cu : CacheUnit) : List (UInt64 × UInt32) :=
  (cu.succAccum.entries.filter fun e => e.2 ≠ 0).map fun e => (e.1, e.2)

/-- What the pending successes of a host take: five bytes, the two numbers that its key comes apart
into, and the count. -/
def entrySize (p : UInt64 × UInt32) : ℕ :=
  5 + intWidth (unpackHi p.1) + intWidth (unpackLo p.1) + width p.2.toNat

/-- The results of the batch are the accumulators that are not zero. -/
theorem pendingResults_eq (cu : CacheUnit) :
    cu.pendingResults = cu.unreported.map fun p => ⟨unpackHi p.1, unpackLo p.1, p.2⟩ := by
  rw [pendingResults, unreported, List.map_map]
  induction cu.succAccum.entries with
  | nil => rfl
  | cons e es ih =>
    by_cases he : e.2 = 0
    · simp only [List.filterMap_cons, if_pos he]
      rw [List.filter_cons_of_neg (by simpa using he), ih]
    · simp only [List.filterMap_cons, if_neg he]
      rw [List.filter_cons_of_pos (by simpa using he), ih]
      rfl

/-- The batch of a unit, if it is sent. -/
def batch (cu : CacheUnit) : CacheBatchRptReq := ⟨cu.modid, cu.cmdid, cu.pendingResults⟩

/-- Ten of the 4096 bytes are the header and the tags of the ids. -/
theorem batch_fits_iff (cu : CacheUnit) : cu.batch.Fits ↔
    intWidth cu.modid + intWidth cu.cmdid + (cu.unreported.map entrySize).sum ≤ 4086 := by
  have hsize : (fun res : HostBatchCallRes =>
      5 + intWidth res.ip + intWidth res.port + width res.succCnt.toNat) ∘
        (fun p : UInt64 × UInt32 => ⟨unpackHi p.1, unpackLo p.1, p.2⟩) = entrySize := rfl
  rw [CacheBatchRptReq.Fits, length_datagram, CacheBatchRptReq.length_encode, batch,
    pendingResults_eq, List.map_map, hsize]
  dsimp only
  omega

/-- An entry takes eight bytes at least and thirty at most. -/
theorem entrySize_bounds (p : UInt64 × UInt32) : 8 ≤ entrySize p ∧ entrySize p ≤ 30 := by
  have hip := intWidth_le (unpackHi p.1)
  have hport := intWidth_le (unpackLo p.1)
  have hcnt := width_uint32_le p.2
  have hip' := intWidth_pos (unpackHi p.1)
  have hport' := intWidth_pos (unpackLo p.1)
  have hcnt' := width_pos p.2.toNat
  rw [entrySize]
  omega

/-- More than 510 hosts never fit. -/
theorem not_batch_fits_of_lt_length {cu : CacheUnit} (h : 510 < cu.unreported.length) :
    ¬cu.batch.Fits := by
  have hsum := List.card_nsmul_le_sum (cu.unreported.map entrySize) 8 (by
    intro k hk
    obtain ⟨p, -, rfl⟩ := List.mem_map.mp hk
    exact (entrySize_bounds p).1)
  have hmodid := intWidth_pos cu.modid
  have hcmdid := intWidth_pos cu.cmdid
  rw [List.length_map, Nat.nsmul_eq_mul] at hsum
  rw [batch_fits_iff]
  omega

/-- What is sent fits in `wbuf` exactly if nothing is sent or the entries of the hosts with pending
successes take at most 4086 bytes together with the ids of the module. -/
theorem batchReportRes_fits_iff (cu : CacheUnit) :
    (∀ req, AgentReq.cacheBatchRpt req ∈ cu.batchReportRes.2 → req.Fits) ↔
      cu.succCnt = 0 ∨
        intWidth cu.modid + intWidth cu.cmdid + (cu.unreported.map entrySize).sum ≤ 4086 := by
  rw [batchReportRes, ← batch_fits_iff]
  split
  · next hzero => exact iff_of_true (by simp) (.inl hzero)
  · next hzero =>
    simp only [List.mem_singleton, AgentReq.cacheBatchRpt.injEq, forall_eq, hzero, false_or]
    rfl

/-- What `getRoute4Cache` makes of the reply for the module, with any accumulators for its hosts. -/
def Cached (rsp : CacheGetRouteRsp) (cu : CacheUnit) : Prop :=
  ∃ (c : ElbClient) (ts : ℤ) (item : CacheUnit),
    (c.getRoute4Cache rsp.modid rsp.cmdid ts (some (.cacheGetRoute rsp))).1.cache.getCache
      rsp.modid rsp.cmdid = some item ∧
    cu = { item with succCnt := cu.succCnt, succAccum := cu.succAccum } ∧
    cu.succAccum.keys = item.succAccum.keys

/-- A reply with many hosts whose addresses are negative numbers. -/
def manyHosts (n : ℕ) : CacheGetRouteRsp :=
  ⟨1, 1, 5, false, (List.range n).map fun i : ℕ => ⟨Int32.ofInt (-1 - i), 8080⟩⟩

/-- One pending success for each host of the reply. -/
def onePending (n : ℕ) : CacheUnit where
  modid := 1
  cmdid := 1
  overload := false
  lstUpdTs := 0
  version := 5
  succCnt := n
  nodeList := (manyHosts n).route
  succAccum := (ElbClient.freshAccum (manyHosts n).route).mapVal fun _ => 1

/-- The accumulators of distinct nodes, the last node first. -/
theorem entries_freshAccum {route : List HostAddr} (h : (route.map HostAddr.key).Nodup) :
    (ElbClient.freshAccum route).entries =
      (route.map fun host => (⟨host.key, 0⟩ : Sigma fun _ : UInt64 => UInt32)).reverse := by
  -- from the end, where the last node is inserted
  induction route using List.reverseRecOn with
  | nil => rfl
  | append_singleton route host ih =>
    rw [List.map_append, List.map_singleton, List.nodup_append] at h
    obtain ⟨hroute, -, hdisj⟩ := h
    have hnot : host.key ∉ ElbClient.freshAccum route := by
      rw [← AList.lookup_isSome, ElbClient.freshAccum_lookup, if_neg]
      · simp
      · exact fun hmem => hdisj _ hmem _ (List.mem_singleton.mpr rfl) rfl
    have hfold : ElbClient.freshAccum (route ++ [host]) =
        (ElbClient.freshAccum route).insert host.key 0 := by
      rw [ElbClient.freshAccum, List.foldl_append]
      rfl
    rw [hfold, AList.entries_insert_of_notMem hnot, ih hroute, List.map_append, List.reverse_append]
    rfl

/-- The address of a host of the reply as a number. -/
theorem toInt_manyHosts {i : ℕ} (hi : i < 2 ^ 31) : (Int32.ofInt (-1 - i)).toInt = -1 - i :=
  Int32.toInt_ofInt_of_le (by omega) (by omega)

/-- The hosts are distinct, so each has an accumulator of its own. -/
theorem nodup_manyHosts {n : ℕ} (hn : n ≤ 2 ^ 31) :
    ((manyHosts n).route.map HostAddr.key).Nodup := by
  rw [manyHosts, List.map_map]
  refine List.Nodup.map_on ?_ List.nodup_range
  intro i hi j hj heq
  rw [List.mem_range] at hi hj
  have hip : Int32.ofInt (-1 - i) = Int32.ofInt (-1 - j) := (packKey_inj heq).1
  have hnum := congrArg Int32.toInt hip
  rw [toInt_manyHosts (by omega), toInt_manyHosts (by omega)] at hnum
  omega

/-- The entry of a host takes 18 bytes. -/
theorem entrySize_manyHosts {n : ℕ} (hn : n ≤ 2 ^ 31) {host : HostAddr}
    (h : host ∈ (manyHosts n).route) : entrySize (host.key, 1) = 18 := by
  obtain ⟨i, hi, rfl⟩ := List.mem_map.mp h
  rw [List.mem_range] at hi
  have hport : ¬(8080 : Int32) < 0 := by decide
  have hip : intWidth (Int32.ofInt (-1 - i)) = 10 := by
    rw [intWidth, if_pos]
    rw [toInt_manyHosts (by omega)]
    omega
  have hport8080 : intWidth 8080 = 2 := by decide +kernel
  have hone : width (1 : UInt32).toNat = 1 := by decide +kernel
  rw [entrySize, HostAddr.key, unpackHi_packKey, if_neg hport, unpackLo_packKey, hip, hport8080,
    hone]

/-- Each of the hosts takes its 18 bytes. -/
theorem sum_onePending {n : ℕ} (hn : n ≤ 2 ^ 31) :
    ((onePending n).unreported.map entrySize).sum = 18 * n := by
  have hentries : (onePending n).succAccum.entries =
      ((manyHosts n).route.map fun host =>
        (⟨host.key, 1⟩ : Sigma fun _ : UInt64 => UInt32)).reverse := by
    have hmap : (onePending n).succAccum.entries =
        (ElbClient.freshAccum (manyHosts n).route).entries.map fun e => ⟨e.1, 1⟩ := rfl
    rw [hmap, entries_freshAccum (nodup_manyHosts hn), List.map_reverse, List.map_map]
    rfl
  have hpending : ∀ e ∈ (onePending n).succAccum.entries, decide (e.2 ≠ 0) = true := by
    intro e he
    rw [hentries, List.mem_reverse, List.mem_map] at he
    obtain ⟨host, -, rfl⟩ := he
    rfl
  have hsizes : (onePending n).unreported.map entrySize =
      ((manyHosts n).route.map fun host => entrySize (host.key, 1)).reverse := by
    rw [unreported, List.filter_eq_self.mpr hpending, hentries, List.map_reverse, List.map_reverse,
      List.map_map, List.map_map]
    rfl
  have hlen : (manyHosts n).route.length = n := by
    rw [manyHosts, List.length_map, List.length_range]
  rw [hsizes, List.sum_reverse, List.map_congr_left fun host h => entrySize_manyHosts hn h,
    List.map_const', List.sum_replicate, hlen, Nat.nsmul_eq_mul, Nat.mul_comm]

/-- A batch for 228 hosts does not fit. -/
theorem not_batchReportRes_fits :
    ¬∀ rsp cu, rsp.Fits → Cached rsp cu →
      ∀ req, AgentReq.cacheBatchRpt req ∈ cu.batchReportRes.2 → req.Fits := by
  intro hall
  have hrsp : (manyHosts 228).Fits := CacheGetRouteRsp.fits_of_length_le (by
    rw [manyHosts, List.length_map, List.length_range]
    omega)
  have hcached : Cached (manyHosts 228) (onePending 228) :=
    ⟨ElbClient.new false, 0, ElbClient.filled 1 1 0 (manyHosts 228), rfl, rfl,
      HashMap.keys_mapVal _ _⟩
  have hsent : AgentReq.cacheBatchRpt (onePending 228).batch ∈ (onePending 228).batchReportRes.2 :=
    List.mem_singleton.mpr rfl
  have hfits := (batch_fits_iff _).mp (hall _ _ hrsp hcached _ hsent)
  -- 18 * 228 = 4104, and two bytes for the ids are more than 4086
  have hsum := sum_onePending (n := 228) (by omega)
  omega

/-- `batchReportRes` writes past the end of `wbuf`. -/
def Overruns (cu : CacheUnit) : Prop := cu.succCnt ≠ 0 ∧ ¬cu.batch.Fits

end CacheUnit

/-! ## The calls that send a batch -/

namespace ElbClient

/-- The entry whose batch `apiGetHost` sends: the one of the module, if it is due for a refresh. -/
def FlushedByGetHost (modid cmdid : Int32) (env : Env) (c : ElbClient) (cu : CacheUnit) : Prop :=
  env.die = false ∧ c.cache.getCache modid cmdid = some cu ∧ env.now - cu.lstUpdTs ≥ 2

/-- The entry whose batch `apiReportRes` sends before a failing result. -/
def FlushedByReport (modid cmdid retcode : Int32) (c : ElbClient) (cu : CacheUnit) : Prop :=
  c.agentOff = false ∧ retcode ≠ 0 ∧ c.cache.getCache modid cmdid = some cu ∧ cu.overload = false

end ElbClient

end Elb
