import Elb.Api.BatchSize
import Elb.Common.ProtobufParse

/-!
# The messages as bytes

Reference: `common/proto/elb.pb.cc`, generated from `common/proto/elb.proto`: of each message
`MergePartialFromCodedStream`, `SerializeWithCachedSizes` and `IsInitialized`.

Each message has a format, the table of its fields with their tags. What is sent under a message id
is what the handler of this id gets, also if fields that the message does not have come between its
own, as a later version of the file may add them.
-/

namespace Elb

open Protobuf

variable {rt : Runtime}

/-! ## Messages of numbers -/

/-- The fields with their `_has_bits_`, as in the messages below. -/
structure HostAddr.Partial where
  ip : Option Int32 := none
  port : Option Int32 := none

namespace HostAddr

/-- `ip` and `port`, both `int32` and required. -/
def columns : List (Column HostAddr Partial) :=
  [.int32 8 (fun x => [x.ip]) fun v m => { m with ip := some v },
    .int32 16 (fun x => [x.port]) fun v m => { m with port := some v }]

/-- Both fields are there. -/
def Partial.complete (m : Partial) : Option HostAddr := do return ⟨← m.ip, ← m.port⟩

/-- The tags are those of the fields 1 and 2. -/
theorem columns_tagged : WellTagged (columns.map Column.field) := ⟨by decide, by decide⟩

/-- `HostAddr` as it is written and read. -/
def format : Format HostAddr Partial := ⟨columns, {}, Partial.complete, columns_tagged⟩

/-- The table of fields writes the bytes of `encode`. -/
theorem format_encode (x : HostAddr) : format.encode x = x.encode := by
  simp [Format.encode, format, columns, serialize_cons, serialize_nil, Column.int32,
    Column.bytes_scalar, encode, numField]

/-- Every address is read back field by field. -/
theorem format_holds (hrt : rt.Documented) (x : HostAddr) : format.Holds rt x where
  reads := by
    simp only [format, columns, List.forall_mem_cons]
    exact ⟨.int32 hrt _ _ _ x, .int32 hrt _ _ _ x, by simp⟩
  complete := rfl

/-- An address is short enough that its length takes one byte. -/
theorem length_format_encode (x : HostAddr) : (format.encode x).length ≤ 22 := by
  have hip := intWidth_le x.ip
  have hport := intWidth_le x.port
  rw [format_encode, x.length_encode]
  omega

end HostAddr

/-- `GetHostReq` while it is read. -/
structure GetHostReq.Partial where
  seq : Option UInt32 := none
  modid : Option Int32 := none
  cmdid : Option Int32 := none

namespace GetHostReq

/-- The request number, and the module that a host is asked for. -/
def columns : List (Column GetHostReq Partial) :=
  [.uint32 8 (fun x => [x.seq]) fun v m => { m with seq := some v },
    .int32 16 (fun x => [x.modid]) fun v m => { m with modid := some v },
    .int32 24 (fun x => [x.cmdid]) fun v m => { m with cmdid := some v }]

/-- All three fields are required. -/
def Partial.complete (m : Partial) : Option GetHostReq := do
  return ⟨← m.seq, ← m.modid, ← m.cmdid⟩

/-- The tags are those of the fields 1 to 3. -/
theorem columns_tagged : WellTagged (columns.map Column.field) := ⟨by decide, by decide⟩

/-- `GetHostReq` as it is written and read. -/
def format : Format GetHostReq Partial := ⟨columns, {}, Partial.complete, columns_tagged⟩

/-- Every request for a host is read back field by field. -/
theorem format_holds (hrt : rt.Documented) (x : GetHostReq) : format.Holds rt x where
  reads := by
    simp only [format, columns, List.forall_mem_cons]
    exact ⟨.uint32 hrt _ _ _ x, .int32 hrt _ _ _ x, .int32 hrt _ _ _ x, by simp⟩
  complete := rfl

end GetHostReq

/-- `GetRouteReq` while it is read. -/
structure GetRouteReq.Partial where
  modid : Option Int32 := none
  cmdid : Option Int32 := none

namespace GetRouteReq

/-- The module that a route is asked for. -/
def columns : List (Column GetRouteReq Partial) :=
  [.int32 8 (fun x => [x.modid]) fun v m => { m with modid := some v },
    .int32 16 (fun x => [x.cmdid]) fun v m => { m with cmdid := some v }]

/-- Both fields are required. -/
def Partial.complete (m : Partial) : Option GetRouteReq := do
  return ⟨← m.modid, ← m.cmdid⟩

/-- The tags are those of the fields 1 and 2. -/
theorem columns_tagged : WellTagged (columns.map Column.field) := ⟨by decide, by decide⟩

/-- `GetRouteReq` as it is written and read. -/
def format : Format GetRouteReq Partial := ⟨columns, {}, Partial.complete, columns_tagged⟩

/-- Every request for a route is read back field by field. -/
theorem format_holds (hrt : rt.Documented) (x : GetRouteReq) : format.Holds rt x where
  reads := by
    simp only [format, columns, List.forall_mem_cons]
    exact ⟨.int32 hrt _ _ _ x, .int32 hrt _ _ _ x, by simp⟩
  complete := rfl

end GetRouteReq

/-- `HostCallResult` while it is read. -/
structure HostCallResult.Partial where
  ip : Option Int32 := none
  port : Option Int32 := none
  succ : Option UInt32 := none
  err : Option UInt32 := none
  overload : Option Bool := none

namespace HostCallResult

/-- The host, its real successes and failures, and whether it is overloaded. -/
def columns : List (Column HostCallResult Partial) :=
  [.int32 8 (fun x => [x.ip]) fun v m => { m with ip := some v },
    .int32 16 (fun x => [x.port]) fun v m => { m with port := some v },
    .uint32 24 (fun x => [x.succ]) fun v m => { m with succ := some v },
    .uint32 32 (fun x => [x.err]) fun v m => { m with err := some v },
    .bool 40 (fun x => [x.overload]) fun v m => { m with overload := some v }]

/-- All five fields are required. -/
def Partial.complete (m : Partial) : Option HostCallResult := do
  return ⟨← m.ip, ← m.port, ← m.succ, ← m.err, ← m.overload⟩

/-- The tags are those of the fields 1 to 5. -/
theorem columns_tagged : WellTagged (columns.map Column.field) := ⟨by decide, by decide⟩

/-- `HostCallResult` as it is written and read. -/
def format : Format HostCallResult Partial := ⟨columns, {}, Partial.complete, columns_tagged⟩

/-- Every entry of a report is read back field by field. -/
theorem format_holds (hrt : rt.Documented) (x : HostCallResult) : format.Holds rt x where
  reads := by
    simp only [format, columns, List.forall_mem_cons]
    exact ⟨.int32 hrt _ _ _ x, .int32 hrt _ _ _ x, .uint32 hrt _ _ _ x, .uint32 hrt _ _ _ x,
      .bool hrt _ _ _ x, by simp⟩
  complete := rfl

/-- Its length is one that a parser takes. -/
theorem length_format_encode (x : HostCallResult) : (format.encode x).length < 2 ^ 31 := by
  have hip := intWidth_le x.ip
  have hport := intWidth_le x.port
  have hsucc := width_uint32_le x.succ
  have herr := width_uint32_le x.err
  have hoverload : width x.overload.toNat = 1 :=
    width_of_lt (Nat.lt_of_le_of_lt x.overload.toNat_le (by decide))
  have htags : width 8 = 1 ∧ width 16 = 1 ∧ width 24 = 1 ∧ width 32 = 1 ∧ width 40 = 1 :=
    ⟨width_of_lt (by decide), width_of_lt (by decide), width_of_lt (by decide),
      width_of_lt (by decide), width_of_lt (by decide)⟩
  simp only [Format.encode, format, columns, serialize_cons, serialize_nil, Column.int32,
    Column.uint32, Column.bool, Column.bytes_scalar, List.flatMap_singleton, List.length_append,
    length_varint, width_int32, List.length_nil]
  omega

end HostCallResult

/-- `HostBatchCallRes` while it is read. -/
structure HostBatchCallRes.Partial where
  ip : Option Int32 := none
  port : Option Int32 := none
  succCnt : Option UInt32 := none

namespace HostBatchCallRes

/-- The host and the successes that are pending for it. -/
def columns : List (Column HostBatchCallRes Partial) :=
  [.int32 8 (fun x => [x.ip]) fun v m => { m with ip := some v },
    .int32 16 (fun x => [x.port]) fun v m => { m with port := some v },
    .uint32 24 (fun x => [x.succCnt]) fun v m => { m with succCnt := some v }]

/-- All three fields are required. -/
def Partial.complete (m : Partial) : Option HostBatchCallRes := do
  return ⟨← m.ip, ← m.port, ← m.succCnt⟩

/-- The tags are those of the fields 1 to 3. -/
theorem columns_tagged : WellTagged (columns.map Column.field) := ⟨by decide, by decide⟩

/-- `HostBatchCallRes` as it is written and read. -/
def format : Format HostBatchCallRes Partial := ⟨columns, {}, Partial.complete, columns_tagged⟩

/-- Every entry of a batch is read back field by field. -/
theorem format_holds (hrt : rt.Documented) (x : HostBatchCallRes) : format.Holds rt x where
  reads := by
    simp only [format, columns, List.forall_mem_cons]
    exact ⟨.int32 hrt _ _ _ x, .int32 hrt _ _ _ x, .uint32 hrt _ _ _ x, by simp⟩
  complete := rfl

/-- The table of fields writes the bytes whose number is counted for `wbuf`. -/
theorem format_encode (x : HostBatchCallRes) : format.encode x = x.encode := by
  simp [Format.encode, format, columns, serialize_cons, serialize_nil, Column.int32, Column.uint32,
    Column.bytes_scalar, encode, numField]

/-- Its length is one that a parser takes. -/
theorem length_format_encode (x : HostBatchCallRes) : (format.encode x).length < 2 ^ 31 := by
  have hip := intWidth_le x.ip
  have hport := intWidth_le x.port
  have hcnt := width_uint32_le x.succCnt
  rw [format_encode, x.length_encode]
  omega

end HostBatchCallRes

/-- `CacheGetRouteReq` while it is read. -/
structure CacheGetRouteReq.Partial where
  modid : Option Int32 := none
  cmdid : Option Int32 := none
  version : Option ℤ := none

namespace CacheGetRouteReq

/-- The module, and the version that the client has. -/
def columns : List (Column CacheGetRouteReq Partial) :=
  [.int32 8 (fun x => [x.modid]) fun v m => { m with modid := some v },
    .int32 16 (fun x => [x.cmdid]) fun v m => { m with cmdid := some v },
    .int64 24 (fun x => [x.version]) fun v m => { m with version := some v }]

/-- All three fields are required. -/
def Partial.complete (m : Partial) : Option CacheGetRouteReq := do
  return ⟨← m.modid, ← m.cmdid, ← m.version⟩

/-- The tags are those of the fields 1 to 3. -/
theorem columns_tagged : WellTagged (columns.map Column.field) := ⟨by decide, by decide⟩

/-- `CacheGetRouteReq` as it is written and read. -/
def format : Format CacheGetRouteReq Partial := ⟨columns, {}, Partial.complete, columns_tagged⟩

/-- The version is a number of its type. -/
theorem format_holds (hrt : rt.Documented) {x : CacheGetRouteReq} (hlow : -2 ^ 63 ≤ x.version)
    (hhigh : x.version < 2 ^ 63) : format.Holds rt x where
  reads := by
    simp only [format, columns, List.forall_mem_cons]
    have hversion : ∀ v ∈ [x.version], -2 ^ 63 ≤ v ∧ v < 2 ^ 63 :=
      List.forall_mem_singleton.mpr ⟨hlow, hhigh⟩
    exact ⟨.int32 hrt _ _ _ x, .int32 hrt _ _ _ x, .int64 hrt _ _ hversion, by simp⟩
  complete := rfl

end CacheGetRouteReq

/-! ## Messages with hosts and results -/

/-- `GetHostRsp` while it is read; the host is a message of its own. -/
structure GetHostRsp.Partial where
  seq : Option UInt32 := none
  modid : Option Int32 := none
  cmdid : Option Int32 := none
  retcode : Option Int32 := none
  host : Option HostAddr.Partial := none

namespace GetHostRsp

/-- What the request had, the return code, and the host, if there is one. -/
def columns : List (Column GetHostRsp Partial) :=
  [.uint32 8 (fun x => [x.seq]) fun v m => { m with seq := some v },
    .int32 16 (fun x => [x.modid]) fun v m => { m with modid := some v },
    .int32 24 (fun x => [x.cmdid]) fun v m => { m with cmdid := some v },
    .int32 32 (fun x => [x.retcode]) fun v m => { m with retcode := some v },
    .message HostAddr.columns false 42 (fun x => x.host.toList) (fun m => m.host.getD {})
      fun v m => { m with host := some v }]

/-- The host is optional. -/
def Partial.complete (m : Partial) : Option GetHostRsp := do
  return ⟨← m.seq, ← m.modid, ← m.cmdid, ← m.retcode,
    ← m.host.elim (some none) fun host => host.complete.map some⟩

/-- The tags are those of the fields 1 to 5, the last one with a length. -/
theorem columns_tagged : WellTagged (columns.map Column.field) := ⟨by decide, by decide⟩

/-- `GetHostRsp` as it is written and read. -/
def format : Format GetHostRsp Partial := ⟨columns, {}, Partial.complete, columns_tagged⟩

/-- Every answer is read back field by field, with a host or without. -/
theorem format_holds (hrt : rt.Documented) (x : GetHostRsp) : format.Holds rt x where
  reads := by
    simp only [format, columns, List.forall_mem_cons]
    exact ⟨.uint32 hrt _ _ _ x, .int32 hrt _ _ _ x, .int32 hrt _ _ _ x, .int32 hrt _ _ _ x,
      .message hrt HostAddr.columns_tagged _ _ _ _ fun host _ =>
        ⟨(HostAddr.format_holds hrt host).reads,
          Nat.lt_of_le_of_lt host.length_format_encode (by decide)⟩, by simp⟩
  complete := by
    -- the optional host is left as it was set
    obtain ⟨seq, modid, cmdid, retcode, host⟩ := x
    cases host <;> rfl

/-- The agent's answer has room in any buffer. -/
theorem length_format_encode (x : GetHostRsp) : (format.encode x).length ≤ 63 := by
  have hseq := width_uint32_le x.seq
  have hmodid := intWidth_le x.modid
  have hcmdid := intWidth_le x.cmdid
  have hretcode := intWidth_le x.retcode
  have htags : width 8 = 1 ∧ width 16 = 1 ∧ width 24 = 1 ∧ width 32 = 1 ∧ width 42 = 1 :=
    ⟨width_of_lt (by decide), width_of_lt (by decide), width_of_lt (by decide),
      width_of_lt (by decide), width_of_lt (by decide)⟩
  -- the host, if there is one, with its tag and its length
  have hhost : (x.host.toList.flatMap fun host => varint 42 ++
      (varint (serialize HostAddr.columns host).length ++
        serialize HostAddr.columns host)).length ≤ 24 := by
    cases x.host with
    | none => exact Nat.zero_le _
    | some host =>
      have hlen : (serialize HostAddr.columns host).length ≤ 22 := host.length_format_encode
      have hwidth : width (serialize HostAddr.columns host).length = 1 := width_of_lt (by omega)
      rw [Option.toList_some, List.flatMap_singleton, List.length_append, List.length_append,
        length_varint, length_varint, hwidth]
      omega
  simp only [Format.encode, format, columns, serialize_cons, serialize_nil, Column.int32,
    Column.uint32, Column.bytes_scalar, Column.bytes_message, List.flatMap_singleton,
    List.length_append, length_varint, width_int32, List.length_nil] at hhost ⊢
  omega

end GetHostRsp

/-- `ReportReq` while it is read. -/
structure ReportReq.Partial where
  modid : Option Int32 := none
  cmdid : Option Int32 := none
  host : Option HostAddr.Partial := none
  retcode : Option Int32 := none
  tcost : Option UInt32 := none

namespace ReportReq

/-- The module, the host, the result of the call, and its time, which may be missing. -/
def columns : List (Column ReportReq Partial) :=
  [.int32 8 (fun x => [x.modid]) fun v m => { m with modid := some v },
    .int32 16 (fun x => [x.cmdid]) fun v m => { m with cmdid := some v },
    .message HostAddr.columns false 26 (fun x => [x.host]) (fun m => m.host.getD {})
      fun v m => { m with host := some v },
    .int32 32 (fun x => [x.retcode]) fun v m => { m with retcode := some v },
    .uint32 40 (fun x => x.tcost.toList) fun v m => { m with tcost := some v }]

/-- All is required but `tcost`. -/
def Partial.complete (m : Partial) : Option ReportReq := do
  return ⟨← m.modid, ← m.cmdid, ← (← m.host).complete, ← m.retcode, m.tcost⟩

/-- The tags are those of the fields 1 to 5, the third one with a length. -/
theorem columns_tagged : WellTagged (columns.map Column.field) := ⟨by decide, by decide⟩

/-- `ReportReq` as it is written and read. -/
def format : Format ReportReq Partial := ⟨columns, {}, Partial.complete, columns_tagged⟩

/-- Every report of a call is read back field by field. -/
theorem format_holds (hrt : rt.Documented) (x : ReportReq) : format.Holds rt x where
  reads := by
    simp only [format, columns, List.forall_mem_cons]
    exact ⟨.int32 hrt _ _ _ x, .int32 hrt _ _ _ x,
      .message hrt HostAddr.columns_tagged _ _ _ _ fun host _ =>
        ⟨(HostAddr.format_holds hrt host).reads,
          Nat.lt_of_le_of_lt host.length_format_encode (by decide)⟩,
      .int32 hrt _ _ _ x, .uint32 hrt _ _ _ x, by simp⟩
  complete := by
    obtain ⟨modid, cmdid, host, retcode, tcost⟩ := x
    cases tcost <;> rfl

end ReportReq

/-- `GetRouteRsp` while it is read, with the hosts that have come so far. -/
structure GetRouteRsp.Partial where
  modid : Option Int32 := none
  cmdid : Option Int32 := none
  hosts : List HostAddr.Partial := []

namespace GetRouteRsp

/-- The hosts, to which each further one is added. -/
def hostsLens : Lens Partial (List HostAddr.Partial) :=
  ⟨Partial.hosts, fun l m => { m with hosts := l }, fun _ _ => rfl, fun _ _ _ => rfl, fun _ => rfl⟩

/-- The module and the hosts of its route. -/
def columns : List (Column GetRouteRsp Partial) :=
  [.int32 8 (fun x => [x.modid]) fun v m => { m with modid := some v },
    .int32 16 (fun x => [x.cmdid]) fun v m => { m with cmdid := some v },
    .repeated HostAddr.columns 26 GetRouteRsp.hosts {} hostsLens]

/-- The ids are there, and every host is complete. -/
def Partial.complete (m : Partial) : Option GetRouteRsp := do
  return ⟨← m.modid, ← m.cmdid, ← m.hosts.mapM HostAddr.Partial.complete⟩

/-- The tags are those of the fields 1 to 3, the last one with a length. -/
theorem columns_tagged : WellTagged (columns.map Column.field) := ⟨by decide, by decide⟩

/-- `GetRouteRsp` as it is written and read. -/
def format : Format GetRouteRsp Partial := ⟨columns, {}, Partial.complete, columns_tagged⟩

/-- Every route is read back, its hosts in their order. -/
theorem format_holds (hrt : rt.Documented) (x : GetRouteRsp) : format.Holds rt x where
  reads := by
    simp only [format, columns, List.forall_mem_cons]
    exact ⟨.int32 hrt _ _ _ x, .int32 hrt _ _ _ x,
      .message hrt HostAddr.columns_tagged _ _ _ _ fun host _ =>
        ⟨(HostAddr.format_holds hrt host).reads,
          Nat.lt_of_le_of_lt host.length_format_encode (by decide)⟩, by simp⟩
  complete := by
    have hhosts := HostAddr.format.mapM_complete fun host (_ : host ∈ x.hosts) => rfl
    simp only [format, columns, apply_items_cons]
    rw [Column.apply_repeated]
    exact congrArg (Option.bind · fun hosts => some (mk x.modid x.cmdid hosts)) hhosts

end GetRouteRsp

/-- `ReportStatusReq` while it is read, with the results that have come so far. -/
structure ReportStatusReq.Partial where
  modid : Option Int32 := none
  cmdid : Option Int32 := none
  caller : Option Int32 := none
  results : List HostCallResult.Partial := []
  ts : Option UInt32 := none

namespace ReportStatusReq

/-- The results, to which each further one is added. -/
def resultsLens : Lens Partial (List HostCallResult.Partial) :=
  ⟨Partial.results, fun l m => { m with results := l }, fun _ _ => rfl, fun _ _ _ => rfl,
    fun _ => rfl⟩

/-- The module, the agent that reports, the results of the hosts, and the time. -/
def columns : List (Column ReportStatusReq Partial) :=
  [.int32 8 (fun x => [x.modid]) fun v m => { m with modid := some v },
    .int32 16 (fun x => [x.cmdid]) fun v m => { m with cmdid := some v },
    .int32 24 (fun x => [x.caller]) fun v m => { m with caller := some v },
    .repeated HostCallResult.columns 34 ReportStatusReq.results {} resultsLens,
    .uint32 40 (fun x => [x.ts]) fun v m => { m with ts := some v }]

/-- The numbers are there, and every result is complete. -/
def Partial.complete (m : Partial) : Option ReportStatusReq := do
  return ⟨← m.modid, ← m.cmdid, ← m.caller, ← m.results.mapM HostCallResult.Partial.complete,
    ← m.ts⟩

/-- The tags are those of the fields 1 to 5, the fourth one with a length. -/
theorem columns_tagged : WellTagged (columns.map Column.field) := ⟨by decide, by decide⟩

/-- `ReportStatusReq` as it is written and read. -/
def format : Format ReportStatusReq Partial := ⟨columns, {}, Partial.complete, columns_tagged⟩

/-- Every report to the reporter is read back, its results in their order. -/
theorem format_holds (hrt : rt.Documented) (x : ReportStatusReq) : format.Holds rt x where
  reads := by
    simp only [format, columns, List.forall_mem_cons]
    exact ⟨.int32 hrt _ _ _ x, .int32 hrt _ _ _ x, .int32 hrt _ _ _ x,
      .message hrt HostCallResult.columns_tagged _ _ _ _ fun res _ =>
        ⟨(HostCallResult.format_holds hrt res).reads, res.length_format_encode⟩,
      .uint32 hrt _ _ _ x, by simp⟩
  complete := by
    -- the results are collected one after another
    have hresults := HostCallResult.format.mapM_complete fun res (_ : res ∈ x.results) => rfl
    simp only [format, columns, apply_items_cons]
    rw [Column.apply_repeated]
    exact congrArg (Option.bind · fun results =>
      some (mk x.modid x.cmdid x.caller results x.ts)) hresults

end ReportStatusReq

/-- `CacheBatchRptReq` while it is read, with the results that have come so far. -/
structure CacheBatchRptReq.Partial where
  modid : Option Int32 := none
  cmdid : Option Int32 := none
  results : List HostBatchCallRes.Partial := []

namespace CacheBatchRptReq

/-- The results, to which each further one is added. -/
def resultsLens : Lens Partial (List HostBatchCallRes.Partial) :=
  ⟨Partial.results, fun l m => { m with results := l }, fun _ _ => rfl, fun _ _ _ => rfl,
    fun _ => rfl⟩

/-- The module and the entries of the batch. -/
def columns : List (Column CacheBatchRptReq Partial) :=
  [.int32 8 (fun x => [x.modid]) fun v m => { m with modid := some v },
    .int32 16 (fun x => [x.cmdid]) fun v m => { m with cmdid := some v },
    .repeated HostBatchCallRes.columns 26 CacheBatchRptReq.results {} resultsLens]

/-- The ids are there, and every entry is complete. -/
def Partial.complete (m : Partial) : Option CacheBatchRptReq := do
  return ⟨← m.modid, ← m.cmdid, ← m.results.mapM HostBatchCallRes.Partial.complete⟩

/-- The tags are those of the fields 1 to 3, the last one with a length. -/
theorem columns_tagged : WellTagged (columns.map Column.field) := ⟨by decide, by decide⟩

/-- `CacheBatchRptReq` as it is written and read. -/
def format : Format CacheBatchRptReq Partial := ⟨columns, {}, Partial.complete, columns_tagged⟩

/-- Every batch is read back, its entries in their order. -/
theorem format_holds (hrt : rt.Documented) (x : CacheBatchRptReq) : format.Holds rt x where
  reads := by
    simp only [format, columns, List.forall_mem_cons]
    exact ⟨.int32 hrt _ _ _ x, .int32 hrt _ _ _ x,
      .message hrt HostBatchCallRes.columns_tagged _ _ _ _ fun res _ =>
        ⟨(HostBatchCallRes.format_holds hrt res).reads, res.length_format_encode⟩, by simp⟩
  complete := by
    have hresults := HostBatchCallRes.format.mapM_complete fun res (_ : res ∈ x.results) => rfl
    simp only [format, columns, apply_items_cons]
    rw [Column.apply_repeated]
    exact congrArg (Option.bind · fun results => some (mk x.modid x.cmdid results)) hresults

/-- The table of fields writes the bytes whose number is counted for `wbuf`. -/
theorem format_encode (x : CacheBatchRptReq) : format.encode x = x.encode := by
  have hres : ∀ res : HostBatchCallRes, serialize HostBatchCallRes.columns res = res.encode :=
    HostBatchCallRes.format_encode
  simp [Format.encode, format, columns, serialize_cons, serialize_nil, Column.int32,
    Column.repeated, Column.bytes_scalar, Column.bytes_message, hres, encode, numField, msgField]

end CacheBatchRptReq

/-- `CacheGetRouteRsp` while it is read, with the hosts that have come so far. -/
structure CacheGetRouteRsp.Partial where
  modid : Option Int32 := none
  cmdid : Option Int32 := none
  version : Option ℤ := none
  overload : Option Bool := none
  route : List HostAddr.Partial := []

namespace CacheGetRouteRsp

/-- The hosts, to which each further one is added. -/
def routeLens : Lens Partial (List HostAddr.Partial) :=
  ⟨Partial.route, fun l m => { m with route := l }, fun _ _ => rfl, fun _ _ _ => rfl, fun _ => rfl⟩

/-- Of the reply and whether its `overload` is set. -/
def columns : List (Column (CacheGetRouteRsp × Bool) Partial) :=
  [.int32 8 (fun x => [x.1.modid]) fun v m => { m with modid := some v },
    .int32 16 (fun x => [x.1.cmdid]) fun v m => { m with cmdid := some v },
    .int64 24 (fun x => [x.1.version]) fun v m => { m with version := some v },
    .bool 32 (fun x => if x.2 then [x.1.overload] else []) fun v m => { m with overload := some v },
    .repeated HostAddr.columns 42 (fun x => x.1.route) {} routeLens]

/-- All is required but `overload`, which is false if it is not set. -/
def Partial.complete (m : Partial) : Option (CacheGetRouteRsp × Bool) := do
  return (⟨← m.modid, ← m.cmdid, ← m.version, m.overload.getD false,
    ← m.route.mapM HostAddr.Partial.complete⟩, m.overload.isSome)

/-- The tags are those of the fields 1 to 5, the last one with a length. -/
theorem columns_tagged : WellTagged (columns.map Column.field) := ⟨by decide, by decide⟩

/-- `CacheGetRouteRsp` as it is written and read. -/
def format : Format (CacheGetRouteRsp × Bool) Partial :=
  ⟨columns, {}, Partial.complete, columns_tagged⟩

/-- The version is a number of its type, and `overload` is set if it is true. -/
theorem format_holds (hrt : rt.Documented) {x : CacheGetRouteRsp} {hasOverload : Bool}
    (hlow : -2 ^ 63 ≤ x.version) (hhigh : x.version < 2 ^ 63)
    (hset : hasOverload = false → x.overload = false) : format.Holds rt (x, hasOverload) where
  reads := by
    simp only [format, columns, List.forall_mem_cons]
    have hversion : ∀ v ∈ [x.version], -2 ^ 63 ≤ v ∧ v < 2 ^ 63 :=
      List.forall_mem_singleton.mpr ⟨hlow, hhigh⟩
    exact ⟨.int32 hrt _ _ _ _, .int32 hrt _ _ _ _, .int64 hrt _ _ hversion, .bool hrt _ _ _ _,
      .message hrt HostAddr.columns_tagged _ _ _ _ fun host _ =>
        ⟨(HostAddr.format_holds hrt host).reads,
          Nat.lt_of_le_of_lt host.length_format_encode (by decide)⟩, by simp⟩
  complete := by
    have hroute := HostAddr.format.mapM_complete fun host (_ : host ∈ x.route) => rfl
    simp only [format, columns, apply_items_cons]
    rw [Column.apply_repeated]
    obtain ⟨modid, cmdid, version, overload, route⟩ := x
    -- an `overload` that is not set reads as false, which it was
    cases hasOverload with
    | true => exact congrArg (Option.bind · fun route =>
        some (mk modid cmdid version overload route, true)) hroute
    | false =>
      obtain rfl := hset rfl
      exact congrArg (Option.bind · fun route =>
        some (mk modid cmdid version false route, false)) hroute

/-- With `overload` set, the table of fields writes the bytes that are counted for `rbuf`. -/
theorem format_encode (x : CacheGetRouteRsp) : format.encode (x, true) = x.encode := by
  have hhost : ∀ host : HostAddr, serialize HostAddr.columns host = host.encode :=
    HostAddr.format_encode
  simp [Format.encode, format, columns, serialize_cons, serialize_nil, Column.int32, Column.int64,
    Column.bool, Column.repeated, Column.bytes_scalar, Column.bytes_message, hhost, encode,
    numField, msgField]

end CacheGetRouteRsp

/-! ## Message ids -/

/-- `MsgTypeId` of `elb.proto`. -/
inductive MsgTypeId
  | getHostReqId
  | getHostRspId
  | reportReqId
  | getRouteByToolReqId
  | getRouteByToolRspId
  | getRouteByAgentReqId
  | getRouteByAgentRspId
  | reportStatusReqId
  | cacheGetRouteReqId
  | cacheGetRouteRspId
  | cacheBatchRptReqId
deriving DecidableEq, Repr

namespace MsgTypeId

/-- The number of an id, as it stands in the header of a packet. -/
def num : MsgTypeId → Int32
  | getHostReqId => 1
  | getHostRspId => 2
  | reportReqId => 3
  | getRouteByToolReqId => 4
  | getRouteByToolRspId => 5
  | getRouteByAgentReqId => 6
  | getRouteByAgentRspId => 7
  | reportStatusReqId => 8
  | cacheGetRouteReqId => 9
  | cacheGetRouteRspId => 10
  | cacheBatchRptReqId => 11

/-- The message that is sent under an id. Of a `CacheGetRouteRsp` also whether `overload` is set. -/
def Message : MsgTypeId → Type
  | getHostReqId => GetHostReq
  | getHostRspId => GetHostRsp
  | reportReqId => ReportReq
  | getRouteByToolReqId | getRouteByAgentReqId => GetRouteReq
  | getRouteByToolRspId | getRouteByAgentRspId => GetRouteRsp
  | reportStatusReqId => ReportStatusReq
  | cacheGetRouteReqId => CacheGetRouteReq
  | cacheGetRouteRspId => CacheGetRouteRsp × Bool
  | cacheBatchRptReqId => CacheBatchRptReq

/-- The message of an id while it is read. -/
def Partial : MsgTypeId → Type
  | getHostReqId => GetHostReq.Partial
  | getHostRspId => GetHostRsp.Partial
  | reportReqId => ReportReq.Partial
  | getRouteByToolReqId | getRouteByAgentReqId => GetRouteReq.Partial
  | getRouteByToolRspId | getRouteByAgentRspId => GetRouteRsp.Partial
  | reportStatusReqId => ReportStatusReq.Partial
  | cacheGetRouteReqId => CacheGetRouteReq.Partial
  | cacheGetRouteRspId => CacheGetRouteRsp.Partial
  | cacheBatchRptReqId => CacheBatchRptReq.Partial

/-- The format of the message that goes by an id. Two requests and two responses go by two ids each.
-/
def format : (id : MsgTypeId) → Format id.Message id.Partial
  | getHostReqId => GetHostReq.format
  | getHostRspId => GetHostRsp.format
  | reportReqId => ReportReq.format
  | getRouteByToolReqId | getRouteByAgentReqId => GetRouteReq.format
  | getRouteByToolRspId | getRouteByAgentRspId => GetRouteRsp.format
  | reportStatusReqId => ReportStatusReq.format
  | cacheGetRouteReqId => CacheGetRouteReq.format
  | cacheGetRouteRspId => CacheGetRouteRsp.format
  | cacheBatchRptReqId => CacheBatchRptReq.format

/-- A version is a number of the type `int64`, and an `overload` that is not set is false. -/
def InRange : (id : MsgTypeId) → id.Message → Prop
  | cacheGetRouteReqId, (m : CacheGetRouteReq) => -2 ^ 63 ≤ m.version ∧ m.version < 2 ^ 63
  | cacheGetRouteRspId, ((m, hasOverload) : CacheGetRouteRsp × Bool) =>
    (-2 ^ 63 ≤ m.version ∧ m.version < 2 ^ 63) ∧ (hasOverload = false → m.overload = false)
  | _, _ => True

/-- No two ids have one number. -/
theorem num_inj {id id' : MsgTypeId} (h : id.num = id'.num) : id = id' := by
  cases id <;> cases id' <;> first | rfl | exact absurd h (by decide)

/-- Whatever the id, its message is read back. -/
theorem format_holds (hrt : rt.Documented) (id : MsgTypeId) {m : id.Message} (hm : id.InRange m) :
    id.format.Holds rt m :=
  match id, m, hm with
  | getHostReqId, m, _ => GetHostReq.format_holds hrt m
  | getHostRspId, m, _ => GetHostRsp.format_holds hrt m
  | reportReqId, m, _ => ReportReq.format_holds hrt m
  | getRouteByToolReqId, m, _ => GetRouteReq.format_holds hrt m
  | getRouteByToolRspId, m, _ => GetRouteRsp.format_holds hrt m
  | getRouteByAgentReqId, m, _ => GetRouteReq.format_holds hrt m
  | getRouteByAgentRspId, m, _ => GetRouteRsp.format_holds hrt m
  | reportStatusReqId, m, _ => ReportStatusReq.format_holds hrt m
  | cacheGetRouteReqId, _, hm => CacheGetRouteReq.format_holds hrt hm.1 hm.2
  | cacheGetRouteRspId, (_, _), hm => CacheGetRouteRsp.format_holds hrt hm.1.1 hm.1.2 hm.2
  | cacheBatchRptReqId, m, _ => CacheBatchRptReq.format_holds hrt m

/-- What is written for a message is parsed as this message by what handles its id, for every
runtime that does as documented, also with fields of other tags anywhere between its own. -/
theorem message_parsed (hrt : rt.Documented) (id : MsgTypeId) {m : id.Message}
    (hm : id.InRange m) {bytes : List UInt8}
    (hbytes : Interleaved id.format.tags (id.format.written m) bytes) :
    id.format.parse rt bytes = some m :=
  (format_holds hrt id hm).parse_interleaved hrt hbytes

/-- A field of the number 6 in the middle. -/
theorem message_parsed_getRouteReq : getRouteByAgentReqId.format.parse Runtime.reference
    (numField 1 (int32 1) ++ (numField 6 300 ++ (numField 2 (int32 2) ++ []))) =
      some (GetRouteReq.mk 1 2) :=
  message_parsed Runtime.reference_documented getRouteByAgentReqId (m := GetRouteReq.mk 1 2)
    trivial (.field (.unknown (by decide) (by decide) (by decide) (.varint rfl (by decide))
      (.field .nil)))

end MsgTypeId

end Elb
