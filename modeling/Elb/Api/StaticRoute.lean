import Elb.Api.PythonClient
import Elb.Common.Scanf
import Elb.Lbagent.DssClient

/-!
# Routes on disk

Reference: `LB::persist` and `RouteLB::persistRoute` in `lbagent/src/RouteLb.cc`, which
`initUDPServerIns` in `lbagent/src/AgentServer.cc` runs every minute;
`api/cpp/elbApi/StaticRoute.h`.

While the agent is off, the C++ client picks hosts from what the three shards have last written to
disk. A module may be in the tables of several shards, but only one of them has its route.
-/

namespace Elb

open Scanf Transition

variable {R : Type} [RateArith R] {cfg : LbConfigure R} {now : ℤ}

/-! ## Writing -/

/-- The text of the file `/tmp/backupRoute.dat.n`. -/
abbrev Disk : Type := ℕ → Option (List Char)

/-- The line for a host. `%d` prints the unsigned `ip` as the `int` with the same bits. -/
def LB.row (lb : LB) (hi : HI) : List ℤ :=
  [lb.modid.toInt, lb.cmdid.toInt, hi.ip.toInt32.toInt, hi.port.toInt]

/-- `LB::persist`. -/
def LB.persist (lb : LB) : List Char :=
  lb.hostMap.entries.flatMap fun e => printRow (lb.row e.2)

/-- What the loop of `RouteLB::persistRoute` prints. -/
def RouteLB.persist (s : RouteLB) : List Char :=
  s.routeMap.entries.flatMap fun e => e.2.persist

/-- `RouteLB::persistRoute`; `opened` says whether `fopen` succeeds. The file goes by the id, and
other ids have none. -/
def RouteLB.persistRoute (opened : Bool) (s : RouteLB) (disk : Disk) : Disk :=
  if opened ∧ s.id ∈ [1, 2, 3] then Function.update disk s.id (some s.persist) else disk

/-- Every thread writes its shard, in any order. -/
def persistAll (shards : Fin 3 → RouteLB) (order : List (Fin 3)) (disk : Disk) : Disk :=
  order.foldl (fun disk i => (shards i).persistRoute true disk) disk

/-! ## Reading -/

/-- `hostType`: the bytes of the address, as for `sAddr`, and the port. -/
abbrev HostType : Type := List UInt8 × Int32

/-- `class StaticRoute`. -/
structure StaticRoute where
  route : HashMap UInt64 (List HostType)

namespace StaticRoute

/-- The constructor. -/
def new : StaticRoute := ⟨∅⟩

/-- The body of the loops. -/
def addRow (route : HashMap UInt64 (List HostType)) : List ℤ → HashMap UInt64 (List HostType)
  | [imodid, icmdid, iip, iport] =>
    route.pushBack (packKey (Int32.ofInt imodid) (Int32.ofInt icmdid))
      (PythonClient.sAddr (Int32.ofInt iip), Int32.ofInt iport)
  | _ => route

/-- One of the three blocks that read a file, which may be missing. -/
def loadFile (disk : Disk) (route : HashMap UInt64 (List HostType)) (n : ℕ) :
    Option (HashMap UInt64 (List HostType)) :=
  match disk n with
  | none => some route
  | some text => (readFile 4 text).map fun rows => rows.foldl addRow route

/-- `StaticRoute::getHost`, with the number that `rand` gives; no host is the return code -1. There
is no result if a file is not made of rows. -/
def getHost (disk : Disk) (rand : ℕ) (modid cmdid : Int32) (s : StaticRoute) :
    Option (StaticRoute × Option HostType) := do
  let route ← if s.route.entries.isEmpty then [1, 2, 3].foldlM (loadFile disk) s.route
    else some s.route
  match route.lookup (packKey modid cmdid) with
  | none => return (⟨route⟩, none)
  | some hosts => do
    let host ← hosts[rand % hosts.length]?
    return (⟨route⟩, some host)

/-- What `elbClient` makes of a host that the agent answers with. -/
def live (host : HostAddr) : HostType := (PythonClient.sAddr host.ip, host.port)

end StaticRoute

/-! ## What the shards hold -/

/-- A table of the shard: each module is filed under its ids, and a route is where `recvRoute` hands
it to. -/
structure Stored (cfg : LbConfigure R) (i : Fin 3) (table : RouteLB) : Prop where
  id_eq : table.id = i + 1
  inv : table.Inv cfg
  home : ∀ modid cmdid lb, table.routeMap.lookup (packKey modid cmdid) = some lb →
    lb.empty = false → (Shard.recvRouteIndex modid cmdid).toInt = i

/-- A call keeps the routes where they belong, if the route it takes in is one of the shard. -/
theorem Stored.effect {i : Fin 3} {table table' : RouteLB} {op : RouteLB.Op}
    (h : Stored cfg i table) (he : RouteLB.Effect cfg now table op table')
    (hop : ∀ rsp, op = .update rsp → (Shard.recvRouteIndex rsp.modid rsp.cmdid).toInt = i) :
    Stored cfg i table' := by
  refine ⟨?_, h.inv.effect he, fun modid cmdid lb hk hne => ?_⟩
  · cases he <;> exact h.id_eq
  · cases he with
    | same => exact h.home modid cmdid lb hk hne
    | @serve _ key lb₀ lb' hk₀ hserve =>
      rw [RouteLB.put_lookup] at hk
      split at hk
      · next heq =>
        obtain rfl := Option.some.inj hk
        have hroute := hserve.sameRoute (h.inv.lb_reachable key lb₀ hk₀)
        exact h.home modid cmdid lb₀ (heq ▸ hk₀) (hroute.empty_eq ▸ hne)
      · exact h.home modid cmdid lb hk hne
    | create hk₀ =>
      rw [RouteLB.create_lookup] at hk
      split at hk
      · -- a new module has no route
        obtain rfl := Option.some.inj hk
        cases hne
      · exact h.home modid cmdid lb hk hne
    | @update rsp lb₀ lb' hk₀ hhosts hup =>
      rw [RouteLB.put_lookup] at hk
      split at hk
      · next heq =>
        obtain ⟨rfl, rfl⟩ := packKey_inj heq
        exact hop rsp rfl
      · exact h.home modid cmdid lb hk hne
    | delete hnil => exact h.home modid cmdid lb (HashMap.lookup_of_erase hk).2 hne
    | clearPulling =>
      rw [RouteLB.clearPulling, HashMap.lookup_mapVal, Option.map_eq_some_iff] at hk
      obtain ⟨lb₀, hk₀, rfl⟩ := hk
      refine h.home modid cmdid lb₀ hk₀ ?_
      rw [← hne, LB.clearPulling]
      split <;> rfl

namespace DssAgent

/-- In every run, the tables of the shards hold their own routes. -/
theorem stored_of_reachable {s : DssAgent} (h : (system cfg).Reachable s) :
    ∀ i table, s.Table i table → Stored cfg i table := by
  refine h.invariant (P := fun s => ∀ i table, s.Table i table → Stored cfg i table) ?_ ?_
  · rintro _ rfl i table (rfl | ht)
    · exact ⟨rfl, RouteLB.inv_new _, by rintro _ _ _ ⟨⟩⟩
    · cases ht
  · intro s e s' _ hinv hstep i table ht
    rcases (effect_of_exec hstep).tableAfter ht with ht | ⟨now, op, out, hex, hop⟩
    · exact hinv i table ht
    · have hstored := hinv i (s.routeLB i).table (.inl rfl)
      exact hstored.effect (hstored.inv.result hex).effect hop

end DssAgent

namespace StaticRoute

variable {shards : Fin 3 → RouteLB}

/-! ## What is on disk -/

/-- The hosts of all modules of a table, in the order in which they are written. -/
def records (s : RouteLB) : List (LB × HI) :=
  s.routeMap.entries.flatMap fun e => e.2.getRoute.map fun hi => (e.2, hi)

/-- What is printed of the hosts. -/
def printRecords (rs : List (LB × HI)) : List Char :=
  (rs.map fun p => p.1.row p.2).flatMap printRow

/-- A table prints its records. -/
theorem persist_eq (s : RouteLB) :
    s.persist = ((records s).map fun p => p.1.row p.2).flatMap printRow := by
  rw [RouteLB.persist, records, List.flatMap_map, List.flatMap_assoc]
  refine congrArg₂ _ (funext fun e => ?_) rfl
  rw [LB.persist, LB.getRoute, List.map_map, List.flatMap_map]
  rfl

/-- Printed records read back as their rows. -/
theorem readFile_printRecords (rs : List (LB × HI)) :
    readFile 4 (printRecords rs) = some (rs.map fun p => p.1.row p.2) := by
  refine readFile_printRow (n := 3) fun row hrow => ?_
  obtain ⟨p, -, rfl⟩ := List.mem_map.mp hrow
  rfl

/-- The file of a table reads back as its rows. -/
theorem readFile_persist (s : RouteLB) :
    readFile 4 s.persist = some ((records s).map fun p => p.1.row p.2) := by
  rw [persist_eq]
  exact readFile_printRecords (records s)

/-- A row says under which key its host goes, and which address it has. -/
theorem addRow_row (route : HashMap UInt64 (List HostType)) (lb : LB) (hi : HI) :
    addRow route (lb.row hi) = route.pushBack (packKey lb.modid lb.cmdid) (live hi.addr) := by
  rw [LB.row, addRow, Int32.ofInt_toInt, Int32.ofInt_toInt, Int32.ofInt_toInt, Int32.ofInt_toInt]
  rfl

/-- Whoever writes last, the file of a shard is there and has its table. -/
theorem persistAll_apply (hid : ∀ i, (shards i).id = i + 1) {order : List (Fin 3)} {i : Fin 3}
    (hi : i ∈ order) (disk : Disk) :
    persistAll shards order disk (i + 1) = some (shards i).persist := by
  induction order using List.reverseRecOn with
  | nil => cases hi
  | append_singleton order j ih =>
    have hfile : ∀ j : Fin 3, (j : ℕ) + 1 ∈ [1, 2, 3] := by decide
    have hopen : true = true ∧ (shards j).id ∈ [1, 2, 3] := ⟨rfl, hid j ▸ hfile j⟩
    rw [persistAll, List.foldl_append, List.foldl_cons, List.foldl_nil, RouteLB.persistRoute,
      if_pos hopen, hid j]
    -- shard `j` writes last
    by_cases hij : i = j
    · subst hij
      exact Function.update_self _ _ _
    · have hne : (i : ℕ) + 1 ≠ j + 1 := fun heq => hij (Fin.ext (Nat.succ.inj heq))
      rw [Function.update_of_ne hne]
      exact ih ((List.mem_append.mp hi).resolve_right fun hj => hij (List.mem_singleton.mp hj))

/-- The file of a shard adds its hosts to the route. -/
theorem loadFile_persistAll (hid : ∀ i, (shards i).id = i + 1) {order : List (Fin 3)}
    {i : Fin 3} (hi : i ∈ order) {n : ℕ} (hn : n = i + 1) (disk : Disk)
    (route : HashMap UInt64 (List HostType)) :
    loadFile (persistAll shards order disk) route n =
      some ((records (shards i)).foldl
        (fun route p => route.pushBack (packKey p.1.modid p.1.cmdid) (live p.2.addr)) route) := by
  rw [loadFile, hn, persistAll_apply hid hi]
  dsimp only
  rw [readFile_persist, Option.map_some, List.foldl_map]
  simp only [addRow_row]

/-! ## What is loaded -/

/-- The hosts that a table has for a key. -/
def hosts (s : RouteLB) (key : UInt64) : List HostType :=
  ((s.routeMap.lookup key).map fun lb => lb.getRoute.map fun hi => live hi.addr).getD []

omit [RateArith R] in
/-- A condition that does not depend on the element can be looked at first. -/
theorem flatMap_ite {α β : Type} (p : Prop) [Decidable p] (f : α → β) (l : List α) :
    (l.flatMap fun x => if p then [f x] else []) = if p then l.map f else [] := by
  split
  · exact (List.map_eq_flatMap).symm
  · exact List.flatMap_eq_nil_iff.mpr fun _ _ => rfl

/-- The records under a key are the hosts of the module that is filed there. -/
theorem records_flatMap {s : RouteLB} (h : s.Inv cfg) (key : UInt64) :
    ((records s).flatMap fun p =>
      if packKey p.1.modid p.1.cmdid = key then [live p.2.addr] else []) = hosts s key := by
  rw [records, List.flatMap_assoc, hosts, ← HashMap.flatMap_entries_ite]
  refine List.flatMap_congr fun e he => ?_
  have hkey : packKey e.2.modid e.2.cmdid = e.1 :=
    h.key_eq e.1 e.2 (HashMap.mem_entries_iff.mp he)
  rw [List.flatMap_map]
  simp only [hkey, flatMap_ite]

/-- The map after the three files. -/
theorem exists_load (hid : ∀ i, (shards i).id = i + 1) (hinv : ∀ i, (shards i).Inv cfg)
    {order : List (Fin 3)} (hmem : ∀ i, i ∈ order) (disk : Disk) :
    ∃ route, [1, 2, 3].foldlM (loadFile (persistAll shards order disk)) ∅ = some route ∧
      ∀ key, route.lookup key =
        let vs := hosts (shards 0) key ++ hosts (shards 1) key ++ hosts (shards 2) key
        if vs = [] then none else some vs := by
  have h0 := loadFile_persistAll hid (hmem 0) (n := 1) rfl disk
  have h1 := loadFile_persistAll hid (hmem 1) (n := 2) rfl disk
  have h2 := loadFile_persistAll hid (hmem 2) (n := 3) rfl disk
  refine ⟨(records (shards 0) ++ records (shards 1) ++ records (shards 2)).foldl
    (fun route p => route.pushBack (packKey p.1.modid p.1.cmdid) (live p.2.addr)) ∅, ?_, ?_⟩
  · rw [List.foldl_append, List.foldl_append, List.foldlM_cons, h0, Option.bind_eq_bind,
      Option.bind_some, List.foldlM_cons, h1, Option.bind_eq_bind, Option.bind_some,
      List.foldlM_cons, h2]
    rfl
  · intro key
    rw [HashMap.lookup_foldl_pushBack, List.flatMap_append, List.flatMap_append,
      records_flatMap (hinv 0), records_flatMap (hinv 1), records_flatMap (hinv 2)]

/-! ## The round trip -/

omit [RateArith R] in
/-- A table has no hosts for a module if the module is missing or has none yet. -/
theorem hosts_eq_nil_iff {s : RouteLB} {key : UInt64} :
    hosts s key = [] ↔ ∀ lb, s.routeMap.lookup key = some lb → lb.empty = true := by
  rw [hosts]
  cases hk : s.routeMap.lookup key with
  | none => simp
  | some lb => simp [LB.getRoute, LB.empty]

/-- The hosts of a module are in the table of one shard. -/
theorem index_of_hosts {i : Fin 3} {s : RouteLB} (h : Stored cfg i s) {modid cmdid : Int32}
    (hne : hosts s (packKey modid cmdid) ≠ []) : (Shard.recvRouteIndex modid cmdid).toInt = i := by
  rw [Ne, hosts_eq_nil_iff] at hne
  push Not at hne
  obtain ⟨lb, hk, hemp⟩ := hne
  exact h.home modid cmdid lb hk (by simpa using hemp)

/-- So the three files put together have them once. -/
theorem hosts_append (h : ∀ i, Stored cfg i (shards i)) {i : Fin 3} {key : UInt64}
    (hne : hosts (shards i) key ≠ []) :
    hosts (shards 0) key ++ hosts (shards 1) key ++ hosts (shards 2) key =
      hosts (shards i) key := by
  obtain ⟨modid, cmdid, rfl⟩ := packKey_surj key
  have hnil : ∀ j ≠ i, hosts (shards j) (packKey modid cmdid) = [] := by
    intro j hj
    by_contra hne'
    have hi := index_of_hosts (h i) hne
    have hj' := index_of_hosts (h j) hne'
    exact hj (Fin.ext (by omega))
  match i with
  | 0 => rw [hnil 1 (by decide), hnil 2 (by decide), List.append_nil, List.append_nil]
  | 1 => rw [hnil 0 (by decide), hnil 2 (by decide), List.append_nil, List.nil_append]
  | 2 => rw [hnil 0 (by decide), hnil 1 (by decide), List.append_nil, List.nil_append]

/-- The four bytes of the address and the port tell hosts apart. -/
theorem live_inj {host host' : HostAddr} (h : live host = live host') : host = host' := by
  obtain ⟨hip, hport⟩ := Prod.mk.inj h
  cases host
  cases host'
  exact congrArg₂ _ (PythonClient.sAddr_inj hip) hport

omit [RateArith R] in
/-- A route has no host twice. -/
theorem addr_nodup {lb : LB} (h : lb.RepInv) : (lb.getRoute.map HI.addr).Nodup := by
  have hkeys : (lb.getRoute.map HI.addr).map HostAddr.key = lb.hostMap.entries.keys := by
    rw [LB.getRoute, List.map_map, List.map_map, List.keys]
    exact List.map_congr_left fun e he => h.key_eq e.1 e.2 (HashMap.mem_entries_iff.mp he)
  refine List.Nodup.of_map HostAddr.key ?_
  rw [hkeys]
  exact lb.hostMap.nodupKeys

/-- No host of a table is listed twice. -/
theorem hosts_nodup {s : RouteLB} (h : s.Inv cfg) (key : UInt64) : (hosts s key).Nodup := by
  rw [hosts]
  cases hk : s.routeMap.lookup key with
  | none => exact List.nodup_nil
  | some lb =>
    have hnodup := addr_nodup (LB.repInv_of_reachable (h.lb_reachable key lb hk))
    have hlive : (lb.getRoute.map fun hi => live hi.addr) = (lb.getRoute.map HI.addr).map live := by
      rw [List.map_map]
      rfl
    rw [Option.map_some, Option.getD_some, hlive]
    exact hnodup.map fun _ _ => live_inj

/-- What the agent answers with is one of the hosts. -/
theorem live_mem_hosts {s s' : RouteLB} (h : s.Inv cfg) {req : GetHostReq} {out : RouteLB.Out}
    {rsp : GetHostRsp} (hex : s.exec cfg now (.getHost req) = .ok (s', out))
    (hrsp : out.reply = some (.getHost rsp)) {host : HostAddr} (hhost : rsp.host = some host) :
    live host ∈ hosts s (packKey req.modid req.cmdid) := by
  obtain ⟨-, -, -, hans⟩ := (h.result hex).answers req rsp rfl hrsp
  rw [hosts]
  cases hk : s.routeMap.lookup (packKey req.modid req.cmdid) with
  | none =>
    rw [hk] at hans
    cases hhost.symm.trans hans.2
  | some lb =>
    rw [hk] at hans
    dsimp only at hans
    split at hans
    · cases hhost.symm.trans hans.2
    · rcases hans with ⟨-, key, hi, hlookup, heq⟩ | ⟨-, heq, -⟩
      · obtain rfl := Option.some.inj (hhost.symm.trans heq)
        exact List.mem_map_of_mem (List.mem_map_of_mem (HashMap.mem_entries_iff.mpr hlookup))
      · cases hhost.symm.trans heq

/-- The map that a client has loaded agrees with the shards: a module is found with its hosts, each
once, if a shard has a route for it, and is not found otherwise. A host that a shard would answer
with is found under the same address. -/
structure Agrees (cfg : LbConfigure R) (shards : Fin 3 → RouteLB)
    (route : HashMap UInt64 (List HostType)) : Prop where
  lookup_iff : ∀ key vs, route.lookup key = some vs ↔ vs ≠ [] ∧ ∃ i, hosts (shards i) key = vs
  nodup : ∀ key vs, route.lookup key = some vs → vs.Nodup
  answer_mem : ∀ i now req s' out rsp host,
    (shards i).exec cfg now (.getHost req) = .ok (s', out) →
    out.reply = some (.getHost rsp) → rsp.host = some host →
      ∃ vs, route.lookup (packKey req.modid req.cmdid) = some vs ∧ live host ∈ vs

/-- The three files, loaded by a new `StaticRoute`. -/
theorem load_agrees (h : ∀ i, Stored cfg i (shards i)) {order : List (Fin 3)}
    (hmem : ∀ i, i ∈ order) (disk : Disk) :
    ∃ route, [1, 2, 3].foldlM (loadFile (persistAll shards order disk)) ∅ = some route ∧
      Agrees cfg shards route := by
  obtain ⟨route, hload, hlookup⟩ :=
    exists_load (fun i => (h i).id_eq) (fun i => (h i).inv) hmem disk
  have hiff : ∀ key vs, route.lookup key = some vs ↔
      vs ≠ [] ∧ ∃ i, hosts (shards i) key = vs := by
    intro key vs
    rw [hlookup]
    dsimp only
    constructor
    · intro hvs
      split at hvs
      · cases hvs
      · next hne =>
        obtain rfl := Option.some.inj hvs
        refine ⟨hne, ?_⟩
        -- a host that was loaded is in the table of some shard
        obtain ⟨i, hi⟩ : ∃ i, hosts (shards i) key ≠ [] := by
          by_contra hall
          push Not at hall
          exact hne (by rw [hall 0, hall 1, hall 2]; rfl)
        exact ⟨i, (hosts_append h hi).symm⟩
    · rintro ⟨hne, i, rfl⟩
      rw [hosts_append h hne, if_neg hne]
  refine ⟨route, hload, hiff, fun key vs hvs => ?_, ?_⟩
  · obtain ⟨-, i, rfl⟩ := (hiff key vs).mp hvs
    exact hosts_nodup (h i).inv key
  · intro i now req s' out rsp host hex hrsp hhost
    have hin := live_mem_hosts (h i).inv hex hrsp hhost
    exact ⟨_, (hiff _ _).mpr ⟨List.ne_nil_of_mem hin, i, rfl⟩, hin⟩

/-- The first call of a new `StaticRoute`, with the map that it loads. -/
theorem getHost_new {disk : Disk} {route : HashMap UInt64 (List HostType)}
    (hload : [1, 2, 3].foldlM (loadFile disk) ∅ = some route) (rand : ℕ) (modid cmdid : Int32) :
    getHost disk rand modid cmdid new =
      match route.lookup (packKey modid cmdid) with
      | none => some (⟨route⟩, none)
      | some vs => vs[rand % vs.length]?.map fun host => (⟨route⟩, some host) := by
  have hnew : (new.route.entries.isEmpty : Bool) = true := rfl
  rw [getHost, if_pos hnew, show new.route = ∅ from rfl, hload, Option.bind_eq_bind,
    Option.bind_some]
  dsimp only
  cases route.lookup (packKey modid cmdid) with
  | none => rfl
  | some vs => exact Option.map_eq_bind.symm

/-- Each shard is written as a thread of the agent has it at some time, in any order. A new
`StaticRoute` loads a map that agrees with the shards. `getHost` answers from it, whatever `rand`
gives: there is no host exactly if no shard has a route. -/
theorem getHost_persistAll {s : Fin 3 → DssAgent}
    (h : ∀ i, (DssAgent.system cfg).Reachable (s i)) {order : List (Fin 3)}
    (hmem : ∀ i, i ∈ order) (disk : Disk) :
    ∃ route, Agrees cfg (fun i => ((s i).routeLB i).table) route ∧ ∀ modid cmdid rand, ∃ host,
      getHost (persistAll (fun i => ((s i).routeLB i).table) order disk) rand modid cmdid new =
        some (⟨route⟩, host) ∧
      (host = none ↔ ∀ i, hosts ((s i).routeLB i).table (packKey modid cmdid) = []) ∧
      ∀ a ∈ host, ∃ i, a ∈ hosts ((s i).routeLB i).table (packKey modid cmdid) := by
  have hstored : ∀ i, Stored cfg i ((s i).routeLB i).table := fun i =>
    DssAgent.stored_of_reachable (h i) i _ (.inl rfl)
  obtain ⟨route, hload, hagrees⟩ := load_agrees hstored hmem disk
  refine ⟨route, hagrees, fun modid cmdid rand => ?_⟩
  rw [getHost_new hload]
  cases hk : route.lookup (packKey modid cmdid) with
  | none =>
    refine ⟨none, rfl, iff_of_true rfl fun i => ?_, by simp⟩
    -- a shard with hosts would have its record in the map
    by_contra hne
    cases hk.symm.trans ((hagrees.lookup_iff _ _).mpr ⟨hne, i, rfl⟩)
  | some vs =>
    obtain ⟨hne, i, hi⟩ := (hagrees.lookup_iff _ vs).mp hk
    have hlt : rand % vs.length < vs.length := Nat.mod_lt _ (List.length_pos_iff.mpr hne)
    dsimp only
    rw [List.getElem?_eq_getElem hlt, Option.map_some]
    refine ⟨some vs[rand % vs.length], rfl, iff_of_false (by simp) fun hall => ?_, ?_⟩
    · exact hne (hi ▸ hall i)
    · rintro _ ⟨⟩
      exact ⟨i, hi ▸ List.getElem_mem hlt⟩

/-- The module (1, 2) has two hosts, one with a high address and one with a negative port; another
shard has been asked for it as well, and has no route. -/
def written (i j : Fin 3) : DssAgent :=
  (DssAgent.connectThenAsk i 1 2 ++ [DssAgent.Event.answer [⟨-2, 80⟩, ⟨10, -1⟩],
    .recvRoute 6, .serve j 7 (.getRouteByTool ⟨1, 2⟩), .setPulling j]).foldl
      (DssAgent.next LbConfigure.default) DssAgent.new

/-- Its files are written in another order; the first host comes out for some `rand`. -/
theorem getHost_persistAll_written :
    (∃ route, Agrees LbConfigure.default (fun i => ((written 0 1).routeLB i).table) route ∧
      ∀ modid cmdid rand, ∃ host,
        getHost (persistAll (fun i => ((written 0 1).routeLB i).table) [2, 0, 1] fun _ => none)
          rand modid cmdid new = some (⟨route⟩, host) ∧
        (host = none ↔ ∀ i, hosts ((written 0 1).routeLB i).table (packKey modid cmdid) = []) ∧
        ∀ a ∈ host, ∃ i, a ∈ hosts ((written 0 1).routeLB i).table (packKey modid cmdid)) ∧
      ∃ rand, ((getHost
        (persistAll (fun i => ((written 0 1).routeLB i).table) [2, 0, 1] fun _ => none)
        rand 1 2 new).map fun p => p.2) = some (some ([254, 255, 255, 255], 80)) := by
  have hinit : (DssAgent.system LbConfigure.default).Reachable DssAgent.new := .init rfl
  have h : (DssAgent.system LbConfigure.default).Reachable (written 0 1) :=
    hinit.foldl (DssAgent.step_next LbConfigure.default) (by decide +kernel)
  exact ⟨getHost_persistAll (fun _ => h) (by decide) _, 5, by decide +kernel⟩

end StaticRoute

end Elb
