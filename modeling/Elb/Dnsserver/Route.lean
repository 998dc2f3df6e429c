import Elb.Common.Containers
import Elb.Common.Proto

/-!
# Routes and their database

Reference: `dnsserver/include/Route.h` and `dnsserver/src/Route.cc`, `class Route` and `dataLoader`;
`mod-manager/ModOperator.py`; `common/sql/dnsserver.sql`.

The loader thread copies the routes from the database into memory and tells the subscribers which
modules have changed. `Loader.query` is one query of the loader with what the loader does before the
next one; the query may fail.
-/

namespace Elb

/-! ## Routes in memory -/

/-- `routeMap`: the hosts of each module, both as packed keys. The order of a set means nothing. -/
abbrev RouteMap : Type := HashMap UInt64 (List UInt64)

/-- `Route::getHosts`. -/
def RouteMap.getHosts (modid cmdid : Int32) (data : RouteMap) : List UInt64 :=
  (data.lookup (packKey modid cmdid)).getD []

/-! ## The database -/

/-- A row of `DnsServerRoute`. -/
structure RouteRow where
  modid : UInt32
  cmdid : UInt32
  serverip : UInt32
  serverport : UInt32
deriving DecidableEq, Repr

/-- The key of the module, from its two columns by `atoi`. -/
def moduleKey (modid cmdid : UInt32) : UInt64 := packKey modid.toInt32 cmdid.toInt32

/-- The value that stands for the host; its ip is an `unsigned`. -/
def RouteRow.value (row : RouteRow) : UInt64 :=
  (row.serverip.toUInt64 <<< 32) + row.serverport.toInt32.toInt64.toUInt64

/-- The rows as `reload` and the constructor of `Route` collect them. -/
def RouteMap.ofRows (rows : List RouteRow) : RouteMap :=
  rows.foldl (fun data row =>
    let key := moduleKey row.modid row.cmdid
    data.insert key (((data.lookup key).getD []).insert row.value)) ∅

/-- A run of `ModOperator.py`, which takes a host on or off line at second `ts`. -/
structure ModOperator where
  online : Bool
  row : RouteRow
  ts : ℤ
deriving DecidableEq, Repr

/-- The module that it changes. -/
def ModOperator.key (t : ModOperator) : UInt64 := moduleKey t.row.modid t.row.cmdid

/-- A row of `ChangeLog`. Its `id` counts the transactions. -/
structure ChangeRow where
  id : ℕ
  modid : UInt32
  cmdid : UInt32
  version : ℤ
deriving DecidableEq, Repr

/-- The key of the changed module. -/
def ChangeRow.key (row : ChangeRow) : UInt64 := moduleKey row.modid row.cmdid

/-- The database with the transactions that were committed to it. Every row of `ChangeLog` comes
from one of them. -/
structure Db where
  routes : List RouteRow
  version : ℤ
  changeLog : List ChangeRow
  history : List ModOperator
  log_mem : ∀ row ∈ changeLog, (history[row.id]?).map ModOperator.key = some row.key

namespace Db

/-- Nothing is in an empty log. -/
theorem log_nil : ∀ row ∈ ([] : List ChangeRow),
    (([] : List ModOperator)[row.id]?).map ModOperator.key = some row.key :=
  fun _ h => absurd h List.not_mem_nil

/-- Whatever was in the log comes from the history, also from a longer one. -/
theorem log_append (db : Db) (t : ModOperator) (row : ChangeRow) (h : row ∈ db.changeLog) :
    ((db.history ++ [t])[row.id]?).map ModOperator.key = some row.key := by
  have hrow := db.log_mem row h
  obtain ⟨t', ht', hkey⟩ := Option.map_eq_some_iff.mp hrow
  have hlt : row.id < db.history.length := (List.getElem?_eq_some_iff.mp ht').1
  rw [List.getElem?_append_left hlt, hrow]

/-- The transaction of `ModOperator.py`. -/
def commit (t : ModOperator) (db : Db) : Db where
  routes := if t.online then db.routes ++ [t.row] else db.routes.filter (· ≠ t.row)
  version := t.ts
  changeLog := db.changeLog ++ [⟨db.history.length, t.row.modid, t.row.cmdid, t.ts⟩]
  history := db.history ++ [t]
  log_mem := by
    intro row hrow
    rcases List.mem_append.mp hrow with hrow | hrow
    · exact db.log_append t row hrow
    · rw [List.mem_singleton.mp hrow]
      simp [ModOperator.key, ChangeRow.key]

/-- `DELETE FROM ChangeLog` with a condition. -/
def deleteChanges (p : ChangeRow → Bool) (db : Db) : Db :=
  { db with
    changeLog := db.changeLog.filter fun row => !p row
    log_mem := fun row hrow => db.log_mem row (List.mem_of_mem_filter hrow) }

/-- `SELECT modid,cmdid FROM ChangeLog WHERE version <= v`, as keys. -/
def selectChanges (v : ℤ) (db : Db) : List UInt64 :=
  (db.changeLog.filter fun row => row.version ≤ v).map ChangeRow.key

end Db

/-! ## The loader thread -/

/-- The next query, or other step, of the thread: two of the constructor of `Route`, the start-up
purge, and those of the loop. `changed` says which branch of the loop it is in. -/
inductive Loader.Pc
  | loadVersionFirst
  | selectFirst
  | rmAllChanges
  | loadVersion
  | reload (changed : Bool)
  | swap (changed : Bool)
  | loadChanges
  | push
  | rmChanges
  | exited
deriving DecidableEq, Repr

/-- The loader thread and the data members of `Route`. -/
structure Loader where
  pc : Loader.Pc
  routeVersion : ℤ
  data : RouteMap
  tmpData : RouteMap
  changes : List UInt64
  currTs : ℤ
  lstLoadTs : ℤ

namespace Loader

/-- The thread before it first uses `Route`. -/
def new : Loader := ⟨.loadVersionFirst, 0, ∅, ∅, [], 0, 0⟩

/-- The end of an iteration of `dataLoader` that found no new version: a reload if the last one was
`ws` seconds ago. -/
def idle (ws : ℤ) (l : Loader) : Loader :=
  if l.currTs - l.lstLoadTs ≥ ws then { l with pc := .reload false }
  else { l with pc := .loadVersion }

/-- One step at second `now`; `ok` says whether its query succeeds. `swap` and `push` make none. -/
def query (ws : ℤ) (ok : Bool) (now : ℤ) (db : Db) (l : Loader) : Db × Loader :=
  match l.pc with
  | .loadVersionFirst =>
    if ok then (db, { l with routeVersion := db.version, pc := .selectFirst })
    else (db, { l with pc := .exited })
  | .selectFirst =>
    if ok then (db, { l with data := .ofRows db.routes, pc := .rmAllChanges })
    else (db, { l with pc := .exited })
  | .rmAllChanges =>
    (if ok then db.deleteChanges fun _ => true else db,
      { l with lstLoadTs := now, pc := .loadVersion })
  | .loadVersion =>
    let l := { l with currTs := now }
    if ok && db.version != l.routeVersion then
      (db, { l with routeVersion := db.version, pc := .reload true })
    else
      (db, l.idle ws)
  | .reload changed =>
    if ok then (db, { l with tmpData := .ofRows db.routes, pc := .swap changed })
    else (db, { l with tmpData := ∅, pc := .loadVersion })
  | .swap changed =>
    (db, { l with
      data := l.tmpData
      tmpData := l.data
      lstLoadTs := l.currTs
      changes := []
      pc := if changed then .loadChanges else .loadVersion })
  | .loadChanges =>
    (db, { l with changes := if ok then db.selectChanges l.routeVersion else [], pc := .push })
  | .push => (db, { l with pc := .rmChanges })
  | .rmChanges =>
    (if ok then db.deleteChanges fun row => row.version ≤ l.routeVersion else db,
      { l with pc := .loadVersion })
  | .exited => (db, l)

end Loader

end Elb
