import Elb.Common.Transition
import Elb.Dnsserver.Route
import Mathlib.Logic.Function.Basic

/-!
# Readers see one snapshot

Reference: `Route::getHosts`, `Route::reload`, `Route::swap` and the constructor of `Route` in
`dnsserver/src/Route.cc`; `common/base/include/Singleton.h`.

`_data` and `_tmpData` point to two maps that change roles with every swap. `reload` clears the map
behind `_tmpData` and inserts the rows one by one, without a lock, while readers use the map behind
`_data` under the read lock, step by step; `swap` waits for the write lock. `Loader.query` takes a
whole reload for one step, and `RouteStore` runs it with the two maps, the loop of insertions and
the readers beside it.
-/

namespace Elb

open Transition

/-! ## Rows in a map -/

/-- The body of the loop of `reload`: `(*_tmpData)[key].insert(value)`. -/
def RouteMap.insertRow (data : RouteMap) (row : RouteRow) : RouteMap :=
  let key := moduleKey row.modid row.cmdid
  data.insert key (((data.lookup key).getD []).insert row.value)

/-- The rows are inserted in their order. -/
theorem RouteMap.ofRows_eq (rows : List RouteRow) :
    RouteMap.ofRows rows = rows.foldl RouteMap.insertRow ∅ := rfl

/-- The hosts of a module after the loop. -/
theorem RouteMap.getHosts_foldl (rows : List RouteRow) (modid cmdid : Int32) (data : RouteMap)
    (hnd : (data.getHosts modid cmdid).Nodup) :
    ((rows.foldl insertRow data).getHosts modid cmdid).Nodup ∧
      ∀ value, value ∈ (rows.foldl insertRow data).getHosts modid cmdid ↔
        value ∈ data.getHosts modid cmdid ∨ ∃ row ∈ rows,
          moduleKey row.modid row.cmdid = packKey modid cmdid ∧ row.value = value := by
  induction rows generalizing data with
  | nil => exact ⟨hnd, by simp⟩
  | cons row rows ih =>
    -- an insertion changes the set of its own module only
    have hrow : (data.insertRow row).getHosts modid cmdid =
        if moduleKey row.modid row.cmdid = packKey modid cmdid then
          (data.getHosts modid cmdid).insert row.value
        else data.getHosts modid cmdid := by
      rw [RouteMap.getHosts, insertRow, HashMap.lookup_insert_eq]
      by_cases heq : moduleKey row.modid row.cmdid = packKey modid cmdid
      · rw [if_pos heq.symm, if_pos heq, heq]
        rfl
      · rw [if_neg fun h => heq h.symm, if_neg heq]
        rfl
    have hnd' : ((data.insertRow row).getHosts modid cmdid).Nodup := by
      rw [hrow]
      split
      · exact hnd.insert
      · exact hnd
    obtain ⟨hall, hmem⟩ := ih (data.insertRow row) hnd'
    refine ⟨hall, fun value => ?_⟩
    rw [List.foldl_cons, hmem, hrow, List.exists_mem_cons_iff]
    split
    · next heq =>
      rw [List.mem_insert_iff, or_assoc, or_left_comm, eq_comm]
      simp only [heq, true_and]
    · next heq => simp only [heq, false_and, false_or]

/-- A value of a module comes from a row that names the module. -/
theorem RouteMap.mem_getHosts_ofRows {rows : List RouteRow} {modid cmdid : Int32}
    {value : UInt64} : value ∈ (ofRows rows).getHosts modid cmdid ↔
      ∃ row ∈ rows, moduleKey row.modid row.cmdid = packKey modid cmdid ∧ row.value = value := by
  have hnil : (∅ : RouteMap).getHosts modid cmdid = [] := rfl
  have hmem := (getHosts_foldl rows modid cmdid ∅ (by rw [hnil]; exact List.nodup_nil)).2 value
  rw [ofRows_eq, hmem, hnil, or_iff_right List.not_mem_nil]

/-- The value of a row packs its ip and port. -/
theorem RouteRow.value_eq (row : RouteRow) :
    row.value = packKey row.serverip.toInt32 row.serverport.toInt32 := by
  have h32 : (32 : UInt64).toNat % 64 = 32 := rfl
  have hint := toNat_toUInt64 row.serverip.toInt32
  have hip := row.serverip.toNat_lt
  rw [toInt_toInt32, Int.bmod_def] at hint
  -- the bits that the sign extension adds are shifted out
  have hshift : row.serverip.toUInt64 <<< 32 =
      row.serverip.toInt32.toInt64.toUInt64 <<< 32 := by
    rw [← UInt64.toNat_inj, UInt64.toNat_shiftLeft, UInt64.toNat_shiftLeft, Nat.shiftLeft_eq,
      Nat.shiftLeft_eq, h32, UInt32.toNat_toUInt64]
    split at hint <;> omega
  rw [RouteRow.value, packKey, hshift]

/-- Columns that are read as the same `int` are the same. -/
theorem toInt32_inj {a b : UInt32} (h : a.toInt32 = b.toInt32) : a = b := by
  rw [← UInt32.toUInt32_toInt32 a, h, UInt32.toUInt32_toInt32]

/-- The hosts of a module in the map of some rows are those of the rows that name the module. -/
theorem RouteMap.getHosts_ofRows (rows : List RouteRow) (modid cmdid : Int32) :
    ((ofRows rows).getHosts modid cmdid).Nodup ∧ ∀ ip port : UInt32,
      packKey ip.toInt32 port.toInt32 ∈ (ofRows rows).getHosts modid cmdid ↔
        ∃ row ∈ rows, row.modid.toInt32 = modid ∧ row.cmdid.toInt32 = cmdid ∧
          row.serverip = ip ∧ row.serverport = port := by
  rw [ofRows_eq]
  have hnil : (∅ : RouteMap).getHosts modid cmdid = [] := rfl
  obtain ⟨hnd, hmem⟩ := getHosts_foldl rows modid cmdid ∅ (by rw [hnil]; exact List.nodup_nil)
  refine ⟨hnd, fun ip port => ?_⟩
  rw [hmem, hnil]
  simp only [List.not_mem_nil, false_or]
  refine exists_congr fun row => and_congr_right fun _ => ⟨?_, ?_⟩
  · rintro ⟨hkey, hvalue⟩
    obtain ⟨hm, hk⟩ := packKey_inj hkey
    rw [RouteRow.value_eq] at hvalue
    obtain ⟨hip, hport⟩ := packKey_inj hvalue
    exact ⟨hm, hk, toInt32_inj hip, toInt32_inj hport⟩
  · rintro ⟨rfl, rfl, rfl, rfl⟩
    exact ⟨rfl, row.value_eq⟩

/-! ## Two maps and their readers -/

/-- What `reload` or the constructor is at: the target is cleared, or the loop still has rows of the
result to insert. -/
inductive Filling
  | idle
  | cleared
  | rows (rows : List RouteRow)
deriving DecidableEq

/-- A thread and its call of `getHosts`: it has the read lock, it has looked the key up in one of
the maps (`none` is `end()`), it has copied the set and still has the lock. -/
inductive Reader
  | outside
  | locked (modid cmdid : Int32)
  | found (modid cmdid : Int32) (it : Option Bool)
  | copied (modid cmdid : Int32) (hosts : List UInt64)
deriving DecidableEq

/-- The two maps, which of them `_data` points to, the loader and the readers. `loaded` has the rows
of the last `SELECT` that succeeded and `published` those of the last one that was also swapped in,
or was the first. -/
structure RouteStore (ι : Type) where
  db : Db
  loader : Loader
  filling : Filling
  maps : Bool → RouteMap
  data : Bool
  reader : ι → Reader
  loaded : List RouteRow
  published : List RouteRow

/-- The queries of the constructor have succeeded. -/
def Loader.Booted (l : Loader) : Prop :=
  l.pc ≠ .loadVersionFirst ∧ l.pc ≠ .selectFirst ∧ l.pc ≠ .exited

/-- What a query other than `swap` does to the copy of the routes: the constructor builds it,
`reload` builds the other one, and the rest leave it alone. -/
theorem Loader.query_cases (ws : ℤ) (ok : Bool) (now : ℤ) (db : Db) {l l' : Loader}
    (hl : (l.query ws ok now db).2 = l') (hswap : ∀ changed, l.pc ≠ .swap changed) :
    (l.pc = .loadVersionFirst ∧ (l'.pc = .selectFirst ∨ l'.pc = .exited)) ∨
    (l.pc = .selectFirst ∧ (ok = false ∧ l'.pc = .exited ∨
      ok = true ∧ l'.pc = .rmAllChanges ∧ l'.data = .ofRows db.routes)) ∨
    (∃ changed, l.pc = .reload changed ∧ l'.data = l.data ∧
      (ok = false ∧ l'.pc = .loadVersion ∨
        ok = true ∧ l'.pc = .swap changed ∧ l'.tmpData = .ofRows db.routes)) ∨
    (l.pc ≠ .loadVersionFirst ∧ l.pc ≠ .selectFirst ∧ (∀ changed, l.pc ≠ .reload changed) ∧
      l'.data = l.data ∧ l'.pc ≠ .loadVersionFirst ∧ l'.pc ≠ .selectFirst ∧
      l'.pc ≠ .rmAllChanges ∧ (∀ changed, l'.pc ≠ .swap changed) ∧
      (l'.pc = .exited ↔ l.pc = .exited)) := by
  subst hl
  rw [Loader.query]
  cases hpc : l.pc with
  | loadVersionFirst => cases ok <;> simp
  | selectFirst => cases ok <;> simp
  | reload changed => cases ok <;> simp
  | swap changed => exact absurd hpc (hswap changed)
  | loadVersion =>
    dsimp only
    split
    · simp
    · rw [Loader.idle]
      split <;> simp
  | exited => simp [hpc]
  | _ => simp

namespace RouteStore

variable {ι : Type}

/-- The process starts. -/
def new (db : Db) : RouteStore ι :=
  ⟨db, .new, .idle, fun _ => ∅, true, fun _ => .outside, [], []⟩

/-- `pthread_once` has returned: the constructor is through, its loop included. -/
def Ready (s : RouteStore ι) : Prop :=
  s.loader.Booted ∧ (s.loader.pc = .rmAllChanges → s.filling = .idle)

/-- The map that the rows go to: `_data` in the constructor and `_tmpData` in `reload`. -/
def target (s : RouteStore ι) : Bool := if s.loader.pc = .rmAllChanges then s.data else !s.data

/-- What can happen. -/
inductive Op (ι : Type)
  | write (db : Db)
  | clear
  | query (ok : Bool) (now : ℤ)
  | insert
  | swap
  | rdlock (r : ι) (modid cmdid : Int32)
  | find (r : ι)
  | copy (r : ι)
  | unlock (r : ι)

/-- The reader whose step it is. -/
def Op.reader : Op ι → Option ι
  | .rdlock r _ _ | .find r | .copy r | .unlock r => some r
  | _ => none

/-- The rows that a successful query of the loader leaves to insert. -/
def queried (s : RouteStore ι) (ok : Bool) : Option (List RouteRow) :=
  match s.loader.pc with
  | .selectFirst | .reload _ => if ok then some s.db.routes else none
  | _ => none

/-- The next row goes into the target. -/
def insertNext (s : RouteStore ι) : RouteStore ι :=
  match s.filling with
  | .rows (row :: rows) =>
    { s with
      maps := Function.update s.maps s.target ((s.maps s.target).insertRow row)
      filling := .rows rows }
  | .rows [] =>
    { s with
      filling := .idle
      published := if s.loader.pc = .rmAllChanges then s.loaded else s.published }
  | _ => s

/-- The next step of a call of `getHosts`. -/
def Reader.next (s : RouteStore ι) : Reader → Reader
  | .locked modid cmdid =>
    .found modid cmdid (if packKey modid cmdid ∈ s.maps s.data then some s.data else none)
  | .found modid cmdid it =>
    .copied modid cmdid ((it.bind fun b => (s.maps b).lookup (packKey modid cmdid)).getD [])
  | _ => .outside

/-- The state afterwards; `ws` is `load_interval`. `swap` has the write lock for all of its three
assignments. -/
def apply [DecidableEq ι] (ws : ℤ) (op : Op ι) (s : RouteStore ι) : RouteStore ι :=
  match op with
  | .write db => { s with db := db }
  | .clear => { s with maps := Function.update s.maps (!s.data) ∅, filling := .cleared }
  | .query ok now =>
    { s with
      db := (s.loader.query ws ok now s.db).1
      loader := (s.loader.query ws ok now s.db).2
      filling := ((s.queried ok).map Filling.rows).getD .idle
      loaded := (s.queried ok).getD s.loaded }
  | .insert => s.insertNext
  | .swap =>
    { s with
      loader := (s.loader.query ws true 0 s.db).2
      data := !s.data
      published := s.loaded }
  | .rdlock r modid cmdid => { s with reader := Function.update s.reader r (.locked modid cmdid) }
  | .find r | .copy r | .unlock r =>
    { s with reader := Function.update s.reader r (Reader.next s (s.reader r)) }

/-- When it can happen: the loader goes on where it is, `swap` waits until no reader has the lock,
and a reader waits until there is a `Route`. -/
def Allowed (s : RouteStore ι) : Op ι → Prop
  | .write _ => True
  | .clear => (∃ changed, s.loader.pc = .reload changed) ∧ s.filling = .idle
  | .query _ _ =>
    match s.loader.pc with
    | .swap _ => False
    | .reload _ => s.filling = .cleared
    | _ => s.filling = .idle
  | .insert => ∃ rows, s.filling = .rows rows
  | .swap => (∃ changed, s.loader.pc = .swap changed) ∧ s.filling = .idle ∧
      ∀ r, s.reader r = .outside
  | .rdlock r _ _ => s.Ready ∧ s.reader r = .outside
  | .find r => ∃ modid cmdid, s.reader r = .locked modid cmdid
  | .copy r => ∃ modid cmdid it, s.reader r = .found modid cmdid it
  | .unlock r => ∃ modid cmdid hosts, s.reader r = .copied modid cmdid hosts

/-- Any order of writes to the database, steps of the loader and steps of the readers. -/
def system (ι : Type) [DecidableEq ι] (ws : ℤ) : System (RouteStore ι) (Op ι) where
  init s := ∃ db, s = new db
  step s op s' := s.Allowed op ∧ s' = s.apply ws op

/-! ## The maps hold what was loaded -/

/-- What a reader with the lock knows. -/
def Sees (s : RouteStore ι) : Reader → Prop
  | .outside => True
  | .locked _ _ => s.Ready
  | .found modid cmdid it => s.Ready ∧
      it = if packKey modid cmdid ∈ s.maps s.data then some s.data else none
  | .copied modid cmdid hosts => s.Ready ∧ hosts = (s.maps s.data).getHosts modid cmdid

/-- The target and the rows that are still to insert make up what was loaded; the map that readers
use holds what was published; `Loader.query` says the same of its maps. -/
structure Inv (s : RouteStore ι) : Prop where
  empty : s.loader.pc = .loadVersionFirst ∨ s.loader.pc = .selectFirst → s.maps s.data = ∅
  first : s.loader.pc = .rmAllChanges → s.loader.data = .ofRows s.loaded
  second : ∀ changed, s.loader.pc = .swap changed → s.loader.tmpData = .ofRows s.loaded
  cleared : s.filling = .cleared → (∃ changed, s.loader.pc = .reload changed) ∧
    s.maps (!s.data) = ∅
  rows : ∀ rows, s.filling = .rows rows →
    (s.loader.pc = .rmAllChanges ∨ ∃ changed, s.loader.pc = .swap changed) ∧
      rows.foldl RouteMap.insertRow (s.maps s.target) = .ofRows s.loaded
  filled : ∀ changed, s.loader.pc = .swap changed → s.filling = .idle →
    s.maps (!s.data) = .ofRows s.loaded
  ready : s.Ready → s.maps s.data = .ofRows s.published ∧ s.loader.data = .ofRows s.published
  reader : ∀ r, s.Sees (s.reader r)

/-- A step that leaves the visible map alone leaves the readers alone. -/
theorem Sees.mono {s s' : RouteStore ι} {x : Reader} (h : s.Sees x)
    (hready : s.Ready → s'.Ready) (hdata : s'.data = s.data)
    (hmap : s.Ready → s'.maps s.data = s.maps s.data) : s'.Sees x := by
  cases x with
  | outside => trivial
  | locked modid cmdid => exact hready h
  | found modid cmdid it => exact ⟨hready h.1, by rw [hdata, hmap h.1]; exact h.2⟩
  | copied modid cmdid hosts => exact ⟨hready h.1, by rw [hdata, hmap h.1]; exact h.2⟩

/-- The step of one reader. -/
theorem Inv.read [DecidableEq ι] {s : RouteStore ι} (h : s.Inv) (r : ι) {x : Reader}
    (hx : s.Sees x) : Inv { s with reader := Function.update s.reader r x } := by
  refine ⟨h.empty, h.first, h.second, h.cleared, h.rows, h.filled, h.ready, fun r' => ?_⟩
  show s.Sees (Function.update s.reader r x r')
  by_cases heq : r' = r
  · rw [heq, Function.update_self]
    exact hx
  · rw [Function.update_of_ne heq]
    exact h.reader r'

/-- A reader that has looked the key up and copies the set has the hosts of the module. -/
theorem Sees.next {s : RouteStore ι} {x : Reader} (h : s.Sees x) : s.Sees (Reader.next s x) := by
  cases x with
  | outside => trivial
  | locked modid cmdid => exact ⟨h, rfl⟩
  | found modid cmdid it =>
    refine ⟨h.1, ?_⟩
    rw [h.2, RouteMap.getHosts]
    by_cases hmem : packKey modid cmdid ∈ s.maps s.data
    · rw [if_pos hmem]
      rfl
    · rw [if_neg hmem, AList.lookup_eq_none.mpr hmem]
      rfl
  | copied modid cmdid hosts => trivial

/-- Where a query finds the loop of insertions. -/
theorem Allowed.query {s : RouteStore ι} {ok : Bool} {now : ℤ} (h : s.Allowed (.query ok now)) :
    (∀ changed, s.loader.pc ≠ .swap changed) ∧
      (∀ changed, s.loader.pc = .reload changed → s.filling = .cleared) ∧
      ((∀ changed, s.loader.pc ≠ .reload changed) → s.filling = .idle) := by
  rw [Allowed] at h
  cases hpc : s.loader.pc with
  | swap changed =>
    rw [hpc] at h
    exact h.elim
  | reload changed =>
    rw [hpc] at h
    exact ⟨by simp, fun _ _ => h, fun hnot => absurd rfl (hnot changed)⟩
  | _ =>
    rw [hpc] at h
    exact ⟨by simp, by simp, fun _ => h⟩

/-- A query that has no rows to insert and leaves the copy of the routes alone. -/
theorem Inv.queryNone {s : RouteStore ι} (h : s.Inv) {db : Db} {l : Loader}
    (hempty : l.pc = .loadVersionFirst ∨ l.pc = .selectFirst → s.maps s.data = ∅)
    (hfirst : l.pc ≠ .rmAllChanges) (hsecond : ∀ changed, l.pc ≠ .swap changed)
    (hready : l.Booted → s.Ready ∧ l.data = s.loader.data) (hback : s.Ready → l.Booted) :
    Inv { s with db := db, loader := l, filling := .idle } where
  empty := hempty
  first hpc := absurd hpc hfirst
  second changed hpc := absurd hpc (hsecond changed)
  cleared hfill := by cases hfill
  rows rows hfill := by cases hfill
  filled changed hpc := absurd hpc (hsecond changed)
  ready hr := by
    obtain ⟨hs, hdata⟩ := hready hr.1
    exact ⟨(h.ready hs).1, hdata.trans (h.ready hs).2⟩
  reader r := (h.reader r).mono (fun hs => ⟨hback hs, fun _ => rfl⟩) rfl fun _ => rfl

/-- A query whose rows are to go into an empty target. -/
theorem Inv.querySome {s : RouteStore ι} (h : s.Inv) {db : Db} {l : Loader} {rows : List RouteRow}
    (hpc : l.pc = .rmAllChanges ∧ s.maps s.data = ∅ ∧ l.data = .ofRows rows ∧ ¬s.Ready ∨
      ∃ changed, l.pc = .swap changed ∧ s.maps (!s.data) = ∅ ∧ l.tmpData = .ofRows rows ∧
        s.Ready ∧ l.data = s.loader.data) :
    Inv { s with db := db, loader := l, filling := .rows rows, loaded := rows } where
  empty hor := by
    rcases hpc with ⟨hl, -⟩ | ⟨changed, hl, -⟩ <;> rw [hl] at hor <;> simp at hor
  first hl := by
    rcases hpc with ⟨-, -, hdata, -⟩ | ⟨changed, hl', -⟩
    · exact hdata
    · rw [hl'] at hl
      cases hl
  second changed hl := by
    rcases hpc with ⟨hl', -⟩ | ⟨_, -, -, htmp, -⟩
    · rw [hl'] at hl
      cases hl
    · exact htmp
  cleared hfill := by cases hfill
  rows rows' hfill := by
    obtain rfl : rows = rows' := Filling.rows.inj hfill
    rcases hpc with ⟨hl, hmap, -⟩ | ⟨changed, hl, hmap, -⟩
    · refine ⟨.inl hl, ?_⟩
      simp only [target, hl, if_true, hmap, RouteMap.ofRows_eq]
    · refine ⟨.inr ⟨changed, hl⟩, ?_⟩
      simp only [target, hl, reduceCtorEq, if_false, hmap, RouteMap.ofRows_eq]
  filled _ _ hfill := by cases hfill
  ready hr := by
    rcases hpc with ⟨hl, -⟩ | ⟨_, _, -, -, hs, hdata⟩
    · cases hr.2 hl
    · exact ⟨(h.ready hs).1, hdata.trans (h.ready hs).2⟩
  reader r := by
    refine (h.reader r).mono (fun hs => ?_) rfl fun _ => rfl
    rcases hpc with ⟨-, -, -, hnot⟩ | ⟨changed, hl, -⟩
    · exact absurd hs hnot
    · simp [Ready, Loader.Booted, hl]

/-- A query of the loader. -/
theorem Inv.query [DecidableEq ι] {s : RouteStore ι} (h : s.Inv) (ws : ℤ) {ok : Bool} {now : ℤ}
    (hallowed : s.Allowed (.query ok now)) : (s.apply ws (.query ok now)).Inv := by
  obtain ⟨hswap, hcleared, hidle⟩ := hallowed.query
  rw [apply, queried]
  generalize hquery : (s.loader.query ws ok now s.db).2 = l
  rcases Loader.query_cases ws ok now s.db hquery hswap with ⟨hpc, hl⟩ |
    ⟨hpc, ⟨rfl, hl⟩ | ⟨rfl, hl, hdata⟩⟩ | ⟨changed, hpc, hdata, ⟨rfl, hl⟩ | ⟨rfl, hl, htmp⟩⟩ |
    ⟨hfirst, hselect, hreload, hdata, hl₁, hl₂, hl₃, hl₄, hexit⟩
  · -- the constructor has read the version, or failed
    have hnot : ¬l.Booted := by rcases hl with hl | hl <;> simp [Loader.Booted, hl]
    have hnot' : ¬s.Ready := by simp [Ready, Loader.Booted, hpc]
    rw [hpc]
    exact h.queryNone (fun _ => h.empty (.inl hpc)) (by rcases hl with hl | hl <;> simp [hl])
      (by rcases hl with hl | hl <;> simp [hl]) (fun hb => absurd hb hnot)
      fun hs => absurd hs hnot'
  · have hnot : ¬l.Booted := by simp [Loader.Booted, hl]
    have hnot' : ¬s.Ready := by simp [Ready, Loader.Booted, hpc]
    rw [hpc]
    exact h.queryNone (by simp [hl]) (by simp [hl]) (by simp [hl]) (fun hb => absurd hb hnot)
      fun hs => absurd hs hnot'
  · rw [hpc]
    -- the constructor has its rows, and nobody reads yet
    refine h.querySome (.inl ⟨hl, h.empty (.inr hpc), hdata, ?_⟩)
    simp [Ready, Loader.Booted, hpc]
  · have hs : s.Ready := by simp [Ready, Loader.Booted, hpc]
    have hb : l.Booted := by simp [Loader.Booted, hl]
    rw [hpc]
    exact h.queryNone (by simp [hl]) (by simp [hl]) (by simp [hl]) (fun _ => ⟨hs, hdata⟩)
      fun _ => hb
  · have hs : s.Ready := by simp [Ready, Loader.Booted, hpc]
    rw [hpc]
    -- `reload` has its rows for the map that it has cleared
    exact h.querySome (.inr ⟨changed, hl, (h.cleared (hcleared changed hpc)).2, htmp, hs, hdata⟩)
  · have hb : l.Booted ↔ s.Ready := by
      simp only [Ready, Loader.Booted, ne_eq, hl₁, hl₂, hexit, hfirst, hselect, hidle hreload,
        not_false_iff, true_and, implies_true, and_true]
    have hnone : (match s.loader.pc with
        | .selectFirst | .reload _ => if ok = true then some s.db.routes else none
        | _ => none) = none := by
      split
      · next hpc => exact absurd hpc hselect
      · next changed hpc => exact absurd hpc (hreload changed)
      · rfl
    rw [hnone]
    exact h.queryNone (fun hor => (hor.elim hl₁ hl₂).elim) hl₃ hl₄ (fun hl => ⟨hb.mp hl, hdata⟩)
      hb.mpr

/-- Writing to the map behind `_tmpData` leaves the one behind `_data` alone. -/
theorem update_tmpData (maps : Bool → RouteMap) (data : Bool) (map : RouteMap) :
    Function.update maps (!data) map data = maps data :=
  Function.update_of_ne (Bool.not_ne_self data).symm map maps

/-- `reload` clears the map that nobody reads. -/
theorem Inv.clear {s : RouteStore ι} (h : s.Inv) {changed : Bool}
    (hpc : s.loader.pc = .reload changed) :
    Inv { s with maps := Function.update s.maps (!s.data) ∅, filling := .cleared } := by
  have hdata := update_tmpData s.maps s.data ∅
  have hs : s.Ready := by simp [Ready, Loader.Booted, hpc]
  have hs' : (⟨s.db, s.loader, .cleared, Function.update s.maps (!s.data) ∅, s.data, s.reader,
      s.loaded, s.published⟩ : RouteStore ι).Ready := by simp [Ready, Loader.Booted, hpc]
  refine ⟨?_, ?_, ?_, fun _ => ⟨⟨changed, hpc⟩, ?_⟩, ?_, ?_, fun _ => ?_, fun r => ?_⟩
  · simp [hpc]
  · simp [hpc]
  · simp [hpc]
  · exact Function.update_self ..
  · simp
  · simp
  · exact ⟨hdata.trans (h.ready hs).1, (h.ready hs).2⟩
  · exact (h.reader r).mono (fun _ => hs') rfl fun _ => hdata

/-- The loop inserts one row, or ends. -/
theorem Inv.insertNext {s : RouteStore ι} (h : s.Inv) {rows : List RouteRow}
    (hfill : s.filling = .rows rows) : s.insertNext.Inv := by
  obtain ⟨hpc, hrows⟩ := h.rows rows hfill
  have hnew : ¬(s.loader.pc = .loadVersionFirst ∨ s.loader.pc = .selectFirst) := by
    rcases hpc with hpc | ⟨changed, hpc⟩ <;> simp [hpc]
  have hbooted : s.loader.Booted := by
    rcases hpc with hpc | ⟨changed, hpc⟩ <;> simp [Loader.Booted, hpc]
  cases rows with
  | nil =>
    rw [RouteStore.insertNext, hfill]
    refine ⟨fun hor => absurd hor hnew, h.first, h.second, by simp, by simp, ?_, fun _ => ?_,
      fun r => (h.reader r).mono (fun _ => ⟨hbooted, fun _ => rfl⟩) rfl fun _ => rfl⟩
    · intro changed hswap _
      rw [target, hswap, if_neg (by simp)] at hrows
      exact hrows
    · dsimp only
      rcases hpc with hpc | ⟨changed, hpc⟩
      · rw [if_pos hpc]
        rw [target, if_pos hpc] at hrows
        exact ⟨hrows, h.first hpc⟩
      · rw [if_neg (by simp [hpc])]
        exact h.ready ⟨hbooted, by simp [hpc]⟩
  | cons row rows =>
    rw [RouteStore.insertNext, hfill]
    -- readers are there only when the target is the other map
    have hdata : s.Ready →
        Function.update s.maps s.target ((s.maps s.target).insertRow row) s.data =
          s.maps s.data := by
      intro hs
      have hne : s.loader.pc ≠ .rmAllChanges := fun hpc => by simp [hs.2 hpc] at hfill
      rw [target, if_neg hne]
      exact update_tmpData s.maps s.data _
    have hready : ∀ s' : RouteStore ι, s'.loader = s.loader → s.Ready → s'.Ready := by
      intro s' hl hs
      have hne : s.loader.pc ≠ .rmAllChanges := fun hpc => by simp [hs.2 hpc] at hfill
      exact ⟨by rw [hl]; exact hs.1, fun hpc => absurd (hl ▸ hpc) hne⟩
    refine ⟨fun hor => absurd hor hnew, h.first, h.second, by simp, ?_, by simp, fun hs => ?_,
      fun r => (h.reader r).mono (hready _ rfl) rfl hdata⟩
    · intro rows' heq
      obtain rfl : rows = rows' := Filling.rows.inj heq
      refine ⟨hpc, ?_⟩
      rw [List.foldl_cons] at hrows
      rw [← hrows]
      exact congrArg (List.foldl _ · rows) (Function.update_self ..)
    · have hne : s.loader.pc ≠ .rmAllChanges := fun hpc => by cases hs.2 hpc
      have hs' : s.Ready := ⟨hs.1, fun hpc => absurd hpc hne⟩
      exact ⟨(hdata hs').trans (h.ready hs').1, (h.ready hs').2⟩

/-- `swap` with the write lock. -/
theorem Inv.swap [DecidableEq ι] {s : RouteStore ι} (h : s.Inv) (ws : ℤ) {changed : Bool}
    (hpc : s.loader.pc = .swap changed) (hfill : s.filling = .idle)
    (hreader : ∀ r, s.reader r = .outside) : (s.apply ws .swap).Inv := by
  have hmap := h.filled changed hpc hfill
  rw [apply, Loader.query, hpc]
  refine ⟨?_, ?_, ?_, by simp [hfill], by simp [hfill], ?_, fun _ => ⟨hmap, h.second changed hpc⟩,
    fun r => ?_⟩
  · cases changed <;> simp
  · cases changed <;> simp
  · cases changed <;> simp
  · cases changed <;> simp
  · simp only [hreader, Sees]

/-- At first nothing is read. -/
theorem Inv.new (db : Db) : (new db : RouteStore ι).Inv := by
  refine ⟨fun _ => rfl, ?_, ?_, ?_, ?_, ?_, fun hs => absurd rfl hs.1.1, fun _ => trivial⟩ <;>
    simp [RouteStore.new, Loader.new]

/-- Every step keeps the invariant. -/
theorem Inv.step [DecidableEq ι] {ws : ℤ} {s s' : RouteStore ι} {op : Op ι} (h : s.Inv)
    (hstep : (system ι ws).step s op s') : s'.Inv := by
  obtain ⟨hallowed, rfl⟩ := hstep
  cases op with
  | write db => exact ⟨h.empty, h.first, h.second, h.cleared, h.rows, h.filled, h.ready, h.reader⟩
  | clear =>
    obtain ⟨⟨changed, hpc⟩, _⟩ := hallowed
    exact h.clear hpc
  | query ok now => exact h.query ws hallowed
  | insert =>
    obtain ⟨rows, hfill⟩ := hallowed
    exact h.insertNext hfill
  | swap =>
    obtain ⟨⟨changed, hpc⟩, hfill, hreader⟩ := hallowed
    exact h.swap ws hpc hfill hreader
  | rdlock r modid cmdid => exact h.read r (show s.Sees (.locked modid cmdid) from hallowed.1)
  | find r => exact h.read r (h.reader r).next
  | copy r => exact h.read r (h.reader r).next
  | unlock r => exact h.read r (h.reader r).next

/-- It holds in every reachable state. -/
theorem reachable_inv [DecidableEq ι] {ws : ℤ} {s : RouteStore ι}
    (h : (system ι ws).Reachable s) : s.Inv :=
  h.invariant (fun _ ⟨db, heq⟩ => heq ▸ .new db) fun _ _ _ _ h hstep => h.step hstep

/-- `Loader.query` takes the whole reload for one step, and readers cannot tell. -/
theorem data_eq_loader [DecidableEq ι] {ws : ℤ} {s : RouteStore ι}
    (h : (system ι ws).Reachable s) (hs : s.Ready) : s.maps s.data = s.loader.data := by
  obtain ⟨hmap, hloader⟩ := (reachable_inv h).ready hs
  rw [hmap, hloader]

/-- A step other than `swap` leaves what readers see alone. -/
theorem step_data [DecidableEq ι] {ws : ℤ} {s s' : RouteStore ι} {op : Op ι}
    (hstep : (system ι ws).step s op s') (hop : op ≠ .swap) (hs : s.Ready) :
    s'.published = s.published ∧ s'.maps s'.data = s.maps s.data := by
  obtain ⟨hallowed, rfl⟩ := hstep
  cases op with
  | swap => exact absurd rfl hop
  | clear => exact ⟨rfl, update_tmpData s.maps s.data ∅⟩
  | insert =>
    obtain ⟨rows, hfill⟩ := hallowed
    have hne : s.loader.pc ≠ .rmAllChanges := fun hpc => by simp [hs.2 hpc] at hfill
    rw [apply, RouteStore.insertNext, hfill]
    cases rows with
    | nil => exact ⟨if_neg hne, rfl⟩
    | cons row rows =>
      refine ⟨rfl, ?_⟩
      rw [target, if_neg hne]
      exact update_tmpData s.maps s.data _
  | _ => exact ⟨rfl, rfl⟩

/-- A step moves no other reader. -/
theorem step_reader [DecidableEq ι] {ws : ℤ} {s s' : RouteStore ι} {op : Op ι}
    (hstep : (system ι ws).step s op s') {r : ι} (hr : op.reader ≠ some r) :
    s'.reader r = s.reader r := by
  obtain ⟨_, rfl⟩ := hstep
  cases op with
  | insert =>
    rw [apply, RouteStore.insertNext]
    split <;> rfl
  | rdlock r' modid cmdid => exact Function.update_of_ne (fun heq => hr (by rw [heq]; rfl)) _ _
  | find r' => exact Function.update_of_ne (fun heq => hr (by rw [heq]; rfl)) _ _
  | copy r' => exact Function.update_of_ne (fun heq => hr (by rw [heq]; rfl)) _ _
  | unlock r' => exact Function.update_of_ne (fun heq => hr (by rw [heq]; rfl)) _ _
  | _ => rfl

/-- `getHosts` copies the hosts that the published rows list for the module, each once. No step but
`swap` changes the published rows or the map that readers use, a failing query included. -/
theorem getHosts_snapshot [DecidableEq ι] {ws : ℤ} {s : RouteStore ι}
    (h : (system ι ws).Reachable s) :
    (∀ r modid cmdid hosts, s.reader r = .copied modid cmdid hosts →
      hosts.Nodup ∧ ∀ ip port : UInt32, packKey ip.toInt32 port.toInt32 ∈ hosts ↔
        ∃ row ∈ s.published, row.modid.toInt32 = modid ∧ row.cmdid.toInt32 = cmdid ∧
          row.serverip = ip ∧ row.serverport = port) ∧
    ∀ op s', (system ι ws).step s op s' →
      (∀ r, op.reader ≠ some r → s'.reader r = s.reader r) ∧
        (op ≠ .swap → s.Ready →
          s'.published = s.published ∧ s'.maps s'.data = s.maps s.data) := by
  refine ⟨fun r modid cmdid hosts hr => ?_,
    fun op s' hstep => ⟨fun r => step_reader hstep, step_data hstep⟩⟩
  have hinv := reachable_inv h
  have hsees := hinv.reader r
  rw [hr] at hsees
  obtain ⟨hs, rfl⟩ := hsees
  rw [(hinv.ready hs).1]
  exact RouteMap.getHosts_ofRows s.published modid cmdid

/-- A database with routes only. -/
def dbOf (routes : List RouteRow) (version : ℤ) : Db :=
  ⟨routes, version, [], [], Db.log_nil⟩

/-- A reload fails after it has cleared the map of the rows of the start. -/
def failedReload : List (Op Unit) :=
  [.write (dbOf [⟨1, 2, 10, 80⟩] 7), .query true 99, .query true 99, .insert, .insert,
    .query true 99, .write (dbOf [⟨1, 2, 11, 80⟩] 8), .query true 100, .clear,
    .query true 100, .insert, .insert, .swap, .query true 100, .query true 100, .query true 100,
    .write (dbOf [] 9), .query true 101, .clear, .query false 101, .rdlock () 1 2,
    .find (), .copy ()]

/-- The hosts of the last reload that succeeded are returned. -/
theorem getHosts_snapshot_failedReload : ∃ s : RouteStore Unit,
    (system Unit 10).Reachable s ∧
      s.reader () = .copied 1 2 [packKey 11 80] ∧ [packKey 11 80].Nodup ∧
        ∀ ip port : UInt32, packKey ip.toInt32 port.toInt32 ∈ [packKey 11 80] ↔
          ∃ row ∈ s.published, row.modid.toInt32 = 1 ∧ row.cmdid.toInt32 = 2 ∧
            row.serverip = ip ∧ row.serverport = port := by
  have hlegal : System.Legal Allowed (fun s op => s.apply 10 op) (new (dbOf [] 0))
      failedReload := by
    refine ⟨trivial, rfl, rfl, ⟨_, rfl⟩, ⟨_, rfl⟩, rfl, trivial, rfl, ⟨⟨_, rfl⟩, rfl⟩, rfl,
      ⟨_, rfl⟩, ⟨_, rfl⟩, ⟨⟨_, rfl⟩, rfl, fun _ => rfl⟩, rfl, rfl, rfl, trivial, rfl,
      ⟨⟨_, rfl⟩, rfl⟩, rfl, ⟨⟨⟨?_, ?_, ?_⟩, ?_⟩, rfl⟩, ⟨_, _, rfl⟩, ⟨_, _, _, rfl⟩, trivial⟩ <;>
      decide +kernel
  have hnew : (system Unit 10).Reachable (new (dbOf [] 0)) := .init ⟨_, rfl⟩
  have hstep : ∀ (s : RouteStore Unit) op,
      s.Allowed op → (system Unit 10).step s op (s.apply 10 op) := fun s op hok => ⟨hok, rfl⟩
  have h := hnew.foldl hstep hlegal
  have hr : (failedReload.foldl (fun s op => s.apply 10 op)
      (new (dbOf [] 0))).reader () = .copied 1 2 [packKey 11 80] := by
    decide +kernel
  exact ⟨_, h, hr, (getHosts_snapshot h).1 () 1 2 _ hr⟩

end RouteStore

end Elb
