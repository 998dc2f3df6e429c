import Elb.Common.EditLog
import Elb.Dnsserver.ChangeLog
import Elb.Dnsserver.Server
import Elb.Dnsserver.Snapshot

/-!
# What is left to announce

Reference: `mod-manager/ModOperator.py`; `dataLoader`, `Route::reload`, `Route::swap` and
`Route::loadChanges` in `dnsserver/src/Route.cc`.

The table of the routes is what the transactions make of it, and the routes in memory are those of
the first so many transactions. If a swap alters a module, then it has brought a transaction about
the module, and when the loader has pushed all that it has brought, nothing is left to announce. An
iteration that finds a new version and that nothing disturbs gets that far.
-/

namespace Elb

open Transition

/-! ## The table of the routes -/

/-- The transaction as an edit of `DnsServerRoute`. -/
def ModOperator.edit (t : ModOperator) : EditLog.Edit RouteRow := ⟨t.online, t.row⟩

/-- The rows that the transactions leave of an empty table. -/
def routesAfter (txs : List ModOperator) : List RouteRow :=
  EditLog.replay (txs.map ModOperator.edit)

/-- The last transaction about the host, as agents and clients read its columns, put it on line for
the module. -/
def OnLine (txs : List ModOperator) (modid cmdid : Int32) (host : HostAddr) : Prop :=
  ∃ row, EditLog.Inserted (txs.map ModOperator.edit) row ∧ row.modid.toInt32 = modid ∧
    row.cmdid.toInt32 = cmdid ∧ hostOf row.value = host

/-- The hosts in memory are those on line, if the rows are what the transactions leave. -/
theorem mem_getHosts_iff_onLine (txs : List ModOperator) (modid cmdid : Int32) (host : HostAddr) :
    host ∈ ((RouteMap.ofRows (routesAfter txs)).getHosts modid cmdid).map hostOf ↔
      OnLine txs modid cmdid host := by
  rw [List.mem_map]
  -- on both sides there is a row, once found in the table and once in the transactions
  constructor
  · rintro ⟨value, hvalue, rfl⟩
    obtain ⟨row, hrow, hkey, rfl⟩ := RouteMap.mem_getHosts_ofRows.mp hvalue
    obtain ⟨hm, hk⟩ := packKey_inj hkey
    exact ⟨row, (EditLog.mem_replay _ row).mp hrow, hm, hk, rfl⟩
  · rintro ⟨row, hrow, rfl, rfl, rfl⟩
    exact ⟨row.value, RouteMap.mem_getHosts_ofRows.mpr
      ⟨row, (EditLog.mem_replay _ row).mpr hrow, rfl, rfl⟩, rfl⟩

/-- Maps that differ in a module come from rows that do. -/
theorem exists_row_of_alters {rows rows' : List RouteRow} {key : UInt64}
    (h : alters (.ofRows rows) (.ofRows rows') key = true) :
    ∃ row : RouteRow, moduleKey row.modid row.cmdid = key ∧ ¬(row ∈ rows ↔ row ∈ rows') := by
  obtain ⟨modid, cmdid, rfl⟩ := packKey_surj key
  by_contra hno
  have hsame : ∀ value, value ∈ (RouteMap.ofRows rows).getHosts modid cmdid ↔
      value ∈ (RouteMap.ofRows rows').getHosts modid cmdid := by
    intro value
    rw [RouteMap.mem_getHosts_ofRows, RouteMap.mem_getHosts_ofRows]
    refine exists_congr fun row => and_congr_left fun hrow => ?_
    by_contra hdiff
    exact hno ⟨row, hrow.1, hdiff⟩
  -- `alters` compares the hosts of the module as sets
  rw [alters, Bool.not_eq_true', decide_eq_false_iff_not] at h
  exact h ⟨fun value hmem => (hsame value).mp hmem, fun value hmem => (hsame value).mpr hmem⟩

/-- If more transactions make a difference to a module, then one of them is about it. -/
theorem exists_key_of_alters {txs : List ModOperator} {a b : ℕ} (hab : a ≤ b) {key : UInt64}
    (h : alters (.ofRows (routesAfter (txs.take a))) (.ofRows (routesAfter (txs.take b))) key =
      true) :
    ∃ id, a ≤ id ∧ id < b ∧ (txs[id]?).map ModOperator.key = some key := by
  obtain ⟨row, rfl, hdiff⟩ := exists_row_of_alters h
  by_contra hno
  refine hdiff ?_
  -- the later transactions are the first `a` and `n` more, none of which is about the row
  obtain ⟨n, rfl⟩ := Nat.exists_eq_add_of_le hab
  rw [routesAfter, routesAfter, EditLog.mem_replay, EditLog.mem_replay, List.take_add,
    List.map_append, EditLog.inserted_append]
  intro e he hrow
  obtain ⟨t, ht, rfl⟩ := List.mem_map.mp he
  obtain ⟨i, hi, hget⟩ := List.mem_take_iff_getElem.mp ht
  rw [List.getElem_drop] at hget
  refine hno ⟨a + i, Nat.le_add_right a i, by omega, ?_⟩
  have hrow : t.row = row := hrow
  rw [List.getElem?_eq_getElem (by simp at hi; omega), hget, Option.map_some, ModOperator.key, hrow]

/-! ## The database -/

/-- Nothing but transactions has written to the database, and rows of the log that are left have the
seconds of theirs. -/
structure Db.Recorded (db : Db) : Prop where
  routes : db.routes = routesAfter db.history
  version : ∀ row ∈ db.changeLog, (db.history[row.id]?).map ModOperator.ts = some row.version

/-- A transaction writes its row and one of the log. -/
theorem Db.Recorded.commit {db : Db} (h : db.Recorded) (t : ModOperator) :
    (db.commit t).Recorded := by
  refine ⟨?_, fun row hrow => ?_⟩
  · rw [routesAfter, Db.commit, List.map_append, EditLog.replay, List.foldl_append,
      ← EditLog.replay, ← routesAfter, ← h.routes]
    rfl
  · -- a row that is in the log has its transaction in the history, which only grows
    rcases List.mem_append.mp hrow with hrow | hrow
    · have hold := h.version row hrow
      obtain ⟨t', ht', -⟩ := Option.map_eq_some_iff.mp hold
      have hlt := (List.getElem?_eq_some_iff.mp ht').1
      rw [Db.commit, List.getElem?_append_left hlt, hold]
    · rw [List.mem_singleton.mp hrow]
      simp [Db.commit]

/-- Queries leave the database as it is, or delete from the log. -/
theorem Loader.query_db (ws : ℤ) (ok : Bool) (now : ℤ) (db : Db) (l : Loader) :
    (l.query ws ok now db).1 = db ∨ ∃ p, (l.query ws ok now db).1 = db.deleteChanges p := by
  rw [Loader.query]
  cases l.pc with
  | rmAllChanges =>
    cases ok with
    | true => exact .inr ⟨_, rfl⟩
    | false => exact .inl rfl
  | rmChanges =>
    cases ok with
    | true => exact .inr ⟨_, rfl⟩
    | false => exact .inl rfl
  | loadVersionFirst => cases ok <;> exact .inl rfl
  | selectFirst => cases ok <;> exact .inl rfl
  | reload changed => cases ok <;> exact .inl rfl
  | loadVersion =>
    dsimp only
    split <;> exact .inl rfl
  | _ => exact .inl rfl

/-- A query writes no row. -/
theorem Db.Recorded.query {db : Db} (h : db.Recorded) (ws : ℤ) (ok : Bool) (now : ℤ) (l : Loader) :
    (l.query ws ok now db).1.Recorded := by
  rcases l.query_db ws ok now db with heq | ⟨p, heq⟩ <;> rw [heq]
  · exact h
  · exact ⟨h.routes, fun row hrow => h.version row (List.mem_of_mem_filter hrow)⟩

namespace Notifier

variable {s : Notifier}

/-! ## What the loader has taken in -/

/-- The routes in memory are those of the transactions that were seen. -/
structure Taken (s : Notifier) : Prop where
  recorded : s.db.Recorded
  data : s.loader.data = .ofRows (routesAfter (s.db.history.take s.dataSeen))
  tmpData : ∀ changed, s.loader.pc = .swap changed → s.dataSeen ≤ s.tmpSeen ∧
    s.loader.tmpData = .ofRows (routesAfter (s.db.history.take s.tmpSeen))
  first : s.firstSeen ≤ s.dataSeen
  pushed : ∀ id ∈ s.pushed, id < s.dataSeen

/-- A new transaction is behind all that were seen. -/
theorem Taken.commit (h : s.Taken) (hinv : s.Inv) (t : ModOperator) :
    Taken { s with db := s.db.commit t } := by
  have htake : ∀ seen ≤ s.db.history.length,
      (s.db.commit t).history.take seen = s.db.history.take seen := fun seen hle =>
    List.take_append_of_le_length hle
  refine ⟨h.recorded.commit t, ?_, fun changed hpc => ?_, h.first, h.pushed⟩
  · rw [htake _ hinv.dataSeen_le]
    exact h.data
  · rw [htake _ hinv.tmpSeen_le]
    exact h.tmpData changed hpc

/-- Database and loader after a step are those of `Loader.query`. -/
theorem load_db (s : Notifier) (ws : ℤ) (ok : Bool) (now : ℤ) :
    (s.load ws ok now).db = (s.loader.query ws ok now s.db).1 ∧
      (s.load ws ok now).loader = (s.loader.query ws ok now s.db).2 := by
  unfold Notifier.load
  cases s.loader.pc with
  | selectFirst => cases ok <;> exact ⟨rfl, rfl⟩
  | rmChanges => cases ok <;> exact ⟨rfl, rfl⟩
  | _ => exact ⟨rfl, rfl⟩

/-- What a step of the loader can do: the constructor reads the table, `reload` reads it into the
other copy, `swap` puts that one in place, `push` names modules, and the rest leave the routes and
what was pushed alone. -/
inductive Loads (s : Notifier) (ok : Bool) (s' : Notifier) : Prop
  | first (hpc : s.loader.pc = .selectFirst) (hpc' : s'.loader.pc = .rmAllChanges)
      (hdata : s'.loader.data = .ofRows s.db.routes) (hseen : s'.dataSeen = s.db.history.length)
      (hfirst : s'.firstSeen = s.db.history.length) (hpushed : s'.pushed = s.pushed)
  | reload {changed : Bool} (hok : ok = true) (hpc : s.loader.pc = .reload changed)
      (hpc' : s'.loader.pc = .swap changed) (htmp : s'.loader.tmpData = .ofRows s.db.routes)
      (htmpSeen : s'.tmpSeen = s.db.history.length) (hdata : s'.loader.data = s.loader.data)
      (hseen : s'.dataSeen = s.dataSeen) (hfirst : s'.firstSeen = s.firstSeen)
      (hpushed : s'.pushed = s.pushed)
  | swap {changed : Bool} (hpc : s.loader.pc = .swap changed)
      (hpc' : s'.loader.pc = if changed then .loadChanges else .loadVersion)
      (hdata : s'.loader.data = s.loader.tmpData) (hseen : s'.dataSeen = s.tmpSeen)
      (hfirst : s'.firstSeen = s.firstSeen) (hpushed : s'.pushed = s.pushed)
  | push (hpc : s.loader.pc = .push) (hpc' : s'.loader.pc = .rmChanges)
      (hdata : s'.loader.data = s.loader.data) (hseen : s'.dataSeen = s.dataSeen)
      (hfirst : s'.firstSeen = s.firstSeen)
      (hpushed : s'.pushed = s.pushed ++ covered s.dataSeen s.loader.changes s.db.history)
  | other (hpc : (∀ changed, s.loader.pc ≠ .swap changed) ∧ s.loader.pc ≠ .push)
      (hpc' : ∀ changed, s'.loader.pc ≠ .swap changed)
      (hdata : s'.loader.data = s.loader.data) (hseen : s'.dataSeen = s.dataSeen)
      (hfirst : s'.firstSeen = s.firstSeen) (hpushed : s'.pushed = s.pushed)

/-- Every step of the loader is one of these. -/
theorem loads (s : Notifier) (ws : ℤ) (ok : Bool) (now : ℤ) :
    Loads s ok (s.load ws ok now) := by
  cases hpc : s.loader.pc with
  | selectFirst =>
    cases ok with
    | true => refine .first hpc ?_ ?_ ?_ ?_ ?_ <;> simp [Notifier.load, Loader.query, hpc]
    | false =>
      refine .other (by simp [hpc]) ?_ ?_ ?_ ?_ ?_ <;> simp [Notifier.load, Loader.query, hpc]
  | reload changed =>
    cases ok with
    | true =>
      refine .reload rfl hpc ?_ ?_ ?_ ?_ ?_ ?_ ?_ <;> simp [Notifier.load, Loader.query, hpc]
    | false =>
      refine .other (by simp [hpc]) ?_ ?_ ?_ ?_ ?_ <;> simp [Notifier.load, Loader.query, hpc]
  | swap changed =>
    refine .swap hpc ?_ ?_ ?_ ?_ ?_ <;> simp [Notifier.load, Loader.query, hpc]
  | push =>
    refine .push hpc ?_ ?_ ?_ ?_ ?_ <;> simp [Notifier.load, Loader.query, hpc]
  | loadVersionFirst =>
    refine .other (by simp [hpc]) ?_ ?_ ?_ ?_ ?_ <;>
      cases ok <;> simp [Notifier.load, Loader.query, hpc]
  | rmAllChanges =>
    refine .other (by simp [hpc]) ?_ ?_ ?_ ?_ ?_ <;> simp [Notifier.load, Loader.query, hpc]
  | rmChanges =>
    refine .other (by simp [hpc]) ?_ ?_ ?_ ?_ ?_ <;>
      cases ok <;> simp [Notifier.load, Loader.query, hpc]
  | loadVersion =>
    refine .other (by simp [hpc]) ?_ ?_ ?_ ?_ ?_
    all_goals simp only [Notifier.load, Loader.query, hpc, Loader.idle]
    all_goals split
    all_goals try split
    all_goals simp
  | _ => refine .other (by simp [hpc]) ?_ ?_ ?_ ?_ ?_ <;> simp [Notifier.load, Loader.query, hpc]

/-- The transactions are the database's only. -/
theorem load_history (s : Notifier) (ws : ℤ) (ok : Bool) (now : ℤ) :
    (s.load ws ok now).db.history = s.db.history := by
  rw [(s.load_db ws ok now).1]
  rcases s.loader.query_db ws ok now s.db with heq | ⟨p, heq⟩ <;> rw [heq]
  rfl

/-- A step of the loader, constructor by constructor. -/
theorem Taken.load (h : s.Taken) (hinv : s.Inv) (ws : ℤ) (ok : Bool) (now : ℤ) :
    (s.load ws ok now).Taken := by
  have hrecorded : (s.load ws ok now).db.Recorded := by
    rw [(s.load_db ws ok now).1]
    exact h.recorded.query ws ok now s.loader
  have hall : s.db.routes = routesAfter (s.db.history.take s.db.history.length) := by
    rw [List.take_length]
    exact h.recorded.routes
  have hhist := s.load_history ws ok now
  cases s.loads ws ok now with
  | first hpc hpc' hdata hseen hfirst hpushed =>
    refine ⟨hrecorded, ?_, by simp [hpc'], by rw [hfirst, hseen], fun id hid => ?_⟩
    · rw [hdata, hhist, hseen, hall]
    · rw [hseen]
      exact (h.pushed id (hpushed ▸ hid)).trans_le hinv.dataSeen_le
  | reload hok hpc hpc' htmp htmpSeen hdata hseen hfirst hpushed =>
    refine ⟨hrecorded, ?_, fun changed _ => ⟨?_, ?_⟩, ?_, ?_⟩
    · rw [hdata, hhist, hseen]
      exact h.data
    · rw [hseen, htmpSeen]
      exact hinv.dataSeen_le
    · rw [htmp, hhist, htmpSeen, hall]
    · rw [hfirst, hseen]
      exact h.first
    · rw [hseen, hpushed]
      exact h.pushed
  | swap hpc hpc' hdata hseen hfirst hpushed =>
    obtain ⟨hle, htmp⟩ := h.tmpData _ hpc
    refine ⟨hrecorded, ?_, fun changed hswap => ?_, ?_, fun id hid => ?_⟩
    · rw [hdata, hhist, hseen, htmp]
    · rw [hpc'] at hswap
      split at hswap <;> cases hswap
    · rw [hfirst, hseen]
      exact h.first.trans hle
    · rw [hseen]
      exact (h.pushed id (hpushed ▸ hid)).trans_le hle
  | push hpc hpc' hdata hseen hfirst hpushed =>
    refine ⟨hrecorded, ?_, by simp [hpc'], ?_, fun id hid => ?_⟩
    · rw [hdata, hhist, hseen]
      exact h.data
    · rw [hfirst, hseen]
      exact h.first
    · rw [hseen]
      rcases List.mem_append.mp (hpushed ▸ hid) with hid | hid
      · exact h.pushed id hid
      · exact List.mem_range.mp (List.mem_of_mem_filter hid)
  | other hpc hpc' hdata hseen hfirst hpushed =>
    refine ⟨hrecorded, ?_, fun changed heq => absurd heq (hpc' changed), ?_, ?_⟩
    · rw [hdata, hhist, hseen]
      exact h.data
    · rw [hfirst, hseen]
      exact h.first
    · rw [hseen, hpushed]
      exact h.pushed

/-! ## What is left to push -/

/-- A transaction about the module has been taken in since the start and was not pushed. -/
def Owes (s : Notifier) (key : UInt64) : Prop :=
  ∃ id, s.firstSeen ≤ id ∧ id < s.dataSeen ∧ (s.db.history[id]?).map ModOperator.key = some key ∧
    id ∉ s.pushed

/-- Everything that was taken in since the start was pushed. -/
def Announced (s : Notifier) : Prop :=
  ∀ id, s.firstSeen ≤ id → id < s.dataSeen → id ∈ s.pushed

/-- Then no module is owed a push. -/
theorem Announced.not_owes (h : s.Announced) (key : UInt64) : ¬s.Owes key :=
  fun ⟨id, hfirst, hlt, _, hno⟩ => hno (h id hfirst hlt)

/-- A push that is owed stays so when others commit. -/
theorem Owes.commit {key : UInt64} (h : s.Owes key) (t : ModOperator) :
    Owes { s with db := s.db.commit t } key := by
  obtain ⟨id, hfirst, hlt, hkey, hno⟩ := h
  refine ⟨id, hfirst, hlt, ?_, hno⟩
  obtain ⟨t', ht', -⟩ := Option.map_eq_some_iff.mp hkey
  have hid := (List.getElem?_eq_some_iff.mp ht').1
  rw [Db.commit, List.getElem?_append_left hid, hkey]

/-- A module stays owed until a push names it. -/
theorem Owes.load {key : UInt64} (h : s.Owes key) (ht : s.Taken)
    (hpc : s.loader.pc ≠ .selectFirst) (hpush : s.loader.pc = .push → key ∉ s.loader.changes)
    (ws : ℤ) (ok : Bool) (now : ℤ) : (s.load ws ok now).Owes key := by
  obtain ⟨id, hid, hlt, hkey, hno⟩ := h
  rw [Owes, s.load_history ws ok now]
  cases s.loads ws ok now with
  | first heq => exact absurd heq hpc
  | reload _ _ _ _ _ _ hseen hfirst hpushed =>
    exact ⟨id, hfirst ▸ hid, hseen ▸ hlt, hkey, hpushed ▸ hno⟩
  | swap heq _ _ hseen hfirst hpushed =>
    exact ⟨id, hfirst ▸ hid, hseen ▸ hlt.trans_le (ht.tmpData _ heq).1, hkey, hpushed ▸ hno⟩
  | push heq _ _ hseen hfirst hpushed =>
    refine ⟨id, hfirst ▸ hid, hseen ▸ hlt, hkey, fun hmem => ?_⟩
    rcases List.mem_append.mp (hpushed ▸ hmem) with hmem | hmem
    · exact hno hmem
    · -- what is pushed now is among the changes
      obtain ⟨t, hget, rfl⟩ := Option.map_eq_some_iff.mp hkey
      have hany := (List.mem_filter.mp hmem).2
      rw [hget, Option.any_some, decide_eq_true_eq] at hany
      exact hpush heq hany
  | other _ _ _ hseen hfirst hpushed =>
    exact ⟨id, hfirst ▸ hid, hseen ▸ hlt, hkey, hpushed ▸ hno⟩

/-- A module that a swap alters is owed. -/
theorem Taken.owes_of_swap (h : s.Taken) {changed : Bool} (hpc : s.loader.pc = .swap changed)
    {key : UInt64} (halters : alters s.loader.data s.loader.tmpData key = true) (ws : ℤ)
    (ok : Bool) (now : ℤ) : (s.load ws ok now).Owes key := by
  obtain ⟨hle, htmp⟩ := h.tmpData _ hpc
  rw [h.data, htmp] at halters
  obtain ⟨id, hid, hlt, hkey⟩ := exists_key_of_alters hle halters
  have hno : id ∉ s.pushed := fun hmem => (h.pushed id hmem).not_ge hid
  refine ⟨id, ?_, ?_, ?_, ?_⟩
  · simpa [Notifier.load, hpc] using h.first.trans hid
  · simpa [Notifier.load, hpc] using hlt
  · rwa [s.load_history ws ok now]
  · simpa [Notifier.load, hpc] using hno

/-! ## An iteration that nothing disturbs -/

/-- What was not pushed since the start is still in the log. -/
def Kept (s : Notifier) : Prop :=
  ∀ id, s.firstSeen ≤ id → id < s.db.history.length →
    id ∈ s.pushed ∨ ∃ row ∈ s.db.changeLog, row.id = id

/-- A commit adds a row to the log and takes none away. -/
theorem Kept.commit (h : s.Kept) (t : ModOperator) : Kept { s with db := s.db.commit t } := by
  intro id hid hlt
  rw [Db.commit, List.length_append, List.length_singleton] at hlt
  rcases Nat.lt_succ_iff_lt_or_eq.mp hlt with hlt | rfl
  · refine (h id hid hlt).imp_right ?_
    rintro ⟨row, hrow, heq⟩
    exact ⟨row, List.mem_append_left _ hrow, heq⟩
  · exact .inr ⟨_, List.mem_append_right _ List.mem_cons_self, rfl⟩

/-- The constructor is through before the loop starts. -/
theorem booted_of_load {ws : ℤ} {ok : Bool} {now : ℤ} (h : (s.load ws ok now).loader.Booted) :
    s.loader.Booted ∨ s.loader.pc = .selectFirst ∧ ok = true := by
  rw [(s.load_db ws ok now).2, Loader.query] at h
  cases hpc : s.loader.pc with
  | loadVersionFirst =>
    rw [hpc] at h
    cases ok <;> simp [Loader.Booted] at h
  | selectFirst =>
    rw [hpc] at h
    cases ok with
    | true => exact .inr ⟨rfl, rfl⟩
    | false => simp [Loader.Booted] at h
  | exited =>
    rw [hpc] at h
    exact absurd hpc h.2.2
  | _ => exact .inl (by simp [Loader.Booted, hpc])

/-- Deletions of rows that were pushed, or seen at the start, lose nothing. -/
theorem Kept.load (h : s.loader.Booted → s.Kept) (hinv : s.Inv) {ws : ℤ} {ok : Bool} {now : ℤ}
    (hc : s.DeletesSeen (.query ok now)) (hboot : (s.load ws ok now).loader.Booted) :
    (s.load ws ok now).Kept := by
  obtain ⟨hpurge, hrm⟩ := hc
  rcases booted_of_load hboot with hboot | ⟨hpc, rfl⟩
  · have hkept := h hboot
    cases hpc : s.loader.pc with
    | rmAllChanges =>
      simp only [Notifier.load, Loader.query, hpc]
      split
      · next hok =>
        intro id hid hlt
        refine .inl ((hkept id hid hlt).resolve_right ?_)
        rintro ⟨row, hrow, rfl⟩
        have hseen := hpurge hpc hok row hrow
        rw [← hinv.first hpc] at hseen
        exact absurd hid hseen.not_ge
      · exact hkept
    | rmChanges =>
      simp only [Notifier.load, Loader.query, hpc]
      split
      · next hok =>
        obtain ⟨hl, hseen⟩ := hrm hpc hok
        intro id hid hlt
        rcases hkept id hid hlt with hmem | ⟨row, hrow, rfl⟩
        · exact .inl hmem
        · by_cases hv : row.version ≤ s.loader.routeVersion
          · exact .inl (hinv.pushed hpc hl row hrow hv (hseen row hrow hv))
          · exact .inr ⟨row, List.mem_filter.mpr ⟨hrow, by simpa using hv⟩, rfl⟩
      · exact hkept
    | push =>
      simp only [Notifier.load, Loader.query, hpc]
      exact fun id hid hlt => (hkept id hid hlt).imp_left (List.mem_append_left _)
    | loadVersionFirst => exact absurd hpc hboot.1
    | selectFirst => exact absurd hpc hboot.2.1
    | exited => exact absurd hpc hboot.2.2
    | loadVersion =>
      simp only [Notifier.load, Loader.query, hpc]
      split <;> exact hkept
    | reload changed =>
      simp only [Notifier.load, Loader.query, hpc]
      cases ok <;> exact hkept
    | _ =>
      simp only [Notifier.load, Loader.query, hpc]
      exact hkept
  · -- the constructor sees everything
    intro id hid hlt
    rw [s.load_history ws true now] at hlt
    simp only [Notifier.load, hpc] at hid
    exact absurd hid hlt.not_ge

/-- Whatever is not pushed yet has a row that the iteration reads. -/
structure Due (s : Notifier) : Prop where
  kept : s.Kept
  version : ∀ row ∈ s.db.changeLog, row.version ≤ s.loader.routeVersion

/-- The loader has taken in and pushed all that was committed. -/
structure UpToDate (s : Notifier) : Prop where
  dataSeen : s.dataSeen = s.db.history.length
  announced : s.Announced

/-- How far the loader is with an iteration that finds a new version. -/
def Stage : ℕ → Notifier → Prop
  | 0, s => s.loader.pc = .loadVersion ∧ s.db.version ≠ s.loader.routeVersion ∧ s.Kept ∧
      ∀ row ∈ s.db.changeLog, row.version ≤ s.db.version
  | 1, s => s.loader.pc = .reload true ∧ s.Due
  | 2, s => s.loader.pc = .swap true ∧ s.tmpSeen = s.db.history.length ∧ s.Due
  | 3, s => s.loader.pc = .loadChanges ∧ s.dataSeen = s.db.history.length ∧ s.Due
  | 4, s => s.loader.pc = .push ∧ s.loaded = true ∧ s.dataSeen = s.db.history.length ∧ s.Due
  | _ + 5, s => s.UpToDate

/-- Only a commit brings the loader behind again. -/
theorem UpToDate.load (h : s.UpToDate) (hinv : s.Inv) (ht : s.Taken) (ws : ℤ) (ok : Bool)
    (now : ℤ) : (s.load ws ok now).UpToDate := by
  obtain ⟨hdata, hann⟩ := h
  have hhist := s.load_history ws ok now
  cases s.loads ws ok now with
  | first _ _ _ hseen hfirst =>
    refine ⟨by rw [hseen, hhist], fun id hid hlt => ?_⟩
    rw [hseen, ← hfirst] at hlt
    exact absurd hid hlt.not_ge
  | reload _ _ _ _ _ _ hseen hfirst hpushed =>
    refine ⟨by rw [hseen, hhist, hdata], fun id hid hlt => ?_⟩
    exact hpushed ▸ hann id (hfirst ▸ hid) (hseen ▸ hlt)
  | swap hpc _ _ hseen hfirst hpushed =>
    -- the copy that is swapped in is not older than the one before
    have hle := (ht.tmpData _ hpc).1
    have htmp : s.tmpSeen = s.dataSeen := by
      have := hinv.tmpSeen_le
      omega
    refine ⟨by rw [hseen, hhist, htmp, hdata], fun id hid hlt => ?_⟩
    rw [hseen, htmp] at hlt
    exact hpushed ▸ hann id (hfirst ▸ hid) hlt
  | push _ _ _ hseen hfirst hpushed =>
    refine ⟨by rw [hseen, hhist, hdata], fun id hid hlt => ?_⟩
    exact hpushed ▸ List.mem_append_left _ (hann id (hfirst ▸ hid) (hseen ▸ hlt))
  | other _ _ _ hseen hfirst hpushed =>
    refine ⟨by rw [hseen, hhist, hdata], fun id hid hlt => ?_⟩
    exact hpushed ▸ hann id (hfirst ▸ hid) (hseen ▸ hlt)

/-- A query that succeeds leads to the next stage. -/
theorem Stage.load {k : ℕ} (h : Stage k s) (hinv : s.Inv) (ht : s.Taken) (ws now : ℤ) :
    Stage (k + 1) (s.load ws true now) := by
  match k, h with
  | 0, ⟨hpc, hver, hkept, hle⟩ =>
    have hnew : (true && s.db.version != s.loader.routeVersion) = true := by simpa using hver
    simp only [Notifier.load, Loader.query, hpc, hnew, if_true]
    exact ⟨rfl, hkept, hle⟩
  | 1, ⟨hpc, hdue⟩ =>
    simp only [Notifier.load, Loader.query, hpc, if_true]
    exact ⟨rfl, rfl, hdue.kept, hdue.version⟩
  | 2, ⟨hpc, htmp, hdue⟩ =>
    simp only [Notifier.load, Loader.query, hpc, if_true]
    exact ⟨rfl, htmp, hdue.kept, hdue.version⟩
  | 3, ⟨hpc, hseen, hdue⟩ =>
    simp only [Notifier.load, Loader.query, hpc, if_true]
    exact ⟨rfl, rfl, hseen, hdue.kept, hdue.version⟩
  | 4, ⟨hpc, hl, hseen, hdue⟩ =>
    -- each row that is left names a module that is pushed now
    simp only [Notifier.load, Loader.query, hpc]
    refine ⟨hseen, fun id hid hlt => ?_⟩
    rcases hdue.kept id hid (hlt.trans_eq hseen) with hmem | ⟨row, hrow, rfl⟩
    · exact List.mem_append_left _ hmem
    · have hkey := hinv.loaded hpc hl row hrow (hdue.version row hrow) hlt
      exact List.mem_append_right _ (id_mem_covered hrow hlt hkey)
  | _ + 5, h => exact UpToDate.load h hinv ht ws true now

end Notifier

end Elb
