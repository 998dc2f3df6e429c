import Elb.Common.Transition
import Elb.Dnsserver.Route

/-!
# Change notification

Reference: `dataLoader`, `Route::loadChanges` and `Route::rmChanges` in `dnsserver/src/Route.cc`.

A transaction leaves a row in `ChangeLog`, and the loader removes the row when it has pushed the
module. `Notified` says that it removes no other rows. It removes rows by their version, though,
which is a second: a transaction that is committed in the second of the version, after the routes
were read, loses its row as well.
-/

namespace Elb

open Transition

/-- Database and loader thread, with a history of what the loader saw and did: how many transactions
are in its two copies of the routes and were in the constructor's, whether `loadChanges` succeeded
in this iteration, the transactions whose modules were pushed after a swap that brought them, and
the rows that were deleted in the loop and at start-up. -/
structure Notifier where
  db : Db
  loader : Loader
  dataSeen : ℕ
  tmpSeen : ℕ
  firstSeen : ℕ
  loaded : Bool
  pushed : List ℕ
  deleted : List ChangeRow
  purged : List ChangeRow

namespace Notifier

/-- A transaction commits, or the loader makes a step. -/
inductive Op
  | commit (t : ModOperator)
  | query (ok : Bool) (now : ℤ)

/-- The transactions among the first `seen` that changed one of the modules. -/
def covered (seen : ℕ) (changes : List UInt64) (history : List ModOperator) : List ℕ :=
  (List.range seen).filter fun id => (history[id]?).any fun t => t.key ∈ changes

/-- A step of the loader, recorded. -/
def load (ws : ℤ) (ok : Bool) (now : ℤ) (s : Notifier) : Notifier :=
  let r := s.loader.query ws ok now s.db
  let s' := { s with db := r.1, loader := r.2 }
  match s.loader.pc with
  | .selectFirst =>
    if ok then
      { s' with dataSeen := s.db.history.length, firstSeen := s.db.history.length }
    else s'
  | .rmAllChanges => { s' with purged := if ok then s.db.changeLog else [] }
  | .reload _ => { s' with tmpSeen := if ok then s.db.history.length else 0 }
  | .swap _ => { s' with dataSeen := s.tmpSeen, tmpSeen := s.dataSeen }
  | .loadChanges => { s' with loaded := ok }
  | .push => { s' with pushed := s.pushed ++ covered s.dataSeen s.loader.changes s.db.history }
  | .rmChanges =>
    if ok then
      { s' with deleted :=
          s.deleted ++ s.db.changeLog.filter fun row => row.version ≤ s.loader.routeVersion }
    else s'
  | _ => s'

/-- One step. -/
def next (ws : ℤ) (s : Notifier) : Op → Notifier
  | .commit t => { s with db := s.db.commit t }
  | .query ok now => s.load ws ok now

/-- Seconds do not go back from one commit to the next. -/
def Allowed (s : Notifier) : Op → Prop
  | .commit t => ∀ t' ∈ s.db.history, t'.ts ≤ t.ts
  | .query _ _ => True

instance (s : Notifier) : ∀ op, Decidable (s.Allowed op)
  | .commit t => inferInstanceAs (Decidable (∀ t' ∈ s.db.history, t'.ts ≤ t.ts))
  | .query _ _ => inferInstanceAs (Decidable True)

/-- Runs of a new loader on any database. -/
def system (ws : ℤ) : System Notifier Op where
  init s := ∃ db, s = ⟨db, .new, 0, 0, 0, false, [], [], []⟩
  step s op s' := s.Allowed op ∧ s' = s.next ws op

/-- Every row that the loop deleted belongs to a module that was pushed after a swap that brought
the transaction, and every row that was purged at start-up to a transaction that the constructor
saw. -/
structure Notified (s : Notifier) : Prop where
  deleted : ∀ row ∈ s.deleted, row.id ∈ s.pushed
  purged : ∀ row ∈ s.purged, row.id < s.firstSeen

/-- A purge finds only transactions that the constructor saw. `rmChanges` comes after a
`loadChanges` that succeeded, and no transaction with a version that it deletes was committed since
the reload. -/
def DeletesSeen (s : Notifier) : Op → Prop
  | .commit _ => True
  | .query ok _ =>
    (s.loader.pc = .rmAllChanges → ok = true → ∀ row ∈ s.db.changeLog, row.id < s.dataSeen) ∧
      (s.loader.pc = .rmChanges → ok = true → s.loaded = true ∧
        ∀ row ∈ s.db.changeLog, row.version ≤ s.loader.routeVersion → row.id < s.dataSeen)

instance (s : Notifier) : ∀ op, Decidable (s.DeletesSeen op)
  | .commit _ => inferInstanceAs (Decidable True)
  | .query ok _ => inferInstanceAs (Decidable
    ((s.loader.pc = .rmAllChanges → ok = true → ∀ row ∈ s.db.changeLog, row.id < s.dataSeen) ∧
      (s.loader.pc = .rmChanges → ok = true → s.loaded = true ∧
        ∀ row ∈ s.db.changeLog, row.version ≤ s.loader.routeVersion → row.id < s.dataSeen)))

/-- What the loader knows at each of its steps. -/
structure Inv (s : Notifier) : Prop where
  dataSeen_le : s.dataSeen ≤ s.db.history.length
  tmpSeen_le : s.tmpSeen ≤ s.db.history.length
  first : s.loader.pc = .rmAllChanges → s.firstSeen = s.dataSeen
  loaded : s.loader.pc = .push → s.loaded = true → ∀ row ∈ s.db.changeLog,
    row.version ≤ s.loader.routeVersion → row.id < s.dataSeen → row.key ∈ s.loader.changes
  pushed : s.loader.pc = .rmChanges → s.loaded = true → ∀ row ∈ s.db.changeLog,
    row.version ≤ s.loader.routeVersion → row.id < s.dataSeen → row.id ∈ s.pushed
  purged_nil : s.loader.pc = .loadVersionFirst ∨ s.loader.pc = .selectFirst ∨
    s.loader.pc = .rmAllChanges → s.purged = []

/-! ## Steps -/

/-- A row of the log that was there when `loadChanges` read it is among the changes. -/
theorem key_mem_selectChanges {db : Db} {v : ℤ} {row : ChangeRow} (hrow : row ∈ db.changeLog)
    (hv : row.version ≤ v) : row.key ∈ db.selectChanges v :=
  List.mem_map_of_mem (List.mem_filter.mpr ⟨hrow, by simpa using hv⟩)

/-- A row of the log whose module is pushed after a swap that brought its transaction. -/
theorem id_mem_covered {db : Db} {seen : ℕ} {changes : List UInt64} {row : ChangeRow}
    (hrow : row ∈ db.changeLog) (hseen : row.id < seen) (hkey : row.key ∈ changes) :
    row.id ∈ covered seen changes db.history := by
  obtain ⟨t, ht, heq⟩ := Option.map_eq_some_iff.mp (db.log_mem row hrow)
  refine List.mem_filter.mpr ⟨List.mem_range.mpr hseen, ?_⟩
  rw [ht, Option.any_some, decide_eq_true_eq, heq]
  exact hkey

/-- A new row is behind everything that the loader has seen. -/
theorem Inv.commit {s : Notifier} (h : s.Inv) (t : ModOperator) :
    Inv { s with db := s.db.commit t } := by
  have hlen : s.db.history.length ≤ (s.db.commit t).history.length := by
    simp [Db.commit]
  -- the new row has the number of its transaction, which the loader has not seen
  have hold : ∀ row ∈ (s.db.commit t).changeLog, row.id < s.dataSeen → row ∈ s.db.changeLog := by
    intro row hrow hlt
    rcases List.mem_append.mp hrow with hrow | hrow
    · exact hrow
    · rw [List.mem_singleton.mp hrow] at hlt
      exact absurd hlt h.dataSeen_le.not_gt
  exact ⟨h.dataSeen_le.trans hlen, h.tmpSeen_le.trans hlen, h.first,
    fun hpc hl row hrow hv hlt => h.loaded hpc hl row (hold row hrow hlt) hv hlt,
    fun hpc hl row hrow hv hlt => h.pushed hpc hl row (hold row hrow hlt) hv hlt, h.purged_nil⟩

/-- At most steps the loader knows nothing but what it has seen. -/
theorem inv_of_pc {s : Notifier} (hdata : s.dataSeen ≤ s.db.history.length)
    (htmp : s.tmpSeen ≤ s.db.history.length)
    (hpc : s.loader.pc = .loadVersion ∨ s.loader.pc = .loadChanges ∨ s.loader.pc = .exited ∨
      ∃ changed, s.loader.pc = .reload changed ∨ s.loader.pc = .swap changed) : s.Inv := by
  have hno : s.loader.pc ≠ .rmAllChanges ∧ s.loader.pc ≠ .push ∧ s.loader.pc ≠ .rmChanges ∧
      s.loader.pc ≠ .loadVersionFirst ∧ s.loader.pc ≠ .selectFirst := by
    rcases hpc with heq | heq | heq | ⟨changed, heq | heq⟩ <;> simp [heq]
  obtain ⟨hall, hpush, hrm, hver, hsel⟩ := hno
  exact ⟨hdata, htmp, fun heq => absurd heq hall, fun heq => absurd heq hpush,
    fun heq => absurd heq hrm, fun heq => absurd heq (by simp [hall, hver, hsel])⟩

/-- Without a new version, the loader reloads or goes on to the next iteration. -/
theorem idle_pc (ws : ℤ) (l : Loader) :
    (l.idle ws).pc = .reload false ∨ (l.idle ws).pc = .loadVersion := by
  rw [Loader.idle]
  split
  · exact .inl rfl
  · exact .inr rfl

/-- A step of the loader keeps what it knows. -/
theorem Inv.load {s : Notifier} (h : s.Inv) (ws : ℤ) (ok : Bool) (now : ℤ) :
    (s.load ws ok now).Inv := by
  have hdata := h.dataSeen_le
  have htmp := h.tmpSeen_le
  cases hpc : s.loader.pc with
  | loadVersionFirst =>
    have hnil := h.purged_nil (.inl hpc)
    simp only [Notifier.load, Loader.query, hpc]
    split
    · exact ⟨hdata, htmp, by simp, by simp, by simp, fun _ => hnil⟩
    · exact inv_of_pc hdata htmp (by simp)
  | selectFirst =>
    have hnil := h.purged_nil (.inr (.inl hpc))
    simp only [Notifier.load, Loader.query, hpc]
    split
    · exact ⟨le_rfl, htmp, fun _ => rfl, by simp, by simp, fun _ => hnil⟩
    · exact inv_of_pc hdata htmp (by simp)
  | rmAllChanges =>
    simp only [Notifier.load, Loader.query, hpc]
    split <;> exact inv_of_pc hdata htmp (.inl rfl)
  | loadVersion =>
    simp only [Notifier.load, Loader.query, hpc]
    split
    · exact inv_of_pc hdata htmp (by simp)
    · refine inv_of_pc hdata htmp ?_
      rcases idle_pc ws { s.loader with currTs := now } with heq | heq
      · exact .inr (.inr (.inr ⟨false, .inl heq⟩))
      · exact .inl heq
  | reload changed =>
    simp only [Notifier.load, Loader.query, hpc]
    split
    · exact inv_of_pc hdata le_rfl (by simp)
    · -- a reload that fails leaves an empty map, the one before all transactions
      exact inv_of_pc hdata (Nat.zero_le _) (by simp)
  | swap changed =>
    simp only [Notifier.load, Loader.query, hpc]
    refine inv_of_pc htmp hdata ?_
    cases changed <;> simp
  | loadChanges =>
    simp only [Notifier.load, Loader.query, hpc]
    refine ⟨hdata, htmp, by simp, fun _ hl row hrow hv _ => ?_, by simp, by simp⟩
    -- if `loadChanges` fails, the changes are those of before, and nothing is claimed
    rw [if_pos hl]
    exact key_mem_selectChanges hrow hv
  | push =>
    simp only [Notifier.load, Loader.query, hpc]
    refine ⟨hdata, htmp, by simp, by simp, fun _ hl row hrow hv hlt => ?_, by simp⟩
    -- the push names the modules of all rows that `rmChanges` is going to delete
    exact List.mem_append_right _ (id_mem_covered hrow hlt (h.loaded hpc hl row hrow hv hlt))
  | rmChanges =>
    simp only [Notifier.load, Loader.query, hpc]
    split <;> exact inv_of_pc hdata htmp (.inl rfl)
  | exited =>
    simp only [Notifier.load, Loader.query, hpc]
    exact inv_of_pc hdata htmp (.inr (.inr (.inl hpc)))

/-- A step of the loader that deletes only rows that were pushed, or were seen at start-up. -/
theorem Notified.load {s : Notifier} (hn : s.Notified) (h : s.Inv) (ws : ℤ) {ok : Bool} {now : ℤ}
    (hc : s.DeletesSeen (.query ok now)) : (s.load ws ok now).Notified := by
  obtain ⟨hpurge, hrm⟩ := hc
  cases hpc : s.loader.pc with
  | rmAllChanges =>
    simp only [Notifier.load, Loader.query, hpc]
    refine ⟨hn.deleted, fun row hrow => ?_⟩
    split at hrow
    · next hok =>
      -- the purge at start-up follows the first reading of the table
      rw [h.first hpc]
      exact hpurge hpc hok row hrow
    · cases hrow
  | rmChanges =>
    simp only [Notifier.load, Loader.query, hpc]
    split
    · next hok =>
      obtain ⟨hl, hseen⟩ := hrm hpc hok
      refine ⟨fun row hrow => ?_, hn.purged⟩
      rcases List.mem_append.mp hrow with hrow | hrow
      · exact hn.deleted row hrow
      · -- a row that is deleted here has been seen, hence pushed
        obtain ⟨hrow, hv⟩ := List.mem_filter.mp hrow
        have hv' : row.version ≤ s.loader.routeVersion := by simpa using hv
        exact h.pushed hpc hl row hrow hv' (hseen row hrow hv')
    · exact ⟨hn.deleted, hn.purged⟩
  | push =>
    simp only [Notifier.load, Loader.query, hpc]
    exact ⟨fun row hrow => List.mem_append_left _ (hn.deleted row hrow), hn.purged⟩
  | selectFirst =>
    have hnil := h.purged_nil (.inr (.inl hpc))
    simp only [Notifier.load, Loader.query, hpc]
    split
    · exact ⟨hn.deleted, by simp [hnil]⟩
    · exact ⟨hn.deleted, hn.purged⟩
  | loadVersionFirst =>
    simp only [Notifier.load, hpc]
    exact ⟨hn.deleted, hn.purged⟩
  | loadVersion =>
    simp only [Notifier.load, hpc]
    exact ⟨hn.deleted, hn.purged⟩
  | reload changed =>
    simp only [Notifier.load, hpc]
    exact ⟨hn.deleted, hn.purged⟩
  | swap changed =>
    simp only [Notifier.load, hpc]
    exact ⟨hn.deleted, hn.purged⟩
  | loadChanges =>
    simp only [Notifier.load, hpc]
    exact ⟨hn.deleted, hn.purged⟩
  | exited =>
    simp only [Notifier.load, hpc]
    exact ⟨hn.deleted, hn.purged⟩

/-! ## Every run -/

/-- In every run whose deletions are such, no change goes without its notification. -/
theorem notified_of_deletesSeen {ws : ℤ} {s : Notifier}
    (h : ((system ws).restrict DeletesSeen).Reachable s) : s.Notified := by
  -- by induction on the run, with what the loader knows
  have hinv : s.Inv ∧ s.Notified := by
    refine h.invariant (P := fun s => s.Inv ∧ s.Notified) ?_ ?_
    · rintro _ ⟨db, rfl⟩
      exact ⟨⟨Nat.zero_le _, Nat.zero_le _, by simp [Loader.new], by simp [Loader.new],
        by simp [Loader.new], fun _ => rfl⟩, by simp, by simp⟩
    · rintro s op s' - ⟨hinv, hn⟩ ⟨hc, -, rfl⟩
      cases op with
      | commit t => exact ⟨hinv.commit t, hn.deleted, hn.purged⟩
      | query ok now => exact ⟨hinv.load ws ok now, hn.load hinv ws hc⟩
  exact hinv.2

/-- An empty database and a new loader. -/
def start : Notifier := ⟨⟨[], 0, [], [], by simp⟩, .new, 0, 0, 0, false, [], [], []⟩

/-- The constructor and the purge, then a host goes on line and the loader finds the new version. -/
def untilReload : List Op :=
  [.query true 99, .query true 99, .query true 99, .commit ⟨true, ⟨1, 2, 10, 80⟩, 100⟩,
    .query true 101, .query true 101]

/-- The rest of the iteration: `swap`, `loadChanges`, `push`, `rmChanges`. -/
def afterReload : List Op := [.query true 101, .query true 101, .query true 101, .query true 101]

/-- A list of events that meet a condition, from the start. -/
theorem foldl_reachable {C : Notifier → Op → Prop} {ops : List Op}
    (h : System.Legal (fun s op => C s op ∧ s.Allowed op) (next 10) start ops) :
    ((system 10).restrict C).Reachable (ops.foldl (next 10) start) := by
  have hinit : ((system 10).restrict C).Reachable start := .init ⟨_, rfl⟩
  refine hinit.foldl ?_ h
  rintro s op ⟨hc, hop⟩
  exact ⟨hc, hop, rfl⟩

/-- An iteration that nothing disturbs deletes the row that it pushed. -/
theorem notified_one_iteration :
    ((untilReload ++ afterReload).foldl (next 10) start).Notified :=
  notified_of_deletesSeen (foldl_reachable (by decide))

/-- A second host goes on line in the same second, after the routes were read. Its row is deleted,
and the routes that were pushed are without it. -/
theorem not_notified : ∃ s, (system 10).Reachable s ∧
    s.deleted = [⟨0, 1, 2, 100⟩, ⟨1, 1, 2, 100⟩] ∧ s.pushed = [0] ∧ ¬s.Notified := by
  have h : ((system 10).restrict fun _ _ => True).Reachable
      ((untilReload ++ .commit ⟨true, ⟨1, 2, 20, 80⟩, 100⟩ :: afterReload).foldl (next 10) start) :=
    foldl_reachable (by decide)
  exact ⟨_, h.of_restrict, by decide, by decide,
    fun hn => absurd (hn.deleted ⟨1, 1, 2, 100⟩ (by decide)) (by decide)⟩

end Notifier

end Elb
