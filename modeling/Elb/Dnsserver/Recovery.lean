import Elb.Common.Transition
import Elb.Dnsserver.ChangeLog

/-!
# A change whose reload fails

Reference: `dataLoader`, `Route::loadVersion` and `Route::reload` in `dnsserver/src/Route.cc`.

`loadVersion` takes the new version over before `reload` is tried. When the reload fails, the next
iteration finds no new version and goes the way that pushes nothing; the rows stay in `ChangeLog`
until a transaction of another second comes. The other branch does better: it notes the time of its
reload only when it has succeeded, and so tries again.
-/

namespace Elb

open Transition

/-- Database and loader, with a history: whether the reload of a change has failed and no iteration
has got through since; for the present iteration, whether its queries have succeeded so far, the
rows that were in the log for the version that it read, and the modules it pushed; and the rows that
the first iteration to get through did not push. -/
structure Recovery where
  db : Db
  loader : Loader
  pending : Bool
  clean : Bool
  due : List ChangeRow
  pushed : List UInt64
  missed : List ChangeRow

/-- The rows of `ChangeLog` with `version <= RouteVersion.version`. -/
def Db.dueRows (db : Db) : List ChangeRow := db.changeLog.filter fun row => row.version ≤ db.version

namespace Recovery

open Notifier (Op)

/-- The end of an iteration that was not cut short. -/
def finish (s : Recovery) : Recovery :=
  if s.pending && s.clean then
    { s with
      pending := false
      missed := s.missed ++ s.due.filter fun row => row.key ∉ s.pushed }
  else s

/-- A step of the loader, recorded. -/
def load (ws : ℤ) (ok : Bool) (now : ℤ) (s : Recovery) : Recovery :=
  let r := s.loader.query ws ok now s.db
  let s' := { s with db := r.1, loader := r.2 }
  match s.loader.pc with
  | .loadVersion =>
    let s' := { s' with clean := ok, due := s.db.dueRows, pushed := [] }
    if r.2.pc = .loadVersion then s'.finish else s'
  | .reload changed => if ok then s' else { s' with pending := s.pending || changed }
  | .swap false => s'.finish
  | .loadChanges => { s' with clean := s.clean && ok }
  | .push => { s' with pushed := s.loader.changes }
  | .rmChanges => { s' with clean := s.clean && ok }.finish
  | _ => s'

/-- One step. -/
def next (ws : ℤ) (s : Recovery) : Op → Recovery
  | .commit t => { s with db := s.db.commit t }
  | .query ok now => s.load ws ok now

/-- Runs of a new loader on any database, with any commits and failures. -/
def system (ws : ℤ) : System Recovery Op where
  init s := ∃ db, s = ⟨db, .new, false, false, [], [], []⟩
  step s op s' := s' = s.next ws op

/-- A step does not end the first iteration that gets through after the reload of a change had
failed, or this iteration found a new version, or there was no row in the log for the version. An
iteration that finds the old version ends with `loadVersion`, or with the `swap` of the reload that
is done every `ws` seconds. -/
def FindsNewVersion (ws : ℤ) (s : Recovery) : Op → Prop
  | .commit _ => True
  | .query ok now =>
    (s.loader.pc = .loadVersion → ok = true → s.pending = true →
      s.db.version = s.loader.routeVersion → now - s.loader.lstLoadTs < ws → s.db.dueRows = []) ∧
    (s.loader.pc = .swap false → s.pending = true → s.clean = true → s.due = [])

instance (ws : ℤ) (s : Recovery) : ∀ op, Decidable (s.FindsNewVersion ws op)
  | .commit _ => inferInstanceAs (Decidable True)
  | .query ok now => inferInstanceAs (Decidable
    ((s.loader.pc = .loadVersion → ok = true → s.pending = true →
      s.db.version = s.loader.routeVersion → now - s.loader.lstLoadTs < ws → s.db.dueRows = []) ∧
    (s.loader.pc = .swap false → s.pending = true → s.clean = true → s.due = [])))

/-- The iteration found a new version and goes on to push. -/
def Changed : Loader.Pc → Prop
  | .reload changed | .swap changed => changed = true
  | .loadChanges => True
  | _ => False

/-- What is due is still in the log when `loadChanges` reads it, so a clean iteration pushes it. -/
structure Inv (s : Recovery) : Prop where
  log : Changed s.loader.pc → ∀ row ∈ s.due,
    row ∈ s.db.changeLog ∧ row.version ≤ s.loader.routeVersion
  push : s.loader.pc = .push → s.clean = true → ∀ row ∈ s.due, row.key ∈ s.loader.changes
  rm : s.loader.pc = .rmChanges → s.clean = true → ∀ row ∈ s.due, row.key ∈ s.pushed
  periodic : s.loader.pc = .reload false ∨ s.loader.pc = .swap false → s.pushed = []

/-! ## Steps -/

/-- The bookkeeping of the run is none of the loader's. -/
theorem finish_loader (s : Recovery) : s.finish.loader = s.loader := by
  rw [finish]
  split <;> rfl

/-- The end of an iteration misses nothing if it did not get through, or pushed what was due. -/
theorem finish_missed {s : Recovery} (h : s.missed = []) :
    s.finish.missed = [] ↔
      (s.pending = true → s.clean = true → ∀ row ∈ s.due, row.key ∈ s.pushed) := by
  rw [finish]
  cases hp : s.pending with
  | false => simp [h]
  | true =>
    cases hc : s.clean with
    | false => simp [h]
    | true => simp [h]

/-- Where no iteration is under way nothing is known. -/
theorem inv_of_pc {s : Recovery} (hchanged : ¬Changed s.loader.pc) (hpush : s.loader.pc ≠ .push)
    (hrm : s.loader.pc ≠ .rmChanges)
    (hperiodic : ¬(s.loader.pc = .reload false ∨ s.loader.pc = .swap false)) : s.Inv :=
  ⟨fun h => absurd h hchanged, fun h => absurd h hpush, fun h => absurd h hrm,
    fun h => absurd h hperiodic⟩

/-- The end of an iteration. -/
theorem inv_finish {s : Recovery} (hpc : s.loader.pc = .loadVersion) : s.finish.Inv := by
  have hpc' : s.finish.loader.pc = .loadVersion := by rw [finish_loader, hpc]
  refine inv_of_pc ?_ ?_ ?_ ?_ <;> rw [hpc'] <;> simp [Changed]

/-- A commit adds to the log. -/
theorem Inv.commit {s : Recovery} (h : s.Inv) (t : ModOperator) :
    Inv { s with db := s.db.commit t } := by
  refine ⟨fun hpc row hrow => ?_, h.push, h.rm, h.periodic⟩
  obtain ⟨hlog, hv⟩ := h.log hpc row hrow
  exact ⟨List.mem_append_left _ hlog, hv⟩

/-- A step of the loader. -/
theorem Inv.load {s : Recovery} (h : s.Inv) (ws : ℤ) (ok : Bool) (now : ℤ) :
    (s.load ws ok now).Inv := by
  rw [Recovery.load, Loader.query]
  cases hpc : s.loader.pc with
  | loadVersion =>
    dsimp only
    split
    · next hnew =>
      -- the rows that are due have at most the version that is taken over
      obtain ⟨hok, hne⟩ := Bool.and_eq_true_iff.mp hnew
      dsimp only
      rw [if_neg (by simp)]
      refine ⟨fun _ row hrow => ?_, by simp, by simp, by simp⟩
      obtain ⟨hlog, hv⟩ := List.mem_filter.mp hrow
      exact ⟨hlog, of_decide_eq_true hv⟩
    · dsimp only
      split
      · next hidle => exact inv_finish hidle
      · next hidle =>
        have hreload := (Notifier.idle_pc ws { s.loader with currTs := now }).resolve_right hidle
        refine ⟨fun hch => ?_, fun hpush => ?_, fun hrm => ?_, fun _ => rfl⟩
        · have hfalse : Changed (.reload false) := hreload ▸ hch
          cases hfalse
        · exact absurd (hreload.symm.trans hpush) (by simp)
        · exact absurd (hreload.symm.trans hrm) (by simp)
  | reload changed =>
    cases ok with
    | false => exact inv_of_pc (by simp [Changed]) (by simp) (by simp) (by simp)
    | true =>
      refine ⟨fun hch => h.log (by rw [hpc]; exact hch), by simp, by simp, fun hor => ?_⟩
      have hchanged : changed = false := by simpa using hor
      exact h.periodic (.inl (by rw [hpc, hchanged]))
  | swap changed =>
    cases changed with
    | false => exact inv_finish rfl
    | true => exact ⟨fun _ => h.log (by rw [hpc]; rfl), by simp, by simp, by simp⟩
  | loadChanges =>
    refine ⟨by simp [Changed], fun _ hclean row hrow => ?_, by simp, by simp⟩
    have hok : ok = true := (Bool.and_eq_true_iff.mp hclean).2
    obtain ⟨hlog, hv⟩ := h.log (by rw [hpc]; trivial) row hrow
    dsimp only
    rw [if_pos hok]
    exact Notifier.key_mem_selectChanges hlog hv
  | push => exact ⟨by simp [Changed], by simp, fun _ => h.push hpc, by simp⟩
  | rmChanges => exact inv_finish rfl
  | loadVersionFirst =>
    cases ok <;> exact inv_of_pc (by simp [Changed]) (by simp) (by simp) (by simp)
  | selectFirst =>
    cases ok <;> exact inv_of_pc (by simp [Changed]) (by simp) (by simp) (by simp)
  | rmAllChanges => exact inv_of_pc (by simp [Changed]) (by simp) (by simp) (by simp)
  | exited =>
    refine inv_of_pc ?_ ?_ ?_ ?_ <;> simp [Changed, hpc]

/-- A row is due and was pushed in an iteration that pushed nothing. -/
theorem forall_mem_pushed_nil {due : List ChangeRow} :
    (∀ row ∈ due, row.key ∈ ([] : List UInt64)) ↔ due = [] := by
  simp only [List.not_mem_nil, List.eq_nil_iff_forall_not_mem, imp_false]

/-- When a step of the loader misses nothing. -/
theorem Inv.missed_load {s : Recovery} (h : s.Inv) (hm : s.missed = []) (ws : ℤ) (ok : Bool)
    (now : ℤ) : (s.load ws ok now).missed = [] ↔ s.FindsNewVersion ws (.query ok now) := by
  rw [FindsNewVersion]
  cases hpc : s.loader.pc with
  | loadVersion =>
    simp only [Recovery.load, Loader.query, hpc, reduceCtorEq, false_imp_iff, and_true,
      true_imp_iff]
    -- the iteration ends here if there is no new version and no reload is due
    by_cases hnew : (ok && s.db.version != s.loader.routeVersion) = true
    · have hne : s.db.version ≠ s.loader.routeVersion := by
        simpa using (Bool.and_eq_true_iff.mp hnew).2
      simp only [if_pos hnew, reduceCtorEq, if_false, hm, true_iff]
      exact fun _ _ heq => absurd heq hne
    · have heq : ok = true → s.db.version = s.loader.routeVersion := fun hok => by
        simpa [hok] using hnew
      rw [if_neg hnew, Loader.idle]
      by_cases hdue : now - s.loader.lstLoadTs ≥ ws
      · simp only [if_pos hdue, reduceCtorEq, if_false, hm, true_iff]
        exact fun _ _ _ hlt => absurd hdue hlt.not_ge
      · simp only [if_neg hdue, if_true]
        refine (finish_missed (by exact hm)).trans ?_
        rw [forall_mem_pushed_nil]
        exact ⟨fun hall hok hp _ _ => hall hp hok,
          fun hall hp hok => hall hok hp (heq hok) (lt_of_not_ge hdue)⟩
  | swap changed =>
    cases changed with
    | true => simp [Recovery.load, hpc, hm]
    | false =>
      simp only [Recovery.load, hpc, reduceCtorEq, false_imp_iff, true_and, true_imp_iff]
      refine (finish_missed (by exact hm)).trans ?_
      rw [h.periodic (.inr hpc), forall_mem_pushed_nil]
  | rmChanges =>
    simp only [Recovery.load, hpc, reduceCtorEq, false_imp_iff, and_self, iff_true]
    -- an iteration that pushed has pushed all that was due
    refine (finish_missed (by exact hm)).mpr ?_
    exact fun _ hclean => h.rm hpc (Bool.and_eq_true_iff.mp hclean).1
  | reload changed => cases ok <;> simp [Recovery.load, hpc, hm]
  | _ => simp [Recovery.load, hpc, hm]

/-! ## Every run -/

/-- In a run of a new loader the first iteration to get through after the reload of a change had
failed always pushes every row that is due, exactly when each time it finds a new version, or no row
in the log for the old one. -/
theorem missed_eq_nil_iff {ws : ℤ} {db : Db} {tr : List (Op × Recovery)}
    (h : (system ws).Run ⟨db, .new, false, false, [], [], []⟩ tr) :
    (∀ x ∈ tr, x.2.missed = []) ↔
      System.Along (FindsNewVersion ws) ⟨db, .new, false, false, [], [], []⟩ tr := by
  refine h.forall_iff_along (I := Inv) (P := fun s => s.missed = []) ?_ ?_ ?_ rfl
  · rintro s op _ hinv rfl
    cases op with
    | commit t => exact hinv.commit t
    | query ok now => exact hinv.load ws ok now
  · rintro s op _ hinv hm rfl
    cases op with
    | commit t => exact ⟨fun _ => trivial, fun _ => hm⟩
    | query ok now => exact hinv.missed_load hm ws ok now
  · refine inv_of_pc ?_ ?_ ?_ ?_ <;> simp [Loader.new, Changed]

/-- An empty database and a new loader. -/
def start : Recovery :=
  ⟨⟨[], 0, [], [], Db.log_nil⟩, .new, false, false, [], [], []⟩

/-- A host goes on line in second 100, and the reload that follows fails. -/
def failedChange : List Op :=
  [.query true 99, .query true 99, .query true 99, .commit ⟨true, ⟨1, 2, 10, 80⟩, 100⟩,
    .query true 101, .query false 101]

/-- Another host goes on line, and an iteration gets through. -/
def laterChange : List Op :=
  [.commit ⟨true, ⟨1, 3, 20, 80⟩, 102⟩, .query true 103, .query true 103, .query true 103,
    .query true 103, .query true 103, .query true 103]

/-- Any list of steps is a run. -/
theorem run_trace (ops : List Op) : (system 10).Run start (System.trace (next 10) start ops) := by
  have hlegal : ∀ s, System.Legal (fun _ _ => True) (next 10) s ops := by
    induction ops with
    | nil => exact fun _ => trivial
    | cons op ops ih => exact fun s => ⟨trivial, ih _⟩
  exact System.Run.trace (fun _ _ _ => rfl) (hlegal start)

/-- The later change brings the first one along. -/
theorem missed_after_laterChange :
    ((failedChange ++ laterChange).foldl (next 10) start).missed = [] ∧
      ((failedChange ++ laterChange).foldl (next 10) start).pushed =
        [packKey 1 2, packKey 1 3] := by
  obtain ⟨e, hmem⟩ := System.exists_mem_trace (next 10) start
    (show failedChange ++ laterChange ≠ [] from List.cons_ne_nil _ _)
  exact ⟨(missed_eq_nil_iff (run_trace _)).mpr (by decide +kernel) _ hmem, by decide +kernel⟩

/-- The iteration after the failure gets through and pushes nothing, though the row is there. -/
theorem not_missed_eq_nil : ∃ s, (system 10).Reachable s ∧
    s.db.changeLog = [⟨0, 1, 2, 100⟩] ∧ s.db.version = 100 ∧ s.pushed = [] ∧
      s.missed = [⟨0, 1, 2, 100⟩] := by
  have hinit : (system 10).Reachable start := .init ⟨_, rfl⟩
  obtain ⟨e, hmem⟩ := System.exists_mem_trace (next 10) start
    (show failedChange ++ [Op.query true 102] ≠ [] from List.cons_ne_nil _ _)
  refine ⟨(failedChange ++ [Op.query true 102]).foldl (next 10) start,
    (run_trace _).reachable hinit _ hmem, ?_⟩
  decide +kernel

end Recovery

end Elb
