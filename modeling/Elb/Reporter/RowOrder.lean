import Elb.Common.Fifo
import Elb.Reporter.CallStatis

/-!
# What is written to one row

Reference: `reporter/src/Server.cc` and `reporter/src/CallStatis.cc`.

All statements about a row go through the queue of one worker. The queue is a pipe: a request puts
its statements in at the end, and the worker takes them out one by one. What becomes of them in the
table is left open here.
-/

namespace Elb.Reporter

/-- What the statements write to the row, in their order. -/
def rowsAbout (key : RowKey) (sqls : List (RowKey × Row)) : List Row :=
  sqls.filterMap fun sql => if sql.1 = key then some sql.2 else none

variable {key : RowKey}

/-- No statement, no row. -/
@[simp] theorem rowsAbout_nil : rowsAbout key [] = [] := rfl

/-- The statements of two lists, in order. -/
theorem rowsAbout_append (sqls sqls' : List (RowKey × Row)) :
    rowsAbout key (sqls ++ sqls') = rowsAbout key sqls ++ rowsAbout key sqls' :=
  List.filterMap_append

/-- One statement is about its own row only. -/
theorem rowsAbout_singleton (sql : RowKey × Row) :
    rowsAbout key [sql] = if sql.1 = key then [sql.2] else [] := by
  unfold rowsAbout
  split <;> simp_all

/-- A row comes from a statement with its key. -/
theorem mem_rowsAbout {sqls : List (RowKey × Row)} {row : Row} :
    row ∈ rowsAbout key sqls ↔ (key, row) ∈ sqls := by
  simp [rowsAbout]

/-- Statements about other rows. -/
theorem rowsAbout_eq_nil {sqls : List (RowKey × Row)} (h : ∀ sql ∈ sqls, sql.1 ≠ key) :
    rowsAbout key sqls = [] := by
  rw [List.eq_nil_iff_forall_not_mem]
  exact fun row hmem => h _ (mem_rowsAbout.mp hmem) rfl

variable {threadCnt : ℕ} [NeZero threadCnt]

/-- What the worker of the row has still to write to it. -/
def State.pendingAbout (key : RowKey) (s : State threadCnt) : List Row :=
  rowsAbout key (s.workers (owner threadCnt key)).pending

/-- A request that arrives puts its statements about the row behind the others. -/
theorem pendingAbout_reportStatus (s : State threadCnt) (req : ReportStatusReq) :
    (s.reportStatus req).pendingAbout key =
      s.pendingAbout key ++ rowsAbout key (statements req) := by
  rw [State.pendingAbout, State.pendingAbout, reportStatus_pending, rowsAbout_append]
  split
  · rfl
  · next hne =>
    have hother : rowsAbout key (statements req) = [] :=
      rowsAbout_eq_nil fun sql hsql heq => hne (heq ▸ owner_of_mem_statements hsql)
    rw [hother, rowsAbout_nil]

/-- A worker that takes requests from its queue, or a request apart, writes nothing. -/
theorem Step.pendingAbout_eq {s s' : State threadCnt} {e : Event threadCnt} (hs : Step s e s')
    (hreq : ∀ req, e ≠ .reportStatus req) (hinsert : ∀ i, e ≠ .insert i) :
    (∀ key, s'.pendingAbout key = s.pendingAbout key) ∧ s'.table = s.table ∧
      (s.Owned → s'.Owned) := by
  cases hs with
  | reportStatus req => exact absurd rfl (hreq req)
  | recvMsg i taken rest hi =>
    have hpending := setWorker_pending (w := ⟨rest, taken, []⟩) (s := s) (i := i)
      (by simp [Worker.pending, hi])
    exact ⟨fun key => congrArg (rowsAbout key) (hpending _), rfl, fun h => h.of_pending hpending⟩
  | popMsg i queue rest req hi =>
    have hpending := setWorker_pending (w := ⟨queue, rest, statements req⟩) (s := s) (i := i)
      (by simp [Worker.pending, hi])
    exact ⟨fun key => congrArg (rowsAbout key) (hpending _), rfl, fun h => h.of_pending hpending⟩
  | insert i => exact absurd rfl (hinsert i)

/-- A worker that is done with a statement takes it out of the pipe of its row, whatever has become
of the table. -/
theorem State.Owned.pendingAbout_insert {s : State threadCnt} (h : s.Owned) {i : Fin threadCnt}
    {queue msgs : List ReportStatusReq} {sql : RowKey × Row} {rest : List (RowKey × Row)}
    (hi : s.workers i = ⟨queue, msgs, sql :: rest⟩) (table : Table) (key : RowKey) :
    rowsAbout key [sql] ++
        State.pendingAbout key { s.setWorker i ⟨queue, msgs, rest⟩ with table := table } =
      s.pendingAbout key := by
  have hsql : owner threadCnt sql.1 = i := h i sql (by simp [hi, Worker.pending])
  rw [State.pendingAbout, State.pendingAbout, setWorker_workers]
  by_cases hown : owner threadCnt key = i
  · rw [if_pos hown, hown, pending_eq_cons hi]
    exact (rowsAbout_append [sql] _).symm
  · -- the row is another worker's
    rw [if_neg hown, rowsAbout_singleton, if_neg fun heq : sql.1 = key => hown (heq ▸ hsql),
      List.nil_append]

end Elb.Reporter
