import Elb.Common.Overwrite
import Elb.Common.Proto
import Elb.Common.Transition

/-!
# The reporter

Reference: `reporter/src/Server.cc`, `reporter/src/CallStatis.cc` and `common/base/include/util.h`.

The server loop hands every report to one of the worker threads, chosen by the hash of its module.
Each worker turns the reports of its queue into one `INSERT ... ON DUPLICATE KEY UPDATE` after the
other. The workers share nothing but the table `ServerCallStatus`, and no two of them write one row:
the rows of a module are all written by the worker of its hash.
-/

namespace Elb.Reporter

/-! ## `murMurHash` -/

/-- The multiplier `m`. -/
def mulM : UInt32 := 0x5bd1e995

/-- The body of the loop: mix in the next four bytes. -/
def mixWord (h k : UInt32) : UInt32 :=
  let k := k * mulM
  let k := k ^^^ (k >>> 24)
  let k := k * mulM
  (h * mulM) ^^^ k

/-- The loop over words of four bytes, read as `*(unsigned int *)data` on a little-endian machine,
and the `switch` over what is left. -/
def mixBytes (h : UInt32) : List UInt8 → UInt32
  | b₀ :: b₁ :: b₂ :: b₃ :: rest =>
    mixBytes (mixWord h
      (b₀.toUInt32 ||| b₁.toUInt32 <<< 8 ||| b₂.toUInt32 <<< 16 ||| b₃.toUInt32 <<< 24)) rest
  | [b₀, b₁, b₂] =>
    (h ^^^ b₂.toUInt32 <<< 16 ^^^ b₁.toUInt32 <<< 8 ^^^ b₀.toUInt32) * mulM
  | [b₀, b₁] => (h ^^^ b₁.toUInt32 <<< 8 ^^^ b₀.toUInt32) * mulM
  | [b₀] => (h ^^^ b₀.toUInt32) * mulM
  | [] => h

/-- `murMurHash(key, len)`. -/
def murMurHash (key : List UInt8) : UInt32 :=
  let h := mixBytes (97 ^^^ UInt32.ofNat key.length) key
  let h := h ^^^ (h >>> 13)
  let h := h * mulM
  h ^^^ (h >>> 15)

/-- The bytes of a `uint64_t` in memory. -/
def keyBytes (key : UInt64) : List UInt8 :=
  (List.range 8).map fun i => (key >>> UInt64.ofNat (8 * i)).toUInt8

/-- `HASHTO(&key, threadCnt)` for the key of a module. -/
def hashTo (modid cmdid : Int32) (threadCnt : ℕ) : ℕ :=
  (murMurHash (keyBytes (packKey modid cmdid))).toNat % threadCnt

/-! ## The statements of a report -/

/-- The primary key of `ServerCallStatus`, as the statement prints it. -/
structure RowKey where
  modid : Int32
  cmdid : Int32
  ip : UInt32
  port : UInt32
  caller : UInt32
deriving DecidableEq, Repr

/-- The other columns. -/
structure Row where
  succCnt : UInt32
  errCnt : UInt32
  ts : UInt32
  overload : Bool
deriving DecidableEq, Repr

/-- The table: a row for every primary key that was inserted. -/
abbrev Table : Type := RowKey → Option Row

/-- The statement for one result: the row that it inserts or overwrites. -/
def statement (req : ReportStatusReq) (result : HostCallResult) : RowKey × Row :=
  (⟨req.modid, req.cmdid, result.ip.toUInt32, result.port.toUInt32, req.caller.toUInt32⟩,
    ⟨result.succ, result.err, req.ts, result.overload⟩)

/-- The statements of `CallStatis::report`, in the order of its loop. -/
def statements (req : ReportStatusReq) : List (RowKey × Row) := req.results.map (statement req)

/-- `CallStatis::report`, run alone. -/
def report (table : Table) (req : ReportStatusReq) : Table :=
  (statements req).foldl Overwrite.write table

/-! ## Server loop and workers -/

/-- One worker thread: its queue, what `newReportReq` has taken from it and not reported yet, and
the rest of the loop of `CallStatis::report`. -/
structure Worker where
  queue : List ReportStatusReq
  msgs : List ReportStatusReq
  sqls : List (RowKey × Row)

/-- What the worker has still to write. -/
def Worker.pending (w : Worker) : List (RowKey × Row) :=
  w.sqls ++ (w.msgs ++ w.queue).flatMap statements

/-- The reporter; `arrived` is what the server loop has received so far. -/
structure State (threadCnt : ℕ) where
  arrived : List ReportStatusReq
  workers : Fin threadCnt → Worker
  table : Table

variable {threadCnt : ℕ} [NeZero threadCnt]

/-- The queue for the rows of a module. -/
def index (threadCnt : ℕ) [NeZero threadCnt] (modid cmdid : Int32) : Fin threadCnt :=
  ⟨hashTo modid cmdid threadCnt, Nat.mod_lt _ (NeZero.pos threadCnt)⟩

/-- Who takes a step. -/
inductive Event (threadCnt : ℕ)
  | reportStatus (req : ReportStatusReq)
  | recvMsg (i : Fin threadCnt)
  | popMsg (i : Fin threadCnt)
  | insert (i : Fin threadCnt)

/-- Replace one worker. -/
def State.setWorker (s : State threadCnt) (i : Fin threadCnt) (w : Worker) : State threadCnt :=
  { s with workers := Function.update s.workers i w }

omit [NeZero threadCnt] in
/-- The other workers are as they were. -/
@[simp] theorem setWorker_workers (s : State threadCnt) (i j : Fin threadCnt) (w : Worker) :
    (s.setWorker i w).workers j = if j = i then w else s.workers j :=
  Function.update_apply _ _ _ _

/-- `reportStatus`: the request goes to the end of the queue of its module. -/
def State.reportStatus (s : State threadCnt) (req : ReportStatusReq) : State threadCnt :=
  let i := index threadCnt req.modid req.cmdid
  { s.setWorker i { s.workers i with queue := (s.workers i).queue ++ [req] } with
    arrived := s.arrived ++ [req] }

/-- One step. A worker that is done with what it took takes the front part of its queue, reports
one request after the other, and each statement of a request is one transaction. -/
inductive Step : State threadCnt → Event threadCnt → State threadCnt → Prop
  | reportStatus (s : State threadCnt) (req : ReportStatusReq) :
      Step s (.reportStatus req) (s.reportStatus req)
  | recvMsg (s : State threadCnt) (i : Fin threadCnt) (taken rest : List ReportStatusReq)
      (h : s.workers i = ⟨taken ++ rest, [], []⟩) :
      Step s (.recvMsg i) (s.setWorker i ⟨rest, taken, []⟩)
  | popMsg (s : State threadCnt) (i : Fin threadCnt) (queue rest : List ReportStatusReq)
      (req : ReportStatusReq) (h : s.workers i = ⟨queue, req :: rest, []⟩) :
      Step s (.popMsg i) (s.setWorker i ⟨queue, rest, statements req⟩)
  | insert (s : State threadCnt) (i : Fin threadCnt) (queue msgs : List ReportStatusReq)
      (sql : RowKey × Row) (rest : List (RowKey × Row))
      (h : s.workers i = ⟨queue, msgs, sql :: rest⟩) :
      Step s (.insert i)
        { s.setWorker i ⟨queue, msgs, rest⟩ with table := Overwrite.write s.table sql }

/-- The reporter with the given number of workers, started on a table that may have rows. -/
def system (threadCnt : ℕ) [NeZero threadCnt] (start : Table) :
    Transition.System (State threadCnt) (Event threadCnt) where
  init s := s = ⟨[], fun _ => ⟨[], [], []⟩, start⟩
  step := Step

/-- Every worker has written all that it was given. -/
def State.Drained (s : State threadCnt) : Prop := ∀ i, s.workers i = ⟨[], [], []⟩

/-! ## The rows of a module belong to its worker -/

/-- The worker that writes a row. -/
def owner (threadCnt : ℕ) [NeZero threadCnt] (key : RowKey) : Fin threadCnt :=
  index threadCnt key.modid key.cmdid

/-- The statements of a request are all for the worker that the request goes to. -/
theorem owner_of_mem_statements {req : ReportStatusReq} {sql : RowKey × Row}
    (h : sql ∈ statements req) :
    owner threadCnt sql.1 = index threadCnt req.modid req.cmdid := by
  obtain ⟨result, -, rfl⟩ := List.mem_map.mp h
  rfl

/-- A worker has only statements of its own rows. -/
def State.Owned (s : State threadCnt) : Prop :=
  ∀ i, ∀ sql ∈ (s.workers i).pending, owner threadCnt sql.1 = i

/-- What holds between any two steps. A row, once its worker has written what it has pending, is as
if all requests had been applied in the order of their arrival. -/
structure Inv (start : Table) (s : State threadCnt) : Prop where
  owned : s.Owned
  row : ∀ key, (s.workers (owner threadCnt key)).pending.foldl Overwrite.write s.table key =
    s.arrived.foldl report start key

/-- Applying requests one after another applies their statements one after another. -/
theorem foldl_report (start : Table) (reqs : List ReportStatusReq) :
    reqs.foldl report start = (reqs.flatMap statements).foldl Overwrite.write start := by
  rw [List.foldl_flatMap]
  rfl

/-- Nothing new is pending. -/
theorem State.Owned.of_pending {s s' : State threadCnt} (h : s.Owned)
    (hpending : ∀ i, (s'.workers i).pending = (s.workers i).pending) : s'.Owned := by
  intro i
  rw [hpending]
  exact h i

/-- A step that leaves what each worker has pending, and the table, as they are. -/
theorem Inv.of_pending {start : Table} {s s' : State threadCnt} (h : Inv start s)
    (hpending : ∀ i, (s'.workers i).pending = (s.workers i).pending)
    (htable : s'.table = s.table) (harrived : s'.arrived = s.arrived) : Inv start s' := by
  refine ⟨h.owned.of_pending hpending, fun key => ?_⟩
  rw [hpending, htable, harrived]
  exact h.row key

omit [NeZero threadCnt] in
/-- A worker goes on to another part of what it has pending. -/
theorem setWorker_pending {s : State threadCnt} {i : Fin threadCnt} {w : Worker}
    (h : w.pending = (s.workers i).pending) (j : Fin threadCnt) :
    ((s.setWorker i w).workers j).pending = (s.workers j).pending := by
  rw [setWorker_workers]
  split
  · next hj => rw [hj, h]
  · rfl

/-- A request that arrives is behind all others in its queue. -/
theorem reportStatus_pending (s : State threadCnt) (req : ReportStatusReq) (i : Fin threadCnt) :
    ((s.reportStatus req).workers i).pending = (s.workers i).pending ++
      if i = index threadCnt req.modid req.cmdid then statements req else [] := by
  rw [State.reportStatus, setWorker_workers]
  split
  · next hi => simp [hi, Worker.pending]
  · simp

/-- The queue is the one of the worker that has the rows. -/
theorem State.Owned.reportStatus {s : State threadCnt} (h : s.Owned) (req : ReportStatusReq) :
    (s.reportStatus req).Owned := by
  intro i sql hsql
  rw [reportStatus_pending, List.mem_append] at hsql
  rcases hsql with hsql | hsql
  · exact h i sql hsql
  · split at hsql
    · next hi => rw [hi, owner_of_mem_statements hsql]
    · cases hsql

/-- What arrives comes after all that is pending. -/
theorem Inv.reportStatus {start : Table} {s : State threadCnt} (h : Inv start s)
    (req : ReportStatusReq) : Inv start (s.reportStatus req) := by
  refine ⟨h.owned.reportStatus req, fun key => ?_⟩
  have harrived : (s.reportStatus req).arrived.foldl report start key =
      (statements req).foldl Overwrite.write (s.arrived.foldl report start) key := by
    rw [State.reportStatus, List.foldl_append]
    rfl
  rw [reportStatus_pending, List.foldl_append, harrived]
  by_cases hkey : owner threadCnt key = index threadCnt req.modid req.cmdid
  · rw [if_pos hkey]
    exact Overwrite.foldl_write_congr (h.row key) (statements req)
  · -- no statement of the request is about a row of another worker
    have hother : ∀ sql ∈ statements req, sql.1 ≠ key := by
      intro sql hsql heq
      exact hkey (heq ▸ owner_of_mem_statements hsql)
    rw [if_neg hkey, List.foldl_nil, Overwrite.foldl_write_of_ne _ hother]
    exact h.row key

omit [NeZero threadCnt] in
/-- The statement that a worker takes next is the first that it has pending. -/
theorem pending_eq_cons {s : State threadCnt} {i : Fin threadCnt} {queue msgs : List ReportStatusReq}
    {sql : RowKey × Row} {rest : List (RowKey × Row)}
    (hi : s.workers i = ⟨queue, msgs, sql :: rest⟩) :
    (s.workers i).pending = sql :: (⟨queue, msgs, rest⟩ : Worker).pending := by
  rw [hi]
  rfl

/-- A worker is done with a statement, whatever has become of the table. -/
theorem State.Owned.insert {s : State threadCnt} (h : s.Owned) {i : Fin threadCnt}
    {queue msgs : List ReportStatusReq} {sql : RowKey × Row} {rest : List (RowKey × Row)}
    (hi : s.workers i = ⟨queue, msgs, sql :: rest⟩) (table : Table) :
    State.Owned { s.setWorker i ⟨queue, msgs, rest⟩ with table := table } := by
  intro j sql' hsql'
  apply h j sql'
  rw [setWorker_workers] at hsql'
  split at hsql'
  · next hj =>
    rw [hj, pending_eq_cons hi]
    exact List.mem_cons_of_mem _ hsql'
  · exact hsql'

/-- A worker writes the next statement: its own rows have one pending write less, and the rows of
the others are left alone. -/
theorem Inv.insert {start : Table} {s : State threadCnt} (h : Inv start s) {i : Fin threadCnt}
    {queue msgs : List ReportStatusReq} {sql : RowKey × Row} {rest : List (RowKey × Row)}
    (hi : s.workers i = ⟨queue, msgs, sql :: rest⟩) :
    Inv start { s.setWorker i ⟨queue, msgs, rest⟩ with
      table := Overwrite.write s.table sql } := by
  have hpending := pending_eq_cons hi
  have hsql : owner threadCnt sql.1 = i := h.owned i sql (by simp [hpending])
  refine ⟨h.owned.insert hi _, fun key => .trans ?_ (h.row key)⟩
  rw [setWorker_workers]
  split
  · next hkey => rw [hkey, hpending, List.foldl_cons]
  · next hkey =>
    -- a row of another worker is not the one that is written
    apply Overwrite.foldl_write_congr
    exact Overwrite.write_of_ne _ fun heq => hkey (heq ▸ hsql)

/-- Every step keeps the invariant. -/
theorem Inv.step {start : Table} {s s' : State threadCnt} {e : Event threadCnt} (h : Inv start s)
    (hs : Step s e s') : Inv start s' := by
  cases hs with
  | reportStatus req => exact h.reportStatus req
  | recvMsg i taken rest hi =>
    -- taking requests from the queue leaves them pending
    refine h.of_pending (setWorker_pending ?_) rfl rfl
    simp [Worker.pending, hi]
  | popMsg i queue rest req hi =>
    refine h.of_pending (setWorker_pending ?_) rfl rfl
    simp [Worker.pending, hi]
  | insert i queue msgs sql rest hi => exact h.insert hi

/-- So it holds in every run. -/
theorem inv_of_reachable {start : Table} {s : State threadCnt}
    (h : (system threadCnt start).Reachable s) : Inv start s := by
  refine h.invariant ?_ fun _ _ _ _ ih hs => ih.step hs
  rintro _ rfl
  exact ⟨by simp [State.Owned, Worker.pending], fun key => rfl⟩

/-! ## The workers can finish -/

omit [NeZero threadCnt] in
/-- The two states differ in one worker and in the table at most. -/
def OnlyWorker (i : Fin threadCnt) (s s' : State threadCnt) : Prop :=
  (∀ j, j ≠ i → s'.workers j = s.workers j) ∧ s'.arrived = s.arrived

variable {start : Table} {i : Fin threadCnt}

omit [NeZero threadCnt] in
/-- Nothing is done. -/
theorem OnlyWorker.refl (i : Fin threadCnt) (s : State threadCnt) : OnlyWorker i s s :=
  ⟨fun _ _ => rfl, rfl⟩

omit [NeZero threadCnt] in
/-- A worker and the table are all that changes. -/
theorem OnlyWorker.setWorker (i : Fin threadCnt) (s : State threadCnt) (w : Worker)
    (table : Table) : OnlyWorker i s { s.setWorker i w with table := table } :=
  ⟨fun j hj => by rw [setWorker_workers, if_neg hj], rfl⟩

omit [NeZero threadCnt] in
/-- Two parts of a step, one after the other. -/
theorem OnlyWorker.trans {s s' s'' : State threadCnt} (h : OnlyWorker i s s')
    (h' : OnlyWorker i s' s'') : OnlyWorker i s s'' :=
  ⟨fun j hj => (h'.1 j hj).trans (h.1 j hj), h'.2.trans h.2⟩

/-- A worker can finish the request at hand. -/
theorem exists_sqls_nil {s : State threadCnt} (h : (system threadCnt start).Reachable s)
    {queue msgs : List ReportStatusReq} {sqls : List (RowKey × Row)}
    (hi : s.workers i = ⟨queue, msgs, sqls⟩) :
    ∃ s', (system threadCnt start).Reachable s' ∧ OnlyWorker i s s' ∧
      s'.workers i = ⟨queue, msgs, []⟩ := by
  -- one statement after the other; the queue and the requests taken stay
  induction sqls generalizing s with
  | nil => exact ⟨s, h, .refl i s, hi⟩
  | cons sql rest ih =>
    obtain ⟨s', hs', honly, hi'⟩ := ih (h.step (.insert s i queue msgs sql rest hi))
      (by rw [setWorker_workers, if_pos rfl])
    exact ⟨s', hs', (OnlyWorker.setWorker i s _ _).trans honly, hi'⟩

/-- A worker can finish what it took from its queue. -/
theorem exists_msgs_nil {s : State threadCnt} (h : (system threadCnt start).Reachable s)
    {queue msgs : List ReportStatusReq} (hi : s.workers i = ⟨queue, msgs, []⟩) :
    ∃ s', (system threadCnt start).Reachable s' ∧ OnlyWorker i s s' ∧
      s'.workers i = ⟨queue, [], []⟩ := by
  -- each request taken is first turned into statements, which are then all written
  induction msgs generalizing s with
  | nil => exact ⟨s, h, .refl i s, hi⟩
  | cons req rest ih =>
    obtain ⟨s₁, hs₁, honly₁, hi₁⟩ := exists_sqls_nil (h.step (.popMsg s i queue rest req hi))
      (by rw [setWorker_workers, if_pos rfl])
    obtain ⟨s₂, hs₂, honly₂, hi₂⟩ := ih hs₁ hi₁
    exact ⟨s₂, hs₂, (OnlyWorker.setWorker i s _ s.table).trans (honly₁.trans honly₂), hi₂⟩

/-- A worker can write all that it was given. -/
theorem exists_worker_done {s : State threadCnt} (h : (system threadCnt start).Reachable s)
    (i : Fin threadCnt) :
    ∃ s', (system threadCnt start).Reachable s' ∧ OnlyWorker i s s' ∧
      s'.workers i = ⟨[], [], []⟩ := by
  obtain ⟨s₁, hs₁, honly₁, hi₁⟩ := exists_sqls_nil (i := i) h rfl
  obtain ⟨s₂, hs₂, honly₂, hi₂⟩ := exists_msgs_nil hs₁ hi₁
  -- with nothing at hand the worker takes its whole queue at once
  obtain ⟨s₃, hs₃, honly₃, hi₃⟩ := exists_msgs_nil
    (hs₂.step (.recvMsg s₂ i (s.workers i).queue [] (by rw [hi₂, List.append_nil])))
    (by rw [setWorker_workers, if_pos rfl])
  refine ⟨s₃, hs₃, ?_, hi₃⟩
  exact honly₁.trans (honly₂.trans ((OnlyWorker.setWorker i s₂ _ s₂.table).trans honly₃))

/-- Without further requests the workers can all finish, from every state of every run. -/
theorem exists_drained {s : State threadCnt} (h : (system threadCnt start).Reachable s) :
    ∃ s', (system threadCnt start).Reachable s' ∧ s'.Drained ∧ s'.arrived = s.arrived := by
  -- one worker after the other, those that are done staying done
  have hall : ∀ is : List (Fin threadCnt), ∃ s', (system threadCnt start).Reachable s' ∧
      (∀ i ∈ is, s'.workers i = ⟨[], [], []⟩) ∧ s'.arrived = s.arrived := by
    intro is
    induction is with
    | nil => exact ⟨s, h, by simp, rfl⟩
    | cons i is ih =>
      obtain ⟨s₁, hs₁, hdone, harrived⟩ := ih
      obtain ⟨s₂, hs₂, honly, hi⟩ := exists_worker_done hs₁ i
      refine ⟨s₂, hs₂, ?_, honly.2.trans harrived⟩
      intro j hj
      by_cases hji : j = i
      · rw [hji, hi]
      · rw [honly.1 j hji]
        exact hdone j ((List.mem_cons.mp hj).resolve_left hji)
  obtain ⟨s', hs', hdone, harrived⟩ := hall (List.finRange threadCnt)
  exact ⟨s', hs', fun i => hdone i (List.mem_finRange i), harrived⟩

/-! ## The table -/

/-- Once the workers are done, the table is what all requests make of it in the order of their
arrival, whatever the number of workers and the order in which they took their turns. Each row is
that of the last statement about it. -/
theorem table_eq_sequential {s : State threadCnt}
    (h : (system threadCnt start).Reachable s) (hdrained : s.Drained) :
    s.table = s.arrived.foldl report start ∧
      (∀ before sql after, s.arrived.flatMap statements = before ++ sql :: after →
        (∀ sql' ∈ after, sql'.1 ≠ sql.1) → s.table sql.1 = some sql.2) ∧
      (∀ key, (∀ sql ∈ s.arrived.flatMap statements, sql.1 ≠ key) → s.table key = start key) := by
  have htable : s.table = s.arrived.foldl report start := by
    funext key
    rw [← (inv_of_reachable h).row key, hdrained]
    rfl
  refine ⟨htable, ?_, ?_⟩
  · intro before sql after hsplit hafter
    rw [htable, foldl_report, hsplit]
    exact Overwrite.foldl_write_last _ _ _ _ hafter
  · intro key hkey
    rw [htable, foldl_report]
    exact Overwrite.foldl_write_of_ne _ hkey

/-- Three workers, two requests with a result for one host, and between them a request that another
worker takes. Of the two for the host the second counts, the other row is that of its only
request. -/
theorem table_eq_sequential_two_workers : index 3 1 2 ≠ index 3 4 2 ∧
    ∃ s : State 3, (system 3 fun _ => none).Reachable s ∧
      s.arrived = [⟨1, 2, 9, [⟨7, 80, 5, 0, false⟩], 100⟩, ⟨4, 2, 9, [⟨7, 80, 3, 0, false⟩], 101⟩,
        ⟨1, 2, 9, [⟨7, 80, 6, 1, true⟩], 102⟩] ∧
      s.table ⟨1, 2, 7, 80, 9⟩ = some ⟨6, 1, 102, true⟩ ∧
      s.table ⟨4, 2, 7, 80, 9⟩ = some ⟨3, 0, 101, false⟩ := by
  refine ⟨by decide, ?_⟩
  let first : ReportStatusReq := ⟨1, 2, 9, [⟨7, 80, 5, 0, false⟩], 100⟩
  let other : ReportStatusReq := ⟨4, 2, 9, [⟨7, 80, 3, 0, false⟩], 101⟩
  let second : ReportStatusReq := ⟨1, 2, 9, [⟨7, 80, 6, 1, true⟩], 102⟩
  have hinit : (system 3 fun _ => none).Reachable ⟨[], fun _ => ⟨[], [], []⟩, fun _ => none⟩ :=
    .init rfl
  obtain ⟨s, hs, hdrained, harrived⟩ := exists_drained
    (((hinit.step (.reportStatus _ first)).step (.reportStatus _ other)).step
      (.reportStatus _ second))
  obtain ⟨-, hlast, -⟩ := table_eq_sequential hs hdrained
  refine ⟨s, hs, harrived, ?_, ?_⟩
  · exact hlast [statement first ⟨7, 80, 5, 0, false⟩, statement other ⟨7, 80, 3, 0, false⟩]
      (statement second ⟨7, 80, 6, 1, true⟩) [] (by rw [harrived]; rfl) (by simp)
  · exact hlast [statement first ⟨7, 80, 5, 0, false⟩] (statement other ⟨7, 80, 3, 0, false⟩)
      [statement second ⟨7, 80, 6, 1, true⟩] (by rw [harrived]; rfl)
      (by simp [statement, other, second])

end Elb.Reporter
