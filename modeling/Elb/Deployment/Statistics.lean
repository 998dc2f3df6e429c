import Elb.Lbagent.Pacing
import Elb.Reporter.Columns
import Elb.Reporter.RowOrder

/-!
# The call statistics of the agents

Reference: `LB::report2Rpter` in `lbagent/src/RouteLb.cc`, `newReportReq` in
`lbagent/src/RptClient.cc`, `reporter/src/Server.cc` and `reporter/src/CallStatis.cc`.

Any number of agents report to one reporter. A report of a shard goes on `reptQueue`, from there on
the connection to the reporter, there to the worker of its module and statement by statement into
the table. A row belongs to one agent, which its `caller` names. A connection that is given up may
be read by the reporter later than the one after it, or never.

A statement may come to nothing: the query fails, which is only logged, or a number does not fit its
column, and the server rejects the statement or cuts the number, so that it ends in another row.
`Lands` is the condition on a run that this does not happen to the row at hand.
-/

namespace Elb

open Transition Reporter

variable {R : Type} [RateArith R] {cfg : LbConfigure R} {key : RowKey}

/-! ## The agent -/

omit [RateArith R] in
/-- Who reports, and when. -/
theorem LB.report2Rpter_header {now : ℤ} {lb lb' : LB} {rept : Option ReportStatusReq}
    (h : lb.report2Rpter cfg now = .ok (lb', rept)) :
    ∀ req ∈ rept.toList, req.caller = cfg.myIp.toInt32 ∧ req.ts = UInt32.ofInt now := by
  rw [report2Rpter] at h
  split at h
  · cases h
    simp
  · split at h
    · cases h
      simp
    · obtain ⟨running, -, h⟩ := Except.bind_eq_ok_iff.mp h
      obtain ⟨down, -, h⟩ := Except.bind_eq_ok_iff.mp h
      cases h
      simp

/-- All reports of a call have the agent and the time of the call in them. -/
theorem RouteLB.exec_header {s s' : RouteLB} {now : ℤ} {op : RouteLB.Op} {out : RouteLB.Out}
    (hex : s.exec cfg now op = .ok (s', out)) :
    ∀ req ∈ out.repts, req.caller = cfg.myIp.toInt32 ∧ req.ts = UInt32.ofInt now := by
  cases op with
  | getHost req =>
    obtain ⟨r, -, heq⟩ := Except.bind_eq_ok_iff.mp hex
    cases heq
    simp
  | report req =>
    obtain ⟨⟨s₁, repts⟩, hcall, heq⟩ := Except.bind_eq_ok_iff.mp hex
    cases heq
    unfold RouteLB.report at hcall
    obtain ⟨n, -, hcall⟩ := Except.bind_eq_ok_iff.mp hcall
    dsimp only at hcall
    split at hcall
    · cases hcall
      simp
    · obtain ⟨⟨lb₂, rept⟩, hrept, heq⟩ := Except.bind_eq_ok_iff.mp hcall
      cases heq
      exact LB.report2Rpter_header hrept
  | batchReport req =>
    obtain ⟨⟨s₁, repts⟩, hcall, heq⟩ := Except.bind_eq_ok_iff.mp hex
    cases heq
    unfold RouteLB.batchReport at hcall
    dsimp only at hcall
    split at hcall
    · cases hcall
      simp
    · obtain ⟨⟨lb₂, rept⟩, hrept, heq⟩ := Except.bind_eq_ok_iff.mp hcall
      cases heq
      exact LB.report2Rpter_header hrept
  | getRoute req =>
    cases hex
    simp
  | cacheGetRoute req =>
    obtain ⟨r, -, heq⟩ := Except.bind_eq_ok_iff.mp hex
    cases heq
    simp
  | update rsp =>
    obtain ⟨r, -, heq⟩ := Except.bind_eq_ok_iff.mp hex
    cases heq
    simp
  | clearPulling =>
    cases hex
    simp

/-- An agent as the reporter sees it. `conn` is what was sent on its connection and is not read yet,
the oldest first, and `old` the same for the connections that it has given up. -/
structure RptAgent where
  shard : Fin 3 → RouteLB
  reptQueue : List ReportStatusReq
  conn : List ReportStatusReq
  old : List (List ReportStatusReq)

namespace RptAgent

/-- A call of a shard, the callback of `reptQueue`, a request that the reporter reads from the
connection or from one that was given up, a new connection, and the end of one that was given up. -/
inductive Event
  | call (i : Fin 3) (e : RouteLB.Call)
  | newReportReq
  | arrive (req : ReportStatusReq)
  | reconnect
  | arriveOld (req : ReportStatusReq)
  | closeOld

/-- One step. -/
inductive Step (cfg : LbConfigure R) (x : RptAgent) : Event → RptAgent → Prop
  | call {i : Fin 3} {e : RouteLB.Call} {shard : RouteLB}
      (h : (RouteLB.recorded cfg).step (x.shard i) e shard) : Step cfg x (.call i e)
        { x with shard := Function.update x.shard i shard, reptQueue := x.reptQueue ++ e.out.repts }
  | newReportReq {msgs rest : List ReportStatusReq} (h : x.reptQueue = msgs ++ rest) :
      Step cfg x .newReportReq { x with reptQueue := rest, conn := x.conn ++ msgs }
  | arrive {req : ReportStatusReq} {rest : List ReportStatusReq} (h : x.conn = req :: rest) :
      Step cfg x (.arrive req) { x with conn := rest }
  | reconnect : Step cfg x .reconnect { x with conn := [], old := x.old ++ [x.conn] }
  | arriveOld {req : ReportStatusReq} {rest : List ReportStatusReq}
      {before after : List (List ReportStatusReq)} (h : x.old = before ++ (req :: rest) :: after) :
      Step cfg x (.arriveOld req) { x with old := before ++ rest :: after }
  | closeOld {conn : List ReportStatusReq} {before after : List (List ReportStatusReq)}
      (h : x.old = before ++ conn :: after) : Step cfg x .closeOld { x with old := before ++ after }

/-- The request that the reporter reads. -/
def Event.arrived : Event → Option ReportStatusReq
  | .arrive req | .arriveOld req => some req
  | _ => none

/-- What the agent reports about the row. -/
def Event.reported (key : RowKey) : Event → List Row
  | .call _ e => rowsAbout key (e.out.repts.flatMap statements)
  | _ => []

/-- What is on its way to the reporter about the row, on the present connection. -/
def due (key : RowKey) (x : RptAgent) : List Row :=
  rowsAbout key ((x.conn ++ x.reptQueue).flatMap statements)

/-- What the reporter has not read yet. -/
def unread (x : RptAgent) : List ReportStatusReq := x.reptQueue ++ x.conn ++ x.old.flatten

/-- A connection that was given up has something about the row. -/
def LeftBehind (key : RowKey) (x : RptAgent) : Prop :=
  ∃ req ∈ x.old.flatten, ∃ sql ∈ statements req, sql.1 = key

/-- The shards are in order, and whatever is on its way names the agent. -/
structure Inv (cfg : LbConfigure R) (x : RptAgent) : Prop where
  shard : ∀ i, (x.shard i).Inv cfg
  caller : ∀ req ∈ x.unread, req.caller = cfg.myIp.toInt32

variable {x x' : RptAgent} {e : Event}

/-- The reporter reads what was on its way. -/
theorem Step.mem_unread (hs : Step cfg x e x') : ∀ req ∈ e.arrived, req ∈ x.unread := by
  cases hs with
  | arrive h =>
    rintro _ ⟨⟩
    simp [unread, h]
  | arriveOld h =>
    rintro _ ⟨⟩
    simp [unread, h]
  | _ => rintro _ ⟨⟩

/-- A step of the agent, the network or the reporter keeps the invariant. -/
theorem Inv.step (h : x.Inv cfg) (hs : Step cfg x e x') : x'.Inv cfg := by
  -- but for a call, nothing new gets on its way
  have hkeep : ∀ y : RptAgent, y.shard = x.shard → (∀ req ∈ y.unread, req ∈ x.unread) →
      y.Inv cfg := fun y hshard hsub =>
    ⟨fun i => hshard ▸ h.shard i, fun req hmem => h.caller req (hsub req hmem)⟩
  cases hs with
  | @call i e shard hex =>
    have hex : (x.shard i).exec cfg e.now e.op = .ok (shard, e.out) := hex
    constructor
    · intro j
      dsimp only
      rw [Function.update_apply]
      split
      · exact (h.shard i).effect ((h.shard i).result hex).effect
      · exact h.shard j
    · intro req hmem
      simp only [unread, List.mem_append] at hmem
      rcases hmem with ((hmem | hmem) | hmem) | hmem
      · exact h.caller req (by simp [unread, hmem])
      · exact (RouteLB.exec_header hex req hmem).1
      · exact h.caller req (by simp [unread, hmem])
      · exact h.caller req (List.mem_append_right _ hmem)
  | newReportReq hq =>
    refine hkeep _ rfl fun req hmem => ?_
    simp only [unread, hq, List.mem_append] at hmem ⊢
    tauto
  | arrive hq =>
    refine hkeep _ rfl fun req hmem => ?_
    simp only [unread, hq, List.mem_append, List.mem_cons] at hmem ⊢
    tauto
  | reconnect =>
    refine hkeep _ rfl fun req hmem => ?_
    simp only [unread, List.flatten_append, List.flatten_singleton, List.mem_append] at hmem ⊢
    simp only [List.not_mem_nil, or_false] at hmem
    tauto
  | arriveOld hq =>
    refine hkeep _ rfl fun req hmem => ?_
    simp only [unread, hq, List.flatten_append, List.flatten_cons, List.mem_append,
      List.mem_cons] at hmem ⊢
    tauto
  | closeOld hq =>
    refine hkeep _ rfl fun req hmem => ?_
    simp only [unread, hq, List.flatten_append, List.flatten_cons, List.mem_append] at hmem ⊢
    tauto

/-- Without a new connection what is on its way keeps its order, and nothing about the row comes
from a connection that was given up if none of them has anything about it. -/
theorem Step.due (hs : Step cfg x e x') (hne : e ≠ .reconnect) (hold : ¬x.LeftBehind key) :
    rowsAbout key (e.arrived.toList.flatMap statements) ++ x'.due key =
        x.due key ++ e.reported key ∧ ¬x'.LeftBehind key := by
  cases hs with
  | call h =>
    refine ⟨?_, hold⟩
    simp only [RptAgent.due, Event.reported, ← rowsAbout_append, ← List.flatMap_append,
      List.append_assoc]
    rfl
  | newReportReq h =>
    refine ⟨?_, hold⟩
    simp [RptAgent.due, Event.reported, Event.arrived, h]
  | @arrive req rest h =>
    refine ⟨?_, hold⟩
    simp [RptAgent.due, Event.reported, Event.arrived, h, rowsAbout_append]
  | reconnect => exact absurd rfl hne
  | @arriveOld req rest before after h =>
    have hreq : rowsAbout key (statements req) = [] :=
      rowsAbout_eq_nil fun sql hsql heq => hold ⟨req, by simp [h], sql, hsql, heq⟩
    refine ⟨?_, fun ⟨req', hmem, hsql⟩ => hold ⟨req', ?_, hsql⟩⟩
    · simp [RptAgent.due, Event.reported, Event.arrived, hreq]
    · simp only [h, List.flatten_append, List.flatten_cons, List.mem_append,
        List.mem_cons] at hmem ⊢
      tauto
  | closeOld h =>
    refine ⟨?_, fun ⟨req, hmem, hsql⟩ => hold ⟨req, ?_, hsql⟩⟩
    · simp [RptAgent.due, Event.reported, Event.arrived]
    · simp only [h, List.flatten_append, List.flatten_cons, List.mem_append] at hmem ⊢
      tauto

end RptAgent

/-! ## Agents and reporter -/

/-- The agents and the reporter. -/
structure Statistics (ι : Type) (threadCnt : ℕ) where
  agent : ι → RptAgent
  reporter : Reporter.State threadCnt

namespace Statistics

variable {ι : Type} [DecidableEq ι] {threadCnt : ℕ} [NeZero threadCnt]

/-- Who takes a step: an agent with its connections, or a worker of the reporter, which takes its
queue, a request or a statement. `ok` says whether the query succeeds, if its numbers are taken. -/
inductive Event (ι : Type) (threadCnt : ℕ)
  | agent (a : ι) (e : RptAgent.Event)
  | recvMsg (i : Fin threadCnt)
  | popMsg (i : Fin threadCnt)
  | insert (i : Fin threadCnt) (sql : RowKey × Row) (ok : Bool)

/-- What the reporter does with a request that it reads. -/
def receive (r : Reporter.State threadCnt) (e : RptAgent.Event) : Reporter.State threadCnt :=
  e.arrived.elim r r.reportStatus

/-- The row that a query writes, if it succeeds and the server takes its numbers. -/
def inserted (strict : Bool) (sql : RowKey × Row) (ok : Bool) : Option (RowKey × Row) :=
  if ok then storedRow strict sql else none

/-- One step. A query that fails is logged, and the worker goes on to the next statement. -/
inductive Step (cfg : ι → LbConfigure R) (strict : Bool) (s : Statistics ι threadCnt) :
    Event ι threadCnt → Statistics ι threadCnt → Prop
  | agent {a : ι} {e : RptAgent.Event} {x : RptAgent} (h : RptAgent.Step (cfg a) (s.agent a) e x) :
      Step cfg strict s (.agent a e)
        { agent := Function.update s.agent a x, reporter := receive s.reporter e }
  | recvMsg {i : Fin threadCnt} {r : Reporter.State threadCnt}
      (h : Reporter.Step s.reporter (.recvMsg i) r) :
      Step cfg strict s (.recvMsg i) { s with reporter := r }
  | popMsg {i : Fin threadCnt} {r : Reporter.State threadCnt}
      (h : Reporter.Step s.reporter (.popMsg i) r) :
      Step cfg strict s (.popMsg i) { s with reporter := r }
  | insert {i : Fin threadCnt} {queue msgs : List ReportStatusReq} {sql : RowKey × Row}
      {rest : List (RowKey × Row)} (ok : Bool)
      (h : s.reporter.workers i = ⟨queue, msgs, sql :: rest⟩) :
      Step cfg strict s (.insert i sql ok) { s with
        reporter := { s.reporter.setWorker i ⟨queue, msgs, rest⟩ with
          table := (inserted strict sql ok).elim s.reporter.table
            (Overwrite.write s.reporter.table) } }

/-- Runs from new agents and a new reporter, on a table that may have rows; `strict` is the mode of
the database server. -/
def system (cfg : ι → LbConfigure R) (threadCnt : ℕ) [NeZero threadCnt] (strict : Bool)
    (start : Table) : System (Statistics ι threadCnt) (Event ι threadCnt) where
  init s := (∀ a, ∃ ids : Fin 3 → ℕ, s.agent a = ⟨fun i => .new (ids i), [], [], []⟩) ∧
    s.reporter = ⟨[], fun _ => ⟨[], [], []⟩, start⟩
  step := Step cfg strict

/-- What an agent reports about the row. -/
def reported (a : ι) (key : RowKey) : Event ι threadCnt → List Row
  | .agent b e => if b = a then e.reported key else []
  | .recvMsg _ | .popMsg _ | .insert _ _ _ => []

/-- What is written to the row. -/
def written (strict : Bool) (key : RowKey) : Event ι threadCnt → List Row
  | .insert _ sql ok => rowsAbout key (inserted strict sql ok).toList
  | .agent _ _ | .recvMsg _ | .popMsg _ => []

/-- A query about the row succeeds, with numbers that fit in the columns, and no other statement
ends in the row because its numbers are cut. -/
def Lands (strict : Bool) (key : RowKey) : Event ι threadCnt → Prop
  | .insert _ sql ok => (sql.1 = key → ok = true ∧ Representable sql) ∧
      ∀ p ∈ inserted strict sql ok, p.1 = key → sql.1 = key
  | _ => True

/-- The agent keeps its connection, and what is about the row gets there. -/
def Undisturbed (strict : Bool) (a : ι) (key : RowKey) (e : Event ι threadCnt) : Prop :=
  e ≠ .agent a .reconnect ∧ Lands strict key e

/-- What is on its way from the agent to the row. -/
def inFlight (a : ι) (key : RowKey) (s : Statistics ι threadCnt) : List Row :=
  s.reporter.pendingAbout key ++ (s.agent a).due key

omit [DecidableEq ι] [NeZero threadCnt] in
/-- A statement that lands writes the row that it prints, and else nothing to the row. -/
theorem rowsAbout_inserted {strict : Bool} {i : Fin threadCnt} {sql : RowKey × Row} {ok : Bool}
    (h : Lands strict key (.insert i sql ok : Event ι threadCnt)) :
    rowsAbout key (inserted strict sql ok).toList = rowsAbout key [sql] := by
  rw [rowsAbout_singleton]
  split
  · next heq =>
    obtain ⟨rfl, hrep⟩ := h.1 heq
    rw [inserted, if_pos rfl, storedRow, if_pos hrep, Option.toList_some, rowsAbout_singleton,
      if_pos heq]
  · next hne =>
    exact rowsAbout_eq_nil fun p hp heq => hne (h.2 p (Option.mem_toList.mp hp) heq)

/-- The row shows what was written to it. -/
theorem elim_write (table : Table) (w : Option (RowKey × Row)) :
    (w.elim table (Overwrite.write table)) key = (rowsAbout key w.toList).getLast?.or (table key) := by
  cases w with
  | none => rfl
  | some p =>
    rw [Option.toList_some, rowsAbout_singleton]
    split
    · next heq =>
      rw [← heq]
      exact Function.update_self _ _ _
    · next hne => exact Overwrite.write_of_ne _ hne

/-- The agents and the reporter are in order. -/
structure Inv (cfg : ι → LbConfigure R) (s : Statistics ι threadCnt) : Prop where
  agent : ∀ a, (s.agent a).Inv (cfg a)
  owned : s.reporter.Owned

variable {cfg : ι → LbConfigure R} {strict : Bool} {start : Table} {s s' : Statistics ι threadCnt}
  {e : Event ι threadCnt} {a : ι}

/-- A step keeps the invariant, whether or not its query succeeds. -/
theorem Inv.step (h : Inv cfg s) (hs : Step cfg strict s e s') : Inv cfg s' := by
  cases hs with
  | @agent a e x hx =>
    constructor
    · intro b
      dsimp only
      rw [Function.update_apply]
      split
      · next hb => exact hb ▸ (h.agent a).step hx
      · exact h.agent b
    · dsimp only [receive]
      cases e.arrived with
      | none => exact h.owned
      | some req => exact h.owned.reportStatus req
  | recvMsg hr => exact ⟨h.agent, (hr.pendingAbout_eq (by simp) (by simp)).2.2 h.owned⟩
  | popMsg hr => exact ⟨h.agent, (hr.pendingAbout_eq (by simp) (by simp)).2.2 h.owned⟩
  | insert ok hi => exact ⟨h.agent, h.owned.insert hi _⟩

/-- At first nothing is on its way. -/
theorem inv_of_init (h : (system cfg threadCnt strict start).init s) : Inv cfg s := by
  constructor
  · intro a
    obtain ⟨ids, heq⟩ := h.1 a
    rw [heq]
    exact ⟨fun i => RouteLB.inv_new (ids i), by simp [RptAgent.unread]⟩
  · rw [h.2]
    exact fun i sql hsql => absurd hsql (by simp [Worker.pending])

/-- It holds in every reachable state. -/
theorem inv_of_reachable (h : (system cfg threadCnt strict start).Reachable s) : Inv cfg s := by
  refine h.invariant ?_ ?_
  · exact fun _ h₀ => inv_of_init h₀
  · exact fun _ _ _ _ ih hs => ih.step hs

/-! ## The way of the reports about a row -/

/-- A message that arrives waits behind the others about its row. -/
theorem pendingAbout_receive (r : Reporter.State threadCnt) (e : RptAgent.Event) :
    (receive r e).pendingAbout key =
      r.pendingAbout key ++ rowsAbout key (e.arrived.toList.flatMap statements) := by
  unfold receive
  cases e.arrived with
  | none => simp
  | some req => simp [pendingAbout_reportStatus]

omit [DecidableEq ι] in
/-- What another agent sends is about other rows. -/
theorem Inv.rowsAbout_other (h : Inv cfg s) {b : ι} {x : RptAgent} {e : RptAgent.Event}
    (hs : RptAgent.Step (cfg b) (s.agent b) e x) (hb : (cfg b).myIp ≠ key.caller) :
    rowsAbout key (e.arrived.toList.flatMap statements) = [] := by
  refine rowsAbout_eq_nil fun sql hsql heq => ?_
  obtain ⟨req, hreq, hsql⟩ := List.mem_flatMap.mp hsql
  obtain ⟨result, -, rfl⟩ := List.mem_map.mp hsql
  have hcaller := (h.agent b).caller req (hs.mem_unread req (Option.mem_toList.mp hreq))
  apply hb
  rw [← heq, statement, hcaller, UInt32.toUInt32_toInt32]

/-- One step: what was on its way to the row and what its agent reports is written first come first
served. -/
theorem Inv.fifo_step (h : Inv cfg s) (hs : Step cfg strict s e s')
    (hkey : key.caller = (cfg a).myIp) (hother : ∀ b, b ≠ a → (cfg b).myIp ≠ (cfg a).myIp)
    (hc : Undisturbed strict a key e) (hold : ¬(s.agent a).LeftBehind key) :
    written strict key e ++ s'.inFlight a key = s.inFlight a key ++ reported a key e ∧
      s'.reporter.table key = (written strict key e).getLast?.or (s.reporter.table key) ∧
        ¬(s'.agent a).LeftBehind key := by
  obtain ⟨hne, hlands⟩ := hc
  cases hs with
  | @agent b e x hx =>
    have htable : (receive s.reporter e).table = s.reporter.table := by
      unfold receive
      cases e.arrived <;> rfl
    refine ⟨?_, by rw [htable]; rfl, ?_⟩
    · rw [inFlight, inFlight, pendingAbout_receive, written, List.nil_append]
      dsimp only
      by_cases hb : b = a
      · subst hb
        obtain ⟨hdue, -⟩ := hx.due (fun heq => hne (heq ▸ rfl)) hold
        rw [Function.update_self, reported, if_pos rfl, List.append_assoc, hdue, List.append_assoc]
      · rw [h.rowsAbout_other hx (hkey ▸ hother b hb), Function.update_of_ne (Ne.symm hb), reported,
          if_neg hb, List.append_nil, List.append_nil]
    · dsimp only
      by_cases hb : b = a
      · subst hb
        rw [Function.update_self]
        exact (hx.due (fun heq => hne (heq ▸ rfl)) hold).2
      · rwa [Function.update_of_ne (Ne.symm hb)]
  | recvMsg hr =>
    obtain ⟨hpending, htable, -⟩ := hr.pendingAbout_eq (by simp) (by simp)
    refine ⟨?_, congrFun htable key, hold⟩
    rw [inFlight, inFlight, reported, List.append_nil, written, List.nil_append, hpending]
  | popMsg hr =>
    obtain ⟨hpending, htable, -⟩ := hr.pendingAbout_eq (by simp) (by simp)
    refine ⟨?_, congrFun htable key, hold⟩
    rw [inFlight, inFlight, reported, List.append_nil, written, List.nil_append, hpending]
  | @insert i queue msgs sql rest ok hi =>
    refine ⟨?_, elim_write _ _, hold⟩
    rw [inFlight, inFlight, reported, List.append_nil, written, rowsAbout_inserted hlands,
      ← List.append_assoc, h.owned.pendingAbout_insert hi]

/-- Over a run in which the agent keeps its connection, what was on its way to the row and what the
agent reports about it is written first come first served, and the row shows the last of it. -/
theorem Inv.fifo_run (h : Inv cfg s) {tr : List (Event ι threadCnt × Statistics ι threadCnt)}
    (hrun : (system cfg threadCnt strict start).Run s tr) (hkey : key.caller = (cfg a).myIp)
    (hother : ∀ b, b ≠ a → (cfg b).myIp ≠ (cfg a).myIp) (hold : ¬(s.agent a).LeftBehind key)
    (hc : ∀ x ∈ tr, Undisturbed strict a key x.1) :
    System.gathered (fun _ e => written strict key e) s tr ++ (System.last s tr).inFlight a key =
        s.inFlight a key ++ System.gathered (fun _ e => reported a key e) s tr ∧
      (System.last s tr).reporter.table key =
        (System.gathered (fun _ e => written strict key e) s tr).getLast?.or
          (s.reporter.table key) := by
  have hI : ∀ s e s', Inv cfg s ∧ ¬(s.agent a).LeftBehind key → Undisturbed strict a key e →
      (system cfg threadCnt strict start).step s e s' → Inv cfg s' ∧ ¬(s'.agent a).LeftBehind key :=
    fun s e s' hs hc hstep => ⟨hs.1.step hstep, (hs.1.fifo_step hstep hkey hother hc hs.2).2.2⟩
  constructor
  · refine hrun.gathered_pipe (inFlight a key) hI ?_ hc ⟨h, hold⟩
    exact fun s e s' hs hc hstep => (hs.1.fifo_step hstep hkey hother hc hs.2).1
  · refine hrun.register_last (fun s => s.reporter.table key) hI ?_ hc ⟨h, hold⟩
    exact fun s e s' hs hc hstep => (hs.1.fifo_step hstep hkey hother hc hs.2).2.1

/-- In every run in which an agent keeps its connection, and for each of its rows, what is written
to the row, in the order of the workers' turns, followed by what is on its way to it, is exactly
what the agent reports about it, in the order of its calls, and the row shows the last that was
written: as long as each query about the row succeeds with numbers that fit, and no other numbers
are cut to those of the row. -/
theorem written_in_order {s₀ : Statistics ι threadCnt}
    {tr : List (Event ι threadCnt × Statistics ι threadCnt)}
    (h₀ : (system cfg threadCnt strict start).init s₀)
    (h : (system cfg threadCnt strict start).Run s₀ tr)
    (hkey : key.caller = (cfg a).myIp) (hother : ∀ b, b ≠ a → (cfg b).myIp ≠ (cfg a).myIp)
    (hconn : ∀ x ∈ tr, x.1 ≠ .agent a .reconnect) (hlands : ∀ x ∈ tr, Lands strict key x.1) :
    System.gathered (fun _ e => written strict key e) s₀ tr ++
        (System.last s₀ tr).inFlight a key =
      System.gathered (fun _ e => reported a key e) s₀ tr ∧
      (System.last s₀ tr).reporter.table key =
        (System.gathered (fun _ e => written strict key e) s₀ tr).getLast?.or (start key) := by
  obtain ⟨ids, hagent⟩ := h₀.1 a
  have hold : ¬(s₀.agent a).LeftBehind key := by
    rw [hagent]
    rintro ⟨req, hmem, -⟩
    cases hmem
  have hnone : s₀.inFlight a key = [] := by
    rw [inFlight, hagent, h₀.2]
    rfl
  have hstart : s₀.reporter.table key = start key := by rw [h₀.2]
  have hrun := (inv_of_init h₀).fifo_run h hkey hother hold fun x hx => ⟨hconn x hx, hlands x hx⟩
  rwa [hnone, hstart, List.nil_append] at hrun

end Statistics

/-! ## What a report says of a host -/

/-- The row that an agent has for a host of a module. -/
def rowKey (cfg : LbConfigure R) (modid cmdid : Int32) (hi : HI) : RowKey :=
  ⟨modid, cmdid, hi.ip, hi.port.toUInt32, cfg.myIp⟩

/-- What the row shows of the record at the time of a report. -/
def rowOf (now : ℤ) (hi : HI) : Row := ⟨hi.rSucc, hi.rErr, UInt32.ofInt now, hi.overload⟩

omit [RateArith R] in
/-- The statement of a result has the key of its row and the columns of its record. -/
theorem statement_result {cfg : LbConfigure R} {now : ℤ} {req : ReportStatusReq}
    (hcaller : req.caller = cfg.myIp.toInt32) (hts : req.ts = UInt32.ofInt now) (hi : HI) :
    statement req (LB.result hi) = (rowKey cfg req.modid req.cmdid hi, rowOf now hi) := by
  rw [statement, hcaller, hts]
  simp [LB.result, rowKey, rowOf]

omit [RateArith R] in
/-- Different hosts have different rows. -/
theorem key_eq_of_rowKey {cfg : LbConfigure R} {modid cmdid modid' cmdid' : Int32} {hi hi' : HI}
    (h : rowKey cfg modid cmdid hi = rowKey cfg modid' cmdid' hi') :
    modid = modid' ∧ cmdid = cmdid' ∧ hi.key = hi'.key := by
  obtain ⟨hm, hc, hip, hport, -⟩ := RowKey.mk.inj h
  refine ⟨hm, hc, ?_⟩
  rw [HI.key, HI.key, HI.addr, HI.addr, hip, ← Int32.toInt32_toUInt32 hi.port, hport,
    Int32.toInt32_toUInt32]

/-- A call that reports a module reports each host of it with its record. -/
theorem RouteLB.Inv.rowsAbout_repts {s s' : RouteLB} {e : RouteLB.Call} (h : s.Inv cfg)
    (hex : (RouteLB.recorded cfg).step s e s') {modid cmdid : Int32} (hr : e.reports modid cmdid)
    {lb : LB} (hk : s'.routeMap.lookup (packKey modid cmdid) = some lb) {k : UInt64} {hi : HI}
    (hhost : lb.hostMap.lookup k = some hi) :
    rowsAbout (rowKey cfg modid cmdid hi) (e.out.repts.flatMap statements) ≠ [] ∧
      ∀ row ∈ rowsAbout (rowKey cfg modid cmdid hi) (e.out.repts.flatMap statements),
        row = rowOf e.now hi := by
  have hex : s.exec cfg e.now e.op = .ok (s', e.out) := hex
  have hinv : s'.Inv cfg := h.effect (h.result hex).effect
  have hrep := LB.repInv_of_reachable (hinv.lb_reachable _ lb hk)
  -- a report of the module is about its present hosts
  have hnames : ∀ req ∈ e.out.repts, req.modid = modid → req.cmdid = cmdid → lb.Names req := by
    intro req hmem hm hc
    obtain ⟨key, lb', hk', hnames⟩ := (h.result hex).names req hmem
    have hkey := hinv.key_eq key lb' hk'
    rw [← hnames.modid_eq, ← hnames.cmdid_eq, hm, hc] at hkey
    rw [← hkey, hk] at hk'
    exact Option.some.inj hk' ▸ hnames
  constructor
  · obtain ⟨req, hmem, rfl, rfl⟩ := hr
    obtain ⟨hcaller, hts⟩ := RouteLB.exec_header hex req hmem
    have hsql : (rowKey cfg req.modid req.cmdid hi, rowOf e.now hi) ∈ statements req := by
      rw [← statement_result hcaller hts]
      exact List.mem_map_of_mem (((hnames req hmem rfl rfl).mem_iff _).mpr ⟨k, hi, hhost, rfl⟩)
    exact List.ne_nil_of_mem (mem_rowsAbout.mpr (List.mem_flatMap.mpr ⟨req, hmem, hsql⟩))
  · intro row hrow
    obtain ⟨req, hmem, hsql⟩ := List.mem_flatMap.mp (mem_rowsAbout.mp hrow)
    obtain ⟨result, hresult, heq⟩ := List.mem_map.mp hsql
    obtain ⟨hcaller, hts⟩ := RouteLB.exec_header hex req hmem
    obtain ⟨hm, hc⟩ : req.modid = modid ∧ req.cmdid = cmdid := by
      obtain ⟨hm, hc, -⟩ := RowKey.mk.inj (Prod.mk.inj heq).1
      exact ⟨hm, hc⟩
    obtain ⟨k', hi', hhost', rfl⟩ := ((hnames req hmem hm hc).mem_iff _).mp hresult
    rw [statement_result hcaller hts] at heq
    obtain ⟨hrow, hval⟩ := Prod.mk.inj heq
    -- it is the same host
    have hkey : k' = k := by
      rw [← hrep.key_eq k' hi' hhost', ← hrep.key_eq k hi hhost]
      exact (key_eq_of_rowKey hrow).2.2
    rw [hkey, hhost] at hhost'
    rw [← hval, Option.some.inj hhost']

namespace Statistics

variable {ι : Type} [DecidableEq ι] {threadCnt : ℕ} [NeZero threadCnt] {cfg : ι → LbConfigure R}
  {strict : Bool} {start : Table} {s s₁ : Statistics ι threadCnt} {a : ι}

/-- After an agent has reported a module, the row of each host comes to show the record of the host
as it was then. This is what the row shows in every state in which nothing is on its way to it, for
as long as the agent keeps its connection and does not report the host again, if no connection that
it had given up before has something about the row, each query about the row succeeds with numbers
that fit, and no other numbers are cut to those of the row. -/
theorem row_of_lastReport (h : (system cfg threadCnt strict start).Reachable s) {i : Fin 3}
    {e : RouteLB.Call} (hs : (system cfg threadCnt strict start).step s (.agent a (.call i e)) s₁)
    {modid cmdid : Int32} (hreports : e.reports modid cmdid) {lb : LB}
    (hk : ((s₁.agent a).shard i).routeMap.lookup (packKey modid cmdid) = some lb) {k : UInt64}
    {hi : HI} (hhost : lb.hostMap.lookup k = some hi)
    (hother : ∀ b, b ≠ a → (cfg b).myIp ≠ (cfg a).myIp)
    (hold : ¬(s.agent a).LeftBehind (rowKey (cfg a) modid cmdid hi))
    {after : List (Event ι threadCnt × Statistics ι threadCnt)}
    (hrun : (system cfg threadCnt strict start).Run s₁ after)
    (hconn : ∀ x ∈ after, x.1 ≠ .agent a .reconnect)
    (hlands : ∀ x ∈ after, Lands strict (rowKey (cfg a) modid cmdid hi) x.1)
    (hlast : ∀ x ∈ after, reported a (rowKey (cfg a) modid cmdid hi) x.1 = [])
    (hquiet : (System.last s₁ after).inFlight a (rowKey (cfg a) modid cmdid hi) = []) :
    (System.last s₁ after).reporter.table (rowKey (cfg a) modid cmdid hi) =
      some (rowOf e.now hi) := by
  have hinv := inv_of_reachable h
  have hstep : Step cfg strict s (.agent a (.call i e)) s₁ := hs
  obtain ⟨hpipe, -, hold₁⟩ := hinv.fifo_step hstep rfl hother ⟨by simp, trivial⟩ hold
  obtain ⟨hrows, htable⟩ := (hinv.step hstep).fifo_run hrun rfl hother hold₁
    fun x hx => ⟨hconn x hx, hlands x hx⟩
  rw [hquiet, System.gathered_eq_nil _ hlast, List.append_nil, List.append_nil] at hrows
  -- what the report says is the last that is written
  obtain ⟨hne, hall⟩ : reported a (rowKey (cfg a) modid cmdid hi) (.agent a (.call i e) :
      Event ι threadCnt) ≠ [] ∧ ∀ row ∈ reported a (rowKey (cfg a) modid cmdid hi)
        (.agent a (.call i e) : Event ι threadCnt), row = rowOf e.now hi := by
    cases hstep with
    | agent hx =>
      cases hx with
      | call hex =>
        simp only [Function.update_self] at hk
        rw [reported, if_pos rfl]
        exact ((hinv.agent a).shard i).rowsAbout_repts hex hreports hk hhost
  rw [written, List.nil_append] at hpipe
  rw [htable, hrows, hpipe, List.getLast?_append, List.getLast?_eq_some_getLast hne,
    hall _ (List.getLast_mem hne)]
  rfl

/-- Two agents with addresses of their own. -/
def twoAgents (a : Fin 2) : LbConfigure ℚ :=
  { LbConfigure.default with myIp := 0x7F000001 + a.val.toUInt32 }

/-- Two new agents and a reporter with one worker. -/
def newAgents : Statistics (Fin 2) 1 := ⟨fun _ => ⟨fun i => .new i, [], [], []⟩,
  ⟨[], fun _ => ⟨[], [], []⟩, fun _ => none⟩⟩

/-- What the first agent reports of a host, as a statement. -/
def oneStatement : RowKey × Row := (⟨1, 2, 10, 80, 0x7F000001⟩, ⟨0, 0, 23, false⟩)

/-- The first agent asks for a module with one host, gets its route and reports it. The report is
taken to the table. -/
theorem exists_oneReport : ∃ s₁ s₂ s₃ s₄ s₅ s₆ s₇ s₈,
    (system twoAgents 1 true fun _ => none).Run newAgents
      [(.agent 0 (.call 0 (RouteLB.asked 1 2 [⟨1, 2⟩])), s₁),
        (.agent 0 (.call 0 ⟨8, .update ⟨1, 2, [⟨10, 80⟩]⟩, ⟨none, [], []⟩⟩), s₂),
        (.agent 0 (.call 0 (RouteLB.reportAt 23 23)), s₃), (.agent 0 .newReportReq, s₄),
        (.agent 0 (.arrive ⟨1, 2, 0x7F000001, [⟨10, 80, 0, 0, false⟩], 23⟩), s₅),
        (.recvMsg 0, s₆), (.popMsg 0, s₇), (.insert 0 oneStatement true, s₈)] ∧
      (s₂.agent 0).old = [] ∧ s₈.inFlight 0 oneStatement.1 = [] ∧
        ((((s₃.agent 0).shard 0).routeMap.lookup (packKey 1 2)).bind fun lb =>
            lb.hostMap.lookup (packKey 10 80)).map
          (fun hi => (rowKey (twoAgents 0) 1 2 hi, rowOf 23 hi)) = some oneStatement := by
  refine ⟨_, _, _, _, _, _, _, _, .cons (.agent (.call (RouteLB.step_afterCall _ _ ?_))) <|
    .cons (.agent (.call (RouteLB.step_afterCall _ _ ?_))) <|
    .cons (.agent (.call (RouteLB.step_afterCall _ _ ?_))) <|
    .cons (.agent (.newReportReq (List.append_nil _).symm)) <| .cons (.agent (.arrive rfl)) <|
    .cons (.recvMsg (.recvMsg _ 0 [_] [] rfl)) <| .cons (.popMsg (.popMsg _ 0 _ _ _ rfl)) <|
    .cons (.insert true rfl) (.nil _), rfl, ?_, ?_⟩
  all_goals decide +kernel

/-- The statement fits in the columns. -/
theorem lands_oneStatement :
    Lands true oneStatement.1 (.insert 0 oneStatement true : Event (Fin 2) 1) :=
  ⟨fun _ => ⟨rfl, by decide⟩, fun _ _ _ => rfl⟩

/-- The report is written, and the row shows it. -/
theorem written_in_order_one_report : ∃ tr,
    (system twoAgents 1 true fun _ => none).Run newAgents tr ∧
      System.gathered (fun _ e => written true oneStatement.1 e) newAgents tr =
          [⟨0, 0, 23, false⟩] ∧
        (System.last newAgents tr).reporter.table oneStatement.1 = some ⟨0, 0, 23, false⟩ := by
  obtain ⟨s₁, s₂, s₃, s₄, s₅, s₆, s₇, s₈, hrun, -, hquiet, -⟩ := exists_oneReport
  have hinit : (system twoAgents 1 true fun _ => none).init newAgents :=
    ⟨fun a => ⟨fun i => i, rfl⟩, rfl⟩
  have hkey : oneStatement.1.caller = (twoAgents 0).myIp := rfl
  obtain ⟨hpipe, htable⟩ := written_in_order hinit hrun hkey (by decide) (by simp) (by
    simp only [List.forall_mem_cons, List.not_mem_nil, false_imp_iff, implies_true, and_true]
    exact ⟨trivial, trivial, trivial, trivial, trivial, trivial, trivial, lands_oneStatement⟩)
  simp only [System.last] at hpipe htable
  rw [hquiet, List.append_nil] at hpipe
  refine ⟨_, hrun, hpipe, ?_⟩
  simp only [System.last]
  rw [htable, hpipe]
  rfl

/-- The row shows the record of the host. -/
theorem row_of_lastReport_one_report :
    ∃ s, (system twoAgents 1 true fun _ => none).Reachable s ∧
      s.reporter.table oneStatement.1 = some ⟨0, 0, 23, false⟩ := by
  obtain ⟨s₁, s₂, s₃, s₄, s₅, s₆, s₇, s₈, hrun, hold, hquiet, hrow⟩ := exists_oneReport
  obtain ⟨hi, hbind, hrow⟩ := Option.map_eq_some_iff.mp hrow
  obtain ⟨lb, hk, hhost⟩ := Option.bind_eq_some_iff.mp hbind
  obtain ⟨hkey, hrow⟩ := Prod.mk.inj hrow
  have hinit : (system twoAgents 1 true fun _ => none).Reachable newAgents :=
    .init ⟨fun a => ⟨fun i => i, rfl⟩, rfl⟩
  have hrun : System.Run _ newAgents ([_, _] ++ (_, s₃) :: _) := hrun
  obtain ⟨hbefore, hcall, hafter⟩ := hrun.split
  have hreach := hbefore.reachable_last hinit
  have hreports : (RouteLB.reportAt 23 23).reports 1 2 := ⟨_, List.mem_singleton_self _, rfl, rfl⟩
  have hkey : rowKey (twoAgents 0) 1 2 hi = oneStatement.1 := hkey
  have hnone : ¬(s₂.agent 0).LeftBehind (rowKey (twoAgents 0) 1 2 hi) := by
    simp [RptAgent.LeftBehind, hold]
  have htable := row_of_lastReport hreach hcall hreports hk hhost (by decide) hnone hafter (by simp)
    (by
      rw [hkey]
      simp only [List.forall_mem_cons, List.not_mem_nil, false_imp_iff, implies_true, and_true]
      exact ⟨trivial, trivial, trivial, trivial, lands_oneStatement⟩)
    (by simp [reported, RptAgent.Event.reported]) (by rwa [hkey])
  have hrow' : rowOf (RouteLB.reportAt 23 23).now hi = _ := hrow
  rw [hkey, hrow'] at htable
  exact ⟨_, hafter.reachable_last (hreach.step hcall), htable⟩

end Statistics

end Elb
