import Elb.Lbagent.LbInvariant

/-!
# What a call result does to one host

`LB::report`, `LB::reportSomeSucc` and `LB::reportSomeErr` write one record and sort it into one of
the lists. The functions below say what is written, and `Writes` that nothing else is: results about
the load of a host need only these.
-/

namespace Elb

variable {R : Type} [RateArith R] (cfg : LbConfigure R) (now : ℤ)

namespace HI

/-- The record after the closing block. -/
def checkTimo (hi : HI) : HI :=
  if !hi.overload then
    if now - hi.windowTs ≥ cfg.clearTimo then
      if (hi.checkWindow cfg).1 then
        (hi.checkWindow cfg).2.setOverload cfg.ovldErrCnt.toUInt32 now
      else
        (hi.checkWindow cfg).2.resetIdle cfg.initSuccCnt.toUInt32 now
    else
      hi
  else if now - hi.overloadTs ≥ cfg.ovldWaitLim then
    hi.resetIdle cfg.initSuccCnt.toUInt32 now
  else
    hi

/-- The closing block starts the record over: the window of an idle host is over, or the waiting
time of an overloaded one. -/
def TimoDue (hi : HI) : Prop :=
  (hi.overload = false ∧ cfg.clearTimo ≤ now - hi.windowTs) ∨
    (hi.overload = true ∧ cfg.ovldWaitLim ≤ now - hi.overloadTs)

instance (hi : HI) : Decidable (hi.TimoDue cfg now) :=
  inferInstanceAs (Decidable (_ ∧ _ ∨ _ ∧ _))

/-- The record after `LB::report`. -/
def report (retcode : Int32) (hi : HI) : HI :=
  let hi := if retcode = 0 then (hi.addSucc 1).countSucc 1 else (hi.addErr 1).countErr 1
  if !hi.overload && retcode != 0 then
    if RateArith.ratioGt hi.err (hi.succ + hi.err) cfg.errRate ||
        hi.continErr ≥ cfg.continErrLim.toUInt32 then
      hi.setOverload cfg.ovldErrCnt.toUInt32 now
    else
      hi.checkTimo cfg now
  else if hi.overload && retcode == 0 then
    if RateArith.ratioGt hi.succ (hi.succ + hi.err) cfg.succRate ||
        hi.continSucc ≥ cfg.continSuccLim.toUInt32 then
      hi.resetIdle cfg.initSuccCnt.toUInt32 now
    else
      hi.checkTimo cfg now
  else
    hi.checkTimo cfg now

/-- The record after `LB::reportSomeSucc`. -/
def reportSomeSucc (succCnt : UInt32) (hi : HI) : HI :=
  let hi := hi.countSucc succCnt
  if !hi.overload then
    (hi.addSucc succCnt).checkTimo cfg now
  else
    let left := LB.judgeIdle cfg succCnt hi
    let hi := hi.addSucc (succCnt - left.2)
    if left.1 then
      ((hi.resetIdle cfg.initSuccCnt.toUInt32 now).addSucc left.2).checkTimo cfg now
    else
      (hi.addSucc left.2).checkTimo cfg now

/-- The record after `LB::reportSomeErr`. -/
def reportSomeErr (errCnt : UInt32) (hi : HI) : HI :=
  let hi := hi.countErr errCnt
  if hi.overload then
    (hi.addErr errCnt).checkTimo cfg now
  else
    let left := LB.judgeOverload cfg errCnt hi
    let hi := hi.addErr (errCnt - left.2)
    if left.1 then
      ((hi.setOverload cfg.ovldErrCnt.toUInt32 now).addErr left.2).checkTimo cfg now
    else
      (hi.addErr left.2).checkTimo cfg now

end HI

namespace LB

/-- `lb'` is `lb` with `hi` written to `_hostMap[key]` and with other lists. -/
def Writes (lb : LB) (key : UInt64) (hi : HI) (lb' : LB) : Prop :=
  ∃ run down, lb' = { lb with
    hostMap := lb.hostMap.insert key hi, runningList := run, downList := down }

/-- Under its key the record is found, under the other keys what was there. -/
theorem Writes.lookup {lb lb' : LB} {key : UInt64} {hi : HI} (h : Writes lb key hi lb')
    (k : UInt64) : lb'.hostMap.lookup k = if k = key then some hi else lb.hostMap.lookup k := by
  obtain ⟨run, down, rfl⟩ := h
  exact HashMap.lookup_insert_eq _ _ _ _

/-- Ids, status, counters and times of the module are as they were. -/
theorem Writes.sameMeta {lb lb' : LB} {key : UInt64} {hi : HI} (h : Writes lb key hi lb') :
    SameMeta lb lb' := by
  obtain ⟨run, down, rfl⟩ := h
  exact ⟨rfl, rfl, rfl, rfl, rfl, rfl, rfl, rfl⟩

/-- Writing a record that is there adds no host. -/
theorem Writes.mem_iff {lb lb' : LB} {key : UInt64} {hi hi₀ : HI} (h : Writes lb key hi lb')
    (hk : lb.hostMap.lookup key = some hi₀) (k : UInt64) : k ∈ lb'.hostMap ↔ k ∈ lb.hostMap := by
  rw [HashMap.mem_iff, HashMap.mem_iff, h.lookup]
  by_cases heq : k = key
  · subst heq
    simp [hk]
  · simp [heq]

/-- Both branches write, each its own record. -/
theorem Writes.ite {lb lb₁ lb₂ : LB} {key : UInt64} {hi₁ hi₂ : HI} {c : Prop} [Decidable c]
    (ht : Writes lb key hi₁ lb₁) (hf : Writes lb key hi₂ lb₂) :
    Writes lb key (if c then hi₁ else hi₂) (if c then lb₁ else lb₂) := by
  split
  · exact ht
  · exact hf

/-! ## The identity of the record -/

/-- Two changes in a row leave ip, port and address alone if each of them does. -/
theorem SameHost.trans {hi hi' hi'' : HI} (h : SameHost hi hi') (h' : SameHost hi' hi'') :
    SameHost hi hi'' :=
  ⟨h'.1.trans h.1, h'.2.1.trans h.2.1, h'.2.2.trans h.2.2⟩

/-- Both branches leave ip, port and address alone. -/
theorem SameHost.ite {hi hi₁ hi₂ : HI} {c : Prop} [Decidable c] (ht : SameHost hi hi₁)
    (hf : SameHost hi hi₂) : SameHost hi (if c then hi₁ else hi₂) := by
  split
  · exact ht
  · exact hf

/-- The closing block leaves ip, port and address alone. -/
theorem sameHost_checkTimo (hi : HI) : SameHost hi (hi.checkTimo cfg now) := by
  have hwindow := (sameHost_checkWindow cfg hi).1
  refine .ite (.ite (.ite ?_ ?_) ⟨rfl, rfl, rfl⟩) (.ite ⟨rfl, rfl, rfl⟩ ⟨rfl, rfl, rfl⟩)
  · exact hwindow.trans ⟨rfl, rfl, rfl⟩
  · exact hwindow.trans ⟨rfl, rfl, rfl⟩

/-- So does `LB::report`, in each of its branches. -/
theorem sameHost_report (retcode : Int32) (hi : HI) : SameHost hi (hi.report cfg now retcode) := by
  -- the result is counted before the branches
  have hcount : SameHost hi
      (if retcode = 0 then (hi.addSucc 1).countSucc 1 else (hi.addErr 1).countErr 1) :=
    .ite ⟨rfl, rfl, rfl⟩ ⟨rfl, rfl, rfl⟩
  refine hcount.trans (.ite (.ite ⟨rfl, rfl, rfl⟩ ?_) (.ite (.ite ⟨rfl, rfl, rfl⟩ ?_) ?_)) <;>
    exact sameHost_checkTimo cfg now _

/-- So does `LB::reportSomeSucc`. -/
theorem sameHost_reportSomeSucc (n : UInt32) (hi : HI) :
    SameHost hi (hi.reportSomeSucc cfg now n) := by
  refine .ite ?_ (.ite ?_ ?_) <;>
    exact SameHost.trans ⟨rfl, rfl, rfl⟩ (sameHost_checkTimo cfg now _)

/-- So does `LB::reportSomeErr`. -/
theorem sameHost_reportSomeErr (n : UInt32) (hi : HI) :
    SameHost hi (hi.reportSomeErr cfg now n) := by
  refine .ite ?_ (.ite ?_ ?_) <;>
    exact SameHost.trans ⟨rfl, rfl, rfl⟩ (sameHost_checkTimo cfg now _)

/-! ## Judging a batch -/

/-- A batch of successes makes the host idle when it reaches one of the limits, or is left whole. -/
theorem judgeIdle_cases (n : UInt32) (hi : HI) :
    ((cfg.continSuccLim.toUInt32 ≤ hi.continSucc ∨ need cfg.succRate hi.err ≤ n) ∧
        (judgeIdle cfg n hi).1 = true) ∨
      (hi.continSucc < cfg.continSuccLim.toUInt32 ∧ n < need cfg.succRate hi.err ∧
        judgeIdle cfg n hi = (false, n)) := by
  rw [judgeIdle]
  split
  · next hcontin => exact .inl ⟨.inl hcontin, rfl⟩
  · next hcontin =>
    split
    · next hneed => exact .inl ⟨.inr hneed, rfl⟩
    · next hneed => exact .inr ⟨by simpa using hcontin, by simpa using hneed, rfl⟩

/-- A batch of failures makes the host overloaded when it reaches one of the limits, or is left
whole. -/
theorem judgeOverload_cases (n : UInt32) (hi : HI) :
    ((cfg.continErrLim.toUInt32 ≤ hi.continErr ∨ need cfg.errRate hi.succ ≤ n) ∧
        (judgeOverload cfg n hi).1 = true) ∨
      (hi.continErr < cfg.continErrLim.toUInt32 ∧ n < need cfg.errRate hi.succ ∧
        judgeOverload cfg n hi = (false, n)) := by
  rw [judgeOverload]
  split
  · next hcontin => exact .inl ⟨.inl hcontin, rfl⟩
  · next hcontin =>
    split
    · next hneed => exact .inl ⟨.inr hneed, rfl⟩
    · next hneed => exact .inr ⟨by simpa using hcontin, by simpa using hneed, rfl⟩

/-! ## The entry points -/

/-- Storing a record touches no other record. -/
theorem store_writes (lb : LB) (key : UInt64) (hi : HI) : Writes lb key hi (lb.store key hi) :=
  ⟨_, _, rfl⟩

/-- Nor does moving its pointer to the list of overloaded hosts before that. -/
theorem moveDown_store_writes (lb : LB) (p : HIPtr) (key : UInt64) (hi : HI) :
    Writes lb key hi ((lb.moveDown p).store key hi) :=
  ⟨_, _, rfl⟩

/-- Nor does moving it back to the list of idle hosts. -/
theorem moveRunning_store_writes (lb : LB) (p : HIPtr) (key : UInt64) (hi : HI) :
    Writes lb key hi ((lb.moveRunning p).store key hi) :=
  ⟨_, _, rfl⟩

/-- The closing block writes the record in each of its branches. -/
theorem checkTimo_writes (lb : LB) (key : UInt64) (hi : HI) :
    Writes lb key (hi.checkTimo cfg now) (lb.checkTimo cfg now key hi) :=
  .ite (.ite (.ite (moveDown_store_writes _ _ _ _) (store_writes _ _ _)) (store_writes _ _ _))
    (.ite (moveRunning_store_writes _ _ _ _) (store_writes _ _ _))

/-- `LB::report` ignores a host that is not in the route. -/
theorem report_of_none {lb : LB} {ip port : Int32}
    (hk : lb.hostMap.lookup (packKey ip port) = none) (retcode : Int32) :
    lb.report cfg now ip port retcode = lb := by
  rw [LB.report, hk]

/-- `LB::report` writes the record of its host and no other. -/
theorem report_writes {lb : LB} {ip port : Int32} {hi : HI}
    (hk : lb.hostMap.lookup (packKey ip port) = some hi) (retcode : Int32) :
    Writes lb (packKey ip port) (hi.report cfg now retcode)
      (lb.report cfg now ip port retcode) := by
  rw [LB.report, hk]
  exact .ite (.ite (moveDown_store_writes _ _ _ _) (checkTimo_writes cfg now _ _ _))
    (.ite (.ite (moveRunning_store_writes _ _ _ _) (checkTimo_writes cfg now _ _ _))
      (checkTimo_writes cfg now _ _ _))

/-- `LB::reportSomeSucc` ignores a host that is not in the route. -/
theorem reportSomeSucc_of_none {lb : LB} {ip port : Int32}
    (hk : lb.hostMap.lookup (packKey ip port) = none) (succCnt : UInt32) :
    lb.reportSomeSucc cfg now ip port succCnt = lb := by
  rw [LB.reportSomeSucc, hk]

/-- `LB::reportSomeSucc` writes the record of its host and no other. -/
theorem reportSomeSucc_writes {lb : LB} {ip port : Int32} {hi : HI}
    (hk : lb.hostMap.lookup (packKey ip port) = some hi) (succCnt : UInt32) :
    Writes lb (packKey ip port) (hi.reportSomeSucc cfg now succCnt)
      (lb.reportSomeSucc cfg now ip port succCnt) := by
  rw [LB.reportSomeSucc, hk]
  refine .ite (checkTimo_writes cfg now _ _ _) (.ite ?_ (checkTimo_writes cfg now _ _ _))
  -- the pointer moves before the closing block, which writes the record all the same
  exact checkTimo_writes cfg now (lb.moveRunning _) _ _

/-- `LB::reportSomeErr` ignores a host that is not in the route. -/
theorem reportSomeErr_of_none {lb : LB} {ip port : Int32}
    (hk : lb.hostMap.lookup (packKey ip port) = none) (errCnt : UInt32) :
    lb.reportSomeErr cfg now ip port errCnt = lb := by
  rw [LB.reportSomeErr, hk]

/-- `LB::reportSomeErr` writes the record of its host and no other. -/
theorem reportSomeErr_writes {lb : LB} {ip port : Int32} {hi : HI}
    (hk : lb.hostMap.lookup (packKey ip port) = some hi) (errCnt : UInt32) :
    Writes lb (packKey ip port) (hi.reportSomeErr cfg now errCnt)
      (lb.reportSomeErr cfg now ip port errCnt) := by
  rw [LB.reportSomeErr, hk]
  refine .ite (checkTimo_writes cfg now _ _ _) (.ite ?_ (checkTimo_writes cfg now _ _ _))
  exact checkTimo_writes cfg now (lb.moveDown _) _ _

end LB

end Elb
