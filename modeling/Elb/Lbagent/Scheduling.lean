import Elb.Common.Queue
import Elb.Lbagent.UpdateOrder

/-!
# Which host a call of `getHost` returns

Reference: `lbagent/src/RouteLb.cc`, `LB::getHost`; `lbagent/README.md`.

`_runningList` and `_downList` are queues. A call of `getHost` serves the front of one of them, and
`_accessCnt` says of which; reports and updates only take hosts out and put hosts behind the others.
-/

namespace Elb.LB

open Transition

variable {R : Type} [RateArith R] {cfg : LbConfigure R} {now : ℤ}

/-! ## The two queues -/

/-- The lists that `getHost` serves. -/
inductive Side
  | running
  | down
deriving DecidableEq

/-- The pointers of one of the lists. -/
def queue (lb : LB) : Side → List HIPtr
  | .running => lb.runningList
  | .down => lb.downList

/-- The address of the host that a pointer stands for. -/
def addrOf (lb : LB) (p : HIPtr) : Option HostAddr := (lb.deref p).toOption.map HI.addr

/-- The hosts of one of the lists. -/
def hosts (lb : LB) (side : Side) : List HostAddr := (lb.queue side).filterMap lb.addrOf

/-- What a call of `getHost` would give back: the return code and the host. -/
def answer (cfg : LbConfigure R) (lb : LB) : Option (Int32 × Option HostAddr) :=
  (lb.getHost cfg).toOption.map (·.2)

/-- A call of `getHost` returns the host at the front of the list. -/
def Picks (cfg : LbConfigure R) (lb : LB) (side : Side) (a : HostAddr) : Prop :=
  (lb.hosts side).head? = some a ∧ lb.answer cfg = some (Retcode.success, some a)

instance (cfg : LbConfigure R) (lb : LB) (side : Side) (a : HostAddr) :
    Decidable (lb.Picks cfg side a) :=
  inferInstanceAs (Decidable (_ ∧ _))

omit [RateArith R] in
/-- A side is one of the two lists. -/
theorem mem_queue_or (lb : LB) {side : Side} {p : HIPtr} (hp : p ∈ lb.queue side) :
    p ∈ lb.runningList ∨ p ∈ lb.downList := by
  cases side
  · exact .inl hp
  · exact .inr hp

/-- No host is twice on a side. -/
theorem RepInv.queue_nodup {lb : LB} (h : lb.RepInv) (side : Side) : (lb.queue side).Nodup := by
  cases side
  · exact h.running_nodup
  · exact h.down_nodup

/-- A pointer stands for the host whose record lives at its address. -/
theorem RepInv.addrOf_eq_some {lb : LB} (h : lb.RepInv) {p : HIPtr} {a : HostAddr} :
    lb.addrOf p = some a ↔ ∃ hi, lb.hostMap.lookup a.key = some hi ∧ hi.self = p := by
  constructor
  · intro ha
    rw [addrOf, deref] at ha
    split at ha
    · next e he =>
      obtain rfl : e.2.addr = a := Option.some.inj ha
      have hk := HashMap.mem_entries_iff.mp (List.mem_of_find?_eq_some he)
      have hkey : e.2.addr.key = e.1 := h.key_eq e.1 e.2 hk
      exact ⟨e.2, by rw [hkey, hk], by simpa using List.find?_some he⟩
    · cases ha
  · rintro ⟨hi, hk, rfl⟩
    have hkey : hi.addr = a := HostAddr.key_inj (h.key_eq _ hi hk)
    rw [addrOf, h.deref_self hk, ← hkey]
    rfl

/-- Every pointer of the lists stands for a host. -/
theorem RepInv.addrOf_mem {lb : LB} (h : lb.RepInv) {p : HIPtr} (side : Side)
    (hp : p ∈ lb.queue side) : ∃ a, lb.addrOf p = some a := by
  obtain ⟨key, hi, hk, hself⟩ := (h.mem_lists p).mp (lb.mem_queue_or hp)
  obtain rfl := h.key_eq key hi hk
  exact ⟨hi.addr, h.addrOf_eq_some.mpr ⟨hi, hk, hself⟩⟩

/-- The hosts of a list are those of its records. -/
theorem RepInv.mem_hosts {lb : LB} (h : lb.RepInv) {side : Side} {a : HostAddr} :
    a ∈ lb.hosts side ↔ ∃ hi, lb.hostMap.lookup a.key = some hi ∧ hi.self ∈ lb.queue side := by
  rw [hosts, List.mem_filterMap]
  constructor
  · rintro ⟨p, hp, ha⟩
    obtain ⟨hi, hk, rfl⟩ := h.addrOf_eq_some.mp ha
    exact ⟨hi, hk, hp⟩
  · rintro ⟨hi, hk, hp⟩
    exact ⟨hi.self, hp, h.addrOf_eq_some.mpr ⟨hi, hk, rfl⟩⟩

/-- A pointer is in a list exactly if its host is. -/
theorem RepInv.mem_hosts_iff {lb : LB} (h : lb.RepInv) {side : Side} {p : HIPtr} {a : HostAddr}
    (ha : lb.addrOf p = some a) : a ∈ lb.hosts side ↔ p ∈ lb.queue side := by
  obtain ⟨hi, hk, rfl⟩ := h.addrOf_eq_some.mp ha
  rw [h.mem_hosts, hk]
  simp

/-- Each host is in its list once. -/
theorem RepInv.hosts_nodup {lb : LB} (h : lb.RepInv) (side : Side) : (lb.hosts side).Nodup := by
  refine (h.queue_nodup side).filterMap ?_
  intro p p' a ha ha'
  obtain ⟨hi, hk, rfl⟩ := h.addrOf_eq_some.mp ha
  obtain ⟨hi', hk', rfl⟩ := h.addrOf_eq_some.mp ha'
  rw [Option.some.inj (hk.symm.trans hk')]

/-- No host is in both lists. -/
theorem RepInv.hosts_disjoint {lb : LB} (h : lb.RepInv) :
    (lb.hosts .running).Disjoint (lb.hosts .down) := by
  intro a hrun hdown
  obtain ⟨hi, hk, hp⟩ := h.mem_hosts.mp hrun
  obtain ⟨hi', hk', hp'⟩ := h.mem_hosts.mp hdown
  obtain rfl := Option.some.inj (hk.symm.trans hk')
  exact h.disjoint hp hp'

/-! ## One call of `getHost` -/

/-- What one call does: it refuses, or it serves the front of one of the lists. -/
inductive Turn (cfg : LbConfigure R) (lb : LB) : LB → Int32 → Option HostAddr → Prop
  | refuse (hrun : lb.runningList = []) (hcnt : lb.accessCnt < cfg.probeNum) :
      Turn cfg lb { lb with accessCnt := lb.accessCnt + 1 } Retcode.overload none
  | probe (p : HIPtr) (rest : List HIPtr) (a : HostAddr) (hdown : lb.downList = p :: rest)
      (ha : lb.addrOf p = some a) (hcnt : cfg.probeNum ≤ lb.accessCnt) :
      Turn cfg lb { lb with accessCnt := 0, downList := rest ++ [p] } Retcode.success (some a)
  | serve (p : HIPtr) (rest : List HIPtr) (a : HostAddr) (hrun : lb.runningList = p :: rest)
      (ha : lb.addrOf p = some a) (hcnt : lb.downList = [] ∨ lb.accessCnt < cfg.probeNum) :
      Turn cfg lb { lb with
        accessCnt := if lb.downList = [] then 0 else lb.accessCnt + 1
        runningList := rest ++ [p] } Retcode.success (some a)

omit [RateArith R] in
/-- A list that is not empty is served at the front. -/
theorem RepInv.rotate_queue {lb : LB} (h : lb.RepInv) (side : Side) (hne : lb.queue side ≠ []) :
    ∃ p rest a, lb.queue side = p :: rest ∧ lb.addrOf p = some a ∧
      lb.rotate (lb.queue side) = .ok (a, rest ++ [p]) := by
  obtain ⟨p, rest, hq⟩ := List.exists_cons_of_ne_nil hne
  obtain ⟨a, ha⟩ := h.addrOf_mem side (p := p) (by rw [hq]; exact List.mem_cons_self)
  obtain ⟨hi, hk, rfl⟩ := h.addrOf_eq_some.mp ha
  have hkey : hi.addr = a := HostAddr.key_inj (h.key_eq _ hi hk)
  refine ⟨hi.self, rest, a, hq, ha, ?_⟩
  rw [hq, LB.rotate, h.deref_self hk, ← hkey]
  rfl

omit [RateArith R] in
/-- A call on a route that is not empty takes one of the three turns. -/
theorem RepInv.exists_turn {lb : LB} (h : lb.RepInv) (cfg : LbConfigure R)
    (hne : lb.empty = false) :
    ∃ lb' ret host, lb.getHost cfg = .ok (lb', ret, host) ∧ Turn cfg lb lb' ret host := by
  have hprobe := fun hd : lb.downList ≠ [] => h.rotate_queue .down hd
  have hserve := fun hr : lb.runningList ≠ [] => h.rotate_queue .running hr
  rw [LB.getHost]
  -- without running hosts the call probes or refuses; with some it probes only when it is time to
  -- and there is a host to probe
  by_cases hrun : lb.runningList = []
  · rw [if_pos (by simp [hrun])]
    split
    · next hcnt =>
      obtain ⟨p, rest, a, hdown, ha, hrot⟩ := hprobe (h.down_ne_nil hne hrun)
      simp only [queue] at hdown hrot
      rw [hrot]
      exact ⟨_, _, _, rfl, .probe p rest a hdown ha hcnt⟩
    · next hcnt => exact ⟨_, _, _, rfl, .refuse hrun (by simpa using hcnt)⟩
  · obtain ⟨p, rest, a, hr, ha, hrot⟩ := hserve hrun
    simp only [queue] at hr hrot
    rw [if_neg (by simp [hrun])]
    by_cases hdown : lb.downList = []
    · rw [if_pos (by simp [hdown]), hrot]
      have hturn : Turn cfg lb _ _ _ := .serve p rest a hr ha (.inl hdown)
      rw [if_pos hdown] at hturn
      exact ⟨_, _, _, rfl, hturn⟩
    · rw [if_neg (by simp [hdown])]
      split
      · next hcnt =>
        obtain ⟨q, rest', b, hd, hb, hrot'⟩ := hprobe hdown
        simp only [queue] at hd hrot'
        rw [hrot']
        exact ⟨_, _, _, rfl, .probe q rest' b hd hb hcnt⟩
      · next hcnt =>
        rw [hrot]
        have hturn : Turn cfg lb _ _ _ := .serve p rest a hr ha (.inr (by simpa using hcnt))
        rw [if_neg hdown] at hturn
        exact ⟨_, _, _, rfl, hturn⟩

/-- A step of `getHost` is a turn, and its answer is that of the turn. -/
theorem RepInv.turn_of_step {lb lb' : LB} {e : ℤ × Op} (h : lb.RepInv)
    (hs : (system cfg).step lb e lb') (he : e.2 = .getHost) :
    ∃ ret host, Turn cfg lb lb' ret host ∧ lb.answer cfg = some (ret, host) := by
  obtain ⟨hne, out, hex⟩ := hs
  obtain ⟨lb₁, ret, host, heq, hturn⟩ := h.exists_turn cfg (hne he)
  rw [he, LB.exec, heq] at hex
  obtain ⟨rfl, -⟩ := Prod.mk.inj (Except.ok.inj hex)
  exact ⟨ret, host, hturn, by rw [answer, heq]; rfl⟩

/-! ## The other calls -/

/-- Where a call result leaves the record: in its list, or at the end of the other one. -/
inductive Moved (lb : LB) (hi : HI) (lb' : LB) : Prop
  | stay (hrun : lb'.runningList = lb.runningList) (hdown : lb'.downList = lb.downList)
  | down (hidle : hi.overload = false)
      (hrun : lb'.runningList = lb.runningList.filter (· ≠ hi.self))
      (hdown : lb'.downList = lb.downList ++ [hi.self])
  | running (hover : hi.overload = true)
      (hrun : lb'.runningList = lb.runningList ++ [hi.self])
      (hdown : lb'.downList = lb.downList.filter (· ≠ hi.self))

/-- With a waiting limit that is over at once, a batch of failures that makes a host overloaded
takes it out of the running list and puts it back at the end. -/
def TakesOut (cfg : LbConfigure R) (lb : LB) (op : Op) (side : Side) (a : HostAddr) : Prop :=
  side = .running ∧ cfg.ovldWaitLim ≤ 0 ∧ ∃ n hi, op = .reportSomeErr a.ip a.port n ∧
    lb.hostMap.lookup a.key = some hi ∧ hi.overload = false ∧
      (judgeOverload cfg n (hi.countErr n)).1 = true

variable (cfg now)

/-- The closing block sorts a record by its flag. -/
theorem checkTimo_moved (lb : LB) (key : UInt64) (hi : HI) :
    Moved lb hi (lb.checkTimo cfg now key hi) := by
  rw [LB.checkTimo]
  by_cases hover : hi.overload = true
  · rw [if_neg (by simp [hover])]
    split
    · exact .running hover rfl rfl
    · exact .stay rfl rfl
  · have hidle : hi.overload = false := by simpa using hover
    have hself := (sameHost_checkWindow cfg hi).1.1
    rw [if_pos (by simp [hidle])]
    split
    · dsimp only
      split
      · exact .down hidle (by simp [moveDown, hself]) (by simp [moveDown, hself])
      · exact .stay rfl rfl
    · exact .stay rfl rfl

omit [RateArith R] in
/-- Counting changes neither the address nor the flag. -/
theorem Moved.congr {lb lb' : LB} {hi hi' : HI} (h : Moved lb hi' lb') (hself : hi'.self = hi.self)
    (hflag : hi'.overload = hi.overload) : Moved lb hi lb' := by
  rcases h with ⟨hrun, hdown⟩ | ⟨hidle, hrun, hdown⟩ | ⟨hover, hrun, hdown⟩
  · exact .stay hrun hdown
  · exact .down (hflag ▸ hidle) (hself ▸ hrun) (hself ▸ hdown)
  · exact .running (hflag ▸ hover) (hself ▸ hrun) (hself ▸ hdown)

/-- A single result moves the record at most once. -/
theorem report_moved {lb : LB} {ip port : Int32} {hi : HI}
    (hk : lb.hostMap.lookup (packKey ip port) = some hi) (retcode : Int32) :
    Moved lb hi (lb.report cfg now ip port retcode) := by
  rw [LB.report, hk]
  dsimp only
  generalize hdef : (if retcode = 0 then (hi.addSucc 1).countSucc 1
    else (hi.addErr 1).countErr 1) = hi'
  have hself : hi'.self = hi.self := by rw [← hdef]; split <;> rfl
  have hflag : hi'.overload = hi.overload := by rw [← hdef]; split <;> rfl
  suffices Moved lb hi' _ from this.congr hself hflag
  split
  · next hidle =>
    simp only [Bool.and_eq_true, Bool.not_eq_true'] at hidle
    split
    · exact .down hidle.1 rfl rfl
    · exact checkTimo_moved cfg now lb _ hi'
  · split
    · next hover =>
      simp only [Bool.and_eq_true] at hover
      split
      · exact .running hover.1 rfl rfl
      · exact checkTimo_moved cfg now lb _ hi'
    · exact checkTimo_moved cfg now lb _ hi'

/-- An idle record whose window has no results stays in its list. -/
theorem checkTimo_quiet {lb : LB} {key : UInt64} {hi : HI} (hidle : hi.overload = false)
    (hzero : hi.rSucc + hi.rErr = 0) :
    (lb.checkTimo cfg now key hi).runningList = lb.runningList ∧
      (lb.checkTimo cfg now key hi).downList = lb.downList := by
  rw [LB.checkTimo, if_pos (by simp [hidle])]
  split
  · rw [HI.checkWindow, if_pos hzero]
    exact ⟨rfl, rfl⟩
  · exact ⟨rfl, rfl⟩

/-- A batch of successes moves the record at most once: a host that recovers starts a window without
results, which is not a failing one. -/
theorem reportSomeSucc_moved {lb : LB} {ip port : Int32} {hi : HI}
    (hk : lb.hostMap.lookup (packKey ip port) = some hi) (succCnt : UInt32) :
    Moved lb hi (lb.reportSomeSucc cfg now ip port succCnt) := by
  rw [LB.reportSomeSucc, hk]
  dsimp only
  split
  · exact (checkTimo_moved cfg now lb _ _).congr rfl rfl
  · next hover =>
    have hover : hi.overload = true := by simpa [HI.countSucc] using hover
    split
    · refine .running hover ?_ ?_
      · exact (checkTimo_quiet cfg now rfl rfl).1
      · exact (checkTimo_quiet cfg now rfl rfl).2
    · exact (checkTimo_moved cfg now lb _ _).congr rfl rfl

/-- A batch of failures moves the record at most once, or takes it out and puts it back. -/
theorem reportSomeErr_moved {lb : LB} {ip port : Int32} {hi : HI}
    (hk : lb.hostMap.lookup (packKey ip port) = some hi) (errCnt : UInt32) :
    Moved lb hi (lb.reportSomeErr cfg now ip port errCnt) ∨
      (TakesOut cfg lb (.reportSomeErr ip port errCnt) .running ⟨ip, port⟩ ∧
        (lb.reportSomeErr cfg now ip port errCnt).runningList =
          lb.runningList.filter (· ≠ hi.self) ++ [hi.self] ∧
        (lb.reportSomeErr cfg now ip port errCnt).downList =
          (lb.downList ++ [hi.self]).filter (· ≠ hi.self)) := by
  have htakes : ∀ hlim : cfg.ovldWaitLim ≤ 0, hi.overload = false →
      (judgeOverload cfg errCnt (hi.countErr errCnt)).1 = true →
      TakesOut cfg lb (.reportSomeErr ip port errCnt) .running ⟨ip, port⟩ :=
    fun hlim hidle hjudge => ⟨rfl, hlim, errCnt, hi, rfl, hk, hidle, hjudge⟩
  rw [LB.reportSomeErr, hk]
  dsimp only
  split
  · exact .inl ((checkTimo_moved cfg now lb _ _).congr rfl rfl)
  · next hidle =>
    have hidle : hi.overload = false := by simpa [HI.countErr] using hidle
    split
    · next hjudge =>
      rw [LB.checkTimo, if_neg (by simp [HI.addErr, HI.setOverload])]
      split
      · next hwait =>
        -- the host has waited for no time at all
        have hlim : cfg.ovldWaitLim ≤ 0 := by
          simpa [HI.addErr, HI.setOverload] using hwait
        exact .inr ⟨htakes hlim hidle hjudge, rfl, rfl⟩
      · exact .inl (.down hidle rfl rfl)
    · exact .inl ((checkTimo_moved cfg now lb _ _).congr rfl rfl)

variable {cfg now}

/-! ## The queues flow -/

omit [RateArith R] in
/-- Pointers that stay in a list, or join it at the end, show as hosts that do. -/
theorem RepInv.flows {lb lb' : LB} (h : lb.RepInv) {side : Side} {out : HostAddr → Prop}
    (keep : HIPtr → Bool) (new : List HIPtr)
    (hq : lb'.queue side = (lb.queue side).filter keep ++ new)
    (hkept : ∀ p ∈ (lb.queue side).filter keep, lb'.addrOf p = lb.addrOf p)
    (hnew : ∀ p ∈ new, ∀ a, lb'.addrOf p = some a → a ∈ lb.hosts side → out a) :
    Queue.Flows out (lb.hosts side) (lb'.hosts side) := by
  have hsub : (((lb.queue side).filter keep).filterMap lb.addrOf).Sublist (lb.hosts side) :=
    List.filter_sublist.filterMap _
  refine ⟨fun a => a ∈ ((lb.queue side).filter keep).filterMap lb.addrOf,
    new.filterMap lb'.addrOf, ?_, ?_⟩
  · rw [hosts, hq, List.filterMap_append, List.filterMap_congr hkept]
    exact congrArg (· ++ _) (hsub.eq_filter_mem (h.hosts_nodup side))
  · intro a ha
    obtain ⟨p, hp, hpa⟩ := List.mem_filterMap.mp ha
    exact hnew p hp a hpa

/-- Writing a record back changes no address. -/
theorem RepInv.addrOf_writes {lb lb' : LB} (h : lb.RepInv) (h' : lb'.RepInv) {key : UInt64}
    {hi hi' : HI} (hk : lb.hostMap.lookup key = some hi) (hsame : SameHost hi hi')
    (hw : Writes lb key hi' lb') (p : HIPtr) : lb'.addrOf p = lb.addrOf p := by
  ext a
  rw [h.addrOf_eq_some, h'.addrOf_eq_some, hw.lookup]
  by_cases hkey : a.key = key
  · rw [if_pos hkey, hkey, hk]
    simp [hsame.1]
  · rw [if_neg hkey]

omit [RateArith R] in
/-- Moving a record puts its host behind the hosts of the other list. -/
theorem RepInv.flows_moved {lb lb' : LB} (h : lb.RepInv) {key : UInt64} {hi : HI}
    (hk : lb.hostMap.lookup key = some hi) (haddr : ∀ p, lb'.addrOf p = lb.addrOf p)
    (hm : Moved lb hi lb') (out : HostAddr → Prop) (side : Side) :
    Queue.Flows out (lb.hosts side) (lb'.hosts side) := by
  -- a host that joins a list was not in it before, so nothing has to go out
  have hjoin : hi.self ∉ lb.queue side → ∀ p ∈ [hi.self], ∀ a, lb'.addrOf p = some a →
      a ∈ lb.hosts side → out a := by
    intro hnot p hp a ha hmem
    obtain rfl := List.mem_singleton.mp hp
    exact absurd ((h.mem_hosts_iff ((haddr _).symm.trans ha)).mp hmem) hnot
  have hflag := h.mem_down key hi hk
  have hdisj := @h.disjoint hi.self
  have hsame : ∀ side, lb'.queue side = lb.queue side →
      Queue.Flows out (lb.hosts side) (lb'.hosts side) := fun side hq =>
    h.flows (fun _ => true) [] (by simp [hq]) (fun p _ => haddr p) (by simp)
  rcases hm with ⟨hrun, hdown⟩ | ⟨hidle, hrun, hdown⟩ | ⟨hover, hrun, hdown⟩
  · cases side
    · exact hsame .running hrun
    · exact hsame .down hdown
  · have hnot : hi.self ∉ lb.downList := by simp [hflag, hidle]
    cases side
    · exact h.flows (· ≠ hi.self) [] (by simpa [queue] using hrun) (fun p _ => haddr p) (by simp)
    · exact h.flows (fun _ => true) [hi.self] (by simpa [queue] using hdown) (fun p _ => haddr p)
        (hjoin hnot)
  · have hnot : hi.self ∉ lb.runningList := fun hmem => hdisj hmem (hflag.mpr hover)
    cases side
    · exact h.flows (fun _ => true) [hi.self] (by simpa [queue] using hrun) (fun p _ => haddr p)
        (hjoin hnot)
    · exact h.flows (· ≠ hi.self) [] (by simpa [queue] using hdown) (fun p _ => haddr p) (by simp)

omit [RateArith R] in
/-- An update puts the new hosts behind the running ones and moves no other. -/
theorem RepInv.flows_update {lb lb' : LB} (h : lb.RepInv) {rsp : GetRouteRsp}
    (hup : lb.update cfg now rsp = .ok lb') (out : HostAddr → Prop) (side : Side) :
    Queue.Flows out (lb.hosts side) (lb'.hosts side) := by
  have h' := RepInv.update cfg now h hup
  obtain ⟨-, hspec⟩ := updateSpec_of_ok cfg now hup
  obtain ⟨⟨fresh, hrun, hall, -⟩, hdown⟩ := h.update_lists cfg now hup
  have hkept : ∀ l : List HIPtr, ∀ p ∈ l.filter (lb.stays rsp.hosts),
      lb'.addrOf p = lb.addrOf p := by
    intro l p hp
    obtain ⟨key, hi, hk, rfl, hin⟩ := stays_iff.mp (List.mem_filter.mp hp).2
    obtain rfl := h.key_eq key hi hk
    rw [h.addrOf_eq_some.mpr ⟨hi, hk, rfl⟩, h'.addrOf_eq_some]
    exact ⟨hi, hspec.kept _ hi hk hin, rfl⟩
  cases side
  · refine h.flows (lb.stays rsp.hosts) fresh hrun (hkept _) ?_
    intro p hp a ha hmem
    obtain ⟨b, hb, hk⟩ := hall.exists_right hp
    -- the address is that of a new host, which had no record
    obtain rfl : b = a := Option.some.inj ((h'.addrOf_eq_some.mpr ⟨_, hk, rfl⟩).symm.trans ha)
    obtain ⟨hi, hkb, -⟩ := h.mem_hosts.mp hmem
    rw [newHosts, List.mem_eraseDups, List.mem_filter, decide_eq_true_eq] at hb
    exact absurd (HashMap.mem_iff.mpr ⟨hi, hkb⟩) hb.2
  · exact h.flows (lb.stays rsp.hosts) [] (by simpa [queue] using hdown) (hkept _) (by simp)

/-- A batch of failures, too, moves its host behind the others if at all. -/
theorem RepInv.flows_reportSomeErr {lb : LB} (h : lb.RepInv) {ip port : Int32} {hi : HI}
    (hk : lb.hostMap.lookup (packKey ip port) = some hi) (n : UInt32) (side : Side) :
    Queue.Flows (TakesOut cfg lb (.reportSomeErr ip port n) side) (lb.hosts side)
      ((lb.reportSomeErr cfg now ip port n).hosts side) := by
  have haddr := h.addrOf_writes (h.reportSomeErr cfg now ip port n) hk
    (sameHost_reportSomeErr cfg now n hi) (reportSomeErr_writes cfg now hk n)
  have hmoved := reportSomeErr_moved cfg now hk n
  generalize lb.reportSomeErr cfg now ip port n = lb' at haddr hmoved ⊢
  rcases hmoved with hm | ⟨hout, hrun, hdown⟩
  · exact h.flows_moved hk haddr hm _ side
  · cases side
    · -- taken out and put back at the end of the running list: `TakesOut` allows for this host
      have hself : lb.addrOf hi.self = some ⟨ip, port⟩ := h.addrOf_eq_some.mpr ⟨hi, hk, rfl⟩
      refine h.flows (· ≠ hi.self) [hi.self] hrun (fun p _ => haddr p) ?_
      intro p hp a ha _
      obtain rfl := List.mem_singleton.mp hp
      rw [haddr, hself] at ha
      rwa [← Option.some.inj ha]
    · exact h.flows (· ≠ hi.self) [] (by simpa [queue] using hdown) (fun p _ => haddr p) (by simp)

/-- A step other than `getHost` leaves the access counter alone, and lets both queues flow. -/
theorem RepInv.flows_of_step {lb lb' : LB} {e : ℤ × Op} (h : lb.RepInv)
    (hs : (system cfg).step lb e lb') (he : e.2 ≠ .getHost) :
    lb'.accessCnt = lb.accessCnt ∧
      ∀ side, Queue.Flows (TakesOut cfg lb e.2 side) (lb.hosts side) (lb'.hosts side) := by
  obtain ⟨now, op⟩ := e
  obtain ⟨-, out, hex⟩ := hs
  dsimp only at hex he ⊢
  cases op with
  | getHost => exact absurd rfl he
  | report ip port retcode =>
    obtain ⟨rfl, -⟩ := Prod.mk.inj (Except.ok.inj hex)
    cases hk : lb.hostMap.lookup (packKey ip port) with
    | none => rw [report_of_none cfg now hk]; exact ⟨rfl, fun side => .refl _ _⟩
    | some hi =>
      have hw := report_writes cfg now hk retcode
      have haddr := h.addrOf_writes (h.report cfg now ip port retcode) hk
        (sameHost_report cfg now retcode hi) hw
      exact ⟨hw.sameMeta.accessCnt_eq, fun side =>
        h.flows_moved hk haddr (report_moved cfg now hk retcode) _ side⟩
  | reportSomeSucc ip port n =>
    obtain ⟨rfl, -⟩ := Prod.mk.inj (Except.ok.inj hex)
    cases hk : lb.hostMap.lookup (packKey ip port) with
    | none => rw [reportSomeSucc_of_none cfg now hk]; exact ⟨rfl, fun side => .refl _ _⟩
    | some hi =>
      have hw := reportSomeSucc_writes cfg now hk n
      have haddr := h.addrOf_writes (h.reportSomeSucc cfg now ip port n) hk
        (sameHost_reportSomeSucc cfg now n hi) hw
      exact ⟨hw.sameMeta.accessCnt_eq, fun side =>
        h.flows_moved hk haddr (reportSomeSucc_moved cfg now hk n) _ side⟩
  | reportSomeErr ip port n =>
    obtain ⟨rfl, -⟩ := Prod.mk.inj (Except.ok.inj hex)
    cases hk : lb.hostMap.lookup (packKey ip port) with
    | none => rw [reportSomeErr_of_none cfg now hk]; exact ⟨rfl, fun side => .refl _ _⟩
    | some hi =>
      exact ⟨(reportSomeErr_writes cfg now hk n).sameMeta.accessCnt_eq,
        h.flows_reportSomeErr hk n⟩
  | report2Rpter =>
    obtain ⟨rpt, req, heq, -⟩ := h.report2Rpter cfg now
    rw [LB.exec, heq] at hex
    obtain ⟨rfl, -⟩ := Prod.mk.inj (Except.ok.inj hex)
    exact ⟨rfl, fun side => .refl _ _⟩
  | update rsp =>
    rw [LB.exec] at hex
    cases hup : lb.update cfg now rsp with
    | error f => rw [hup] at hex; cases hex
    | ok lb₁ =>
      rw [hup] at hex
      obtain ⟨rfl, -⟩ := Prod.mk.inj (Except.ok.inj hex)
      exact ⟨(updateSpec_of_ok cfg now hup).2.accessCnt_eq, fun side => h.flows_update hup _ side⟩
  | pull =>
    obtain ⟨rfl, -⟩ := Prod.mk.inj (Except.ok.inj hex)
    exact ⟨rfl, fun side => .refl _ _⟩
  | clearPulling =>
    obtain ⟨rfl, -⟩ := Prod.mk.inj (Except.ok.inj hex)
    rw [LB.clearPulling]
    split
    · exact ⟨rfl, fun side => .refl _ _⟩
    · exact ⟨rfl, fun side => .refl _ _⟩

/-! ## The calls of a run -/

/-- The states in which a run calls `getHost`. -/
def calls (lb : LB) (tr : List ((ℤ × Op) × LB)) : List LB :=
  System.before (fun e => e.2 = .getHost) lb tr

/-- The first step of a run is a call of `getHost` or is not counted. -/
theorem calls_cons (s s' : LB) (e : ℤ × Op) (tr : List ((ℤ × Op) × LB)) :
    calls s ((e, s') :: tr) = if e.2 = .getHost then s :: calls s' tr else calls s' tr := by
  by_cases he : e.2 = .getHost <;> simp [calls, System.before, he]

/-- The front of a list is the host that its first pointer stands for. -/
theorem hosts_cons {lb : LB} (side : Side) {p : HIPtr} {rest : List HIPtr} {a : HostAddr}
    (hq : lb.queue side = p :: rest) (ha : lb.addrOf p = some a) :
    lb.hosts side = a :: rest.filterMap lb.addrOf := by
  rw [hosts, hq, List.filterMap_cons_some ha]

omit [RateArith R] in
/-- A host is picked from one list only. -/
theorem RepInv.picks_side {lb : LB} (h : lb.RepInv) {side side' : Side} {a b : HostAddr}
    (ha : lb.Picks cfg side a) (hb : lb.Picks cfg side' b) : side = side' ∧ a = b := by
  obtain rfl : a = b := by
    have := ha.2.symm.trans hb.2
    simpa using this
  have hmem := List.mem_of_mem_head? ha.1
  have hmem' := List.mem_of_mem_head? hb.1
  refine ⟨?_, rfl⟩
  cases side <;> cases side'
  · rfl
  · exact absurd hmem' (h.hosts_disjoint hmem)
  · exact absurd hmem (h.hosts_disjoint hmem')
  · rfl

/-- A call serves the front of the list, or leaves the list alone. -/
theorem RepInv.hosts_of_call {lb lb' : LB} {e : ℤ × Op} (h : lb.RepInv)
    (hs : (system cfg).step lb e lb') (he : e.2 = .getHost) (side : Side) :
    (lb'.hosts side = lb.hosts side ∧ ∀ a, ¬lb.Picks cfg side a) ∨
      ∃ a rest, lb.hosts side = a :: rest ∧ lb'.hosts side = rest ++ [a] ∧
        lb.Picks cfg side a := by
  obtain ⟨ret, host, hturn, hans⟩ := h.turn_of_step hs he
  -- a call that serves one list picks nothing from the other
  have hother : ∀ side' a, lb.Picks cfg side' a → side ≠ side' → ∀ b, ¬lb.Picks cfg side b :=
    fun side' a ha hne b hb => hne (h.picks_side hb ha).1
  have hserved : ∀ p rest a, lb.addrOf p = some a →
      (rest ++ [p]).filterMap lb.addrOf = rest.filterMap lb.addrOf ++ [a] := by
    intro p rest a ha
    rw [List.filterMap_append, List.filterMap_cons_some ha, List.filterMap_nil]
  cases hturn with
  | refuse hrun hcnt =>
    refine .inl ⟨rfl, ?_⟩
    rintro a ⟨-, ha⟩
    rw [hans] at ha
    cases ha
  | probe p rest a hq ha hcnt =>
    have hhead := hosts_cons .down hq ha
    have hpick : lb.Picks cfg .down a := ⟨by rw [hhead]; rfl, hans⟩
    cases side with
    | running => exact .inl ⟨rfl, hother .down a hpick (by simp)⟩
    | down => exact .inr ⟨a, _, hhead, hserved p rest a ha, hpick⟩
  | serve p rest a hq ha hcnt =>
    have hhead := hosts_cons .running hq ha
    have hpick : lb.Picks cfg .running a := ⟨by rw [hhead]; rfl, hans⟩
    cases side with
    | running => exact .inr ⟨a, _, hhead, hserved p rest a ha, hpick⟩
    | down => exact .inl ⟨rfl, hother .running a hpick (by simp)⟩

end Elb.LB
