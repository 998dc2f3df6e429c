import Elb.Lbagent.Lb

/-!
# The representation invariant of `LB`

The three containers of an `LB` stand for one set of hosts. `RepInv` says how, and every operation
keeps it. A call result first changes a record and possibly both lists and only then is done with
the record, so the intermediate states are described by `RepInvAt`: the invariant holds once the
record at hand is written back.
-/

namespace Elb.LB

variable {R : Type} [RateArith R]

/-- The two lists are duplicate-free and disjoint, together they point to exactly the records of the
map, the down list to the overloaded ones; a record is filed under its own address. -/
structure RepInv (lb : LB) : Prop where
  running_nodup : lb.runningList.Nodup
  down_nodup : lb.downList.Nodup
  disjoint : lb.runningList.Disjoint lb.downList
  mem_lists : ∀ p, p ∈ lb.runningList ∨ p ∈ lb.downList ↔
    ∃ key hi, lb.hostMap.lookup key = some hi ∧ hi.self = p
  mem_down : ∀ key hi, lb.hostMap.lookup key = some hi →
    (hi.self ∈ lb.downList ↔ hi.overload = true)
  key_eq : ∀ key hi, lb.hostMap.lookup key = some hi → hi.key = key
  self_inj : ∀ key hi key' hi', lb.hostMap.lookup key = some hi →
    lb.hostMap.lookup key' = some hi' → hi.self = hi'.self → key = key'
  self_lt : ∀ key hi, lb.hostMap.lookup key = some hi → hi.self < lb.nextHI

/-- The invariant once `hi` is written back to `_hostMap[key]`. -/
def RepInvAt (lb : LB) (key : UInt64) (hi : HI) : Prop := (lb.store key hi).RepInv

/-- A record keeps its identity: where it lives and which host it describes. -/
def SameHost (hi hi' : HI) : Prop := hi'.self = hi.self ∧ hi'.ip = hi.ip ∧ hi'.port = hi.port

/-- The key of a record is made of ip and port. -/
theorem SameHost.key {hi hi' : HI} (h : SameHost hi hi') : hi'.key = hi.key := by
  rw [HI.key, HI.key, HI.addr, HI.addr, h.2.1, h.2.2]

/-- The fields that say which module this is and when it was served last. Call results and the loops
of an update leave them alone. -/
structure SameMeta (lb lb' : LB) : Prop where
  self_eq : lb'.self = lb.self
  effectData_eq : lb'.effectData = lb.effectData
  lstRptTime_eq : lb'.lstRptTime = lb.lstRptTime
  status_eq : lb'.status = lb.status
  version_eq : lb'.version = lb.version
  modid_eq : lb'.modid = lb.modid
  cmdid_eq : lb'.cmdid = lb.cmdid
  accessCnt_eq : lb'.accessCnt = lb.accessCnt

/-- Nothing was done. -/
theorem SameMeta.refl (lb : LB) : SameMeta lb lb := ⟨rfl, rfl, rfl, rfl, rfl, rfl, rfl, rfl⟩

/-- Two changes in a row leave alone what both of them leave alone. -/
theorem SameMeta.trans {lb lb' lb'' : LB} (h : SameMeta lb lb') (h' : SameMeta lb' lb'') :
    SameMeta lb lb'' :=
  ⟨h'.1.trans h.1, h'.2.trans h.2, h'.3.trans h.3, h'.4.trans h.4, h'.5.trans h.5, h'.6.trans h.6,
    h'.7.trans h.7, h'.8.trans h.8⟩

/-! ## Following pointers -/

/-- A pointer to a record of the map is followed to that record. -/
theorem RepInv.deref_self {lb : LB} (h : lb.RepInv) {key : UInt64} {hi : HI}
    (hk : lb.hostMap.lookup key = some hi) : lb.deref hi.self = .ok hi := by
  have hmem := HashMap.mem_entries_iff.mpr hk
  rw [deref]
  split
  · next e he =>
    have hself : e.2.self = hi.self := by simpa using List.find?_some he
    have he' : lb.hostMap.lookup e.1 = some e.2 :=
      HashMap.mem_entries_iff.mp (List.mem_of_find?_eq_some he)
    have hkey := h.self_inj e.1 e.2 key hi he' hk hself
    rw [hkey, hk] at he'
    rw [Option.some.inj he']
  · next hnone =>
    rw [List.find?_eq_none] at hnone
    exact absurd (by simp) (hnone _ hmem)

/-- Every pointer of the lists is followed to a record of the map. -/
theorem RepInv.deref_mem {lb : LB} (h : lb.RepInv) {p : HIPtr}
    (hp : p ∈ lb.runningList ∨ p ∈ lb.downList) :
    ∃ key hi, lb.hostMap.lookup key = some hi ∧ hi.self = p ∧ lb.deref p = .ok hi := by
  obtain ⟨key, hi, hk, rfl⟩ := (h.mem_lists p).mp hp
  exact ⟨key, hi, hk, rfl, h.deref_self hk⟩

/-! ## The steps of a call result -/

/-- The invariant of a state that differs from one with the invariant in the record of one host and
in the lists, as long as the lists still hold the same pointers and the flag fits. -/
theorem RepInv.change {lb lb' : LB} (h : lb.RepInv) {key : UInt64} {hi hi' : HI}
    (hk : lb.hostMap.lookup key = some hi) (hsame : SameHost hi hi')
    (hmap : ∀ k, lb'.hostMap.lookup k = if k = key then some hi' else lb.hostMap.lookup k)
    (hnext : lb'.nextHI = lb.nextHI) (hrun : lb'.runningList.Nodup) (hdown : lb'.downList.Nodup)
    (hdisj : lb'.runningList.Disjoint lb'.downList)
    (hlists : ∀ p, p ∈ lb'.runningList ∨ p ∈ lb'.downList ↔ p ∈ lb.runningList ∨ p ∈ lb.downList)
    (hother : ∀ p, p ≠ hi.self → (p ∈ lb'.downList ↔ p ∈ lb.downList))
    (hflag : hi.self ∈ lb'.downList ↔ hi'.overload = true) : lb'.RepInv := by
  have hlk : ∀ k hi₂, lb'.hostMap.lookup k = some hi₂ →
      ∃ hi₁, lb.hostMap.lookup k = some hi₁ ∧ SameHost hi₁ hi₂ := by
    intro k hi₂ hk₂
    rw [hmap] at hk₂
    split at hk₂
    · next heq => exact ⟨hi, heq ▸ hk, Option.some.inj hk₂ ▸ hsame⟩
    · exact ⟨hi₂, hk₂, rfl, rfl, rfl⟩
  refine ⟨hrun, hdown, hdisj, ?_, ?_, ?_, ?_, ?_⟩
  · intro p
    rw [hlists, h.mem_lists]
    constructor
    · rintro ⟨k, hi₁, hk₁, rfl⟩
      by_cases hkey : k = key
      · subst hkey
        obtain rfl := Option.some.inj (hk₁.symm.trans hk)
        exact ⟨k, hi', by rw [hmap, if_pos rfl], hsame.1⟩
      · exact ⟨k, hi₁, by rw [hmap, if_neg hkey, hk₁], rfl⟩
    · rintro ⟨k, hi₂, hk₂, rfl⟩
      obtain ⟨hi₁, hk₁, hs⟩ := hlk k hi₂ hk₂
      exact ⟨k, hi₁, hk₁, hs.1.symm⟩
  · intro k hi₂ hk₂
    rw [hmap] at hk₂
    split at hk₂
    · obtain rfl := Option.some.inj hk₂
      rw [hsame.1]
      exact hflag
    · next hkey =>
      rw [hother, h.mem_down k hi₂ hk₂]
      exact fun heq => hkey (h.self_inj k hi₂ key hi hk₂ hk heq)
  · intro k hi₂ hk₂
    obtain ⟨hi₁, hk₁, hs⟩ := hlk k hi₂ hk₂
    rw [hs.key, h.key_eq k hi₁ hk₁]
  · intro k hi₂ k' hi₂' hk₂ hk₂' heq
    obtain ⟨hi₁, hk₁, hs⟩ := hlk k hi₂ hk₂
    obtain ⟨hi₁', hk₁', hs'⟩ := hlk k' hi₂' hk₂'
    exact h.self_inj k hi₁ k' hi₁' hk₁ hk₁' (by rw [← hs.1, heq, hs'.1])
  · intro k hi₂ hk₂
    obtain ⟨hi₁, hk₁, hs⟩ := hlk k hi₂ hk₂
    rw [hnext, hs.1]
    exact h.self_lt k hi₁ hk₁

/-- The record that was stored is found under its key, the others are as they were. -/
@[simp] theorem store_lookup (lb : LB) (key k : UInt64) (hi : HI) :
    (lb.store key hi).hostMap.lookup k = if k = key then some hi else lb.hostMap.lookup k :=
  HashMap.lookup_insert_eq _ _ _ _

/-- Writing a record moves no host. -/
@[simp] theorem store_runningList (lb : LB) (key : UInt64) (hi : HI) :
    (lb.store key hi).runningList = lb.runningList := rfl

/-- The same of the overloaded ones. -/
@[simp] theorem store_downList (lb : LB) (key : UInt64) (hi : HI) :
    (lb.store key hi).downList = lb.downList := rfl

/-- The record that `_hostMap[key]` yields is in its place already. -/
theorem RepInv.at {lb : LB} (h : lb.RepInv) {key : UInt64} {hi : HI}
    (hk : lb.hostMap.lookup key = some hi) : lb.RepInvAt key hi :=
  h.change hk ⟨rfl, rfl, rfl⟩ (by simp) rfl h.running_nodup h.down_nodup h.disjoint
    (fun _ => Iff.rfl) (fun _ _ => Iff.rfl) (h.mem_down key hi hk)

/-- Counters may change at will. -/
theorem RepInvAt.touch {lb : LB} {key : UInt64} {hi hi' : HI} (h : lb.RepInvAt key hi)
    (hsame : SameHost hi hi') (hflag : hi'.overload = hi.overload) : lb.RepInvAt key hi' := by
  have hk : (lb.store key hi).hostMap.lookup key = some hi := by simp
  refine RepInv.change h hk hsame ?_ rfl h.running_nodup h.down_nodup h.disjoint
    (fun _ => Iff.rfl) (fun _ _ => Iff.rfl) ?_
  · intro k
    by_cases hkey : k = key <;> simp [hkey]
  · rw [hflag]
    exact h.mem_down key hi hk

/-- A record that becomes overloaded moves to the down list. -/
theorem RepInvAt.moveDown {lb : LB} {key : UInt64} {hi hi' : HI} (h : lb.RepInvAt key hi)
    (hsame : SameHost hi hi') (hidle : hi.overload = false) (hflag : hi'.overload = true) :
    (lb.moveDown hi.self).RepInvAt key hi' := by
  have hk : (lb.store key hi).hostMap.lookup key = some hi := by simp
  have hnot : hi.self ∉ lb.downList := by
    intro hmem
    have := (h.mem_down key hi hk).mp hmem
    rw [hidle] at this
    cases this
  have hin : hi.self ∈ lb.runningList :=
    ((h.mem_lists hi.self).mpr ⟨key, hi, hk, rfl⟩).resolve_right hnot
  refine RepInv.change h hk hsame ?_ rfl (h.running_nodup.filter _) ?_ ?_ ?_ ?_ ?_
  · intro k
    by_cases hkey : k = key <;> simp [hkey, LB.moveDown]
  · exact List.nodup_append.mpr ⟨h.down_nodup, List.nodup_singleton _, by
      simpa using fun p hp (heq : p = hi.self) => hnot (heq ▸ hp)⟩
  · intro p hrun hdown
    simp only [LB.moveDown, store_runningList, store_downList, List.mem_filter, List.mem_append,
      List.mem_singleton, decide_eq_true_eq] at hrun hdown
    rcases hdown with hdown | hdown
    · exact h.disjoint hrun.1 hdown
    · exact hrun.2 hdown
  · intro p
    by_cases hp : p = hi.self <;> simp [LB.moveDown, hp, hin]
  · intro p hp
    simp [LB.moveDown, hp]
  · simp [LB.moveDown, hflag]

/-- A record that becomes idle moves to the running list. -/
theorem RepInvAt.moveRunning {lb : LB} {key : UInt64} {hi hi' : HI} (h : lb.RepInvAt key hi)
    (hsame : SameHost hi hi') (hover : hi.overload = true) (hflag : hi'.overload = false) :
    (lb.moveRunning hi.self).RepInvAt key hi' := by
  have hk : (lb.store key hi).hostMap.lookup key = some hi := by simp
  have hin : hi.self ∈ lb.downList := (h.mem_down key hi hk).mpr hover
  have hnot : hi.self ∉ lb.runningList := fun hmem => h.disjoint hmem hin
  refine RepInv.change h hk hsame ?_ rfl ?_ (h.down_nodup.filter _) ?_ ?_ ?_ ?_
  · intro k
    by_cases hkey : k = key <;> simp [hkey, LB.moveRunning]
  · exact List.nodup_append.mpr ⟨h.running_nodup, List.nodup_singleton _, by
      simpa using fun p hp (heq : p = hi.self) => hnot (heq ▸ hp)⟩
  · intro p hrun hdown
    simp only [LB.moveRunning, store_runningList, store_downList, List.mem_filter, List.mem_append,
      List.mem_singleton, decide_eq_true_eq] at hrun hdown
    rcases hrun with hrun | hrun
    · exact h.disjoint hrun hdown.1
    · exact hdown.2 hrun
  · intro p
    by_cases hp : p = hi.self <;> simp [LB.moveRunning, hp, hin]
  · intro p hp
    simp [LB.moveRunning, hp]
  · simp [LB.moveRunning, hflag]

/-- Judging the window changes neither the identity of a record nor its state. -/
theorem sameHost_checkWindow (cfg : LbConfigure R) (hi : HI) :
    SameHost hi (hi.checkWindow cfg).2 ∧ (hi.checkWindow cfg).2.overload = hi.overload := by
  rw [HI.checkWindow]
  split
  · exact ⟨⟨rfl, rfl, rfl⟩, rfl⟩
  · split <;> exact ⟨⟨rfl, rfl, rfl⟩, rfl⟩

/-- The closing block keeps the invariant. -/
theorem RepInvAt.checkTimo {lb : LB} {key : UInt64} {hi : HI} (h : lb.RepInvAt key hi)
    (cfg : LbConfigure R) (now : ℤ) : (lb.checkTimo cfg now key hi).RepInv := by
  obtain ⟨hsame, hflag⟩ := sameHost_checkWindow cfg hi
  rw [LB.checkTimo]
  by_cases hover : hi.overload = true
  · rw [if_neg (by simp [hover])]
    split
    · exact h.moveRunning ⟨rfl, rfl, rfl⟩ hover rfl
    · exact h
  · have hidle : hi.overload = false := by simpa using hover
    rw [if_pos (by simp [hidle])]
    split
    · have hw : lb.RepInvAt key (hi.checkWindow cfg).2 := h.touch hsame hflag
      dsimp only
      split
      · exact hw.moveDown ⟨rfl, rfl, rfl⟩ (hflag.trans hidle) rfl
      · exact hw.touch ⟨rfl, rfl, rfl⟩ (hflag.trans hidle).symm
    · exact h

/-- `LB::report` keeps the invariant, in each of its branches. -/
theorem RepInv.report {lb : LB} (h : lb.RepInv) (cfg : LbConfigure R) (now : ℤ)
    (ip port retcode : Int32) : (lb.report cfg now ip port retcode).RepInv := by
  rw [LB.report]
  split
  · exact h
  · next hi hk =>
    dsimp only
    -- after counting, the record has its identity and its flag
    generalize hdef : (if retcode = 0 then (hi.addSucc 1).countSucc 1
      else (hi.addErr 1).countErr 1) = hi'
    have hsame : SameHost hi hi' := by rw [← hdef]; split <;> exact ⟨rfl, rfl, rfl⟩
    have hflag : hi'.overload = hi.overload := by rw [← hdef]; split <;> rfl
    have hat := (h.at hk).touch hsame hflag
    split
    · next hidle =>
      simp only [Bool.and_eq_true, Bool.not_eq_true'] at hidle
      split
      · exact hat.moveDown ⟨rfl, rfl, rfl⟩ hidle.1 rfl
      · exact hat.checkTimo cfg now
    · split
      · next hover =>
        simp only [Bool.and_eq_true] at hover
        split
        · exact hat.moveRunning ⟨rfl, rfl, rfl⟩ hover.1 rfl
        · exact hat.checkTimo cfg now
      · exact hat.checkTimo cfg now

/-- So does `LB::reportSomeSucc`. -/
theorem RepInv.reportSomeSucc {lb : LB} (h : lb.RepInv) (cfg : LbConfigure R) (now : ℤ)
    (ip port : Int32) (succCnt : UInt32) : (lb.reportSomeSucc cfg now ip port succCnt).RepInv := by
  rw [LB.reportSomeSucc]
  split
  · exact h
  · next hi hk =>
    have hat : lb.RepInvAt (packKey ip port) (hi.countSucc succCnt) :=
      (h.at hk).touch ⟨rfl, rfl, rfl⟩ rfl
    dsimp only
    split
    · apply RepInvAt.checkTimo
      exact hat.touch ⟨rfl, rfl, rfl⟩ rfl
    · next hover =>
      have hover : (hi.countSucc succCnt).overload = true := by simpa using hover
      split
      · apply RepInvAt.checkTimo
        exact hat.moveRunning ⟨rfl, rfl, rfl⟩ hover rfl
      · apply RepInvAt.checkTimo
        exact hat.touch ⟨rfl, rfl, rfl⟩ rfl

/-- So does `LB::reportSomeErr`. -/
theorem RepInv.reportSomeErr {lb : LB} (h : lb.RepInv) (cfg : LbConfigure R) (now : ℤ)
    (ip port : Int32) (errCnt : UInt32) : (lb.reportSomeErr cfg now ip port errCnt).RepInv := by
  rw [LB.reportSomeErr]
  split
  · exact h
  · next hi hk =>
    have hat : lb.RepInvAt (packKey ip port) (hi.countErr errCnt) :=
      (h.at hk).touch ⟨rfl, rfl, rfl⟩ rfl
    dsimp only
    split
    · apply RepInvAt.checkTimo
      exact hat.touch ⟨rfl, rfl, rfl⟩ rfl
    · next hidle =>
      have hidle : (hi.countErr errCnt).overload = false := by simpa using hidle
      split
      · apply RepInvAt.checkTimo
        exact hat.moveDown ⟨rfl, rfl, rfl⟩ hidle rfl
      · apply RepInvAt.checkTimo
        exact hat.touch ⟨rfl, rfl, rfl⟩ rfl

/-! ## Choosing a host -/

/-- The invariant does not depend on the order of the lists. -/
theorem RepInv.perm {lb lb' : LB} (h : lb.RepInv) (hmap : lb'.hostMap = lb.hostMap)
    (hnext : lb'.nextHI = lb.nextHI) (hrun : lb'.runningList.Perm lb.runningList)
    (hdown : lb'.downList.Perm lb.downList) : lb'.RepInv := by
  refine ⟨hrun.nodup_iff.mpr h.running_nodup, hdown.nodup_iff.mpr h.down_nodup, ?_, ?_, ?_, ?_, ?_,
    ?_⟩
  · intro p hp hp'
    exact h.disjoint (hrun.mem_iff.mp hp) (hdown.mem_iff.mp hp')
  · intro p
    rw [hrun.mem_iff, hdown.mem_iff, hmap]
    exact h.mem_lists p
  · intro key hi hk
    rw [hdown.mem_iff]
    exact h.mem_down key hi (hmap ▸ hk)
  · exact fun key hi hk => h.key_eq key hi (hmap ▸ hk)
  · exact fun key hi key' hi' hk hk' => h.self_inj key hi key' hi' (hmap ▸ hk) (hmap ▸ hk')
  · exact fun key hi hk => hnext ▸ h.self_lt key hi (hmap ▸ hk)

/-- A list that is not empty gives a host of the route and goes round by one. -/
theorem RepInv.rotate {lb : LB} (h : lb.RepInv) {l : List HIPtr} (hne : l ≠ [])
    (hl : ∀ p ∈ l, p ∈ lb.runningList ∨ p ∈ lb.downList) :
    ∃ key hi l', lb.rotate l = .ok (hi.addr, l') ∧ lb.hostMap.lookup key = some hi ∧ l'.Perm l := by
  cases l with
  | nil => exact absurd rfl hne
  | cons p rest =>
    obtain ⟨key, hi, hk, -, hd⟩ := h.deref_mem (hl p List.mem_cons_self)
    refine ⟨key, hi, rest ++ [p], ?_, hk, List.perm_append_singleton p rest⟩
    rw [LB.rotate, hd]
    rfl

/-- An `LB` with a record has a pointer to it in one of the lists. -/
theorem RepInv.down_ne_nil {lb : LB} (h : lb.RepInv) (hne : lb.empty = false)
    (hrun : lb.runningList = []) : lb.downList ≠ [] := by
  intro hdown
  have hall : ∀ k, lb.hostMap.lookup k = none := by
    intro k
    by_contra hk
    obtain ⟨hi, hk⟩ := Option.ne_none_iff_exists'.mp hk
    have := (h.mem_lists hi.self).mpr ⟨k, hi, hk, rfl⟩
    simp [hrun, hdown] at this
  have := HashMap.isEmpty_iff_lookup.mpr hall
  simp [empty, this] at hne

/-- What `LB::getHost` answers: a host of the route, or that all of them are overloaded. -/
def HostAnswer (lb : LB) (ret : Int32) (host : Option HostAddr) : Prop :=
  (ret = Retcode.success ∧ ∃ key hi, lb.hostMap.lookup key = some hi ∧ host = some hi.addr) ∨
    (ret = Retcode.overload ∧ host = none ∧
      ∀ key hi, lb.hostMap.lookup key = some hi → hi.overload = true)

omit [RateArith R] in
/-- `LB::getHost` on a route that is not empty takes no `front()` of an empty list. It only turns
the lists and counts accesses. -/
theorem RepInv.getHost {lb : LB} (h : lb.RepInv) (cfg : LbConfigure R) (hne : lb.empty = false) :
    ∃ cnt run down ret host,
      lb.getHost cfg =
        .ok ({ lb with accessCnt := cnt, runningList := run, downList := down }, ret, host) ∧
      run.Perm lb.runningList ∧ down.Perm lb.downList ∧ lb.HostAnswer ret host := by
  have hrot : ∀ l, l ≠ [] → (∀ p ∈ l, p ∈ lb.runningList ∨ p ∈ lb.downList) →
      ∃ host l', lb.rotate l = .ok (host, l') ∧ l'.Perm l ∧
        lb.HostAnswer Retcode.success (some host) := by
    intro l hl hmem
    obtain ⟨key, hi, l', heq, hk, hperm⟩ := h.rotate hl hmem
    exact ⟨hi.addr, l', heq, hperm, .inl ⟨rfl, key, hi, hk, rfl⟩⟩
  have hdownRot := fun hd => hrot lb.downList hd fun p hp => .inr hp
  have hrunRot := fun hr => hrot lb.runningList hr fun p hp => .inl hp
  rw [LB.getHost]
  by_cases hr : lb.runningList = []
  · rw [if_pos (by simp [hr])]
    split
    · obtain ⟨host, l', heq, hperm, hans⟩ := hdownRot (h.down_ne_nil hne hr)
      rw [heq]
      exact ⟨_, _, _, _, _, rfl, .rfl, hperm, hans⟩
    · refine ⟨_, _, _, _, _, rfl, .rfl, .rfl, .inr ⟨rfl, rfl, ?_⟩⟩
      intro key hi hk
      have := (h.mem_lists hi.self).mpr ⟨key, hi, hk, rfl⟩
      rw [hr] at this
      exact (h.mem_down key hi hk).mp (this.resolve_left List.not_mem_nil)
  · rw [if_neg (by simp [hr])]
    obtain ⟨host, l', heq, hperm, hans⟩ := hrunRot hr
    by_cases hd : lb.downList = []
    · rw [if_pos (by simp [hd]), heq]
      exact ⟨_, _, _, _, _, rfl, hperm, .rfl, hans⟩
    · rw [if_neg (by simp [hd])]
      split
      · obtain ⟨host, l', heq, hperm, hans⟩ := hdownRot hd
        rw [heq]
        exact ⟨_, _, _, _, _, rfl, .rfl, hperm, hans⟩
      · rw [heq]
        exact ⟨_, _, _, _, _, rfl, hperm, .rfl, hans⟩

/-! ## Reports to the reporter -/

/-- The entry that describes a record. -/
def result (hi : HI) : HostCallResult := ⟨hi.ip.toInt32, hi.port, hi.rSucc, hi.rErr, hi.overload⟩

/-- The report has exactly one entry for each host of the route, with its counters and its state. -/
structure Names (lb : LB) (req : ReportStatusReq) : Prop where
  modid_eq : req.modid = lb.modid
  cmdid_eq : req.cmdid = lb.cmdid
  nodup : (req.results.map fun r => packKey r.ip r.port).Nodup
  mem_iff : ∀ r, r ∈ req.results ↔ ∃ key hi, lb.hostMap.lookup key = some hi ∧ r = result hi

/-- A loop of `LB::report2Rpter` over one of the lists: an entry for each pointer. -/
theorem RepInv.callResult {lb : LB} (h : lb.RepInv) {l : List HIPtr} {overload : Bool}
    (hl : ∀ p ∈ l, ∃ key hi, lb.hostMap.lookup key = some hi ∧ hi.self = p ∧
      hi.overload = overload) :
    ∃ rs, l.mapM (lb.callResult overload) = .ok rs ∧
      List.Forall₂ (fun p r => ∃ key hi, lb.hostMap.lookup key = some hi ∧ hi.self = p ∧
        r = result hi) l rs := by
  apply List.mapM_forall₂
  intro p hp
  obtain ⟨key, hi, hk, rfl, rfl⟩ := hl p hp
  exact ⟨result hi, by rw [LB.callResult, h.deref_self hk]; rfl, key, hi, hk, rfl, rfl⟩

/-- A report is due: the route is not empty and the report period is over. -/
def Due (cfg : LbConfigure R) (now : ℤ) (lb : LB) : Prop :=
  lb.empty = false ∧ cfg.reportTimo ≤ now - lb.lstRptTime

omit [RateArith R] in
/-- `LB::report2Rpter` follows no dangling pointer, and what it sends names the route. -/
theorem RepInv.report2Rpter {lb : LB} (h : lb.RepInv) (cfg : LbConfigure R) (now : ℤ) :
    ∃ rpt req, lb.report2Rpter cfg now = .ok ({ lb with lstRptTime := rpt }, req) ∧
      (∀ r ∈ req, lb.Names r) ∧ (req.isSome = true ↔ lb.Due cfg now) := by
  have hrun : ∀ p ∈ lb.runningList, ∃ key hi, lb.hostMap.lookup key = some hi ∧ hi.self = p ∧
      hi.overload = false := by
    intro p hp
    obtain ⟨key, hi, hk, rfl⟩ := (h.mem_lists p).mp (.inl hp)
    refine ⟨key, hi, hk, rfl, ?_⟩
    rw [← Bool.not_eq_true, ← h.mem_down key hi hk]
    exact h.disjoint hp
  have hdown : ∀ p ∈ lb.downList, ∃ key hi, lb.hostMap.lookup key = some hi ∧ hi.self = p ∧
      hi.overload = true := by
    intro p hp
    obtain ⟨key, hi, hk, rfl⟩ := (h.mem_lists p).mp (.inr hp)
    exact ⟨key, hi, hk, rfl, (h.mem_down key hi hk).mp hp⟩
  rw [LB.report2Rpter]
  split
  · next hemp => exact ⟨_, _, rfl, by simp, by simp [Due, hemp]⟩
  · next hemp =>
    split
    · next hearly => exact ⟨_, _, rfl, by simp, by simp [Due, hearly]⟩
    · next hdue =>
      obtain ⟨rs, hrs, hall⟩ := h.callResult hrun
      obtain ⟨ds, hds, hall'⟩ := h.callResult hdown
      rw [hrs, hds]
      refine ⟨_, _, rfl, ?_, by simpa [Due] using ⟨by simpa using hemp, by omega⟩⟩
      have hboth := List.rel_append hall hall'
      have hnd : (lb.runningList ++ lb.downList).Nodup :=
        List.nodup_append'.mpr ⟨h.running_nodup, h.down_nodup, h.disjoint⟩
      rintro _ ⟨⟩
      refine ⟨rfl, rfl, ?_, ?_⟩
      · refine hboth.nodup_map ?_ hnd
        -- entries with one key describe one record, and come from its one pointer
        rintro _ _ _ _ ⟨key, hi, hk, rfl, rfl⟩ ⟨key', hi', hk', rfl, rfl⟩ heq
        have hkey : key = key' := by rw [← h.key_eq key hi hk, ← h.key_eq key' hi' hk']; exact heq
        rw [hkey, hk'] at hk
        rw [Option.some.inj hk]
      · intro r
        constructor
        · intro hr
          obtain ⟨p, -, key, hi, hk, -, rfl⟩ := hboth.exists_left hr
          exact ⟨key, hi, hk, rfl⟩
        · rintro ⟨key, hi, hk, rfl⟩
          have hp : hi.self ∈ lb.runningList ++ lb.downList :=
            List.mem_append.mpr ((h.mem_lists hi.self).mpr ⟨key, hi, hk, rfl⟩)
          obtain ⟨r, hr, key', hi', hk', hself, rfl⟩ := hboth.exists_right hp
          have hkey := h.self_inj key' hi' key hi hk' hk hself
          rw [hkey, hk] at hk'
          rwa [Option.some.inj hk']

end Elb.LB
