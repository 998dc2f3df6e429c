import Elb.Lbagent.LbInvariant

/-!
# Route updates

`LB::update` is two loops, one that adds the hosts of the response and one that drops the hosts that
it does not list. Each loop is described by what it does to a lookup, and the invariant is carried
through both.
-/

namespace Elb.LB

variable {R : Type} (cfg : LbConfigure R) (now : ℤ)

/-! ## Adding hosts -/

/-- The record of a host that joins the route. -/
def freshHI (p : HIPtr) (h : HostAddr) : HI :=
  HI.new p h.ip.toUInt32 h.port cfg.initSuccCnt.toUInt32 now

/-- A new record is found at its own pointer. -/
@[simp] theorem freshHI_self (p : HIPtr) (h : HostAddr) : (freshHI cfg now p h).self = p := rfl

/-- A new host is idle. -/
@[simp] theorem freshHI_overload (p : HIPtr) (h : HostAddr) :
    (freshHI cfg now p h).overload = false := rfl

/-- A fresh record is filed under the key of its host. -/
@[simp] theorem freshHI_key (p : HIPtr) (h : HostAddr) : (freshHI cfg now p h).key = h.key := by
  simp [HI.key, HI.addr, freshHI, HI.new]

/-- A host that is in the map is left alone. -/
theorem addHost_of_some {st : LB × Bool} {h : HostAddr} {hi : HI}
    (hk : st.1.hostMap.lookup h.key = some hi) : addHost cfg now st h = st := by
  rw [addHost, hk]

/-- A host that is not in the map gets a fresh record, and a pointer to it at the end of the idle
list. -/
theorem addHost_of_none {st : LB × Bool} {h : HostAddr} (hk : st.1.hostMap.lookup h.key = none) :
    addHost cfg now st h =
      ({ st.1 with
        hostMap := st.1.hostMap.insert h.key (freshHI cfg now st.1.nextHI h)
        runningList := st.1.runningList ++ [st.1.nextHI]
        nextHI := st.1.nextHI + 1 }, true) := by
  rw [addHost, hk]
  rfl

/-- A new host goes to the end of the running list under a fresh address. -/
theorem RepInv.addHost {st : LB × Bool} (h : st.1.RepInv) (a : HostAddr) :
    (addHost cfg now st a).1.RepInv := by
  cases hk : st.1.hostMap.lookup a.key with
  | some hi => rwa [addHost_of_some cfg now hk]
  | none =>
    rw [addHost_of_none cfg now hk]
    have hfresh : ∀ p, p ∈ st.1.runningList ∨ p ∈ st.1.downList → p < st.1.nextHI := by
      intro p hp
      obtain ⟨key, hi, hlk, rfl⟩ := (h.mem_lists p).mp hp
      exact h.self_lt key hi hlk
    have hcases : ∀ k hi, (st.1.hostMap.insert a.key (freshHI cfg now st.1.nextHI a)).lookup k
        = some hi → (k = a.key ∧ hi = freshHI cfg now st.1.nextHI a) ∨
          (k ≠ a.key ∧ st.1.hostMap.lookup k = some hi) := by
      intro k hi hlk
      rw [HashMap.lookup_insert_eq] at hlk
      split at hlk
      · next heq => exact .inl ⟨heq, (Option.some.inj hlk).symm⟩
      · next hne => exact .inr ⟨hne, hlk⟩
    refine ⟨?_, h.down_nodup, ?_, ?_, ?_, ?_, ?_, ?_⟩
    · refine List.nodup_append.mpr ⟨h.running_nodup, List.nodup_singleton _, ?_⟩
      simpa using fun p hp => (hfresh p (.inl hp)).ne
    · intro p hrun hdown
      rcases List.mem_append.mp hrun with hrun | hp
      · exact h.disjoint hrun hdown
      · rw [List.mem_singleton.mp hp] at hdown
        exact (hfresh _ (.inr hdown)).ne rfl
    · intro p
      have hsplit : (p ∈ st.1.runningList ++ [st.1.nextHI] ∨ p ∈ st.1.downList) ↔
          (p ∈ st.1.runningList ∨ p ∈ st.1.downList) ∨ p = st.1.nextHI := by
        simp only [List.mem_append, List.mem_singleton]
        tauto
      rw [hsplit, h.mem_lists]
      constructor
      · rintro (⟨k, hi, hlk, rfl⟩ | rfl)
        · refine ⟨k, hi, ?_, rfl⟩
          rw [HashMap.lookup_insert_eq, if_neg (fun heq => ?_), hlk]
          rw [heq, hk] at hlk
          cases hlk
        · exact ⟨a.key, _, AList.lookup_insert _, rfl⟩
      · rintro ⟨k, hi, hlk, rfl⟩
        rcases hcases k hi hlk with ⟨-, rfl⟩ | ⟨-, hlk⟩
        · exact .inr rfl
        · exact .inl ⟨k, hi, hlk, rfl⟩
    · intro k hi hlk
      rcases hcases k hi hlk with ⟨-, rfl⟩ | ⟨-, hlk⟩
      · simpa using fun hdown => (hfresh _ (.inr hdown)).ne rfl
      · exact h.mem_down k hi hlk
    · intro k hi hlk
      rcases hcases k hi hlk with ⟨rfl, rfl⟩ | ⟨-, hlk⟩
      · simp
      · exact h.key_eq k hi hlk
    · intro k hi k' hi' hlk hlk' heq
      rcases hcases k hi hlk with ⟨rfl, rfl⟩ | ⟨-, hlk⟩ <;>
        rcases hcases k' hi' hlk' with ⟨rfl, rfl⟩ | ⟨-, hlk'⟩
      · rfl
      · exact absurd heq.symm (h.self_lt k' hi' hlk').ne
      · exact absurd heq (h.self_lt k hi hlk).ne
      · exact h.self_inj k hi k' hi' hlk hlk' heq
    · intro k hi hlk
      rcases hcases k hi hlk with ⟨-, rfl⟩ | ⟨-, hlk⟩
      · exact Nat.lt_succ_self _
      · exact Nat.lt_succ_of_lt (h.self_lt k hi hlk)

/-- The first loop keeps the invariant. -/
theorem RepInv.addHosts (st : LB × Bool) (h : st.1.RepInv) (hosts : List HostAddr) :
    (hosts.foldl (LB.addHost cfg now) st).1.RepInv := by
  induction hosts generalizing st with
  | nil => exact h
  | cons a hosts ih => exact ih _ (h.addHost cfg now a)

/-- The first loop touches only map and lists. -/
theorem addHosts_sameMeta (st : LB × Bool) (hosts : List HostAddr) :
    SameMeta st.1 (hosts.foldl (addHost cfg now) st).1 := by
  induction hosts generalizing st with
  | nil => exact .refl _
  | cons a hosts ih =>
    refine SameMeta.trans ?_ (ih _)
    cases hk : st.1.hostMap.lookup a.key with
    | some hi => rw [addHost_of_some cfg now hk]; exact .refl _
    | none => rw [addHost_of_none cfg now hk]; exact ⟨rfl, rfl, rfl, rfl, rfl, rfl, rfl, rfl⟩

/-- A host that the map knows keeps its record. -/
theorem addHosts_lookup_of_some (st : LB × Bool) {k : UInt64} {hi : HI} (hosts : List HostAddr)
    (hk : st.1.hostMap.lookup k = some hi) :
    (hosts.foldl (addHost cfg now) st).1.hostMap.lookup k = some hi := by
  induction hosts generalizing st with
  | nil => exact hk
  | cons a hosts ih =>
    refine ih _ ?_
    cases ha : st.1.hostMap.lookup a.key with
    | some hi' => rwa [addHost_of_some cfg now ha]
    | none =>
      have hne : k ≠ a.key := fun heq => by rw [heq, ha] at hk; cases hk
      rw [addHost_of_none cfg now ha, HashMap.lookup_insert_eq, if_neg hne, hk]

/-- A host that the map does not know gets a fresh record if it is listed. -/
theorem addHosts_lookup_of_none (st : LB × Bool) {k : UInt64} (hosts : List HostAddr)
    (hk : st.1.hostMap.lookup k = none) :
    (k ∉ hosts.map HostAddr.key ∧
        (hosts.foldl (addHost cfg now) st).1.hostMap.lookup k = none) ∨
      ∃ p a, a ∈ hosts ∧ a.key = k ∧
        (hosts.foldl (addHost cfg now) st).1.hostMap.lookup k = some (freshHI cfg now p a) := by
  induction hosts generalizing st with
  | nil => exact .inl ⟨by simp, hk⟩
  | cons a hosts ih =>
    -- the first time the host is listed decides, the rest of the loop leaves its record alone
    by_cases heq : k = a.key
    · right
      refine ⟨st.1.nextHI, a, List.mem_cons_self, heq.symm, ?_⟩
      subst heq
      refine addHosts_lookup_of_some cfg now _ hosts ?_
      rw [addHost_of_none cfg now hk]
      exact AList.lookup_insert _
    · have hk' : (addHost cfg now st a).1.hostMap.lookup k = none := by
        cases ha : st.1.hostMap.lookup a.key with
        | some hi => rwa [addHost_of_some cfg now ha]
        | none => rw [addHost_of_none cfg now ha, HashMap.lookup_insert_eq, if_neg heq, hk]
      rcases ih _ hk' with ⟨hnot, hnone⟩ | ⟨p, b, hb, hbk, hsome⟩
      · exact .inl ⟨by simp only [List.map_cons, List.mem_cons]; tauto, hnone⟩
      · exact .inr ⟨p, b, List.mem_cons_of_mem _ hb, hbk, hsome⟩

/-- The flag `updated` after the first loop: some listed host was not in the map. -/
theorem addHosts_updated (st : LB × Bool) (hosts : List HostAddr) :
    (hosts.foldl (addHost cfg now) st).2 = true ↔
      st.2 = true ∨ ∃ a ∈ hosts, a.key ∉ st.1.hostMap := by
  induction hosts generalizing st with
  | nil => simp
  | cons a hosts ih =>
    rw [List.foldl_cons, ih]
    cases ha : st.1.hostMap.lookup a.key with
    | some hi =>
      have hmem : a.key ∈ st.1.hostMap := HashMap.mem_iff.mpr ⟨hi, ha⟩
      rw [addHost_of_some cfg now ha]
      simp [hmem]
    | none =>
      have hmem : a.key ∉ st.1.hostMap := AList.lookup_eq_none.mp ha
      rw [addHost_of_none cfg now ha]
      simp [hmem]

/-! ## Dropping hosts -/

/-- A dropped host is gone, and the others stay. -/
theorem delHost_lookup (lb : LB) (key k : UInt64) :
    (delHost lb key).hostMap.lookup k = if k = key then none else lb.hostMap.lookup k := by
  rw [delHost]
  split
  · next hnone =>
    split
    · next heq => rw [heq, hnone]
    · rfl
  · split <;> exact HashMap.lookup_erase_eq _ _ _

/-- A dropped record leaves the list that pointed to it. -/
theorem RepInv.delHost {lb : LB} (h : lb.RepInv) (key : UInt64) : (delHost lb key).RepInv := by
  cases hk : lb.hostMap.lookup key with
  | none => rw [LB.delHost, hk]; exact h
  | some hi =>
    have hcases : ∀ k hi', (LB.delHost lb key).hostMap.lookup k = some hi' →
        k ≠ key ∧ lb.hostMap.lookup k = some hi' := by
      intro k hi' hlk
      rw [delHost_lookup] at hlk
      split at hlk
      · cases hlk
      · next hne => exact ⟨hne, hlk⟩
    -- in whichever list the pointer is, taking it out of the other one does nothing
    have hlists : (LB.delHost lb key).runningList = lb.runningList.filter (· ≠ hi.self) ∧
        (LB.delHost lb key).downList = lb.downList.filter (· ≠ hi.self) := by
      have hself : ∀ l : List HIPtr, hi.self ∉ l → l.filter (· ≠ hi.self) = l := by
        intro l hl
        rw [List.filter_eq_self]
        exact fun p hp => by simpa using fun heq : p = hi.self => hl (heq ▸ hp)
      rw [LB.delHost, hk]
      dsimp only
      split
      · next hover =>
        have hdown := (h.mem_down key hi hk).mpr hover
        exact ⟨(hself _ fun hrun => h.disjoint hrun hdown).symm, rfl⟩
      · next hidle =>
        exact ⟨rfl, (hself _ fun hdown => hidle ((h.mem_down key hi hk).mp hdown)).symm⟩
    -- no pointer is given out
    have hnext : (LB.delHost lb key).nextHI = lb.nextHI := by
      rw [LB.delHost, hk]
      dsimp only
      split <;> rfl
    refine ⟨hlists.1 ▸ h.running_nodup.filter _, hlists.2 ▸ h.down_nodup.filter _, ?_, ?_, ?_, ?_,
      ?_, ?_⟩
    · rw [hlists.1, hlists.2]
      exact fun p hp hp' => h.disjoint (List.mem_filter.mp hp).1 (List.mem_filter.mp hp').1
    · intro p
      rw [hlists.1, hlists.2, List.mem_filter, List.mem_filter, ← or_and_right, h.mem_lists]
      simp only [decide_eq_true_eq]
      constructor
      · rintro ⟨⟨k, hi', hlk, rfl⟩, hne⟩
        refine ⟨k, hi', ?_, rfl⟩
        rw [delHost_lookup, if_neg (fun heq => ?_), hlk]
        rw [heq, hk] at hlk
        exact hne (congrArg HI.self (Option.some.inj hlk).symm)
      · rintro ⟨k, hi', hlk, rfl⟩
        obtain ⟨hne, hlk⟩ := hcases k hi' hlk
        exact ⟨⟨k, hi', hlk, rfl⟩, fun heq => hne (h.self_inj k hi' key hi hlk hk heq)⟩
    · intro k hi' hlk
      obtain ⟨hne, hlk⟩ := hcases k hi' hlk
      rw [hlists.2, List.mem_filter, h.mem_down k hi' hlk]
      simpa using fun _ heq => hne (h.self_inj k hi' key hi hlk hk heq)
    · exact fun k hi' hlk => h.key_eq k hi' (hcases k hi' hlk).2
    · exact fun k hi₁ k' hi₂ hlk hlk' =>
        h.self_inj k hi₁ k' hi₂ (hcases k hi₁ hlk).2 (hcases k' hi₂ hlk').2
    · exact fun k hi' hlk => hnext ▸ h.self_lt k hi' (hcases k hi' hlk).2

/-- The second loop keeps the invariant. -/
theorem RepInv.delHosts {lb : LB} (h : lb.RepInv) (todel : List UInt64) :
    (todel.foldl LB.delHost lb).RepInv := by
  induction todel generalizing lb with
  | nil => exact h
  | cons key todel ih => exact ih (h.delHost key)

/-- The second loop drops the listed keys. -/
theorem delHosts_lookup (lb : LB) (todel : List UInt64) (k : UInt64) :
    (todel.foldl delHost lb).hostMap.lookup k =
      if k ∈ todel then none else lb.hostMap.lookup k := by
  induction todel generalizing lb with
  | nil => rfl
  | cons key todel ih =>
    rw [List.foldl_cons, ih, delHost_lookup]
    -- a key that is listed twice is dropped the first time
    by_cases hk : k = key <;> by_cases hmem : k ∈ todel <;> simp [hk, hmem]

/-- The second loop touches only map and lists. -/
theorem delHosts_sameMeta (lb : LB) (todel : List UInt64) :
    SameMeta lb (todel.foldl delHost lb) := by
  induction todel generalizing lb with
  | nil => exact .refl _
  | cons key todel ih =>
    refine SameMeta.trans ?_ (ih _)
    rw [delHost]
    split
    · exact .refl _
    · split <;> exact ⟨rfl, rfl, rfl, rfl, rfl, rfl, rfl, rfl⟩

/-! ## The whole update -/

/-- The response changes the route: it lists another set of hosts than the map has. -/
def Changes (lb : LB) (rsp : GetRouteRsp) : Prop :=
  ¬ ∀ k, k ∈ lb.hostMap ↔ k ∈ rsp.hosts.map HostAddr.key

/-- What `LB::update` does with a response that lists a host. -/
structure UpdateSpec (lb : LB) (rsp : GetRouteRsp) (lb' : LB) : Prop where
  keys : ∀ k, k ∈ lb'.hostMap ↔ k ∈ rsp.hosts.map HostAddr.key
  kept : ∀ k hi, lb.hostMap.lookup k = some hi → k ∈ rsp.hosts.map HostAddr.key →
    lb'.hostMap.lookup k = some hi
  fresh : ∀ k hi, lb.hostMap.lookup k = none → lb'.hostMap.lookup k = some hi →
    ∃ p a, a ∈ rsp.hosts ∧ hi = freshHI cfg now p a
  self_eq : lb'.self = lb.self
  modid_eq : lb'.modid = lb.modid
  cmdid_eq : lb'.cmdid = lb.cmdid
  accessCnt_eq : lb'.accessCnt = lb.accessCnt
  effectData_eq : lb'.effectData = now
  status_eq : lb'.status = .isNew
  lstRptTime_eq : lb'.lstRptTime = if lb.empty then now else lb.lstRptTime
  version_of_changes : lb.Changes rsp → lb'.version = now
  version_of_not_changes : ¬lb.Changes rsp → lb'.version = lb.version

/-- After the first loop the map has its own hosts and those of the response. -/
theorem mem_addHosts_iff (lb : LB) (b : Bool) (hosts : List HostAddr) (k : UInt64) :
    k ∈ (hosts.foldl (addHost cfg now) (lb, b)).1.hostMap ↔
      k ∈ lb.hostMap ∨ k ∈ hosts.map HostAddr.key := by
  cases hk : lb.hostMap.lookup k with
  | some hi =>
    have hmem : k ∈ lb.hostMap := HashMap.mem_iff.mpr ⟨hi, hk⟩
    have hmem' := HashMap.mem_iff.mpr ⟨hi, addHosts_lookup_of_some cfg now (lb, b) hosts hk⟩
    simp [hmem, hmem']
  | none =>
    have hmem : k ∉ lb.hostMap := AList.lookup_eq_none.mp hk
    rcases addHosts_lookup_of_none cfg now (lb, b) hosts hk with
      ⟨hnot, hnone⟩ | ⟨p, a, ha, hak, hsome⟩
    · simp [hmem, hnot, AList.lookup_eq_none.mp hnone]
    · have hin : k ∈ hosts.map HostAddr.key := List.mem_map.mpr ⟨a, ha, hak⟩
      simp [HashMap.mem_iff.mpr ⟨_, hsome⟩, hin]

/-- `LB::update` with a host listed succeeds and does what `UpdateSpec` says. -/
theorem update_spec (lb : LB) {rsp : GetRouteRsp} (hne : rsp.hosts ≠ []) :
    ∃ lb', lb.update cfg now rsp = .ok lb' ∧ UpdateSpec cfg now lb rsp lb' := by
  set remote := rsp.hosts.map HostAddr.key with hremote
  set added := rsp.hosts.foldl (addHost cfg now) (lb, false) with hadded
  set todel := added.1.hostMap.keys.filter (· ∉ remote) with htodel
  -- the map in the middle, between the two loops
  have hmem : ∀ k, k ∈ added.1.hostMap ↔ k ∈ lb.hostMap ∨ k ∈ remote :=
    mem_addHosts_iff cfg now lb false rsp.hosts
  have hdel : ∀ k, k ∈ todel ↔ k ∈ lb.hostMap ∧ k ∉ remote := by
    intro k
    rw [htodel, List.mem_filter, ← AList.mem_keys, hmem]
    simp only [decide_eq_true_eq]
    tauto
  have hlookup : ∀ k, (todel.foldl delHost added.1).hostMap.lookup k =
      if k ∈ todel then none else added.1.hostMap.lookup k := delHosts_lookup added.1 todel
  have hmeta : SameMeta lb (todel.foldl delHost added.1) :=
    (addHosts_sameMeta cfg now (lb, false) rsp.hosts).trans (delHosts_sameMeta added.1 todel)
  -- the flag says whether a host came or went, so whether the sets differ
  have hupdated : (added.2 || !todel.isEmpty) = true ↔ lb.Changes rsp := by
    rw [Changes, Bool.or_eq_true, hadded, addHosts_updated]
    simp only [Bool.false_eq_true, false_or, Bool.not_eq_true', List.isEmpty_eq_false_iff]
    constructor
    · rintro (⟨a, ha, hnot⟩ | hne) hall
      · exact hnot ((hall _).mpr (List.mem_map.mpr ⟨a, ha, rfl⟩))
      · obtain ⟨k, hk⟩ := List.exists_mem_of_ne_nil _ hne
        exact ((hdel k).mp hk).2 ((hall k).mp ((hdel k).mp hk).1)
    · intro hnot
      by_contra hcon
      push Not at hcon
      refine hnot fun k => ⟨fun hk => ?_, fun hk => ?_⟩
      · by_contra hkr
        have := (hdel k).mpr ⟨hk, hkr⟩
        rw [hcon.2] at this
        cases this
      · obtain ⟨a, ha, rfl⟩ := List.mem_map.mp hk
        exact hcon.1 a ha
  refine ⟨_, by rw [update, if_neg (by simpa using hne)], ?_⟩
  refine ⟨?_, ?_, ?_, hmeta.self_eq, hmeta.modid_eq, hmeta.cmdid_eq, hmeta.accessCnt_eq, rfl, rfl,
    ?_, ?_, ?_⟩
  · intro k
    rw [← AList.lookup_isSome, hlookup]
    split
    · next hk => exact iff_of_false (by simp) ((hdel k).mp hk).2
    · next hk =>
      rw [AList.lookup_isSome, hmem]
      rw [hdel] at hk
      tauto
  · intro k hi hk hin
    rw [hlookup, if_neg fun hmemdel => ((hdel k).mp hmemdel).2 hin]
    exact addHosts_lookup_of_some cfg now (lb, false) rsp.hosts hk
  · intro k hi hk hk'
    rw [hlookup] at hk'
    split at hk'
    · cases hk'
    · rcases addHosts_lookup_of_none cfg now (lb, false) rsp.hosts hk with
        ⟨-, hnone⟩ | ⟨p, a, ha, -, hsome⟩
      · exact absurd (hk'.symm.trans hnone) (by simp)
      · exact ⟨p, a, ha, Option.some.inj (hk'.symm.trans hsome)⟩
  · -- the report time is set when the map was empty before the update
    exact congrArg (ite _ _) hmeta.lstRptTime_eq
  · intro hch
    exact if_pos (hupdated.mpr hch)
  · intro hch
    exact (if_neg fun h => hch (hupdated.mp h)).trans hmeta.version_eq

/-- The update that a successful call made. -/
theorem updateSpec_of_ok {lb lb' : LB} {rsp : GetRouteRsp} (h : lb.update cfg now rsp = .ok lb') :
    rsp.hosts ≠ [] ∧ UpdateSpec cfg now lb rsp lb' := by
  have hne : rsp.hosts ≠ [] := by
    intro hnil
    rw [update, if_pos (by simp [hnil])] at h
    cases h
  obtain ⟨lb₁, heq, hspec⟩ := update_spec cfg now lb hne
  rw [heq] at h
  exact ⟨hne, Except.ok.inj h ▸ hspec⟩

variable {cfg now}

/-- Every record after an update was there before, or is fresh. -/
theorem UpdateSpec.lookup_cases {lb lb' : LB} {rsp : GetRouteRsp}
    (h : UpdateSpec cfg now lb rsp lb') {k : UInt64} {hi : HI}
    (hk : lb'.hostMap.lookup k = some hi) :
    lb.hostMap.lookup k = some hi ∨ ∃ p a, a ∈ rsp.hosts ∧ hi = freshHI cfg now p a := by
  cases hk₀ : lb.hostMap.lookup k with
  | none => exact .inr (h.fresh k hi hk₀ hk)
  | some hi₀ =>
    have hmem := (h.keys k).mp (HashMap.mem_iff.mpr ⟨hi, hk⟩)
    rw [h.kept k hi₀ hk₀ hmem] at hk
    exact .inl (by rw [Option.some.inj hk])

/-- A route is empty or not by its keys. -/
theorem empty_iff {lb : LB} : lb.empty = true ↔ ∀ k, k ∉ lb.hostMap := by
  rw [empty, List.isEmpty_iff, HashMap.isEmpty_iff_lookup]
  exact forall_congr' fun k => AList.lookup_eq_none

/-- Maps with the same keys are empty or not alike. -/
theorem empty_congr {lb lb' : LB} (h : ∀ k, k ∈ lb'.hostMap ↔ k ∈ lb.hostMap) :
    lb'.empty = lb.empty := by
  rw [Bool.eq_iff_iff, empty_iff, empty_iff]
  exact forall_congr' fun k => not_congr (h k)

/-- An updated route is not empty. -/
theorem UpdateSpec.empty_eq {lb lb' : LB} {rsp : GetRouteRsp} (h : UpdateSpec cfg now lb rsp lb')
    (hne : rsp.hosts ≠ []) : lb'.empty = false := by
  rw [← Bool.not_eq_true, empty_iff]
  obtain ⟨a, ha⟩ := List.exists_mem_of_ne_nil _ hne
  exact fun hall => hall a.key ((h.keys a.key).mpr (List.mem_map.mpr ⟨a, ha, rfl⟩))

/-- `LB::update` keeps the invariant. -/
theorem RepInv.update (cfg : LbConfigure R) (now : ℤ) {lb lb' : LB} (h : lb.RepInv)
    {rsp : GetRouteRsp} (hup : lb.update cfg now rsp = .ok lb') : lb'.RepInv := by
  rw [LB.update] at hup
  split at hup
  · cases hup
  · have hbody := (RepInv.addHosts cfg now (lb, false) h rsp.hosts).delHosts
      (((rsp.hosts.foldl (LB.addHost cfg now) (lb, false)).1.hostMap.keys.filter
        (· ∉ rsp.hosts.map HostAddr.key)))
    rw [← Except.ok.inj hup]
    exact hbody.perm rfl rfl .rfl .rfl

end Elb.LB
