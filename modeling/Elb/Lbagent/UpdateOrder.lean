import Elb.Lbagent.LbRun

/-!
# What an update does to the two lists

Reference: `lbagent/src/RouteLb.cc`, `LB::update`.

An update neither reorders the hosts that stay nor touches their records. The first loop only
appends to the running list, the last loop only removes, so the lists afterwards are what is left of
the old ones with the new hosts behind.
-/

namespace Elb.LB

variable {R : Type} (cfg : LbConfigure R) (now : ℤ)

/-- The hosts of the response that the map does not know, each where it comes first. -/
def newHosts (lb : LB) (hosts : List HostAddr) : List HostAddr :=
  (hosts.filter (·.key ∉ lb.hostMap)).eraseDups

/-- The record at `p` belongs to a host of the response. -/
def stays (lb : LB) (hosts : List HostAddr) (p : HIPtr) : Bool :=
  lb.hostMap.entries.any fun e => e.2.self = p ∧ e.1 ∈ hosts.map HostAddr.key

/-- A pointer stays if its host is in the response. -/
theorem stays_iff {lb : LB} {hosts : List HostAddr} {p : HIPtr} :
    lb.stays hosts p = true ↔
      ∃ key hi, lb.hostMap.lookup key = some hi ∧ hi.self = p ∧ key ∈ hosts.map HostAddr.key := by
  rw [stays, List.any_eq_true]
  constructor
  · rintro ⟨⟨key, hi⟩, he, hp⟩
    exact ⟨key, hi, HashMap.mem_entries_iff.mp he, of_decide_eq_true hp⟩
  · rintro ⟨key, hi, hk, hp⟩
    exact ⟨⟨key, hi⟩, HashMap.mem_entries_iff.mpr hk, decide_eq_true hp⟩

/-! ## The first loop appends -/

/-- Once a host has its record, only the other hosts of the response are new. -/
theorem newHosts_cons (lb : LB) (a : HostAddr) (hosts : List HostAddr)
    (ha : a.key ∉ lb.hostMap) (hi : HI) :
    lb.newHosts (a :: hosts) = a :: (lb.store a.key hi).newHosts hosts := by
  rw [newHosts, newHosts, List.filter_cons, if_pos (by simpa using ha), List.eraseDups_cons,
    List.filter_filter]
  congr 2
  apply List.filter_congr
  intro b _
  -- two addresses with one key are the same address
  have hinj : b.key = a.key ↔ b = a := ⟨HostAddr.key_inj, congrArg _⟩
  by_cases heq : b = a <;> simp [store, AList.mem_insert, hinj, heq]

/-- The new hosts depend on the map only. -/
theorem newHosts_congr {lb lb' : LB} (h : lb'.hostMap = lb.hostMap) (hosts : List HostAddr) :
    lb'.newHosts hosts = lb.newHosts hosts := by
  rw [newHosts, newHosts, h]

/-- The first loop puts a fresh record for each new host behind the running list, in the order of
the response. -/
theorem addHosts_lists (st : LB × Bool) (hosts : List HostAddr) :
    (hosts.foldl (addHost cfg now) st).1.downList = st.1.downList ∧
      ∃ fresh, (hosts.foldl (addHost cfg now) st).1.runningList = st.1.runningList ++ fresh ∧
        List.Forall₂ (fun p a => (hosts.foldl (addHost cfg now) st).1.hostMap.lookup a.key =
          some (freshHI cfg now p a)) fresh (st.1.newHosts hosts) := by
  induction hosts generalizing st with
  | nil => exact ⟨rfl, [], (List.append_nil _).symm, .nil⟩
  | cons a hosts ih =>
    rw [List.foldl_cons]
    obtain ⟨hdown, fresh, hrun, hall⟩ := ih (addHost cfg now st a)
    cases ha : st.1.hostMap.lookup a.key with
    | some hi =>
      have hin : a.key ∈ st.1.hostMap := HashMap.mem_iff.mpr ⟨hi, ha⟩
      have hnew : st.1.newHosts (a :: hosts) = st.1.newHosts hosts := by
        rw [newHosts, List.filter_cons, if_neg (by simpa using hin)]
        rfl
      rw [addHost_of_some cfg now ha] at hdown hrun hall ⊢
      exact ⟨hdown, fresh, hrun, hnew ▸ hall⟩
    | none =>
      have hnot : a.key ∉ st.1.hostMap := AList.lookup_eq_none.mp ha
      have hlk : (hosts.foldl (addHost cfg now) (addHost cfg now st a)).1.hostMap.lookup a.key =
          some (freshHI cfg now st.1.nextHI a) := by
        apply addHosts_lookup_of_some
        rw [addHost_of_none cfg now ha]
        exact AList.lookup_insert _
      refine ⟨?_, st.1.nextHI :: fresh, ?_, ?_⟩
      · rw [hdown, addHost_of_none cfg now ha]
      · rw [hrun, addHost_of_none cfg now ha, List.append_assoc]
        rfl
      · rw [newHosts_cons st.1 a hosts hnot (freshHI cfg now st.1.nextHI a)]
        have hmap : (addHost cfg now st a).1.hostMap =
            (st.1.store a.key (freshHI cfg now st.1.nextHI a)).hostMap := by
          rw [addHost_of_none cfg now ha]
          rfl
        rw [newHosts_congr hmap] at hall
        exact .cons hlk hall

/-! ## The last loop removes -/

/-- Deleting hosts keeps the order of the others. -/
theorem delHosts_sublist (lb : LB) (todel : List UInt64) :
    ((todel.foldl delHost lb).runningList).Sublist lb.runningList ∧
      ((todel.foldl delHost lb).downList).Sublist lb.downList := by
  induction todel generalizing lb with
  | nil => exact ⟨.refl _, .refl _⟩
  | cons key todel ih =>
    have hstep : ((delHost lb key).runningList).Sublist lb.runningList ∧
        ((delHost lb key).downList).Sublist lb.downList := by
      rw [delHost]
      split
      · exact ⟨.refl _, .refl _⟩
      · split
        · exact ⟨.refl _, List.filter_sublist⟩
        · exact ⟨List.filter_sublist, .refl _⟩
    obtain ⟨hrun, hdown⟩ := ih (delHost lb key)
    exact ⟨hrun.trans hstep.1, hdown.trans hstep.2⟩

/-- A pointer stays in its list exactly if its host is not dropped. -/
theorem RepInv.delHosts_mem {lb : LB} (h : lb.RepInv) (todel : List UInt64) {k : UInt64} {hi : HI}
    (hk : lb.hostMap.lookup k = some hi) :
    (hi.self ∈ lb.runningList →
        (hi.self ∈ (todel.foldl LB.delHost lb).runningList ↔ k ∉ todel)) ∧
      (hi.self ∈ lb.downList → (hi.self ∈ (todel.foldl LB.delHost lb).downList ↔ k ∉ todel)) := by
  obtain ⟨hrunSub, hdownSub⟩ := delHosts_sublist lb todel
  have hboth : (hi.self ∈ (todel.foldl LB.delHost lb).runningList ∨
      hi.self ∈ (todel.foldl LB.delHost lb).downList) ↔ k ∉ todel := by
    rw [(h.delHosts todel).mem_lists]
    constructor
    · rintro ⟨k', hi', hk', hself⟩
      rw [delHosts_lookup] at hk'
      split at hk'
      · cases hk'
      · next hnot => rwa [h.self_inj k hi k' hi' hk hk' hself.symm]
    · intro hnot
      exact ⟨k, hi, by rw [delHosts_lookup, if_neg hnot, hk], rfl⟩
  constructor
  · intro hrun
    rw [← hboth]
    exact ⟨.inl, fun hor => hor.resolve_right fun hdown =>
      h.disjoint hrun (hdownSub.subset hdown)⟩
  · intro hdown
    rw [← hboth]
    exact ⟨.inr, fun hor => hor.resolve_left fun hrun =>
      h.disjoint (hrunSub.subset hrun) hdown⟩

/-! ## Both loops -/

/-- What `LB::update` does to the containers, exactly. -/
structure ExactUpdate (lb : LB) (hosts : List HostAddr) (lb' : LB) : Prop where
  /-- The map has the hosts of the response and no others. -/
  mem_iff : ∀ ip port, packKey ip port ∈ lb'.hostMap ↔ ⟨ip, port⟩ ∈ hosts
  keys : ∀ k ∈ lb'.hostMap, ∃ a ∈ hosts, a.key = k
  /-- A host that stays keeps its record. -/
  kept : ∀ k hi, lb.hostMap.lookup k = some hi → k ∈ lb'.hostMap →
    lb'.hostMap.lookup k = some hi
  /-- A host that is not listed any more is in neither list. -/
  removed : ∀ k hi, lb.hostMap.lookup k = some hi → k ∉ lb'.hostMap →
    hi.self ∉ lb'.runningList ∧ hi.self ∉ lb'.downList
  /-- The hosts that stay are in the order they were in, and the new ones follow in the order of the
  response, with a fresh record each at an address that no record had before. -/
  runningList : ∃ fresh, lb'.runningList = lb.runningList.filter (lb.stays hosts) ++ fresh ∧
    List.Forall₂ (fun p a => lb'.hostMap.lookup a.key = some (freshHI cfg now p a)) fresh
      (lb.newHosts hosts) ∧
    ∀ p ∈ fresh, ∀ k hi, lb.hostMap.lookup k = some hi → hi.self ≠ p
  downList : lb'.downList = lb.downList.filter (lb.stays hosts)
  /-- No record is in the lists twice. -/
  nodup : (lb'.runningList ++ lb'.downList).Nodup
  /-- The version changes exactly when the set of hosts does. -/
  version_of_same : (∀ k, k ∈ lb'.hostMap ↔ k ∈ lb.hostMap) → lb'.version = lb.version
  version_of_changed : ¬(∀ k, k ∈ lb'.hostMap ↔ k ∈ lb.hostMap) → lb'.version = now

variable {cfg now}

/-- For the pointer of a record, staying is a matter of its key. -/
theorem RepInv.stays_self {lb : LB} (h : lb.RepInv) {k : UInt64} {hi : HI}
    (hk : lb.hostMap.lookup k = some hi) (hosts : List HostAddr) :
    lb.stays hosts hi.self = true ↔ k ∈ hosts.map HostAddr.key := by
  rw [stays_iff]
  constructor
  · rintro ⟨k', hi', hk', hself, hin⟩
    rwa [← h.self_inj k' hi' k hi hk' hk hself]
  · exact fun hin => ⟨k, hi, hk, rfl, hin⟩

variable (cfg now)

/-- The lists after an update, and the records of the new hosts. -/
theorem RepInv.update_lists {lb lb' : LB} (h : lb.RepInv) {rsp : GetRouteRsp}
    (hup : lb.update cfg now rsp = .ok lb') :
    (∃ fresh, lb'.runningList = lb.runningList.filter (lb.stays rsp.hosts) ++ fresh ∧
      List.Forall₂ (fun p a => lb'.hostMap.lookup a.key = some (freshHI cfg now p a)) fresh
        (lb.newHosts rsp.hosts) ∧
      ∀ p ∈ fresh, ∀ k hi, lb.hostMap.lookup k = some hi → hi.self ≠ p) ∧
      lb'.downList = lb.downList.filter (lb.stays rsp.hosts) := by
  set remote := rsp.hosts.map HostAddr.key with hremote
  set added := rsp.hosts.foldl (LB.addHost cfg now) (lb, false) with hadded
  set todel := added.1.hostMap.keys.filter (· ∉ remote) with htodel
  have hinv : added.1.RepInv := .addHosts cfg now (lb, false) h rsp.hosts
  obtain ⟨hdown, fresh, hrun, hall⟩ := addHosts_lists cfg now (lb, false) rsp.hosts
  rw [← hadded] at hdown hrun hall
  have hold : ∀ k hi, lb.hostMap.lookup k = some hi → added.1.hostMap.lookup k = some hi :=
    fun k hi hk => addHosts_lookup_of_some cfg now (lb, false) rsp.hosts hk
  -- what the last loop keeps, for a record that is there when it starts
  have hkeep : ∀ k hi, added.1.hostMap.lookup k = some hi → (k ∉ todel ↔ k ∈ remote) := by
    intro k hi hk
    have hmem : k ∈ added.1.hostMap.keys := AList.mem_keys.mpr (HashMap.mem_iff.mpr ⟨hi, hk⟩)
    simp [htodel, hmem]
  have hfresh : ∀ p ∈ fresh, ∃ a ∈ lb.newHosts rsp.hosts,
      added.1.hostMap.lookup a.key = some (freshHI cfg now p a) := by
    intro p hp
    exact hall.exists_right hp
  have hnew : ∀ a ∈ lb.newHosts rsp.hosts, a.key ∈ remote := by
    intro a ha
    rw [newHosts, List.mem_eraseDups] at ha
    exact List.mem_map.mpr ⟨a, (List.mem_filter.mp ha).1, rfl⟩
  -- the containers of `lb'` are those that the last loop leaves
  rw [LB.update, if_neg (by simpa using (updateSpec_of_ok cfg now hup).1)] at hup
  obtain rfl := Except.ok.inj hup
  dsimp only
  obtain ⟨hrunSub, hdownSub⟩ := delHosts_sublist added.1 todel
  have hstays : ∀ p, p ∈ lb.runningList ∨ p ∈ lb.downList →
      ∃ k hi, added.1.hostMap.lookup k = some hi ∧ hi.self = p ∧
        (k ∉ todel ↔ lb.stays rsp.hosts p = true) := by
    intro p hp
    obtain ⟨k, hi, hk, rfl⟩ := (h.mem_lists p).mp hp
    exact ⟨k, hi, hold k hi hk, rfl, (hkeep k hi (hold k hi hk)).trans (h.stays_self hk _).symm⟩
  refine ⟨⟨fresh, ?_, ?_, ?_⟩, ?_⟩
  · rw [hrunSub.eq_filter_mem hinv.running_nodup, hrun, List.filter_append]
    congr 1
    · apply List.filter_congr
      intro p hp
      obtain ⟨k, hi, hk, rfl, hiff⟩ := hstays p (.inl hp)
      have hmem : hi.self ∈ added.1.runningList := hrun ▸ List.mem_append_left _ hp
      rw [Bool.eq_iff_iff, decide_eq_true_eq, ← hiff]
      exact (hinv.delHosts_mem todel hk).1 hmem
    · rw [List.filter_eq_self]
      intro p hp
      obtain ⟨a, ha, hk⟩ := hfresh p hp
      have hmem : p ∈ added.1.runningList := hrun ▸ List.mem_append_right _ hp
      rw [decide_eq_true_eq]
      exact ((hinv.delHosts_mem todel hk).1 hmem).mpr ((hkeep _ _ hk).mpr (hnew a ha))
  · have hlisted := (List.forall₂_and_left (p := fun a : HostAddr => a.key ∈ remote) _ _).mpr
      ⟨hnew, hall.flip⟩
    refine hlisted.flip.imp ?_
    rintro p a ⟨ha, hk⟩
    rw [delHosts_lookup, if_neg ((hkeep _ _ hk).mpr ha), hk]
  · intro p hp k hi hk heq
    have hnd := hinv.running_nodup
    rw [hrun, List.nodup_append'] at hnd
    rcases (h.mem_lists p).mpr ⟨k, hi, hk, heq⟩ with hin | hin
    · exact hnd.2.2 hin hp
    · exact hinv.disjoint (hrun ▸ List.mem_append_right _ hp) (hdown.symm ▸ hin)
  · rw [hdownSub.eq_filter_mem hinv.down_nodup, hdown]
    apply List.filter_congr
    intro p hp
    obtain ⟨k, hi, hk, rfl, hiff⟩ := hstays p (.inr hp)
    rw [Bool.eq_iff_iff, decide_eq_true_eq, ← hiff]
    exact (hinv.delHosts_mem todel hk).2 (hdown.symm ▸ hp)

/-- The pointer of a host that the response does not list is gone. -/
theorem RepInv.update_removed {lb lb' : LB} (h : lb.RepInv) {rsp : GetRouteRsp}
    (hup : lb.update cfg now rsp = .ok lb') {k : UInt64} {hi : HI}
    (hk : lb.hostMap.lookup k = some hi) (hnot : k ∉ rsp.hosts.map HostAddr.key) :
    hi.self ∉ lb'.runningList ∧ hi.self ∉ lb'.downList := by
  have hgone : lb.stays rsp.hosts hi.self = false := by
    rw [← Bool.not_eq_true, h.stays_self hk]
    exact hnot
  obtain ⟨⟨fresh, hrun, -, hold⟩, hdown⟩ := h.update_lists cfg now hup
  rw [hrun, hdown]
  constructor
  · intro hmem
    rcases List.mem_append.mp hmem with hmem | hmem
    · simp [hgone] at hmem
    · exact hold _ hmem k hi hk rfl
  · simp [hgone]

/-- An update leaves the containers as `ExactUpdate` says, in every state that a run reaches. -/
theorem update_exact [RateArith R] {lb : LB} (h : (system cfg).Reachable lb) (rsp : GetRouteRsp)
    (hne : rsp.hosts ≠ []) :
    ∃ lb', lb.update cfg now rsp = .ok lb' ∧ ExactUpdate cfg now lb rsp.hosts lb' := by
  obtain ⟨lb', hup, hspec⟩ := update_spec cfg now lb hne
  have hrep := repInv_of_reachable h
  have hrep' := RepInv.update cfg now hrep hup
  obtain ⟨hrun, hdown⟩ := hrep.update_lists cfg now hup
  have hkept : ∀ k hi, lb.hostMap.lookup k = some hi → k ∈ lb'.hostMap →
      lb'.hostMap.lookup k = some hi :=
    fun k hi hk hin => hspec.kept k hi hk ((hspec.keys k).mp hin)
  have hsame : (∀ k, k ∈ lb'.hostMap ↔ k ∈ lb.hostMap) ↔ ¬lb.Changes rsp := by
    rw [Changes, not_not]
    exact forall_congr' fun k => by rw [hspec.keys]; exact comm
  refine ⟨lb', hup, ⟨?_, ?_, hkept, ?_, hrun, hdown, ?_, ?_, ?_⟩⟩
  · intro ip port
    rw [hspec.keys, List.mem_map]
    constructor
    · rintro ⟨a, ha, hkey⟩
      obtain rfl : a = ⟨ip, port⟩ := HostAddr.key_inj hkey
      exact ha
    · exact fun ha => ⟨_, ha, rfl⟩
  · exact fun k hk => List.mem_map.mp ((hspec.keys k).mp hk)
  · intro k hi hk hnot
    exact hrep.update_removed cfg now hup hk (mt (hspec.keys k).mpr hnot)
  · exact List.nodup_append'.mpr ⟨hrep'.running_nodup, hrep'.down_nodup, hrep'.disjoint⟩
  · exact fun hall => hspec.version_of_not_changes (hsame.mp hall)
  · exact fun hall => hspec.version_of_changes (not_not.mp (mt hsame.mpr hall))

/-- A route of the hosts 1 and 2 becomes one of the hosts 2 and 3, of which 3 is listed twice. -/
theorem update_exact_second : ∃ lb lb',
    (LB.new 0 1 2).update LbConfigure.default 100 ⟨1, 2, [⟨1, 80⟩, ⟨2, 80⟩]⟩ = .ok lb ∧
      lb.update LbConfigure.default 115 ⟨1, 2, [⟨3, 80⟩, ⟨2, 80⟩, ⟨3, 80⟩]⟩ = .ok lb' ∧
        ExactUpdate LbConfigure.default 115 lb [⟨3, 80⟩, ⟨2, 80⟩, ⟨3, 80⟩] lb' := by
  have hfirst : (⟨1, 2, [⟨1, 80⟩, ⟨2, 80⟩]⟩ : GetRouteRsp).hosts ≠ [] := by decide
  obtain ⟨lb, hup, -⟩ := update_spec LbConfigure.default 100 (LB.new 0 1 2) hfirst
  have hlb : (system LbConfigure.default).Reachable lb :=
    .step (e := (100, .update _)) (.init ⟨0, 1, 2, rfl⟩)
      ⟨by simp, ⟨none, none⟩, by simp only [exec]; rw [hup]; rfl⟩
  obtain ⟨lb', hup', hexact⟩ := update_exact LbConfigure.default 115 hlb
    ⟨1, 2, [⟨3, 80⟩, ⟨2, 80⟩, ⟨3, 80⟩]⟩ (by decide)
  exact ⟨lb, lb', hup, hup', hexact⟩

end Elb.LB
