import Elb.Lbagent.RouteLbInvariant
import Elb.Lbagent.UpdateOrder

/-!
# Building a route reply after the lock

Reference: `RouteLB::getRoute` and `RouteLB::cacheGetRoute` in `lbagent/src/RouteLb.cc`.

Both collect pointers to the records of a module under `_mutex` and follow them after they have
released it, while the thread that talks to dnsserver may free the records. `Serving` is a shard
with its replies under construction: a call is one step, and so is every record that a reply loop
reads.
-/

namespace Elb

open Transition

variable {R : Type} [RateArith R] {cfg : LbConfigure R} {now : ℤ}

/-- A reply under construction: the module's `LB`, the records of `vec` that are still to be read,
the hosts that were put into the reply, and the hosts that `vec` stood for under the lock. -/
structure ReplyLoop where
  lb : ℕ
  vec : List HIPtr
  hosts : List HostAddr
  route : List HostAddr

/-- The loop over what `LB::getRoute` collected. -/
def LB.replyLoop (lb : LB) (vec : List HI) : ReplyLoop :=
  ⟨lb.self, vec.map HI.self, [], vec.map HI.addr⟩

namespace RouteLB

/-- Follow a pointer to a record of the `LB` at an address. -/
def deref (s : RouteLB) (lb : ℕ) (p : HIPtr) : Except Fault HI :=
  match s.routeMap.entries.find? fun e => e.2.self = lb with
  | some e => e.2.deref p
  | none => .error .dangling

/-- The loop that a request has before it when it releases the lock. -/
def collect (s : RouteLB) : Op → Option ReplyLoop
  | .getRoute req =>
    (s.routeMap.lookup (packKey req.modid req.cmdid)).map fun lb => lb.replyLoop lb.getRoute
  | .cacheGetRoute req =>
    (s.routeMap.lookup (packKey req.modid req.cmdid)).map fun lb =>
      lb.replyLoop
        (if lb.empty then [] else if lb.version ≠ req.version then lb.getRoute else [])
  | _ => none

end RouteLB

/-- A shard and its replies under construction. -/
structure Serving where
  route : RouteLB
  loops : List ReplyLoop

namespace Serving

/-- A call under the lock, or a reply loop reads its next record. -/
inductive Event
  | call (now : ℤ) (op : RouteLB.Op)
  | read (i : ℕ)

/-- One event. -/
def exec (cfg : LbConfigure R) (s : Serving) : Event → Except Fault Serving
  | .call now op => do
    let (route, _) ← s.route.exec cfg now op
    return ⟨route, s.loops ++ (s.route.collect op).toList⟩
  | .read i =>
    match s.loops[i]? with
    | none => .ok s
    | some loop =>
      match loop.vec with
      | [] => .ok s
      | p :: vec => do
        let hi ← s.route.deref loop.lb p
        return { s with
          loops := s.loops.set i { loop with vec := vec, hosts := loop.hosts ++ [hi.addr] } }

/-- A shard with an empty table. -/
def new (id : ℕ) : Serving := ⟨.new id, []⟩

/-- Runs of a shard in which calls and reply loops take turns in any order. -/
def system (cfg : LbConfigure R) : System Serving Event where
  init s := ∃ id, s = new id
  step s e s' := s.exec cfg e = .ok s'

end Serving

/-- Every record that the loop has still to read is live, and they complete the reply. -/
def ReplyLoop.Owned (s : RouteLB) (loop : ReplyLoop) : Prop :=
  ∃ recs, List.Forall₂ (fun p hi => s.deref loop.lb p = .ok hi) loop.vec recs ∧
    loop.hosts ++ recs.map HI.addr = loop.route

namespace Serving

/-- All replies under construction can be completed. -/
def Owned (s : Serving) : Prop := ∀ loop ∈ s.loops, loop.Owned s.route

/-- A response from dnsserver lists every host of its module that a reply loop has still to read, so
that its record is not freed. -/
def KeepsUnread (s : Serving) : Event → Prop
  | .call _ (.update rsp) =>
    ∀ lb ∈ s.route.routeMap.lookup (packKey rsp.modid rsp.cmdid), ∀ loop ∈ s.loops,
      loop.lb = lb.self → ∀ hi ∈ lb.getRoute, hi.self ∈ loop.vec → hi.addr ∈ rsp.hosts
  | _ => True

instance (s : Serving) : ∀ e, Decidable (s.KeepsUnread e)
  | .call _ (.update rsp) => inferInstanceAs (Decidable
      (∀ lb ∈ s.route.routeMap.lookup (packKey rsp.modid rsp.cmdid), ∀ loop ∈ s.loops,
        loop.lb = lb.self → ∀ hi ∈ lb.getRoute, hi.self ∈ loop.vec → hi.addr ∈ rsp.hosts))
  | .call _ (.getHost _) => inferInstanceAs (Decidable True)
  | .call _ (.report _) => inferInstanceAs (Decidable True)
  | .call _ (.batchReport _) => inferInstanceAs (Decidable True)
  | .call _ (.getRoute _) => inferInstanceAs (Decidable True)
  | .call _ (.cacheGetRoute _) => inferInstanceAs (Decidable True)
  | .call _ .clearPulling => inferInstanceAs (Decidable True)
  | .read _ => inferInstanceAs (Decidable True)

end Serving

/-! ## Addresses -/

namespace RouteLB

/-- Every `LB` has its own address, and none has the next one. -/
structure Addressed (s : RouteLB) : Prop where
  self_lt : ∀ key lb, s.routeMap.lookup key = some lb → lb.self < s.nextLb
  self_inj : ∀ key lb key' lb', s.routeMap.lookup key = some lb →
    s.routeMap.lookup key' = some lb' → lb.self = lb'.self → key = key'

/-- A shard without modules has no pointers. -/
theorem addressed_new (id : ℕ) : (new id).Addressed where
  self_lt := by simp [new]
  self_inj := by simp [new]

/-- Writing a module back at its address. -/
theorem Addressed.put {s : RouteLB} (h : s.Addressed) {key : UInt64} {lb lb' : LB}
    (hk : s.routeMap.lookup key = some lb) (hself : lb'.self = lb.self) :
    (s.put key lb').Addressed := by
  -- a module of the table afterwards has the address of the module that was filed there
  have hold : ∀ k lb₁, (s.put key lb').routeMap.lookup k = some lb₁ →
      ∃ lb₀, s.routeMap.lookup k = some lb₀ ∧ lb₁.self = lb₀.self := by
    intro k lb₁ hk₁
    rw [put_lookup] at hk₁
    split at hk₁
    · next heq => exact ⟨lb, heq ▸ hk, Option.some.inj hk₁ ▸ hself⟩
    · exact ⟨lb₁, hk₁, rfl⟩
  refine ⟨fun k lb₁ hk₁ => ?_, fun k lb₁ k' lb₁' hk₁ hk₁' heq => ?_⟩
  · obtain ⟨lb₀, hk₀, hs⟩ := hold k lb₁ hk₁
    exact hs ▸ h.self_lt k lb₀ hk₀
  · obtain ⟨lb₀, hk₀, hs⟩ := hold k lb₁ hk₁
    obtain ⟨lb₀', hk₀', hs'⟩ := hold k' lb₁' hk₁'
    exact h.self_inj k lb₀ k' lb₀' hk₀ hk₀' (by rw [← hs, heq, hs'])

end RouteLB

namespace LB

/-- The records stay where they are and go on describing the same hosts. -/
structure KeepsRecords (lb lb' : LB) : Prop where
  self_eq : lb'.self = lb.self
  lookup : ∀ k hi, lb.hostMap.lookup k = some hi →
    ∃ hi', lb'.hostMap.lookup k = some hi' ∧ SameHost hi hi'

/-- Nothing is done. -/
theorem KeepsRecords.refl (lb : LB) : KeepsRecords lb lb :=
  ⟨rfl, fun _ hi hk => ⟨hi, hk, rfl, rfl, rfl⟩⟩

/-- Two parts of a call, one after the other. -/
theorem KeepsRecords.trans {lb lb' lb'' : LB} (h : KeepsRecords lb lb')
    (h' : KeepsRecords lb' lb'') : KeepsRecords lb lb'' := by
  refine ⟨h'.self_eq.trans h.self_eq, fun k hi hk => ?_⟩
  obtain ⟨hi', hk', hs⟩ := h.lookup k hi hk
  obtain ⟨hi'', hk'', hs'⟩ := h'.lookup k hi' hk'
  exact ⟨hi'', hk'', hs.trans hs'⟩

/-- Calls that serve requests free no record. -/
theorem Served.keepsRecords {lb lb' : LB} (h : Served cfg now lb lb')
    (hr : (system cfg).Reachable lb) : KeepsRecords lb lb' := by
  induction h with
  | refl => exact .refl lb
  | @step lb₁ lb₂ out h op hop hne hex ih =>
    have hinv := repInv_of_reachable (h.reachable hr)
    refine ih.trans ⟨(hinv.exec_frame hne hex).self_eq, fun k hi hk => ?_⟩
    rcases hinv.exec_cases hne hex with ⟨key, hi₀, -, hk₀, hw⟩ | ⟨rsp, rfl, -⟩ | ⟨hmap, -⟩
    · rw [hw.lookup]
      split
      · next heq =>
        subst heq
        obtain rfl := Option.some.inj (hk₀.symm.trans hk)
        exact ⟨_, rfl, op.sameHost_apply hi₀⟩
      · exact ⟨hi, hk, rfl, rfl, rfl⟩
    · exact hop.elim
    · exact ⟨hi, by rw [hmap, hk], rfl, rfl, rfl⟩

/-- A pointer that is followed leads to the record that lives there. -/
theorem lookup_of_deref {lb : LB} {p : HIPtr} {hi : HI} (h : lb.deref p = .ok hi) :
    ∃ k, lb.hostMap.lookup k = some hi ∧ hi.self = p := by
  rw [deref] at h
  split at h
  · next e he =>
    obtain rfl := Except.ok.inj h
    exact ⟨e.1, HashMap.mem_entries_iff.mp (List.mem_of_find?_eq_some he),
      by simpa using List.find?_some he⟩
  · cases h

omit [RateArith R] in
/-- An update frees exactly the records of the hosts that the response does not list. -/
theorem RepInv.update_deref {lb lb' : LB} (h : lb.RepInv) {rsp : GetRouteRsp}
    (hup : lb.update cfg now rsp = .ok lb') {k : UInt64} {hi : HI}
    (hk : lb.hostMap.lookup k = some hi) :
    (hi.addr ∈ rsp.hosts → lb'.deref hi.self = .ok hi) ∧
      (hi.addr ∉ rsp.hosts → ∀ hi', lb'.deref hi.self ≠ .ok hi') := by
  obtain ⟨-, hspec⟩ := updateSpec_of_ok cfg now hup
  have hinv := RepInv.update cfg now h hup
  have hlisted : k ∈ rsp.hosts.map HostAddr.key ↔ hi.addr ∈ rsp.hosts := by
    obtain rfl := h.key_eq k hi hk
    exact List.mem_map_of_injective fun _ _ => HostAddr.key_inj
  refine ⟨fun hin => ?_, fun hout hi' hderef => ?_⟩
  · exact hinv.deref_self (hspec.kept k hi hk (hlisted.mpr hin))
  · obtain ⟨hrun, hdown⟩ := h.update_removed cfg now hup hk (mt hlisted.mp hout)
    obtain ⟨k', hk', hself⟩ := lookup_of_deref hderef
    rcases (hinv.mem_lists hi.self).mpr ⟨k', hi', hk', hself⟩ with hmem | hmem
    · exact hrun hmem
    · exact hdown hmem

end LB

namespace RouteLB

variable {s s' : RouteLB}

/-- A pointer that is followed leads to a record of the map. -/
theorem exists_of_deref {l : ℕ} {p : HIPtr} {hi : HI} (h : s.deref l p = .ok hi) :
    ∃ key lb, s.routeMap.lookup key = some lb ∧ lb.self = l ∧ lb.deref p = .ok hi := by
  rw [deref] at h
  split at h
  · next e he =>
    refine ⟨e.1, e.2, HashMap.mem_entries_iff.mp (List.mem_of_find?_eq_some he), ?_, h⟩
    simpa using List.find?_some he
  · cases h

/-- The records of a module are found under its address. -/
theorem Addressed.deref_self (h : s.Addressed) {key : UInt64} {lb : LB}
    (hk : s.routeMap.lookup key = some lb) (p : HIPtr) : s.deref lb.self p = lb.deref p := by
  have hmem := HashMap.mem_entries_iff.mpr hk
  rw [deref]
  split
  · next e he =>
    have hself : e.2.self = lb.self := by simpa using List.find?_some he
    have he' := HashMap.mem_entries_iff.mp (List.mem_of_find?_eq_some he)
    have hkey := h.self_inj e.1 e.2 key lb he' hk hself
    rw [hkey, hk] at he'
    rw [Option.some.inj he']
  · next hnone =>
    rw [List.find?_eq_none] at hnone
    exact absurd (by simp) (hnone _ hmem)

/-- A pointer into the object that is put is followed in it. -/
theorem Addressed.deref_put {key : UInt64} {lb : LB} (h : (s.put key lb).Addressed) (p : HIPtr) :
    (s.put key lb).deref lb.self p = lb.deref p :=
  h.deref_self (show (s.put key lb).routeMap.lookup key = some lb by simp) p

/-! ## One call -/

/-- Every call keeps the addresses apart. -/
theorem Addressed.effect {op : Op} (ha : s.Addressed) (h : s.Inv cfg)
    (he : Effect cfg now s op s') : s'.Addressed := by
  cases he with
  | same => exact ha
  | @serve _ key lb lb' hk hserve =>
    exact ha.put hk (hserve.keepsRecords (h.lb_reachable key lb hk)).self_eq
  | @create _ modid cmdid hk =>
    refine ⟨fun k lb hk₁ => ?_, fun k lb k' lb' hk₁ hk₁' heq => ?_⟩
    · change lb.self < s.nextLb + 1
      rw [create_lookup] at hk₁
      split at hk₁
      · obtain rfl := Option.some.inj hk₁
        exact Nat.lt_succ_self _
      · exact Nat.lt_succ_of_lt (ha.self_lt k lb hk₁)
    · rw [create_lookup] at hk₁ hk₁'
      split at hk₁ <;> split at hk₁'
      · next h₁ h₂ => rw [h₁, h₂]
      · -- the new module has an address that no other has
        obtain rfl := Option.some.inj hk₁
        exact absurd heq (ha.self_lt k' lb' hk₁').ne'
      · obtain rfl := Option.some.inj hk₁'
        exact absurd heq (ha.self_lt k lb hk₁).ne
      · exact ha.self_inj k lb k' lb' hk₁ hk₁' heq
  | update hk hne hup => exact ha.put hk (LB.updateSpec_of_ok _ _ hup).2.self_eq
  | @delete rsp hnil =>
    have hold : ∀ k lb, (s.routeMap.erase (packKey rsp.modid rsp.cmdid)).lookup k = some lb →
        s.routeMap.lookup k = some lb := fun _ _ hk => (HashMap.lookup_of_erase hk).2
    exact ⟨fun k lb hk => ha.self_lt k lb (hold k lb hk), fun k lb k' lb' hk hk' =>
      ha.self_inj k lb k' lb' (hold k lb hk) (hold k' lb' hk')⟩
  | clearPulling =>
    have hold : ∀ k lb, s.clearPulling.routeMap.lookup k = some lb →
        ∃ lb₀, s.routeMap.lookup k = some lb₀ ∧ lb.self = lb₀.self := by
      intro k lb hk
      rw [clearPulling, HashMap.lookup_mapVal, Option.map_eq_some_iff] at hk
      obtain ⟨lb₀, hk, rfl⟩ := hk
      refine ⟨lb₀, hk, ?_⟩
      rw [LB.clearPulling]
      split <;> rfl
    refine ⟨fun k lb hk => ?_, fun k lb k' lb' hk hk' heq => ?_⟩
    · obtain ⟨lb₀, hk₀, hs⟩ := hold k lb hk
      exact hs ▸ ha.self_lt k lb₀ hk₀
    · obtain ⟨lb₀, hk₀, hs⟩ := hold k lb hk
      obtain ⟨lb₀', hk₀', hs'⟩ := hold k' lb' hk'
      exact ha.self_inj k lb₀ k' lb₀' hk₀ hk₀' (by rw [← hs, heq, hs'])

/-- A call that is no update frees no record. -/
theorem deref_of_effect {op : Op} (h : s.Inv cfg) (ha : s.Addressed)
    (he : Effect cfg now s op s') (hop : ∀ rsp, op ≠ .update rsp) {l : ℕ} {p : HIPtr} {hi : HI}
    (hd : s.deref l p = .ok hi) : ∃ hi', s'.deref l p = .ok hi' ∧ hi'.addr = hi.addr := by
  have ha' := ha.effect h he
  obtain ⟨key₀, lb₀, hk₀, rfl, hd₀⟩ := exists_of_deref hd
  have hsame : s'.routeMap.lookup key₀ = some lb₀ →
      ∃ hi', s'.deref lb₀.self p = .ok hi' ∧ hi'.addr = hi.addr :=
    fun hk' => ⟨hi, (ha'.deref_self hk' p).trans hd₀, rfl⟩
  cases he with
  | same => exact hsame hk₀
  | @serve _ key lb lb' hk hserve =>
    by_cases heq : key₀ = key
    · subst heq
      obtain rfl := Option.some.inj (hk₀.symm.trans hk)
      have hr := h.lb_reachable key₀ lb₀ hk
      have hkeeps := hserve.keepsRecords hr
      obtain ⟨k, hkk, rfl⟩ := LB.lookup_of_deref hd₀
      obtain ⟨hi', hk', hself, hip, hport⟩ := hkeeps.lookup k hi hkk
      refine ⟨hi', ?_, by rw [HI.addr, HI.addr, hip, hport]⟩
      rw [← hkeeps.self_eq, ha'.deref_put, ← hself]
      exact (LB.repInv_of_reachable (hserve.reachable hr)).deref_self hk'
    · exact hsame (by rw [put_lookup, if_neg heq, hk₀])
  | create hk =>
    refine hsame ?_
    rw [create_lookup, if_neg, hk₀]
    rintro rfl
    cases hk₀.symm.trans hk
  | update => exact absurd rfl (hop _)
  | delete => exact absurd rfl (hop _)
  | clearPulling =>
    have hk' : s.clearPulling.routeMap.lookup key₀ = some lb₀.clearPulling := by
      rw [clearPulling, HashMap.lookup_mapVal, hk₀]
      rfl
    have hself : lb₀.clearPulling.self = lb₀.self ∧
        lb₀.clearPulling.deref p = lb₀.deref p := by
      rw [LB.clearPulling]
      split
      · exact ⟨rfl, rfl⟩
      · exact ⟨rfl, rfl⟩
    exact ⟨hi, by rw [← hself.1, ha'.deref_self hk', hself.2, hd₀], rfl⟩

/-- A response frees exactly the records of its module whose hosts it does not list. -/
theorem deref_of_update {rsp : GetRouteRsp} {out : Out} (h : s.Inv cfg) (ha : s.Addressed)
    (hex : s.exec cfg now (.update rsp) = .ok (s', out)) {l : ℕ} {p : HIPtr} {hi : HI}
    (hd : s.deref l p = .ok hi) :
    (s'.deref l p = .ok hi ∧ ∀ lb, s.routeMap.lookup (packKey rsp.modid rsp.cmdid) = some lb →
        l = lb.self → hi.addr ∈ rsp.hosts) ∨
      ((∀ hi', s'.deref l p ≠ .ok hi') ∧
        ∃ lb, s.routeMap.lookup (packKey rsp.modid rsp.cmdid) = some lb ∧ l = lb.self ∧
          hi ∈ lb.getRoute ∧ hi.self = p ∧ hi.addr ∉ rsp.hosts) := by
  have ha' := ha.effect h (h.result hex).effect
  obtain ⟨key₀, lb₀, hk₀, rfl, hd₀⟩ := exists_of_deref hd
  obtain ⟨k, hkk, hself⟩ := LB.lookup_of_deref hd₀
  by_cases heq : key₀ = packKey rsp.modid rsp.cmdid
  · subst heq
    have hmem : hi ∈ lb₀.getRoute := List.mem_map_of_mem (HashMap.mem_entries_iff.mpr hkk)
    rcases update_cases hk₀ hex with ⟨hnil, rfl⟩ | ⟨lb', hup, rfl⟩
    · refine .inr ⟨fun hi' hd' => ?_, lb₀, hk₀, rfl, hmem, hself, by simp [hnil]⟩
      -- no other module has the address of the one that was deleted
      obtain ⟨key', lb', hk', hself', -⟩ := exists_of_deref hd'
      obtain ⟨hne, hk'⟩ := HashMap.lookup_of_erase hk'
      exact hne (ha.self_inj key' lb' _ lb₀ hk' hk₀ hself')
    · have hlb' := (LB.updateSpec_of_ok _ _ hup).2.self_eq
      have hderef : (s.put (packKey rsp.modid rsp.cmdid) lb').deref lb₀.self p = lb'.deref p := by
        rw [← hlb']
        exact ha'.deref_put p
      have hrep := LB.repInv_of_reachable (h.lb_reachable _ lb₀ hk₀)
      obtain ⟨hkept, hfreed⟩ := hrep.update_deref hup hkk
      rw [hderef, ← hself]
      by_cases hin : hi.addr ∈ rsp.hosts
      · exact .inl ⟨hkept hin, fun _ _ _ => hin⟩
      · exact .inr ⟨hfreed hin, lb₀, hk₀, rfl, hmem, rfl, hin⟩
  · left
    have hother : ∀ lb, s.routeMap.lookup (packKey rsp.modid rsp.cmdid) = some lb →
        lb₀.self = lb.self → hi.addr ∈ rsp.hosts := fun lb hk hs =>
      absurd (ha.self_inj key₀ lb₀ _ lb hk₀ hk hs) heq
    refine ⟨?_, hother⟩
    have hk' : s'.routeMap.lookup key₀ = some lb₀ := by
      cases hk : s.routeMap.lookup (packKey rsp.modid rsp.cmdid) with
      | none =>
        simp only [exec, update, hk] at hex
        rw [← (Prod.mk.inj (Except.ok.inj hex)).1, hk₀]
      | some lb =>
        rcases update_cases hk hex with ⟨-, rfl⟩ | ⟨lb', -, rfl⟩
        · exact (AList.lookup_erase_ne heq).trans hk₀
        · rw [put_lookup, if_neg heq, hk₀]
    rw [ha'.deref_self hk', hd₀]

end RouteLB

/-! ## Replies under construction -/

namespace ReplyLoop

variable {s s' : RouteLB} {loop : ReplyLoop}

/-- Records that stay complete the reply as before. -/
theorem Owned.mono (h : loop.Owned s) (hstay : ∀ p ∈ loop.vec, ∀ hi, s.deref loop.lb p = .ok hi →
    ∃ hi', s'.deref loop.lb p = .ok hi' ∧ hi'.addr = hi.addr) : loop.Owned s' := by
  obtain ⟨recs, hall, hroute⟩ := h
  have hex : ∀ {vec : List HIPtr} {recs : List HI},
      List.Forall₂ (fun p hi => s.deref loop.lb p = .ok hi) vec recs → vec ⊆ loop.vec →
      ∃ recs', List.Forall₂ (fun p hi => s'.deref loop.lb p = .ok hi) vec recs' ∧
        recs'.map HI.addr = recs.map HI.addr := by
    intro vec recs hall
    induction hall with
    | nil => exact fun _ => ⟨[], .nil, rfl⟩
    | @cons p hi vec recs hd hall ih =>
      intro hsub
      obtain ⟨hi', hd', haddr⟩ := hstay p (hsub List.mem_cons_self) hi hd
      obtain ⟨recs', hall', hmap⟩ := ih fun q hq => hsub (List.mem_cons_of_mem _ hq)
      exact ⟨hi' :: recs', .cons hd' hall', by rw [List.map_cons, List.map_cons, haddr, hmap]⟩
  obtain ⟨recs', hall', hmap⟩ := hex hall fun _ h => h
  exact ⟨recs', hall', by rw [hmap, hroute]⟩

/-- A record that is still to be read is live. -/
theorem Owned.deref (h : loop.Owned s) {p : HIPtr} (hp : p ∈ loop.vec) :
    ∃ hi, s.deref loop.lb p = .ok hi := by
  obtain ⟨recs, hall, -⟩ := h
  obtain ⟨hi, -, hd⟩ := hall.exists_right hp
  exact ⟨hi, hd⟩

end ReplyLoop

/-- A request leaves the lock with live records. -/
theorem LB.RepInv.replyLoop_owned {s : RouteLB} {key : UInt64} {lb : LB} (h : lb.RepInv)
    (ha : s.Addressed) (hk : s.routeMap.lookup key = some lb) {vec : List HI}
    (hvec : vec ⊆ lb.getRoute) : (lb.replyLoop vec).Owned s := by
  refine ⟨vec, ?_, List.nil_append _⟩
  rw [LB.replyLoop, List.forall₂_map_left_iff]
  refine List.forall₂_same.mpr fun hi hmem => ?_
  obtain ⟨e, he, rfl⟩ := List.mem_map.mp (hvec hmem)
  exact (ha.deref_self hk _).trans (h.deref_self (HashMap.mem_entries_iff.mp he))

/-- What a request has just collected is there. -/
theorem RouteLB.Inv.collect_owned {s : RouteLB} (h : s.Inv cfg) (ha : s.Addressed) {op : RouteLB.Op}
    {loop : ReplyLoop} (hc : s.collect op = some loop) : loop.Owned s := by
  cases op with
  | getRoute req =>
    obtain ⟨lb, hk, rfl⟩ := Option.map_eq_some_iff.mp hc
    exact (LB.repInv_of_reachable (h.lb_reachable _ lb hk)).replyLoop_owned ha hk fun _ h => h
  | cacheGetRoute req =>
    obtain ⟨lb, hk, rfl⟩ := Option.map_eq_some_iff.mp hc
    refine (LB.repInv_of_reachable (h.lb_reachable _ lb hk)).replyLoop_owned ha hk ?_
    split
    · exact List.nil_subset _
    · split
      · exact fun _ h => h
      · exact List.nil_subset _
  | _ => cases hc

namespace Serving

variable {s s' : Serving}

/-- Between two events the shard has its invariant and its modules have their own addresses. -/
structure Inv (cfg : LbConfigure R) (s : Serving) : Prop where
  route : s.route.Inv cfg
  addressed : s.route.Addressed

/-- A call that went through. -/
theorem exec_call {op : RouteLB.Op} (hex : s.exec cfg (.call now op) = .ok s') :
    ∃ out, s.route.exec cfg now op = .ok (s'.route, out) ∧
      s'.loops = s.loops ++ (s.route.collect op).toList := by
  rw [exec] at hex
  cases hr : s.route.exec cfg now op with
  | error f =>
    rw [hr] at hex
    cases hex
  | ok r =>
    rw [hr] at hex
    obtain rfl := Except.ok.inj hex
    exact ⟨r.2, rfl, rfl⟩

/-- A record that was read. -/
theorem exec_read {i : ℕ} (hex : s.exec cfg (.read i) = .ok s') :
    s' = s ∨ ∃ loop p vec hi, s.loops[i]? = some loop ∧ loop.vec = p :: vec ∧
      s.route.deref loop.lb p = .ok hi ∧ s' = { s with
        loops := s.loops.set i { loop with vec := vec, hosts := loop.hosts ++ [hi.addr] } } := by
  rw [exec] at hex
  split at hex
  · exact .inl (Except.ok.inj hex).symm
  · next loop hloop =>
    split at hex
    · exact .inl (Except.ok.inj hex).symm
    · next p vec hvec =>
      cases hd : s.route.deref loop.lb p with
      | error f =>
        rw [hd] at hex
        cases hex
      | ok hi =>
        rw [hd] at hex
        exact .inr ⟨loop, p, vec, hi, hloop, hvec, hd, (Except.ok.inj hex).symm⟩

/-- A step keeps the invariant. -/
theorem Inv.step {e : Event} (h : s.Inv cfg) (hex : s.exec cfg e = .ok s') : s'.Inv cfg := by
  cases e with
  | call now op =>
    obtain ⟨out, hr, -⟩ := exec_call hex
    have heffect := (h.route.result hr).effect
    exact ⟨h.route.effect heffect, h.addressed.effect h.route heffect⟩
  | read i =>
    rcases exec_read hex with rfl | ⟨loop, p, vec, hi, -, -, -, rfl⟩
    · exact h
    · exact ⟨h.route, h.addressed⟩

/-- A loop that reads a record is owned as before. -/
theorem Owned.read {i : ℕ} (h : s.Owned) (hex : s.exec cfg (.read i) = .ok s') : s'.Owned := by
  rcases exec_read hex with rfl | ⟨loop, p, vec, hi, hloop, hvec, hd, rfl⟩
  · exact h
  · intro loop' hmem
    rcases List.mem_or_eq_of_mem_set hmem with hmem | rfl
    · exact h loop' hmem
    · obtain ⟨recs, hall, hroute⟩ := h loop (List.mem_of_getElem? hloop)
      rw [hvec] at hall
      cases hall with
      | @cons _ hi₀ _ recs hd₀ hall =>
        obtain rfl := Except.ok.inj (hd₀.symm.trans hd)
        exact ⟨recs, hall, by rw [← hroute, List.map_cons, List.append_assoc]; rfl⟩

/-- No reply loop runs into a record that is gone. -/
theorem Owned.exec_ne_error (h : s.Owned) (cfg : LbConfigure R) (i : ℕ) (f : Fault) :
    s.exec cfg (.read i) ≠ .error f := by
  rw [exec]
  split
  · simp
  · next loop hloop =>
    split
    · simp
    · next p vec hvec =>
      obtain ⟨hi, hd⟩ := (h loop (List.mem_of_getElem? hloop)).deref (hvec ▸ List.mem_cons_self)
      rw [hd]
      simp [bind, Except.bind, pure, Except.pure]

/-- A call keeps the replies under construction exactly when it frees no record that one of them has
still to read. -/
theorem Owned.call_iff {op : RouteLB.Op} (h : s.Inv cfg) (ho : s.Owned)
    (hex : s.exec cfg (.call now op) = .ok s') : s'.Owned ↔ s.KeepsUnread (.call now op) := by
  obtain ⟨out, hr, hloops⟩ := exec_call hex
  have heffect := (h.route.result hr).effect
  rw [Owned, hloops]
  -- the replies under construction, and the one that the call begins
  have howned : ∀ loop ∈ s.loops ++ (s.route.collect op).toList, loop.Owned s.route := by
    intro loop hmem
    rcases List.mem_append.mp hmem with hmem | hmem
    · exact ho loop hmem
    · exact h.route.collect_owned h.addressed (Option.mem_toList.mp hmem)
  by_cases hup : ∃ rsp, op = .update rsp
  · obtain ⟨rsp, rfl⟩ := hup
    constructor
    · rintro hall lb hk loop hmem hself hi hhi hread
      obtain ⟨hi', hd'⟩ := (hall loop (List.mem_append_left _ hmem)).deref hread
      -- the record that the loop has still to read is this one
      have hd : s.route.deref loop.lb hi.self = .ok hi := by
        obtain ⟨e, he, rfl⟩ := List.mem_map.mp hhi
        rw [hself, h.addressed.deref_self hk]
        exact (LB.repInv_of_reachable (h.route.lb_reachable _ lb hk)).deref_self
          (HashMap.mem_entries_iff.mp he)
      rcases RouteLB.deref_of_update h.route h.addressed hr hd with ⟨-, hin⟩ | ⟨hgone, -⟩
      · exact hin lb hk hself
      · exact absurd hd' (hgone hi')
    · intro hkeep loop hmem
      refine (howned loop hmem).mono fun p hp hi hd => ?_
      rcases RouteLB.deref_of_update h.route h.addressed hr hd with
        ⟨hd', -⟩ | ⟨-, lb, hk, hself, hhi, rfl, hout⟩
      · exact ⟨hi, hd', rfl⟩
      · have hmem : loop ∈ s.loops :=
          (List.mem_append.mp hmem).resolve_right (by simp [RouteLB.collect])
        exact absurd (hkeep lb hk loop hmem hself hi hhi hp) hout
  · have hop : ∀ rsp, op ≠ .update rsp := fun rsp heq => hup ⟨rsp, heq⟩
    refine iff_of_true (fun loop hmem => ?_) ?_
    · exact (howned loop hmem).mono fun p hp hi hd =>
        RouteLB.deref_of_effect h.route h.addressed heffect hop hd
    · cases op with
      | update rsp => exact absurd rfl (hop rsp)
      | _ => exact trivial

/-! ## Every run -/

/-- In a run of a shard, every record that a reply loop has still to read is live and the replies
are what their requests found, exactly when no response frees a record that a loop has still to
read. -/
theorem owned_iff_keepsUnread {id : ℕ} {tr : List (Event × Serving)}
    (h : (system cfg).Run (new id) tr) :
    (∀ x ∈ tr, Owned x.2) ↔ System.Along KeepsUnread (new id) tr := by
  refine h.forall_iff_along (I := Inv cfg) ?_ ?_ ?_ ?_
  · exact fun s e s' hinv hstep => hinv.step hstep
  · rintro s (⟨now, op⟩ | ⟨i⟩) s' hinv ho hstep
    · exact ho.call_iff hinv hstep
    · exact iff_of_true (ho.read hstep) trivial
  · exact ⟨RouteLB.inv_new id, RouteLB.addressed_new id⟩
  · simp [Owned, new]

/-- A module is asked for and gets its host; a tool asks for the route, and the next response for
the module, with a second host, comes before the loop has read the first. -/
def updateInLoop : List Event :=
  [.call 5 (.getHost ⟨0, 1, 2⟩), .call 6 (.update ⟨1, 2, [⟨10, 80⟩]⟩), .call 7 (.getRoute ⟨1, 2⟩),
    .call 8 (.update ⟨1, 2, [⟨20, 80⟩, ⟨10, 80⟩]⟩), .read 0]

/-- The state after an event; an event that faults leaves none. -/
def next (cfg : LbConfigure R) (s : Serving) (e : Event) : Serving :=
  match s.exec cfg e with
  | .ok s' => s'
  | .error _ => s

/-- The event does not fault. -/
def Allowed (cfg : LbConfigure R) (s : Serving) (e : Event) : Prop :=
  (s.exec cfg e).toOption.isSome

instance (cfg : LbConfigure R) (s : Serving) (e : Event) : Decidable (s.Allowed cfg e) :=
  inferInstanceAs (Decidable (_ = true))

/-- An event that is allowed is a step. -/
theorem step_next (cfg : LbConfigure R) (s : Serving) (e : Event) (h : s.Allowed cfg e) :
    (system cfg).step s e (s.next cfg e) := by
  rw [Allowed] at h
  change s.exec cfg e = .ok (s.next cfg e)
  rw [next]
  cases hex : s.exec cfg e with
  | error f =>
    rw [hex] at h
    cases h
  | ok s' => rfl

/-- The host that the loop has still to read stays in the route. -/
theorem owned_update_in_loop : Owned (updateInLoop.foldl (next LbConfigure.default) (new 1)) := by
  have hrun : (system LbConfigure.default).Run (new 1)
      (System.trace (next LbConfigure.default) (new 1) updateInLoop) :=
    System.Run.trace (step_next LbConfigure.default) (by decide)
  obtain ⟨e, hmem⟩ := System.exists_mem_trace (next LbConfigure.default) (new 1)
    (show updateInLoop ≠ [] by decide)
  exact (owned_iff_keepsUnread hrun).mpr (by decide) _ hmem

/-- A response without hosts deletes the module instead: the loop follows a pointer to a record that
was freed. -/
theorem not_owned : ∃ s, (system LbConfigure.default).Reachable s ∧
    s.exec LbConfigure.default (.read 0) = .error .dangling ∧ ¬s.Owned := by
  have h : (system LbConfigure.default).Reachable
      ([.call 5 (.getHost ⟨0, 1, 2⟩), .call 6 (.update ⟨1, 2, [⟨10, 80⟩]⟩),
        .call 7 (.getRoute ⟨1, 2⟩), .call 8 (.update ⟨1, 2, []⟩)].foldl
          (next LbConfigure.default) (new 1)) :=
    System.Reachable.foldl (step_next LbConfigure.default) (.init ⟨1, rfl⟩) (by decide)
  exact ⟨_, h, rfl, fun ho =>
    ho.exec_ne_error LbConfigure.default 0 .dangling rfl⟩

end Serving

end Elb
