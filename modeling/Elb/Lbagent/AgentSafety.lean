import Elb.Lbagent.RouteLbInvariant

/-!
# Safety of a shard

The containers of every module agree in every run, so the agent never takes `front()` of an empty
list, never follows a dangling pointer, and its answers and reports are about the current route.

The assertions of `RouteLB` are another matter. They state that a module without hosts is being
pulled. Reference: `whenConnected` in `lbagent/src/DssClient.cc`, which calls
`RouteLB::clearPulling` on every connection to dnsserver and marks such modules as new as well.
-/

namespace Elb.RouteLB

open Transition

variable {R : Type} [RateArith R] {cfg : LbConfigure R} {now : ℤ}

/-! ## Containers -/

/-- In every state that a run reaches, the three containers of each module agree; no call leaves
defined behaviour; a `GetHostReq` is answered from the route; a report names the hosts of its
module. -/
theorem containers_agree {s : RouteLB} (hs : (system cfg).Reachable s) :
    (∀ key lb, s.routeMap.lookup key = some lb → lb.RepInv) ∧
      (∀ now op, s.exec cfg now op ≠ .error .emptyFront ∧ s.exec cfg now op ≠ .error .dangling) ∧
      (∀ now req s' rsp pulls repts,
        s.exec cfg now (.getHost req) = .ok (s', ⟨some (.getHost rsp), pulls, repts⟩) →
          s.Answers req rsp) ∧
      ∀ now op s' out, s.exec cfg now op = .ok (s', out) →
        ∀ rept ∈ out.repts, ∃ key lb, s'.routeMap.lookup key = some lb ∧ lb.Names rept := by
  have hinv := inv_of_reachable hs
  refine ⟨fun key lb hk => LB.repInv_of_reachable (hinv.lb_reachable key lb hk), ?_, ?_, ?_⟩
  · intro now op
    rcases exec_result hinv now op with ⟨a, heq, -⟩ | ⟨s', out, heq, -⟩
    · simp [heq]
    · simp [heq]
  · intro now req s' rsp pulls repts hex
    exact (hinv.result hex).answers req rsp rfl rfl
  · intro now op s' out hex
    exact (hinv.result hex).names

/-- A module is asked for, its route arrives, and the three containers hold its one host. -/
theorem containers_agree_one_host : ∃ s lb, (system LbConfigure.default).Reachable s ∧
    s.routeMap.lookup (packKey 1 2) = some lb ∧ lb.runningList = [0] ∧ lb.RepInv :=
  have h : (system LbConfigure.default).Reachable _ :=
    .step (e := (7, .update ⟨1, 2, [⟨10, 80⟩, ⟨10, 80⟩]⟩))
      (.step (e := (5, .getHost ⟨0, 1, 2⟩)) (.init ⟨1, rfl⟩) ⟨_, rfl⟩) ⟨_, rfl⟩
  ⟨_, _, h, rfl, rfl, (containers_agree h).1 (packKey 1 2) _ rfl⟩

/-! ## Assertions -/

/-- API sends the cost of a call only when the call failed. -/
def Op.Admissible : Op → Prop
  | .report req => req.tcost.isSome → req.retcode ≠ 0
  | _ => True

/-- Runs in which API keeps to that. -/
def apiSystem (cfg : LbConfigure R) : System RouteLB (ℤ × Op) :=
  (system cfg).restrict fun _ e => e.2.Admissible

/-- A module without hosts is being pulled. -/
def Pulling (s : RouteLB) : Prop :=
  ∀ key lb, s.routeMap.lookup key = some lb → lb.empty = true → lb.status = .isPulling

/-- Whatever is called next, no assertion fires; a module without hosts is being pulled. -/
structure AssertionSafe (cfg : LbConfigure R) (s : RouteLB) : Prop where
  no_assertion : ∀ now op a, op.Admissible → s.exec cfg now op ≠ .error (.assertion a)
  pulling : s.Pulling

/-- No module is without hosts when the connection to dnsserver comes up. -/
def ClearsNoEmpty (s : RouteLB) (e : ℤ × Op) : Prop :=
  e.2 = .clearPulling → ∀ key lb, s.routeMap.lookup key = some lb → lb.empty = false

/-- That modules without hosts are being pulled is all that the assertions need. -/
theorem Inv.assertionSafe_iff {s : RouteLB} (h : s.Inv cfg) : AssertionSafe cfg s ↔ s.Pulling := by
  refine ⟨fun hsafe => hsafe.pulling, fun hp => ⟨fun now op a hadm hex => ?_, hp⟩⟩
  rcases exec_result h now op with ⟨a', -, hstuck⟩ | ⟨s', out, heq, -⟩
  · cases op <;> cases a' <;> try exact hstuck.elim
    · -- `getHost` and `cacheGetRoute` assert that an empty module is being pulled, `report` that a
      -- cost comes with a failure
      obtain ⟨lb, hk, hemp, hst⟩ := hstuck
      exact hst (hp _ lb hk hemp)
    · exact hadm hstuck.1 hstuck.2
    · obtain ⟨lb, hk, hemp, hst⟩ := hstuck
      exact hst (hp _ lb hk hemp)
  · rw [hex] at heq
    cases heq

/-- Every call but `clearPulling` leaves the modules without hosts pulling. -/
theorem Pulling.effect {s s' : RouteLB} {op : Op} (hp : s.Pulling) (h : s.Inv cfg)
    (he : Effect cfg now s op s') (hne : op ≠ .clearPulling) : s'.Pulling := by
  intro k lb₁ hk₁ hemp
  cases he with
  | same => exact hp k lb₁ hk₁ hemp
  | @serve _ key lb lb' hk hserve =>
    rw [put_lookup] at hk₁
    split at hk₁
    · obtain rfl := Option.some.inj hk₁
      have hroute := hserve.sameRoute (h.lb_reachable key lb hk)
      -- serving a request leaves the status, or starts a pull
      rcases hroute.status with heq | heq
      · rw [heq]
        exact hp key lb hk (hroute.empty_eq ▸ hemp)
      · exact heq
    · exact hp k lb₁ hk₁ hemp
  | create hk =>
    rw [create_lookup] at hk₁
    split at hk₁
    · exact Option.some.inj hk₁ ▸ rfl
    · exact hp k lb₁ hk₁ hemp
  | update hk hrsp hup =>
    rw [put_lookup] at hk₁
    split at hk₁
    · obtain rfl := Option.some.inj hk₁
      -- a route with hosts fills its module
      rw [(LB.updateSpec_of_ok _ _ hup).2.empty_eq hrsp] at hemp
      cases hemp
    · exact hp k lb₁ hk₁ hemp
  | delete hnil => exact hp k lb₁ (HashMap.lookup_of_erase hk₁).2 hemp
  | clearPulling => exact absurd rfl hne

/-- After `clearPulling` no module is being pulled, so there must not be an empty one. -/
theorem clearPulling_pulling_iff {s : RouteLB} :
    s.clearPulling.Pulling ↔ ∀ key lb, s.routeMap.lookup key = some lb → lb.empty = false := by
  have hempty : ∀ lb : LB, lb.clearPulling.empty = lb.empty := by
    intro lb
    rw [LB.clearPulling]
    split <;> rfl
  -- no module is left pulling, hence an empty one would break the rule
  have hstatus : ∀ lb : LB, lb.clearPulling.status ≠ .isPulling := by
    intro lb
    rw [LB.clearPulling]
    split
    · simp
    · assumption
  constructor
  · intro hp key lb hk
    rw [← Bool.not_eq_true, ← hempty]
    intro hemp
    refine hstatus lb (hp key lb.clearPulling ?_ hemp)
    rw [clearPulling, HashMap.lookup_mapVal, hk]
    rfl
  · intro hall key lb hk hemp
    rw [clearPulling, HashMap.lookup_mapVal, Option.map_eq_some_iff] at hk
    obtain ⟨lb₀, hk, rfl⟩ := hk
    rw [hempty, hall key lb₀ hk] at hemp
    cases hemp

/-- One call keeps the modules without hosts pulling exactly when it is not a `clearPulling` that
finds one. -/
theorem Pulling.step_iff {s s' : RouteLB} {op : Op} {out : Out} (hp : s.Pulling) (h : s.Inv cfg)
    (hex : s.exec cfg now op = .ok (s', out)) : s'.Pulling ↔ ClearsNoEmpty s (now, op) := by
  by_cases hop : op = .clearPulling
  · subst hop
    obtain ⟨rfl, -⟩ := Prod.mk.inj (Except.ok.inj hex)
    rw [clearPulling_pulling_iff, ClearsNoEmpty]
    exact ⟨fun hall _ => hall, fun hall => hall rfl⟩
  · exact iff_of_true (hp.effect h (h.result hex).effect hop) fun heq => absurd heq hop

/-- The assertions are safe in all states of a run exactly when no connection to dnsserver comes up
while a module without hosts is in the table. -/
theorem assertionSafe_iff_clearsNoEmpty {id : ℕ} {tr : List ((ℤ × Op) × RouteLB)}
    (h : (apiSystem cfg).Run (new id) tr) :
    (∀ x ∈ tr, AssertionSafe cfg x.2) ↔ System.Along ClearsNoEmpty (new id) tr := by
  -- call by call, along the run
  refine h.forall_iff_along (I := fun s => s.Inv cfg) ?_ ?_ (inv_new id) ?_
  · rintro s ⟨now, op⟩ s' hinv ⟨-, out, hex⟩
    exact hinv.effect (hinv.result hex).effect
  · rintro s ⟨now, op⟩ s' hinv hsafe ⟨-, out, hex⟩
    rw [(hinv.effect (hinv.result hex).effect).assertionSafe_iff]
    exact hsafe.pulling.step_iff hinv hex
  · exact (inv_new id).assertionSafe_iff.mpr (by simp [Pulling, new])

/-- A module is asked for and its route arrives before the connection is made anew. -/
theorem assertionSafe_after_route : ∃ s₁ s₂ s₃,
    (apiSystem LbConfigure.default).Run (new 1)
      [((5, .getHost ⟨0, 1, 2⟩), s₁), ((7, .update ⟨1, 2, [⟨10, 80⟩]⟩), s₂),
        ((9, .clearPulling), s₃)] ∧
    AssertionSafe LbConfigure.default s₃ := by
  have h : (apiSystem LbConfigure.default).Run (new 1)
      [((5, .getHost ⟨0, 1, 2⟩), _), ((7, .update ⟨1, 2, [⟨10, 80⟩]⟩), _),
        ((9, .clearPulling), _)] :=
    .cons ⟨trivial, _, rfl⟩ (.cons ⟨trivial, _, rfl⟩ (.cons ⟨trivial, _, rfl⟩ (.nil _)))
  refine ⟨_, _, _, h, (assertionSafe_iff_clearsNoEmpty h).mpr ?_ _
    (List.mem_cons_of_mem _ (List.mem_cons_of_mem _ List.mem_cons_self))⟩
  refine ⟨by simp [ClearsNoEmpty], by simp [ClearsNoEmpty], fun _ key lb hk => ?_, trivial⟩
  have hmem := List.mem_singleton.mp (HashMap.mem_entries_iff.mpr hk)
  cases hmem
  rfl

/-- A module is asked for before the first connection to dnsserver comes up: the next request for it
aborts the agent. -/
theorem not_assertionSafe : ∃ s, (apiSystem LbConfigure.default).Reachable s ∧
    s.exec LbConfigure.default 6 (.getHost ⟨1, 1, 2⟩) = .error (.assertion .getHostPulling) ∧
    ¬AssertionSafe LbConfigure.default s := by
  have h : (apiSystem LbConfigure.default).Reachable _ :=
    .step (e := (5, .clearPulling)) (.step (e := (5, .getHost ⟨0, 1, 2⟩)) (.init ⟨1, rfl⟩)
      ⟨trivial, _, rfl⟩) ⟨trivial, _, rfl⟩
  exact ⟨_, h, rfl, fun hsafe => hsafe.no_assertion 6 (.getHost ⟨1, 1, 2⟩) .getHostPulling trivial
    rfl⟩

end Elb.RouteLB
