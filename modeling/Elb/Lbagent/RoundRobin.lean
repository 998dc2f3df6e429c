import Elb.Lbagent.Scheduling

/-!
# Round robin

Reference: `lbagent/src/RouteLb.cc`, `LB::getHost`.

Hosts leave the lists and join them between any two calls of `getHost`, but whoever stays keeps its
place in front of those that had their turn. So no host waits while another one has two turns.
-/

namespace Elb.LB

open Transition

variable {R : Type} [RateArith R] {cfg : LbConfigure R}

/-- The host that a call returns from the front of the list, if it returns that one. -/
def picked (cfg : LbConfigure R) (side : Side) (lb : LB) : Option HostAddr :=
  (lb.hosts side).head?.filter fun a => lb.answer cfg = some (Retcode.success, some a)

/-- The hosts that a run returns from the front of the list. -/
def picks (cfg : LbConfigure R) (side : Side) (s : LB) (tr : List ((ℤ × Op) × LB)) :
    List HostAddr :=
  (calls s tr).filterMap (picked cfg side)

/-- The host is in the list as long as the run lasts, in every state and within every call. -/
def Stays (cfg : LbConfigure R) (side : Side) (a : HostAddr) (s : LB)
    (tr : List ((ℤ × Op) × LB)) : Prop :=
  System.Along (fun lb e => a ∈ lb.hosts side ∧ ¬TakesOut cfg lb e.2 side a) s tr ∧
    a ∈ (System.last s tr).hosts side

omit [RateArith R] in
/-- `picked` is the host that the call serves from this side. -/
theorem picked_eq_some {side : Side} {lb : LB} {a : HostAddr} :
    picked cfg side lb = some a ↔ lb.Picks cfg side a := by
  rw [picked, Option.filter_eq_some_iff, decide_eq_true_eq]
  rfl

/-- As long as a host stays and has no turn, whoever waits behind it does so. -/
theorem ahead_last {s : LB} {tr : List ((ℤ × Op) × LB)} (hs : (system cfg).Reachable s)
    (hrun : (system cfg).Run s tr) {side : Side} {g h : HostAddr}
    (hahead : Queue.Ahead h g (s.hosts side)) (hstay : Stays cfg side h s tr)
    (hnot : ∀ c ∈ calls s tr, ¬c.Picks cfg side h) :
    Queue.Ahead h g ((System.last s tr).hosts side) := by
  induction hrun with
  | nil => exact hahead
  | @cons s s' e tr hstep htr ih =>
    have hinv := repInv_of_reachable hs
    obtain ⟨⟨⟨hmem, hin⟩, halong⟩, hlast⟩ := hstay
    by_cases he : e.2 = .getHost
    · rw [calls_cons, if_pos he] at hnot
      refine ih (hs.step hstep) ?_ ⟨halong, hlast⟩ fun c hc => hnot c (List.mem_cons_of_mem _ hc)
      rcases hinv.hosts_of_call hstep he side with ⟨heq, -⟩ | ⟨a, rest, heq, heq', hpick⟩
      · rwa [heq]
      · rw [heq] at hahead
        rw [heq']
        refine (hahead.serve fun hah => ?_).2
        exact hnot s List.mem_cons_self (hah ▸ hpick)
    · rw [calls_cons, if_neg he] at hnot
      refine ih (hs.step hstep) ?_ ⟨halong, hlast⟩ hnot
      -- the host is in the list afterwards too
      have hmem' : h ∈ s'.hosts side := by
        cases tr with
        | nil => exact hlast
        | cons x tr => exact halong.1.1
      exact hahead.flows ((hinv.flows_of_step hstep he).2 side) hin hmem'

/-- As long as the list has the same hosts, they are picked in the order of the list: `done` have
had their turn when the run starts. -/
theorem picks_append {s : LB} {tr : List ((ℤ × Op) × LB)} (hs : (system cfg).Reachable s)
    (hrun : (system cfg).Run s tr) {side : Side} (rest done : List HostAddr)
    (hhosts : s.hosts side = rest ++ done)
    (hsame : ∀ x ∈ tr, ∀ a, a ∈ x.2.hosts side ↔ a ∈ s.hosts side)
    (hout : System.Along (fun lb e => ∀ a, ¬TakesOut cfg lb e.2 side a) s tr)
    (hlen : (picks cfg side s tr).length ≤ rest.length) :
    ∃ rest', rest = picks cfg side s tr ++ rest' := by
  induction hrun generalizing rest done with
  | nil => exact ⟨rest, rfl⟩
  | @cons s s' e tr hstep htr ih =>
    have hinv := repInv_of_reachable hs
    have hsame' : ∀ x ∈ tr, ∀ a, a ∈ x.2.hosts side ↔ a ∈ s'.hosts side := by
      intro x hx a
      rw [hsame x (List.mem_cons_of_mem _ hx), hsame (e, s') List.mem_cons_self]
    by_cases he : e.2 = .getHost
    · have hpicks : picks cfg side s ((e, s') :: tr) =
          (picked cfg side s).toList ++ picks cfg side s' tr := by
        rw [picks, calls_cons, if_pos he, List.filterMap_cons]
        cases picked cfg side s <;> rfl
      rw [hpicks] at hlen ⊢
      rcases hinv.hosts_of_call hstep he side with ⟨heq, hno⟩ | ⟨a, r, heq, heq', hpick⟩
      · have hnone : picked cfg side s = none :=
          Option.eq_none_iff_forall_ne_some.mpr fun a ha => hno a (picked_eq_some.mp ha)
        rw [hnone] at hlen ⊢
        exact ih (hs.step hstep) rest done (heq.trans hhosts) hsame' hout.2 hlen
      · -- the head has its turn and goes behind those that had theirs
        rw [picked_eq_some.mpr hpick] at hlen ⊢
        simp only [Option.toList_some, List.cons_append, List.nil_append, List.length_cons]
          at hlen ⊢
        obtain ⟨b, rest₁, rfl⟩ := List.exists_cons_of_length_pos (l := rest) (by omega)
        rw [hhosts, List.cons_append] at heq
        obtain ⟨rfl, rfl⟩ := List.cons.inj heq
        obtain ⟨rest', hrest'⟩ := ih (hs.step hstep) rest₁ (done ++ [b])
          (by rw [heq', List.append_assoc]) hsame' hout.2 (by simpa using hlen)
        exact ⟨rest', by rw [hrest']⟩
    · have hpicks : picks cfg side s ((e, s') :: tr) = picks cfg side s' tr := by
        rw [picks, calls_cons, if_neg he, picks]
      rw [hpicks] at hlen ⊢
      have heq := ((hinv.flows_of_step hstep he).2 side).eq_of_mem_iff hout.1
        (hsame (e, s') List.mem_cons_self)
      exact ih (hs.step hstep) rest done (heq.trans hhosts) hsame' hout.2 hlen

/-- After its turn a host is behind every host that is in the list then. -/
theorem ahead_of_turn {s s₁ : LB} {e : ℤ × Op} (hs : (system cfg).Reachable s)
    (hstep : (system cfg).step s e s₁) (he : e.2 = .getHost) {side : Side} {g h : HostAddr}
    (hpick : s.Picks cfg side g) (hne : h ≠ g) (hmem : h ∈ s₁.hosts side) :
    Queue.Ahead h g (s₁.hosts side) := by
  have hinv := repInv_of_reachable hs
  rcases hinv.hosts_of_call hstep he side with ⟨-, hno⟩ | ⟨a, rest, heq, heq', hpick'⟩
  · exact absurd hpick (hno g)
  · obtain ⟨-, rfl⟩ := hinv.picks_side hpick hpick'
    have hnd := hinv.hosts_nodup side
    rw [heq] at hnd
    rw [heq'] at hmem ⊢
    exact Queue.ahead_served hnd hmem hne

/-- Between two turns of one host, every host that stays in the list has a turn. -/
theorem exists_turn_between {s s₁ : LB} {e : ℤ × Op} {tr : List ((ℤ × Op) × LB)}
    (hs : (system cfg).Reachable s) (hstep : (system cfg).step s e s₁)
    (hrun : (system cfg).Run s₁ tr) (he : e.2 = .getHost) {side : Side} {g h : HostAddr}
    (hfirst : s.Picks cfg side g) (hsecond : (System.last s₁ tr).Picks cfg side g) (hne : h ≠ g)
    (hstay : Stays cfg side h s₁ tr) : ∃ c ∈ calls s₁ tr, c.Picks cfg side h := by
  by_contra hnone
  push Not at hnone
  have hmem : h ∈ s₁.hosts side := by
    cases tr with
    | nil => exact hstay.2
    | cons x tr => exact hstay.1.1.1
  have hahead := ahead_of_turn hs hstep he hfirst hne hmem
  exact (ahead_last (hs.step hstep) hrun hahead hstay hnone).head_ne hne hsecond.1

/-- While the hosts of the list are the same, as many turns as there are hosts are one turn of each.
-/
theorem picks_eq_hosts {s : LB} {tr : List ((ℤ × Op) × LB)} (hs : (system cfg).Reachable s)
    (hrun : (system cfg).Run s tr) {side : Side}
    (hsame : ∀ x ∈ tr, ∀ a, a ∈ x.2.hosts side ↔ a ∈ s.hosts side)
    (hout : System.Along (fun lb e => ∀ a, ¬TakesOut cfg lb e.2 side a) s tr)
    (hlen : (picks cfg side s tr).length = (s.queue side).length) :
    picks cfg side s tr = s.hosts side := by
  have hlength : (s.hosts side).length = (s.queue side).length := by
    rw [hosts, List.filterMap_length_eq_length]
    intro p hp
    obtain ⟨a, ha⟩ := (repInv_of_reachable hs).addrOf_mem side hp
    rw [ha, Option.isSome_some]
  obtain ⟨rest', hrest⟩ := picks_append hs hrun (s.hosts side) []
    (List.append_nil _).symm hsame hout (by omega)
  have hnil : rest' = [] := by
    have := congrArg List.length hrest
    rw [List.length_append] at this
    exact List.length_eq_zero_iff.mp (by omega)
  rw [hrest, hnil, List.append_nil]

/-- Between two turns of one host, every host that stays in the list has a turn. While the hosts of
the list are the same, as many turns as there are hosts are one turn of each. -/
theorem round_robin {s : LB} (hs : (system cfg).Reachable s) {tr : List ((ℤ × Op) × LB)}
    (hrun : (system cfg).Run s tr) (side : Side) :
    (∀ g h e s₁ tr₁, tr = (e, s₁) :: tr₁ → e.2 = .getHost → s.Picks cfg side g →
        (System.last s₁ tr₁).Picks cfg side g → h ≠ g → Stays cfg side h s₁ tr₁ →
        ∃ c ∈ calls s₁ tr₁, c.Picks cfg side h) ∧
      ((∀ x ∈ tr, ∀ a, a ∈ x.2.hosts side ↔ a ∈ s.hosts side) →
        System.Along (fun lb e => ∀ a, ¬TakesOut cfg lb e.2 side a) s tr →
        (picks cfg side s tr).length = (s.queue side).length →
        (picks cfg side s tr).Nodup ∧ ∀ a, a ∈ picks cfg side s tr ↔ a ∈ s.hosts side) := by
  refine ⟨?_, ?_⟩
  · rintro g h e s₁ tr₁ rfl he hfirst hsecond hne hstay
    cases hrun with
    | cons hstep htr => exact exists_turn_between hs hstep htr he hfirst hsecond hne hstay
  · intro hsame hout hlen
    rw [picks_eq_hosts hs hrun hsame hout hlen]
    exact ⟨(repInv_of_reachable hs).hosts_nodup side, fun a => Iff.rfl⟩

/-- A host leaves between the two turns of the first one, and the second one has a turn. -/
theorem round_robin_between :
    let cfg := LbConfigure.default
    let s := [(100, Op.update ⟨1, 2, [⟨1, 80⟩, ⟨2, 80⟩, ⟨3, 80⟩]⟩)].foldl (next cfg) (LB.new 0 1 2)
    let tr := System.trace (next cfg) s
      [(101, .getHost), (102, .reportSomeErr 3 80 10), (103, .getHost), (104, .report 1 80 0)]
    ∃ c ∈ (calls s tr).tail, c.Picks cfg .running ⟨2, 80⟩ := by
  intro cfg s tr
  have hs : (system cfg).Reachable s :=
    System.Reachable.foldl (step_next cfg) (.init ⟨0, 1, 2, rfl⟩) (by decide)
  have hrun : (system cfg).Run s tr := System.Run.trace (step_next cfg) (by decide)
  have hwait : ∀ lb op a, ¬TakesOut cfg lb op .running a := fun lb op a h =>
    absurd h.2.1 (by decide)
  refine (round_robin hs hrun .running).1 ⟨1, 80⟩ ⟨2, 80⟩ _ _ _ rfl rfl (by decide) (by decide)
    (by decide) ⟨⟨⟨by decide, hwait _ _ _⟩, ⟨by decide, hwait _ _ _⟩, ⟨by decide, hwait _ _ _⟩,
      trivial⟩, by decide⟩

end Elb.LB
