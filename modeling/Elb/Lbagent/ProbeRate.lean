import Elb.Lbagent.Scheduling

/-!
# The probe rate

Reference: `lbagent/src/RouteLb.cc`, `LB::getHost`; `lbagent/README.md`.

`_accessCnt` counts the calls of `getHost` while some host is overloaded, in the branch where all
are as in the branch where some are, and only `getHost` changes it. So one call in `probeNum + 1` is
a probe, wherever the counting starts and whatever happens between the calls.
-/

namespace Elb.LB

open Transition

variable {R : Type} [RateArith R] {cfg : LbConfigure R}

/-- `getHost` answers without a probe: with the front of the running list, or with `OVERLOAD` when
that list is empty. -/
def ServesRunning (cfg : LbConfigure R) (lb : LB) : Prop :=
  (lb.runningList = [] ∧ lb.answer cfg = some (Retcode.overload, none)) ∨
    (lb.runningList ≠ [] ∧ ∃ a, lb.Picks cfg .running a)

/-- `getHost` probes: it answers with the front of the down list. -/
def Probes (cfg : LbConfigure R) (lb : LB) : Prop := ∃ a, lb.Picks cfg .down a

/-- While some host is overloaded, a call probes exactly when the counter is at its limit. -/
theorem RepInv.call_cases {lb lb' : LB} {e : ℤ × Op} (h : lb.RepInv)
    (hs : (system cfg).step lb e lb') (he : e.2 = .getHost) (hdown : lb.downList ≠ []) :
    (cfg.probeNum ≤ lb.accessCnt ∧ lb'.accessCnt = 0 ∧ Probes cfg lb) ∨
      (lb.accessCnt < cfg.probeNum ∧ lb'.accessCnt = lb.accessCnt + 1 ∧ ServesRunning cfg lb ∧
        ¬Probes cfg lb) := by
  obtain ⟨ret, host, hturn, hans⟩ := h.turn_of_step hs he
  cases hturn with
  | refuse hrun hcnt =>
    refine .inr ⟨hcnt, rfl, .inl ⟨hrun, hans⟩, ?_⟩
    rintro ⟨a, -, ha⟩
    rw [hans] at ha
    cases ha
  | probe p rest a hq ha hcnt =>
    have hhead := hosts_cons .down hq ha
    exact .inl ⟨hcnt, rfl, a, by rw [hhead]; rfl, hans⟩
  | serve p rest a hq ha hcnt =>
    have hhead := hosts_cons .running hq ha
    have hpick : lb.Picks cfg .running a := ⟨by rw [hhead]; rfl, hans⟩
    refine .inr ⟨hcnt.resolve_left hdown, if_neg hdown, .inr ⟨by simp [hq], a, hpick⟩, ?_⟩
    rintro ⟨b, hb⟩
    cases (h.picks_side hpick hb).1

/-- A counter below a limit can be counted up. -/
theorem toInt_succ {c n : Int32} (h : c < n) : (c + 1).toInt = c.toInt + 1 := by
  have hlow := c.le_toInt
  have hhigh := n.toInt_lt
  have h1 : (1 : Int32).toInt = 1 := rfl
  rw [Int32.lt_iff_toInt_lt] at h
  rw [Int32.toInt_add, h1]
  exact Int.bmod_eq_of_le (by omega) (by omega)

/-- The access counter is a number from `0` to `probeNum`. -/
theorem accessCnt_range (hprobe : 0 ≤ cfg.probeNum) {lb : LB} (h : (system cfg).Reachable lb) :
    0 ≤ lb.accessCnt ∧ lb.accessCnt ≤ cfg.probeNum := by
  refine h.invariant (P := fun lb => 0 ≤ lb.accessCnt ∧ lb.accessCnt ≤ cfg.probeNum) ?_ ?_
  · rintro _ ⟨self, modid, cmdid, rfl⟩
    exact ⟨Int32.le_refl 0, hprobe⟩
  · rintro lb e lb' hs ⟨hlow, hhigh⟩ hstep
    have hinv := repInv_of_reachable hs
    by_cases he : e.2 = .getHost
    · obtain ⟨ret, host, hturn, -⟩ := hinv.turn_of_step hstep he
      -- below `probeNum` the counter is counted up by one
      have hsucc : lb.accessCnt < cfg.probeNum →
          0 ≤ lb.accessCnt + 1 ∧ lb.accessCnt + 1 ≤ cfg.probeNum := by
        intro hlt
        have hone := toInt_succ hlt
        rw [Int32.le_iff_toInt_le] at hlow ⊢
        rw [Int32.le_iff_toInt_le, hone]
        rw [Int32.lt_iff_toInt_lt] at hlt
        omega
      cases hturn with
      | refuse hrun hcnt => exact hsucc hcnt
      | probe p rest a hq ha hcnt => exact ⟨Int32.le_refl 0, hprobe⟩
      | serve p rest a hq ha hcnt =>
        dsimp only
        split
        · exact ⟨Int32.le_refl 0, hprobe⟩
        · next hdown => exact hsucc (hcnt.resolve_left hdown)
    · rw [(hinv.flows_of_step hstep he).1]
      exact ⟨hlow, hhigh⟩

/-- Calls that do not bring the counter over its limit do not probe. -/
theorem serves_of_few {s : LB} {tr : List ((ℤ × Op) × LB)} (hs : (system cfg).Reachable s)
    (hrun : (system cfg).Run s tr) (hdown : ∀ c ∈ calls s tr, c.downList ≠ [])
    (hfew : s.accessCnt.toInt + (calls s tr).length ≤ cfg.probeNum.toInt) :
    ∀ c ∈ calls s tr, ServesRunning cfg c ∧ ¬Probes cfg c := by
  -- on the run; calls that are not `getHost` do not count
  induction hrun with
  | nil => simp [calls, System.before]
  | @cons s s' e tr hstep htr ih =>
    have hinv := repInv_of_reachable hs
    by_cases he : e.2 = .getHost
    · rw [calls_cons, if_pos he] at hdown hfew ⊢
      rw [List.length_cons] at hfew
      rcases hinv.call_cases hstep he (hdown s List.mem_cons_self) with
        ⟨hcnt, -⟩ | ⟨hcnt, hcnt', hserve⟩
      · rw [Int32.le_iff_toInt_le] at hcnt
        omega
      · intro c hc
        rcases List.mem_cons.mp hc with rfl | hc
        · exact hserve
        · refine ih (hs.step hstep) (fun c hc => hdown c (List.mem_cons_of_mem _ hc)) ?_ c hc
          rw [hcnt', toInt_succ hcnt]
          omega
    · rw [calls_cons, if_neg he] at hdown hfew ⊢
      exact ih (hs.step hstep) hdown ((hinv.flows_of_step hstep he).1 ▸ hfew)

/-- Calls that bring the counter over its limit probe when the counter is there, and only then
unless they bring it there once more. -/
theorem exists_probe {s : LB} {tr : List ((ℤ × Op) × LB)} (hs : (system cfg).Reachable s)
    (hrun : (system cfg).Run s tr) (hdown : ∀ c ∈ calls s tr, c.downList ≠ [])
    (hcnt : s.accessCnt ≤ cfg.probeNum)
    (hmany : cfg.probeNum.toInt < s.accessCnt.toInt + (calls s tr).length) :
    ∃ before probe after, calls s tr = before ++ probe :: after ∧
      s.accessCnt.toInt + before.length = cfg.probeNum.toInt ∧ Probes cfg probe ∧
      (∀ c ∈ before, ServesRunning cfg c ∧ ¬Probes cfg c) ∧
      (after.length ≤ cfg.probeNum.toInt → ∀ c ∈ after, ServesRunning cfg c ∧ ¬Probes cfg c) := by
  -- on the run, up to the call that finds the counter at `probeNum`
  induction hrun with
  | nil =>
    rw [Int32.le_iff_toInt_le] at hcnt
    simp only [calls, System.before, List.length_nil] at hmany
    omega
  | @cons s s' e tr hstep htr ih =>
    have hinv := repInv_of_reachable hs
    by_cases he : e.2 = .getHost
    · rw [calls_cons, if_pos he] at hdown hmany ⊢
      rw [List.length_cons] at hmany
      have hdown' : ∀ c ∈ calls s' tr, c.downList ≠ [] :=
        fun c hc => hdown c (List.mem_cons_of_mem _ hc)
      rcases hinv.call_cases hstep he (hdown s List.mem_cons_self) with
        ⟨hlim, hcnt', hprobe⟩ | ⟨hlt, hcnt', hserve⟩
      · refine ⟨[], s, calls s' tr, rfl, ?_, hprobe, by simp, ?_⟩
        · rw [Int32.le_iff_toInt_le] at hcnt hlim
          simp only [List.length_nil]
          omega
        · -- the counter starts again at zero
          intro hfew
          refine serves_of_few (hs.step hstep) htr hdown' ?_
          rw [hcnt']
          simpa using hfew
      · have hone := toInt_succ hlt
        obtain ⟨before, probe, after, heq, hlen, hprobe, hbefore, hafter⟩ :=
          ih (hs.step hstep) hdown'
          (by rw [hcnt', Int32.le_iff_toInt_le, hone]; rw [Int32.lt_iff_toInt_lt] at hlt; omega)
          (by rw [hcnt', hone]; omega)
        -- before, probe, after :: one call more before the probe
        refine ⟨s :: before, probe, after, by rw [heq]; rfl, ?_, hprobe, ?_, hafter⟩
        · rw [hcnt', hone] at hlen
          rw [List.length_cons]
          omega
        · intro c hc
          rcases List.mem_cons.mp hc with rfl | hc
          · exact hserve
          · exact hbefore c hc
    · have hcnt' := (hinv.flows_of_step hstep he).1
      rw [calls_cons, if_neg he] at hdown hmany ⊢
      rw [← hcnt'] at hcnt hmany ⊢
      exact ih (hs.step hstep) hdown hcnt hmany

/-- In every run the counter stays between `0` and `probeNum`, and of any `probeNum + 1` consecutive
calls during which some host is overloaded exactly one probes. -/
theorem probe_rate (hprobe : 0 ≤ cfg.probeNum) {s : LB} (hs : (system cfg).Reachable s)
    {tr : List ((ℤ × Op) × LB)} (hrun : (system cfg).Run s tr) :
    (∀ lb ∈ s :: tr.map (·.2), 0 ≤ lb.accessCnt ∧ lb.accessCnt ≤ cfg.probeNum) ∧
      ((∀ c ∈ calls s tr, c.downList ≠ []) → (calls s tr).length = cfg.probeNum.toInt + 1 →
        ∃ before probe after, calls s tr = before ++ probe :: after ∧ Probes cfg probe ∧
          ∀ c ∈ before ++ after, ServesRunning cfg c ∧ ¬Probes cfg c) := by
  refine ⟨?_, ?_⟩
  · intro lb hlb
    rcases List.mem_cons.mp hlb with rfl | hlb
    · exact accessCnt_range hprobe hs
    · obtain ⟨x, hx, rfl⟩ := List.mem_map.mp hlb
      exact accessCnt_range hprobe (hrun.reachable hs x hx)
  · intro hdown hlen
    obtain ⟨hlow, hhigh⟩ := accessCnt_range hprobe hs
    rw [Int32.le_iff_toInt_le] at hlow
    have h0 : (0 : Int32).toInt = 0 := rfl
    obtain ⟨before, probe, after, heq, hbefore, hprobes, hserve, hafter⟩ :=
      exists_probe hs hrun hdown hhigh (by omega)
    refine ⟨before, probe, after, heq, hprobes, fun c hc => ?_⟩
    rcases List.mem_append.mp hc with hc | hc
    · exact hserve c hc
    · refine hafter ?_ c hc
      -- there is one probe among `probeNum + 1` calls, hence at most `probeNum` come after it
      rw [heq, List.length_append, List.length_cons] at hlen
      omega

/-- Two hosts, the first of them overloaded, and a probe with every second call. -/
theorem probe_rate_two :
    let cfg : LbConfigure ℚ := { LbConfigure.default with probeNum := 1 }
    let s := [(100, Op.update ⟨1, 2, [⟨1, 80⟩, ⟨2, 80⟩]⟩), (101, .reportSomeErr 1 80 10)].foldl
      (next cfg) (LB.new 0 1 2)
    let tr := System.trace (next cfg) s [(102, .getHost), (103, .report 2 80 0), (104, .getHost)]
    ∃ before probe after, calls s tr = before ++ probe :: after ∧ Probes cfg probe ∧
      ∀ c ∈ before ++ after, ServesRunning cfg c ∧ ¬Probes cfg c := by
  intro cfg s tr
  have hs : (system cfg).Reachable s :=
    System.Reachable.foldl (step_next cfg) (.init ⟨0, 1, 2, rfl⟩) (by decide)
  have hrun : (system cfg).Run s tr := System.Run.trace (step_next cfg) (by decide)
  exact (probe_rate (by decide) hs hrun).2 (by decide) (by decide)

end Elb.LB
