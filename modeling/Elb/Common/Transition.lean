import Mathlib.Data.List.Basic

/-!
# Labelled transition systems

A program that serves requests for ever is a `System`: some states are initial and a labelled step
relation leads from each state to the next. `Reachable` is what any run can reach, `Run` is one run
with its labels and states. The rules below are the only inductions over runs that a development
needs: `Reachable.invariant` for a property that every step keeps, and `Run.forall_iff_along` for a
property that a step keeps exactly when the step meets a condition.
-/

namespace Transition

/-- A labelled transition system: its initial states and its steps. -/
structure System (σ ε : Type*) where
  init : σ → Prop
  step : σ → ε → σ → Prop

namespace System

variable {σ ε : Type*} {T : System σ ε}

/-- The states that runs from an initial state reach. -/
inductive Reachable (T : System σ ε) : σ → Prop
  | init {s : σ} (h : T.init s) : Reachable T s
  | step {s s' : σ} {e : ε} (hs : Reachable T s) (h : T.step s e s') : Reachable T s'

/-- `Run T s tr`: the labels and states of `tr` follow one another from `s`. -/
inductive Run (T : System σ ε) : σ → List (ε × σ) → Prop
  | nil (s : σ) : Run T s []
  | cons {s s' : σ} {e : ε} {tr : List (ε × σ)} (h : T.step s e s') (ht : Run T s' tr) :
      Run T s ((e, s') :: tr)

/-- Every step of the run from `s` along the trace meets `C`, a condition on the state before the
step and on its label. -/
def Along (C : σ → ε → Prop) : σ → List (ε × σ) → Prop
  | _, [] => True
  | s, (e, s') :: tr => C s e ∧ Along C s' tr

instance Along.decidable (C : σ → ε → Prop) [∀ s e, Decidable (C s e)] :
    ∀ s tr, Decidable (Along C s tr)
  | _, [] => inferInstanceAs (Decidable True)
  | s, (e, s') :: tr =>
    have := Along.decidable C s' tr
    inferInstanceAs (Decidable (C s e ∧ Along C s' tr))

/-- The state in which the run from `s` along the trace ends. -/
def last : σ → List (ε × σ) → σ
  | s, [] => s
  | _, (_, s') :: tr => last s' tr

/-- The states in which the run from `s` along the trace takes a step of the kind `p`. -/
def before (p : ε → Bool) : σ → List (ε × σ) → List σ
  | _, [] => []
  | s, (e, s') :: tr => if p e then s :: before p s' tr else before p s' tr

/-- The system that keeps only the steps meeting `C`. -/
def restrict (T : System σ ε) (C : σ → ε → Prop) : System σ ε where
  init := T.init
  step s e s' := C s e ∧ T.step s e s'

/-- A property that holds at the start and that every step from a reachable state keeps holds in
every reachable state. -/
theorem Reachable.invariant {P : σ → Prop} (hinit : ∀ s, T.init s → P s)
    (hstep : ∀ s e s', T.Reachable s → P s → T.step s e s' → P s') {s : σ} (h : T.Reachable s) :
    P s := by
  induction h with
  | init h => exact hinit _ h
  | step hs h ih => exact hstep _ _ _ hs ih h

/-- Restricting the steps reaches no new state. -/
theorem Reachable.of_restrict {C : σ → ε → Prop} {s : σ} (h : (T.restrict C).Reachable s) :
    T.Reachable s :=
  h.invariant (fun _ h => .init h) (fun _ _ _ _ ih h => ih.step h.2)

/-- Every state of a run from a reachable state is reachable. -/
theorem Run.reachable {s : σ} {tr : List (ε × σ)} (h : T.Run s tr) (hs : T.Reachable s) :
    ∀ x ∈ tr, T.Reachable x.2 := by
  induction h with
  | nil => simp
  | cons h _ ih =>
    intro x hx
    rcases List.mem_cons.mp hx with rfl | hx
    · exact hs.step h
    · exact ih (hs.step h) x hx

/-- A run of the restricted system is a run of the system. -/
theorem Run.of_restrict {C : σ → ε → Prop} {s : σ} {tr : List (ε × σ)}
    (h : (T.restrict C).Run s tr) : T.Run s tr := by
  induction h with
  | nil s => exact .nil s
  | cons h _ ih => exact .cons h.2 ih

/-- Every event of the list is allowed where it comes, if each leads to the state that `next` says.
-/
def Legal (ok : σ → ε → Prop) (next : σ → ε → σ) : σ → List ε → Prop
  | _, [] => True
  | s, e :: es => ok s e ∧ Legal ok next (next s e) es

instance Legal.decidable (ok : σ → ε → Prop) (next : σ → ε → σ) [∀ s e, Decidable (ok s e)] :
    ∀ s es, Decidable (Legal ok next s es)
  | _, [] => inferInstanceAs (Decidable True)
  | s, e :: es =>
    have := Legal.decidable ok next (next s e) es
    inferInstanceAs (Decidable (ok s e ∧ Legal ok next (next s e) es))

/-- Allowed events lead to a reachable state. -/
theorem Reachable.foldl {ok : σ → ε → Prop} {next : σ → ε → σ}
    (hstep : ∀ s e, ok s e → T.step s e (next s e)) {s : σ} (hs : T.Reachable s) {es : List ε}
    (h : Legal ok next s es) : T.Reachable (es.foldl next s) := by
  -- on the events, one step each
  induction es generalizing s with
  | nil => exact hs
  | cons e es ih => exact ih (hs.step (hstep s e h.1)) h.2

/-- Events that are possible one after another lead to a reachable state. -/
theorem Reachable.foldlM {next : σ → ε → Option σ}
    (hstep : ∀ s e s', next s e = some s' → T.step s e s') {s : σ} (hs : T.Reachable s)
    {es : List ε} {p : σ → Bool} (h : (es.foldlM next s).any p = true) :
    ∃ s', T.Reachable s' ∧ p s' = true := by
  induction es generalizing s with
  | nil => exact ⟨s, hs, h⟩
  | cons e es ih =>
    rw [List.foldlM_cons] at h
    cases h₁ : next s e with
    | none =>
      rw [h₁] at h
      cases h
    | some s₁ =>
      rw [h₁] at h
      exact ih (hs.step (hstep s e s₁ h₁)) h

/-- The run that a list of events makes, if each leads to the state that `next` says. -/
def trace (next : σ → ε → σ) : σ → List ε → List (ε × σ)
  | _, [] => []
  | s, e :: es => (e, next s e) :: trace next (next s e) es

/-- Allowed events make a run. -/
theorem Run.trace {ok : σ → ε → Prop} {next : σ → ε → σ}
    (hstep : ∀ s e, ok s e → T.step s e (next s e)) {s : σ} {es : List ε}
    (h : Legal ok next s es) : T.Run s (System.trace next s es) := by
  induction es generalizing s with
  | nil => exact .nil s
  | cons e es ih => exact .cons (hstep s e h.1) (ih h.2)

/-- The state in which the run of a list of events ends is one of its states. -/
theorem exists_mem_trace (next : σ → ε → σ) (s : σ) {es : List ε} (h : es ≠ []) :
    ∃ e, (e, es.foldl next s) ∈ System.trace next s es := by
  induction es generalizing s with
  | nil => exact absurd rfl h
  | cons e es ih =>
    rw [System.trace, List.foldl_cons]
    by_cases hnil : es = []
    · subst hnil
      exact ⟨e, List.mem_cons_self⟩
    · obtain ⟨e', hmem⟩ := ih (next s e) hnil
      exact ⟨e', List.mem_cons_of_mem _ hmem⟩

/-- A run taken apart at one of its steps. -/
theorem Run.split {s s' : σ} {e : ε} {before after : List (ε × σ)}
    (h : T.Run s (before ++ (e, s') :: after)) :
    T.Run s before ∧ T.step (last s before) e s' ∧ T.Run s' after := by
  -- on the part before the step
  induction before generalizing s with
  | nil =>
    cases h with
    | cons hstep htr => exact ⟨.nil s, hstep, htr⟩
  | cons x before ih =>
    cases h with
    | cons hstep htr =>
      obtain ⟨hbefore, hlast, hafter⟩ := ih htr
      exact ⟨.cons hstep hbefore, hlast, hafter⟩

/-- A property that every step keeps if it meets `C` holds where a run ends whose steps meet `C`. -/
theorem Run.last_of_along {P : σ → Prop} {C : σ → ε → Prop}
    (hstep : ∀ s e s', P s → C s e → T.step s e s' → P s') {s : σ} {tr : List (ε × σ)}
    (h : T.Run s tr) (hC : Along C s tr) (hs : P s) : P (last s tr) := by
  induction h with
  | nil => exact hs
  | cons h _ ih => exact ih hC.2 (hstep _ _ _ hs hC.1 h)

/-- Progress through stages. If every step keeps the stage or goes on to the next one, the latter
exactly when it is of the kind `p`, then a run goes on by as many stages as it has such steps. -/
theorem Run.last_of_stages {P : ℕ → σ → Prop} {C : ε → Prop} (p : ε → Bool)
    (hstep : ∀ k s e s', P k s → C e → T.step s e s' → P (if p e then k + 1 else k) s')
    {s : σ} {tr : List (ε × σ)} (h : T.Run s tr) (hC : ∀ x ∈ tr, C x.1) {k : ℕ} (hs : P k s) :
    P (k + tr.countP fun x => p x.1) (last s tr) := by
  induction h generalizing k with
  | nil => exact hs
  | @cons s s' e tr h _ ih =>
    obtain ⟨he, htr⟩ := List.forall_mem_cons.mp hC
    -- the first step, then the rest of the run from the stage that it leads to
    have hlast := ih htr (hstep k s e s' hs he h)
    rw [List.countP_cons, last]
    split at hlast
    · next hp =>
      rwa [if_pos hp, Nat.add_comm _ 1, ← Nat.add_assoc]
    · next hp => rwa [if_neg hp]

/-- A condition on the labels alone. -/
theorem along_of_forall {C : ε → Prop} (s : σ) {tr : List (ε × σ)} (h : ∀ x ∈ tr, C x.1) :
    Along (fun _ e => C e) s tr := by
  induction tr generalizing s with
  | nil => trivial
  | cons x tr ih =>
    obtain ⟨hx, htr⟩ := List.forall_mem_cons.mp h
    exact ⟨hx, ih x.2 htr⟩

/-- A run from a reachable state ends in one. -/
theorem Run.reachable_last {s : σ} {tr : List (ε × σ)} (h : T.Run s tr) (hs : T.Reachable s) :
    T.Reachable (last s tr) := by
  induction h with
  | nil => exact hs
  | cons h _ ih => exact ih (hs.step h)

/-- The run law of an exact step law. If, between states with the invariant `I`, a step keeps `P`
exactly when it meets `C`, then `P` holds in every state of a run exactly when every step of the
run meets `C`. -/
theorem Run.forall_iff_along {I P : σ → Prop} {C : σ → ε → Prop}
    (hI : ∀ s e s', I s → T.step s e s' → I s')
    (hP : ∀ s e s', I s → P s → T.step s e s' → (P s' ↔ C s e))
    {s : σ} {tr : List (ε × σ)} (h : T.Run s tr) (hs : I s) (hPs : P s) :
    (∀ x ∈ tr, P x.2) ↔ Along C s tr := by
  induction h with
  | nil => simp [Along]
  | @cons s s' e tr h _ ih =>
    have hstep := hP s e s' hs hPs h
    have hs' := hI s e s' hs h
    simp only [List.forall_mem_cons, Along]
    -- `P` is lost for good at the first step that does not meet `C`
    constructor
    · rintro ⟨hp, hrest⟩
      exact ⟨hstep.mp hp, (ih hs' hp).mp hrest⟩
    · rintro ⟨hc, hrest⟩
      have hp := hstep.mpr hc
      exact ⟨hp, (ih hs' hp).mpr hrest⟩

/-- The run law for what the labels say. If a step from a state with the invariant `I` has a label
with `Q` exactly when it meets `C`, then the labels of a run all have `Q` exactly when every step of
the run meets `C`. -/
theorem Run.forall_label_iff_along {I : σ → Prop} {Q : ε → Prop} {C : σ → ε → Prop}
    (hI : ∀ s e s', I s → T.step s e s' → I s')
    (hQ : ∀ s e s', I s → T.step s e s' → (Q e ↔ C s e))
    {s : σ} {tr : List (ε × σ)} (h : T.Run s tr) (hs : I s) :
    (∀ x ∈ tr, Q x.1) ↔ Along C s tr := by
  induction h with
  | nil => simp [Along]
  | cons h _ ih =>
    rw [List.forall_mem_cons, Along, ih (hI _ _ _ hs h)]
    exact and_congr (hQ _ _ _ hs h) Iff.rfl

/-- The run that another system makes of some of the labels, if it follows the steps with these
labels, and the others make no difference to it. -/
theorem Run.project {τ : Type*} {T' : System τ ε} {Q : σ → τ → Prop} {keep : ε → Bool}
    (hkeep : ∀ s e s' t, Q s t → keep e = true → T.step s e s' → ∃ t', T'.step t e t' ∧ Q s' t')
    (hdrop : ∀ s e s' t, Q s t → keep e = false → T.step s e s' → Q s' t)
    {s : σ} {t : τ} {tr : List (ε × σ)} (h : T.Run s tr) (hs : Q s t) :
    ∃ tr', T'.Run t tr' ∧ tr'.map Prod.fst = (tr.map Prod.fst).filter keep ∧
      Q (last s tr) (last t tr') := by
  induction h generalizing t with
  | nil s => exact ⟨[], .nil t, rfl, hs⟩
  -- a step that is kept is one of both systems, another one of the first only
  | @cons s s' e tr h _ ih =>
    rw [List.map_cons]
    cases hk : keep e with
    | false =>
      obtain ⟨tr', hrun, hmap, hlast⟩ := ih (hdrop s e s' t hs hk h)
      refine ⟨tr', hrun, ?_, hlast⟩
      rw [List.filter_cons_of_neg (by simp [hk]), hmap]
    | true =>
      obtain ⟨t', hstep, hs'⟩ := hkeep s e s' t hs hk h
      obtain ⟨tr', hrun, hmap, hlast⟩ := ih hs'
      refine ⟨(e, t') :: tr', .cons hstep hrun, ?_, hlast⟩
      rw [List.map_cons, List.filter_cons_of_pos hk, hmap]

/-- Another system follows a run step by step, with labels of its own. -/
theorem Run.simulate {τ δ : Type*} {T' : System τ δ} {Q : σ → τ → Prop} {C : ε → Prop}
    {L : ε → δ → Prop}
    (hstep : ∀ s e s' t, Q s t → C e → T.step s e s' → ∃ d t', T'.step t d t' ∧ L e d ∧ Q s' t')
    {s : σ} {t : τ} {tr : List (ε × σ)} (h : T.Run s tr) (hC : ∀ x ∈ tr, C x.1) (hs : Q s t) :
    ∃ tr', T'.Run t tr' ∧ List.Forall₂ (fun x y => L x.1 y.1 ∧ Q x.2 y.2) tr tr' := by
  induction h generalizing t with
  | nil s => exact ⟨[], .nil t, .nil⟩
  | @cons s s' e tr h _ ih =>
    obtain ⟨he, htr⟩ := List.forall_mem_cons.mp hC
    obtain ⟨d, t', hstep', hlabel, hs'⟩ := hstep s e s' t hs he h
    obtain ⟨tr', hrun, hall⟩ := ih htr hs'
    exact ⟨(d, t') :: tr', .cons hstep' hrun, .cons ⟨hlabel, hs'⟩ hall⟩

/-- What holds of the label of every step from a state with the invariant holds of the labels of a
run. -/
theorem Run.forall_label {I : σ → Prop} {Q : ε → Prop} (hI : ∀ s e s', I s → T.step s e s' → I s')
    (hQ : ∀ s e s', I s → T.step s e s' → Q e) {s : σ} {tr : List (ε × σ)} (h : T.Run s tr)
    (hs : I s) : ∀ x ∈ tr, Q x.1 := by
  induction h with
  | nil => simp
  | cons h _ ih => exact List.forall_mem_cons.mpr ⟨hQ _ _ _ hs h, ih (hI _ _ _ hs h)⟩

/-- If every input has a step in every state with the invariant, then every list of inputs has a
run. -/
theorem exists_run {ι : Type*} {I : σ → Prop} {f : ε → ι}
    (hI : ∀ s e s', I s → T.step s e s' → I s')
    (hstep : ∀ s i, I s → ∃ e s', f e = i ∧ T.step s e s') {s : σ} (hs : I s) (is : List ι) :
    ∃ tr, T.Run s tr ∧ (tr.map fun x => f x.1) = is := by
  induction is generalizing s with
  | nil => exact ⟨[], .nil s, rfl⟩
  | cons i is ih =>
    obtain ⟨e, s', rfl, h⟩ := hstep s i hs
    obtain ⟨tr, htr, rfl⟩ := ih (hI s e s' hs h)
    exact ⟨(e, s') :: tr, .cons h htr, rfl⟩

end System

end Transition
