import Mathlib.Logic.Function.Iterate
import Mathlib.Order.Basic
import Mathlib.Data.Nat.Find

/-!
# Counting up to a verdict

A procedure that takes one result at a time counts it and looks whether the count meets a test; from
the first time on that it does, it counts for another state. A batch procedure looks once, at the
whole batch. The rule below says when the two agree.
-/

namespace Counting

variable {α : Type*} {f : α → α} {test : ℕ → Prop} {count after : ℕ → α}

/-- `count j` is the state after `j` results if none of them met the test, `after j` the state `j`
results after the one that did. -/
structure Counts (f : α → α) (test : ℕ → Prop) (count after : ℕ → α) : Prop where
  step : ∀ j, ¬test (j + 1) → f (count j) = count (j + 1)
  verdict : ∀ j, test (j + 1) → f (count j) = after 0
  rest : ∀ j, f (after j) = after (j + 1)

/-- A procedure that only counts. -/
theorem iterate_of_step (count : ℕ → α) (h : ∀ j, f (count j) = count (j + 1)) (n : ℕ) :
    f^[n] (count 0) = count n := by
  induction n with
  | zero => rfl
  | succ n ih => rw [Function.iterate_succ_apply', ih, h]

/-- No result met the test. -/
theorem Counts.iterate_of_none (h : Counts f test count after) {n : ℕ}
    (hnone : ∀ j, 0 < j → j ≤ n → ¬test j) : f^[n] (count 0) = count n := by
  induction n with
  | zero => rfl
  | succ n ih =>
    rw [Function.iterate_succ_apply', ih fun j hj hjn => hnone j hj (by omega)]
    exact h.step n (hnone (n + 1) (by omega) le_rfl)

/-- The first result that met the test was the one numbered `j`. -/
theorem Counts.iterate_of_first (h : Counts f test count after) {j n : ℕ} (hj : 0 < j)
    (hjn : j ≤ n) (htest : test j) (hfirst : ∀ i, 0 < i → i < j → ¬test i) :
    f^[n] (count 0) = after (n - j) := by
  obtain ⟨m, rfl⟩ := Nat.exists_eq_add_of_le' hjn
  obtain ⟨i, rfl⟩ := Nat.exists_eq_succ_of_ne_zero (Nat.ne_of_gt hj)
  rw [Function.iterate_add_apply, Function.iterate_succ_apply',
    h.iterate_of_none fun k hk hki => hfirst k hk (by omega), h.verdict i htest,
    iterate_of_step after h.rest, Nat.add_sub_cancel]

/-- A batch agrees with its results taken one at a time exactly when neither is judged, or both are
and the last result is the first to meet the test, with nothing of the batch left over. `none` says
that the batch is not judged, `exact` that nothing is left over. -/
theorem Counts.batch_eq_iff (h : Counts f test count after) {n : ℕ} (hn : 0 < n) (batch : α)
    (judged exact : Prop) (hcount : ¬judged → batch = count n)
    (hafter : judged → (batch = after 0 ↔ exact)) (hne : judged → batch ≠ count n)
    (hrest : ∀ k, k < n → 0 < k → batch ≠ after k) (hapart : ∀ k, count n ≠ after k) :
    batch = f^[n] (count 0) ↔
      (¬judged ∧ ∀ j, 0 < j → j ≤ n → ¬test j) ∨
        (judged ∧ exact ∧ test n ∧ ∀ j, 0 < j → j < n → ¬test j) := by
  classical
  by_cases hany : ∃ j, 0 < j ∧ j ≤ n ∧ test j
  · -- the first of the results that meet the test
    obtain ⟨hj, hjn, htest⟩ := Nat.find_spec hany
    have hfirst : ∀ i, 0 < i → i < Nat.find hany → ¬test i := fun i hi hij ht =>
      Nat.find_min hany hij ⟨hi, by omega, ht⟩
    generalize Nat.find hany = j at hj hjn htest hfirst
    rw [h.iterate_of_first hj hjn htest hfirst]
    by_cases hjudged : judged
    · rcases Nat.lt_or_eq_of_le hjn with hlt | rfl
      · refine iff_of_false (hrest _ (by omega) (by omega)) ?_
        rintro (⟨hnot, -⟩ | ⟨-, -, -, hnone⟩)
        · exact hnot hjudged
        · exact hnone j hj hlt htest
      · rw [Nat.sub_self, hafter hjudged]
        simp only [hjudged, not_true_eq_false, false_and, true_and, false_or, htest]
        exact ⟨fun hexact => ⟨hexact, hfirst⟩, fun hand => hand.1⟩
    · refine iff_of_false (by rw [hcount hjudged]; exact hapart _) ?_
      rintro (⟨-, hnone⟩ | ⟨hyes, -⟩)
      · exact hnone j hj hjn htest
      · exact hjudged hyes
  · have hnone : ∀ j, 0 < j → j ≤ n → ¬test j := fun j hj hjn ht => hany ⟨j, hj, hjn, ht⟩
    rw [h.iterate_of_none hnone]
    by_cases hjudged : judged
    · refine iff_of_false (hne hjudged) ?_
      rintro (⟨hnot, -⟩ | ⟨-, -, htest, -⟩)
      · exact hnot hjudged
      · exact hnone n hn le_rfl htest
    · exact iff_of_true (hcount hjudged) (.inl ⟨hjudged, hnone⟩)

end Counting
