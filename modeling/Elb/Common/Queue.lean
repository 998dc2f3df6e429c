import Mathlib.Data.List.Rotate

/-!
# Queues that are served in turn

A queue is served at the front and the one that was served goes to the end. Between two turns
members may leave and newcomers may join at the end. Whoever stays keeps everybody behind it behind
it until it is served itself: that is the fairness of the round, whatever joins and leaves.
-/

namespace Queue

variable {α : Type*} {out : α → Prop} {h g x : α} {l l' rest : List α}

/-- `h` waits in the queue, and `g`, if it waits too, waits behind it. -/
def Ahead (h g : α) (l : List α) : Prop := ∃ a b, l = a ++ h :: b ∧ g ∉ a

/-- What remains of the queue keeps its order and the others join at the end; of the former members,
only some of those that are `out` do so. -/
def Flows (out : α → Prop) (l l' : List α) : Prop :=
  ∃ keep new, l' = l.filter keep ++ new ∧ ∀ a ∈ new, a ∈ l → out a

/-- Nothing moved. -/
theorem Flows.refl (out : α → Prop) (l : List α) : Flows out l l :=
  ⟨fun _ => true, [], by simp, by simp⟩

/-- Who has just been served is behind all the others. -/
theorem ahead_served (hnd : (g :: rest).Nodup) (hmem : h ∈ rest ++ [g]) (hne : h ≠ g) :
    Ahead h g (rest ++ [g]) := by
  have hrest : h ∈ rest := by simpa [hne] using hmem
  obtain ⟨a, b, rfl⟩ := List.append_of_mem hrest
  refine ⟨a, b ++ [g], by simp, fun hg => ?_⟩
  exact (List.nodup_cons.mp hnd).1 (List.mem_append_left _ hg)

/-- A turn of somebody else changes nothing, and is not the turn of who waits behind. -/
theorem Ahead.serve (hah : Ahead h g (x :: rest)) (hx : x ≠ h) :
    x ≠ g ∧ Ahead h g (rest ++ [x]) := by
  obtain ⟨a, b, heq, hg⟩ := hah
  cases a with
  | nil => exact absurd (List.cons.inj heq).1 hx
  | cons y a =>
    obtain ⟨rfl, rfl⟩ := List.cons.inj heq
    rw [List.mem_cons, not_or] at hg
    exact ⟨fun hxg => hg.1 hxg.symm, a, b ++ [x], by simp, hg.2⟩

/-- Who waits behind is not at the front. -/
theorem Ahead.head_ne (hah : Ahead h g l) (hne : h ≠ g) : l.head? ≠ some g := by
  obtain ⟨a, b, rfl, hg⟩ := hah
  cases a with
  | nil => simpa using hne
  | cons y a => simpa using fun hy : y = g => hg (by simp [hy])

/-- Leaving and joining changes nothing for who stays. -/
theorem Ahead.flows (hah : Ahead h g l) (hf : Flows out l l') (hout : ¬out h) (hmem : h ∈ l') :
    Ahead h g l' := by
  obtain ⟨a, b, rfl, hg⟩ := hah
  obtain ⟨keep, new, rfl, hnew⟩ := hf
  have hkeep : keep h = true := by
    rcases List.mem_append.mp hmem with hmem | hmem
    · exact (List.mem_filter.mp hmem).2
    · exact absurd (hnew h hmem (by simp)) hout
  refine ⟨a.filter keep, b.filter keep ++ new, ?_, fun hga => hg (List.mem_filter.mp hga).1⟩
  rw [List.filter_append, List.filter_cons, if_pos hkeep]
  simp

/-- A queue whose members are the same as before is in the same order, if nobody was out. -/
theorem Flows.eq_of_mem_iff (hf : Flows out l l') (hout : ∀ a, ¬out a)
    (hsame : ∀ a, a ∈ l' ↔ a ∈ l) : l' = l := by
  obtain ⟨keep, new, rfl, hnew⟩ := hf
  have hnil : new = [] := by
    rw [List.eq_nil_iff_forall_not_mem]
    intro a ha
    exact hout a (hnew a ha ((hsame a).mp (List.mem_append_right _ ha)))
  subst hnil
  rw [List.append_nil] at hsame ⊢
  rw [List.filter_eq_self]
  intro a ha
  exact (List.mem_filter.mp ((hsame a).mpr ha)).2

/-! ## A queue that nobody joins or leaves -/

/-- Who is served in so many turns. -/
def turns : ℕ → List α → List α
  | 0, _ => []
  | m + 1, l => l.head?.toList ++ turns m (l.rotate 1)

/-- The later turns are those of the queue as the first ones left it. -/
theorem turns_add (m m' : ℕ) (l : List α) :
    turns (m + m') l = turns m l ++ turns m' (l.rotate m) := by
  induction m generalizing l with
  | zero => rw [Nat.zero_add, turns, List.rotate_zero, List.nil_append]
  | succ m ih =>
    rw [Nat.add_right_comm, turns, turns, ih, List.rotate_rotate, Nat.add_comm 1 m,
      List.append_assoc]

/-- Each turn serves one. -/
theorem length_turns (m : ℕ) {l : List α} (hl : l ≠ []) : (turns m l).length = m := by
  induction m generalizing l with
  | zero => rfl
  | succ m ih =>
    have hrot : l.rotate 1 ≠ [] := fun hnil => hl (List.rotate_eq_nil_iff.mp hnil)
    obtain ⟨x, rest, rfl⟩ := List.exists_cons_of_ne_nil hl
    rw [turns, List.length_append, ih hrot]
    exact Nat.add_comm 1 m

/-- The first ones are served in their order. -/
theorem turns_length (l rest : List α) : turns l.length (l ++ rest) = l := by
  induction l generalizing rest with
  | nil => rfl
  | cons x l ih =>
    rw [List.length_cons, turns, List.cons_append, List.rotate_cons_succ, List.rotate_zero,
      List.append_assoc, ih]
    rfl

/-- As many consecutive turns as there are members serve everybody, in the order of the queue. -/
theorem isRotated_of_turns {m : ℕ} {before window after : List α}
    (h : turns m l = before ++ window ++ after) (hlen : window.length = l.length) :
    window.IsRotated l := by
  by_cases hl : l = []
  · subst hl
    rw [List.length_eq_zero_iff.mp hlen]
  · have hm : m = before.length + (l.length + after.length) := by
      have hall := length_turns m hl
      rw [h, List.length_append, List.length_append, hlen] at hall
      omega
    have hrot := turns_length (l.rotate before.length) []
    rw [List.append_nil, List.length_rotate] at hrot
    rw [hm, turns_add, turns_add, hrot, List.append_assoc] at h
    have hbefore := (List.append_inj h (length_turns _ hl)).2
    have hwindow := (List.append_inj hbefore (by rw [List.length_rotate, hlen])).1
    rw [← hwindow]
    exact List.IsRotated.forall l before.length

end Queue
