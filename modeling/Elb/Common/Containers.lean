import Mathlib.Algebra.BigOperators.Group.List.Basic
import Mathlib.Algebra.Order.Ring.Nat
import Mathlib.Data.List.AList
import Mathlib.Data.List.Forall2
import Mathlib.Data.List.Induction
import Mathlib.Data.List.Perm.Subperm

/-!
# Hash maps and fallible loops

A hash map whose iteration order no program relies on is an association list without duplicate keys
here, and a loop whose body may fail is `List.mapM` in `Except`.
-/

/-- A finite map from keys to values. -/
abbrev HashMap (α β : Type) : Type := AList (fun _ : α => β)

namespace HashMap

variable {α β : Type} [DecidableEq α]

/-- The entries of a map are its lookups. -/
theorem mem_entries_iff {m : HashMap α β} {k : α} {v : β} :
    (⟨k, v⟩ : Sigma fun _ : α => β) ∈ m.entries ↔ m.lookup k = some v :=
  AList.mem_lookup_iff.symm

/-- A key of the map has a value. -/
theorem mem_iff {m : HashMap α β} {k : α} : k ∈ m ↔ ∃ v, m.lookup k = some v := by
  rw [← Option.isSome_iff_exists, AList.lookup_isSome]

/-- Looking up after an insertion. -/
theorem lookup_insert_eq (m : HashMap α β) (k k' : α) (v : β) :
    (m.insert k v).lookup k' = if k' = k then some v else m.lookup k' := by
  split
  · next h => rw [h, AList.lookup_insert]
  · next h => rw [AList.lookup_insert_ne h]

/-- Looking up after an erasure. -/
theorem lookup_erase_eq (m : HashMap α β) (k k' : α) :
    (m.erase k).lookup k' = if k' = k then none else m.lookup k' := by
  split
  · next h => rw [h, AList.lookup_erase]
  · next h => rw [AList.lookup_erase_ne h]

/-- What is left after an erasure was there before, under another key. -/
theorem lookup_of_erase {m : HashMap α β} {k k' : α} {v : β}
    (h : (m.erase k).lookup k' = some v) : k' ≠ k ∧ m.lookup k' = some v := by
  rw [lookup_erase_eq] at h
  split at h
  · cases h
  · next hne => exact ⟨hne, h⟩

/-- What holds of every entry and of a new one holds of every entry after the insertion. -/
theorem forall_insert {P : α → β → Prop} {m : HashMap α β} {k : α} {v : β}
    (h : ∀ k' v', m.lookup k' = some v' → P k' v') (hv : P k v) :
    ∀ k' v', (m.insert k v).lookup k' = some v' → P k' v' := by
  intro k' v' hk
  rw [lookup_insert_eq] at hk
  split at hk
  · next heq => rwa [heq, ← Option.some.inj hk]
  · exact h k' v' hk

/-- A map is empty when no key has a value. -/
theorem isEmpty_iff_lookup {m : HashMap α β} :
    m.entries = [] ↔ ∀ k, m.lookup k = none := by
  constructor
  · intro h k
    rw [AList.lookup, h, List.dlookup_nil]
  · intro h
    rw [List.eq_nil_iff_forall_not_mem]
    rintro ⟨k, v⟩ hkv
    rw [mem_entries_iff, h k] at hkv
    cases hkv

/-- Apply a function to every value, as a loop over the map does. -/
def mapVal (f : β → β) (m : HashMap α β) : HashMap α β where
  entries := m.entries.map fun e => ⟨e.1, f e.2⟩
  nodupKeys := by
    have h := m.nodupKeys
    rw [List.NodupKeys, List.keys] at h ⊢
    rwa [List.map_map]

/-- A key has its value after `f`. -/
theorem lookup_mapVal (f : β → β) (m : HashMap α β) (k : α) :
    (m.mapVal f).lookup k = (m.lookup k).map f := by
  ext v
  rw [← mem_entries_iff, Option.map_eq_some_iff]
  simp only [mapVal, List.mem_map, Sigma.mk.injEq]
  constructor
  · rintro ⟨⟨k', v'⟩, he, rfl, hv⟩
    exact ⟨v', mem_entries_iff.mp he, eq_of_heq hv⟩
  · rintro ⟨v', hv', rfl⟩
    exact ⟨⟨k, v'⟩, mem_entries_iff.mpr hv', rfl, HEq.rfl⟩

omit [DecidableEq α] in
/-- The keys are as they were, in their order. -/
theorem keys_mapVal (f : β → β) (m : HashMap α β) : (m.mapVal f).keys = m.keys := by
  rw [AList.keys, AList.keys, mapVal, List.keys, List.map_map]
  rfl

/-- No key comes in or goes out. -/
theorem mem_mapVal (f : β → β) (m : HashMap α β) (k : α) : k ∈ m.mapVal f ↔ k ∈ m := by
  rw [← AList.lookup_isSome, lookup_mapVal, Option.isSome_map, AList.lookup_isSome]

/-- Keep the keys that satisfy a test. -/
def filterKeys (p : α → Bool) (m : HashMap α β) : HashMap α β where
  entries := m.entries.filter fun e => p e.1
  nodupKeys := m.nodupKeys.sublist List.filter_sublist

/-- The keys that are left have their values. -/
theorem lookup_filterKeys (p : α → Bool) (m : HashMap α β) (k : α) :
    (m.filterKeys p).lookup k = if p k then m.lookup k else none := by
  ext v
  rw [← mem_entries_iff, filterKeys, List.mem_filter, mem_entries_iff]
  split <;> simp_all

/-- A loop over the map to which one key contributes. -/
theorem flatMap_entries_ite {γ : Type} (m : HashMap α β) (k : α) (g : β → List γ) :
    (m.entries.flatMap fun e => if e.1 = k then g e.2 else []) =
      ((m.lookup k).map g).getD [] := by
  have hnone : ∀ l : List (Sigma fun _ : α => β), k ∉ l.keys →
      (l.flatMap fun e => if e.1 = k then g e.2 else []) = [] := by
    intro l hl
    rw [List.flatMap_eq_nil_iff]
    intro e he
    exact if_neg fun (heq : e.1 = k) => hl (heq ▸ List.mem_keys_of_mem he)
  obtain ⟨l, hnd⟩ := m
  rw [AList.lookup]
  induction l with
  | nil => rfl
  | cons e l ih =>
    obtain ⟨hnot, hnd⟩ := List.nodupKeys_cons.mp hnd
    by_cases heq : e.1 = k
    · subst heq
      rw [List.flatMap_cons, if_pos rfl, hnone l hnot, List.append_nil, List.dlookup_cons_eq]
      rfl
    · rw [List.flatMap_cons, if_neg heq, List.nil_append, ih hnd,
        List.dlookup_cons_ne l e fun h => heq h.symm]

/-- What the values of the map add up to. -/
def total (f : β → ℕ) (m : HashMap α β) : ℕ := (m.entries.map fun e => f e.2).sum

/-- Writing a value adds it to the total and takes the value away that it replaces. -/
theorem total_insert (f : β → ℕ) {m : HashMap α β} {k : α} {v₀ : β} (h : m.lookup k = some v₀)
    (v : β) : total f (m.insert k v) + f v₀ = total f m + f v := by
  have hmem : k ∈ m.entries.keys := mem_iff.mpr ⟨v₀, h⟩
  obtain ⟨b, l₁, l₂, -, hl, hrest⟩ := List.exists_of_kerase hmem
  -- the entry that is replaced is the one that the lookup finds
  have hb : b = v₀ := by
    have he : (⟨k, b⟩ : Sigma fun _ : α => β) ∈ m.entries := by rw [hl]; simp
    rw [mem_entries_iff, h] at he
    exact (Option.some.inj he).symm
  rw [total, AList.entries_insert, hrest, total, hl, hb]
  simp only [List.map_cons, List.map_append, List.sum_cons, List.sum_append]
  omega

/-- A sum of numbers is zero exactly if all of them are. -/
theorem total_eq_zero_iff (f : β → ℕ) {m : HashMap α β} :
    total f m = 0 ↔ ∀ k v, m.lookup k = some v → f v = 0 := by
  rw [total, List.sum_eq_zero_iff_forall_eq_nat]
  simp only [List.mem_map, forall_exists_index, and_imp, forall_apply_eq_imp_iff₂]
  constructor
  · intro h k v hk
    exact h ⟨k, v⟩ (mem_entries_iff.mpr hk)
  · rintro h ⟨k, v⟩ he
    exact h k v (mem_entries_iff.mp he)

/-- `m[k].push_back(v)`. -/
def pushBack {γ : Type} (m : HashMap α (List γ)) (k : α) (v : γ) : HashMap α (List γ) :=
  m.insert k ((m.lookup k).getD [] ++ [v])

/-- A loop that pushes a value for each element: a key has the values that are pushed under it, in
their order, and there is no key without a value. -/
theorem lookup_foldl_pushBack {γ δ : Type} (key : δ → α) (val : δ → γ) (l : List δ) (k : α) :
    (l.foldl (fun m x => m.pushBack (key x) (val x)) (∅ : HashMap α (List γ))).lookup k =
      let vs := l.flatMap fun x => if key x = k then [val x] else []
      if vs = [] then none else some vs := by
  induction l using List.reverseRecOn with
  | nil => exact AList.lookup_empty k
  | append_singleton l x ih =>
    rw [List.foldl_append, List.foldl_cons, List.foldl_nil, pushBack, lookup_insert_eq]
    dsimp only at ih ⊢
    rw [List.flatMap_append, List.flatMap_singleton]
    by_cases hk : k = key x
    · subst hk
      rw [if_pos rfl, if_pos rfl, ih, if_neg (List.append_ne_nil_of_right_ne_nil _ (by simp))]
      split
      · next hnil => rw [hnil, Option.getD_none]
      · rw [Option.getD_some]
    · have hne : ¬key x = k := fun h => hk h.symm
      rw [if_neg hk, if_neg hne, List.append_nil]
      exact ih

end HashMap

/-- Two fallible computations that agree: both fail, or both succeed with results that do. -/
theorem Option.Rel.none_or_some {α β : Type} {r : α → β → Prop} {x : Option α} {y : Option β}
    (h : Option.Rel r x y) :
    x = Option.none ∧ y = Option.none ∨ ∃ a b, x = Option.some a ∧ y = Option.some b ∧ r a b := by
  cases h with
  | none => exact .inl ⟨rfl, rfl⟩
  | some hab => exact .inr ⟨_, _, rfl, rfl, hab⟩

/-- Two computations of two parts that agree part by part. -/
theorem Option.Rel.bind {α β γ δ : Type} {r : α → β → Prop} {r' : γ → δ → Prop} {x : Option α}
    {y : Option β} {f : α → Option γ} {g : β → Option δ} (h : Option.Rel r x y)
    (hfg : ∀ a b, r a b → Option.Rel r' (f a) (g b)) : Option.Rel r' (x >>= f) (y >>= g) := by
  cases h with
  | none => exact .none
  | some hab => exact hfg _ _ hab

/-- Two computations that fail alike, or both succeed with results that agree. -/
inductive Except.Rel {α β ε : Type} (r : α → β → Prop) : Except ε α → Except ε β → Prop
  | ok {a : α} {b : β} (h : r a b) : Except.Rel r (.ok a) (.ok b)
  | error (e : ε) : Except.Rel r (.error e) (.error e)

/-- Two computations that go on with related values stay related. -/
theorem Except.Rel.bind {α β γ δ ε : Type} {r : α → β → Prop} {r' : γ → δ → Prop}
    {x : Except ε α} {y : Except ε β} {f : α → Except ε γ} {g : β → Except ε δ}
    (h : Except.Rel r x y) (hfg : ∀ a b, r a b → Except.Rel r' (f a) (g b)) :
    Except.Rel r' (x >>= f) (y >>= g) := by
  cases h with
  | ok hab => exact hfg _ _ hab
  | error e => exact .error e

/-- Two computations of two parts, the first of which differ by a function. -/
theorem Except.Rel.bind_map {α β γ δ ε : Type} {r : γ → δ → Prop} {x : Except ε α} {φ : α → β}
    {f : α → Except ε γ} {g : β → Except ε δ} (h : ∀ a, Except.Rel r (f a) (g (φ a))) :
    Except.Rel r (x >>= f) (x.map φ >>= g) := by
  cases x with
  | error e => exact .error e
  | ok a => exact h a

/-- Two computations of two parts with the same first part. -/
theorem Except.Rel.bind_same {α β γ ε : Type} {r : β → γ → Prop} {x : Except ε α}
    {f : α → Except ε β} {g : α → Except ε γ} (h : ∀ a, x = .ok a → Except.Rel r (f a) (g a)) :
    Except.Rel r (x >>= f) (x >>= g) := by
  cases x with
  | error e => exact .error e
  | ok a => exact h a rfl

/-- If one returns, the other does, with a related value. -/
theorem Except.Rel.of_ok {α β ε : Type} {r : α → β → Prop} {a : α} {y : Except ε β}
    (h : Except.Rel r (.ok a) y) : ∃ b, y = .ok b ∧ r a b := by
  cases h with
  | ok hab => exact ⟨_, rfl, hab⟩

/-- The same from the other side. -/
theorem Except.Rel.exists_ok {α β ε : Type} {r : α → β → Prop} {x : Except ε α} {b : β}
    (h : Except.Rel r x (.ok b)) : ∃ a, x = .ok a ∧ r a b := by
  cases h with
  | ok hab => exact ⟨_, rfl, hab⟩

/-- A fallible computation of two parts that succeeds. -/
theorem Except.bind_eq_ok_iff {α β ε : Type} {x : Except ε α} {f : α → Except ε β} {b : β} :
    x >>= f = .ok b ↔ ∃ a, x = .ok a ∧ f a = .ok b := by
  cases x with
  | error e =>
    constructor
    · rintro ⟨⟩
    · rintro ⟨_, ⟨⟩, _⟩
  | ok a =>
    constructor
    · exact fun h => ⟨a, rfl, h⟩
    · rintro ⟨_, ⟨⟩, h⟩
      exact h

namespace List

variable {α β γ ε : Type}

/-- A sublist of a duplicate-free list is the part of it that the sublist keeps. -/
theorem Sublist.eq_filter_mem [DecidableEq α] {l' l : List α} (h : l' <+ l) (hl : l.Nodup) :
    l' = l.filter (· ∈ l') := by
  have hself : l'.filter (· ∈ l') = l' := filter_eq_self.mpr (by simp)
  have hsub : l' <+ l.filter (· ∈ l') := by
    have := h.filter (· ∈ l')
    rwa [hself] at this
  have hback : l.filter (· ∈ l') ⊆ l' := fun p hp => by simpa using (mem_filter.mp hp).2
  exact hsub.eq_of_length_le (subperm_of_subset (hl.filter _) hback).length_le

/-- A loop whose body succeeds on every element succeeds, with one result for each element. -/
theorem mapM_forall₂ {f : α → Except ε β} {P : α → β → Prop} {l : List α}
    (h : ∀ a ∈ l, ∃ b, f a = .ok b ∧ P a b) : ∃ bs, l.mapM f = .ok bs ∧ Forall₂ P l bs := by
  induction l with
  | nil => exact ⟨[], rfl, .nil⟩
  | cons a l ih =>
    obtain ⟨b, hb, hP⟩ := h a mem_cons_self
    obtain ⟨bs, hbs, hall⟩ := ih fun a ha => h a (mem_cons_of_mem _ ha)
    exact ⟨b :: bs, by rw [mapM_cons, hb, hbs]; rfl, .cons hP hall⟩

/-- A loop whose body may fail puts its results together as the elements do, if each result is worth
what its element is. -/
theorem flatMap_of_mapM {f : α → Option β} {g : β → List γ} {g' : α → List γ} {l : List α}
    {bs : List β} (h : ∀ a ∈ l, ∀ b, f a = some b → g b = g' a) (hbs : l.mapM f = some bs) :
    bs.flatMap g = l.flatMap g' := by
  induction l generalizing bs with
  | nil =>
    obtain rfl := Option.some.inj hbs
    rfl
  | cons a l ih =>
    rw [mapM_cons] at hbs
    obtain ⟨b, hb, hbs⟩ := Option.bind_eq_some_iff.mp hbs
    obtain ⟨bs', hbs', heq⟩ := Option.bind_eq_some_iff.mp hbs
    obtain rfl := Option.some.inj heq
    rw [flatMap_cons, flatMap_cons, h a mem_cons_self b hb,
      ih (fun a ha => h a (mem_cons_of_mem _ ha)) hbs']

/-- A result for each element. -/
theorem exists_forall₂ {P : α → β → Prop} {l : List α} (h : ∀ a ∈ l, ∃ b, P a b) :
    ∃ bs, Forall₂ P l bs := by
  induction l with
  | nil => exact ⟨[], .nil⟩
  | cons a l ih =>
    obtain ⟨⟨b, hb⟩, hl⟩ := forall_mem_cons.mp h
    obtain ⟨bs, hbs⟩ := ih hl
    exact ⟨b :: bs, .cons hb hbs⟩

/-- Every result belongs to an element. -/
theorem Forall₂.exists_left {P : α → β → Prop} {l : List α} {bs : List β} (h : Forall₂ P l bs)
    {b : β} (hb : b ∈ bs) : ∃ a ∈ l, P a b := by
  induction h with
  | nil => cases hb
  | cons hP _ ih =>
    rcases mem_cons.mp hb with rfl | hb
    · exact ⟨_, mem_cons_self, hP⟩
    · obtain ⟨a, ha, hPa⟩ := ih hb
      exact ⟨a, mem_cons_of_mem _ ha, hPa⟩

/-- Every element has a result. -/
theorem Forall₂.exists_right {P : α → β → Prop} {l : List α} {bs : List β} (h : Forall₂ P l bs)
    {a : α} (ha : a ∈ l) : ∃ b ∈ bs, P a b :=
  h.flip.exists_left ha

/-- Distinct elements have results with distinct keys, if a key belongs to one element only. -/
theorem Forall₂.nodup_map {P : α → β → Prop} {f : β → γ} {l : List α} {bs : List β}
    (h : Forall₂ P l bs) (hinj : ∀ a b a' b', P a b → P a' b' → f b = f b' → a = a')
    (hl : l.Nodup) : (bs.map f).Nodup := by
  induction h with
  | nil => exact nodup_nil
  | @cons a b l bs hP hall ih =>
    obtain ⟨hnot, hl⟩ := nodup_cons.mp hl
    rw [map_cons, nodup_cons]
    refine ⟨fun hmem => ?_, ih hl⟩
    obtain ⟨b', hb', heq⟩ := mem_map.mp hmem
    obtain ⟨a', ha', hP'⟩ := hall.exists_left hb'
    exact hnot (hinj a b a' b' hP hP' heq.symm ▸ ha')

end List
