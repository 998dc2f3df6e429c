import Elb.Common.Containers
import Mathlib.Data.List.Lemmas

/-!
# The subscription list

Reference: `dnsserver/include/SubscribeList.h` and `dnsserver/src/SubscribeList.cc`.

`bookl` says who subscribes to a module, `pushl` which modules a connection is to be told about.
Each method works under the locks of the tables that it uses, so each is one step.
-/

namespace Elb

/-- `class SubscribeList`; the sets of file descriptors and of modules have no order. -/
structure SubscribeList where
  bookl : HashMap UInt64 (List ℕ)
  pushl : HashMap ℕ (List UInt64)

namespace SubscribeList

/-- The subscribers of a module. -/
def book (mod : UInt64) (s : SubscribeList) : List ℕ := (s.bookl.lookup mod).getD []

/-- The modules that a connection is to be told about. -/
def pending (fd : ℕ) (s : SubscribeList) : List UInt64 := (s.pushl.lookup fd).getD []

/-- `SubscribeList::subscribe`. -/
def subscribe (mod : UInt64) (fd : ℕ) (s : SubscribeList) : SubscribeList :=
  { s with bookl := s.bookl.insert mod (((s.bookl.lookup mod).getD []).insert fd) }

/-- `SubscribeList::unsubscribe`. -/
def unsubscribe (mod : UInt64) (fd : ℕ) (s : SubscribeList) : SubscribeList :=
  match s.bookl.lookup mod with
  | none => s
  | some fds =>
    let fds := fds.filter (· ≠ fd)
    if fds.isEmpty then { s with bookl := s.bookl.erase mod }
    else { s with bookl := s.bookl.insert mod fds }

/-- `pushl[fd].insert(mod)`. -/
def addPush (mod : UInt64) (pushl : HashMap ℕ (List UInt64)) (fd : ℕ) : HashMap ℕ (List UInt64) :=
  pushl.insert fd (((pushl.lookup fd).getD []).insert mod)

/-- `SubscribeList::push`, up to `run_task`. -/
def push (changes : List UInt64) (s : SubscribeList) : SubscribeList :=
  { s with
    pushl := changes.foldl (fun pushl mod =>
      match s.bookl.lookup mod with
      | none => pushl
      | some fds => fds.foldl (addPush mod) pushl) s.pushl }

/-- `SubscribeList::fetchPush`: what the connections in `subscribers` are to be told about, module
by module, and the list without it. -/
def fetchPush (subscribers : List ℕ) (s : SubscribeList) : List (ℕ × UInt64) × SubscribeList :=
  ((s.pushl.filterKeys (· ∈ subscribers)).entries.flatMap fun e => e.2.map fun mod => (e.1, mod),
    { s with pushl := s.pushl.filterKeys (· ∉ subscribers) })

/-! ## Membership -/

/-- `subscribe` books the descriptor for the module and nothing else. -/
theorem mem_book_subscribe (mod : UInt64) (fd : ℕ) (s : SubscribeList) (mod' : UInt64) (fd' : ℕ) :
    fd' ∈ (s.subscribe mod fd).book mod' ↔ mod' = mod ∧ fd' = fd ∨ fd' ∈ s.book mod' := by
  rw [subscribe, book, book, HashMap.lookup_insert_eq]
  split
  · next h =>
    subst h
    simp
  · next h => simp [h]

/-- `unsubscribe` takes out the descriptor of the module and nothing else. -/
theorem mem_book_unsubscribe (mod : UInt64) (fd : ℕ) (s : SubscribeList) (mod' : UInt64) (fd' : ℕ) :
    fd' ∈ (s.unsubscribe mod fd).book mod' ↔ fd' ∈ s.book mod' ∧ ¬(mod' = mod ∧ fd' = fd) := by
  rw [unsubscribe]
  cases hk : s.bookl.lookup mod with
  | none =>
    refine (and_iff_left_of_imp ?_).symm
    rintro hmem ⟨rfl, -⟩
    rw [book, hk] at hmem
    cases hmem
  | some fds =>
    have hmem : fd' ∈ s.book mod ↔ fd' ∈ fds := by rw [book, hk, Option.getD_some]
    by_cases heq : mod' = mod
    · subst heq
      rw [hmem]
      dsimp only
      split
      · -- the last subscriber leaves, and the entry goes with it
        next hnil =>
        rw [book, AList.lookup_erase]
        simp only [List.isEmpty_iff, List.filter_eq_nil_iff, decide_eq_true_eq, not_not] at hnil
        simp only [Option.getD_none, List.not_mem_nil, true_and, false_iff, not_and, not_not]
        exact hnil fd'
      · rw [book, AList.lookup_insert]
        simp
    · have hsame : (s.bookl.erase mod).lookup mod' = s.bookl.lookup mod' ∧
          ∀ l, (s.bookl.insert mod l).lookup mod' = s.bookl.lookup mod' :=
        ⟨AList.lookup_erase_ne heq, fun l => AList.lookup_insert_ne heq⟩
      dsimp only
      split
      · rw [book, book, hsame.1]
        simp [heq]
      · rw [book, book, hsame.2]
        simp [heq]

/-- `unsubscribe` leaves `pushl` alone, with what it has for the descriptor. -/
@[simp] theorem pending_unsubscribe (mod : UInt64) (fd : ℕ) (s : SubscribeList) (fd' : ℕ) :
    (s.unsubscribe mod fd).pending fd' = s.pending fd' := by
  rw [unsubscribe]
  split
  · rfl
  · dsimp only
    split <;> rfl

/-- The inner loop of `push`. -/
theorem mem_addPush (mod : UInt64) (fds : List ℕ) (pushl : HashMap ℕ (List UInt64)) (fd : ℕ)
    (mod' : UInt64) : mod' ∈ ((fds.foldl (addPush mod) pushl).lookup fd).getD [] ↔
      mod' ∈ (pushl.lookup fd).getD [] ∨ mod' = mod ∧ fd ∈ fds := by
  -- on the subscribers, each of which is told in turn
  induction fds generalizing pushl with
  | nil => simp
  | cons fd₀ fds ih =>
    rw [List.foldl_cons, ih, addPush, HashMap.lookup_insert_eq]
    split
    · next h =>
      subst h
      rw [Option.getD_some, List.mem_insert_iff, List.mem_cons]
      tauto
    · next h => simp [h]

/-- `push` hands every changed module to its subscribers and forgets nothing. -/
theorem mem_pending_push (changes : List UInt64) (s : SubscribeList) (fd : ℕ) (mod : UInt64) :
    mod ∈ (s.push changes).pending fd ↔
      mod ∈ s.pending fd ∨ mod ∈ changes ∧ fd ∈ s.book mod := by
  -- the outer loop, on the changes
  have hloop : ∀ pushl : HashMap ℕ (List UInt64),
      mod ∈ ((changes.foldl (fun pushl mod =>
        match s.bookl.lookup mod with
        | none => pushl
        | some fds => fds.foldl (addPush mod) pushl) pushl).lookup fd).getD [] ↔
      mod ∈ (pushl.lookup fd).getD [] ∨ mod ∈ changes ∧ fd ∈ s.book mod := by
    induction changes with
    | nil => simp
    | cons mod₀ changes ih =>
      intro pushl
      rw [List.foldl_cons, ih]
      cases hk : s.bookl.lookup mod₀ with
      | none =>
        -- nobody has subscribed to it, and it is skipped
        have hnone : fd ∉ s.book mod₀ := by simp [book, hk]
        by_cases heq : mod = mod₀
        · subst heq
          simp [hnone]
        · simp [heq]
      | some fds =>
        have hfds : s.book mod₀ = fds := by simp [book, hk]
        dsimp only
        rw [mem_addPush]
        by_cases heq : mod = mod₀
        · subst heq
          rw [hfds]
          simp only [true_and, List.mem_cons, true_or]
          tauto
        · simp [heq]
  exact hloop s.pushl

/-- What is fetched: the pending modules of those who fetch. -/
theorem mem_fetchPush (subscribers : List ℕ) (s : SubscribeList) (fd : ℕ) (mod : UInt64) :
    (fd, mod) ∈ (s.fetchPush subscribers).1 ↔ fd ∈ subscribers ∧ mod ∈ s.pending fd := by
  rw [fetchPush, List.mem_flatMap, pending]
  constructor
  · rintro ⟨⟨fd', mods⟩, he, hmem⟩
    obtain ⟨mod', hmod, heq⟩ := List.mem_map.mp hmem
    cases heq
    have hk := HashMap.mem_entries_iff.mp he
    rw [HashMap.lookup_filterKeys] at hk
    split at hk
    · next hsub => exact ⟨by simpa using hsub, by rw [hk]; exact hmod⟩
    · cases hk
  · rintro ⟨hsub, hmem⟩
    cases hk : s.pushl.lookup fd with
    | none =>
      rw [hk] at hmem
      cases hmem
    | some mods =>
      rw [hk] at hmem
      refine ⟨⟨fd, mods⟩, HashMap.mem_entries_iff.mpr ?_, List.mem_map.mpr ⟨mod, hmem, rfl⟩⟩
      rw [HashMap.lookup_filterKeys, if_pos (by simpa using hsub), hk]

/-- What is left: the pending modules of the others. -/
theorem pending_fetchPush (subscribers : List ℕ) (s : SubscribeList) {fd : ℕ}
    (h : fd ∉ subscribers) : (s.fetchPush subscribers).2.pending fd = s.pending fd := by
  rw [fetchPush, pending, pending, HashMap.lookup_filterKeys, if_pos (by simpa using h)]

/-- A fetch leaves nothing that was not there. -/
theorem mem_pending_of_fetchPush {subscribers : List ℕ} {s : SubscribeList} {fd : ℕ} {mod : UInt64}
    (h : mod ∈ (s.fetchPush subscribers).2.pending fd) : mod ∈ s.pending fd := by
  rw [fetchPush, pending, HashMap.lookup_filterKeys] at h
  split at h
  · exact h
  · cases h

/-- A fetch leaves nothing to those who fetch. -/
theorem not_mem_pending_fetchPush {subscribers : List ℕ} (s : SubscribeList) {fd : ℕ}
    (h : fd ∈ subscribers) (mod : UInt64) : mod ∉ (s.fetchPush subscribers).2.pending fd := by
  rw [fetchPush, pending, HashMap.lookup_filterKeys, if_neg (by simpa using h)]
  exact List.not_mem_nil

/-! ## Sets -/

/-- The modules of every connection are a set. -/
def PushSets (pushl : HashMap ℕ (List UInt64)) : Prop := ∀ fd, ((pushl.lookup fd).getD []).Nodup

/-- A module is inserted once. -/
theorem PushSets.addPush {pushl : HashMap ℕ (List UInt64)} (h : PushSets pushl) (mod : UInt64)
    (fd : ℕ) : PushSets (addPush mod pushl fd) := by
  intro fd'
  rw [SubscribeList.addPush, HashMap.lookup_insert_eq]
  split
  · exact (h fd).insert
  · exact h fd'

/-- However often `push` comes across it. -/
theorem PushSets.push {s : SubscribeList} (h : PushSets s.pushl) (changes : List UInt64) :
    PushSets (s.push changes).pushl := by
  refine List.foldlRecOn changes _ h fun pushl hpushl mod _ => ?_
  split
  · exact hpushl
  · next fds _ => exact List.foldlRecOn fds _ hpushl fun pushl hpushl fd _ => hpushl.addPush mod fd

/-- What is left are the sets of the others. -/
theorem PushSets.fetchPush {s : SubscribeList} (h : PushSets s.pushl) (subscribers : List ℕ) :
    PushSets (s.fetchPush subscribers).2.pushl := by
  intro fd
  rw [SubscribeList.fetchPush, HashMap.lookup_filterKeys]
  split
  · exact h fd
  · exact List.nodup_nil

/-- No module is fetched twice for one connection. -/
theorem PushSets.nodup_fetchPush {s : SubscribeList} (h : PushSets s.pushl)
    (subscribers : List ℕ) : (s.fetchPush subscribers).1.Nodup := by
  rw [SubscribeList.fetchPush, List.nodup_flatMap]
  constructor
  · intro e he
    have hk := HashMap.mem_entries_iff.mp he
    rw [HashMap.lookup_filterKeys] at hk
    split at hk
    · have hnd := h e.1
      rw [hk, Option.getD_some] at hnd
      exact hnd.map fun _ _ heq => (Prod.mk.inj heq).2
    · cases hk
  · -- entries have different keys
    refine (List.pairwise_map.mp (s.pushl.filterKeys (· ∈ subscribers)).nodupKeys).imp ?_
    rintro e e' hne ⟨fd, mod⟩ hmem hmem'
    obtain ⟨_, _, heq⟩ := List.mem_map.mp hmem
    obtain ⟨_, _, heq'⟩ := List.mem_map.mp hmem'
    exact hne ((Prod.mk.inj heq).1.trans (Prod.mk.inj heq').1.symm)

end SubscribeList

end Elb
