import Elb.Common.Transition
import Elb.Dnsserver.Subscription

/-!
# Pushes are delivered once

Reference: `SubscribeList::push` and `SubscribeList::fetchPush` in `dnsserver/src/SubscribeList.cc`;
`pushChange` in `dnsserver/src/Server.cc`.

The loader adds to `pushl` and every loop takes out what belongs to its own connections. Whatever
the order, a module that is pushed for a connection comes out with the first fetch of its loop, and
with no other unless it is pushed again. The list in the server goes no other way.
-/

namespace Elb

open Transition

namespace SubscribeList

/-- A call of a method, with what `fetchPush` returned. Each loop fetches for the connections that
it listens to. -/
inductive Call (ι : Type)
  | subscribe (mod : UInt64) (fd : ℕ)
  | unsubscribe (mod : UInt64) (fd : ℕ)
  | push (changes : List UInt64)
  | fetchPush (loop : ι) (listening : List ℕ) (news : List (ℕ × UInt64))

variable {ι : Type}

/-- The list afterwards. -/
def next (s : SubscribeList) : Call ι → SubscribeList
  | .subscribe mod fd => s.subscribe mod fd
  | .unsubscribe mod fd => s.unsubscribe mod fd
  | .push changes => s.push changes
  | .fetchPush _ listening _ => (s.fetchPush listening).2

/-- What a call returns. -/
def Returns (s : SubscribeList) : Call ι → Prop
  | .fetchPush _ listening news => news = (s.fetchPush listening).1
  | _ => True

/-- The calls in any order, from an empty list. -/
def system (ι : Type) : System SubscribeList (Call ι) where
  init s := s = ⟨∅, ∅⟩
  step s call s' := s.Returns call ∧ s' = s.next call

/-- The call fetches for the connection. -/
def Call.Fetches (fd : ℕ) : Call ι → Prop
  | .fetchPush _ listening _ => fd ∈ listening
  | _ => False

/-- The call pushes the module for the connection. -/
def Pushes (fd : ℕ) (mod : UInt64) (s : SubscribeList) : Call ι → Prop
  | .push changes => mod ∈ changes ∧ fd ∈ s.book mod
  | _ => False

/-! ## What is pending -/

/-- What is pending stays so until it is fetched. -/
theorem pending_of_step {s s' : SubscribeList} {call : Call ι} {fd : ℕ} {mod : UInt64}
    (h : mod ∈ s.pending fd) (hnot : ¬call.Fetches fd) (hstep : (system ι).step s call s') :
    mod ∈ s'.pending fd := by
  obtain ⟨_, rfl⟩ := hstep
  cases call with
  | subscribe mod' fd' => exact h
  | unsubscribe mod' fd' =>
    rw [next, pending_unsubscribe]
    exact h
  | push changes => exact (mem_pending_push changes s fd mod).mpr (.inl h)
  | fetchPush loop listening news =>
    rw [next, pending_fetchPush listening s hnot]
    exact h

/-- What is not pending becomes so by a push only. -/
theorem not_pending_of_step {s s' : SubscribeList} {call : Call ι} {fd : ℕ} {mod : UInt64}
    (h : mod ∉ s.pending fd) (hnot : ¬s.Pushes fd mod call) (hstep : (system ι).step s call s') :
    mod ∉ s'.pending fd := by
  obtain ⟨_, rfl⟩ := hstep
  cases call with
  | subscribe mod' fd' => exact h
  | unsubscribe mod' fd' =>
    rw [next, pending_unsubscribe]
    exact h
  | push changes =>
    rw [next, mem_pending_push]
    exact fun hor => hor.elim h hnot
  | fetchPush loop listening news => exact fun hmem => h (mem_pending_of_fetchPush hmem)

/-- The modules of a connection in `pushl` are a set. -/
theorem pushSets_of_reachable {s : SubscribeList} (h : (system ι).Reachable s) :
    PushSets s.pushl := by
  refine h.invariant (P := fun s => PushSets s.pushl) ?_ ?_
  · rintro _ rfl fd
    exact List.nodup_nil
  · rintro s call _ - h ⟨_, rfl⟩
    cases call with
    | subscribe mod fd => exact h
    | unsubscribe mod fd =>
      intro fd'
      have hsame := pending_unsubscribe mod fd s fd'
      rw [pending, pending] at hsame
      rw [next, hsame]
      exact h fd'
    | push changes => exact h.push changes
    | fetchPush loop listening news => exact h.fetchPush listening

/-! ## Every order of calls -/

/-- A fetch concerns the connections of its loop only. -/
theorem fetchPush_frame {s s' : SubscribeList} {loop : ι} {listening : List ℕ}
    {news : List (ℕ × UInt64)} (hstep : (system ι).step s (.fetchPush loop listening news) s')
    {fd : ℕ} (h : fd ∉ listening) :
    (∀ mod, (fd, mod) ∉ news) ∧ s'.pushl.lookup fd = s.pushl.lookup fd := by
  obtain ⟨rfl, rfl⟩ := hstep
  refine ⟨fun mod hmem => h ((s.mem_fetchPush listening fd mod).mp hmem).1, ?_⟩
  rw [next, fetchPush, HashMap.lookup_filterKeys, if_pos (by simpa using h)]

/-- A module that is pushed for a connection comes once out of the first fetch for it, out of no
fetch for others, and out of no later one before it is pushed for the connection again. -/
theorem fetched_once {s s₁ : SubscribeList} (h : (system ι).Reachable s) {changes : List UInt64}
    (hpush : (system ι).step s (.push changes) s₁) {fd : ℕ} {mod : UInt64} (hmem : mod ∈ changes)
    (hbook : fd ∈ s.book mod) {before after : List (Call ι × SubscribeList)} {loop : ι}
    {listening : List ℕ} {news : List (ℕ × UInt64)} {s₂ : SubscribeList}
    (hrun : (system ι).Run s₁ (before ++ (.fetchPush loop listening news, s₂) :: after)) :
    (∀ fd' ∉ listening, (∀ mod', (fd', mod') ∉ news) ∧
      s₂.pushl.lookup fd' = (System.last s₁ before).pushl.lookup fd') ∧
    (fd ∈ listening → System.Along (fun _ call => ¬call.Fetches fd) s₁ before →
      news.count (fd, mod) = 1) ∧
    (fd ∈ listening → ∀ between loop' listening' news' s₃ rest,
      after = between ++ (.fetchPush loop' listening' news', s₃) :: rest →
      System.Along (fun s call => ¬s.Pushes fd mod call) s₂ between → (fd, mod) ∉ news') := by
  obtain ⟨hbefore, hfetch, hafter⟩ := hrun.split
  refine ⟨fun fd' => fetchPush_frame hfetch, fun hfd hnot => ?_, ?_⟩
  · -- the module stays pending up to the fetch, and a fetch has no pair twice
    obtain ⟨_, rfl⟩ := hpush
    have hpending : mod ∈ (s.push changes).pending fd :=
      (mem_pending_push changes s fd mod).mpr (.inr ⟨hmem, hbook⟩)
    have hlast := hbefore.last_of_along (P := fun s => mod ∈ s.pending fd)
      (fun _ _ _ => pending_of_step) hnot hpending
    have hreach : (system ι).Reachable (System.last (s.push changes) before) :=
      hbefore.reachable_last (h.step (e := .push changes) ⟨trivial, rfl⟩)
    obtain ⟨rfl, -⟩ := hfetch
    exact List.count_eq_one_of_mem ((pushSets_of_reachable hreach).nodup_fetchPush listening)
      ((mem_fetchPush listening _ fd mod).mpr ⟨hfd, hlast⟩)
  · -- nothing but a push makes it pending again
    rintro hfd between loop' listening' news' s₃ rest rfl hnot
    obtain ⟨hbetween, ⟨rfl, -⟩, -⟩ := hafter.split
    obtain ⟨-, rfl⟩ := hfetch
    have hlast := hbetween.last_of_along (P := fun s => mod ∉ s.pending fd)
      (fun _ _ _ => not_pending_of_step) hnot (not_mem_pending_fetchPush _ hfd mod)
    exact fun hmem => hlast ((mem_fetchPush listening' _ fd mod).mp hmem).2

/-- A connection of the first of two loops subscribes to a module, which is then pushed. -/
def subscribedAndPushed : SubscribeList := (subscribe 1 5 ⟨∅, ∅⟩).push [1]

/-- The second loop fetches first and gets nothing; the first loop gets the module once. -/
theorem fetched_once_two_loops :
    ((subscribedAndPushed.fetchPush [7]).2.fetchPush [5]).1.count (5, 1) = 1 ∧
      (5, 1) ∉ (((subscribedAndPushed.fetchPush [7]).2.fetchPush [5]).2.fetchPush [5]).1 := by
  have hinit : (system (Fin 2)).Reachable ⟨∅, ∅⟩ := .init rfl
  have hreach : (system (Fin 2)).Reachable (subscribe 1 5 ⟨∅, ∅⟩) :=
    hinit.step (e := .subscribe 1 5) ⟨trivial, rfl⟩
  have hpush : (system (Fin 2)).step (subscribe 1 5 ⟨∅, ∅⟩) (.push [1]) subscribedAndPushed :=
    ⟨trivial, rfl⟩
  have hrun : (system (Fin 2)).Run subscribedAndPushed
      ([(.fetchPush 1 [7] _, _)] ++ (.fetchPush 0 [5] _, _) :: [(.fetchPush 0 [5] _, _)]) :=
    .cons ⟨rfl, rfl⟩ (.cons ⟨rfl, rfl⟩ (.cons ⟨rfl, rfl⟩ (.nil _)))
  have hbook : 5 ∈ (subscribe 1 5 ⟨∅, ∅⟩).book 1 := by decide
  obtain ⟨-, hfirst, hagain⟩ := fetched_once hreach hpush List.mem_cons_self hbook hrun
  exact ⟨hfirst (by decide) ⟨by simp [Call.Fetches], trivial⟩,
    hagain (by decide) [] 0 [5] _ _ [] rfl trivial⟩

end SubscribeList

/-! ## The list in the server -/

namespace Server

variable {n : ℕ}

/-- A step of the server leaves the list alone or is one of the calls. -/
theorem list_step {s s' : Server n} {op : Op n} (h : (system n).step s op s') :
    s'.list = s.list ∨ ∃ call, (SubscribeList.system (Fin n)).step s.list call s'.list := by
  obtain ⟨_, rfl⟩ := h
  cases op with
  | request fd modid cmdid =>
    refine .inl ?_
    rw [next]
    cases s.conns.lookup fd with
    | none => rfl
    | some c =>
      dsimp only
      split <;> rfl
  | close fd =>
    refine .inl ?_
    rw [next]
    cases s.conns.lookup fd <;> rfl
  | push changes => exact .inr ⟨.push changes, trivial, rfl⟩
  | post =>
    refine .inl ?_
    rw [next]
    cases s.posting <;> rfl
  | work l =>
    -- three of the handlers make a call, in one step each
    rw [next, work]
    cases s.handler l with
    | subscribing fd modid cmdid => exact .inr ⟨.subscribe (packKey modid cmdid) fd, trivial, rfl⟩
    | fetching listening => exact .inr ⟨.fetchPush l listening _, rfl, rfl⟩
    | sending fd rsp => exact .inl (deliver_list s fd rsp)
    | pushing news => cases news <;> exact .inl rfl
    | pushSending fd rsp news => exact .inl (deliver_list s fd rsp)
    | closing fd book =>
      cases book with
      | nil => exact .inl rfl
      | cons mod book => exact .inr ⟨.unsubscribe mod fd, trivial, rfl⟩
    | _ => exact .inl rfl
  | _ => exact .inl rfl

/-- What holds of the list under any calls holds of it in the server. -/
theorem reachable_list {s : Server n} (h : (system n).Reachable s) :
    (SubscribeList.system (Fin n)).Reachable s.list := by
  refine h.invariant (P := fun s => (SubscribeList.system (Fin n)).Reachable s.list) ?_ ?_
  · rintro _ ⟨data, rfl⟩
    exact .init rfl
  · intro s op s' _ hs hstep
    rcases list_step hstep with heq | ⟨call, hcall⟩
    · rw [heq]
      exact hs
    · exact hs.step hcall

/-- Loops that are about to fetch do it for different connections. -/
theorem disjoint_listening {s : Server n} (h : (system n).Reachable s) {l l' : Fin n}
    {fds fds' : List ℕ} (hl : s.handler l = .fetching fds) (hl' : s.handler l' = .fetching fds')
    (hne : l ≠ l') : fds.Disjoint fds' := by
  intro fd hmem hmem'
  have hinv := Reachable.inv h
  obtain ⟨c, hc, hloop⟩ := hinv.uses l fd (by rw [hl]; exact hmem)
  obtain ⟨c', hc', hloop'⟩ := hinv.uses l' fd (by rw [hl']; exact hmem')
  cases hc.symm.trans hc'
  exact hne (hloop.symm.trans hloop')

end Server

end Elb
