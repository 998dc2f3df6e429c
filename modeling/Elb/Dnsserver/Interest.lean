import Elb.Dnsserver.Delivery
import Elb.Dnsserver.StalePush

/-!
# The table mirrors the interests

Reference: `getRoute`, `createSubscribe` and `clearSubscribe` in `dnsserver/src/Server.cc`;
`subscribe` and `unsubscribe` in `dnsserver/src/SubscribeList.cc`.

Who subscribes to what is kept twice: `Interest` has the modules of one connection and belongs to
its loop, `bookl` has the connections of every module and is shared. `getRoute` adds to the first
and then to the second; `clearSubscribe` goes through the first and takes out of the second. The two
differ only by what these handlers have still to do.
-/

namespace Elb

open Transition

/-! ## No empty sets -/

namespace SubscribeList

/-- Every module in `bookl` has a subscriber, and the subscribers are a set. -/
def BookSets (s : SubscribeList) : Prop :=
  ∀ mod fds, s.bookl.lookup mod = some fds → fds ≠ [] ∧ fds.Nodup

/-- A descriptor is inserted once. -/
theorem BookSets.subscribe {s : SubscribeList} (h : s.BookSets) (mod : UInt64) (fd : ℕ) :
    (s.subscribe mod fd).BookSets := by
  refine HashMap.forall_insert h
    ⟨List.ne_nil_of_mem (List.mem_insert_self ..), List.Nodup.insert ?_⟩
  cases hmod : s.bookl.lookup mod with
  | none => exact List.nodup_nil
  | some fds => exact (h mod fds hmod).2

/-- The key goes with its last subscriber. -/
theorem BookSets.unsubscribe {s : SubscribeList} (h : s.BookSets) (mod : UInt64) (fd : ℕ) :
    (s.unsubscribe mod fd).BookSets := by
  rw [SubscribeList.unsubscribe]
  split
  · exact h
  · next fds hmod =>
    dsimp only
    split
    · exact fun mod' fds' hk => h mod' fds' (HashMap.lookup_of_erase hk).2
    · next hne =>
      refine HashMap.forall_insert h ⟨fun hnil => ?_, (h mod fds hmod).2.filter _⟩
      exact hne (List.isEmpty_iff.mpr hnil)

/-- They are sets in every reachable list. -/
theorem bookSets_of_reachable {ι : Type} {s : SubscribeList} (h : (system ι).Reachable s) :
    s.BookSets := by
  refine h.invariant ?_ ?_
  · rintro _ rfl mod fds ⟨⟩
  · rintro s call _ - h ⟨_, rfl⟩
    cases call with
    | subscribe mod fd => exact h.subscribe mod fd
    | unsubscribe mod fd => exact h.unsubscribe mod fd
    | push changes => exact h
    | fetchPush loop listening news => exact h

end SubscribeList

/-! ## The two tables -/

/-- A `getRoute` or a `clearSubscribe` is in progress. -/
def Handler.Subscription : Handler → Prop
  | .subscribing _ _ _ | .reading _ _ _ | .sending _ _ | .closing _ _ => True
  | _ => False

namespace Server

variable {n : ℕ}

/-- While handlers are at work the tables differ by what is still to be subscribed and still to be
unsubscribed. -/
theorem mem_book_cases {s : Server n} (h : (system n).Reachable s) (fd : ℕ) (mod : UInt64) :
    (fd ∈ s.list.book mod → s.Asks fd mod ∨ ∃ l, (s.handler l).WillUnsubscribe fd mod) ∧
      (s.Asks fd mod → fd ∈ s.list.book mod ∨ ∃ l, (s.handler l).Subscribes fd mod) := by
  refine ⟨(Reachable.booked h).booked fd mod, ?_⟩
  rintro ⟨c, hc, hmod⟩
  have hsettled := (Reachable.inv h).settled fd c hc
  exact (hsettled.booked mod hmod).imp_right fun hsub => ⟨c.loop, hsub⟩

/-- When no such handler is in progress, `bookl` is the inverse of the interest sets of the open
connections. It never has a key with an empty set. -/
theorem mem_book_iff_interest {s : Server n} (h : (system n).Reachable s) :
    (∀ mod fds, s.list.bookl.lookup mod = some fds → fds ≠ []) ∧
      ((∀ l, ¬(s.handler l).Subscription) →
        (∀ fd c, s.conns.lookup fd = some c → ∀ mod, fd ∈ s.list.book mod ↔ mod ∈ c.interest) ∧
          ∀ fd, s.conns.lookup fd = none → ∀ mod, fd ∉ s.list.book mod) := by
  refine ⟨fun mod fds hk => (SubscribeList.bookSets_of_reachable (reachable_list h) mod fds hk).1,
    fun hidle => ?_⟩
  -- where the tables differ a handler of either kind is in progress
  have hiff : ∀ fd mod, fd ∈ s.list.book mod ↔ s.Asks fd mod := by
    intro fd mod
    obtain ⟨hbook, hasks⟩ := mem_book_cases h fd mod
    constructor
    · refine fun hmem => (hbook hmem).resolve_right ?_
      rintro ⟨l, hl⟩
      refine hidle l ?_
      cases hv : s.handler l with
      | closing fd' book => trivial
      | _ => rw [hv] at hl; exact hl.elim
    · refine fun hmem => (hasks hmem).resolve_right ?_
      rintro ⟨l, hl⟩
      refine hidle l ?_
      cases hv : s.handler l with
      | subscribing fd' modid cmdid => trivial
      | _ => rw [hv] at hl; exact hl.elim
  constructor
  · intro fd c hc mod
    rw [hiff]
    constructor
    · rintro ⟨c', hc', hmod⟩
      cases hc.symm.trans hc'
      exact hmod
    · exact fun hmod => ⟨c, hc, hmod⟩
  · intro fd hnone mod
    rw [hiff]
    rintro ⟨c, hc, -⟩
    cases hnone.symm.trans hc

/-- Two connections on two loops ask for one module, the first of them twice, and the second one is
closed. -/
def twoRequestsOneClose (l l' : Fin 2) : List (Op 2) :=
  [.accept 5 l, .accept 6 l', .request 5 1 2, .request 6 1 2, .work l', .work l, .work l, .work l',
    .work l, .work l', .request 5 1 2, .work l, .close 6, .work l', .work l, .work l']

/-- The first connection is left in the table. -/
theorem mem_book_after_close : ∃ s : Server 2, (system 2).Reachable s ∧
    (∀ l, ¬(s.handler l).Subscription) ∧ s.conns.lookup 6 = none ∧
      5 ∈ s.list.book (packKey 1 2) ∧ 6 ∉ s.list.book (packKey 1 2) := by
  have h : (system 2).Reachable ((twoRequestsOneClose 0 1).foldl next (new ∅)) :=
    foldl_reachable (by decide)
  have hidle : ∀ l, ¬(((twoRequestsOneClose 0 1).foldl next (new ∅)).handler l).Subscription := by
    intro l
    have hl : ((twoRequestsOneClose 0 1).foldl next (new ∅)).handler l = .idle := by
      revert l
      decide
    rw [hl]
    exact id
  have hc : ((twoRequestsOneClose 0 1).foldl next (new ∅)).conns.lookup 5 =
    some ⟨0, [packKey 1 2], [⟨1, 2, []⟩, ⟨1, 2, []⟩]⟩ := rfl
  obtain ⟨-, htable⟩ := mem_book_iff_interest h
  obtain ⟨hopen, hclosed⟩ := htable hidle
  exact ⟨_, h, hidle, rfl, (hopen 5 _ hc _).mpr (by decide), hclosed 6 rfl _⟩

end Server

end Elb
