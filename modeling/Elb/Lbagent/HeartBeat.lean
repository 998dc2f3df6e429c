import Elb.Common.Transition
import Mathlib.Data.Int.Order.Basic
import Mathlib.Tactic.NormNum

/-!
# The heartbeat

Reference: `lbagent/include/HeartBeat.h`, whose `die` is called by `elbClient::apiGetHost` in
`api/cpp/elbApi/elbApi.cc`; `elbClient.agentDie` in `api/python/elbApi/elbClient.py`.

The agent writes the time to a cell of shared memory, and a client compares the cell with its own
clock. `die` subtracts an unsigned number, so that a heartbeat that is ahead of the clock makes a
difference near `2 ^ 64` and the agent is taken for dead. Clock and cell are read one after the
other, in any order: C++ leaves it open.
-/

namespace Elb

open Transition

/-! ## The verdict -/

namespace HeartBeat

/-- `HeartBeat::die` for the time and the cell that it has read. -/
def die (now : Int64) (hb : UInt64) : Bool := now.toUInt64 - hb > 2

/-- `elbClient.agentDie` for the same two. -/
def agentDie (now : Int64) (hb : UInt64) : Bool := now.toInt - hb.toInt64.toInt > 2

/-- The heartbeat is not ahead of the clock, or so far ahead that the difference wraps around to one
that is small again. -/
def InOrder (now : Int64) (hb : UInt64) : Prop :=
  hb.toInt64.toInt ≤ now.toInt ∨ 2 ^ 64 - 2 ≤ hb.toInt64.toInt - now.toInt

instance InOrder.decidable (now : Int64) (hb : UInt64) : Decidable (InOrder now hb) :=
  inferInstanceAs (Decidable (_ ∨ _))

/-- A number as the `int64_t` with the same bits. -/
theorem toInt_emod (x : Int64) : (x.toUInt64.toNat : ℤ) = x.toInt % 2 ^ 64 := by
  have htoNat : x.toUInt64.toNat = x.toBitVec.toNat := rfl
  have htoInt := BitVec.toInt_eq_toNat_cond x.toBitVec
  have hlt := x.toBitVec.isLt
  rw [Int64.toInt_toBitVec] at htoInt
  rw [htoNat]
  split at htoInt <;> omega

/-- The difference that `die` computes. -/
theorem toNat_sub (now : Int64) (hb : UInt64) :
    ((now.toUInt64 - hb).toNat : ℤ) = (now.toInt - hb.toInt64.toInt) % 2 ^ 64 := by
  have hnow := toInt_emod now
  have hcell := toInt_emod hb.toInt64
  have hlt := hb.toNat_lt
  rw [UInt64.toUInt64_toInt64] at hcell
  rw [UInt64.toNat_sub]
  omega

/-- Both verdicts are the same exactly if the heartbeat is not ahead. -/
theorem die_eq_agentDie_iff (now : Int64) (hb : UInt64) :
    die now hb = agentDie now hb ↔ InOrder now hb := by
  have hsub := toNat_sub now hb
  have hlow := now.le_toInt
  have hhigh := now.toInt_lt
  have hlow' := hb.toInt64.le_toInt
  have hhigh' := hb.toInt64.toInt_lt
  have hdie : die now hb = true ↔ 2 < (now.toUInt64 - hb).toNat := by
    rw [die, decide_eq_true_iff]
    exact UInt64.lt_iff_toNat_lt
  -- the difference of a heartbeat that is ahead wraps around
  rw [Bool.eq_iff_iff, hdie, agentDie, decide_eq_true_iff, InOrder]
  omega

/-! ## Agent and client -/

/-- The clock and the cell, the time that `recordTs` is about to write, and what a client has read
of the clock and of the cell. -/
structure State where
  clock : Int64
  cell : UInt64
  stamp : Option Int64
  now : Option Int64
  hb : Option UInt64

/-- The clock is set to any time; `recordTs` reads the clock and writes the cell; the client reads
the clock or the cell, and returns its verdict on both. -/
inductive Event
  | tick (t : Int64)
  | readStamp
  | writeStamp
  | readClock
  | readCell
  | verdict (now : Int64) (hb : UInt64) (dead : Bool)

inductive Step : State → Event → State → Prop
  | tick (s : State) (t : Int64) : Step s (.tick t) { s with clock := t }
  | readStamp (s : State) (h : s.stamp = none) :
      Step s .readStamp { s with stamp := some s.clock }
  | writeStamp (s : State) (t : Int64) (h : s.stamp = some t) :
      Step s .writeStamp { s with stamp := none, cell := t.toUInt64 }
  | readClock (s : State) (h : s.now = none) : Step s .readClock { s with now := some s.clock }
  | readCell (s : State) (h : s.hb = none) : Step s .readCell { s with hb := some s.cell }
  | verdict (s : State) (now : Int64) (hb : UInt64) (hnow : s.now = some now)
      (hhb : s.hb = some hb) :
      Step s (.verdict now hb (die now hb)) { s with now := none, hb := none }

/-- Any clock and any cell, and nobody has read anything yet. -/
def system : System State Event where
  init s := s.stamp = none ∧ s.now = none ∧ s.hb = none
  step := Step

/-- The verdict is right about the two values, and `agentDie` would give it too. -/
def Right : Event → Prop
  | .verdict now hb dead =>
    (dead = true ↔ now.toInt - hb.toInt64.toInt > 2) ∧ dead = agentDie now hb
  | _ => True

/-- The heartbeat that the client has read is not ahead of the clock that it has read. -/
def NotAhead (_ : State) : Event → Prop
  | .verdict now hb _ => InOrder now hb
  | _ => True

/-- Only a verdict can be wrong. -/
theorem right_iff {s s' : State} {e : Event} (h : Step s e s') : Right e ↔ NotAhead s e := by
  cases h with
  | verdict now hb =>
    have hagent : agentDie now hb = true ↔ now.toInt - hb.toInt64.toInt > 2 := decide_eq_true_iff
    rw [Right, NotAhead, ← die_eq_agentDie_iff]
    constructor
    · exact And.right
    · intro heq
      exact ⟨by rw [heq, hagent], heq⟩
  | _ => exact Iff.rfl

/-- In every run, whatever the clock does and in whatever order agent and client take their steps:
all verdicts are right exactly if no heartbeat was ahead. -/
theorem verdicts_right_iff {s : State} {tr : List (Event × State)} (h : system.Run s tr) :
    (∀ x ∈ tr, Right x.1) ↔ System.Along NotAhead s tr :=
  h.forall_label_iff_along (fun _ _ _ _ _ => trivial) (fun _ _ _ _ hstep => right_iff hstep) trivial

/-- The agent has been off for five seconds. -/
def off : State := ⟨1005, 1000, none, none, none⟩

/-- The client reads both while the agent is off. -/
theorem verdicts_right_off :
    (∀ x ∈ [(Event.readClock, { off with now := some 1005 }),
        (.readCell, { off with now := some 1005, hb := some 1000 }),
        (.verdict 1005 1000 true, off)], Right x.1) ↔
      System.Along NotAhead off [(Event.readClock, { off with now := some 1005 }),
        (.readCell, { off with now := some 1005, hb := some 1000 }),
        (.verdict 1005 1000 true, off)] :=
  verdicts_right_iff (.cons (.readClock off rfl) (.cons (.readCell _ rfl)
    (.cons (.verdict _ 1005 1000 rfl rfl) (.nil off))))

/-- The client reads the clock, then a second begins and the agent writes the cell, then the client
reads the cell: the agent is taken for dead. -/
theorem not_verdicts_right :
    ¬∀ s tr, system.init s → system.Run s tr → ∀ x ∈ tr, Right x.1 := by
  intro hall
  have hrun : system.Run ⟨1000, 999, none, none, none⟩
      [(.readClock, ⟨1000, 999, none, some 1000, none⟩),
        (.tick 1001, ⟨1001, 999, none, some 1000, none⟩),
        (.readStamp, ⟨1001, 999, some 1001, some 1000, none⟩),
        (.writeStamp, ⟨1001, 1001, none, some 1000, none⟩),
        (.readCell, ⟨1001, 1001, none, some 1000, some 1001⟩),
        (.verdict 1000 1001 true, ⟨1001, 1001, none, none, none⟩)] :=
    .cons (.readClock _ rfl) (.cons (.tick _ 1001) (.cons (.readStamp _ rfl)
      (.cons (.writeStamp _ 1001 rfl) (.cons (.readCell _ rfl)
        (.cons (.verdict _ 1000 1001 rfl rfl) (.nil _))))))
  have hright := hall _ _ ⟨rfl, rfl, rfl⟩ hrun
  simp only [List.forall_mem_cons] at hright
  obtain ⟨-, -, -, -, -, hverdict, -⟩ := hright
  have hlate := hverdict.1.mp rfl
  revert hlate
  decide

/-! ## A clock that does not go back -/

/-- The clock does not go back, and the client reads the cell before the clock. -/
def Steady (s : State) : Event → Prop
  | .tick t => s.clock.toInt ≤ t.toInt
  | .readClock => s.hb ≠ none
  | _ => True

/-- No time that was read or written is later than the clock. -/
structure Past (s : State) : Prop where
  cell : s.cell.toInt64.toInt ≤ s.clock.toInt
  stamp : ∀ t, s.stamp = some t → t.toInt ≤ s.clock.toInt
  hb : ∀ hb, s.hb = some hb → hb.toInt64.toInt ≤ s.clock.toInt
  now : ∀ now, s.now = some now → ∃ hb, s.hb = some hb ∧ hb.toInt64.toInt ≤ now.toInt

/-- A step with such a clock keeps this. -/
theorem Past.step {s s' : State} {e : Event} (h : Past s) (hsteady : Steady s e)
    (hstep : Step s e s') : Past s' := by
  cases hstep with
  | tick t =>
    have hle : s.clock.toInt ≤ t.toInt := hsteady
    exact ⟨le_trans h.cell hle, fun t' ht => le_trans (h.stamp t' ht) hle,
      fun hb hhb => le_trans (h.hb hb hhb) hle, h.now⟩
  | readStamp =>
    refine ⟨h.cell, ?_, h.hb, h.now⟩
    rintro t ⟨⟩
    exact le_refl _
  | writeStamp t ht =>
    refine ⟨?_, by rintro t' ⟨⟩, h.hb, h.now⟩
    dsimp only
    rw [Int64.toInt64_toUInt64]
    exact h.stamp t ht
  | readClock =>
    refine ⟨h.cell, h.stamp, h.hb, ?_⟩
    rintro now ⟨⟩
    obtain ⟨hb, hhb⟩ := Option.ne_none_iff_exists'.mp hsteady
    exact ⟨hb, hhb, h.hb hb hhb⟩
  | readCell hnone =>
    refine ⟨h.cell, h.stamp, ?_, fun now hnow => ?_⟩
    · rintro hb ⟨⟩
      exact h.cell
    · obtain ⟨hb, hhb, -⟩ := h.now now hnow
      cases hnone.symm.trans hhb
  | verdict now hb => exact ⟨h.cell, h.stamp, by rintro hb ⟨⟩, by rintro now ⟨⟩⟩

/-- With such a clock and such a client the verdicts are right. -/
theorem right_of_steady {s : State} {tr : List (Event × State)}
    (h : (system.restrict Steady).Run s tr) (hs : Past s) : ∀ x ∈ tr, Right x.1 := by
  have hpast : ∀ s e s', Past s → (system.restrict Steady).step s e s' → Past s' :=
    fun s e s' hs hstep => hs.step hstep.1 hstep.2
  refine h.forall_label hpast ?_ hs
  rintro s e s' hs ⟨-, hstep⟩
  rw [right_iff hstep]
  cases hstep with
  | verdict now hb hnow hhb =>
    obtain ⟨hb', hhb', hle⟩ := hs.now now hnow
    obtain rfl := Option.some.inj (hhb.symm.trans hhb')
    exact .inl hle
  | _ => trivial

end HeartBeat
end Elb
