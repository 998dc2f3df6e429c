import Mathlib.Logic.Function.Basic
import Mathlib.Data.List.Basic

/-!
# Tables of overwritten rows

A table whose rows are written whole is a partial function. What it holds for a key depends on the
writes to that key alone, and is the last of them: writers that share no key do not see one another.
-/

namespace Overwrite

variable {α β : Type*} [DecidableEq α]

/-- Write one row. -/
def write (t : α → Option β) (w : α × β) : α → Option β := Function.update t w.1 (some w.2)

/-- A write to another key is not seen. -/
theorem write_of_ne (t : α → Option β) {w : α × β} {k : α} (h : w.1 ≠ k) : write t w k = t k :=
  Function.update_of_ne h.symm _ _

/-- Writes to other keys are not seen. -/
theorem foldl_write_of_ne (t : α → Option β) {ws : List (α × β)} {k : α} (h : ∀ w ∈ ws, w.1 ≠ k) :
    ws.foldl write t k = t k := by
  induction ws generalizing t with
  | nil => rfl
  | cons w ws ih =>
    rw [List.foldl_cons, ih _ fun w' hw' => h w' (List.mem_cons_of_mem _ hw')]
    exact write_of_ne t (h w List.mem_cons_self)

/-- Tables that agree on a key still do after the same writes. -/
theorem foldl_write_congr {t t' : α → Option β} {k : α} (h : t k = t' k) (ws : List (α × β)) :
    ws.foldl write t k = ws.foldl write t' k := by
  induction ws generalizing t t' with
  | nil => exact h
  | cons w ws ih =>
    apply ih
    by_cases hk : w.1 = k
    · rw [← hk, write, write, Function.update_self, Function.update_self]
    · rw [write_of_ne t hk, write_of_ne t' hk, h]

/-- The last write to a key is what the table holds. -/
theorem foldl_write_last (t : α → Option β) (before after : List (α × β)) (w : α × β)
    (h : ∀ w' ∈ after, w'.1 ≠ w.1) : (before ++ w :: after).foldl write t w.1 = some w.2 := by
  rw [List.foldl_append, List.foldl_cons, foldl_write_of_ne _ h, write, Function.update_self]

end Overwrite
