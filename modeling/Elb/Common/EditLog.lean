import Mathlib.Data.List.Induction

/-!
# Logs of insertions and deletions

A table is written to by insertions of a row and by deletions of all rows that are equal to one. It
then holds a row exactly if the last edit of the row was an insertion.
-/

namespace EditLog

variable {α : Type*}

/-- An insertion or a deletion of an item. -/
structure Edit (α : Type*) where
  inserts : Bool
  item : α

variable [DecidableEq α]

/-- The rows after the edit. -/
def Edit.apply (e : Edit α) (rows : List α) : List α :=
  if e.inserts then rows ++ [e.item] else rows.filter (· ≠ e.item)

/-- The rows after all edits of an empty table. -/
def replay (es : List (Edit α)) : List α := es.foldl (fun rows e => e.apply rows) []

/-- The last edit of the item inserted it. -/
def Inserted (es : List (Edit α)) (a : α) : Prop :=
  (es.reverse.find? fun e => e.item = a).any Edit.inserts = true

/-- An edit is about its own row only. -/
theorem mem_apply (e : Edit α) (rows : List α) (a : α) :
    a ∈ e.apply rows ↔ if e.item = a then e.inserts = true else a ∈ rows := by
  unfold Edit.apply
  by_cases heq : e.item = a
  · subst heq
    cases e.inserts <;> simp
  · have hne : a ≠ e.item := Ne.symm heq
    cases e.inserts <;> simp [heq, hne]

/-- The last edit of a row decides. -/
theorem inserted_concat (es : List (Edit α)) (e : Edit α) (a : α) :
    Inserted (es ++ [e]) a ↔ if e.item = a then e.inserts = true else Inserted es a := by
  unfold Inserted
  rw [List.reverse_append, List.reverse_singleton, List.singleton_append, List.find?_cons]
  by_cases heq : e.item = a <;> simp [heq]

/-- The last edit of a row decides. -/
theorem mem_replay (es : List (Edit α)) (a : α) : a ∈ replay es ↔ Inserted es a := by
  induction es using List.reverseRecOn with
  | nil => simp [replay, Inserted]
  | append_singleton es e ih =>
    rw [inserted_concat, ← ih, replay, List.foldl_append, List.foldl_cons, List.foldl_nil,
      mem_apply, replay]

/-- Edits of other rows make no difference. -/
theorem inserted_append {es es' : List (Edit α)} {a : α} (h : ∀ e ∈ es', e.item ≠ a) :
    Inserted (es ++ es') a ↔ Inserted es a := by
  have hnone : (es'.reverse.find? fun e => e.item = a) = none := by
    rw [List.find?_eq_none]
    intro e he
    simpa using h e (List.mem_reverse.mp he)
  unfold Inserted
  rw [List.reverse_append, List.find?_append, hnone, Option.none_or]

end EditLog
