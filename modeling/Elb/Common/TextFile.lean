import Elb.Common.Scanf
import Mathlib.Data.List.DropRight

/-!
# Text files line by line

What a Python program gets when it goes through a text file: the lines, `strip` and `split` of a
line, and `int` of a word. Rows of numbers that `fprintf` has written are found again.
-/

namespace TextFile

open Scanf

/-! ## Lines and words -/

/-- The lines of a file, each with the newline at its end. The last one may have none. -/
def lines : List Char → List (List Char)
  | [] => []
  | c :: cs =>
    if c = '\n' then [c] :: lines cs
    else
      match lines cs with
      | [] => [[c]]
      | line :: rest => (c :: line) :: rest

/-- `line.strip()`. -/
def strip (line : List Char) : List Char :=
  (line.dropWhile isSpace).rdropWhile isSpace

/-- `line.split()`: the pieces between white space that are not empty. -/
def split (line : List Char) : List (List Char) :=
  (line.splitOnP isSpace).filter fun word => !word.isEmpty

/-- `int(word)`, which takes nothing but a number. -/
def int (word : List Char) : Option ℤ :=
  match scanInt word with
  | some (x, []) => some x
  | _ => none

/-- The text before the first newline belongs to the first line. -/
theorem lines_append {cs line text : List Char} {rest : List (List Char)}
    (h : ∀ c ∈ cs, c ≠ '\n') (htext : lines text = line :: rest) :
    lines (cs ++ text) = (cs ++ line) :: rest := by
  induction cs with
  | nil => exact htext
  | cons c cs ih =>
    obtain ⟨hc, hcs⟩ := List.forall_mem_cons.mp h
    rw [List.cons_append, lines, if_neg hc, ih hcs]
    rfl

/-! ## Words -/

/-- White space separates the words. -/
theorem split_append_cons (cs : List Char) {c : Char} (h : isSpace c = true) (cs' : List Char) :
    split (cs ++ c :: cs') = split cs ++ split cs' := by
  rw [split, List.splitOnP_append_cons cs cs' h, List.filter_append]
  rfl

/-- A word stands for itself. -/
theorem split_word {word : List Char} (hne : word ≠ []) (h : ∀ c ∈ word, isSpace c = false) :
    split word = [word] := by
  have hkeep : (!word.isEmpty) = true := by simpa using hne
  rw [split, List.splitOnP_eq_singleton h]
  exact List.filter_cons_of_pos hkeep

/-- White space at the start makes no difference. -/
theorem split_dropWhile (cs : List Char) : split (cs.dropWhile isSpace) = split cs := by
  induction cs with
  | nil => rfl
  | cons c cs ih =>
    by_cases hc : isSpace c = true
    · rw [List.dropWhile_cons_of_pos hc, ih]
      exact (split_append_cons [] hc cs).symm
    · rw [List.dropWhile_cons_of_neg hc]

/-- White space at the end makes no difference. -/
theorem split_rdropWhile (cs : List Char) : split (cs.rdropWhile isSpace) = split cs := by
  induction cs using List.reverseRecOn with
  | nil => rfl
  | append_singleton cs c ih =>
    by_cases hc : isSpace c = true
    · rw [List.rdropWhile_concat_pos _ _ _ hc, ih, split_append_cons cs hc []]
      exact (List.append_nil _).symm
    · rw [List.rdropWhile_concat_neg _ _ _ hc]

/-- `split` looks at the words only, so that `strip` before it does nothing. -/
theorem split_strip (line : List Char) : split (strip line) = split line := by
  rw [strip, split_rdropWhile, split_dropWhile]

/-! ## Printed numbers -/

/-- There is no white space in a number. -/
theorem isSpace_of_mem_printInt {x : ℤ} {c : Char} (h : c ∈ printInt x) : isSpace c = false := by
  have hdigit : ∀ c ∈ Nat.toDigits 10 x.natAbs, isSpace c = false := fun c hc =>
    (isDigit_ne (Nat.isDigit_of_mem_toDigits (by omega) (le_refl 10) hc)).1
  rw [printInt] at h
  split at h
  · rcases List.mem_cons.mp h with rfl | h
    · decide
    · exact hdigit c h
  · exact hdigit c h

/-- A printed number reads back with `int`. -/
theorem int_printInt (x : ℤ) : int (printInt x) = some x := by
  have hends : Ends [] := by
    intro c hc
    cases hc
  have hscan := scanInt_printInt x hends
  rw [List.append_nil] at hscan
  rw [int, hscan]

/-- The words of a printed row are its numbers. -/
theorem split_printRow (row : List ℤ) : split (printRow row) = row.map printInt := by
  induction row with
  | nil => rfl
  | cons x xs ih =>
    have hx : split (printInt x) = [printInt x] :=
      split_word (printInt_ne_nil x) fun c => isSpace_of_mem_printInt
    cases xs with
    | nil =>
      have hnewline : isSpace '\n' = true := by decide
      rw [printRow, split_append_cons _ hnewline, hx]
      rfl
    | cons y ys =>
      have hblank : isSpace ' ' = true := by decide
      rw [printRow, split_append_cons _ hblank, hx, ih]
      · rfl
      · exact List.cons_ne_nil y ys

/-- A printed row is a line. -/
theorem lines_printRow {row : List ℤ} (h : row ≠ []) (text : List Char) :
    lines (printRow row ++ text) = printRow row :: lines text := by
  have hprint : ∀ x : ℤ, ∀ c ∈ printInt x, c ≠ '\n' := by
    rintro x c hc rfl
    cases isSpace_of_mem_printInt hc
  induction row with
  | nil => exact absurd rfl h
  | cons x xs ih =>
    cases xs with
    | nil =>
      have hnewline : lines ('\n' :: text) = ['\n'] :: lines text := if_pos rfl
      rw [printRow, List.append_assoc]
      exact lines_append (hprint x) hnewline
    | cons y ys =>
      have hblank : ∀ c ∈ printInt x ++ [' '], c ≠ '\n' := by
        intro c hc
        rcases List.mem_append.mp hc with hc | hc
        · exact hprint x c hc
        · rw [List.mem_singleton.mp hc]
          decide
      have hrest := lines_append hblank (ih (List.cons_ne_nil y ys))
      rw [printRow]
      · simpa only [List.append_assoc, List.cons_append, List.nil_append] using hrest
      · exact List.cons_ne_nil y ys

/-- The lines of a file of rows are the rows. -/
theorem lines_flatMap_printRow {rows : List (List ℤ)} (h : ∀ row ∈ rows, row ≠ []) :
    lines (rows.flatMap printRow) = rows.map printRow := by
  induction rows with
  | nil => rfl
  | cons row rows ih =>
    obtain ⟨hrow, hrows⟩ := List.forall_mem_cons.mp h
    rw [List.flatMap_cons, lines_printRow hrow, ih hrows, List.map_cons]

/-! ## Files that are cut off -/

/-- The newline at the end of a row is its only one. -/
theorem exists_printRow_eq {row : List ℤ} (h : row ≠ []) :
    ∃ cs, printRow row = cs ++ ['\n'] ∧ '\n' ∉ cs := by
  have hprint : ∀ x : ℤ, '\n' ∉ printInt x := fun x hmem => by cases isSpace_of_mem_printInt hmem
  induction row with
  | nil => exact absurd rfl h
  | cons x xs ih =>
    cases xs with
    | nil => exact ⟨printInt x, rfl, hprint x⟩
    | cons y ys =>
      obtain ⟨cs, heq, hcs⟩ := ih (List.cons_ne_nil y ys)
      refine ⟨printInt x ++ ' ' :: cs, ?_, ?_⟩
      · rw [printRow, heq, List.append_assoc]
        · rfl
        · exact List.cons_ne_nil y ys
      · simp [hprint x, hcs]

/-- A file of rows that is not cut off ends behind a newline, if it is not empty. -/
theorem eq_newline_of_getLast? (rows : List (List ℤ)) :
    ∀ c ∈ (rows.flatMap printRow).getLast?, c = '\n' := by
  induction rows with
  | nil => simp
  | cons row rows ih =>
    intro c hc
    rw [List.flatMap_cons, List.getLast?_append, Option.mem_def, Option.or_eq_some_iff] at hc
    rcases hc with hc | ⟨-, hc⟩
    · exact ih c hc
    · rcases eq_or_ne row [] with rfl | hrow
      · cases hc
      · obtain ⟨cs, heq, -⟩ := exists_printRow_eq hrow
        rw [heq, List.getLast?_concat] at hc
        exact (Option.some.inj hc).symm

/-- What is left of a file of rows that is cut off behind a newline, or right at its start, are the
first rows. -/
theorem exists_take_of_isPrefix {rows : List (List ℤ)} (h : ∀ row ∈ rows, row ≠ [])
    {text : List Char} (hpre : text <+: rows.flatMap printRow)
    (hend : ∀ c ∈ text.getLast?, c = '\n') :
    ∃ n, text = (rows.take n).flatMap printRow := by
  induction rows generalizing text with
  | nil => exact ⟨0, List.prefix_nil.mp hpre⟩
  | cons row rows ih =>
    obtain ⟨hrow, hrows⟩ := List.forall_mem_cons.mp h
    obtain ⟨cut, hcut⟩ := hpre
    rw [List.flatMap_cons] at hcut
    -- either the cut is in the first row, or behind it
    rcases List.append_eq_append_iff.mp hcut with ⟨left, hleft, -⟩ | ⟨text', rfl, hrest⟩
    · rcases List.eq_nil_or_concat left with rfl | ⟨left, c, rfl⟩
      · exact ⟨1, by rw [List.append_nil] at hleft; simp [hleft]⟩
      · -- a piece of a row has no newline
        obtain ⟨cs, heq, hcs⟩ := exists_printRow_eq hrow
        rw [heq, List.concat_eq_append, ← List.append_assoc] at hleft
        obtain ⟨rfl, -⟩ := List.append_inj' hleft rfl
        refine ⟨0, List.getLast?_eq_none_iff.mp (Option.eq_none_iff_forall_ne_some.mpr ?_)⟩
        intro d hd
        obtain rfl := hend d hd
        exact hcs (List.mem_append_left _ (List.mem_of_getLast? hd))
    · have hend' : ∀ c ∈ text'.getLast?, c = '\n' := fun c hc =>
        hend c (by rw [List.getLast?_append, Option.mem_def.mp hc]; rfl)
      obtain ⟨n, rfl⟩ := ih hrows ⟨cut, hrest.symm⟩ hend'
      exact ⟨n + 1, rfl⟩

end TextFile
