import Mathlib.Algebra.BigOperators.Ring.List
import Mathlib.Algebra.Order.Ring.Int
import Mathlib.Data.List.TakeWhile

/-!
# Numbers in text files

What `fprintf` writes with `%d` and `fscanf` reads with `%d`, on lists of characters. A file of rows
of numbers reads back as it was written: `readRows` is the loop that calls `fscanf` until it returns
`EOF`, and gives nothing when a call converts less than a whole row, since such a loop goes on with
what it had before.
-/

namespace Scanf

/-! ## One number -/

/-- `%d` of `fprintf`. -/
def printInt (x : ℤ) : List Char :=
  if x < 0 then '-' :: Nat.toDigits 10 x.natAbs else Nat.toDigits 10 x.natAbs

/-- `isspace`. -/
def isSpace (c : Char) : Bool :=
  c ∈ [' ', '\t', '\n', Char.ofNat 11, Char.ofNat 12, '\r']

/-- The sign and the digits that `%d` converts. -/
def scanDigits (neg : Bool) (cs : List Char) : Option (ℤ × List Char) :=
  let ds := cs.takeWhile Char.isDigit
  if ds.isEmpty then none
  else
    let n : ℤ := Nat.ofDigitChars 10 ds 0
    some (if neg then -n else n, cs.dropWhile Char.isDigit)

/-- `%d` of `fscanf`: white space is skipped, then comes a sign or not. -/
def scanInt (cs : List Char) : Option (ℤ × List Char) :=
  match cs.dropWhile isSpace with
  | '-' :: cs => scanDigits true cs
  | '+' :: cs => scanDigits false cs
  | cs => scanDigits false cs

/-- The text goes on with something else than a digit. -/
def Ends (rest : List Char) : Prop := ∀ c ∈ rest.head?, c.isDigit = false

/-- The digits end where a character follows that is none. -/
theorem takeWhile_of_ends {ds rest : List Char} (hds : ∀ c ∈ ds, c.isDigit = true)
    (h : Ends rest) :
    (ds ++ rest).takeWhile Char.isDigit = ds ∧ (ds ++ rest).dropWhile Char.isDigit = rest := by
  rw [List.takeWhile_append_of_pos hds, List.dropWhile_append_of_pos hds]
  cases rest with
  | nil => exact ⟨List.append_nil ds, rfl⟩
  | cons c rest =>
    have hc : ¬c.isDigit = true := by simp [h c rfl]
    rw [List.takeWhile_cons_of_neg hc, List.dropWhile_cons_of_neg hc]
    exact ⟨List.append_nil ds, rfl⟩

/-- A printed number is read back. -/
theorem scanDigits_toDigits (neg : Bool) (n : ℕ) {rest : List Char} (h : Ends rest) :
    scanDigits neg (Nat.toDigits 10 n ++ rest) = some (if neg then -(n : ℤ) else n, rest) := by
  have hall : ∀ c ∈ Nat.toDigits 10 n, c.isDigit = true := fun c hc =>
    Nat.isDigit_of_mem_toDigits (by omega) (le_refl 10) hc
  obtain ⟨htake, hdrop⟩ := takeWhile_of_ends hall h
  unfold scanDigits
  rw [htake, hdrop, if_neg (by simp [Nat.toDigits_ne_nil]), Nat.ofDigitChars_ten_toDigits]

/-- A digit is neither white space nor a sign. -/
theorem isDigit_ne {c : Char} (h : c.isDigit = true) : isSpace c = false ∧ c ≠ '-' ∧ c ≠ '+' := by
  refine ⟨?_, ?_, ?_⟩
  · rw [isSpace, decide_eq_false_iff_not]
    intro hmem
    simp only [List.mem_cons, List.not_mem_nil, or_false] at hmem
    rcases hmem with rfl | rfl | rfl | rfl | rfl | rfl <;> revert h <;> decide
  · rintro rfl
    revert h
    decide
  · rintro rfl
    revert h
    decide

/-- What is printed is scanned. -/
theorem scanInt_printInt (x : ℤ) {rest : List Char} (h : Ends rest) :
    scanInt (printInt x ++ rest) = some (x, rest) := by
  rw [printInt]
  split
  · next hneg =>
    have hspace : ¬isSpace '-' = true := by decide
    rw [List.cons_append, scanInt, List.dropWhile_cons_of_neg hspace]
    refine (scanDigits_toDigits true _ h).trans ?_
    rw [if_pos rfl, show -(x.natAbs : ℤ) = x by omega]
  · next hneg =>
    have hne : Nat.toDigits 10 x.natAbs ≠ [] := Nat.toDigits_ne_nil
    -- the first digit is taken for neither white space nor a sign
    obtain ⟨c, cs, hcs⟩ := List.exists_cons_of_ne_nil hne
    have hdigit : c.isDigit = true :=
      Nat.isDigit_of_mem_toDigits (b := 10) (n := x.natAbs) (by omega) (le_refl 10)
        (hcs ▸ List.mem_cons_self)
    obtain ⟨hspace, hminus, hplus⟩ := isDigit_ne hdigit
    have hscan := scanDigits_toDigits false x.natAbs h
    rw [hcs] at hscan ⊢
    rw [List.cons_append] at hscan ⊢
    rw [scanInt, List.dropWhile_cons_of_neg (by simp [hspace])]
    split
    · next heq => exact absurd (List.cons.inj heq).1 hminus
    · next heq => exact absurd (List.cons.inj heq).1 hplus
    · rw [hscan, if_neg Bool.false_ne_true, show (x.natAbs : ℤ) = x by omega]

/-- White space in front makes no difference. -/
theorem scanInt_cons {c : Char} (h : isSpace c = true) (cs : List Char) :
    scanInt (c :: cs) = scanInt cs := by
  rw [scanInt, List.dropWhile_cons_of_pos h, ← scanInt]

/-- There is no number where there is only white space. -/
theorem scanInt_of_space {cs : List Char} (h : cs.dropWhile isSpace = []) : scanInt cs = none := by
  rw [scanInt, h]
  rfl

/-! ## Rows of numbers -/

/-- A row: a blank between two numbers, and a newline at the end. -/
def printRow : List ℤ → List Char
  | [] => []
  | [x] => printInt x ++ ['\n']
  | x :: xs => printInt x ++ ' ' :: printRow xs

/-- The format of `n` times `%d`. -/
def scanInts : ℕ → List Char → Option (List ℤ × List Char)
  | 0, cs => some ([], cs)
  | n + 1, cs => do
    let (x, cs) ← scanInt cs
    let (xs, cs) ← scanInts n cs
    return (x :: xs, cs)

/-- The loop that reads rows of `n` numbers until `EOF`. -/
def readRows (n : ℕ) : ℕ → List Char → Option (List (List ℤ))
  | 0, _ => none
  | fuel + 1, cs =>
    if (cs.dropWhile isSpace).isEmpty then some []
    else do
      let (row, cs) ← scanInts n cs
      let rows ← readRows n fuel cs
      return row :: rows

/-- Every row takes at least one character, so there are no more rows than characters. -/
def readFile (n : ℕ) (text : List Char) : Option (List (List ℤ)) :=
  readRows n (text.length + 1) text

/-- A number has at least one digit. -/
theorem printInt_ne_nil (x : ℤ) : printInt x ≠ [] := by
  rw [printInt]
  split
  · exact List.cons_ne_nil _ _
  · exact Nat.toDigits_ne_nil

/-- So a row of numbers is not empty. -/
theorem printRow_ne_nil {row : List ℤ} (h : row ≠ []) : printRow row ≠ [] := by
  cases row with
  | nil => exact absurd rfl h
  | cons x xs => cases xs <;> simp [printRow, printInt_ne_nil]

/-- White space in front of a row makes no difference. -/
theorem scanInts_append {ws : List Char} (h : ∀ c ∈ ws, isSpace c = true) (n : ℕ)
    (cs : List Char) : scanInts (n + 1) (ws ++ cs) = scanInts (n + 1) cs := by
  induction ws with
  | nil => rfl
  | cons c ws ih =>
    rw [← ih fun c hc => h c (List.mem_cons_of_mem _ hc), List.cons_append, scanInts,
      scanInt_cons (h c List.mem_cons_self), ← scanInts]

/-- A row is scanned as it was printed, up to its newline. -/
theorem scanInts_printRow {row : List ℤ} (h : row ≠ []) (rest : List Char) :
    scanInts row.length (printRow row ++ rest) = some (row, '\n' :: rest) := by
  induction row with
  | nil => exact absurd rfl h
  | cons x xs ih =>
    cases xs with
    | nil =>
      have hx := scanInt_printInt x (show Ends ('\n' :: rest) by rintro c ⟨⟩; decide)
      rw [printRow, List.append_assoc, List.singleton_append, List.length_singleton, scanInts, hx]
      rfl
    | cons y ys =>
      have hends : Ends (' ' :: (printRow (y :: ys) ++ rest)) := by
        rintro c ⟨⟩
        decide
      have hx := scanInt_printInt x hends
      have hxs := ih (List.cons_ne_nil y ys)
      have hspace : ∀ c ∈ [' '], isSpace c = true := List.forall_mem_singleton.mpr rfl
      rw [List.length_cons, ← scanInts_append hspace, List.singleton_append] at hxs
      rw [printRow, List.append_assoc, List.cons_append, List.length_cons, List.length_cons,
        scanInts, hx, Option.bind_eq_bind, Option.bind_some]
      · dsimp only
        rw [hxs]
        rfl
      · exact List.cons_ne_nil y ys

/-- The loop reads the rows that were printed. -/
theorem readRows_printRow {n : ℕ} {rows : List (List ℤ)} (hlen : ∀ row ∈ rows, row.length = n + 1)
    {fuel : ℕ} (hfuel : rows.length < fuel) {ws : List Char} (hws : ∀ c ∈ ws, isSpace c = true) :
    readRows (n + 1) fuel (ws ++ rows.flatMap printRow) = some rows := by
  induction rows generalizing fuel ws with
  | nil =>
    obtain ⟨fuel, rfl⟩ := Nat.exists_eq_succ_of_ne_zero (Nat.ne_of_gt hfuel)
    have hnil : (ws ++ [].flatMap printRow).dropWhile isSpace = [] := by
      rw [List.flatMap_nil, List.append_nil]
      exact List.dropWhile_eq_nil_iff.mpr hws
    rw [readRows, hnil]
    rfl
  | cons row rows ih =>
    obtain ⟨fuel, rfl⟩ := Nat.exists_eq_succ_of_ne_zero (Nat.ne_of_gt (Nat.zero_lt_of_lt hfuel))
    have hrow : row ≠ [] := List.ne_nil_of_length_pos (by rw [hlen row List.mem_cons_self]; omega)
    have hscan : scanInts (n + 1) (ws ++ (row :: rows).flatMap printRow) =
        some (row, '\n' :: rows.flatMap printRow) := by
      rw [scanInts_append hws, List.flatMap_cons, ← hlen row List.mem_cons_self,
        scanInts_printRow hrow]
    -- there is a number to scan, so this is not the end of the file
    have hne : (ws ++ (row :: rows).flatMap printRow).dropWhile isSpace ≠ [] := by
      intro hnil
      rw [scanInts, scanInt_of_space hnil] at hscan
      cases hscan
    -- the newline that is left over comes in front of the next row
    have hnewline : ∀ c ∈ ['\n'], isSpace c = true := List.forall_mem_singleton.mpr rfl
    have hrest := ih (fun row hr => hlen row (List.mem_cons_of_mem _ hr))
      (Nat.lt_of_succ_lt_succ hfuel) hnewline
    rw [readRows, if_neg (by simpa using hne), hscan]
    rw [List.singleton_append] at hrest
    simp only [Option.bind_eq_bind, Option.bind_some, hrest]
    rfl

/-- A file of rows reads back as it was written. -/
theorem readFile_printRow {n : ℕ} {rows : List (List ℤ)}
    (hlen : ∀ row ∈ rows, row.length = n + 1) :
    readFile (n + 1) (rows.flatMap printRow) = some rows := by
  -- the fuel is enough: no row is printed as nothing
  have hlength : rows.length ≤ (rows.flatMap printRow).length := by
    induction rows with
    | nil => exact le_refl 0
    | cons row rows ih =>
      have hrow : row ≠ [] := List.ne_nil_of_length_pos (by rw [hlen row List.mem_cons_self]; omega)
      have hpos := List.length_pos_iff.mpr (printRow_ne_nil hrow)
      have hrows := ih fun row hr => hlen row (List.mem_cons_of_mem _ hr)
      rw [List.flatMap_cons, List.length_append, List.length_cons]
      omega
  have hnil : ∀ c ∈ ([] : List Char), isSpace c = true := by simp
  exact readRows_printRow hlen (Nat.lt_succ_of_le hlength) hnil

/-! ## Damaged input -/

/-- What a `%d` that finds no number leaves: what comes after the white space, without a sign. -/
def unread (cs : List Char) : List Char :=
  match cs.dropWhile isSpace with
  | '-' :: cs => cs
  | '+' :: cs => cs
  | cs => cs

/-- The numbers that a format of `n` times `%d` converts up to the first that is missing, and what
is left. -/
def convert : ℕ → List Char → List ℤ × List Char
  | 0, cs => ([], cs)
  | n + 1, cs =>
    match scanInt cs with
    | none => ([], unread cs)
    | some (x, cs) =>
      let (xs, cs) := convert n cs
      (x :: xs, cs)

/-- `fscanf` with a format of `n > 0` times `%d`. It returns `EOF` where there is nothing but white
space, and otherwise the count of the numbers that it converts. -/
def fscanf (n : ℕ) (cs : List Char) : Option (List ℤ × List Char) :=
  if (cs.dropWhile isSpace).isEmpty then none else some (convert n cs)

/-- The text starts with the number: white space, a sign or not, and all digits up to the rest. -/
def Starts (x : ℤ) (rest text : List Char) : Prop :=
  ∃ ws sign ds : List Char, (∀ c ∈ ws, isSpace c = true) ∧ sign ∈ [[], ['-'], ['+']] ∧
    ds ≠ [] ∧ (∀ c ∈ ds, c.isDigit = true) ∧ Ends rest ∧ text = ws ++ sign ++ ds ++ rest ∧
    x = if sign = ['-'] then -(Nat.ofDigitChars 10 ds 0 : ℤ) else Nat.ofDigitChars 10 ds 0

/-- The text consists of the numbers, and white space at its end. -/
inductive Numbers : List ℤ → List Char → Prop
  | nil {ws : List Char} (h : ∀ c ∈ ws, isSpace c = true) : Numbers [] ws
  | cons {x : ℤ} {xs : List ℤ} {rest text : List Char} (h : Starts x rest text)
      (ht : Numbers xs rest) : Numbers (x :: xs) text

/-- After all digits there is none. -/
theorem ends_dropWhile (cs : List Char) : Ends (cs.dropWhile Char.isDigit) := by
  intro c hc
  induction cs with
  | nil => cases hc
  | cons d cs ih =>
    by_cases hd : d.isDigit = true
    · rw [List.dropWhile_cons_of_pos hd] at hc
      exact ih hc
    · rw [List.dropWhile_cons_of_neg hd] at hc
      obtain rfl := Option.some.inj hc
      exact Bool.eq_false_iff.mpr hd

/-- What is read are all the digits in front, and there is at least one. -/
theorem scanDigits_eq_some_iff {neg : Bool} {cs rest : List Char} {x : ℤ} :
    scanDigits neg cs = some (x, rest) ↔ ∃ ds, ds ≠ [] ∧ (∀ c ∈ ds, c.isDigit = true) ∧
      Ends rest ∧ cs = ds ++ rest ∧
      x = if neg then -(Nat.ofDigitChars 10 ds 0 : ℤ) else Nat.ofDigitChars 10 ds 0 := by
  rw [scanDigits]
  constructor
  · intro h
    dsimp only at h
    split at h
    · cases h
    · next hne =>
      obtain ⟨rfl, rfl⟩ := Prod.mk.inj (Option.some.inj h)
      exact ⟨cs.takeWhile Char.isDigit, by simpa using hne, fun c => List.mem_takeWhile_imp,
        ends_dropWhile cs, List.takeWhile_append_dropWhile.symm, rfl⟩
  · rintro ⟨ds, hne, hds, hends, rfl, rfl⟩
    obtain ⟨htake, hdrop⟩ := takeWhile_of_ends hds hends
    rw [htake, hdrop, if_neg (by simpa using hne)]

/-- `%d` converts the number that the text starts with. -/
theorem scanInt_eq_some_iff {cs rest : List Char} {x : ℤ} :
    scanInt cs = some (x, rest) ↔ Starts x rest cs := by
  constructor
  · intro h
    have hcs : cs.takeWhile isSpace ++ cs.dropWhile isSpace = cs := List.takeWhile_append_dropWhile
    have hws : ∀ c ∈ cs.takeWhile isSpace, isSpace c = true := fun c => List.mem_takeWhile_imp
    rw [scanInt] at h
    split at h
    · next tl htl =>
      obtain ⟨ds, hne, hds, hends, rfl, rfl⟩ := scanDigits_eq_some_iff.mp h
      refine ⟨_, ['-'], ds, hws, by simp, hne, hds, hends, ?_, by simp⟩
      rw [List.append_assoc, List.append_assoc, List.singleton_append, ← htl, hcs]
    · next tl htl =>
      obtain ⟨ds, hne, hds, hends, rfl, rfl⟩ := scanDigits_eq_some_iff.mp h
      refine ⟨_, ['+'], ds, hws, by simp, hne, hds, hends, ?_, by simp⟩
      rw [List.append_assoc, List.append_assoc, List.singleton_append, ← htl, hcs]
    · obtain ⟨ds, hne, hds, hends, htl, rfl⟩ := scanDigits_eq_some_iff.mp h
      refine ⟨_, [], ds, hws, by simp, hne, hds, hends, ?_, by simp⟩
      rw [List.append_nil, List.append_assoc, ← htl, hcs]
  · rintro ⟨ws, sign, ds, hws, hsign, hne, hds, hends, rfl, rfl⟩
    have hscan : ∀ neg : Bool, scanDigits neg (ds ++ rest) = some (if neg then
        -(Nat.ofDigitChars 10 ds 0 : ℤ) else Nat.ofDigitChars 10 ds 0, rest) := fun neg =>
      scanDigits_eq_some_iff.mpr ⟨ds, hne, hds, hends, rfl, rfl⟩
    rw [List.append_assoc, List.append_assoc, scanInt, List.dropWhile_append_of_pos hws]
    simp only [List.mem_cons, List.not_mem_nil, or_false] at hsign
    rcases hsign with rfl | rfl | rfl
    · -- the first digit is taken for neither white space nor a sign
      obtain ⟨c, ds, rfl⟩ := List.exists_cons_of_ne_nil hne
      obtain ⟨hspace, hminus, hplus⟩ := isDigit_ne (hds c List.mem_cons_self)
      rw [List.nil_append, List.cons_append, List.dropWhile_cons_of_neg (by simp [hspace])]
      split
      · next heq => exact absurd (List.cons.inj heq).1 hminus
      · next heq => exact absurd (List.cons.inj heq).1 hplus
      · exact hscan false
    · have hspace : ¬isSpace '-' = true := by decide
      rw [List.singleton_append, List.dropWhile_cons_of_neg hspace]
      exact hscan true
    · have hspace : ¬isSpace '+' = true := by decide
      rw [List.singleton_append, List.dropWhile_cons_of_neg hspace]
      exact hscan false

/-- All numbers are converted exactly if the whole format can be scanned. -/
theorem scanInts_eq_some_iff {n : ℕ} {cs rest : List Char} {xs : List ℤ} :
    scanInts n cs = some (xs, rest) ↔ convert n cs = (xs, rest) ∧ xs.length = n := by
  induction n generalizing cs xs with
  | zero =>
    rw [scanInts, convert, Option.some.injEq]
    constructor
    · intro h
      exact ⟨h, by rw [← (Prod.mk.inj h).1]; rfl⟩
    · exact And.left
  | succ n ih =>
    rw [scanInts, convert]
    cases hx : scanInt cs with
    | none =>
      refine iff_of_false (by simp) ?_
      rintro ⟨heq, hlen⟩
      rw [← (Prod.mk.inj heq).1] at hlen
      cases hlen
    | some p =>
      obtain ⟨x, cs'⟩ := p
      rw [Option.bind_eq_bind, Option.bind_some]
      dsimp only
      constructor
      · intro h
        obtain ⟨⟨ys, rest'⟩, hys, heq⟩ := Option.bind_eq_some_iff.mp h
        obtain ⟨rfl, rfl⟩ := Prod.mk.inj (Option.some.inj heq)
        obtain ⟨hconv, hlen⟩ := ih.mp hys
        rw [hconv]
        exact ⟨rfl, congrArg Nat.succ hlen⟩
      · rintro ⟨heq, hlen⟩
        obtain ⟨rfl, rfl⟩ := Prod.mk.inj heq
        rw [ih.mpr ⟨rfl, Nat.succ.inj hlen⟩]
        rfl

/-- A text without numbers is one of spaces. -/
theorem numbers_nil_iff {text : List Char} : Numbers [] text ↔ text.dropWhile isSpace = [] := by
  rw [List.dropWhile_eq_nil_iff]
  constructor
  · rintro ⟨h⟩
    exact h
  · exact .nil

/-- A format takes the first numbers of the text. -/
theorem numbers_append_iff {xs ys : List ℤ} {text : List Char} :
    Numbers (xs ++ ys) text ↔ ∃ rest, scanInts xs.length text = some (xs, rest) ∧
      Numbers ys rest := by
  induction xs generalizing text with
  | nil => simp [scanInts]
  | cons x xs ih =>
    rw [List.cons_append, List.length_cons, scanInts]
    constructor
    · rintro ⟨⟩
      next rest₁ ht hx =>
      obtain ⟨rest, hxs, hys⟩ := ih.mp ht
      rw [scanInt_eq_some_iff.mpr hx, Option.bind_eq_bind, Option.bind_some]
      dsimp only
      rw [hxs]
      exact ⟨rest, rfl, hys⟩
    · rintro ⟨rest, hscan, hys⟩
      obtain ⟨⟨x', rest₁⟩, hx, hscan⟩ := Option.bind_eq_some_iff.mp hscan
      obtain ⟨⟨xs', rest'⟩, hxs, heq⟩ := Option.bind_eq_some_iff.mp hscan
      simp only [Option.pure_def, Option.some.injEq, Prod.mk.injEq, List.cons.injEq] at heq
      obtain ⟨⟨rfl, rfl⟩, rfl⟩ := heq
      exact .cons (scanInt_eq_some_iff.mp hx) (ih.mpr ⟨_, hxs, hys⟩)

/-- The rows that the loop reads are the numbers of the text. -/
theorem numbers_of_readRows {n fuel : ℕ} {text : List Char} {rows : List (List ℤ)}
    (h : readRows (n + 1) fuel text = some rows) :
    Numbers rows.flatten text ∧ ∀ row ∈ rows, row.length = n + 1 := by
  induction fuel generalizing text rows with
  | zero => cases h
  | succ fuel ih =>
    rw [readRows] at h
    split at h
    · next hend =>
      obtain rfl := Option.some.inj h
      exact ⟨numbers_nil_iff.mpr (by simpa using hend), by simp⟩
    · obtain ⟨⟨row, rest⟩, hrow, h⟩ := Option.bind_eq_some_iff.mp h
      obtain ⟨rows', hrows, heq⟩ := Option.bind_eq_some_iff.mp h
      obtain rfl := Option.some.inj heq
      obtain ⟨hnum, hlen⟩ := ih hrows
      have hcount := (scanInts_eq_some_iff.mp hrow).2
      rw [← hcount] at hrow
      exact ⟨numbers_append_iff.mpr ⟨rest, hrow, hnum⟩, List.forall_mem_cons.mpr ⟨hcount, hlen⟩⟩

/-- If the numbers make whole rows, then the loop reads them all. -/
theorem exists_readRows {n k : ℕ} {xs : List ℤ} {text : List Char} (h : Numbers xs text)
    (hlen : xs.length = k * (n + 1)) :
    ∃ rows, readRows (n + 1) (k + 1) text = some rows ∧ rows.flatten = xs := by
  induction k generalizing xs text with
  | zero =>
    rw [Nat.zero_mul, List.length_eq_zero_iff] at hlen
    subst hlen
    rw [readRows, numbers_nil_iff.mp h]
    exact ⟨[], rfl, rfl⟩
  | succ k ih =>
    have hn : n + 1 ≤ xs.length := by
      rw [hlen]
      exact Nat.le_mul_of_pos_left _ (Nat.succ_pos k)
    rw [← List.take_append_drop (n + 1) xs] at h
    obtain ⟨rest, hscan, hrest⟩ := numbers_append_iff.mp h
    rw [List.length_take_of_le hn] at hscan
    obtain ⟨rows, hrows, hflat⟩ := ih hrest (by
      rw [List.length_drop, hlen, Nat.succ_mul, Nat.add_sub_cancel])
    -- there is a number to scan, so this is not the end of the file
    have hne : text.dropWhile isSpace ≠ [] := by
      intro hnil
      rw [scanInts, scanInt_of_space hnil] at hscan
      cases hscan
    refine ⟨xs.take (n + 1) :: rows, ?_, ?_⟩
    · rw [readRows, if_neg (by simpa using hne), hscan, Option.bind_eq_bind, Option.bind_some]
      dsimp only
      rw [hrows]
      rfl
    · rw [List.flatten_cons, hflat, List.take_append_drop]

/-- The loop reads the text as rows exactly if the text consists of numbers that make whole rows. -/
theorem exists_readRows_iff {n : ℕ} {text : List Char} :
    (∃ fuel rows, readRows (n + 1) fuel text = some rows) ↔
      ∃ xs, Numbers xs text ∧ n + 1 ∣ xs.length := by
  constructor
  · rintro ⟨fuel, rows, h⟩
    obtain ⟨hnum, hlen⟩ := numbers_of_readRows h
    refine ⟨rows.flatten, hnum, ?_⟩
    rw [List.length_flatten]
    refine List.dvd_sum fun k hk => ?_
    obtain ⟨row, hrow, rfl⟩ := List.mem_map.mp hk
    rw [hlen row hrow]
  · rintro ⟨xs, hnum, k, hk⟩
    obtain ⟨rows, hrows, -⟩ := exists_readRows hnum (k := k) (hk.trans (Nat.mul_comm _ _))
    exact ⟨k + 1, rows, hrows⟩

end Scanf
