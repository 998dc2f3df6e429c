import Elb.Api.StaticRoute

/-!
# Damaged backup files

Reference: `StaticRoute::getHost` in `api/cpp/elbApi/StaticRoute.h`; `RouteLB::persistRoute` in
`lbagent/src/RouteLb.cc`.

The agent writes over its file in place, so that it is cut off if the agent dies meanwhile. A loop
of `getHost` ends when `fscanf` returns `EOF`, and only then: it does not look at how many numbers
were converted. Where there is no number, `fscanf` stays where it is and the loop goes on for ever;
where a record is cut off, its last variables have what they had before.
-/

namespace Elb

open Scanf

namespace StaticRoute

/-! ## The loops -/

/-- The variables of a block, which are declared without a value. -/
structure Vars where
  imodid : Int32
  icmdid : Int32
  iip : Int32
  iport : Int32
  deriving DecidableEq, Repr

/-- What `%d` stores: the number as a `long`, or the nearest one, cut to an `int`. -/
def store (x : ℤ) : Int32 :=
  Int32.ofInt (max (-2 ^ 63) (min x (2 ^ 63 - 1)))

/-- `fscanf` stores the numbers that it converts, in the order of its arguments. -/
def Vars.assign (v : Vars) : List ℤ → Vars
  | [] => v
  | [imodid] => { v with imodid := store imodid }
  | [imodid, icmdid] => { v with imodid := store imodid, icmdid := store icmdid }
  | [imodid, icmdid, iip] => ⟨store imodid, store icmdid, store iip, v.iport⟩
  | imodid :: icmdid :: iip :: iport :: _ =>
    ⟨store imodid, store icmdid, store iip, store iport⟩

/-- A pass of a loop: the numbers that `fscanf` has converted, and the variables after that. -/
structure Pass where
  read : List ℤ
  vars : Vars
  deriving DecidableEq, Repr

/-- The body of the loops. -/
def Pass.push (route : HashMap UInt64 (List HostType)) (p : Pass) :
    HashMap UInt64 (List HostType) :=
  route.pushBack (packKey p.vars.imodid p.vars.icmdid)
    (PythonClient.sAddr p.vars.iip, p.vars.iport)

/-- The passes of a loop, if it ends. -/
def readLoop : ℕ → Vars → List Char → Option (List Pass)
  | 0, _, _ => none
  | fuel + 1, v, text =>
    match fscanf 4 text with
    | none => some []
    | some (xs, text) => do
      let passes ← readLoop fuel (v.assign xs) text
      return ⟨xs, v.assign xs⟩ :: passes

/-- The passes of a block. `fopen` fails if the file is missing. -/
def readBlock (fuel : ℕ) (v : Vars) : Option (List Char) → Option (List Pass)
  | none => some []
  | some text => readLoop fuel v text

/-- The passes of the three blocks. -/
def readFiles (fuel : ℕ) (garbage : ℕ → Vars) (disk : Disk) : Option (List Pass) := do
  let first ← readBlock fuel (garbage 1) (disk 1)
  let second ← readBlock fuel (garbage 2) (disk 2)
  let third ← readBlock fuel (garbage 3) (disk 3)
  return first ++ second ++ third

/-- The map that `StaticRoute::getHost` loads when it has none. -/
def loadRoute (fuel : ℕ) (garbage : ℕ → Vars) (disk : Disk) :
    Option (HashMap UInt64 (List HostType)) :=
  (readFiles fuel garbage disk).map fun passes => passes.foldl Pass.push ∅

/-- The host that the pass adds is a record of four numbers. -/
def Pass.Complete (p : Pass) : Prop :=
  ∃ imodid icmdid iip iport, p = ⟨[imodid, icmdid, iip, iport],
    ⟨store imodid, store icmdid, store iip, store iport⟩⟩

/-- The loops end, and every host that they add is a complete record. -/
def LoadsRecords (garbage : ℕ → Vars) (disk : Disk) : Prop :=
  ∃ fuel passes, readFiles fuel garbage disk = some passes ∧ ∀ p ∈ passes, p.Complete

/-- The file consists of numbers that make whole records. -/
def WellFormed (text : List Char) : Prop := ∃ xs, Numbers xs text ∧ 4 ∣ xs.length

/-! ## One loop -/

/-- More fuel makes no difference. -/
theorem readLoop_mono {fuel fuel' : ℕ} (hle : fuel ≤ fuel') {v : Vars} {text : List Char}
    {passes : List Pass} (h : readLoop fuel v text = some passes) :
    readLoop fuel' v text = some passes := by
  induction fuel generalizing fuel' v text passes with
  | zero => cases h
  | succ fuel ih =>
    obtain ⟨fuel', rfl⟩ := Nat.exists_eq_succ_of_ne_zero (Nat.ne_of_gt (Nat.zero_lt_of_lt hle))
    cases hscan : fscanf 4 text with
    | none =>
      simp only [readLoop, hscan] at h ⊢
      exact h
    | some p =>
      simp only [readLoop, hscan] at h ⊢
      obtain ⟨passes', hpasses, heq⟩ := Option.bind_eq_some_iff.mp h
      rw [ih (Nat.le_of_succ_le_succ hle) hpasses]
      exact heq

/-- A pass is complete if the conversion has read four numbers. -/
theorem assign_complete {v : Vars} {xs : List ℤ} :
    (⟨xs, v.assign xs⟩ : Pass).Complete ↔ xs.length = 4 := by
  constructor
  · rintro ⟨a, b, c, d, h⟩
    rw [(Pass.mk.inj h).1]
    rfl
  · intro h
    obtain ⟨a, b, c, d, rfl⟩ := List.length_eq_four.mp h
    exact ⟨a, b, c, d, rfl⟩

/-- The loop makes complete passes only exactly if the text can be read as rows, and these are what
it reads. -/
theorem readRows_eq_some_iff {fuel : ℕ} (v : Vars) {text : List Char} {rows : List (List ℤ)} :
    readRows 4 fuel text = some rows ↔ ∃ passes, readLoop fuel v text = some passes ∧
      (∀ p ∈ passes, p.Complete) ∧ passes.map Pass.read = rows := by
  -- on the passes; the rows stop where a pass is not complete
  induction fuel generalizing v text rows with
  | zero => simp [readRows, readLoop]
  | succ fuel ih =>
    rw [readRows, readLoop, fscanf]
    split
    · constructor
      · intro h
        exact ⟨[], rfl, by simp, Option.some.inj h⟩
      · rintro ⟨passes, h, -, rfl⟩
        rw [← Option.some.inj h]
        rfl
    · dsimp only
      constructor
      · intro h
        obtain ⟨⟨row, rest⟩, hrow, h⟩ := Option.bind_eq_some_iff.mp h
        obtain ⟨rows', hrows, heq⟩ := Option.bind_eq_some_iff.mp h
        obtain rfl := Option.some.inj heq
        obtain ⟨hconv, hlen⟩ := scanInts_eq_some_iff.mp hrow
        rw [hconv]
        obtain ⟨passes, hpasses, hcomplete, rfl⟩ := (ih (v.assign row)).mp hrows
        refine ⟨⟨row, v.assign row⟩ :: passes, ?_, ?_, rfl⟩
        · dsimp only
          rw [hpasses]
          rfl
        · exact List.forall_mem_cons.mpr ⟨assign_complete.mpr hlen, hcomplete⟩
      · rintro ⟨passes, h, hcomplete, rfl⟩
        obtain ⟨passes', hpasses, heq⟩ := Option.bind_eq_some_iff.mp h
        obtain rfl := Option.some.inj heq
        generalize hconv : convert 4 text = p at *
        obtain ⟨hrow, hcomplete⟩ := List.forall_mem_cons.mp hcomplete
        have hscan := scanInts_eq_some_iff.mpr ⟨hconv, assign_complete.mp hrow⟩
        have hrows := (ih _).mpr ⟨passes', hpasses, hcomplete, rfl⟩
        rw [hscan, Option.bind_eq_bind, Option.bind_some]
        dsimp only
        rw [hrows]
        rfl

/-- The loop ends with complete passes only exactly if the file is well formed. -/
theorem exists_readLoop_iff (v : Vars) {text : List Char} :
    (∃ fuel passes, readLoop fuel v text = some passes ∧ ∀ p ∈ passes, p.Complete) ↔
      WellFormed text := by
  refine Iff.trans ?_ (exists_readRows_iff (n := 3))
  constructor
  · rintro ⟨fuel, passes, h, hcomplete⟩
    exact ⟨fuel, _, (readRows_eq_some_iff v).mpr ⟨passes, h, hcomplete, rfl⟩⟩
  · rintro ⟨fuel, rows, h⟩
    obtain ⟨passes, h, hcomplete, -⟩ := (readRows_eq_some_iff v).mp h
    exact ⟨fuel, passes, h, hcomplete⟩

/-- Where something comes that is no part of a number, the loop does not end. -/
theorem readLoop_stuck {c : Char} (hspace : isSpace c = false) (hdigit : c.isDigit = false)
    (hsign : c ≠ '-' ∧ c ≠ '+') (fuel : ℕ) (v : Vars) (rest : List Char) :
    readLoop fuel v (c :: rest) = none := by
  have hdrop : (c :: rest).dropWhile isSpace = c :: rest :=
    List.dropWhile_cons_of_neg (by simp [hspace])
  have hscan : scanInt (c :: rest) = none := by
    rw [scanInt, hdrop]
    split
    · next heq => exact absurd (List.cons.inj heq).1 hsign.1
    · next heq => exact absurd (List.cons.inj heq).1 hsign.2
    · rw [scanDigits, List.takeWhile_cons_of_neg (by simp [hdigit])]
      rfl
  have hunread : unread (c :: rest) = c :: rest := by
    rw [unread, hdrop]
    split
    · next heq => exact absurd (List.cons.inj heq).1 hsign.1
    · next heq => exact absurd (List.cons.inj heq).1 hsign.2
    · rfl
  -- nothing is taken from the text, and so every pass is like the one before
  induction fuel with
  | zero => rfl
  | succ fuel ih =>
    rw [readLoop, fscanf, hdrop, if_neg (by simp), convert, hscan, hunread]
    dsimp only [Vars.assign]
    rw [ih]
    rfl

/-! ## The three files -/

/-- A missing file adds nothing, and a file that is there has to be well formed. -/
theorem exists_readBlock_iff (v : Vars) {file : Option (List Char)} :
    (∃ fuel passes, readBlock fuel v file = some passes ∧ ∀ p ∈ passes, p.Complete) ↔
      ∀ text ∈ file, WellFormed text := by
  cases file with
  | none => exact iff_of_true ⟨0, [], rfl, by simp⟩ (by simp)
  | some text =>
    simp only [Option.mem_def, Option.some.injEq, forall_eq']
    exact exists_readLoop_iff v

/-- More fuel changes nothing once the block has ended. -/
theorem readBlock_mono {fuel fuel' : ℕ} (hle : fuel ≤ fuel') {v : Vars}
    {file : Option (List Char)} {passes : List Pass} (h : readBlock fuel v file = some passes) :
    readBlock fuel' v file = some passes := by
  cases file with
  | none => exact h
  | some text => exact readLoop_mono hle h

/-- The three blocks run one after another. -/
theorem readFiles_eq_some_iff {fuel : ℕ} {garbage : ℕ → Vars} {disk : Disk}
    {passes : List Pass} :
    readFiles fuel garbage disk = some passes ↔ ∃ first second third,
      readBlock fuel (garbage 1) (disk 1) = some first ∧
      readBlock fuel (garbage 2) (disk 2) = some second ∧
      readBlock fuel (garbage 3) (disk 3) = some third ∧ passes = first ++ second ++ third := by
  simp only [readFiles, Option.bind_eq_bind, Option.bind_eq_some_iff, Option.pure_def,
    Option.some.injEq]
  constructor
  · rintro ⟨first, h1, second, h2, third, h3, heq⟩
    exact ⟨first, second, third, h1, h2, h3, heq.symm⟩
  · rintro ⟨first, second, third, h1, h2, h3, heq⟩
    exact ⟨first, h1, second, h2, third, h3, heq.symm⟩

/-- For any content of the files and whatever the variables have at first: the loops end, and add
complete records only, exactly if every file that is there is well formed. -/
theorem loadsRecords_iff (garbage : ℕ → Vars) (disk : Disk) :
    LoadsRecords garbage disk ↔ ∀ n ∈ [1, 2, 3], ∀ text ∈ disk n, WellFormed text := by
  simp only [List.forall_mem_cons, List.not_mem_nil, false_imp_iff, implies_true, and_true]
  rw [← exists_readBlock_iff (garbage 1), ← exists_readBlock_iff (garbage 2),
    ← exists_readBlock_iff (garbage 3)]
  constructor
  · rintro ⟨fuel, passes, h, hcomplete⟩
    obtain ⟨first, second, third, h1, h2, h3, rfl⟩ := readFiles_eq_some_iff.mp h
    simp only [List.forall_mem_append] at hcomplete
    obtain ⟨⟨c1, c2⟩, c3⟩ := hcomplete
    exact ⟨⟨fuel, first, h1, c1⟩, ⟨fuel, second, h2, c2⟩, fuel, third, h3, c3⟩
  · rintro ⟨⟨fuel1, first, h1, c1⟩, ⟨fuel2, second, h2, c2⟩, fuel3, third, h3, c3⟩
    refine ⟨fuel1 + fuel2 + fuel3, first ++ second ++ third, ?_, ?_⟩
    · exact readFiles_eq_some_iff.mpr ⟨first, second, third, readBlock_mono (by omega) h1,
        readBlock_mono (by omega) h2, readBlock_mono (by omega) h3, rfl⟩
    · simp only [List.forall_mem_append]
      exact ⟨⟨c1, c2⟩, c3⟩

/-- The record is cut off after the third number, so that a host comes out that is in no record: its
port is the one of the record before. Another file has a character that is part of no number, and
the loop stays there. -/
theorem not_loadsRecords :
    ¬(∀ garbage disk, LoadsRecords garbage disk) ∧
      (∀ garbage, readLoop 3 garbage "1 2 10 80\n1 2 33".toList =
        some [⟨[1, 2, 10, 80], ⟨1, 2, 10, 80⟩⟩, ⟨[1, 2, 33], ⟨1, 2, 33, 80⟩⟩]) ∧
      ∀ fuel garbage, readLoop fuel garbage "x".toList = none := by
  -- the loop is stuck whatever the fuel is
  have hstuck : ∀ fuel garbage, readLoop fuel garbage "x".toList = none := fun fuel garbage =>
    readLoop_stuck (by decide) (by decide) (by decide) fuel garbage []
  refine ⟨fun hall => ?_, fun garbage => by rfl, hstuck⟩
  obtain ⟨fuel, passes, h, -⟩ := hall (fun _ => ⟨0, 0, 0, 0⟩) fun _ => some "x".toList
  obtain ⟨first, -, -, hfirst, -⟩ := readFiles_eq_some_iff.mp h
  cases (hstuck fuel _).symm.trans hfirst

/-! ## Files that are written whole -/

/-- A record is added as it was read. -/
theorem push_eq_addRow {p : Pass} (h : p.Complete)
    (hlong : ∀ x ∈ p.read, -2 ^ 63 ≤ x ∧ x < 2 ^ 63) (route : HashMap UInt64 (List HostType)) :
    Pass.push route p = addRow route p.read := by
  have hstore : ∀ x : ℤ, -2 ^ 63 ≤ x ∧ x < 2 ^ 63 → store x = Int32.ofInt x := by
    rintro x ⟨hlow, hhigh⟩
    rw [store, min_eq_left (by omega), max_eq_right hlow]
  obtain ⟨imodid, icmdid, iip, iport, rfl⟩ := h
  simp only [List.forall_mem_cons] at hlong
  obtain ⟨h1, h2, h3, h4, -⟩ := hlong
  rw [Pass.push, addRow, hstore _ h1, hstore _ h2, hstore _ h3, hstore _ h4]

/-- What a table prints fits in an `int`. -/
theorem row_long (lb : LB) (hi : HI) : ∀ x ∈ lb.row hi, -2 ^ 63 ≤ x ∧ x < 2 ^ 63 := by
  have hint : ∀ x : Int32, -2 ^ 63 ≤ x.toInt ∧ x.toInt < 2 ^ 63 := by
    intro x
    have hlow := x.le_toInt
    have hhigh := x.toInt_lt
    omega
  simp only [LB.row, List.forall_mem_cons, List.not_mem_nil, false_imp_iff, implies_true, and_true]
  exact ⟨hint _, hint _, hint _, hint _⟩

/-- A block reads the file of a table as `loadFile` does. -/
theorem exists_readBlock_persist (v : Vars) {disk : Disk} {n : ℕ}
    (h : ∀ text ∈ disk n, ∃ s : RouteLB, text = s.persist) :
    ∃ fuel passes, readBlock fuel v (disk n) = some passes ∧
      ∀ route, loadFile disk route n = some (passes.foldl Pass.push route) := by
  cases hfile : disk n with
  | none =>
    refine ⟨0, [], rfl, fun route => ?_⟩
    rw [loadFile, hfile]
    rfl
  | some text =>
    obtain ⟨s, rfl⟩ := h text hfile
    obtain ⟨passes, hpasses, hcomplete, hread⟩ :=
      (readRows_eq_some_iff v).mp (readFile_persist s)
    refine ⟨s.persist.length + 1, passes, hpasses, fun route => ?_⟩
    have hlong : ∀ p ∈ passes, ∀ x ∈ p.read, -2 ^ 63 ≤ x ∧ x < 2 ^ 63 := by
      intro p hp
      have hrow := List.mem_map_of_mem (f := Pass.read) hp
      rw [hread] at hrow
      obtain ⟨r, -, heq⟩ := List.mem_map.mp hrow
      rw [← heq]
      exact row_long r.1 r.2
    rw [loadFile, hfile]
    dsimp only
    rw [readFile_persist, Option.map_some, ← hread, List.foldl_map]
    refine congrArg some (List.foldl_ext _ _ _ fun route p hp => ?_)
    exact (push_eq_addRow (hcomplete p hp) (hlong p hp) route).symm

/-- So the loops load what `loadFile` says when every file is there whole or not at all. -/
theorem exists_loadRoute_eq (garbage : ℕ → Vars) {disk : Disk}
    (h : ∀ n, ∀ text ∈ disk n, ∃ s : RouteLB, text = s.persist) :
    ∃ fuel, loadRoute fuel garbage disk = [1, 2, 3].foldlM (loadFile disk) ∅ := by
  obtain ⟨fuel1, first, h1, l1⟩ := exists_readBlock_persist (garbage 1) (h 1)
  obtain ⟨fuel2, second, h2, l2⟩ := exists_readBlock_persist (garbage 2) (h 2)
  obtain ⟨fuel3, third, h3, l3⟩ := exists_readBlock_persist (garbage 3) (h 3)
  refine ⟨fuel1 + fuel2 + fuel3, ?_⟩
  rw [loadRoute, readFiles_eq_some_iff.mpr ⟨first, second, third, readBlock_mono (by omega) h1,
    readBlock_mono (by omega) h2, readBlock_mono (by omega) h3, rfl⟩]
  simp only [List.foldlM_cons, List.foldlM_nil, l1, l2, l3, Option.bind_eq_bind, Option.bind_some,
    Option.map_some, List.foldl_append, Option.pure_def]

end StaticRoute

end Elb
