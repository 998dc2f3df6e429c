import Elb.Reporter.CallStatis

/-!
# The columns of the call statistics

Reference: `CallStatis::report` in `reporter/src/CallStatis.cc`; the table `ServerCallStatus` in
`common/sql/dnsserver.sql`.

The statement prints the ip, the port and the caller of a result with `%u`, but the columns are
signed, as the counts' are. A number outside the range of its column makes the server reject the
statement, or store the nearest number in the range if it is not in strict mode.
-/

namespace Elb.Reporter

/-! ## Columns -/

/-- The columns of `ServerCallStatus`. -/
inductive Column
  | modid
  | cmdid
  | ip
  | port
  | caller
  | succCnt
  | errCnt
  | ts
  | overload
deriving DecidableEq, Repr

/-- The least and the greatest number: `bigint(20)`, a digit for `char(1)`, `int(11)`. -/
def Column.range : Column → ℤ × ℤ
  | ts => (-2 ^ 63, 2 ^ 63 - 1)
  | overload => (0, 9)
  | _ => (-2 ^ 31, 2 ^ 31 - 1)

/-- The number is in the range of the column. -/
def Column.Holds (c : Column) (x : ℤ) : Prop := c.range.1 ≤ x ∧ x ≤ c.range.2

instance Column.Holds.decidable (c : Column) (x : ℤ) : Decidable (c.Holds x) :=
  inferInstanceAs (Decidable (_ ∧ _))

/-- What is stored of a number, if it is not rejected. -/
def Column.store (strict : Bool) (c : Column) (x : ℤ) : Option ℤ :=
  if c.Holds x then some x
  else if strict then none
  else some (max c.range.1 (min x c.range.2))

/-! ## The numbers of a statement -/

/-- The numbers of the primary key: `%d` for the module, `%u` for the others. -/
def RowKey.values (key : RowKey) : List (Column × ℤ) :=
  [(.modid, key.modid.toInt), (.cmdid, key.cmdid.toInt), (.ip, key.ip.toNat),
    (.port, key.port.toNat), (.caller, key.caller.toNat)]

/-- The other numbers. -/
def Row.values (row : Row) : List (Column × ℤ) :=
  [(.succCnt, row.succCnt.toNat), (.errCnt, row.errCnt.toNat), (.ts, row.ts.toNat),
    (.overload, if row.overload then 1 else 0)]

/-- The numbers of the statement: those behind `VALUES`, and some of them again behind `UPDATE`. -/
def printed (sql : RowKey × Row) : List (Column × ℤ) :=
  sql.1.values ++ sql.2.values ++ sql.2.values

/-- The numbers fit in their columns. -/
def Representable (sql : RowKey × Row) : Prop := ∀ v ∈ printed sql, v.1.Holds v.2

/-- The primary key of the row that the statement writes, if it is not rejected. -/
def storedKey (strict : Bool) (sql : RowKey × Row) : Option (List ℤ) :=
  ((printed sql).mapM fun v : Column × ℤ => v.1.store strict v.2).map fun stored => stored.take 5

/-- The nearest number in the range of an `int(11)`. -/
def cut (x : UInt32) : UInt32 := if x.toNat < 2 ^ 31 then x else 0x7FFFFFFF

/-- The statement with its numbers cut. What is printed of the module, the time and the flag is in
range in any case. -/
def cutNumbers (sql : RowKey × Row) : RowKey × Row :=
  (⟨sql.1.modid, sql.1.cmdid, cut sql.1.ip, cut sql.1.port, cut sql.1.caller⟩,
    ⟨cut sql.2.succCnt, cut sql.2.errCnt, sql.2.ts, sql.2.overload⟩)

instance Representable.decidable (sql : RowKey × Row) : Decidable (Representable sql) :=
  inferInstanceAs (Decidable (∀ v ∈ printed sql, v.1.Holds v.2))

/-- The row that the statement writes, if it is not rejected. -/
def storedRow (strict : Bool) (sql : RowKey × Row) : Option (RowKey × Row) :=
  if Representable sql then some sql
  else if strict then none
  else some (cutNumbers sql)

/-- The statements write two rows. -/
def WrittenApart (strict : Bool) (sql sql' : RowKey × Row) : Prop :=
  ∃ key key', storedKey strict sql = some key ∧ storedKey strict sql' = some key' ∧ key ≠ key'

/-- What a result is about. -/
def subjectOf (req : ReportStatusReq) (result : HostCallResult) :
    Int32 × Int32 × Int32 × Int32 × Int32 :=
  (req.modid, req.cmdid, result.ip, result.port, req.caller)

/-- What is printed with `%u` is the same as a signed number. -/
def SmallNumbers (req : ReportStatusReq) (result : HostCallResult) : Prop :=
  0 ≤ result.ip.toInt ∧ 0 ≤ result.port.toInt ∧ 0 ≤ req.caller.toInt ∧
    result.succ.toNat < 2 ^ 31 ∧ result.err.toNat < 2 ^ 31

/-! ## Numbers in range -/

/-- An `int` that is printed with `%u` fits in a signed column if it is not negative. -/
theorem toUInt32_le_iff (x : Int32) : (x.toUInt32.toNat : ℤ) ≤ 2 ^ 31 - 1 ↔ 0 ≤ x.toInt := by
  have hlow := x.le_toInt
  have hhigh := x.toInt_lt
  rw [toNat_toUInt32]
  omega

/-- All columns hold exactly if the five numbers are small. -/
theorem representable_iff (req : ReportStatusReq) (result : HostCallResult) :
    Representable (statement req result) ↔ SmallNumbers req result := by
  have hmodid := req.modid.le_toInt
  have hmodid' := req.modid.toInt_lt
  have hcmdid := req.cmdid.le_toInt
  have hcmdid' := req.cmdid.toInt_lt
  have hts := req.ts.toNat_lt
  have hoverload : (0 : ℤ) ≤ (if result.overload then 1 else 0) ∧
      (if result.overload then 1 else 0) ≤ (9 : ℤ) := by
    split <;> omega
  simp only [Representable, printed, RowKey.values, Row.values, statement, List.cons_append,
    List.nil_append, List.forall_mem_cons, List.not_mem_nil, false_imp_iff, implies_true, and_true,
    Column.Holds, Column.range]
  rw [SmallNumbers, ← toUInt32_le_iff, ← toUInt32_le_iff, ← toUInt32_le_iff]
  omega

/-- Numbers in range are stored as they are printed. -/
theorem storedKey_of_representable {sql : RowKey × Row} (h : Representable sql) (strict : Bool) :
    storedKey strict sql = some (sql.1.values.map Prod.snd) := by
  have hstore : ∀ vs : List (Column × ℤ), (∀ v ∈ vs, v.1.Holds v.2) →
      (vs.mapM fun v : Column × ℤ => v.1.store strict v.2) = some (vs.map Prod.snd) := by
    intro vs hvs
    induction vs with
    | nil => rfl
    | cons v vs ih =>
      obtain ⟨hv, hvs⟩ := List.forall_mem_cons.mp hvs
      rw [List.mapM_cons, Column.store, if_pos hv, ih hvs]
      rfl
  rw [storedKey, hstore _ h]
  rfl

/-- A number out of range makes a strict server reject the statement. -/
theorem storedKey_strict {sql : RowKey × Row} (h : ¬Representable sql) :
    storedKey true sql = none := by
  have hstore : ∀ vs : List (Column × ℤ), (¬∀ v ∈ vs, v.1.Holds v.2) →
      (vs.mapM fun v : Column × ℤ => v.1.store true v.2) = none := by
    intro vs hvs
    induction vs with
    | nil => exact absurd (by simp) hvs
    | cons v vs ih =>
      rw [List.mapM_cons, Column.store]
      by_cases hv : v.1.Holds v.2
      · -- the number that does not fit comes later
        rw [if_pos hv, ih fun hall => hvs (List.forall_mem_cons.mpr ⟨hv, hall⟩)]
        rfl
      · rw [if_neg hv]
        rfl
  rw [storedKey, hstore _ h]
  rfl

/-- A server that is not strict stores some number. -/
theorem Column.store_false (c : Column) (x : ℤ) :
    c.store false x = some (max c.range.1 (min x c.range.2)) := by
  rw [store]
  split
  · next h =>
    rw [min_eq_left h.2, max_eq_right h.1]
  · rfl

/-- It cuts what is printed with `%u` to the range of an `int(11)`. -/
theorem toNat_cut (x : UInt32) : max (-2 ^ 31) (min (x.toNat : ℤ) (2 ^ 31 - 1)) = (cut x).toNat := by
  rw [cut]
  split
  · omega
  · have hmax : (0x7FFFFFFF : UInt32).toNat = 2 ^ 31 - 1 := rfl
    omega

/-- The row that is written has the key that is stored. -/
theorem storedKey_eq (strict : Bool) (sql : RowKey × Row) :
    storedKey strict sql = (storedRow strict sql).map fun p => p.1.values.map Prod.snd := by
  rw [storedRow]
  split
  · next h => exact storedKey_of_representable h strict
  · next h =>
    cases strict with
    | true => exact storedKey_strict h
    | false =>
      -- each number is cut to the range of its column
      have hstore : ∀ vs : List (Column × ℤ),
          (vs.mapM fun v : Column × ℤ => v.1.store false v.2) =
            some (vs.map fun v => max v.1.range.1 (min v.2 v.1.range.2)) := by
        intro vs
        induction vs with
        | nil => rfl
        | cons v vs ih =>
          rw [List.mapM_cons, Column.store_false, ih]
          rfl
      have hint : ∀ x : Int32, max (-2 ^ 31) (min x.toInt (2 ^ 31 - 1)) = x.toInt := by
        intro x
        have hlow := x.le_toInt
        have hhigh := x.toInt_lt
        omega
      rw [storedKey, hstore]
      simp only [printed, RowKey.values, Row.values, List.cons_append, List.nil_append,
        List.map_cons, List.map_nil, Option.map_some, List.take_succ_cons, List.take_zero,
        Column.range, toNat_cut, hint]
      rfl

/-- The printed key says what the result is about. -/
theorem subjectOf_eq_of_values {req req' : ReportStatusReq} {result result' : HostCallResult}
    (h : (statement req result).1.values.map Prod.snd =
      (statement req' result').1.values.map Prod.snd) :
    subjectOf req result = subjectOf req' result' := by
  simp only [statement, RowKey.values, List.map_cons, List.map_nil, List.cons.injEq, and_true,
    Int32.toInt_inj, Int.natCast_inj, UInt32.toNat_inj] at h
  obtain ⟨hmodid, hcmdid, hip, hport, hcaller⟩ := h
  have hint : ∀ x y : Int32, x.toUInt32 = y.toUInt32 → x = y := by
    intro x y hxy
    rw [← Int32.toInt32_toUInt32 x, hxy, Int32.toInt32_toUInt32]
  rw [subjectOf, subjectOf, hmodid, hcmdid, hint _ _ hip, hint _ _ hport, hint _ _ hcaller]

/-- Whatever the mode of the server and any two results: their numbers fit in the columns, and they
are written under different keys if they are about different things, exactly if what is printed with
`%u` is the same as a signed number. -/
theorem rows_iff (strict : Bool) (req req' : ReportStatusReq) (result result' : HostCallResult) :
    Representable (statement req result) ∧ Representable (statement req' result') ∧
        (subjectOf req result ≠ subjectOf req' result' →
          WrittenApart strict (statement req result) (statement req' result')) ↔
      SmallNumbers req result ∧ SmallNumbers req' result' := by
  rw [← representable_iff, ← representable_iff]
  constructor
  · rintro ⟨h, h', -⟩
    exact ⟨h, h'⟩
  · rintro ⟨h, h'⟩
    refine ⟨h, h', fun hne => ?_⟩
    refine ⟨_, _, storedKey_of_representable h strict, storedKey_of_representable h' strict, ?_⟩
    intro heq
    exact hne (subjectOf_eq_of_values heq)

/-- A report of an agent about the hosts 10.0.0.200 and 10.0.0.201, whose addresses are negative as
`int`s. -/
def highHosts : ReportStatusReq :=
  ⟨1, 2, 167772161, [⟨-939524086, 80, 5, 0, false⟩, ⟨-922746870, 80, 6, 0, false⟩], 100⟩

/-- Both hosts are stored under one key, and in strict mode neither is stored. -/
theorem not_rows :
    ((statements highHosts).map (storedKey false) =
        [some [1, 2, 2147483647, 80, 167772161], some [1, 2, 2147483647, 80, 167772161]] ∧
      (statements highHosts).map (storedKey true) = [none, none]) ∧
      ¬∀ strict req req' result result',
        Representable (statement req result) ∧ Representable (statement req' result') ∧
          (subjectOf req result ≠ subjectOf req' result' →
            WrittenApart strict (statement req result) (statement req' result')) := by
  refine ⟨by decide, fun hall => ?_⟩
  have hrep := (hall false highHosts highHosts ⟨-939524086, 80, 5, 0, false⟩
    ⟨-922746870, 80, 6, 0, false⟩).1
  have hneg := ((representable_iff _ _).mp hrep).1
  revert hneg
  decide

end Elb.Reporter
