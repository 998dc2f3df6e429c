import Mathlib.Data.Int.Order.Basic
import Mathlib.Tactic.NormNum

/-!
# 64-bit keys

Every table of the repository is keyed by two `int`s packed as `((uint64_t)hi << 32) + lo`: a module
by its modid and cmdid, a host by its ip and port. The conversion to `uint64_t` sign-extends both
halves, so a negative low half borrows from the high one; the packing is injective all the same.
-/

namespace Elb

/-! ## Machine integers -/

/-- Conversion of an `int` to `uint64_t` reduces modulo `2 ^ 64`. -/
theorem toNat_toUInt64 (x : Int32) : (x.toInt64.toUInt64.toNat : ℤ) = x.toInt % 2 ^ 64 := by
  have h : x.toInt64.toUInt64.toNat = (BitVec.ofInt 64 x.toInt).toNat := rfl
  rw [h, BitVec.toNat_ofInt]
  omega

/-- Conversion of an `int` to `unsigned` reduces modulo `2 ^ 32`. -/
theorem toNat_toUInt32 (x : Int32) : (x.toUInt32.toNat : ℤ) = x.toInt % 2 ^ 32 := by
  have htoInt := BitVec.toInt_eq_toNat_cond x.toBitVec
  have hlt := x.toBitVec.isLt
  rw [Int32.toInt_toBitVec, Int32.toNat_toBitVec] at htoInt
  rw [Int32.toNat_toBitVec] at hlt
  split at htoInt <;> omega

/-- A sum of counters that wraps around is smaller than the true one. -/
theorem toNat_add_le (a b : UInt32) : (a + b).toNat ≤ a.toNat + b.toNat := by
  rw [UInt32.toNat_add]
  exact Nat.mod_le _ _

/-- A sum of counters that does not wrap around. -/
theorem toNat_add_of_lt {a b : UInt32} (h : a.toNat + b.toNat < 2 ^ 32) :
    (a + b).toNat = a.toNat + b.toNat := by
  rw [UInt32.toNat_add, Nat.mod_eq_of_lt h]

/-- A counter below its limit does not wrap. -/
theorem toNat_succ {a : UInt32} (h : a.toNat + 1 < 2 ^ 32) : (a + 1).toNat = a.toNat + 1 :=
  toNat_add_of_lt h

/-! ## Packing -/

/-- `((uint64_t)hi << 32) + lo`. -/
def packKey (hi lo : Int32) : UInt64 :=
  (hi.toInt64.toUInt64 <<< 32) + lo.toInt64.toUInt64

/-- The packed key as a number. -/
theorem packKey_toNat (hi lo : Int32) :
    ((packKey hi lo).toNat : ℤ) = (hi.toInt * 2 ^ 32 + lo.toInt) % 2 ^ 64 := by
  have hhi := toNat_toUInt64 hi
  have hlo := toNat_toUInt64 lo
  have h32 : (32 : UInt64).toNat % 64 = 32 := rfl
  rw [packKey, UInt64.toNat_add, UInt64.toNat_shiftLeft, Nat.shiftLeft_eq, h32]
  omega

/-- Packing loses nothing. -/
theorem packKey_inj {hi lo hi' lo' : Int32} (h : packKey hi lo = packKey hi' lo') :
    hi = hi' ∧ lo = lo' := by
  have hn : (hi.toInt * 2 ^ 32 + lo.toInt) % 2 ^ 64 =
      (hi'.toInt * 2 ^ 32 + lo'.toInt) % 2 ^ 64 := by
    rw [← packKey_toNat, ← packKey_toNat, h]
  have := hi.le_toInt
  have := hi.toInt_lt
  have := lo.le_toInt
  have := lo.toInt_lt
  have := hi'.le_toInt
  have := hi'.toInt_lt
  have := lo'.le_toInt
  have := lo'.toInt_lt
  rw [← Int32.toInt_inj, ← Int32.toInt_inj (x := lo)]
  omega

/-! ## Taking keys apart -/

/-- `(int)(key >> 32)`. -/
def unpackHi (key : UInt64) : Int32 := (key >>> 32).toUInt32.toInt32

/-- `(int)key`. -/
def unpackLo (key : UInt64) : Int32 := key.toUInt32.toInt32

/-- Conversion of an unsigned number to `int` reduces modulo `2 ^ 32`. -/
theorem toInt_toInt32 (x : UInt32) : x.toInt32.toInt = (x.toNat : ℤ).bmod (2 ^ 32) := by
  rw [← Int32.toInt_toBitVec, BitVec.toInt_eq_toNat_bmod]
  rfl

/-- A number that is known modulo `2 ^ 32`. -/
theorem bmod_of_emod {x : ℕ} {z : ℤ} (h : (x : ℤ) = z % 2 ^ 32) :
    (x : ℤ).bmod (2 ^ 32) = z.bmod (2 ^ 32) := by
  rw [h]
  exact Int.emod_bmod z (2 ^ 32)

/-- The low half comes back as it was. -/
theorem unpackLo_packKey (hi lo : Int32) : unpackLo (packKey hi lo) = lo := by
  have hkey := packKey_toNat hi lo
  rw [← Int32.toInt_inj, unpackLo, toInt_toInt32, UInt64.toNat_toUInt32,
    bmod_of_emod (z := lo.toInt) (by omega)]
  exact Int.bmod_eq_of_le lo.le_toInt lo.toInt_lt

/-- The high half has lost one if the low half was negative. -/
theorem unpackHi_packKey (hi lo : Int32) :
    unpackHi (packKey hi lo) = if lo < 0 then hi - 1 else hi := by
  have hkey := packKey_toNat hi lo
  have hl := lo.le_toInt
  have hlt := lo.toInt_lt
  have h32 : (32 : UInt64).toNat % 64 = 32 := rfl
  have h0 : (0 : Int32).toInt = 0 := rfl
  have h1 : (1 : Int32).toInt = 1 := rfl
  rw [← Int32.toInt_inj, unpackHi, toInt_toInt32, UInt64.toNat_toUInt32, UInt64.toNat_shiftRight,
    h32, Nat.shiftRight_eq_div_pow]
  split
  · next hneg =>
    rw [Int32.lt_iff_toInt_lt, h0] at hneg
    rw [bmod_of_emod (z := hi.toInt - 1) (by omega), Int32.toInt_sub, h1]
  · next hneg =>
    rw [Int32.lt_iff_toInt_lt, h0] at hneg
    rw [bmod_of_emod (z := hi.toInt) (by omega)]
    exact Int.bmod_eq_of_le hi.le_toInt hi.toInt_lt

/-- A key whose low half is not negative goes together again as it came apart. -/
theorem packKey_unpack {key : UInt64} (h : 0 ≤ unpackLo key) :
    packKey (unpackHi key) (unpackLo key) = key := by
  have h32 : (32 : UInt64).toNat % 64 = 32 := rfl
  have h0 : (0 : Int32).toInt = 0 := rfl
  have hkey := key.toNat_lt
  have hpack := packKey_toNat (unpackHi key) (unpackLo key)
  rw [Int32.le_iff_toInt_le, h0] at h
  have hlo : (unpackLo key).toInt = ((key.toNat % 2 ^ 32 : ℕ) : ℤ).bmod (2 ^ 32) := by
    rw [unpackLo, toInt_toInt32, UInt64.toNat_toUInt32]
  have hhi : (unpackHi key).toInt = ((key.toNat / 2 ^ 32 % 2 ^ 32 : ℕ) : ℤ).bmod (2 ^ 32) := by
    rw [unpackHi, toInt_toInt32, UInt64.toNat_toUInt32, UInt64.toNat_shiftRight, h32,
      Nat.shiftRight_eq_div_pow]
  rw [Int.bmod_def] at hlo hhi
  rw [← UInt64.toNat_inj]
  split at hlo <;> split at hhi <;> omega

/-- Every key packs two halves. -/
theorem packKey_surj (key : UInt64) : ∃ hi lo, packKey hi lo = key := by
  have hkey := key.toNat_lt
  have hlo : (unpackLo key).toInt = ((key.toNat % 2 ^ 32 : ℕ) : ℤ).bmod (2 ^ 32) := by
    rw [unpackLo, toInt_toInt32, UInt64.toNat_toUInt32]
  have hhi := Int32.toInt_ofInt (n := (key.toNat - (unpackLo key).toInt) / 2 ^ 32)
  have hpack := packKey_toNat (Int32.ofInt ((key.toNat - (unpackLo key).toInt) / 2 ^ 32))
    (unpackLo key)
  refine ⟨_, unpackLo key, UInt64.toNat_inj.mp (Int.ofNat_inj.mp (hpack.trans ?_))⟩
  rw [hhi, Int32.size]
  rw [Int.bmod_def] at hlo ⊢
  split at hlo <;> split <;> omega

end Elb
