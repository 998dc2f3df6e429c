import Mathlib.Data.Nat.Log
import Mathlib.Tactic.NormNum

/-!
# The protobuf wire format

How messages are written: a number takes one byte for each group of seven bits, a field starts with
its number and its wire type, and what has no fixed length comes after its length. Negative numbers
of the type `int32` are written as 64-bit numbers.
-/

namespace Protobuf

/-- A number in groups of seven bits, the lowest first; all but the last have the high bit. -/
def varint (n : ℕ) : List UInt8 :=
  if n < 128 then [UInt8.ofNat n] else UInt8.ofNat (n % 128 + 128) :: varint (n / 128)
termination_by n
decreasing_by omega

/-- How many groups of seven bits a number has. -/
def width (n : ℕ) : ℕ := Nat.log 128 n + 1

/-- A number of the type `int32`, with its sign extended to 64 bits. -/
def int32 (x : Int32) : ℕ := x.toInt64.toUInt64.toNat

/-- A number of the type `int64`. -/
def int64 (x : ℤ) : ℕ := (Int64.ofInt x).toUInt64.toNat

/-- A field with a number. -/
def numField (field n : ℕ) : List UInt8 := varint (field * 8) ++ varint n

/-- A field with a message. -/
def msgField (field : ℕ) (msg : List UInt8) : List UInt8 :=
  varint (field * 8 + 2) ++ varint msg.length ++ msg

/-- How many bytes the value of a field of the type `int32` takes. -/
def intWidth (x : Int32) : ℕ := if x.toInt < 0 then 10 else width x.toInt.toNat

/-- `width` is the number of bytes. -/
theorem length_varint (n : ℕ) : (varint n).length = width n := by
  induction n using Nat.strongRecOn with
  | ind n ih =>
    rw [varint, width]
    split
    · next h => rw [Nat.log_of_lt h, List.length_singleton]
    · next h =>
      have hlog : Nat.log 128 n = Nat.log 128 (n / 128) + 1 :=
        Nat.log_of_one_lt_of_le (by omega) (by omega)
      rw [List.length_cons, ih (n / 128) (by omega), width, hlog]

/-- A number takes a byte at least. -/
theorem width_pos (n : ℕ) : 1 ≤ width n := Nat.le_add_left 1 _

/-- With `k + 1` groups of seven bits, a number takes `k + 1` bytes at most. -/
theorem width_le {n k : ℕ} (h : n < 128 ^ (k + 1)) : width n ≤ k + 1 :=
  Nat.succ_le_succ (Nat.lt_succ_iff.mp (Nat.log_lt_of_lt_pow' (Nat.succ_ne_zero k) h))

/-- It takes `k + 1` bytes exactly if it does not fit in `k` groups. -/
theorem width_eq {n k : ℕ} (hlow : 128 ^ k ≤ n) (hhigh : n < 128 ^ (k + 1)) : width n = k + 1 :=
  congrArg Nat.succ (Nat.log_eq_of_pow_le_of_lt_pow hlow hhigh)

/-- The numbers of the fields and the lengths of small messages take a byte. -/
theorem width_of_lt {n : ℕ} (h : n < 128) : width n = 1 := by
  rw [width, Nat.log_of_lt h]

/-- A `uint32` takes five bytes at most. -/
theorem width_uint32_le (x : UInt32) : width x.toNat ≤ 5 :=
  width_le (Nat.lt_trans x.toNat_lt (by omega))

/-- What an `int32` takes: ten bytes if it is negative. -/
theorem width_int32 (x : Int32) : width (int32 x) = intWidth x := by
  have hnum : (int32 x : ℤ) = x.toInt % 2 ^ 64 := by
    have h : int32 x = (BitVec.ofInt 64 x.toInt).toNat := rfl
    rw [h, BitVec.toNat_ofInt]
    omega
  have hlow := x.le_toInt
  have hhigh := x.toInt_lt
  rw [intWidth]
  split
  · exact width_eq (k := 9) (by omega) (by omega)
  · rw [show int32 x = x.toInt.toNat by omega]

/-- An `int64` takes ten bytes at most. -/
theorem width_int64_le (x : ℤ) : width (int64 x) ≤ 10 :=
  width_le (k := 9) (Nat.lt_trans (UInt64.toNat_lt _) (by omega))

/-- An `int32` takes a byte at least. -/
theorem intWidth_pos (x : Int32) : 1 ≤ intWidth x := by
  rw [← width_int32]
  exact width_pos _

/-- An `int32` takes ten bytes at most, which a negative one does. -/
theorem intWidth_le (x : Int32) : intWidth x ≤ 10 := by
  rw [← width_int32]
  exact width_le (k := 9) (Nat.lt_trans (UInt64.toNat_lt _) (by omega))

/-- A field of a number takes a byte for its tag. -/
theorem length_numField {field : ℕ} (h : field < 16) (n : ℕ) :
    (numField field n).length = 1 + width n := by
  rw [numField, List.length_append, length_varint, length_varint, width_of_lt (by omega)]

/-- A field of a message takes a byte for its tag, and its length comes before it. -/
theorem length_msgField {field : ℕ} (h : field < 15) (msg : List UInt8) :
    (msgField field msg).length = 1 + width msg.length + msg.length := by
  rw [msgField, List.length_append, List.length_append, length_varint, length_varint,
    width_of_lt (by omega)]

end Protobuf
