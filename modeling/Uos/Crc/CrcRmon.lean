import Mathlib.Tactic.NormNum
import Uos.Library.OnesComplement
import Uos.Net.Bytes

/-!
# The checksum of RMON

The functions of `crc/crc-rmon.c` on a 32-bit machine, the least significant byte first.  The word
loop adds without a rotation, and four rotations of the byte loop are none.
-/

namespace Uos

open BitVec

/-- `cyclic_add`: addition with end-around carry. -/
def cyclicAdd {w : Nat} (sum : ULong) (val : BitVec w) : ULong :=
  let sum := sum + val.setWidth 32
  if sum.toNat < val.toNat then sum + 1 else sum

/-- `crc32_rmon_byte` -/
def crc32RmonByte (sum : ULong) (byte : UChar) : ULong :=
  let sum := cyclicAdd sum byte
  sum >>> 8 ||| sum <<< 24

namespace Rmon

/-- The `unsigned long` found at four bytes of memory. -/
def word (first second third fourth : UChar) : ULong :=
  fourth ++ third ++ second ++ first

/-- The loops of `crc32_rmon`: words as long as there are four bytes, then bytes. -/
def loop (sum : ULong) : List UChar → ULong
  | first :: second :: third :: fourth :: buf =>
    loop (cyclicAdd sum (word first second third fourth)) buf
  | buf => buf.foldl crc32RmonByte sum

end Rmon

/-- `crc32_rmon` of the `len` bytes of a buffer. -/
def crc32Rmon (buf : List UChar) : ULong :=
  ~~~Rmon.loop 0 buf

namespace Rmon

abbrev Residue := ZMod (2 ^ 32 - 1)

def residue {w : Nat} (value : BitVec w) : Residue :=
  value.toNat

variable {sum sum' : ULong} {w : Nat}

theorem cyclicAdd_toNat (within : w ≤ 32) (val : BitVec w) :
    (cyclicAdd sum val).toNat =
      if sum.toNat + val.toNat < 2 ^ 32 then sum.toNat + val.toNat
      else sum.toNat + val.toNat - 2 ^ 32 + 1 := by
  have bound := sum.isLt
  have bound' : val.toNat < 2 ^ 32 :=
    val.isLt.trans_le (Nat.pow_le_pow_right Nat.two_pos within)
  have added : (sum + val.setWidth 32).toNat = (sum.toNat + val.toNat) % 2 ^ 32 := by
    rw [toNat_add, toNat_setWidth_of_le within]
  simp only [cyclicAdd]
  rcases Nat.lt_or_ge (sum.toNat + val.toNat) (2 ^ 32) with small | carry
  · rw [if_pos small, if_neg, added, Nat.mod_eq_of_lt small]
    rw [added, Nat.mod_eq_of_lt small]
    omega
  · have wrapped : (sum.toNat + val.toNat) % 2 ^ 32 = sum.toNat + val.toNat - 2 ^ 32 := by omega
    rw [if_pos (by rw [added, wrapped]; omega), if_neg (by omega), toNat_add, added, wrapped]
    have one : (1 : ULong).toNat = 1 := rfl
    rw [one]
    omega

theorem cyclicAdd_residue (within : w ≤ 32) (val : BitVec w) :
    residue (cyclicAdd sum val) = residue sum + residue val := by
  simp only [residue]
  rw [cyclicAdd_toNat within, ← Nat.cast_add]
  split
  · rfl
  · rename_i carry
    have around : sum.toNat + val.toNat - 2 ^ 32 + 1 + 1 * (2 ^ 32 - 1) =
        sum.toNat + val.toNat := by
      omega
    exact OnesComplement.cast_around around

theorem cyclicAdd_eq_zero_iff (within : w ≤ 32) (val : BitVec w) :
    (cyclicAdd sum val).toNat = 0 ↔ sum.toNat = 0 ∧ val.toNat = 0 := by
  rw [cyclicAdd_toNat within]
  split <;> omega

theorem rotate_toNat (value : ULong) :
    (value >>> 8 ||| value <<< 24).toNat = value.toNat / 256 + value.toNat % 256 * 2 ^ 24 := by
  have bound := value.isLt
  have low : value.toNat <<< 24 % 2 ^ 32 = (value.toNat % 256) <<< 24 := by
    rw [Nat.shiftLeft_eq, Nat.shiftLeft_eq]
    omega
  have high : value.toNat >>> 8 < 2 ^ 24 := by
    rw [Nat.shiftRight_eq_div_pow]
    omega
  rw [toNat_or, toNat_ushiftRight, toNat_shiftLeft, low, Nat.or_comm,
    ← Nat.shiftLeft_add_eq_or_of_lt high, Nat.shiftLeft_eq, Nat.shiftRight_eq_div_pow]
  omega

theorem rotate_residue (value : ULong) :
    residue (value >>> 8 ||| value <<< 24) = 2 ^ 24 * residue value := by
  have around : value.toNat / 256 + value.toNat % 256 * 2 ^ 24 +
      value.toNat / 256 * (2 ^ 32 - 1) = 2 ^ 24 * value.toNat := by
    omega
  rw [residue, rotate_toNat, OnesComplement.cast_around around, residue]
  push_cast
  rfl

theorem rmonByte_residue (byte : UChar) :
    residue (crc32RmonByte sum byte) = 2 ^ 24 * (residue sum + residue byte) := by
  rw [crc32RmonByte, rotate_residue, cyclicAdd_residue (by decide)]

theorem rmonByte_eq_zero_iff (byte : UChar) :
    (crc32RmonByte sum byte).toNat = 0 ↔ sum.toNat = 0 ∧ byte.toNat = 0 := by
  rw [crc32RmonByte, rotate_toNat, ← cyclicAdd_eq_zero_iff (by decide)]
  omega

theorem append_toNat {n : Nat} (high : BitVec n) (low : UChar) :
    (high ++ low).toNat = high.toNat * 256 + low.toNat := by
  rw [toNat_append, ← Nat.shiftLeft_add_eq_or_of_lt low.isLt, Nat.shiftLeft_eq]

theorem word_toNat (first second third fourth : UChar) :
    (word first second third fourth).toNat =
      first.toNat + second.toNat * 2 ^ 8 + third.toNat * 2 ^ 16 + fourth.toNat * 2 ^ 24 := by
  rw [word, append_toNat, append_toNat, append_toNat]
  omega

theorem rotations : (2 : Residue) ^ 32 = 1 := by
  have around : 1 + 1 * (2 ^ 32 - 1) = 2 ^ 32 := rfl
  have cast := OnesComplement.cast_around around
  push_cast at cast
  exact cast.symm

theorem cyclicAdd_word (first second third fourth : UChar) :
    cyclicAdd sum (word first second third fourth) =
      [first, second, third, fourth].foldl crc32RmonByte sum := by
  have value := word_toNat first second third fourth
  have added : residue (word first second third fourth) = residue first + 2 ^ 8 * residue second +
      2 ^ 16 * residue third + 2 ^ 24 * residue fourth := by
    simp only [residue, value]
    push_cast
    ring
  have same : residue (cyclicAdd sum (word first second third fourth)) =
      residue ([first, second, third, fourth].foldl crc32RmonByte sum) := by
    simp only [List.foldl_cons, List.foldl_nil, rmonByte_residue]
    rw [cyclicAdd_residue (by decide), added]
    linear_combination (-((2 ^ 64 + 2 ^ 32 + 1) * (residue sum + residue first) +
      2 ^ 8 * (2 ^ 32 + 1) * residue second + 2 ^ 16 * residue third)) * rotations
  have zero : (cyclicAdd sum (word first second third fourth)).toNat = 0 ↔
      ([first, second, third, fourth].foldl crc32RmonByte sum).toNat = 0 := by
    simp only [List.foldl_cons, List.foldl_nil, rmonByte_eq_zero_iff]
    rw [cyclicAdd_eq_zero_iff (by decide), value]
    omega
  have bound := (cyclicAdd sum (word first second third fourth)).isLt
  have bound' := ([first, second, third, fourth].foldl crc32RmonByte sum).isLt
  apply eq_of_toNat_eq
  rcases Nat.eq_zero_or_pos (cyclicAdd sum (word first second third fourth)).toNat with none | some
  · rw [none, zero.mp none]
  · exact OnesComplement.eq_of_residue some (by omega) (by omega) (by omega) same

theorem loop_eq (sum : ULong) (buf : List UChar) : loop sum buf = buf.foldl crc32RmonByte sum := by
  fun_induction loop sum buf with
  | case1 sum first second third fourth buf ih =>
    rw [ih, cyclicAdd_word]
    rfl
  | case2 sum buf short => rfl

end Rmon

/-- The word loop is the byte loop. -/
theorem crc32Rmon_eq (buf : List UChar) : crc32Rmon buf = ~~~buf.foldl crc32RmonByte 0 := by
  rw [crc32Rmon, Rmon.loop_eq]

end Uos
