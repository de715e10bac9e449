import Mathlib.Data.List.Basic
import Mathlib.Tactic.Ring

/-!
# Numbers as bytes, the most significant one first

Writing the less significant bytes of a number and reading bytes as a number, in arithmetic and with
the shifts of a machine word.
-/

namespace Uos

/-- The less significant bytes of a number. -/
def lowBytes (val : Nat) : Nat → List (BitVec 8)
  | 0 => []
  | n + 1 => .ofNat 8 (val >>> (8 * n)) :: lowBytes val n

/-- The number that bytes stand for. -/
def bigEndian : List (BitVec 8) → Nat
  | [] => 0
  | byte :: bytes => byte.toNat * 256 ^ bytes.length + bigEndian bytes

/-- Bytes as a machine word, behind the bytes that were read before. -/
def foldBytes {w : Nat} (val : BitVec w) (bytes : List (BitVec 8)) : BitVec w :=
  bytes.foldl (fun val byte => val <<< 8 ||| byte.setWidth w) val

variable {val n w : Nat} {bytes : List (BitVec 8)}

@[simp] theorem length_lowBytes : (lowBytes val n).length = n := by
  induction n with
  | zero => rfl
  | succ n ih => simp [lowBytes, ih]

/-- The less significant bytes stand for the remainder. -/
theorem bigEndian_lowBytes : bigEndian (lowBytes val n) = val % 256 ^ n := by
  induction n with
  | zero => simp [lowBytes, bigEndian, Nat.mod_one]
  | succ n ih =>
    have power : 2 ^ (8 * n) = 256 ^ n := by rw [Nat.pow_mul]
    have split := @Nat.mod_pow_succ val 256 n
    rw [lowBytes, bigEndian, ih, length_lowBytes, BitVec.toNat_ofNat, Nat.shiftRight_eq_div_pow,
      power, split, Nat.add_comm, Nat.mul_comm]

/-- One step of reading a machine word. -/
theorem toNat_shift_or (wide : 8 ≤ w) (word : BitVec w) (byte : BitVec 8) :
    (word <<< 8 ||| byte.setWidth w).toNat = (word.toNat * 256 + byte.toNat) % 2 ^ w := by
  obtain ⟨more, rfl⟩ := Nat.exists_eq_add_of_le wide
  have small : byte.toNat < 2 ^ (8 + more) :=
    byte.isLt.trans_le (Nat.pow_le_pow_right (by decide) wide)
  have power : 2 ^ (8 + more) = 2 ^ 8 * 2 ^ more := Nat.pow_add ..
  rw [BitVec.toNat_or, BitVec.toNat_shiftLeft, BitVec.toNat_setWidth, Nat.mod_eq_of_lt small,
    Nat.shiftLeft_eq, power, Nat.mul_comm _ (2 ^ 8), Nat.mul_mod_mul_left,
    ← Nat.two_pow_add_eq_or_of_lt byte.isLt, Nat.mod_mul]
  have low : (2 ^ 8 * word.toNat + byte.toNat) % 2 ^ 8 = byte.toNat := by omega
  have high : (2 ^ 8 * word.toNat + byte.toNat) / 2 ^ 8 = word.toNat := by omega
  rw [low, high, Nat.add_comm]

/-- Reading bytes behind a word. -/
theorem toNat_foldBytes (wide : 8 ≤ w) (word : BitVec w) :
    (foldBytes word bytes).toNat =
      (word.toNat * 256 ^ bytes.length + bigEndian bytes) % 2 ^ w := by
  induction bytes generalizing word with
  | nil => simp [foldBytes, bigEndian, Nat.mod_eq_of_lt word.isLt]
  | cons byte bytes ih =>
    have step : foldBytes word (byte :: bytes) =
        foldBytes (word <<< 8 ||| byte.setWidth w) bytes := rfl
    have expand : word.toNat * 256 ^ (byte :: bytes).length + bigEndian (byte :: bytes) =
        (word.toNat * 256 + byte.toNat) * 256 ^ bytes.length + bigEndian bytes := by
      rw [bigEndian, List.length_cons, Nat.pow_succ]
      ring
    rw [step, ih, toNat_shift_or wide, expand, Nat.add_mod, Nat.mod_mul_mod, ← Nat.add_mod]

end Uos
