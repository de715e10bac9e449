import Mathlib.Data.ZMod.Basic
import Mathlib.Tactic.Ring
import Mathlib.Tactic.LinearCombination

/-!
# One's complement sums

A sum of two-digit words with end-around carry is a sum modulo the largest word, whose zero has two
representations.  Digits alternate between the high and the low half of a word, and moving a digit
to the other half is the multiplication by an element that is its own inverse.  The sum of a
concatenation is then a sum of digests, the second one moved if the first part is of odd length.
-/

namespace Uos
namespace OnesComplement

section Digest

variable {R : Type*} [CommRing R] {flip : R}

/-- The sum of the words that a list of digits is read as, the first digit being the high half. -/
def digest (flip : R) : List R → R
  | [] => 0
  | digit :: digits => flip * (digit + digest flip digits)

theorem digest_append (xs ys : List R) :
    digest flip (xs ++ ys) = digest flip xs + flip ^ xs.length * digest flip ys := by
  induction xs with
  | nil => simp [digest]
  | cons x xs ih =>
    simp only [List.cons_append, digest, ih, List.length_cons]
    ring

theorem flip_even (involutive : flip * flip = 1) {n : Nat} (even : n % 2 = 0) : flip ^ n = 1 := by
  have split : n = 2 * (n / 2) := by omega
  rw [split, pow_mul, pow_two, involutive, one_pow]

theorem flip_odd (involutive : flip * flip = 1) {n : Nat} (odd : n % 2 = 1) : flip ^ n = flip := by
  have split : n = (n - 1) + 1 := by omega
  have even : (n - 1) % 2 = 0 := by omega
  rw [split, pow_succ, flip_even involutive even, one_mul]

theorem flip_twice (involutive : flip * flip = 1) (n : Nat) : flip ^ n * flip ^ n = 1 := by
  rw [← mul_pow, involutive, one_pow]

/-- A digest in a quotient ring is the image of the digest. -/
theorem map_digest {S : Type*} [CommRing S] (f : R →+* S) (digits : List R) :
    f (digest flip digits) = digest (f flip) (digits.map f) := by
  induction digits with
  | nil => simp [digest]
  | cons digit digits ih => simp [digest, ih]

/-- Two digits are a word. -/
theorem digest_pair (involutive : flip * flip = 1) (high low : R) (digits : List R) :
    digest flip (high :: low :: digits) = flip * high + low + digest flip digits := by
  simp only [digest]
  linear_combination (low + digest flip digits) * involutive

end Digest

section Representation

variable {largest : Nat}

/-- Two sums with the same residue that are not the first zero are the same number. -/
theorem eq_of_residue {a b : Nat} (aPositive : 0 < a) (aBound : a ≤ largest) (bPositive : 0 < b)
    (bBound : b ≤ largest) (same : (a : ZMod largest) = b) : a = b := by
  have congruent := (ZMod.natCast_eq_natCast_iff a b largest).mp same
  have shifted : a - 1 ≡ b - 1 [MOD largest] := by
    apply Nat.ModEq.add_right_cancel' 1
    rwa [Nat.sub_add_cancel aPositive, Nat.sub_add_cancel bPositive]
  have equal := Nat.ModEq.eq_of_lt_of_lt shifted (by omega) (by omega)
  omega

/-- Complements of such sums are determined by their residues as well. -/
theorem eq_of_complement {a b : Nat} (aBound : a < largest) (bBound : b < largest)
    (same : (a : ZMod largest) = b) : a = b :=
  Nat.ModEq.eq_of_lt_of_lt ((ZMod.natCast_eq_natCast_iff a b largest).mp same) aBound bBound

theorem cast_complement {a : Nat} (bound : a ≤ largest) :
    ((largest - a : Nat) : ZMod largest) = -a := by
  rw [Nat.cast_sub bound, ZMod.natCast_self, zero_sub]

/-- Carries that are taken to the other end do not change a residue. -/
theorem cast_around {a b carries : Nat} (around : a + carries * largest = b) :
    (a : ZMod largest) = b := by
  rw [← around, Nat.cast_add, Nat.cast_mul, ZMod.natCast_self, mul_zero, add_zero]

/-- The largest word is the second zero. -/
theorem eq_largest_iff {a : Nat} (positive : 0 < a) (bound : a ≤ largest) :
    a = largest ↔ (a : ZMod largest) = 0 := by
  constructor
  · intro same
    rw [same, ZMod.natCast_self]
  · intro zero
    exact eq_of_residue positive bound (positive.trans_le bound) le_rfl
      (zero.trans (ZMod.natCast_self largest).symm)

end Representation
end OnesComplement
end Uos
