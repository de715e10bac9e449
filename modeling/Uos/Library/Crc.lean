import Mathlib.Data.BitVec

/-!
# Reflected cyclic redundancy checks

A shift register that divides by a polynomial, the least significant bit first.  Its steps are
linear in exclusive or, so that several shifts depend on the bits that leave the register by a
table.
-/

namespace Uos

open BitVec

namespace Crc

variable {w n m : Nat} {poly s t : BitVec w}

/-- Shift one bit out of the register, and divide if it was set. -/
def shift (poly s : BitVec w) : BitVec w :=
  if s.getLsbD 0 then s >>> 1 ^^^ poly else s >>> 1

/-- Shift several bits out. -/
def shifts (poly : BitVec w) : Nat → BitVec w → BitVec w
  | 0, s => s
  | n + 1, s => shifts poly n (shift poly s)

/-- Take in a group of bits. -/
def feed (poly s : BitVec w) (bits : BitVec n) : BitVec w :=
  shifts poly n (s ^^^ bits.setWidth w)

theorem shift_xor (poly s t : BitVec w) : shift poly (s ^^^ t) = shift poly s ^^^ shift poly t := by
  simp only [shift, getLsbD_xor, ushiftRight_xor_distrib]
  cases s.getLsbD 0 <;> cases t.getLsbD 0
  · rfl
  · exact BitVec.xor_assoc ..
  · calc
      s >>> 1 ^^^ t >>> 1 ^^^ poly = s >>> 1 ^^^ (poly ^^^ t >>> 1) := by
        rw [BitVec.xor_assoc, BitVec.xor_comm poly]
      _ = s >>> 1 ^^^ poly ^^^ t >>> 1 := (BitVec.xor_assoc ..).symm
  · calc
      s >>> 1 ^^^ t >>> 1 = s >>> 1 ^^^ (poly ^^^ poly ^^^ t >>> 1) := by
        rw [BitVec.xor_self, BitVec.zero_xor]
      _ = s >>> 1 ^^^ poly ^^^ (poly ^^^ t >>> 1) := by simp only [BitVec.xor_assoc]
      _ = s >>> 1 ^^^ poly ^^^ (t >>> 1 ^^^ poly) := by rw [BitVec.xor_comm poly (t >>> 1)]

theorem shifts_xor (poly s t : BitVec w) (n : Nat) :
    shifts poly n (s ^^^ t) = shifts poly n s ^^^ shifts poly n t := by
  induction n generalizing s t with
  | zero => rfl
  | succ n ih => rw [shifts, shift_xor, ih, shifts, shifts]

/-- A register whose last bits are clear is only shifted. -/
theorem shifts_clear (clear : ∀ i < n, s.getLsbD i = false) : shifts poly n s = s >>> n := by
  induction n generalizing s with
  | zero => exact (ushiftRight_zero s).symm
  | succ n ih =>
    have first : shift poly s = s >>> 1 := by
      rw [shift, clear 0 (Nat.succ_pos n)]
      rfl
    rw [shifts, first, ih, ← shiftRight_add, Nat.add_comm]
    intro i below
    rw [getLsbD_ushiftRight]
    exact clear (1 + i) (by omega)

/-- Shifting depends on the bits that leave the register by a table. -/
theorem shifts_table (poly s : BitVec w) (n : Nat) :
    shifts poly n s = s >>> n ^^^ shifts poly n ((s.setWidth n).setWidth w) := by
  have split : s = s >>> n <<< n ^^^ (s.setWidth n).setWidth w := by
    apply eq_of_getLsbD_eq
    intro i inside
    rw [getLsbD_xor, getLsbD_shiftLeft, getLsbD_ushiftRight,
      getLsbD_setWidth, getLsbD_setWidth]
    rcases Nat.lt_or_ge i n with low | high
    · simp [inside, low]
    · simp [inside, high, Nat.not_lt.mpr high]
  have clear : shifts poly n (s >>> n <<< n) = s >>> n := by
    rw [shifts_clear]
    · apply eq_of_getLsbD_eq
      intro i inside
      rw [getLsbD_ushiftRight, getLsbD_shiftLeft, getLsbD_ushiftRight]
      rcases Nat.lt_or_ge (n + i) w with within | beyond
      · simp [within]
      · simp [getLsbD_of_ge s _ beyond]
    · intro i below
      simp [getLsbD_shiftLeft, below]
  calc
    shifts poly n s = shifts poly n (s >>> n <<< n ^^^ (s.setWidth n).setWidth w) := by
      rw [← split]
    _ = s >>> n ^^^ shifts poly n ((s.setWidth n).setWidth w) := by rw [shifts_xor, clear]

/-- A group of bits is taken in by a table. -/
theorem feed_table (within : n ≤ w) (bits : BitVec n) :
    feed poly s bits = s >>> n ^^^ shifts poly n ((s.setWidth n ^^^ bits).setWidth w) := by
  have shifted : bits.setWidth w >>> n = 0#w := by
    apply eq_of_toNat_eq
    have bound := bits.isLt
    rw [toNat_ushiftRight, toNat_setWidth_of_le within, Nat.shiftRight_eq_div_pow]
    exact Nat.div_eq_of_lt bound
  have narrow : (bits.setWidth w).setWidth n = bits := by
    rw [setWidth_setWidth_of_le _ within, setWidth_eq]
  rw [feed, shifts_table, ushiftRight_xor_distrib, shifted, xor_zero,
    setWidth_xor, narrow]

theorem shifts_zero (poly : BitVec w) (n : Nat) : shifts poly n 0#w = 0#w := by
  have twice := shifts_xor poly 0#w 0#w n
  rwa [BitVec.xor_self, BitVec.xor_self] at twice

theorem feed_xor (poly s t : BitVec w) (bits other : BitVec n) :
    feed poly (s ^^^ t) (bits ^^^ other) = feed poly s bits ^^^ feed poly t other := by
  have swap (a b c d : BitVec w) : a ^^^ b ^^^ (c ^^^ d) = a ^^^ c ^^^ (b ^^^ d) := by
    ac_rfl
  rw [feed, setWidth_xor, swap, shifts_xor, feed, feed]

/-- The last bits of a register clear themselves. -/
theorem feed_own (within : n ≤ w) : feed poly s (s.setWidth n) = s >>> n := by
  rw [feed_table within, BitVec.xor_self, setWidth_zero, shifts_zero, xor_zero]

/-- Nothing is left of a register that is taken in by itself. -/
theorem feed_own_twice (within : n ≤ w) (half : w ≤ 2 * n) :
    feed poly (feed poly s (s.setWidth n)) ((s >>> n).setWidth n) = 0#w := by
  rw [feed_own within, feed_own within, ← shiftRight_add]
  exact ushiftRight_eq_zero (by omega)

theorem shifts_add (poly s : BitVec w) (n m : Nat) :
    shifts poly (n + m) s = shifts poly m (shifts poly n s) := by
  induction n generalizing s with
  | zero => rw [Nat.zero_add, shifts]
  | succ n ih => rw [Nat.succ_add, shifts, shifts, ih]

/-- Bits are taken in by two groups, the last ones first. -/
theorem feed_add (bits : BitVec (n + m)) (within : n + m ≤ w) :
    feed poly s bits =
      feed poly (feed poly s (bits.setWidth n)) ((bits >>> n).setWidth m) := by
  have last : (bits.setWidth w).setWidth n = bits.setWidth n :=
    setWidth_setWidth_of_le bits (by omega)
  have first : bits.setWidth w >>> n = ((bits >>> n).setWidth m).setWidth w := by
    apply eq_of_toNat_eq
    have bound := bits.isLt
    have small : bits.toNat / 2 ^ n < 2 ^ m :=
      Nat.div_lt_of_lt_mul (by rwa [← Nat.pow_add])
    rw [toNat_ushiftRight, toNat_setWidth_of_le within,
      toNat_setWidth_of_le (by omega), toNat_setWidth, toNat_ushiftRight,
      Nat.shiftRight_eq_div_pow, Nat.mod_eq_of_lt small]
  calc
    feed poly s bits =
        shifts poly m (shifts poly n s ^^^ shifts poly n (bits.setWidth w)) := by
      rw [feed, shifts_add, shifts_xor]
    _ = shifts poly m (shifts poly n s ^^^ shifts poly n ((bits.setWidth n).setWidth w) ^^^
        ((bits >>> n).setWidth m).setWidth w) := by
      rw [shifts_table poly (bits.setWidth w), last, first, BitVec.xor_comm (BitVec.setWidth w _),
        BitVec.xor_assoc]
    _ = feed poly (feed poly s (bits.setWidth n)) ((bits >>> n).setWidth m) := by
      rw [feed, feed, shifts_xor poly s]

/-- A register does not forget, if the polynomial has its last term. -/
theorem shift_injective (last : poly.getLsbD (w - 1) = true) : Function.Injective (shift poly) := by
  have positive : 0 < w := by
    rcases Nat.eq_zero_or_pos w with rfl | positive
    · rw [getLsbD_of_ge poly _ (Nat.zero_le _)] at last
      contradiction
    · exact positive
  have top (s : BitVec w) : (shift poly s).getLsbD (w - 1) = s.getLsbD 0 := by
    have outside : s.getLsbD (1 + (w - 1)) = false := getLsbD_of_ge s _ (by omega)
    rw [shift]
    cases own : s.getLsbD 0
    · simpa using outside
    · simp [last, outside]
  intro s t same
  have first : s.getLsbD 0 = t.getLsbD 0 := by rw [← top s, same, top]
  have rest : s >>> 1 = t >>> 1 := by
    simp only [shift, first] at same
    split at same
    · exact (xor_left_inj poly).mp same
    · exact same
  apply eq_of_getLsbD_eq
  intro i inside
  cases i with
  | zero => exact first
  | succ i =>
    have bit := congrArg (BitVec.getLsbD · i) rest
    simpa [Nat.add_comm 1] using bit

theorem shifts_injective (last : poly.getLsbD (w - 1) = true) (n : Nat) :
    Function.Injective (shifts poly n) := by
  induction n with
  | zero => exact Function.injective_id
  | succ n ih => exact ih.comp (shift_injective last)

/-- Different groups of bits make different registers. -/
theorem feed_injective (within : n ≤ w) (last : poly.getLsbD (w - 1) = true) :
    Function.Injective (feed poly s : BitVec n → BitVec w) := by
  intro bits other same
  have wide := (xor_right_inj s).mp (shifts_injective last n same)
  have narrow := congrArg (BitVec.setWidth n) wide
  rwa [setWidth_setWidth_of_le _ within, setWidth_setWidth_of_le _ within,
    setWidth_eq, setWidth_eq] at narrow

end Crc
end Uos
