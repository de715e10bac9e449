import Mathlib.Data.List.GetD
import Uos.Library.Crc
import Uos.Net.Bytes

/-!
# The checksum of CCITT

The functions of `crc/crc16-ccitt.c`, with and without `USE_8BIT_OPS`.  Both tables are those of the
polynomial `x^16 + x^12 + x^5 + 1`, but the two loops over a buffer do not end at the same byte.
-/

namespace Uos

open BitVec

/-- `CRC16_CCITT_INIT` -/
def crc16CcittInit : UShort := 0xffff

/-- `CRC16_CCITT_GOOD` -/
def crc16CcittGood : UShort := 0xf0b8

/-- How `crc16-ccitt.c` is built. -/
inductive CcittBuild
  /-- With `USE_8BIT_OPS`. -/
  | ops8
  | ops16
  deriving DecidableEq

namespace Ccitt

set_option maxRecDepth 8192 in
/-- `poly_tab` of 16-bit operations. -/
def polyTab16 : Vector UShort 256 :=
  #v[
    0x0000, 0x1189, 0x2312, 0x329b, 0x4624, 0x57ad, 0x6536, 0x74bf, 0x8c48, 0x9dc1,
    0xaf5a, 0xbed3, 0xca6c, 0xdbe5, 0xe97e, 0xf8f7, 0x1081, 0x0108, 0x3393, 0x221a,
    0x56a5, 0x472c, 0x75b7, 0x643e, 0x9cc9, 0x8d40, 0xbfdb, 0xae52, 0xdaed, 0xcb64,
    0xf9ff, 0xe876, 0x2102, 0x308b, 0x0210, 0x1399, 0x6726, 0x76af, 0x4434, 0x55bd,
    0xad4a, 0xbcc3, 0x8e58, 0x9fd1, 0xeb6e, 0xfae7, 0xc87c, 0xd9f5, 0x3183, 0x200a,
    0x1291, 0x0318, 0x77a7, 0x662e, 0x54b5, 0x453c, 0xbdcb, 0xac42, 0x9ed9, 0x8f50,
    0xfbef, 0xea66, 0xd8fd, 0xc974, 0x4204, 0x538d, 0x6116, 0x709f, 0x0420, 0x15a9,
    0x2732, 0x36bb, 0xce4c, 0xdfc5, 0xed5e, 0xfcd7, 0x8868, 0x99e1, 0xab7a, 0xbaf3,
    0x5285, 0x430c, 0x7197, 0x601e, 0x14a1, 0x0528, 0x37b3, 0x263a, 0xdecd, 0xcf44,
    0xfddf, 0xec56, 0x98e9, 0x8960, 0xbbfb, 0xaa72, 0x6306, 0x728f, 0x4014, 0x519d,
    0x2522, 0x34ab, 0x0630, 0x17b9, 0xef4e, 0xfec7, 0xcc5c, 0xddd5, 0xa96a, 0xb8e3,
    0x8a78, 0x9bf1, 0x7387, 0x620e, 0x5095, 0x411c, 0x35a3, 0x242a, 0x16b1, 0x0738,
    0xffcf, 0xee46, 0xdcdd, 0xcd54, 0xb9eb, 0xa862, 0x9af9, 0x8b70, 0x8408, 0x9581,
    0xa71a, 0xb693, 0xc22c, 0xd3a5, 0xe13e, 0xf0b7, 0x0840, 0x19c9, 0x2b52, 0x3adb,
    0x4e64, 0x5fed, 0x6d76, 0x7cff, 0x9489, 0x8500, 0xb79b, 0xa612, 0xd2ad, 0xc324,
    0xf1bf, 0xe036, 0x18c1, 0x0948, 0x3bd3, 0x2a5a, 0x5ee5, 0x4f6c, 0x7df7, 0x6c7e,
    0xa50a, 0xb483, 0x8618, 0x9791, 0xe32e, 0xf2a7, 0xc03c, 0xd1b5, 0x2942, 0x38cb,
    0x0a50, 0x1bd9, 0x6f66, 0x7eef, 0x4c74, 0x5dfd, 0xb58b, 0xa402, 0x9699, 0x8710,
    0xf3af, 0xe226, 0xd0bd, 0xc134, 0x39c3, 0x284a, 0x1ad1, 0x0b58, 0x7fe7, 0x6e6e,
    0x5cf5, 0x4d7c, 0xc60c, 0xd785, 0xe51e, 0xf497, 0x8028, 0x91a1, 0xa33a, 0xb2b3,
    0x4a44, 0x5bcd, 0x6956, 0x78df, 0x0c60, 0x1de9, 0x2f72, 0x3efb, 0xd68d, 0xc704,
    0xf59f, 0xe416, 0x90a9, 0x8120, 0xb3bb, 0xa232, 0x5ac5, 0x4b4c, 0x79d7, 0x685e,
    0x1ce1, 0x0d68, 0x3ff3, 0x2e7a, 0xe70e, 0xf687, 0xc41c, 0xd595, 0xa12a, 0xb0a3,
    0x8238, 0x93b1, 0x6b46, 0x7acf, 0x4854, 0x59dd, 0x2d62, 0x3ceb, 0x0e70, 0x1ff9,
    0xf78f, 0xe606, 0xd49d, 0xc514, 0xb1ab, 0xa022, 0x92b9, 0x8330, 0x7bc7, 0x6a4e,
    0x58d5, 0x495c, 0x3de3, 0x2c6a, 0x1ef1, 0x0f78]

set_option maxRecDepth 8192 in
/-- `poly_tab` of 8-bit operations: the low bytes, and behind them the high bytes. -/
def polyTab8 : Vector UChar 512 :=
  #v[
    0x00, 0x89, 0x12, 0x9b, 0x24, 0xad, 0x36, 0xbf, 0x48, 0xc1, 0x5a, 0xd3, 0x6c, 0xe5,
    0x7e, 0xf7, 0x81, 0x08, 0x93, 0x1a, 0xa5, 0x2c, 0xb7, 0x3e, 0xc9, 0x40, 0xdb, 0x52,
    0xed, 0x64, 0xff, 0x76, 0x02, 0x8b, 0x10, 0x99, 0x26, 0xaf, 0x34, 0xbd, 0x4a, 0xc3,
    0x58, 0xd1, 0x6e, 0xe7, 0x7c, 0xf5, 0x83, 0x0a, 0x91, 0x18, 0xa7, 0x2e, 0xb5, 0x3c,
    0xcb, 0x42, 0xd9, 0x50, 0xef, 0x66, 0xfd, 0x74, 0x04, 0x8d, 0x16, 0x9f, 0x20, 0xa9,
    0x32, 0xbb, 0x4c, 0xc5, 0x5e, 0xd7, 0x68, 0xe1, 0x7a, 0xf3, 0x85, 0x0c, 0x97, 0x1e,
    0xa1, 0x28, 0xb3, 0x3a, 0xcd, 0x44, 0xdf, 0x56, 0xe9, 0x60, 0xfb, 0x72, 0x06, 0x8f,
    0x14, 0x9d, 0x22, 0xab, 0x30, 0xb9, 0x4e, 0xc7, 0x5c, 0xd5, 0x6a, 0xe3, 0x78, 0xf1,
    0x87, 0x0e, 0x95, 0x1c, 0xa3, 0x2a, 0xb1, 0x38, 0xcf, 0x46, 0xdd, 0x54, 0xeb, 0x62,
    0xf9, 0x70, 0x08, 0x81, 0x1a, 0x93, 0x2c, 0xa5, 0x3e, 0xb7, 0x40, 0xc9, 0x52, 0xdb,
    0x64, 0xed, 0x76, 0xff, 0x89, 0x00, 0x9b, 0x12, 0xad, 0x24, 0xbf, 0x36, 0xc1, 0x48,
    0xd3, 0x5a, 0xe5, 0x6c, 0xf7, 0x7e, 0x0a, 0x83, 0x18, 0x91, 0x2e, 0xa7, 0x3c, 0xb5,
    0x42, 0xcb, 0x50, 0xd9, 0x66, 0xef, 0x74, 0xfd, 0x8b, 0x02, 0x99, 0x10, 0xaf, 0x26,
    0xbd, 0x34, 0xc3, 0x4a, 0xd1, 0x58, 0xe7, 0x6e, 0xf5, 0x7c, 0x0c, 0x85, 0x1e, 0x97,
    0x28, 0xa1, 0x3a, 0xb3, 0x44, 0xcd, 0x56, 0xdf, 0x60, 0xe9, 0x72, 0xfb, 0x8d, 0x04,
    0x9f, 0x16, 0xa9, 0x20, 0xbb, 0x32, 0xc5, 0x4c, 0xd7, 0x5e, 0xe1, 0x68, 0xf3, 0x7a,
    0x0e, 0x87, 0x1c, 0x95, 0x2a, 0xa3, 0x38, 0xb1, 0x46, 0xcf, 0x54, 0xdd, 0x62, 0xeb,
    0x70, 0xf9, 0x8f, 0x06, 0x9d, 0x14, 0xab, 0x22, 0xb9, 0x30, 0xc7, 0x4e, 0xd5, 0x5c,
    0xe3, 0x6a, 0xf1, 0x78, 0x00, 0x11, 0x23, 0x32, 0x46, 0x57, 0x65, 0x74, 0x8c, 0x9d,
    0xaf, 0xbe, 0xca, 0xdb, 0xe9, 0xf8, 0x10, 0x01, 0x33, 0x22, 0x56, 0x47, 0x75, 0x64,
    0x9c, 0x8d, 0xbf, 0xae, 0xda, 0xcb, 0xf9, 0xe8, 0x21, 0x30, 0x02, 0x13, 0x67, 0x76,
    0x44, 0x55, 0xad, 0xbc, 0x8e, 0x9f, 0xeb, 0xfa, 0xc8, 0xd9, 0x31, 0x20, 0x12, 0x03,
    0x77, 0x66, 0x54, 0x45, 0xbd, 0xac, 0x9e, 0x8f, 0xfb, 0xea, 0xd8, 0xc9, 0x42, 0x53,
    0x61, 0x70, 0x04, 0x15, 0x27, 0x36, 0xce, 0xdf, 0xed, 0xfc, 0x88, 0x99, 0xab, 0xba,
    0x52, 0x43, 0x71, 0x60, 0x14, 0x05, 0x37, 0x26, 0xde, 0xcf, 0xfd, 0xec, 0x98, 0x89,
    0xbb, 0xaa, 0x63, 0x72, 0x40, 0x51, 0x25, 0x34, 0x06, 0x17, 0xef, 0xfe, 0xcc, 0xdd,
    0xa9, 0xb8, 0x8a, 0x9b, 0x73, 0x62, 0x50, 0x41, 0x35, 0x24, 0x16, 0x07, 0xff, 0xee,
    0xdc, 0xcd, 0xb9, 0xa8, 0x9a, 0x8b, 0x84, 0x95, 0xa7, 0xb6, 0xc2, 0xd3, 0xe1, 0xf0,
    0x08, 0x19, 0x2b, 0x3a, 0x4e, 0x5f, 0x6d, 0x7c, 0x94, 0x85, 0xb7, 0xa6, 0xd2, 0xc3,
    0xf1, 0xe0, 0x18, 0x09, 0x3b, 0x2a, 0x5e, 0x4f, 0x7d, 0x6c, 0xa5, 0xb4, 0x86, 0x97,
    0xe3, 0xf2, 0xc0, 0xd1, 0x29, 0x38, 0x0a, 0x1b, 0x6f, 0x7e, 0x4c, 0x5d, 0xb5, 0xa4,
    0x96, 0x87, 0xf3, 0xe2, 0xd0, 0xc1, 0x39, 0x28, 0x1a, 0x0b, 0x7f, 0x6e, 0x5c, 0x4d,
    0xc6, 0xd7, 0xe5, 0xf4, 0x80, 0x91, 0xa3, 0xb2, 0x4a, 0x5b, 0x69, 0x78, 0x0c, 0x1d,
    0x2f, 0x3e, 0xd6, 0xc7, 0xf5, 0xe4, 0x90, 0x81, 0xb3, 0xa2, 0x5a, 0x4b, 0x79, 0x68,
    0x1c, 0x0d, 0x3f, 0x2e, 0xe7, 0xf6, 0xc4, 0xd5, 0xa1, 0xb0, 0x82, 0x93, 0x6b, 0x7a,
    0x48, 0x59, 0x2d, 0x3c, 0x0e, 0x1f, 0xf7, 0xe6, 0xd4, 0xc5, 0xb1, 0xa0, 0x92, 0x83,
    0x7b, 0x6a, 0x58, 0x49, 0x3d, 0x2c, 0x1e, 0x0f]

/-- The step of `crc16_ccitt_byte` in 16-bit operations. -/
def step16 (sum : UShort) (byte : UChar) : UShort :=
  sum >>> 8 ^^^ polyTab16.get (byte ^^^ sum.low).toFin

def step8 (sum : UShort) (byte : UChar) : UShort :=
  let indx := byte ^^^ sum.low
  UShort.ofBytes (polyTab8.get (Fin.natAdd 256 indx.toFin))
    (sum.high ^^^ polyTab8.get (indx.toFin.castLE (by decide)))

end Ccitt

/-- `crc16_ccitt_byte` -/
def crc16CcittByte : CcittBuild → UShort → UChar → UShort
  | .ops8 => Ccitt.step8
  | .ops16 => Ccitt.step16

namespace Ccitt

/-- The body of the loop once, and again as often as its condition holds after it. -/
def loop (build : CcittBuild) (memory : Nat → UChar) (sum : UShort) (buf : Nat) : Nat → UShort
  | 0 => crc16CcittByte build sum (memory buf)
  | again + 1 => loop build memory (crc16CcittByte build sum (memory buf)) (buf + 1) again

end Ccitt

/-- `crc16_ccitt` of the bytes at an address in memory.  The condition of the loop is `--len`, or
`len--` in 8-bit operations. -/
def crc16Ccitt (build : CcittBuild) (memory : Nat → UChar) (sum : UShort) (buf : Nat)
    (len : UShort) : UShort :=
  if len = 0 then sum
  else
    match build with
    | .ops8 => Ccitt.loop build memory sum buf len.toNat
    | .ops16 => Ccitt.loop build memory sum buf (len.toNat - 1)

namespace Ccitt

/-- `x^16 + x^12 + x^5 + 1`, the least significant bit first. -/
def polynomial : UShort := 0x8408

def serial (sum : UShort) (bytes : List UChar) : UShort :=
  bytes.foldl (Crc.feed polynomial) sum

/-- The bytes at an address in memory. -/
def At (memory : Nat → UChar) (buf : Nat) (bytes : List UChar) : Prop :=
  ∀ i, (inside : i < bytes.length) → memory (buf + i) = bytes[i]

/-- The low and the high byte of the complement of the sum of a message. -/
def trailer (m : List UChar) : List UChar :=
  [(~~~serial crc16CcittInit m).low, (~~~serial crc16CcittInit m).high]

theorem polyTab16_toList :
    polyTab16.toList = (List.range 256).map fun i => Crc.shifts polynomial 8 (.ofNat 16 i) := by
  decide +kernel

theorem polyTab8_toList :
    polyTab8.toList = (polyTab16.toList.map UShort.low) ++ polyTab16.toList.map UShort.high := by
  decide +kernel

theorem polyTab16_getElem? (i : UChar) :
    polyTab16.toList[i.toNat]? = some (polyTab16.get i.toFin) := by
  rw [Vector.getElem?_toList]
  exact Vector.getElem?_eq_getElem i.isLt

theorem polyTab16_eq (i : UChar) :
    polyTab16.get i.toFin = Crc.shifts polynomial 8 (i.setWidth 16) := by
  have entry := polyTab16_getElem? i
  rw [polyTab16_toList, List.getElem?_map, List.getElem?_range i.isLt] at entry
  rw [← ofNat_toNat]
  exact (Option.some.inj entry).symm

theorem polyTab8_eq (i : UChar) :
    UShort.ofBytes (polyTab8.get (Fin.natAdd 256 i.toFin))
      (polyTab8.get (i.toFin.castLE (by decide))) = polyTab16.get i.toFin := by
  have bound : i.toNat < 256 := i.isLt
  have wide : i.toNat < 512 := by omega
  have length : (polyTab16.toList.map UShort.low).length = 256 := by
    rw [List.length_map, Vector.length_toList]
  have low : polyTab8.get (i.toFin.castLE (by decide)) = (polyTab16.get i.toFin).low := by
    have entry : polyTab8.toList[i.toNat]? =
        some (polyTab8.get (i.toFin.castLE (by decide))) := by
      rw [Vector.getElem?_toList]
      exact Vector.getElem?_eq_getElem wide
    rw [polyTab8_toList, List.getElem?_append_left (bound.trans_eq length.symm), List.getElem?_map,
      polyTab16_getElem?] at entry
    exact (Option.some.inj entry).symm
  have high : polyTab8.get (Fin.natAdd 256 i.toFin) = (polyTab16.get i.toFin).high := by
    have entry : polyTab8.toList[256 + i.toNat]? =
        some (polyTab8.get (Fin.natAdd 256 i.toFin)) := by
      rw [Vector.getElem?_toList]
      exact Vector.getElem?_eq_getElem (Nat.add_lt_add_left bound 256)
    rw [polyTab8_toList, List.getElem?_append_right (by omega), length, Nat.add_sub_cancel_left,
      List.getElem?_map, polyTab16_getElem?] at entry
    exact (Option.some.inj entry).symm
  rw [low, high]
  exact UShort.ofBytes_high_low _

theorem step16_eq (sum : UShort) (byte : UChar) :
    step16 sum byte = Crc.feed polynomial sum byte := by
  rw [Crc.feed_table (by decide), step16, polyTab16_eq, BitVec.xor_comm byte]
  rfl

theorem step8_eq (sum : UShort) (byte : UChar) : step8 sum byte = step16 sum byte := by
  have shifted : sum >>> 8 = UShort.ofBytes 0 sum.high := by
    apply eq_of_toNat_eq
    rw [UShort.ofBytes_toNat, UShort.high_toNat, toNat_ushiftRight,
      Nat.shiftRight_eq_div_pow]
    exact (Nat.zero_add _).symm
  simp only [step8, step16]
  rw [← polyTab8_eq, shifted, UShort.ofBytes, UShort.ofBytes, UShort.ofBytes, xor_append]
  simp

theorem crc16CcittByte_eq (build : CcittBuild) : crc16CcittByte build = Crc.feed polynomial := by
  funext sum byte
  cases build with
  | ops8 => exact (step8_eq sum byte).trans (step16_eq sum byte)
  | ops16 => exact step16_eq sum byte

variable {build : CcittBuild} {memory : Nat → UChar} {sum : UShort} {buf : Nat}
  {bytes m : List UChar}

theorem At.head {byte : UChar} (at' : At memory buf (byte :: bytes)) : memory buf = byte :=
  at' 0 (Nat.succ_pos _)

theorem At.tail {byte : UChar} (at' : At memory buf (byte :: bytes)) :
    At memory (buf + 1) bytes := by
  intro i inside
  rw [Nat.add_assoc, Nat.add_comm 1]
  exact at' (i + 1) (Nat.succ_lt_succ inside)

theorem loop_eq {again : Nat} (at' : At memory buf bytes) (length : bytes.length = again + 1) :
    loop build memory sum buf again = serial sum bytes := by
  induction again generalizing sum buf bytes with
  | zero =>
    obtain ⟨byte, rfl⟩ := List.length_eq_one_iff.mp length
    rw [loop, at'.head, crc16CcittByte_eq]
    rfl
  | succ again ih =>
    cases bytes with
    | nil => contradiction
    | cons byte bytes =>
      rw [loop, at'.head, ih at'.tail (Nat.succ.inj length), crc16CcittByte_eq]
      rfl

def place (bytes : List UChar) (next : UChar) (address : Nat) : UChar :=
  bytes.getD address next

theorem place_at (bytes : List UChar) (next : UChar) : At (place bytes next) 0 bytes := by
  intro i inside
  rw [place, Nat.zero_add, List.getD_eq_getElem _ _ inside]

theorem place_at_next (bytes : List UChar) (next : UChar) :
    At (place bytes next) 0 (bytes ++ [next]) := by
  intro i inside
  rw [place, Nat.zero_add, List.getElem_append]
  split
  · rename_i before
    exact List.getD_eq_getElem _ _ before
  · rename_i behind
    rw [List.getElem_singleton, List.getD_eq_default _ _ (Nat.not_lt.mp behind)]

theorem crc16Ccitt_ops16 (at' : At memory buf bytes) (short : bytes.length < 2 ^ 16) :
    crc16Ccitt .ops16 memory sum buf (.ofNat 16 bytes.length) = serial sum bytes := by
  have length : (BitVec.ofNat 16 bytes.length).toNat = bytes.length := by
    rw [toNat_ofNat, Nat.mod_eq_of_lt short]
  rw [crc16Ccitt]
  split
  · rename_i zero
    have none : bytes.length = 0 := length.symm.trans (congrArg BitVec.toNat zero)
    rw [List.length_eq_zero_iff.mp none]
    rfl
  · rename_i positive
    have some : bytes.length ≠ 0 := fun none => positive (congrArg (BitVec.ofNat 16) none)
    refine loop_eq at' ?_
    rw [length]
    omega

theorem crc16Ccitt_ops8 {next : UChar} (at' : At memory buf (bytes ++ [next]))
    (nonempty : bytes ≠ []) (short : bytes.length < 2 ^ 16) :
    crc16Ccitt .ops8 memory sum buf (.ofNat 16 bytes.length) =
      Crc.feed polynomial (serial sum bytes) next := by
  have length : (BitVec.ofNat 16 bytes.length).toNat = bytes.length := by
    rw [toNat_ofNat, Nat.mod_eq_of_lt short]
  have positive : BitVec.ofNat 16 bytes.length ≠ 0 := by
    intro zero
    rw [zero] at length
    exact nonempty (List.length_eq_zero_iff.mp length.symm)
  have more : (bytes ++ [next]).length = bytes.length + 1 := List.length_append
  rw [crc16Ccitt, if_neg positive, length, loop_eq at' more, serial, List.foldl_append]
  rfl

theorem exists_changing (sum : UShort) : ∃ next : UChar, Crc.feed polynomial sum next ≠ sum := by
  rcases eq_or_ne (Crc.feed polynomial sum (0 : UChar)) sum with same | other
  · refine ⟨1, fun same' => ?_⟩
    have equal : (0 : UChar) = 1 :=
      Crc.feed_injective (by decide) (by decide) (same.trans same'.symm)
    exact absurd equal (by decide)
  · exact ⟨0, other⟩

theorem high_eq (s : UShort) : s.high = (s >>> 8).setWidth 8 := by
  apply eq_of_toNat_eq
  have bound := s.isLt
  rw [UShort.high_toNat, toNat_setWidth, toNat_ushiftRight,
    Nat.shiftRight_eq_div_pow]
  omega

theorem serial_trailer (m : List UChar) :
    serial crc16CcittInit (m ++ trailer m) = crc16CcittGood := by
  rw [serial, List.foldl_append]
  change serial (serial crc16CcittInit m) (trailer m) = crc16CcittGood
  rw [trailer]
  generalize serial crc16CcittInit m = s
  have low : (~~~s).low = s.setWidth 8 ^^^ 0xff := by
    rw [UShort.low, ← xor_allOnes, setWidth_xor]
    rfl
  have high : (~~~s).high = (s >>> 8).setWidth 8 ^^^ 0xff := by
    rw [high_eq, ← xor_allOnes, ushiftRight_xor_distrib, setWidth_xor]
    rfl
  calc
    serial s [(~~~s).low, (~~~s).high] =
        Crc.feed polynomial (Crc.feed polynomial (s ^^^ 0#16) (s.setWidth 8 ^^^ 0xff))
          ((s >>> 8).setWidth 8 ^^^ 0xff) := by
      rw [low, high, xor_zero]
      rfl
    _ = Crc.feed polynomial (Crc.feed polynomial s (s.setWidth 8)) ((s >>> 8).setWidth 8) ^^^
        Crc.feed polynomial (Crc.feed polynomial 0 0xff) 0xff := by
      rw [Crc.feed_xor, Crc.feed_xor]
      rfl
    _ = crc16CcittGood := by
      rw [Crc.feed_own_twice (by decide) (by decide)]
      decide +kernel

/-- The sum of a buffer is the bit-serial sum of its bytes, and so is the sum of one byte after the
other. -/
def Agrees (build : CcittBuild) (sum : UShort) (bytes : List UChar) : Prop :=
  (∀ memory buf, At memory buf bytes →
    crc16Ccitt build memory sum buf (.ofNat 16 bytes.length) = serial sum bytes) ∧
  bytes.foldl (crc16CcittByte build) sum = serial sum bytes

/-- A message with its complemented sum behind it is recognised. -/
def Recognises (build : CcittBuild) (m : List UChar) : Prop :=
  ∀ memory buf, At memory buf (m ++ trailer m) →
    crc16Ccitt build memory crc16CcittInit buf (.ofNat 16 (m ++ trailer m).length) =
      crc16CcittGood

theorem agrees_iff (short : bytes.length < 2 ^ 16) :
    Agrees build sum bytes ↔ build = .ops16 ∨ bytes = [] := by
  have byBytes : bytes.foldl (crc16CcittByte build) sum = serial sum bytes := by
    rw [crc16CcittByte_eq, serial]
  constructor
  · rintro ⟨agrees, -⟩
    cases build with
    | ops16 => exact .inl rfl
    | ops8 =>
      refine .inr (Classical.byContradiction fun nonempty => ?_)
      obtain ⟨next, changes⟩ := exists_changing (serial sum bytes)
      have behind : crc16Ccitt .ops8 (place bytes next) sum 0 (.ofNat 16 bytes.length) =
          Crc.feed polynomial (serial sum bytes) next :=
        crc16Ccitt_ops8 (place_at_next bytes next) nonempty short
      exact changes (behind.symm.trans (agrees _ 0 (place_at bytes next)))
  · rintro (rfl | rfl)
    · exact ⟨fun memory buf at' => crc16Ccitt_ops16 at' short, byBytes⟩
    · exact ⟨fun memory buf at' => rfl, byBytes⟩

theorem recognises_iff (short : m.length + 2 < 2 ^ 16) : Recognises build m ↔ build = .ops16 := by
  have length : (m ++ trailer m).length < 2 ^ 16 := by
    rw [List.length_append]
    exact short
  constructor
  · intro recognises
    cases build with
    | ops16 => rfl
    | ops8 =>
      obtain ⟨next, changes⟩ := exists_changing crc16CcittGood
      have behind : crc16Ccitt .ops8 (place (m ++ trailer m) next) crc16CcittInit 0
          (.ofNat 16 (m ++ trailer m).length) =
            Crc.feed polynomial (serial crc16CcittInit (m ++ trailer m)) next :=
        crc16Ccitt_ops8 (place_at_next _ next) (by simp [trailer]) length
      rw [recognises _ 0 (place_at _ next), serial_trailer] at behind
      exact absurd behind.symm changes
  · rintro rfl memory buf at'
    rw [crc16Ccitt_ops16 at' length, serial_trailer]

/-- The build with 8-bit operations is right about the empty buffer only; the other one always. -/
theorem crc16Ccitt_right_iff (build : CcittBuild) (sum : UShort) {bytes m : List UChar}
    (short : bytes.length < 2 ^ 16) (short' : m.length + 2 < 2 ^ 16) :
    (Agrees build sum bytes ↔ build = .ops16 ∨ bytes = []) ∧
      (Recognises build m ↔ build = .ops16) :=
  ⟨agrees_iff short, recognises_iff short'⟩

theorem crc16Ccitt_right_byte :
    (Agrees .ops16 0xffff [0x10] ↔ CcittBuild.ops16 = .ops16 ∨ [(0x10 : UChar)] = []) ∧
      (Recognises .ops16 [0x10, 0x20] ↔ CcittBuild.ops16 = .ops16) :=
  crc16Ccitt_right_iff .ops16 0xffff (by decide) (by decide)

/-- With 8-bit operations, the sum of one byte depends on the byte behind it. -/
theorem ops8_reads_behind : ¬Agrees .ops8 0xffff [0x10] := by
  rintro ⟨agrees, -⟩
  have sum := agrees (place [0x10] 0) 0 (place_at [0x10] 0)
  exact absurd sum (by decide +kernel)

end Ccitt
end Uos
