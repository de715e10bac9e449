import Uos.Crc.Crc16Ccitt

/-!
# The sums of 16 and of 8 bits

The functions of `crc/crc16.c` and `crc/crc8-atm.c`.  Their tables are those of
`x^16 + x^15 + x^2 + 1` and of `x^8 + x^2 + x + 1`.
-/

namespace Uos

open Function BitVec

/-- Whether `__AVR__` is defined. -/
inductive CrcBuild
  | avr
  | other
  deriving DecidableEq

/-- `CRC16_INIT` -/
def crc16Init : UShort := 0x0000

/-- `CRC16_GOOD` -/
def crc16Good : UShort := 0x0000

namespace CrcBuild

/-- `poly_tab_data`: the low bytes, and behind them the high bytes. -/
def polyTabBytes : Vector UChar 32 :=
  #v[
    0x00, 0x01, 0x01, 0x00, 0x01, 0x00, 0x00, 0x01, 0x01, 0x00, 0x00, 0x01, 0x00, 0x01, 0x01, 0x00,
    0x00, 0xCC, 0xD8, 0x14, 0xF0, 0x3C, 0x28, 0xE4, 0xA0, 0x6C, 0x78, 0xB4, 0x50, 0x9C, 0x88, 0x44]

def polyTabWords : Vector UShort 16 :=
  #v[
    0x0000, 0xCC01, 0xD801, 0x1400, 0xF001, 0x3C00, 0x2800, 0xE401,
    0xA001, 0x6C00, 0x7800, 0xB401, 0x5000, 0x9C01, 0x8801, 0x4400]

/-- `poly_tab` -/
def polyTab (nibble : BitVec 4) : CrcBuild → UShort
  | avr =>
    UShort.ofBytes (polyTabBytes.get (Fin.natAdd 16 nibble.toFin))
      (polyTabBytes.get (nibble.toFin.castLE (by decide)))
  | other => polyTabWords.get nibble.toFin

/-- One of the two steps of `crc16_byte`. -/
def nibbleStep (build : CrcBuild) (sum : UShort) (nibble : BitVec 4) : UShort :=
  sum >>> 4 ^^^ build.polyTab (sum.setWidth 4) ^^^ build.polyTab nibble

/-- `crc16_byte` -/
def crc16Byte (build : CrcBuild) (sum : UShort) (byte : UChar) : UShort :=
  build.nibbleStep (build.nibbleStep sum (byte.setWidth 4)) ((byte >>> 4).setWidth 4)

end CrcBuild

/-- The body of a loop over the bytes at an address, as often as it is run. -/
def eachByte {σ : Type} (step : σ → UChar → σ) (memory : Nat → UChar) (sum : σ) (buf : Nat) :
    Nat → σ
  | 0 => sum
  | again + 1 => eachByte step memory (step sum (memory buf)) (buf + 1) again

/-- `crc16` -/
def crc16 (build : CrcBuild) (memory : Nat → UChar) (sum : UShort) (buf : Nat) (len : UShort) :
    UShort :=
  if len = 0 then sum else eachByte build.crc16Byte memory sum buf ((len - 1).toNat + 1)

set_option maxRecDepth 8192 in
/-- `poly_tab` of `crc8-atm.c` -/
def atmPolyTab : Vector UChar 256 :=
  #v[
    0, 7, 14, 9, 28, 27, 18, 21, 56, 63, 54, 49, 36, 35, 42, 45,
    112, 119, 126, 121, 108, 107, 98, 101, 72, 79, 70, 65, 84, 83, 90, 93,
    224, 231, 238, 233, 252, 251, 242, 245, 216, 223, 214, 209, 196, 195, 202, 205,
    144, 151, 158, 153, 140, 139, 130, 133, 168, 175, 166, 161, 180, 179, 186, 189,
    199, 192, 201, 206, 219, 220, 213, 210, 255, 248, 241, 246, 227, 228, 237, 234,
    183, 176, 185, 190, 171, 172, 165, 162, 143, 136, 129, 134, 147, 148, 157, 154,
    39, 32, 41, 46, 59, 60, 53, 50, 31, 24, 17, 22, 3, 4, 13, 10,
    87, 80, 89, 94, 75, 76, 69, 66, 111, 104, 97, 102, 115, 116, 125, 122,
    137, 142, 135, 128, 149, 146, 155, 156, 177, 182, 191, 184, 173, 170, 163, 164,
    249, 254, 247, 240, 229, 226, 235, 236, 193, 198, 207, 200, 221, 218, 211, 212,
    105, 110, 103, 96, 117, 114, 123, 124, 81, 86, 95, 88, 77, 74, 67, 68,
    25, 30, 23, 16, 5, 2, 11, 12, 33, 38, 47, 40, 61, 58, 51, 52,
    78, 73, 64, 71, 82, 85, 92, 91, 118, 113, 120, 127, 106, 109, 100, 99,
    62, 57, 48, 55, 34, 37, 44, 43, 6, 1, 8, 15, 26, 29, 20, 19,
    174, 169, 160, 167, 178, 181, 188, 187, 150, 145, 152, 159, 138, 141, 132, 131,
    222, 217, 208, 215, 194, 197, 204, 203, 230, 225, 232, 239, 250, 253, 244, 243]

/-- `sum = *buf++ ^ poly_tab [sum]`, which is what the assembler text does as well. -/
def atmStep (sum byte : UChar) : UChar :=
  byte ^^^ atmPolyTab.get sum.toFin

/-- `crc8_atm` -/
def crc8Atm (memory : Nat → UChar) (buf : Nat) (len : UChar) : UChar :=
  ~~~(if len = 0 then 0 else eachByte atmStep memory 0 buf ((len - 1).toNat + 1))

/-- One bit of `crc8_atm_slow`, with `sum` of 16 bits. -/
def atmShift (sum : UShort) : UShort :=
  if sum.msb then sum <<< 1 ^^^ 0x0700 else sum <<< 1

def atmSlowStep (sum : UShort) (byte : UChar) : UShort :=
  atmShift^[8] (sum ||| byte.setWidth 16)

/-- `lsl __tmp_reg__`, `rol SUM`, and `eor SUM, %3` if a bit left the sum. -/
def avrShift : UChar × UChar → UChar × UChar
  | (sum, tmp) =>
    let rolled := sum <<< 1 ||| (if tmp.msb then 1 else 0)
    (if sum.msb then rolled ^^^ 7 else rolled, tmp <<< 1)

def avrSlowStep (sum byte : UChar) : UChar :=
  (avrShift^[8] (sum, byte)).1

/-- `crc8_atm_slow`.  The loop of the assembler text has no test before it. -/
def crc8AtmSlow (memory : Nat → UChar) (buf : Nat) (len : UChar) : CrcBuild → UChar
  | .avr => ~~~(eachByte avrSlowStep memory 0 buf ((len - 1).toNat + 1))
  | .other => ~~~(eachByte atmSlowStep memory 0 buf len.toNat).high

namespace CrcBuild

/-- `x^16 + x^15 + x^2 + 1`, the least significant bit first. -/
def polynomial : UShort := 0xA001

def serial (sum : UShort) (bytes : List UChar) : UShort :=
  bytes.foldl (Crc.feed polynomial) sum

/-- The sum of 16 bits is the bit-serial one, a message with its sum behind it is recognised, and
the sums of 8 bits are equal. -/
structure SumsRight (build : CrcBuild) (sum : UShort) (m : List UChar) : Prop where
  serial : m.length < 2 ^ 16 → ∀ memory buf, Ccitt.At memory buf m →
    crc16 build memory sum buf (.ofNat 16 m.length) = serial sum m
  good : m.length + 2 < 2 ^ 16 → ∀ memory buf memory' buf', Ccitt.At memory buf m →
    let last := crc16 build memory crc16Init buf (.ofNat 16 m.length)
    Ccitt.At memory' buf' (m ++ [last.low, last.high]) →
      crc16 build memory' crc16Init buf' (.ofNat 16 (m.length + 2)) = crc16Good
  atm : m.length ≤ 255 → ∀ memory buf, Ccitt.At memory buf m →
    crc8Atm memory buf (.ofNat 8 m.length) = crc8AtmSlow memory buf (.ofNat 8 m.length) build

variable {build : CrcBuild} {memory : Nat → UChar} {sum : UShort} {buf : Nat} {m : List UChar}

theorem eachByte_eq {σ : Type} {step : σ → UChar → σ} {sum : σ} (at' : Ccitt.At memory buf m) :
    eachByte step memory sum buf m.length = m.foldl step sum := by
  induction m generalizing sum buf with
  | nil => rfl
  | cons byte m ih => rw [List.length_cons, eachByte, at'.head, ih at'.tail, List.foldl_cons]

theorem pred_add_one {w n : Nat} (positive : n ≠ 0) (short : n < 2 ^ w) :
    (BitVec.ofNat w n ≠ 0) ∧ (BitVec.ofNat w n - 1).toNat + 1 = n := by
  have value : (BitVec.ofNat w n).toNat = n := by rw [toNat_ofNat, Nat.mod_eq_of_lt short]
  have some : BitVec.ofNat w n ≠ 0 := by
    intro zero
    rw [zero] at value
    exact positive value.symm
  have less : BitVec.ofNat w n - BitVec.ofNat w 1 = BitVec.ofNat w (n - 1) :=
    ofNat_sub_ofNat_of_le n 1 (by omega) (by omega)
  refine ⟨some, ?_⟩
  rw [show (1 : BitVec w) = BitVec.ofNat w 1 from rfl, less, toNat_ofNat,
    Nat.mod_eq_of_lt (by omega), Nat.sub_add_cancel (by omega)]

theorem polyTab_eq : ∀ build nibble,
    polyTab nibble build = Crc.shifts polynomial 4 (nibble.setWidth 16) := by
  intro build
  cases build with
  | avr => decide +kernel
  | other => decide +kernel

theorem nibbleStep_eq (nibble : BitVec 4) :
    build.nibbleStep sum nibble = Crc.feed polynomial sum nibble := by
  rw [Crc.feed_table (by decide), nibbleStep, polyTab_eq, polyTab_eq, setWidth_xor,
    Crc.shifts_xor, BitVec.xor_assoc]

theorem crc16Byte_eq : build.crc16Byte = Crc.feed polynomial := by
  funext sum byte
  rw [crc16Byte, nibbleStep_eq, nibbleStep_eq]
  exact (Crc.feed_add (n := 4) (m := 4) byte (by decide)).symm

theorem crc16_eq (at' : Ccitt.At memory buf m) (short : m.length < 2 ^ 16) :
    crc16 build memory sum buf (.ofNat 16 m.length) = serial sum m := by
  rcases eq_or_ne m [] with rfl | nonempty
  · rfl
  · obtain ⟨some, again⟩ := pred_add_one (mt List.length_eq_zero_iff.mp nonempty) short
    rw [crc16, if_neg some, again, eachByte_eq at', crc16Byte_eq, serial]

theorem serial_own (sum : UShort) : serial sum [sum.low, sum.high] = crc16Good := by
  rw [Ccitt.high_eq]
  exact Crc.feed_own_twice (by decide) (by decide)

theorem ofBytes_xor (a b c d : UChar) :
    UShort.ofBytes a b ^^^ UShort.ofBytes c d = UShort.ofBytes (a ^^^ c) (b ^^^ d) :=
  xor_append

theorem atmShift_xor (s t : UShort) : atmShift (s ^^^ t) = atmShift s ^^^ atmShift t := by
  have turn (a b c : UShort) : a ^^^ c ^^^ (b ^^^ c) = a ^^^ b := by
    rw [BitVec.xor_comm b, BitVec.xor_assoc, ← BitVec.xor_assoc c, BitVec.xor_self,
      BitVec.zero_xor]
  have swap (a b c : UShort) : a ^^^ b ^^^ c = a ^^^ c ^^^ b := by ac_rfl
  simp only [atmShift, msb_xor, shiftLeft_xor_distrib]
  cases s.msb <;> cases t.msb
  · rfl
  · exact BitVec.xor_assoc ..
  · exact swap ..
  · exact (turn ..).symm

theorem atmShift_iterate_xor (n : Nat) (s t : UShort) :
    atmShift^[n] (s ^^^ t) = atmShift^[n] s ^^^ atmShift^[n] t := by
  induction n generalizing s t with
  | zero => rfl
  | succ n ih =>
    rw [iterate_succ_apply, atmShift_xor, ih, iterate_succ_apply,
      iterate_succ_apply]

theorem atmShift_eight (sum byte : UChar) :
    atmShift^[8] (UShort.ofBytes sum byte) = UShort.ofBytes (atmStep sum byte) 0 := by
  have table : ∀ sum : UChar, atmShift^[8] (UShort.ofBytes sum 0) =
      UShort.ofBytes (atmPolyTab.get sum.toFin) 0 := by decide +kernel
  have whole : ∀ byte : UChar, atmShift^[8] (UShort.ofBytes 0 byte) = UShort.ofBytes byte 0 := by
    decide +kernel
  have split : UShort.ofBytes sum byte = UShort.ofBytes sum 0 ^^^ UShort.ofBytes 0 byte := by
    rw [ofBytes_xor]
    exact (congrArg₂ _ xor_zero BitVec.zero_xor).symm
  rw [split, atmShift_iterate_xor, table, whole, ofBytes_xor, BitVec.xor_comm _ byte]
  rfl

theorem atmSlowStep_eq (sum byte : UChar) :
    atmSlowStep (UShort.ofBytes sum 0) byte = UShort.ofBytes (atmStep sum byte) 0 := by
  have wide : byte.setWidth 16 = UShort.ofBytes 0 byte := by
    apply eq_of_toNat_eq
    rw [UShort.ofBytes_toNat, toNat_setWidth_of_le (by decide)]
    exact (Nat.zero_add _).symm
  have both : UShort.ofBytes sum 0 ||| UShort.ofBytes 0 byte = UShort.ofBytes sum byte := by
    have parts : UShort.ofBytes sum 0 ||| UShort.ofBytes 0 byte =
        UShort.ofBytes (sum ||| 0) (0 ||| byte) := or_append
    exact parts.trans (congrArg₂ _ or_zero zero_or)
  rw [← atmShift_eight, atmSlowStep, wide, both]

theorem avrShift_eq (sum tmp : UChar) :
    UShort.ofBytes (avrShift (sum, tmp)).1 (avrShift (sum, tmp)).2 =
      atmShift (UShort.ofBytes sum tmp) := by
  have shifted : UShort.ofBytes (sum <<< 1 ||| (if tmp.msb then 1 else 0)) (tmp <<< 1) =
      UShort.ofBytes sum tmp <<< 1 := by
    apply eq_of_getLsbD_eq
    intro i inside
    rw [msb_eq_getLsbD_last]
    simp only [UShort.ofBytes, getLsbD_append, getLsbD_shiftLeft, getLsbD_or]
    rcases Nat.lt_trichotomy i 8 with low | rfl | high
    · have before : i - 1 < 8 := by omega
      simp [low, inside, before]
    · cases tmp.getLsbD 7 <;> rfl
    · have behind : ¬i - 1 < 8 := by omega
      have first : i - 8 ≠ 0 := by omega
      have same : i - 8 - 1 = i - 1 - 8 := by omega
      cases tmp.getLsbD 7 <;>
        simp [behind, inside, same, Nat.not_lt.mpr high.le, show i - 8 < 8 by omega,
          show ¬i < 1 by omega, show ¬i - 8 < 1 by omega, first]
  have top : (UShort.ofBytes sum tmp).msb = sum.msb :=
    msb_append.trans (if_neg (by decide))
  rw [atmShift, top, ← shifted, avrShift]
  cases sum.msb
  · rfl
  · exact (congrArg (UShort.ofBytes _) xor_zero.symm).trans (ofBytes_xor _ _ 7 0).symm

theorem avrSlowStep_eq (sum byte : UChar) : avrSlowStep sum byte = atmStep sum byte := by
  have run (n : Nat) (r : UChar × UChar) :
      UShort.ofBytes (avrShift^[n] r).1 (avrShift^[n] r).2 =
        atmShift^[n] (UShort.ofBytes r.1 r.2) := by
    induction n generalizing r with
    | zero => rfl
    | succ n ih =>
      rw [iterate_succ_apply, iterate_succ_apply, ih, avrShift_eq]
  have eight := (run 8 (sum, byte)).trans (atmShift_eight sum byte)
  rw [avrSlowStep, ← UShort.high_ofBytes (avrShift^[8] (sum, byte)).1, eight, UShort.high_ofBytes]

theorem eachByte_slow : ∀ (n : Nat) (sum : UChar) (buf : Nat),
    eachByte atmSlowStep memory (UShort.ofBytes sum 0) buf n =
      UShort.ofBytes (eachByte atmStep memory sum buf n) 0
  | 0, _, _ => rfl
  | n + 1, sum, buf => by rw [eachByte, atmSlowStep_eq, eachByte_slow n, eachByte]

set_option maxRecDepth 16384 in
theorem crc8AtmSlow_none : crc8Atm (fun _ => 1) 0 0 ≠ crc8AtmSlow (fun _ => 1) 0 0 .avr := by
  rw [crc8AtmSlow, funext₂ avrSlowStep_eq]
  decide +kernel

theorem sums_right_iff (build : CrcBuild) (sum : UShort) (m : List UChar) :
    SumsRight build sum m ↔ build = .other ∨ m ≠ [] := by
  constructor
  · intro right
    refine Classical.byContradiction fun neither => ?_
    obtain ⟨avr, none⟩ := not_or.mp neither
    obtain rfl := not_not.mp none
    have equal := right.atm (by decide) (fun _ => 1) 0 nofun
    cases build with
    | avr => exact crc8AtmSlow_none equal
    | other => exact avr rfl
  · intro tested
    refine ⟨fun short memory buf at' => crc16_eq at' short, ?_, ?_⟩
    · intro short memory buf memory' buf' at' last behind
      have whole : last = serial crc16Init m := crc16_eq at' (by omega)
      have length : (m ++ [last.low, last.high]).length = m.length + 2 := List.length_append
      rw [← length, crc16_eq behind (by omega), serial, List.foldl_append]
      change serial (serial crc16Init m) _ = _
      rw [← whole]
      exact serial_own last
    · intro short memory buf at'
      rcases eq_or_ne m [] with rfl | nonempty
      · obtain rfl := tested.resolve_right (· rfl)
        exact (congrArg (~~~ ·) (UShort.high_ofBytes 0 0)).symm
      · have positive := mt List.length_eq_zero_iff.mp nonempty
        obtain ⟨some, again⟩ := pred_add_one (w := 8) positive (by omega)
        have value : (BitVec.ofNat 8 m.length).toNat = m.length := by
          rw [toNat_ofNat, Nat.mod_eq_of_lt (by omega)]
        rw [crc8Atm, if_neg some, again]
        cases build with
        | avr =>
          have same : avrSlowStep = atmStep := funext₂ avrSlowStep_eq
          rw [crc8AtmSlow, again, same]
        | other =>
          rw [crc8AtmSlow, value]
          exact congrArg (~~~ ·) ((congrArg UShort.high (eachByte_slow m.length 0 buf)).trans
            (UShort.high_ofBytes _ _)).symm

theorem empty_not_sumsRight : ¬∀ build sum m, SumsRight build sum m := by
  intro right
  exact crc8AtmSlow_none ((right .avr 0 []).atm (by decide) (fun _ => 1) 0 nofun)

end CrcBuild
end Uos
