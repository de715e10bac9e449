import Mathlib.Tactic.NormNum
import Uos.Library.OnesComplement
import Uos.Net.Bytes

/-!
# The internet checksum

The functions of `crc/crc16-inet.c` and `buf/buf-chksum.c`, for every machine the former has code
for.  A running sum is turned by a byte after every odd number of bytes, so that it can go on with
the next buffer.
-/

namespace Uos

/-- The machines that `crc16-inet.c` distinguishes. -/
inductive Target
  | avr
  | msp430
  | i386
  /-- The portable code, for 32-bit machines. -/
  | portable (bigEndian : Bool)
  deriving DecidableEq

namespace Target

/-- `HTONS (1) == 1`. -/
def bigEndian : Target → Bool
  | portable bigEndian => bigEndian
  | _ => false

/-- Whether the code treats a buffer at an odd address in a special way. -/
def aligns : Target → Bool
  | avr | i386 => false
  | msp430 | portable _ => true

end Target

namespace Checksum

/-- The `unsigned short` found at two bytes of memory. -/
def nativeWord (target : Target) (first second : UChar) : Nat :=
  if target.bigEndian then first.toNat * 256 + second.toNat else first.toNat + second.toNat * 256

/-- Addition of 16 bits with end-around carry: `add` and `adc #0`. -/
def addCarry (sum word : Nat) : Nat :=
  (sum + word) % 65536 + (sum + word) / 65536

/-- Addition of a word to the running sum: the portable code collects the carries. -/
def addWord : Target → Nat → Nat → Nat
  | .portable _, longsum, word => longsum + word
  | _, sum, word => addCarry sum word

/-- `(longsum >> 8) + ((unsigned char) longsum << 8)`; on 16 bits, a swap of the bytes. -/
def turn (sum : Nat) : Nat :=
  sum / 256 + sum % 256 * 256

def fold (longsum : Nat) : Nat :=
  let longsum := longsum / 65536 + longsum % 65536
  (longsum % 65536 + longsum / 65536 % 2) % 65536

/-- The loop over the words of a buffer, and the odd byte behind them. -/
def sumWords (target : Target) : Nat → List UChar → Nat
  | sum, first :: second :: buf =>
    sumWords target (addWord target sum (nativeWord target first second)) buf
  | sum, [last] => turn (addWord target sum (nativeWord target last 0))
  | sum, [] => sum

def finish : Target → Nat → UShort
  | .portable _, longsum => .ofNat 16 (fold longsum)
  | _, sum => .ofNat 16 sum

/-- Addition with carry: the sum of 16 bits and the carry flag. -/
def adc (sum : Nat × Nat) (word : Nat) : Nat × Nat :=
  ((sum.1 + word + sum.2) % 65536, (sum.1 + word + sum.2) / 65536)

end Checksum

open Checksum

/-- Calculate a new sum given the current sum and the new data, which may begin at an odd address.
Where this matters, an empty buffer at an odd address makes the loop run through all memory. -/
def crc16Inet (target : Target) (sum : UShort) (odd : Bool) (buf : List UChar) : Option UShort :=
  if target.aligns && odd then
    match buf with
    | [] => none
    | first :: rest =>
      some (finish target (sumWords target
        (turn (addWord target sum.toNat (nativeWord target first 0))) rest))
  else some (finish target (sumWords target sum.toNat buf))

/-- The sum of the pseudo-header: addresses, protocol and length. -/
def crc16InetHeader (target : Target) (src dest : IpAddr) (proto : UChar) (protoLen : UShort) :
    UShort :=
  let low := src[0].toNat + src[2].toNat + dest[0].toNat + dest[2].toNat
  let high := src[1].toNat + src[3].toNat + dest[1].toNat + dest[3].toNat
  let word (a b : UChar) := a.toNat + b.toNat * 256
  match target with
  | .avr =>
    let sum := turn (addCarry protoLen.toNat proto.toNat)
    let sum := adc (adc (sum, 0) (word src[0] src[1])) (word src[2] src[3])
    let sum := adc (adc sum (word dest[0] dest[1])) (word dest[2] dest[3])
    .ofNat 16 (sum.1 + sum.2)
  | .msp430 => .ofNat 16 (addCarry (turn (addCarry (proto.toNat + high) protoLen.toNat)) low)
  | .i386 =>
    let both := word src[0] src[1] + word src[2] src[3] * 65536 +
      (word dest[0] dest[1] + word dest[2] dest[3] * 65536)
    let both := both % 4294967296 + both / 4294967296
    let sum := adc (adc (proto.toNat * 256, 0) (both % 65536)) (both / 65536)
    let sum := adc sum (turn protoLen.toNat)
    .ofNat 16 (sum.1 + sum.2)
  | .portable _ => .ofNat 16 (fold ((protoLen.toNat + proto.toNat + high) * 256 + low))

/-- One buffer of a chain: its bytes, and whether they begin at an odd address. -/
structure Chunk where
  odd : Bool := false
  bytes : List UChar
  deriving DecidableEq

def payload (p : List Chunk) : List UChar :=
  p.flatMap (·.bytes)

def bufChksum (target : Target) (p : List Chunk) (sum : UShort) : Option UShort :=
  (p.foldlM (fun sum chunk => crc16Inet target sum chunk.odd chunk.bytes) sum).map (~~~ ·)

namespace Checksum

abbrev Residue := ZMod 65535

theorem flip_twice : (256 : Residue) * 256 = 1 := by
  decide

/-- What the bytes of a buffer add to a sum in network byte order. -/
def digest (buf : List UChar) : Residue :=
  OnesComplement.digest 256 (buf.map fun byte => (byte.toNat : Residue))

theorem digest_append (xs ys : List UChar) :
    digest (xs ++ ys) = digest xs + 256 ^ xs.length * digest ys := by
  simp [digest, OnesComplement.digest_append]

theorem digest_cons (byte : UChar) (buf : List UChar) :
    digest (byte :: buf) = 256 * (byte.toNat + digest buf) :=
  rfl

theorem digest_pair (first second : UChar) (buf : List UChar) :
    digest (first :: second :: buf) = 256 * first.toNat + second.toNat + digest buf :=
  OnesComplement.digest_pair flip_twice _ _ _

/-- The factor between sums in the byte order of the machine and in network byte order. -/
def scale (target : Target) : Residue :=
  if target.bigEndian then 1 else 256

variable (buf : List UChar) (target : Target) (word : Nat) {sum words : Nat} {p : List Chunk}
  (value : UShort)

theorem scale_twice : scale target * scale target = 1 := by
  rw [scale]
  split <;> decide

theorem cast_nativeWord (first second : UChar) :
    (nativeWord target first second : Residue) =
      scale target * (256 * first.toNat + second.toNat) := by
  simp only [nativeWord, scale]
  split
  · push_cast
    ring
  · push_cast
    linear_combination -(first.toNat : Residue) * flip_twice

theorem nativeWord_le (first second : UChar) :
    nativeWord target first second ≤ 65535 := by
  have firstBound := first.isLt
  have secondBound := second.isLt
  rw [nativeWord]
  split <;> omega

theorem cast_word : (65536 : Residue) = 1 := by
  decide

theorem cast_split (n modulus : Nat) :
    (n : Residue) = modulus * (n / modulus : Nat) + (n % modulus : Nat) := by
  rw [← Nat.cast_mul, ← Nat.cast_add, Nat.div_add_mod]

theorem cast_turn (sum : Nat) : (turn sum : Residue) = 256 * sum := by
  have split := cast_split sum 256
  rw [split, turn]
  push_cast
  linear_combination -((sum / 256 : Nat) : Residue) * flip_twice

theorem cast_addCarry (sum word : Nat) : (addCarry sum word : Residue) = sum + word := by
  have split := cast_split (sum + word) 65536
  rw [← Nat.cast_add, split, addCarry]
  push_cast
  linear_combination -(((sum + word) / 65536 : Nat) : Residue) * cast_word

theorem cast_addWord (sum word : Nat) :
    (addWord target sum word : Residue) = sum + word := by
  cases target with
  | portable bigEndian => exact Nat.cast_add sum word
  | _ => exact cast_addCarry sum word

def limit : Target → Nat → Nat
  | .portable _, words => 65536 + 65535 * words
  | _, _ => 65535

theorem addWord_le {target : Target} {word : Nat} (low : sum ≤ limit target words)
    (small : word ≤ 65535) : addWord target sum word ≤ limit target (words + 1) := by
  cases target <;> simp only [limit, addWord, addCarry] at low ⊢ <;> omega

theorem turn_le {target : Target} (low : sum ≤ limit target words) :
    turn sum ≤ limit target words := by
  cases target <;> simp only [limit, turn] at low ⊢ <;> omega

theorem addWord_pos {target : Target} (positive : 0 < sum) :
    0 < addWord target sum word := by
  cases target <;> simp only [addWord, addCarry] <;> omega

theorem turn_pos (positive : 0 < sum) : 0 < turn sum := by
  simp only [turn]
  omega

theorem sumWords_spec (buf : List UChar) (sum words : Nat) (low : sum ≤ limit target words) :
    (sumWords target sum buf : Residue) = 256 ^ buf.length * (sum + scale target * digest buf) ∧
      sumWords target sum buf ≤ limit target (words + buf.length) ∧
      (0 < sum → 0 < sumWords target sum buf) := by
  induction buf using List.twoStepInduction generalizing sum words with
  | nil => simp [sumWords, digest, OnesComplement.digest, low]
  | singleton last =>
    have added := addWord_le low (nativeWord_le target last 0)
    refine ⟨?_, turn_le added, fun positive => turn_pos (addWord_pos _ positive)⟩
    simp only [sumWords, cast_turn, cast_addWord, cast_nativeWord, digest_cons]
    simp [digest, OnesComplement.digest]
  | cons_cons first second buf ih =>
    have added := addWord_le low (nativeWord_le target first second)
    obtain ⟨value, bound, positive⟩ := ih _ _ added
    refine ⟨?_, bound.trans ?_, fun start => positive (addWord_pos _ start)⟩
    · rw [sumWords, value, cast_addWord, cast_nativeWord, digest_pair]
      simp only [List.length_cons, pow_succ]
      linear_combination -(256 ^ buf.length * (sum + scale target *
        (256 * first.toNat + second.toNat + digest buf)) : Residue) * flip_twice
    · cases target <;> simp only [limit, List.length_cons] <;> omega

theorem cast_fold {longsum : Nat} (bound : longsum ≤ 4294967296) :
    (fold longsum : Residue) = longsum ∧ fold longsum < 65536 ∧
    (0 < longsum → 0 < fold longsum) := by
  have first := cast_split longsum 65536
  set middle := longsum / 65536 + longsum % 65536 with middle_eq
  have second := cast_split middle 65536
  have small : middle < 131071 := by omega
  have value : fold longsum = middle % 65536 + middle / 65536 := by
    have carry : middle / 65536 < 2 := by omega
    have fits : middle % 65536 + middle / 65536 < 65536 := by omega
    simp only [fold, ← middle_eq]
    rw [Nat.mod_eq_of_lt carry, Nat.mod_eq_of_lt fits]
  refine ⟨?_, by omega, by omega⟩
  have same : (middle : Residue) = longsum := by
    rw [first, middle_eq]
    push_cast
    linear_combination -((longsum / 65536 : Nat) : Residue) * cast_word
  rw [value, ← same, second]
  push_cast
  linear_combination -((middle / 65536 : Nat) : Residue) * cast_word

theorem finish_spec {target : Target} (low : sum ≤ limit target words) (short : words ≤ 65536) :
    ((finish target sum).toNat : Residue) = sum ∧ (0 < sum → 0 < (finish target sum).toNat) := by
  have plain : sum ≤ 65535 → ((BitVec.ofNat 16 sum).toNat : Residue) = sum ∧
      (0 < sum → 0 < (BitVec.ofNat 16 sum).toNat) := by
    intro bound
    rw [BitVec.toNat_ofNat, Nat.mod_eq_of_lt (by omega)]
    exact ⟨rfl, id⟩
  cases target with
  | portable bigEndian =>
    obtain ⟨value, bound, positive⟩ := @cast_fold sum (by simp only [limit] at low; omega)
    rw [finish, BitVec.toNat_ofNat, Nat.mod_eq_of_lt (by omega)]
    exact ⟨value, positive⟩
  | avr => exact plain low
  | msp430 => exact plain low
  | i386 => exact plain low

theorem start_le (sum : UShort) : sum.toNat ≤ limit target 0 := by
  have bound := sum.isLt
  cases target <;> simp only [limit] <;> omega

/-- `crc16_inet` adds the bytes of a buffer and turns the sum once for each of them. -/
theorem crc16Inet_spec {target : Target} {sum result : UShort} {odd : Bool} {buf : List UChar}
    (short : buf.length < 65536) (computed : crc16Inet target sum odd buf = some result) :
    (result.toNat : Residue) = 256 ^ buf.length * (sum.toNat + scale target * digest buf) ∧
      (0 < sum.toNat → 0 < result.toNat) := by
  have start := start_le target sum
  simp only [crc16Inet] at computed
  split at computed
  · cases buf with
    | nil => contradiction
    | cons first rest =>
      cases computed
      have added := turn_le (addWord_le start (nativeWord_le target first 0))
      obtain ⟨value, bound, positive⟩ := sumWords_spec target rest _ _ added
      obtain ⟨finished, kept⟩ := finish_spec bound (by simp at short; omega)
      refine ⟨?_, fun begins => kept (positive (turn_pos (addWord_pos _ begins)))⟩
      rw [finished, value, cast_turn, cast_addWord, cast_nativeWord, digest_cons]
      simp only [List.length_cons, pow_succ, BitVec.toNat_zero, BitVec.ofNat_eq_ofNat]
      push_cast
      linear_combination -(256 ^ rest.length * scale target * digest rest) * flip_twice
  · cases computed
    obtain ⟨value, bound, positive⟩ := sumWords_spec target buf _ _ start
    obtain ⟨finished, kept⟩ := finish_spec bound (by omega)
    exact ⟨finished.trans value, fun begins => kept (positive begins)⟩

/-- Whether the checksum code stops at a buffer. -/
def Readable (target : Target) (chunk : Chunk) : Prop :=
  target.aligns = true → chunk.odd = true → chunk.bytes ≠ []

theorem crc16Inet_isSome (sum : UShort) (chunk : Chunk) :
    (crc16Inet target sum chunk.odd chunk.bytes).isSome = true ↔ Readable target chunk := by
  simp only [crc16Inet, Readable]
  cases target.aligns <;> cases chunk.odd <;> cases chunk.bytes <;> simp

theorem adc_spec {sum : Nat × Nat} {word : Nat} (fits : sum.1 + sum.2 ≤ 65535)
    (small : word ≤ 65535) :
    (((adc sum word).1 + (adc sum word).2 : Nat) : Residue) = (sum.1 + sum.2 : Nat) + word ∧
      (adc sum word).1 + (adc sum word).2 ≤ 65535 ∧
      (0 < sum.1 + sum.2 → 0 < (adc sum word).1 + (adc sum word).2) := by
  refine ⟨?_, by simp only [adc]; omega, by simp only [adc]; omega⟩
  have split := cast_split (sum.1 + word + sum.2) 65536
  push_cast at split
  simp only [adc]
  push_cast
  linear_combination -split + -(((sum.1 + word + sum.2) / 65536 : Nat) : Residue) * cast_word

def pseudoHeader (src dest : IpAddr) (proto : UChar) (protoLen : UShort) : List UChar :=
  [src[0], src[1], src[2], src[3], dest[0], dest[1], dest[2], dest[3], 0, proto,
    UShort.high protoLen, UShort.low protoLen]

theorem digest_pseudoHeader (src dest : IpAddr) (proto : UChar) (protoLen : UShort) :
    (256 : Residue) * digest (pseudoHeader src dest proto protoLen) =
      src[0].toNat + src[2].toNat + dest[0].toNat + dest[2].toNat +
        256 * (src[1].toNat + src[3].toNat + dest[1].toNat + dest[3].toNat + proto.toNat +
          protoLen.toNat) := by
  have split := cast_split protoLen.toNat 256
  have empty : digest [] = 0 := rfl
  simp only [pseudoHeader, digest_pair, UShort.high_toNat, UShort.low_toNat, empty]
  rw [split]
  push_cast
  linear_combination ((src[0].toNat + src[2].toNat + dest[0].toNat + dest[2].toNat) :
    Residue) * flip_twice

theorem cast_ofNat (fits : sum ≤ 65535) (positive : 0 < sum) :
    ((BitVec.ofNat 16 sum).toNat : Residue) = sum ∧ 0 < (BitVec.ofNat 16 sum).toNat := by
  rw [BitVec.toNat_ofNat, Nat.mod_eq_of_lt (by omega)]
  exact ⟨rfl, positive⟩

theorem addCarry_spec {word : Nat} (low : sum ≤ 65535) (small : word ≤ 65535) (positive : 0 < sum) :
    addCarry sum word ≤ 65535 ∧ 0 < addCarry sum word := by
  simp only [addCarry]
  omega

theorem cast_long : (4294967296 : Residue) = 1 := by
  decide

theorem crc16InetHeader_spec (src dest : IpAddr) {proto : UChar} (protoLen : UShort)
    (positive : 0 < proto.toNat) :
    ((crc16InetHeader target src dest proto protoLen).toNat : Residue) =
        256 * digest (pseudoHeader src dest proto protoLen) ∧
      0 < (crc16InetHeader target src dest proto protoLen).toNat := by
  have lenBound := protoLen.isLt
  have protoBound := proto.isLt
  have s0 := src[0].isLt
  have s1 := src[1].isLt
  have s2 := src[2].isLt
  have s3 := src[3].isLt
  have d0 := dest[0].isLt
  have d1 := dest[1].isLt
  have d2 := dest[2].isLt
  have d3 := dest[3].isLt
  rw [digest_pseudoHeader]
  cases target with
  | avr =>
    have start : turn (addCarry protoLen.toNat proto.toNat) ≤ 65535 ∧
        0 < turn (addCarry protoLen.toNat proto.toNat) := by
      simp only [turn, addCarry]
      omega
    set sum := turn (addCarry protoLen.toNat proto.toNat) with sum_eq
    obtain ⟨first, fits, firstPos⟩ := @adc_spec (sum, 0) (src[0].toNat + src[1].toNat * 256)
      start.1 (by omega)
    obtain ⟨second, fits, secondPos⟩ := @adc_spec _ (src[2].toNat + src[3].toNat * 256)
      fits (by omega)
    obtain ⟨third, fits, thirdPos⟩ := @adc_spec _ (dest[0].toNat + dest[1].toNat * 256)
      fits (by omega)
    obtain ⟨fourth, fits, fourthPos⟩ := @adc_spec _ (dest[2].toNat + dest[3].toNat * 256)
      fits (by omega)
    obtain ⟨value, last⟩ := cast_ofNat fits (fourthPos (thirdPos (secondPos (firstPos start.2))))
    refine ⟨?_, last⟩
    simp only [crc16InetHeader, ← sum_eq]
    rw [value, fourth, third, second, first, sum_eq]
    push_cast [cast_turn, cast_addCarry]
    ring
  | msp430 =>
    have first := @addCarry_spec (proto.toNat + (src[1].toNat + src[3].toNat + dest[1].toNat +
      dest[3].toNat)) protoLen.toNat (by omega) (by omega) (by omega)
    set sum := addCarry (proto.toNat + (src[1].toNat + src[3].toNat + dest[1].toNat +
      dest[3].toNat)) protoLen.toNat with sum_eq
    have turned : turn sum ≤ 65535 := by
      simp only [turn]
      omega
    have second := @addCarry_spec _ (src[0].toNat + src[2].toNat + dest[0].toNat + dest[2].toNat)
      turned (by omega) (turn_pos first.2)
    obtain ⟨value, last⟩ := cast_ofNat second.1 second.2
    refine ⟨?_, last⟩
    simp only [crc16InetHeader, ← sum_eq]
    rw [value, cast_addCarry, cast_turn, sum_eq, cast_addCarry]
    push_cast
    ring
  | i386 =>
    set both := src[0].toNat + src[1].toNat * 256 + (src[2].toNat + src[3].toNat * 256) * 65536 +
      (dest[0].toNat + dest[1].toNat * 256 + (dest[2].toNat + dest[3].toNat * 256) * 65536)
      with both_eq
    set sum := both % 4294967296 + both / 4294967296 with sum_eq
    have split := cast_split both 4294967296
    have split' := cast_split sum 65536
    obtain ⟨first, fits, firstPos⟩ := @adc_spec (proto.toNat * 256, 0) (sum % 65536)
      (by simp only; omega) (by omega)
    obtain ⟨second, fits, secondPos⟩ := @adc_spec _ (sum / 65536) fits (by omega)
    obtain ⟨third, fits, thirdPos⟩ := @adc_spec _ (turn protoLen.toNat) fits
      (by simp only [turn]; omega)
    obtain ⟨value, last⟩ := cast_ofNat fits
      (thirdPos (secondPos (firstPos (by simp only; omega))))
    refine ⟨?_, last⟩
    simp only [crc16InetHeader, ← both_eq, ← sum_eq]
    rw [value, third, second, first]
    have whole : ((sum / 65536 : Nat) : Residue) + (sum % 65536 : Nat) = both := by
      rw [split]
      push_cast at split' ⊢
      have total : (sum : Residue) = (both % 4294967296 : Nat) + (both / 4294967296 : Nat) := by
        rw [sum_eq, Nat.cast_add]
      linear_combination total - split' - ((sum / 65536 : Nat) : Residue) * cast_word +
        -((both / 4294967296 : Nat) : Residue) * cast_long
    have expanded : (both : Residue) = src[0].toNat + src[2].toNat + dest[0].toNat +
        dest[2].toNat + 256 * (src[1].toNat + src[3].toNat + dest[1].toNat + dest[3].toNat) := by
      rw [both_eq]
      push_cast
      linear_combination ((src[2].toNat + dest[2].toNat : Residue) +
        256 * (src[3].toNat + dest[3].toNat)) * cast_word
    push_cast [cast_turn]
    linear_combination whole + expanded
  | portable bigEndian =>
    obtain ⟨value, bound, positive⟩ := @cast_fold ((protoLen.toNat + proto.toNat +
      (src[1].toNat + src[3].toNat + dest[1].toNat + dest[3].toNat)) * 256 +
      (src[0].toNat + src[2].toNat + dest[0].toNat + dest[2].toNat)) (by omega)
    obtain ⟨same, last⟩ := cast_ofNat (Nat.le_of_lt_succ bound) (positive (by omega))
    refine ⟨?_, last⟩
    simp only [crc16InetHeader]
    rw [same, value]
    push_cast
    ring

/-- `buf_chksum` stops at a buffer or complements the sum over the whole chain. -/
theorem bufChksum_spec {target : Target} {sum : UShort} (short : (payload p).length < 65536)
    (positive : 0 < sum.toNat) :
    ((bufChksum target p sum).isSome = true ↔ ∀ chunk ∈ p, Readable target chunk) ∧
      ∀ {chksum}, bufChksum target p sum = some chksum →
        chksum.toNat < 65535 ∧ (chksum.toNat : Residue) =
          -(256 ^ (payload p).length * (sum.toNat + scale target * digest (payload p))) := by
  induction p generalizing sum with
  | nil =>
    refine ⟨by simp [bufChksum], fun {chksum} computed => ?_⟩
    obtain rfl : ~~~sum = chksum := by simpa [bufChksum] using computed
    have bound := sum.isLt
    have complement := @OnesComplement.cast_complement 65535 sum.toNat (by omega)
    have value : (~~~sum).toNat = 65535 - sum.toNat := by
      rw [BitVec.toNat_not]
    rw [value]
    refine ⟨by omega, complement.trans ?_⟩
    simp [payload, digest, OnesComplement.digest]
  | cons chunk p ih =>
    have split : payload (chunk :: p) = chunk.bytes ++ payload p := rfl
    rw [split, List.length_append] at short
    have readable := crc16Inet_isSome target sum chunk
    cases first : crc16Inet target sum chunk.odd chunk.bytes with
    | none =>
      have unreadable : ¬Readable target chunk := by simp [← readable, first]
      have stops : bufChksum target (chunk :: p) sum = none := by
        simp [bufChksum, first]
      rw [stops]
      refine ⟨⟨by simp, fun all => absurd (all chunk (by simp)) unreadable⟩, by simp⟩
    | some middle =>
      have goes : bufChksum target (chunk :: p) sum = bufChksum target p middle := by
        simp [bufChksum, first]
      obtain ⟨value, kept⟩ := crc16Inet_spec (by omega) first
      obtain ⟨succeeds, ends⟩ := @ih middle (by omega) (kept positive)
      have readable : Readable target chunk := readable.mp (by simp [first])
      rw [goes]
      refine ⟨by simp [succeeds, readable], fun computed => ?_⟩
      obtain ⟨bound, total⟩ := ends computed
      refine ⟨bound, ?_⟩
      rw [total, value, split, digest_append, List.length_append, pow_add]
      have twice := OnesComplement.flip_twice flip_twice chunk.bytes.length
      linear_combination (256 ^ (payload p).length * scale target * digest (payload p)) * twice

theorem bufChksum_eq_zero_iff {target : Target} {sum : UShort} (short : (payload p).length < 65536)
    (positive : 0 < sum.toNat) :
    bufChksum target p sum = some 0 ↔ (∀ chunk ∈ p, Readable target chunk) ∧
      (sum.toNat : Residue) + scale target * digest (payload p) = 0 := by
  obtain ⟨succeeds, ends⟩ := @bufChksum_spec p target sum short positive
  have twice := OnesComplement.flip_twice flip_twice (payload p).length
  constructor
  · intro computed
    refine ⟨succeeds.mp (by simp [computed]), ?_⟩
    have zero := (ends computed).2
    simp only [BitVec.ofNat_eq_ofNat, BitVec.toNat_ofNat, Nat.zero_mod, Nat.cast_zero] at zero
    linear_combination (256 ^ (payload p).length : Residue) * zero -
      (sum.toNat + scale target * digest (payload p)) * twice
  · rintro ⟨readable, zero⟩
    obtain ⟨chksum, computed⟩ := Option.isSome_iff_exists.mp (succeeds.mpr readable)
    obtain ⟨bound, value⟩ := ends computed
    rw [zero, mul_zero, neg_zero] at value
    have same := OnesComplement.eq_of_complement bound (by decide) (value.trans Nat.cast_zero.symm)
    obtain rfl : chksum = 0 := BitVec.eq_of_toNat_eq same
    exact computed

/-- The end-around sum of the words in network byte order; an odd last byte is padded by zero. -/
def networkSum : Nat → List UChar → Nat
  | sum, high :: low :: buf => networkSum (addCarry sum (high.toNat * 256 + low.toNat)) buf
  | sum, [last] => addCarry sum (last.toNat * 256)
  | sum, [] => sum

def prescribed (buf : List UChar) : UShort :=
  ~~~.ofNat 16 (networkSum 0 buf)

theorem networkSum_spec (sum : Nat) (low : sum ≤ 65535) :
    (networkSum sum buf : Residue) = sum + digest buf ∧ networkSum sum buf ≤ 65535 ∧
      ((0 < sum ∨ ∃ byte ∈ buf, 0 < byte.toNat) → 0 < networkSum sum buf) := by
  have added : ∀ word ≤ 65535, addCarry sum word ≤ 65535 ∧
      (0 < sum ∨ 0 < word → 0 < addCarry sum word) := by
    intro word small
    simp only [addCarry]
    omega
  induction buf using List.twoStepInduction generalizing sum with
  | nil => simp [networkSum, digest, OnesComplement.digest, low]
  | singleton last =>
    have bound := last.isLt
    obtain ⟨fits, positive⟩ := added (last.toNat * 256) (by omega)
    refine ⟨?_, fits, fun nonzero => positive ?_⟩
    · rw [networkSum, cast_addCarry, digest_cons]
      push_cast
      simp [digest, OnesComplement.digest]
      ring
    · simp only [List.mem_singleton, exists_eq_left] at nonzero
      omega
  | cons_cons first second buf ih =>
    have firstBound := first.isLt
    have secondBound := second.isLt
    obtain ⟨fits, positive⟩ := added (first.toNat * 256 + second.toNat) (by omega)
    obtain ⟨value, bound, kept⟩ := ih _ fits fun word small => by
      simp only [addCarry] at fits ⊢
      omega
    refine ⟨?_, bound, fun nonzero => kept ?_⟩
    · rw [networkSum, value, cast_addCarry, digest_pair]
      push_cast
      ring
    · simp only [List.mem_cons, exists_eq_or_imp] at nonzero
      rcases nonzero with start | high | low | later
      · exact .inl (positive (.inl start))
      · exact .inl (positive (.inr (by omega)))
      · exact .inl (positive (.inr (by omega)))
      · exact .inr later

theorem prescribed_spec {buf : List UChar} (nonzero : ∃ byte ∈ buf, 0 < byte.toNat) :
    (prescribed buf).toNat < 65535 ∧ ((prescribed buf).toNat : Residue) = -digest buf := by
  obtain ⟨value, bound, positive⟩ := networkSum_spec buf 0 (by omega)
  have start := positive (.inr nonzero)
  have complement := @OnesComplement.cast_complement 65535 _ bound
  have number : (prescribed buf).toNat = 65535 - networkSum 0 buf := by
    rw [prescribed, BitVec.toNat_not, BitVec.toNat_ofNat, Nat.mod_eq_of_lt (by omega)]
  rw [number]
  refine ⟨by omega, complement.trans ?_⟩
  rw [value, Nat.cast_zero, zero_add]

theorem swap_spec :
    ((UShort.swap value).toNat : Residue) = 256 * value.toNat ∧
      (value.toNat < 65535 → (UShort.swap value).toNat < 65535) := by
  have bound := value.isLt
  rw [UShort.swap_toNat]
  refine ⟨?_, fun low => by omega⟩
  have turned := cast_turn value.toNat
  rw [turn, add_comm] at turned
  exact turned

/-- The network reading of an `unsigned short` that is stored in the order of the machine. -/
def nativeStore (target : Target) (value : UShort) : UShort :=
  if target.bigEndian then value else UShort.swap value

/-- The sum that `buf_chksum` returns, with the bytes in the order they have after an even number
of bytes. -/
def unturn (totLen : Nat) (value : UShort) : UShort :=
  if totLen % 2 = 1 then UShort.swap value else value

theorem unturn_spec (n : Nat) (value : UShort) :
    ((unturn n value).toNat : Residue) = 256 ^ n * value.toNat ∧
      (value.toNat < 65535 → (unturn n value).toNat < 65535) := by
  rw [unturn]
  split
  · rename_i odd
    rw [OnesComplement.flip_odd flip_twice odd]
    exact swap_spec value
  · rename_i even
    rw [OnesComplement.flip_even flip_twice (by omega), one_mul]
    exact ⟨rfl, id⟩

theorem nativeStore_spec :
    ((nativeStore target value).toNat : Residue) = scale target * value.toNat ∧
      (value.toNat < 65535 → (nativeStore target value).toNat < 65535) := by
  rw [nativeStore, scale]
  split
  · rw [one_mul]
    exact ⟨rfl, id⟩
  · exact swap_spec value

theorem stored_spec {target : Target} {sum chksum : UShort} (short : (payload p).length < 65536)
    (positive : 0 < sum.toNat) (computed : bufChksum target p sum = some chksum) :
    (nativeStore target (unturn (payload p).length chksum)).toNat < 65535 ∧
      ((nativeStore target (unturn (payload p).length chksum)).toNat : Residue) =
        -(scale target * sum.toNat + digest (payload p)) := by
  obtain ⟨bound, value⟩ := (bufChksum_spec short positive).2 computed
  obtain ⟨unturned, kept⟩ := unturn_spec (payload p).length chksum
  obtain ⟨stored, kept'⟩ := nativeStore_spec target (unturn (payload p).length chksum)
  refine ⟨kept' (kept bound), ?_⟩
  rw [stored, unturned, value]
  have twice := OnesComplement.flip_twice flip_twice (payload p).length
  have scaled := scale_twice target
  linear_combination -(scale target * (sum.toNat + scale target * digest (payload p))) * twice -
    digest (payload p) * scaled

end Checksum
end Uos
