import Uos.Net.Checksum

/-!
# The internet checksum, byte by byte

`crc16_inet_byte` of `crc/crc16-inet.c`, and the sums of `crc16_inet` and `buf_chksum` as what it
computes over the bytes, however they lie in memory.
-/

namespace Uos

open List

open Checksum

/-- Calculate a new sum given the current sum and one byte of new data. -/
def crc16InetByte (target : Target) (sum : UShort) (data : UChar) : UShort :=
  match target with
  | .portable bigEndian =>
    UShort.swap (.ofNat 16 (fold (sum.toNat + nativeWord (.portable bigEndian) data 0)))
  | _ => .ofNat 16 (turn (addCarry sum.toNat data.toNat))

namespace Checksum

/-- A sum after some bytes: its residue, and which of the two zeros it is if it is one. -/
structure Counts (target : Target) (sum : UShort) (buf : List UChar) (result : UShort) : Prop where
  residue : (result.toNat : Residue) = 256 ^ buf.length * (sum.toNat + scale target * digest buf)
  zero : result.toNat = 0 ↔ sum.toNat = 0 ∧ ∀ byte ∈ buf, byte.toNat = 0

namespace Counts

variable {target : Target} {sum middle result other : UShort} {xs ys : List UChar}

theorem nil (target : Target) (sum : UShort) : Counts target sum [] sum where
  residue := by simp [digest, OnesComplement.digest]
  zero := by simp

theorem unique (counts : Counts target sum xs result) (same : Counts target sum xs other) :
    result = other := by
  apply BitVec.eq_of_toNat_eq
  have bound := result.isLt
  have bound' := other.isLt
  rcases Nat.eq_zero_or_pos result.toNat with zero | positive
  · rw [zero, same.zero.mpr (counts.zero.mp zero)]
  · have positive' : 0 < other.toNat := by
      apply Nat.pos_of_ne_zero
      intro zero
      exact positive.ne' (counts.zero.mpr (same.zero.mp zero))
    exact OnesComplement.eq_of_residue positive (by omega) positive' (by omega)
      (counts.residue.trans same.residue.symm)

theorem append (first : Counts target sum xs middle) (second : Counts target middle ys result) :
    Counts target sum (xs ++ ys) result where
  residue := by
    have twice := OnesComplement.flip_twice flip_twice xs.length
    rw [second.residue, first.residue, digest_append, length_append, pow_add]
    linear_combination -(256 ^ ys.length * scale target * digest ys) * twice
  zero := by
    rw [second.zero, first.zero]
    simp only [mem_append, or_imp, forall_and, and_assoc]

end Counts

section Zeros

variable {target : Target}

theorem nativeWord_eq_zero_iff (target : Target) (first second : UChar) :
    nativeWord target first second = 0 ↔ first.toNat = 0 ∧ second.toNat = 0 := by
  rw [nativeWord]
  split <;> omega

theorem addCarry_eq_zero_iff (sum word : Nat) : addCarry sum word = 0 ↔ sum = 0 ∧ word = 0 := by
  simp only [addCarry]
  omega

theorem addWord_eq_zero_iff (target : Target) (sum word : Nat) :
    addWord target sum word = 0 ↔ sum = 0 ∧ word = 0 := by
  cases target with
  | portable bigEndian => exact Nat.add_eq_zero_iff
  | _ => exact addCarry_eq_zero_iff sum word

theorem turn_eq_zero_iff (sum : Nat) : turn sum = 0 ↔ sum = 0 := by
  simp only [turn]
  omega

theorem sumWords_eq_zero_iff (target : Target) (buf : List UChar) (sum : Nat) :
    sumWords target sum buf = 0 ↔ sum = 0 ∧ ∀ byte ∈ buf, byte.toNat = 0 := by
  induction buf using List.twoStepInduction generalizing sum with
  | nil => simp [sumWords]
  | singleton last =>
    simp [sumWords, turn_eq_zero_iff, addWord_eq_zero_iff, nativeWord_eq_zero_iff]
  | cons_cons first second buf ih =>
    rw [sumWords, ih, addWord_eq_zero_iff, nativeWord_eq_zero_iff]
    simp only [forall_mem_cons, and_assoc]

theorem finish_eq_zero_iff {sum words : Nat} (low : sum ≤ limit target words)
    (short : words ≤ 65536) : (finish target sum).toNat = 0 ↔ sum = 0 := by
  obtain ⟨_, kept⟩ := finish_spec low short
  constructor
  · intro zero
    apply Nat.eq_zero_of_not_pos
    intro positive
    exact (kept positive).ne' zero
  · rintro rfl
    cases target <;> rfl

theorem networkSum_eq_zero_iff (buf : List UChar) (sum : Nat) :
    networkSum sum buf = 0 ↔ sum = 0 ∧ ∀ byte ∈ buf, byte.toNat = 0 := by
  induction buf using List.twoStepInduction generalizing sum with
  | nil => simp [networkSum]
  | singleton last => simp [networkSum, addCarry_eq_zero_iff]
  | cons_cons first second buf ih =>
    have word : first.toNat * 256 + second.toNat = 0 ↔ first.toNat = 0 ∧ second.toNat = 0 := by
      omega
    rw [networkSum, ih, addCarry_eq_zero_iff, forall_mem_cons, forall_mem_cons, word]
    simp only [and_assoc]

theorem turned_counts {sum result : UShort} {data : UChar}
    (residue : (result.toNat : Residue) =
      256 * ((addWord target sum.toNat (nativeWord target data 0) : Nat) : Residue))
    (zero : result.toNat = 0 ↔ addWord target sum.toNat (nativeWord target data 0) = 0) :
    Counts target sum [data] result where
  residue := by
    rw [residue, cast_addWord, cast_nativeWord, digest_cons]
    simp [digest, OnesComplement.digest]
  zero := by
    rw [zero, addWord_eq_zero_iff, nativeWord_eq_zero_iff]
    simp

end Zeros

/-- One call of `crc16_inet_byte` adds one byte. -/
theorem crc16InetByte_counts (target : Target) (sum : UShort) (data : UChar) :
    Counts target sum [data] (crc16InetByte target sum data) := by
  have sumBound := sum.isLt
  have dataBound := data.isLt
  have carried (little : nativeWord target data 0 = data.toNat)
      (adds : addWord target = addCarry) :
      Counts target sum [data] (.ofNat 16 (turn (addCarry sum.toNat data.toNat))) := by
    have fits : turn (addCarry sum.toNat data.toNat) < 65536 := by
      simp only [turn, addCarry]
      omega
    apply turned_counts
    · rw [BitVec.toNat_ofNat, Nat.mod_eq_of_lt fits, cast_turn, little, adds]
    · rw [BitVec.toNat_ofNat, Nat.mod_eq_of_lt fits, turn_eq_zero_iff, little, adds]
  cases target with
  | portable bigEndian =>
    have word := nativeWord_le (.portable bigEndian) data 0
    obtain ⟨value, bound, positive⟩ := @cast_fold
      (sum.toNat + nativeWord (.portable bigEndian) data 0) (by omega)
    have whole : (BitVec.ofNat 16 (fold (sum.toNat +
        nativeWord (.portable bigEndian) data 0))).toNat =
        fold (sum.toNat + nativeWord (.portable bigEndian) data 0) := by
      rw [BitVec.toNat_ofNat, Nat.mod_eq_of_lt bound]
    have swapped := swap_spec (BitVec.ofNat 16 (fold (sum.toNat +
      nativeWord (.portable bigEndian) data 0)))
    apply turned_counts
    · rw [crc16InetByte, swapped.1, whole, value, addWord]
    · have zero : fold (sum.toNat + nativeWord (.portable bigEndian) data 0) = 0 ↔
          sum.toNat + nativeWord (.portable bigEndian) data 0 = 0 := by
        constructor
        · intro zero
          apply Nat.eq_zero_of_not_pos
          intro start
          exact (positive start).ne' zero
        · intro zero
          rw [zero]
          rfl
      rw [crc16InetByte, UShort.swap_toNat, whole, addWord, ← zero]
      omega
  | avr => exact carried (by simp [nativeWord, Target.bigEndian]) rfl
  | msp430 => exact carried (by simp [nativeWord, Target.bigEndian]) rfl
  | i386 => exact carried (by simp [nativeWord, Target.bigEndian]) rfl

theorem foldl_counts (target : Target) (buf : List UChar) (sum : UShort) :
    Counts target sum buf (buf.foldl (crc16InetByte target) sum) := by
  induction buf generalizing sum with
  | nil => exact .nil target sum
  | cons data buf ih => exact (crc16InetByte_counts target sum data).append (ih _)

/-- So does `crc16_inet`, where it gets through the buffer. -/
theorem crc16Inet_counts {target : Target} {sum result : UShort} {odd : Bool} {buf : List UChar}
    (short : buf.length < 65536) (computed : crc16Inet target sum odd buf = some result) :
    Counts target sum buf result where
  residue := (crc16Inet_spec short computed).1
  zero := by
    have start := start_le target sum
    simp only [crc16Inet] at computed
    split at computed
    · cases buf with
      | nil => contradiction
      | cons first rest =>
        cases computed
        have added := turn_le (addWord_le start (nativeWord_le target first 0))
        obtain ⟨_, bound, _⟩ := sumWords_spec target rest _ _ added
        rw [finish_eq_zero_iff bound (by simp at short; omega), sumWords_eq_zero_iff,
          turn_eq_zero_iff, addWord_eq_zero_iff, nativeWord_eq_zero_iff]
        simp [and_assoc]
    · cases computed
      obtain ⟨_, bound, _⟩ := sumWords_spec target buf _ _ start
      rw [finish_eq_zero_iff bound (by omega), sumWords_eq_zero_iff]

/-- Where `crc16_inet` gets through the buffer, it is a fold over the bytes. -/
theorem crc16Inet_eq_foldl {target : Target} {sum : UShort} {odd : Bool} {buf : List UChar}
    (short : buf.length < 65536) (readable : Readable target { odd, bytes := buf }) :
    crc16Inet target sum odd buf = some (buf.foldl (crc16InetByte target) sum) := by
  obtain ⟨result, computed⟩ := Option.isSome_iff_exists.mp
    ((crc16Inet_isSome target sum { odd, bytes := buf }).mpr readable)
  rw [computed, (crc16Inet_counts short computed).unique (foldl_counts target buf sum)]

theorem crc16Inet_unreadable {target : Target} {sum : UShort} {chunk : Chunk}
    (unreadable : ¬Readable target chunk) : crc16Inet target sum chunk.odd chunk.bytes = none := by
  apply Option.not_isSome_iff_eq_none.mp
  rw [crc16Inet_isSome]
  exact unreadable

/-- `buf_chksum` of a chain is the complement of a fold over its bytes. -/
theorem bufChksum_eq_foldl {target : Target} {p : List Chunk} {sum : UShort}
    (short : (payload p).length < 65536) (readable : ∀ chunk ∈ p, Readable target chunk) :
    bufChksum target p sum = some (~~~(payload p).foldl (crc16InetByte target) sum) := by
  induction p generalizing sum with
  | nil => rfl
  | cons chunk p ih =>
    have split : payload (chunk :: p) = chunk.bytes ++ payload p := rfl
    rw [split, length_append] at short
    rw [forall_mem_cons] at readable
    have first := @crc16Inet_eq_foldl target sum chunk.odd chunk.bytes (by omega) readable.1
    have rest := @ih (chunk.bytes.foldl (crc16InetByte target) sum) (by omega) readable.2
    rw [split, foldl_append, ← rest]
    simp [bufChksum, first]

theorem bufChksum_unreadable {target : Target} {p : List Chunk} {sum : UShort} {chunk : Chunk}
    (member : chunk ∈ p) (unreadable : ¬Readable target chunk) : bufChksum target p sum = none := by
  induction p generalizing sum with
  | nil => contradiction
  | cons first p ih =>
    simp only [bufChksum, foldlM_cons] at ih ⊢
    rcases mem_cons.mp member with rfl | later
    · simp [crc16Inet_unreadable unreadable]
    · cases crc16Inet target sum first.odd first.bytes with
      | none => rfl
      | some middle => exact ih later

theorem readable_append {target : Target} {odd : Bool} {xs ys : List UChar}
    (first : Readable target { odd, bytes := xs }) :
    Readable target { odd, bytes := xs ++ ys } := by
  intro aligns isOdd
  exact append_ne_nil_of_left_ne_nil (first aligns isOdd) ys

/-- The sum of a buffer is a fold over its bytes, the sum of a concatenation is the composition, and
the sum of a chain is that of its bytes in one buffer, exactly where no part is an empty buffer at
an odd address, on a machine whose code aligns the address. -/
theorem crc16Inet_folds_iff (target : Target) (sum : UShort) :
    (∀ (odd : Bool) (buf : List UChar), buf.length < 65536 →
      (crc16Inet target sum odd buf = some (buf.foldl (crc16InetByte target) sum) ↔
        Readable target { odd, bytes := buf })) ∧
    (∀ (odd odd' : Bool) (xs ys : List UChar), (xs ++ ys).length < 65536 →
      ((∃ result, crc16Inet target sum odd (xs ++ ys) = some result ∧
          (crc16Inet target sum odd xs).bind (crc16Inet target · odd' ys) = some result) ↔
        Readable target { odd, bytes := xs } ∧ Readable target { odd := odd', bytes := ys })) ∧
    ∀ (odd : Bool) (p : List Chunk), (payload p).length < 65536 →
      ((∃ chksum, bufChksum target [{ odd, bytes := payload p }] sum = some chksum ∧
          bufChksum target p sum = some chksum) ↔
        (∀ chunk ∈ p, Readable target chunk) ∧
          Readable target { odd, bytes := payload p }) := by
  refine ⟨fun odd buf short => ?_, fun odd odd' xs ys short => ?_, fun odd p short => ?_⟩
  · constructor
    · intro folds
      rw [← crc16Inet_isSome target sum, folds]
      rfl
    · exact crc16Inet_eq_foldl short
  · constructor
    · rintro ⟨result, whole, parts⟩
      obtain ⟨middle, first, second⟩ := Option.bind_eq_some_iff.mp parts
      rw [← crc16Inet_isSome target sum, ← crc16Inet_isSome target middle, first, second]
      exact ⟨rfl, rfl⟩
    · rintro ⟨first, second⟩
      have whole := @crc16Inet_eq_foldl target sum odd (xs ++ ys) short (readable_append first)
      rw [length_append] at short
      refine ⟨_, whole, ?_⟩
      rw [crc16Inet_eq_foldl (by omega) first, foldl_append]
      exact crc16Inet_eq_foldl (by omega) second
  · constructor
    · rintro ⟨chksum, whole, parts⟩
      constructor
      · intro chunk member
        apply by_contra
        intro unreadable
        rw [bufChksum_unreadable member unreadable] at parts
        contradiction
      · apply by_contra
        intro unreadable
        rw [bufChksum_unreadable (mem_singleton_self _) unreadable] at whole
        contradiction
    · rintro ⟨readable, single⟩
      have flat : payload [{ odd, bytes := payload p }] = payload p := by simp [payload]
      refine ⟨_, ?_, bufChksum_eq_foldl short readable⟩
      have whole := @bufChksum_eq_foldl target [{ odd, bytes := payload p }] sum
        (by rw [flat]; exact short)
        (by simpa using single)
      rw [whole, flat]

/-- The bytes of the second test of `crc16-inet.c`, split in one place, with an empty buffer at an
even address between the parts. -/
theorem crc16Inet_folds_split :
    ∃ chksum, bufChksum (.portable true) [{ odd := true, bytes := [0x12, 0x34, 0x56, 0x78] }]
        0x1234 = some chksum ∧
      bufChksum (.portable true) [{ bytes := [0x12] }, { bytes := [] },
        { odd := true, bytes := [0x34, 0x56, 0x78] }] 0x1234 = some chksum := by
  apply ((crc16Inet_folds_iff (.portable true) 0x1234).2.2 true [{ bytes := [0x12] },
    { bytes := [] }, { odd := true, bytes := [0x34, 0x56, 0x78] }] (by decide)).mpr
  simp [Readable, payload]

/-- Its first test, which expects the sum of no bytes to be the initial one, fails at an odd
address. -/
theorem crc16Inet_empty_runs :
    ¬∀ (target : Target) (sum : UShort) (odd : Bool) (buf : List UChar), buf.length < 65536 →
      crc16Inet target sum odd buf = some (buf.foldl (crc16InetByte target) sum) := by
  intro folds
  exact absurd (folds (.portable false) 0x1234 true [] (by decide)) (by decide)

end Checksum
end Uos
