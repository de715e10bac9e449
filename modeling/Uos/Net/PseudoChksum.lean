import Uos.Net.Bytewise

/-!
# The checksum with a pseudo-header

`buf_chksum_pseudo` of `buf/buf-chksum.c`.  It turns the sum after every odd chunk, which
`crc16_inet` has done already, so that a chunk at an odd offset is added as if it were at an even
one.  What it returns is right when these chunks do not distinguish the two halves of a word, which
is a matter of their alternating sums modulo 257.
-/

namespace Uos

open List Option

open Checksum

/-- The two bytes of an `unsigned short` in memory. -/
def nativeBytes (target : Target) (value : UShort) : List UChar :=
  if target.bigEndian then [UShort.high value, UShort.low value]
  else [UShort.low value, UShort.high value]

/-- One turn of the loop over the chain: the sum, and whether it is `swapped`. -/
def chksumPseudoStep (target : Target) (state : UShort × Bool) (chunk : Chunk) :
    Option (UShort × Bool) := do
  let sum ← crc16Inet target state.1 chunk.odd chunk.bytes
  if chunk.bytes.length % 2 = 1 then some (UShort.swap sum, !state.2) else some (sum, state.2)

/-- The sum of the pseudo-header: the protocol is put in network byte order, the length is taken as
it lies in memory.  The addresses may lie anywhere. -/
def chksumPseudoHeader (target : Target) (src dest : IpAddr) (srcOdd destOdd : Bool) (proto : UChar)
    (protoLen : UShort) : Option UShort := do
  let sum ← crc16Inet target (nativeStore target (proto.setWidth 16)) false
    (nativeBytes target protoLen)
  let sum ← crc16Inet target sum srcOdd src.toList
  crc16Inet target sum destOdd dest.toList

/-- Compute the checksum of a pseudo-header and the buffer data. -/
def bufChksumPseudo (target : Target) (p : List Chunk) (src dest : IpAddr) (srcOdd destOdd : Bool)
    (proto : UChar) (protoLen : UShort) : Option UShort := do
  let sum ← chksumPseudoHeader target src dest srcOdd destOdd proto protoLen
  let (sum, swapped) ← p.foldlM (chksumPseudoStep target) (sum, false)
  some (~~~(if swapped then UShort.swap sum else sum))

namespace Checksum

section Halves

/-- The alternating sum of some bytes, modulo 257.  It tells the halves of a 16-bit sum apart. -/
def balance (buf : List UChar) : ZMod 257 :=
  OnesComplement.digest (-1) (buf.map fun byte => (byte.toNat : ZMod 257))

/-- The alternating sums of the chunks that begin at an odd offset. -/
def displaced : Bool → List Chunk → ZMod 257
  | _, [] => 0
  | odd, chunk :: p =>
    (if odd then balance chunk.bytes else 0) +
      displaced (odd ^^ decide (chunk.bytes.length % 2 = 1)) p

def halves : Residue →+* ZMod 257 :=
  ZMod.castHom (by decide) (ZMod 257)

theorem halves_digest (buf : List UChar) : halves (digest buf) = balance buf := by
  have flipped : halves 256 = -1 := by decide
  rw [digest, OnesComplement.map_digest, flipped, balance, List.map_map]
  congr 1
  apply map_congr_left
  intro byte _
  exact map_natCast halves byte.toNat

theorem flip_fixes_iff (sum : Residue) : 255 * sum = 0 ↔ halves sum = 0 := by
  have number : ((sum.val : Nat) : Residue) = sum := ZMod.natCast_zmod_val sum
  rw [← number, map_natCast, ZMod.natCast_eq_zero_iff]
  have product : (255 : Residue) * (sum.val : Nat) = ((255 * sum.val : Nat) : Residue) := by
    push_cast
    rfl
  rw [product, ZMod.natCast_eq_zero_iff]
  exact Nat.mul_dvd_mul_iff_left (a := 255) (b := 257) (by decide)

end Halves

/-- The sum of the digests of all chunks, wherever they begin. -/
def undisplaced (p : List Chunk) : Residue :=
  (p.map fun chunk => digest chunk.bytes).sum

def oddDigests : Bool → List Chunk → Residue
  | _, [] => 0
  | odd, chunk :: p =>
    (if odd then digest chunk.bytes else 0) +
      oddDigests (odd ^^ decide (chunk.bytes.length % 2 = 1)) p

theorem halves_oddDigests (odd : Bool) (p : List Chunk) :
    halves (oddDigests odd p) = displaced odd p := by
  induction p generalizing odd with
  | nil => exact map_zero halves
  | cons chunk p ih =>
    rw [oddDigests, map_add, ih, displaced, ← halves_digest]
    cases odd <;> simp

theorem pow_length (buf : List UChar) :
    (256 : Residue) ^ buf.length = if buf.length % 2 = 1 then 256 else 1 := by
  split
  · rename_i odd
    exact OnesComplement.flip_odd flip_twice odd
  · rename_i even
    exact OnesComplement.flip_even flip_twice (by omega)

theorem digest_payload (odd : Bool) (p : List Chunk) :
    (if odd then 256 else 1) * digest (payload p) = undisplaced p + 255 * oddDigests odd p := by
  induction p generalizing odd with
  | nil => simp [payload, digest, OnesComplement.digest, undisplaced, oddDigests]
  | cons chunk p ih =>
    have split : payload (chunk :: p) = chunk.bytes ++ payload p := rfl
    have sums : undisplaced (chunk :: p) = digest chunk.bytes + undisplaced p := rfl
    have twice := flip_twice
    have rest := ih (odd ^^ decide (chunk.bytes.length % 2 = 1))
    rw [split, sums, oddDigests, digest_append, pow_length]
    cases odd <;> cases parity : decide (chunk.bytes.length % 2 = 1) <;>
      simp only [decide_eq_true_eq, decide_eq_false_iff_not] at parity <;>
      simp only [parity, if_true, if_false, Bool.false_eq_true, Bool.xor_false, Bool.xor_true,
        Bool.not_true, Bool.not_false, decide_true, decide_false] at rest ⊢
    · linear_combination rest
    · linear_combination rest
    · linear_combination rest
    · linear_combination rest + digest (payload p) * twice

section Loop

variable {target : Target} {state : UShort × Bool}

theorem chksumPseudoStep_spec {chunk : Chunk} (short : chunk.bytes.length < 65536)
    (readable : Readable target chunk) :
    ∃ next, chksumPseudoStep target state chunk = some next ∧
      (next.1.toNat : Residue) = state.1.toNat + scale target * digest chunk.bytes ∧
      (next.1.toNat = 0 ↔ state.1.toNat = 0 ∧ ∀ byte ∈ chunk.bytes, byte.toNat = 0) ∧
      next.2 = (state.2 ^^ decide (chunk.bytes.length % 2 = 1)) := by
  obtain ⟨sum, computed⟩ := isSome_iff_exists.mp
    ((crc16Inet_isSome target state.1 chunk).mpr readable)
  have counts := crc16Inet_counts short computed
  have residue := counts.residue
  rw [pow_length] at residue
  simp only [chksumPseudoStep, computed, bind_eq_bind, bind_some]
  split
  · rename_i odd
    rw [if_pos odd] at residue
    refine ⟨_, rfl, ?_, ?_, by simp [odd]⟩
    · rw [(swap_spec sum).1, residue]
      linear_combination (state.1.toNat + scale target * digest chunk.bytes) * flip_twice
    · rw [← counts.zero, UShort.swap_toNat]
      omega
  · rename_i even
    rw [if_neg even, one_mul] at residue
    exact ⟨_, rfl, residue, counts.zero, by simp [even]⟩

/-- So does the loop with all of them; `swapped` tells whether the total length is odd. -/
theorem chksumPseudoLoop_spec {p : List Chunk} (short : ∀ chunk ∈ p, chunk.bytes.length < 65536)
    (readable : ∀ chunk ∈ p, Readable target chunk) :
    ∃ final, p.foldlM (chksumPseudoStep target) state = some final ∧
      (final.1.toNat : Residue) = state.1.toNat + scale target * undisplaced p ∧
      (final.1.toNat = 0 ↔ state.1.toNat = 0 ∧ ∀ byte ∈ payload p, byte.toNat = 0) ∧
      final.2 = (state.2 ^^ decide ((payload p).length % 2 = 1)) := by
  induction p generalizing state with
  | nil => exact ⟨state, rfl, by simp [undisplaced], by simp [payload], by simp [payload]⟩
  | cons chunk p ih =>
    have split : payload (chunk :: p) = chunk.bytes ++ payload p := rfl
    have sums : undisplaced (chunk :: p) = digest chunk.bytes + undisplaced p := rfl
    rw [forall_mem_cons] at short readable
    obtain ⟨next, first, residue, zero, swapped⟩ :=
      @chksumPseudoStep_spec target state chunk short.1 readable.1
    obtain ⟨final, rest, residue', zero', swapped'⟩ := @ih next short.2 readable.2
    refine ⟨final, ?_, ?_, ?_, ?_⟩
    · rw [foldlM_cons, first]
      exact rest
    · rw [residue', residue, sums]
      ring
    · rw [zero', zero, split]
      simp only [mem_append, or_imp, forall_and, and_assoc]
    · rw [swapped', swapped, split, length_append, Bool.xor_assoc]
      congr 1
      rcases Nat.mod_two_eq_zero_or_one chunk.bytes.length with even | odd <;>
        rcases Nat.mod_two_eq_zero_or_one (payload p).length with even' | odd' <;>
        simp [Nat.add_mod, *]

end Loop

/-- The pseudo-header that `buf_chksum_pseudo` sums up: its length is read as it lies in memory. -/
def pseudoHeaderOf (target : Target) (src dest : IpAddr) (proto : UChar) (protoLen : UShort) :
    List UChar :=
  pseudoHeader src dest proto (nativeStore target protoLen)

variable (target : Target)

theorem nativeBytes_eq (value : UShort) :
    nativeBytes target value =
      [UShort.high (nativeStore target value), UShort.low (nativeStore target value)] := by
  rw [nativeBytes, nativeStore]
  split
  · rfl
  · rw [UShort.swap, UShort.high_ofBytes, UShort.low_ofBytes]

theorem chksumPseudoHeader_spec (src dest : IpAddr) (srcOdd destOdd : Bool) (proto : UChar)
    (protoLen : UShort) :
    ∃ sum, chksumPseudoHeader target src dest srcOdd destOdd proto protoLen = some sum ∧
      (sum.toNat : Residue) =
        scale target * digest (pseudoHeaderOf target src dest proto protoLen) ∧
      (sum.toNat = 0 ↔
        ∀ byte ∈ pseudoHeaderOf target src dest proto protoLen, byte.toNat = 0) := by
  have reads (sum : UShort) (odd : Bool) (buf : List UChar) (some_bytes : buf ≠ []) :
      ∃ result, crc16Inet target sum odd buf = some result :=
    isSome_iff_exists.mp ((crc16Inet_isSome target sum { odd, bytes := buf }).mpr
      fun _ _ => some_bytes)
  obtain ⟨first, computed⟩ := reads (nativeStore target (proto.setWidth 16)) false
    (nativeBytes target protoLen) (by simp [nativeBytes_eq])
  obtain ⟨second, computed'⟩ := reads first srcOdd src.toList (by simp [IpAddr.toList_eq])
  obtain ⟨third, computed''⟩ := reads second destOdd dest.toList (by simp [IpAddr.toList_eq])
  have counts := ((crc16Inet_counts (by simp [nativeBytes_eq]) computed).append
    (crc16Inet_counts (by simp [IpAddr.toList_eq]) computed')).append
    (crc16Inet_counts (by simp [IpAddr.toList_eq]) computed'')
  have value : (proto.setWidth 16).toNat = proto.toNat := by
    have bound := proto.isLt
    rw [BitVec.toNat_setWidth]
    omega
  have start := (nativeStore_spec target (proto.setWidth 16)).1
  rw [value] at start
  have zero : (nativeStore target (proto.setWidth 16)).toNat = 0 ↔ proto.toNat = 0 := by
    rw [nativeStore]
    split
    · rw [value]
    · rw [UShort.swap_toNat, value]
      have bound := proto.isLt
      omega
  have even : (256 : Residue) ^ 10 = 1 := by decide
  have empty : digest [] = 0 := rfl
  refine ⟨third, by simp [chksumPseudoHeader, computed, computed', computed''], ?_, ?_⟩
  · rw [counts.residue, start, nativeBytes_eq, IpAddr.toList_eq, IpAddr.toList_eq]
    simp only [cons_append, nil_append, length_cons, length_nil, zero_add,
      Nat.reduceAdd, even, pseudoHeaderOf, pseudoHeader, digest_pair, empty]
    push_cast
    ring
  · rw [counts.zero, zero, nativeBytes_eq, IpAddr.toList_eq, IpAddr.toList_eq]
    simp only [pseudoHeaderOf, pseudoHeader, cons_append, nil_append,
      forall_mem_cons]
    tauto

/-- A chain whose buffers have 16-bit lengths, none of which the checksum code stops at. -/
def Summable (target : Target) (p : List Chunk) : Prop :=
  ∀ chunk ∈ p, chunk.bytes.length < 65536 ∧ Readable target chunk

theorem complement_eq_iff {first second : UShort}
    (zeros : first.toNat = 0 ↔ second.toNat = 0) :
    ~~~first = ~~~second ↔ (first.toNat : Residue) = second.toNat := by
  constructor
  · intro same
    rw [BitVec.not_inj.mp same]
  · intro same
    rcases Nat.eq_zero_or_pos first.toNat with zero | positive
    · rw [BitVec.eq_of_toNat_eq (zero.trans (zeros.mp zero).symm)]
    · have positive' : 0 < second.toNat := by
        apply Nat.pos_of_ne_zero
        intro zero
        exact positive.ne' (zeros.mpr zero)
      have bound := first.isLt
      have bound' := second.isLt
      rw [BitVec.eq_of_toNat_eq (OnesComplement.eq_of_residue positive (by omega) positive'
        (by omega) same)]

theorem nativeStore_not (value : UShort) :
    nativeStore target (~~~value) = ~~~nativeStore target value := by
  rw [nativeStore, nativeStore]
  split
  · rfl
  · apply BitVec.eq_of_toNat_eq
    have bound := value.isLt
    rw [BitVec.toNat_not, UShort.swap_toNat, UShort.swap_toNat, BitVec.toNat_not]
    omega

theorem prescribed_complement (buf : List UChar) :
    ∃ sum : UShort, nativeStore target (prescribed buf) = ~~~sum ∧
      (sum.toNat : Residue) = scale target * digest buf ∧
      (sum.toNat = 0 ↔ ∀ byte ∈ buf, byte.toNat = 0) := by
  obtain ⟨value, bound, _⟩ := networkSum_spec buf 0 (by omega)
  have number : (BitVec.ofNat 16 (networkSum 0 buf)).toNat = networkSum 0 buf := by
    rw [BitVec.toNat_ofNat, Nat.mod_eq_of_lt (by omega)]
  refine ⟨_, nativeStore_not target _, ?_, ?_⟩
  · rw [(nativeStore_spec target _).1, number, value, Nat.cast_zero, zero_add]
  · have zero := networkSum_eq_zero_iff buf 0
    rw [← number] at zero
    simp only [true_and] at zero
    rw [← zero, nativeStore]
    split
    · rfl
    · rw [UShort.swap_toNat]
      have bound := (BitVec.ofNat 16 (networkSum 0 buf)).isLt
      omega

section Pseudo

variable {target : Target} {src dest : IpAddr} {srcOdd destOdd : Bool} {proto : UChar}
variable {protoLen : UShort} {p q : List Chunk}

/-- What `buf_chksum_pseudo` returns: every chunk counts as if it began at an even offset. -/
theorem bufChksumPseudo_spec (summable : Summable target p) :
    ∃ sum : UShort,
      bufChksumPseudo target p src dest srcOdd destOdd proto protoLen = some (~~~sum) ∧
      (sum.toNat : Residue) = 256 ^ (payload p).length * (scale target *
        (digest (pseudoHeaderOf target src dest proto protoLen) + undisplaced p)) ∧
      (sum.toNat = 0 ↔
        ∀ byte ∈ pseudoHeaderOf target src dest proto protoLen ++ payload p, byte.toNat = 0) := by
  obtain ⟨start, begins, residue, zero⟩ :=
    chksumPseudoHeader_spec target src dest srcOdd destOdd proto protoLen
  obtain ⟨final, loop, residue', zero', swapped⟩ := @chksumPseudoLoop_spec target (start, false) p
    (fun chunk member => (summable chunk member).1) (fun chunk member => (summable chunk member).2)
  simp only [Bool.false_xor] at swapped
  have total : (final.1.toNat : Residue) = scale target *
      (digest (pseudoHeaderOf target src dest proto protoLen) + undisplaced p) := by
    rw [residue', residue]
    ring
  have zeros : final.1.toNat = 0 ↔
      ∀ byte ∈ pseudoHeaderOf target src dest proto protoLen ++ payload p, byte.toNat = 0 := by
    rw [zero', zero]
    simp only [mem_append, or_imp, forall_and]
  refine ⟨if final.2 then UShort.swap final.1 else final.1, ?_, ?_, ?_⟩
  · simp only [bufChksumPseudo, begins, bind_eq_bind, bind_some, loop]
  · rw [pow_length, swapped]
    rcases Nat.mod_two_eq_zero_or_one (payload p).length with even | odd
    · simp [even, total]
    · simp [odd, (swap_spec final.1).1, total]
  · rw [← zeros]
    split
    · rw [UShort.swap_toNat]
      omega
    · rfl

theorem digest_whole (target : Target) (src dest : IpAddr) (proto : UChar) (protoLen : UShort)
    (p : List Chunk) :
    digest (pseudoHeaderOf target src dest proto protoLen ++ payload p) =
      digest (pseudoHeaderOf target src dest proto protoLen) + undisplaced p +
        255 * oddDigests false p := by
  have even : (256 : Residue) ^ 12 = 1 := by decide
  have chunks := digest_payload false p
  simp only [Bool.false_eq_true, if_false, one_mul] at chunks
  rw [digest_append, chunks]
  change _ + (256 : Residue) ^ 12 * _ = _
  rw [even]
  ring

theorem scale_cancel (target : Target) (first second : Residue) :
    scale target * first = scale target * second ↔ first = second := by
  constructor
  · intro same
    linear_combination scale target * same - (first - second) * scale_twice target
  · rintro rfl
    rfl

/-- A chain of even length is summed right if the chunks at an odd offset balance, one of odd length
if the header and the chunks at an even offset do. -/
theorem turned_eq_iff (target : Target) (src dest : IpAddr) (proto : UChar) (protoLen : UShort)
    (p : List Chunk) :
    256 ^ (payload p).length * (digest (pseudoHeaderOf target src dest proto protoLen) +
        undisplaced p) = digest (pseudoHeaderOf target src dest proto protoLen ++ payload p) ↔
      displaced false p + (if (payload p).length % 2 = 1 then
        balance (pseudoHeaderOf target src dest proto protoLen ++ payload p) else 0) = 0 := by
  have whole := digest_whole target src dest proto protoLen p
  have minus : halves 255 = -2 := by decide
  rw [← halves_oddDigests, ← halves_digest, pow_length, whole]
  split
  · have difference : halves (oddDigests false p) +
        halves (digest (pseudoHeaderOf target src dest proto protoLen) + undisplaced p +
          255 * oddDigests false p) =
        halves (digest (pseudoHeaderOf target src dest proto protoLen) + undisplaced p -
          oddDigests false p) := by
      simp only [map_add, map_mul, map_sub, minus]
      ring
    rw [difference, ← flip_fixes_iff]
    constructor
    · intro same
      linear_combination same
    · intro same
      linear_combination same
  · rw [add_zero, ← flip_fixes_iff, one_mul]
    constructor
    · intro same
      linear_combination -same
    · intro same
      linear_combination -same

/-- `buf_chksum_pseudo` gives two chains with the same payload the same value exactly if their
chunks at odd offsets have the same alternating sum, modulo 257; this value is the prescribed one
exactly if those of a chain of even length have the sum zero, or those of a chain of odd length the
sum that makes the whole zero; and it is the sum of one buffer, as `buf_chksum` leaves it, exactly
if they have the sum zero. -/
theorem bufChksumPseudo_right_iff (target : Target) (src dest : IpAddr) (srcOdd destOdd : Bool)
    (proto : UChar) (protoLen : UShort) (p : List Chunk) (summable : Summable target p) :
    (∀ q, Summable target q → payload q = payload p →
      (bufChksumPseudo target q src dest srcOdd destOdd proto protoLen =
          bufChksumPseudo target p src dest srcOdd destOdd proto protoLen ↔
        displaced false q = displaced false p)) ∧
    (bufChksumPseudo target p src dest srcOdd destOdd proto protoLen = some (nativeStore target
        (prescribed (pseudoHeaderOf target src dest proto protoLen ++ payload p))) ↔
      displaced false p + (if (payload p).length % 2 = 1 then
        balance (pseudoHeaderOf target src dest proto protoLen ++ payload p) else 0) = 0) ∧
    (bufChksumPseudo target p src dest srcOdd destOdd proto protoLen =
        some (~~~(pseudoHeaderOf target src dest proto protoLen ++ payload p).foldl
          (crc16InetByte target) 0) ↔
      displaced false p = 0) := by
  obtain ⟨sum, computed, residue, zero⟩ :=
    @bufChksumPseudo_spec target src dest srcOdd destOdd proto protoLen p summable
  have unturn (first second : Residue) (n : Nat) :
      256 ^ n * (scale target * first) = 256 ^ n * (scale target * second) ↔ first = second := by
    rw [← scale_cancel target first second]
    constructor
    · intro same
      linear_combination 256 ^ n * same - (scale target * first - scale target * second) *
        OnesComplement.flip_twice flip_twice n
    · intro same
      rw [same]
  refine ⟨fun q summable' flat => ?_, ?_, ?_⟩
  · obtain ⟨sum', computed', residue', zero'⟩ :=
      @bufChksumPseudo_spec target src dest srcOdd destOdd proto protoLen q summable'
    have chunks := digest_whole target src dest proto protoLen p
    have chunks' := digest_whole target src dest proto protoLen q
    rw [flat] at residue' zero' chunks'
    rw [computed, computed', some_inj, complement_eq_iff (zero'.trans zero.symm), residue,
      residue', unturn, ← sub_eq_zero (b := displaced false p), ← halves_oddDigests,
      ← halves_oddDigests, ← map_sub, ← flip_fixes_iff]
    constructor
    · intro same
      linear_combination chunks - chunks' - same
    · intro same
      linear_combination chunks - chunks' - same
  · obtain ⟨right, written, value, zero'⟩ := prescribed_complement target
      (pseudoHeaderOf target src dest proto protoLen ++ payload p)
    rw [computed, written, some_inj, complement_eq_iff (zero.trans zero'.symm), residue,
      value, mul_left_comm, scale_cancel]
    exact turned_eq_iff target src dest proto protoLen p
  · have folded := foldl_counts target
      (pseudoHeaderOf target src dest proto protoLen ++ payload p) 0
    generalize List.foldl (crc16InetByte target) 0
      (pseudoHeaderOf target src dest proto protoLen ++ payload p) = right at folded ⊢
    have zeros := folded.zero
    have value := folded.residue
    have even : (256 : Residue) ^ 12 = 1 := by decide
    have length : (pseudoHeaderOf target src dest proto protoLen ++ payload p).length =
        12 + (payload p).length := length_append
    simp only [BitVec.ofNat_eq_ofNat, BitVec.toNat_zero, true_and, Nat.cast_zero, zero_add, length,
      pow_add, even, one_mul] at zeros value
    rw [computed, some_inj, complement_eq_iff (zero.trans zeros.symm), residue,
      value, unturn,
      digest_whole, left_eq_add, flip_fixes_iff, halves_oddDigests]

end Pseudo

/-- Two chunks of even length. -/
theorem bufChksumPseudo_right_even :
    bufChksumPseudo .msp430 [{ bytes := [1, 2] }, { bytes := [3, 4] }] .any .any false true 17 4 =
      bufChksumPseudo .msp430 [{ bytes := [1, 2, 3, 4] }] .any .any false true 17 4 := by
  apply ((bufChksumPseudo_right_iff .msp430 .any .any false true 17 4 [{ bytes := [1, 2, 3, 4] }]
    (by simp [Summable, Readable])).1 [{ bytes := [1, 2] }, { bytes := [3, 4] }]
    (by simp [Summable, Readable]) rfl).mpr
  decide

/-- Two chunks of one byte are summed as if both were the first half of a word. -/
theorem bufChksumPseudo_splits :
    payload [{ bytes := [1] }, { bytes := [2] }] = payload [{ bytes := [1, 2] }] ∧
      bufChksumPseudo (.portable true) [{ bytes := [1] }, { bytes := [2] }]
          .any .any false false 17 2 ≠
        bufChksumPseudo (.portable true) [{ bytes := [1, 2] }] .any .any false false 17 2 ∧
      bufChksumPseudo (.portable true) [{ bytes := [1] }, { bytes := [2] }]
          .any .any false false 17 2 ≠
        some (prescribed (pseudoHeader .any .any 17 2 ++ [1, 2])) := by
  decide +kernel

end Checksum
end Uos
