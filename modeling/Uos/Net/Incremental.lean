import Mathlib.Tactic.IntervalCases
import Uos.Net.Bytewise
import Uos.Net.Bounds

/-!
# Incremental updates of checksums

`ip_forward` of `net/ip.c` and `icmp_echo_request` of `net/icmp.c` change a field of a packet and
patch the checksum by hand.  The packet may be a chain of buffers, in the first of which the headers
are looked for.
-/

namespace Uos

open List

open Checksum

/-- A received packet in a chain of buffers. -/
structure PacketChain where
  first : Packet
  totLen : UShort
  rest : List Chunk

namespace PacketChain

def chunks (p : PacketChain) : List Chunk :=
  p.first.chunk :: p.rest

def buf (p : PacketChain) : Buf where
  room := p.first.payload
  totLen := p.totLen
  chunks := p.chunks

def bytes (p : PacketChain) : List UChar :=
  payload p.chunks

end PacketChain

namespace Packet

def chain (p : Packet) : PacketChain where
  first := p
  totLen := p.len
  rest := []

/-- The two bytes of a checksum, after the update for a smaller time to live. -/
def updated (high low : UChar) : List UChar :=
  if high ≠ 0xff then [high + 1, low] else if low ≠ 0xff then [0, low + 1] else [1, 0]

def forwarded (p : Packet) : Packet :=
  let p := p.write 8 [p.byte 8 - 1]
  p.write 10 (updated (p.byte 10) (p.byte 11))

/-- The checksum of an echo reply, from that of the request, as two bytes in memory. -/
def adjusted (target : Target) (chksum : UShort) : UShort :=
  let old := nativeStore target chksum
  let htons := nativeStore target
  nativeStore target (if htons 0xf7ff ≤ old then old + htons 0x0800 + 1 else old + htons 0x0800)

def echoed (target : Target) (p : Packet) : Packet :=
  let src := p.ipAddr 12
  let dest := p.ipAddr 16
  let p := p.write 12 (dest.toList ++ src.toList)
  let p := p.write 20 [0]
  let stored := adjusted target (p.short 22)
  p.write 22 [UShort.high stored, UShort.low stored]

end Packet

namespace Ip

/-- `ip_forward` -/
def ipForwardChain (ip : Ip) (p : PacketChain) (gateway : IpAddr) (netif : NetifId)
    (netifIpaddr : IpAddr) : Handling Ip := do
  p.first.read 8 1
  if (p.first.byte 8).toNat ≤ 1 then
    p.first.read 9 1
    if p.first.byte 9 ≠ protoIcmp then
      ip.icmpTimeExceeded p.first
    else
      return ip
  else
    p.first.read 10 2
    .emit .output
    return ip.netifOutput netif { p with first := p.first.forwarded }.buf gateway netifIpaddr

/-- `icmp_echo_request` -/
def icmpEchoRequestChain (ip : Ip) (p : PacketChain) (inp : NetifId) : Handling Ip := do
  if p.totLen.toNat < 28 then
    .emit .free
    return ip
  else
    let chksum ← .ofOption (bufChksum ip.target p.chunks 0)
    if chksum ≠ 0 then
      .emit .free
      return ip
    else
      p.first.read 12 8
      p.first.read 22 2
      let first := p.first.echoed ip.target
      .emit .output
      return ip.netifOutput inp { p with first }.buf (first.ipAddr 16) (first.ipAddr 12)

theorem ipForwardChain_single (ip : Ip) (p : Packet) (gateway : IpAddr) (netif : NetifId)
    (netifIpaddr : IpAddr) :
    ip.ipForwardChain p.chain gateway netif netifIpaddr =
      ip.ipForward p gateway netif netifIpaddr :=
  rfl

theorem icmpEchoRequestChain_single (ip : Ip) (p : Packet) (inp : NetifId) :
    ip.icmpEchoRequestChain p.chain inp = ip.icmpEchoRequest p inp :=
  rfl

end Ip

namespace Packet

variable {p q : Packet}

theorem byte_write (p : Packet) (offset : Nat) (data : List UChar) (i : Nat) :
    (p.write offset data).byte i =
      if offset ≤ i then data.getD (i - offset) (p.byte i) else p.byte i := by
  simp [byte, write, Nat.add_sub_add_left]

theorem bytes_zero (p : Packet) (offset : Nat) : p.bytes offset 0 = [] :=
  rfl

theorem bytes_succ (p : Packet) (offset size : Nat) :
    p.bytes offset (size + 1) = p.byte offset :: p.bytes (offset + 1) size := by
  simp only [bytes, range_succ_eq_map, map_cons, map_map, Nat.add_zero]
  congr 1
  apply map_congr_left
  intro i _
  simp only [Function.comp]
  congr 1
  omega

theorem bytes_add (p : Packet) (offset first second : Nat) :
    p.bytes offset (first + second) = p.bytes offset first ++ p.bytes (offset + first) second := by
  simp only [bytes, range_add, map_append, map_map]
  congr 1
  apply map_congr_left
  intro i _
  simp only [Function.comp, Nat.add_assoc]

theorem length_bytes (p : Packet) (offset size : Nat) : (p.bytes offset size).length = size := by
  simp [bytes]

theorem bytes_congr {offset size : Nat}
    (same : ∀ i, offset ≤ i → i < offset + size → p.byte i = q.byte i) :
    p.bytes offset size = q.bytes offset size := by
  apply map_congr_left
  intro i member
  rw [mem_range] at member
  exact same _ (by omega) (by omega)

end Packet

namespace Checksum

/-- The test of a receiver, by the rule of the internet protocols. -/
def Verifies (buf : List UChar) : Prop :=
  networkSum 0 buf = 65535

instance : DecidablePred Verifies := fun buf =>
  inferInstanceAs (Decidable (networkSum 0 buf = 65535))

theorem verifies_digest_iff (buf : List UChar) :
    Verifies buf ↔ digest buf = 0 ∧ ¬∀ byte ∈ buf, byte.toNat = 0 := by
  obtain ⟨value, bound, _⟩ := networkSum_spec buf 0 (by omega)
  have zero := networkSum_eq_zero_iff buf 0
  simp only [true_and] at zero
  rw [Nat.cast_zero, zero_add] at value
  rw [Verifies, ← zero, ← value]
  constructor
  · intro good
    rw [good]
    exact ⟨by decide, by decide⟩
  · rintro ⟨residue, nonzero⟩
    exact (OnesComplement.eq_largest_iff (by omega) bound).mpr residue

variable {target : Target}

/-- What `ip_input` and `icmp_echo_request` look for, on every machine. -/
theorem complement_eq_zero_iff {buf : List UChar} {sum : UShort}
    (counts : Counts target 0 buf sum) : sum = 0xffff ↔ Verifies buf := by
  have twice := OnesComplement.flip_twice flip_twice buf.length
  have scaled := scale_twice target
  have residue := counts.residue
  have zero := counts.zero
  simp only [BitVec.ofNat_eq_ofNat, BitVec.toNat_zero, Nat.cast_zero, zero_add, true_and] at *
  rw [verifies_digest_iff, ← zero]
  have bound := sum.isLt
  constructor
  · rintro rfl
    refine ⟨?_, by decide⟩
    have full : ((65535 : Nat) : Residue) = 0 := by decide
    change ((65535 : Nat) : Residue) = _ at residue
    rw [full] at residue
    linear_combination -(scale target * 256 ^ buf.length) * residue -
      digest buf * (scale target * scale target) * twice - digest buf * scaled
  · rintro ⟨nothing, nonzero⟩
    apply BitVec.eq_of_toNat_eq
    change sum.toNat = 65535
    rw [nothing, mul_zero, mul_zero] at residue
    exact (OnesComplement.eq_largest_iff (by omega) (by omega)).mpr residue

/-- A chain passes the test of `icmp_echo_request`. -/
theorem bufChksum_zero_iff {p : List Chunk} (short : (payload p).length < 65536) :
    bufChksum target p 0 = some 0 ↔ (∀ chunk ∈ p, Readable target chunk) ∧
      Verifies (payload p) := by
  constructor
  · intro computed
    have readable : ∀ chunk ∈ p, Readable target chunk := by
      intro chunk member
      apply by_contra
      intro unreadable
      rw [bufChksum_unreadable member unreadable] at computed
      contradiction
    refine ⟨readable, ?_⟩
    rw [bufChksum_eq_foldl short readable, Option.some_inj] at computed
    rw [← complement_eq_zero_iff (foldl_counts target (payload p) 0)]
    apply BitVec.not_inj.mp
    rw [computed]
    decide
  · rintro ⟨readable, good⟩
    rw [bufChksum_eq_foldl short readable,
      (complement_eq_zero_iff (foldl_counts target (payload p) 0)).mpr good]
    decide

/-- The test of `ip_input`. -/
theorem crc16Inet_good_iff {odd : Bool} {buf : List UChar} (short : buf.length < 65536) :
    crc16Inet target 0 odd buf = some crc16InetGood ↔ Verifies buf := by
  constructor
  · intro good
    exact (complement_eq_zero_iff (crc16Inet_counts short good)).mp rfl
  · intro good
    have readable : Readable target { odd, bytes := buf } := by
      rintro _ _ rfl
      contradiction
    rw [crc16Inet_eq_foldl short readable,
      (complement_eq_zero_iff (foldl_counts target buf 0)).mpr good]
    rfl

theorem crc16Inet_good_pair :
    crc16Inet .i386 0 false [0xba, 0x45, 0x45, 0xba] = some crc16InetGood ↔
      Verifies [0xba, 0x45, 0x45, 0xba] :=
  crc16Inet_good_iff (by decide)

theorem Verifies.append {xs ys : List UChar} (first : Verifies xs) (second : Verifies ys) :
    Verifies (xs ++ ys) := by
  rw [verifies_digest_iff] at *
  refine ⟨by rw [digest_append, first.1, second.1, mul_zero, add_zero], ?_⟩
  intro silent
  exact first.2 fun byte member => silent byte (mem_append_left ys member)

end Checksum

namespace Packet

/-- The header that `ip_input` checks. -/
def header (p : Packet) : List UChar :=
  p.bytes 0 p.ipHlen

theorem updated_spec (high low : UChar) :
    ∃ high' low', updated high low = [high', low'] ∧
      (256 * high'.toNat + low'.toNat : Residue) = 256 * high.toNat + low.toNat + 256 := by
  have highBound := high.isLt
  have lowBound := low.isLt
  have next {byte : UChar} (room : byte ≠ 0xff) : (byte + 1).toNat = byte.toNat + 1 := by
    have bound := byte.isLt
    have small : byte.toNat ≠ 255 := fun full => room (BitVec.eq_of_toNat_eq full)
    rw [BitVec.toNat_add]
    simp
    omega
  rw [updated]
  split
  · rename_i room
    refine ⟨_, _, rfl, ?_⟩
    rw [next room]
    push_cast
    ring
  · rename_i full
    rw [not_not] at full
    subst full
    split
    · rename_i room
      have wrap : (256 * 255 + 256 : Residue) = 1 := by decide
      refine ⟨_, _, rfl, ?_⟩
      rw [next room]
      simp
      linear_combination -wrap
    · rename_i full
      rw [not_not] at full
      subst full
      exact ⟨_, _, rfl, by decide⟩

theorem forwarded_byte {high' low' : UChar} (p : Packet)
    (update : updated (p.byte 10) (p.byte 11) = [high', low']) (i : Nat) :
    p.forwarded.byte i = if i = 8 then p.byte 8 - 1 else if i = 10 then high'
      else if i = 11 then low' else p.byte i := by
  have high : (p.write 8 [p.byte 8 - 1]).byte 10 = p.byte 10 := by simp [byte_write]
  have low : (p.write 8 [p.byte 8 - 1]).byte 11 = p.byte 11 := by simp [byte_write]
  simp only [forwarded, high, low, update, byte_write]
  rcases Nat.lt_or_ge i 12 with inside | behind
  · interval_cases i <;> simp
  · obtain ⟨k, rfl⟩ := Nat.exists_eq_add_of_le behind
    have first : 12 + k - 10 = k + 2 := by omega
    have second : 12 + k - 8 = k + 4 := by omega
    have apart : ¬12 + k = 8 ∧ ¬12 + k = 10 ∧ ¬12 + k = 11 ∧ 10 ≤ 12 + k ∧ 8 ≤ 12 + k := by omega
    simp [first, second, apart]

theorem forwarded_ipHlen (p : Packet) : p.forwarded.ipHlen = p.ipHlen := by
  obtain ⟨high', low', update, _⟩ := updated_spec (p.byte 10) (p.byte 11)
  simp [ipHlen, forwarded_byte p update]

theorem forwarded_verifies {p : Packet} (alive : 1 < (p.byte 8).toNat)
    (good : Verifies p.header) : Verifies p.forwarded.header := by
  obtain ⟨high', low', update, value⟩ := updated_spec (p.byte 10) (p.byte 11)
  have bytes := forwarded_byte p update
  rw [header, forwarded_ipHlen]
  rw [header] at good
  have words : p.ipHlen % 4 = 0 := by
    rw [ipHlen]
    omega
  rcases Nat.lt_or_ge p.ipHlen 12 with short | long
  · have same : p.forwarded.bytes 0 p.ipHlen = p.bytes 0 p.ipHlen := by
      apply bytes_congr
      intro i _ inside
      rw [bytes, if_neg (by omega), if_neg (by omega), if_neg (by omega)]
    rw [same]
    exact good
  · obtain ⟨size, split⟩ := Nat.exists_eq_add_of_le long
    have before : p.forwarded.bytes 0 8 = p.bytes 0 8 := by
      apply bytes_congr
      intro i _ inside
      rw [bytes, if_neg (by omega), if_neg (by omega), if_neg (by omega)]
    have after : p.forwarded.bytes 12 size = p.bytes 12 size := by
      apply bytes_congr
      intro i inside _
      rw [bytes, if_neg (by omega), if_neg (by omega), if_neg (by omega)]
    have parts (q : Packet) : q.bytes 0 (12 + size) =
        q.bytes 0 8 ++ (q.byte 8 :: q.byte 9 :: q.byte 10 :: q.byte 11 :: q.bytes 12 size) := by
      rw [show 12 + size = 8 + (size + 1 + 1 + 1 + 1) by omega, bytes_add, Nat.zero_add]
      congr 1
      rw [bytes_succ, bytes_succ, bytes_succ, bytes_succ]
    have ttl : (p.byte 8 - 1).toNat = (p.byte 8).toNat - 1 := by
      have bound := (p.byte 8).isLt
      rw [BitVec.toNat_sub]
      simp
      omega
    have even : (256 : Residue) ^ 8 = 1 := by decide
    rw [split, parts, verifies_digest_iff] at good ⊢
    rw [before, after, bytes 8, bytes 9, bytes 10, bytes 11]
    simp only [if_true, Nat.reduceEqDiff, if_false]
    constructor
    · have sum := good.1
      rw [digest_append, digest_pair, digest_pair, length_bytes, even] at sum ⊢
      rw [ttl, Nat.cast_sub (by omega)]
      push_cast
      linear_combination sum + value
    · intro silent
      have live := silent (p.byte 8 - 1) (by simp)
      omega

theorem adjusted_toNat (target : Target) (chksum : UShort) :
    (adjusted target chksum).toNat =
      if chksum.toNat < 0xf7ff then chksum.toNat + 0x0800 else chksum.toNat + 0x0801 - 65536 := by
  have bound := chksum.isLt
  simp only [adjusted, nativeStore]
  split
  · split
    · rename_i high
      have high : 0xf7ff ≤ chksum.toNat := high
      rw [if_neg (by omega), BitVec.toNat_add, BitVec.toNat_add]
      simp
      omega
    · rename_i low
      have low : ¬0xf7ff ≤ chksum.toNat := low
      rw [if_pos (by omega), BitVec.toNat_add]
      simp
      omega
  · have threshold : (UShort.swap 0xf7ff).toNat = 0xfff7 := by decide
    have word : (UShort.swap 0x0800).toNat = 8 := by decide
    have turned := UShort.swap_toNat chksum
    set high := chksum.toNat / 256 with high_eq
    set low := chksum.toNat % 256 with low_eq
    have whole : chksum.toNat = 256 * high + low := by omega
    have highBound : high < 256 := by omega
    have lowBound : low < 256 := by omega
    rw [UShort.swap_toNat]
    split
    · rename_i wraps
      have wraps : (UShort.swap 0xf7ff).toNat ≤ (UShort.swap chksum).toNat := wraps
      have full : low = 255 ∧ 247 ≤ high := by omega
      have sum : (UShort.swap chksum + UShort.swap 0x0800 + 1).toNat = high - 247 := by
        rw [BitVec.toNat_add, BitVec.toNat_add, word]
        simp
        omega
      rw [sum, if_neg (by omega)]
      omega
    · rename_i fits
      have fits : ¬(UShort.swap 0xf7ff).toNat ≤ (UShort.swap chksum).toNat := fits
      rcases Nat.lt_or_ge high 248 with small | large
      · have sum : (UShort.swap chksum + UShort.swap 0x0800).toNat = low * 256 + (high + 8) := by
          rw [BitVec.toNat_add, word]
          omega
        rw [sum, if_pos (by omega)]
        omega
      · have sum : (UShort.swap chksum + UShort.swap 0x0800).toNat =
            (low + 1) * 256 + (high - 248) := by
          rw [BitVec.toNat_add, word]
          omega
        rw [sum, if_neg (by omega)]
        omega

section Echoed

variable (target : Target) (p : Packet)

theorem echoed_byte (i : Nat) : (p.echoed target).byte i =
    if i < 12 then p.byte i else if i < 16 then p.byte (i + 4) else if i < 20 then p.byte (i - 4)
    else if i = 20 then 0 else if i = 21 then p.byte 21
    else if i = 22 then UShort.high (adjusted target (p.short 22))
    else if i = 23 then UShort.low (adjusted target (p.short 22)) else p.byte i := by
  have dest : (p.ipAddr 16).toList = [p.byte 16, p.byte 17, p.byte 18, p.byte 19] := rfl
  have src : (p.ipAddr 12).toList = [p.byte 12, p.byte 13, p.byte 14, p.byte 15] := rfl
  have chksum : ((p.write 12 [p.byte 16, p.byte 17, p.byte 18, p.byte 19, p.byte 12, p.byte 13,
      p.byte 14, p.byte 15]).write 20 [0]).short 22 = p.short 22 := by
    simp [short, byte_write]
  simp only [echoed, dest, src, cons_append, nil_append, chksum, byte_write]
  rcases Nat.lt_or_ge i 24 with inside | behind
  · interval_cases i <;> rfl
  · obtain ⟨k, rfl⟩ := Nat.exists_eq_add_of_le behind
    have first : 24 + k - 22 = k + 2 := by omega
    have second : 24 + k - 20 = k + 4 := by omega
    have third : 24 + k - 12 = k + 12 := by omega
    have order : ¬24 + k < 12 ∧ ¬24 + k < 16 ∧ ¬24 + k < 20 ∧ ¬24 + k = 20 ∧ ¬24 + k = 21 ∧
        ¬24 + k = 22 ∧ ¬24 + k = 23 ∧ 22 ≤ 24 + k ∧ 20 ≤ 24 + k ∧ 12 ≤ 24 + k := by omega
    simp [first, second, third, order]

theorem echoed_header : (p.echoed target).bytes 0 20 =
    p.bytes 0 12 ++ [p.byte 16, p.byte 17, p.byte 18, p.byte 19, p.byte 12, p.byte 13, p.byte 14,
      p.byte 15] := by
  have front : (p.echoed target).bytes 0 12 = p.bytes 0 12 := by
    apply bytes_congr
    intro i _ inside
    rw [echoed_byte, if_pos (by omega)]
  rw [show 20 = 12 + 8 by rfl, bytes_add, front]
  congr 1
  simp only [bytes_succ, bytes_zero, echoed_byte]
  rfl

theorem header_split : p.bytes 0 20 =
    p.bytes 0 12 ++ [p.byte 12, p.byte 13, p.byte 14, p.byte 15, p.byte 16, p.byte 17, p.byte 18,
      p.byte 19] := by
  rw [show 20 = 12 + 8 by rfl, bytes_add]
  congr 1

theorem echoed_verifies : Verifies ((p.echoed target).bytes 0 20) ↔ Verifies (p.bytes 0 20) := by
  have empty : digest [] = 0 := rfl
  rw [echoed_header, header_split, verifies_digest_iff, verifies_digest_iff, digest_append,
    digest_append]
  simp only [digest_pair, empty, mem_append, or_imp, forall_and, forall_mem_cons]
  apply and_congr
  · constructor
    · intro sum
      linear_combination sum
    · intro sum
      linear_combination sum
  · tauto

end Echoed

end Packet

namespace PacketChain

variable {p : PacketChain}

theorem bytes_split (inFirst : 20 ≤ p.first.len.toNat) :
    p.bytes.take 20 = p.first.bytes 0 20 ∧
      p.bytes.drop 20 = p.first.bytes 20 (p.first.len.toNat - 20) ++ payload p.rest := by
  have split : p.first.len.toNat = 20 + (p.first.len.toNat - 20) := by omega
  have whole : p.bytes = p.first.bytes 0 20 ++
      (p.first.bytes 20 (p.first.len.toNat - 20) ++ payload p.rest) := by
    change p.first.bytes 0 p.first.len.toNat ++ payload p.rest = _
    rw [← append_assoc]
    congr 1
    conv_lhs => rw [split]
    rw [Packet.bytes_add, Nat.zero_add]
  have size := p.first.length_bytes 0 20
  rw [whole]
  exact ⟨take_left' size, drop_left' size⟩

/-- An echo request as `ip_input` passes it on: its header, of 20 bytes, is in the first buffer. -/
structure EchoRequest (p : PacketChain) : Prop where
  whole : p.bytes.length = p.totLen.toNat
  long : 28 ≤ p.totLen.toNat
  inFirst : 20 ≤ p.first.len.toNat
  header : Verifies (p.bytes.take 20)
  message : Verifies (p.bytes.drop 20)
  type : p.bytes.getD 20 0 = 8

/-- A packet is a correct echo reply. -/
structure EchoReply (bytes : List UChar) : Prop where
  header : Verifies (bytes.take 20)
  message : Verifies (bytes.drop 20)
  type : bytes.getD 20 0 = 0

/-- The checksum field is in the first buffer, and the reply has a byte that is not zero; or only
its first byte is there, and no carry goes into the second. -/
def Patchable (p : PacketChain) : Prop :=
  24 ≤ p.first.len.toNat ∧ (∃ byte ∈ p.bytes.getD 21 0 :: p.bytes.drop 24, byte ≠ 0) ∨
    p.first.len.toNat = 23 ∧ (p.first.short 22).toNat < 0xf7ff

variable {tail : List UChar} (type : UChar) (target : Target)

/-- The type of the message counts twice as much as the code, and so on: without the patch the sum
of the reply is not right. -/
theorem unpatched (eight : type = 8) (request : digest (type :: tail) = 0) :
    ¬digest (0 :: tail) = 0 := by
  intro reply
  have change : (256 * 8 : Residue) ≠ 0 := by decide
  apply change
  subst eight
  rw [digest_cons] at request reply
  simp only [BitVec.ofNat_eq_ofNat, BitVec.toNat_ofNat, Nat.zero_mod, Nat.cast_zero,
    Nat.reducePow, Nat.reduceMod, Nat.cast_ofNat] at request reply
  linear_combination request - reply

theorem split_patch (chksum : UShort) (type code : UChar) (eight : type = 8)
    (request : digest (type :: code :: UShort.high chksum :: tail) = 0) :
    Verifies (0 :: code :: UShort.high (Packet.adjusted target chksum) :: tail) ↔
      chksum.toNat < 0xf7ff := by
  subst eight
  have bound := chksum.isLt
  have patch := Packet.adjusted_toNat target chksum
  rw [verifies_digest_iff, digest_pair, digest_cons]
  rw [digest_pair, digest_cons] at request
  simp only [BitVec.ofNat_eq_ofNat, BitVec.toNat_ofNat, Nat.reducePow, Nat.reduceMod,
    Nat.cast_ofNat, Nat.cast_zero, mul_zero, zero_add, Nat.zero_mod] at request ⊢
  rw [UShort.high_toNat] at request ⊢
  constructor
  · rintro ⟨reply, -⟩
    have same : (((Packet.adjusted target chksum).toNat / 256 : Nat) : Residue) =
        (chksum.toNat / 256 + 8 : Nat) := by
      push_cast
      linear_combination 256 * (reply - request) -
        (((Packet.adjusted target chksum).toNat / 256 : Nat) -
          ((chksum.toNat / 256 : Nat) : Residue)
          - 8) * flip_twice
    have equal := @OnesComplement.eq_of_complement 65535 _ _ (by split at patch <;> omega)
      (by omega) same
    split at patch
    · assumption
    · omega
  · intro low
    rw [if_pos low] at patch
    have equal : (Packet.adjusted target chksum).toNat / 256 = chksum.toNat / 256 + 8 := by omega
    refine ⟨?_, fun silent => ?_⟩
    · rw [equal]
      push_cast
      linear_combination request
    · have zero := silent (UShort.high (Packet.adjusted target chksum)) (by simp)
      rw [UShort.high_toNat] at zero
      omega

theorem whole_patch (chksum : UShort) (type code : UChar) (eight : type = 8)
    (request : digest (type :: code :: UShort.high chksum :: UShort.low chksum :: tail) = 0) :
    Verifies (0 :: code :: UShort.high (Packet.adjusted target chksum) ::
        UShort.low (Packet.adjusted target chksum) :: tail) ↔
      ∃ byte ∈ code :: tail, byte ≠ 0 := by
  subst eight
  have bound := chksum.isLt
  have patch := Packet.adjusted_toNat target chksum
  have split := cast_split chksum.toNat 256
  have split' := cast_split (Packet.adjusted target chksum).toNat 256
  push_cast at split split'
  have added : ((Packet.adjusted target chksum).toNat : Residue) = chksum.toNat + 256 * 8 := by
    rw [patch]
    split
    · push_cast
      ring
    · have wrap : (0x0801 : Residue) = 65536 + 256 * 8 := by decide
      rw [Nat.cast_sub (by omega)]
      push_cast
      linear_combination wrap
  rw [verifies_digest_iff, digest_pair, digest_pair]
  rw [digest_pair, digest_pair] at request
  simp only [BitVec.ofNat_eq_ofNat, BitVec.toNat_ofNat, Nat.reducePow, Nat.reduceMod,
    Nat.cast_ofNat, Nat.cast_zero, mul_zero, zero_add, Nat.zero_mod, UShort.high_toNat,
    UShort.low_toNat] at request ⊢
  have sum : (code.toNat : Residue) + (256 * ((Packet.adjusted target chksum).toNat / 256 : Nat) +
      ((Packet.adjusted target chksum).toNat % 256 : Nat) + digest tail) = 0 := by
    linear_combination request - split' + split + added
  simp only [sum, true_and, forall_mem_cons, UShort.high_toNat, UShort.low_toNat]
  constructor
  · intro loud
    apply by_contra
    intro others
    simp only [mem_cons, exists_eq_or_imp, not_or, not_exists, not_and, not_not] at others
    have silent : ∀ byte ∈ tail, byte.toNat = 0 := by
      intro byte member
      rw [others.2 byte member]
      rfl
    have nothing : digest tail = 0 := by
      rw [← zero_add (digest tail), ← Nat.cast_zero (R := Residue),
        ← (networkSum_spec tail 0 (by omega)).1,
        (networkSum_eq_zero_iff tail 0).mpr ⟨rfl, silent⟩]
    have divides : ((chksum.toNat + 2048 : Nat) : Residue) = 0 := by
      rw [others.1, nothing] at request
      push_cast
      simp only [BitVec.toNat_ofNat, Nat.zero_mod, Nat.cast_zero] at request
      linear_combination request + split
    rw [ZMod.natCast_eq_zero_iff] at divides
    have full : chksum.toNat = 0xf7ff := by omega
    rw [if_neg (by omega)] at patch
    apply loud
    rw [others.1]
    exact ⟨rfl, rfl, by omega, by omega, silent⟩
  · rintro ⟨byte, member, nonzero⟩ ⟨-, codeZero, -, -, tailZero⟩
    apply nonzero
    apply BitVec.eq_of_toNat_eq
    rcases mem_cons.mp member with rfl | later
    · exact codeZero
    · exact tailZero byte later

theorem getD_drop (bytes : List UChar) (front i : Nat) :
    (bytes.drop front).getD i 0 = bytes.getD (front + i) 0 := by
  simp [getD_eq_getElem?_getD]

theorem echoed_reply_iff (target : Target) (request : p.EchoRequest) :
    EchoReply { p with first := p.first.echoed target }.bytes ↔ p.Patchable := by
  have inFirst : 20 ≤ (p.first.echoed target).len.toNat := request.inFirst
  obtain ⟨front, back⟩ := bytes_split request.inFirst
  obtain ⟨front', back'⟩ := @bytes_split { p with first := p.first.echoed target } inFirst
  have header := request.header
  have message := request.message
  have type := request.type
  have same : (p.first.echoed target).len = p.first.len := rfl
  rw [front] at header
  have reply : EchoReply { p with first := p.first.echoed target }.bytes ↔
      Verifies ((p.first.echoed target).bytes 20 (p.first.len.toNat - 20) ++ payload p.rest) ∧
        ((p.first.echoed target).bytes 20 (p.first.len.toNat - 20) ++ payload p.rest).getD 0 0 =
          0 := by
    rw [← same, ← back', getD_drop]
    constructor
    · rintro ⟨-, message, type⟩
      exact ⟨message, type⟩
    · rintro ⟨message, type⟩
      exact ⟨by rw [front']; exact (Packet.echoed_verifies target p.first).mpr header, message,
        type⟩
  have code : p.bytes.getD 21 0 = (p.bytes.drop 20).getD 1 0 := (getD_drop p.bytes 20 1).symm
  have tail : p.bytes.drop 24 = (p.bytes.drop 20).drop 4 := by rw [drop_drop]
  have stored := Packet.echoed_byte target p.first
  rw [reply, Patchable, code, tail]
  rw [← Nat.add_zero 20, ← getD_drop] at type
  rw [back] at message type ⊢
  have high : p.first.byte 22 = UShort.high (p.first.short 22) :=
    (UShort.high_ofBytes _ _).symm
  have low : p.first.byte 23 = UShort.low (p.first.short 22) :=
    (UShort.low_ofBytes _ _).symm
  obtain ⟨size, split⟩ : ∃ size, p.first.len.toNat - 20 = size := ⟨_, rfl⟩
  have length : p.first.len.toNat = 20 + size := by
    have inFirst := request.inFirst
    omega
  rw [split] at message type ⊢
  rw [length]
  have sum := ((verifies_digest_iff _).mp message).1
  match size with
  | 0 =>
    simp only [Packet.bytes_zero, nil_append] at type ⊢
    rw [type]
    simp
  | 1 =>
    simp only [Packet.bytes_succ, Packet.bytes_zero, cons_append,
      nil_append] at type sum ⊢
    refine iff_of_false (fun holds => ?_) (by omega)
    have sum' := ((verifies_digest_iff _).mp holds.1).1
    rw [stored 20] at sum'
    exact unpatched _ type sum sum'
  | 2 =>
    simp only [Packet.bytes_succ, Packet.bytes_zero, cons_append,
      nil_append] at type sum ⊢
    refine iff_of_false (fun holds => ?_) (by omega)
    have sum' := ((verifies_digest_iff _).mp holds.1).1
    rw [stored 20, stored 21] at sum'
    exact unpatched _ type sum sum'
  | 3 =>
    simp only [Packet.bytes_succ, Packet.bytes_zero, cons_append,
      nil_append] at type sum ⊢
    rw [high] at sum
    rw [stored 20, stored 21, stored 22]
    have patch := split_patch target (p.first.short 22) _ _ type sum
    simpa using patch
  | size + 4 =>
    simp only [Packet.bytes_succ, cons_append] at type sum ⊢
    rw [high, low] at sum
    have rest : (p.first.echoed target).bytes 24 size = p.first.bytes 24 size := by
      apply Packet.bytes_congr
      intro i behind _
      simp only [stored, show ¬i < 12 by omega, show ¬i < 16 by omega, show ¬i < 20 by omega,
        show ¬i = 20 by omega, show ¬i = 21 by omega, show ¬i = 22 by omega,
        show ¬i = 23 by omega, if_false]
    rw [stored 20, stored 21, stored 22, stored 23, rest]
    have patch := whole_patch target (p.first.short 22) _ _ type sum
    have room : 24 ≤ 20 + (size + 4) := by omega
    have apart : ¬20 + (size + 4) = 23 := by omega
    simp only [room, true_and, apart, false_and, or_false]
    simpa using patch

/-- The answer to an echo request is a correct reply. -/
def Replies (ip : Ip) (p : PacketChain) (inp : NetifId) : Prop :=
  ∃ reply dest src, (ip.icmpEchoRequestChain p inp).result =
    some (ip.netifOutput inp reply dest src) ∧ EchoReply (payload reply.chunks)

theorem replies_iff (ip : Ip) (inp : NetifId) (request : p.EchoRequest) :
    Replies ip p inp ↔ (∀ chunk ∈ p.chunks, Readable ip.target chunk) ∧ p.Patchable := by
  have long := request.long
  have whole := request.whole
  have bound := p.totLen.isLt
  have good : Verifies (payload p.chunks) := by
    have parts := request.header.append request.message
    rw [take_append_drop] at parts
    exact parts
  have test := @bufChksum_zero_iff ip.target p.chunks (by
    change p.bytes.length < 65536
    omega)
  rw [← echoed_reply_iff ip.target request, Replies]
  simp only [good, and_true] at test
  have short : ¬p.totLen.toNat < 28 := by omega
  simp only [Ip.icmpEchoRequestChain, short, if_false, Traced.result_ofOption_bind]
  constructor
  · rintro ⟨reply, dest, src, result, correct⟩
    have answered : bufChksum ip.target p.chunks 0 = some 0 := by
      cases computed : bufChksum ip.target p.chunks 0 with
      | none =>
        rw [computed] at result
        contradiction
      | some chksum =>
        rw [computed] at result
        apply congrArg some
        apply by_contra
        intro wrong
        simp only [Option.bind_some, ne_eq, wrong, not_false_eq_true, if_true,
          Traced.result_emit_bind, Traced.result_pure, Option.some_inj] at result
        have lengths := congrArg (fun ip : Ip => ip.sent.length) result
        simp [Ip.netifOutput] at lengths
    refine ⟨test.mp answered, ?_⟩
    rw [answered] at result
    simp only [Option.bind_some, ne_eq, not_true_eq_false, if_false, Packet.read,
      Traced.result_emit_bind, Traced.result_pure, Option.some_inj] at result
    have sent := congrArg Ip.sent result
    simp only [Ip.netifOutput, append_cancel_left_eq, List.cons.injEq, and_true,
      Transmission.mk.injEq, true_and] at sent
    rw [← sent.1] at correct
    exact correct
  · rintro ⟨readable, correct⟩
    refine ⟨PacketChain.buf { p with first := p.first.echoed ip.target },
      (p.first.echoed ip.target).ipAddr 16, (p.first.echoed ip.target).ipAddr 12, ?_, correct⟩
    rw [test.mpr readable]
    rfl

/-- The header of the packet is in its first buffer; `ip_input` checks its length. -/
structure HeaderInFirst (p : PacketChain) : Prop where
  begun : 0 < p.first.len.toNat
  checked : p.first.ipHlen ≤ p.first.len.toNat

theorem header_eq (inFirst : p.HeaderInFirst) :
    p.first.header = p.bytes.take ((p.bytes.getD 0 0 &&& 0x0f).toNat * 4) := by
  have first : p.bytes.getD 0 0 = p.first.byte 0 := by
    have begun := inFirst.begun
    obtain ⟨size, split⟩ := Nat.exists_eq_add_of_lt begun
    change (p.first.bytes 0 p.first.len.toNat ++ payload p.rest).getD 0 0 = _
    rw [split, Nat.zero_add, Packet.bytes_succ]
    rfl
  obtain ⟨size, split⟩ := Nat.exists_eq_add_of_le inFirst.checked
  change _ = List.take _ (p.first.bytes 0 p.first.len.toNat ++ payload p.rest)
  rw [first, ← Packet.ipHlen, split, Packet.bytes_add, append_assoc,
    take_left' (Packet.length_bytes ..), Packet.header]

/-- A packet is forwarded, and arrives in the buffers of the next machine. -/
structure Hop (p q : PacketChain) : Prop where
  alive : 1 < (p.first.byte 8).toNat
  forwarded : ∃ (ip : Ip) (gateway : IpAddr) (netif : NetifId) (own : IpAddr) (sent : Buf),
    (ip.ipForwardChain p gateway netif own).result =
      some (ip.netifOutput netif sent gateway own) ∧ payload sent.chunks = q.bytes
  inFirst : q.HeaderInFirst

theorem ipForwardChain_alive (ip : Ip) (gateway : IpAddr) (netif : NetifId) (own : IpAddr)
    (alive : 1 < (p.first.byte 8).toNat) :
    (ip.ipForwardChain p gateway netif own).result =
      some (ip.netifOutput netif { p with first := p.first.forwarded }.buf gateway own) := by
  have live : ¬(p.first.byte 8).toNat ≤ 1 := by omega
  simp only [Ip.ipForwardChain, live, if_false]
  rfl

theorem Hop.verifies {q : PacketChain} (hop : Hop p q) (inFirst : p.HeaderInFirst)
    (good : Verifies p.first.header) : Verifies q.first.header := by
  obtain ⟨ip, gateway, netif, own, sent, result, arrived⟩ := hop.forwarded
  rw [ipForwardChain_alive ip gateway netif own hop.alive, Option.some_inj] at result
  have packets := congrArg Ip.sent result
  simp only [Ip.netifOutput, append_cancel_left_eq, List.cons.injEq, and_true,
    Transmission.mk.injEq, true_and] at packets
  have kept : HeaderInFirst { p with first := p.first.forwarded } :=
    ⟨inFirst.begun, by
      change p.first.forwarded.ipHlen ≤ p.first.len.toNat
      rw [Packet.forwarded_ipHlen]
      exact inFirst.checked⟩
  have same : q.bytes = PacketChain.bytes { p with first := p.first.forwarded } := by
    rw [← arrived, ← packets]
    rfl
  rw [header_eq hop.inFirst, same, ← header_eq kept]
  exact Packet.forwarded_verifies hop.alive good

theorem hops_verify {q : PacketChain} (hops : Relation.ReflTransGen Hop p q)
    (inFirst : p.HeaderInFirst) (good : Verifies p.first.header) : Verifies q.first.header := by
  suffices kept : q.HeaderInFirst ∧ Verifies q.first.header from kept.2
  induction hops with
  | refl => exact ⟨inFirst, good⟩
  | tail _ hop ih => exact ⟨hop.inFirst, hop.verifies ih.1 ih.2⟩

end PacketChain

/-- A packet with a time to live above one is forwarded, with a correct header after any number of
hops; and the answer to a correct echo request is a correct reply exactly if the checksum code gets
through the chain, the first buffer has the checksum, and the reply is not all zero. -/
theorem patches_verify_iff (ip : Ip) (p : PacketChain) :
    (∀ (gateway : IpAddr) (netif : NetifId) (own : IpAddr), 1 < (p.first.byte 8).toNat →
      (ip.ipForwardChain p gateway netif own).result =
        some (ip.netifOutput netif { p with first := p.first.forwarded }.buf gateway own)) ∧
    (∀ q : PacketChain, Relation.ReflTransGen PacketChain.Hop p q → p.HeaderInFirst →
      Verifies p.first.header → Verifies q.first.header) ∧
    ∀ inp : NetifId, p.EchoRequest →
      (PacketChain.Replies ip p inp ↔
        (∀ chunk ∈ p.chunks, Readable ip.target chunk) ∧ p.Patchable) :=
  ⟨fun gateway netif own alive => PacketChain.ipForwardChain_alive ip gateway netif own alive,
    fun _ hops inFirst good => PacketChain.hops_verify hops inFirst good,
    fun inp request => PacketChain.replies_iff ip inp request⟩

namespace PacketChain

/-- The header of an echo request from 10.0.0.1 to 10.0.0.2, with eight bytes of ICMP. -/
def sampleHeader : List UChar :=
  [0x45, 0, 0, 28, 0, 0, 0, 0, 64, 1, 0x66, 0xdf, 10, 0, 0, 1, 10, 0, 0, 2]

def sample (message : List UChar) : PacketChain where
  first :=
    { memory := fun i => (sampleHeader ++ message).getD i 0
      payload := 0
      len := .ofNat 16 (20 + message.length) }
  totLen := .ofNat 16 (20 + message.length)
  rest := []

end PacketChain

/-- An echo request with a sequence number. -/
theorem patches_verify_sequence :
    PacketChain.Replies { target := .portable true, wideShift := fun _ => 0 }
      (.sample [8, 0, 0xf7, 0xfe, 0, 0, 0, 1]) 0 := by
  have request : (PacketChain.sample [8, 0, 0xf7, 0xfe, 0, 0, 0, 1]).EchoRequest := by
    constructor <;> decide +kernel
  apply ((patches_verify_iff _ _).2.2 0 request).mpr
  constructor
  · intro chunk member aligns odd
    have only : chunk = (PacketChain.sample [8, 0, 0xf7, 0xfe, 0, 0, 0, 1]).first.chunk := by
      simpa [PacketChain.chunks, PacketChain.sample] using member
    subst only
    contradiction
  · exact .inl ⟨by decide, by decide +kernel⟩

/-- The reply to an echo request whose other bytes are zero has no checksum. -/
theorem patches_blank :
    ¬∀ (ip : Ip) (p : PacketChain) (inp : NetifId), p.EchoRequest →
      (∀ chunk ∈ p.chunks, Readable ip.target chunk) → PacketChain.Replies ip p inp := by
  intro all
  have request : (PacketChain.sample [8, 0, 0xf7, 0xff, 0, 0, 0, 0]).EchoRequest := by
    constructor <;> decide +kernel
  have readable : ∀ chunk ∈ (PacketChain.sample [8, 0, 0xf7, 0xff, 0, 0, 0, 0]).chunks,
      Readable .msp430 chunk := by
    intro chunk member aligns odd
    have only : chunk = (PacketChain.sample [8, 0, 0xf7, 0xff, 0, 0, 0, 0]).first.chunk := by
      simpa [PacketChain.chunks, PacketChain.sample] using member
    subst only
    contradiction
  have replies := all { target := .msp430, wideShift := fun _ => 0 } _ 0 request readable
  have patchable := ((PacketChain.replies_iff _ 0 request).mp replies).2
  revert patchable
  rw [PacketChain.Patchable]
  decide +kernel

end Uos
