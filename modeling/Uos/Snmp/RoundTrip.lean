import Mathlib.Tactic.IntervalCases
import Uos.Snmp.Encode
import Uos.Snmp.Parse
import Uos.Snmp.Value

/-!
# Decoding undoes encoding

Which trees `asn_parse` gives back from the bytes of `asn_encode`.
-/

namespace Uos

open List

namespace Asn

/-- Bytes that consist of a type, the length of the contents and the contents. -/
def Framed (type : UChar) (contents bytes : List UChar) : Prop :=
  ∃ header, bytes = type :: (header ++ contents) ∧
    ∀ rest, getLength (header ++ (contents ++ rest)) = some (contents.length, contents ++ rest)

variable {type : UChar} {contents bytes rest front : List UChar} {sz n : Nat}

theorem and_high_eq_zero : ∀ byte : UChar, byte.toNat < 128 → byte &&& 0x80 = 0 := by
  decide +kernel

theorem and_high_ne_zero : ∀ byte : UChar, 128 ≤ byte.toNat → byte &&& 0x80 ≠ 0 := by
  decide +kernel

theorem and_low_toNat : ∀ byte : UChar, (byte &&& 0x7f).toNat = byte.toNat % 128 := by
  decide +kernel

theorem getLength_short (small : n < 128) : getLength (.ofNat 8 n :: rest) = some (n, rest) := by
  have value : (BitVec.ofNat 8 n).toNat = n := by
    rw [BitVec.toNat_ofNat, Nat.mod_eq_of_lt (by omega)]
  have short := and_high_eq_zero (.ofNat 8 n) (by omega)
  have used : BitVec.ofNat 8 n ≠ 0xff := by
    intro same
    rw [same] at value
    simp at value
    omega
  rw [getLength, if_neg used, if_pos short, value]

variable {val : Nat}

theorem getLength_long (few : n ≤ 4) (positive : 0 < n) (fits : val < 256 ^ n) :
    getLength (.ofNat 8 (0x80 + n) :: (lowBytes val n ++ rest)) = some (val, rest) := by
  have value : (BitVec.ofNat 8 (0x80 + n)).toNat = 0x80 + n := by
    rw [BitVec.toNat_ofNat, Nat.mod_eq_of_lt (by omega)]
  have long := and_high_ne_zero (.ofNat 8 (0x80 + n)) (by omega)
  have used : BitVec.ofNat 8 (0x80 + n) ≠ 0xff := by
    intro same
    rw [same] at value
    simp at value
    omega
  have count : (BitVec.ofNat 8 (0x80 + n) &&& 0x7f).toNat = n := by
    rw [and_low_toNat, value]
    omega
  have bound : val < 2 ^ 32 := by
    calc val < 256 ^ n := fits
      _ ≤ 256 ^ 4 := Nat.pow_le_pow_right (by decide) few
      _ = 2 ^ 32 := by decide
  rw [getLength, if_neg used, if_neg long]
  simp only [count]
  have enough : ¬(4 < n ∨ (lowBytes val n ++ rest).length < n) := by
    rw [length_append, length_lowBytes]
    omega
  rw [if_neg enough, take_left' length_lowBytes, drop_left' length_lowBytes,
    toNat_foldBytes (by decide), bigEndian_lowBytes, Nat.mod_eq_of_lt fits]
  simpa using bound

theorem getLength_putLength (fits : val < 2 ^ 32) (written : putLength val sz = .ok bytes) :
    getLength (bytes ++ rest) = some (val, rest) := by
  rw [putLength] at written
  split at written
  · rw [(put_eq_ok written).1]
    simp only [lowBytes, Nat.mul_zero, Nat.shiftRight_zero]
    exact getLength_short (by assumption)
  split at written
  · rw [(put_eq_ok written).1]
    exact getLength_long (n := 1) (by decide) (by decide) (by assumption)
  split at written
  · rw [(put_eq_ok written).1]
    exact getLength_long (n := 2) (by decide) (by decide) (by assumption)
  split at written
  · rw [(put_eq_ok written).1]
    exact getLength_long (n := 3) (by decide) (by decide) (by assumption)
  · rw [(put_eq_ok written).1]
    exact getLength_long (n := 4) (by decide) (by decide) (by assumption)

theorem framed_putHeader (fits : contents.length < 2 ^ 32)
    (written : putHeader type contents sz = .ok bytes) : Framed type contents bytes := by
  rw [putHeader] at written
  cases length : putLength contents.length (sz - contents.length) with
  | error failure =>
    rw [length] at written
    contradiction
  | ok header =>
    rw [length] at written
    simp only [bind, Except.bind, pure, Except.pure, throw, throwThe,
      MonadExceptOf.throw] at written
    split at written
    · contradiction
    · cases written
      exact ⟨header, rfl, fun rest => getLength_putLength fits length⟩

theorem framed_put (small : contents.length < 128)
    (written : Encoding.put (type :: .ofNat 8 contents.length :: contents) sz = .ok bytes) :
    Framed type contents bytes :=
  ⟨[.ofNat 8 contents.length], (put_eq_ok written).1, fun _ => getLength_short small⟩

variable {turns : Nat} {pool pool' : MemPool} {b : Asn}

theorem parseWith_framed (framed : Framed type contents bytes)
    (got : getNode (fun pool type block inp => getSequence turns pool type block 0 5 [] inp) pool
      contents (kindOf type) = (b, pool')) (exists_node : b ≠ nil) :
    parseWith (turns + 1) pool (bytes ++ rest) = (some (b, rest), pool') := by
  obtain ⟨header, rfl, length⟩ := framed
  rw [cons_append, append_assoc, parseWith, length]
  have enough : ¬(contents ++ rest).length < contents.length := by simp
  simp only [enough, if_false, take_left' rfl, drop_left' rfl, got]

/-- A pool that grants every request. -/
def Generous (pool : MemPool) : Prop :=
  ∀ n, pool.grants n = true

theorem alloc_generous (generous : Generous pool) :
    ∃ block pool', pool.alloc = (some block, pool') ∧ Generous pool' := by
  rw [MemPool.alloc, if_pos (generous _)]
  exact ⟨_, _, rfl, generous⟩

theorem getUint_lowBytes {val : ULong} {kind : AsnUnsigned} (generous : Generous pool) (few : n ≤ 4)
    (fits : val.toNat < 256 ^ n) :
    ∃ block pool', getUint pool kind (lowBytes val.toNat n) = (unsigned block kind val, pool') ∧
      Generous pool' := by
  obtain ⟨block, pool', granted, generous'⟩ := alloc_generous generous
  refine ⟨block, pool', ?_, generous'⟩
  have short : ¬4 < (lowBytes val.toNat n).length := by
    rw [length_lowBytes]
    omega
  rw [getUint, if_neg short, granted]
  dsimp only
  congr 2
  apply BitVec.eq_of_toNat_eq
  rw [toNat_foldBytes (by decide), bigEndian_lowBytes, Nat.mod_eq_of_lt fits]
  simpa using val.isLt

theorem toNat_signExtend_byte : ∀ byte : UChar, (byte.signExtend 32).toNat =
    if byte.toNat < 128 then byte.toNat else byte.toNat + (2 ^ 32 - 256) := by
  decide +kernel

theorem getInt_lowBytes {val : ULong} (generous : Generous pool) (few : n < 4)
    (fits : val.toNat < 128 * 256 ^ n ∨ 2 ^ 32 - 128 * 256 ^ n ≤ val.toNat) :
    ∃ block pool', getInt pool (lowBytes val.toNat (n + 1)) = (integer block val, pool') ∧
      Generous pool' := by
  obtain ⟨block, pool', granted, generous'⟩ := alloc_generous generous
  refine ⟨block, pool', ?_, generous'⟩
  have short : ¬4 < (lowBytes val.toNat (n + 1)).length := by
    rw [length_lowBytes]
    omega
  rw [getInt, if_neg short, granted]
  simp only [lowBytes]
  congr 2
  apply BitVec.eq_of_toNat_eq
  rw [toNat_foldBytes (by decide), bigEndian_lowBytes, length_lowBytes, toNat_signExtend_byte,
    BitVec.toNat_ofNat, Nat.shiftRight_eq_div_pow]
  have bound := val.isLt
  interval_cases n <;> simp only [Nat.reduceMul, Nat.reducePow] at fits ⊢ <;> split <;> omega

theorem toInt_cases (val : ULong) :
    val.toInt = val.toNat ∧ val.toNat < 2 ^ 31 ∨
      val.toInt = val.toNat - 2 ^ 32 ∧ 2 ^ 31 ≤ val.toNat := by
  rw [BitVec.toInt_eq_toNat_cond]
  split <;> omega

theorem parse_putInt {val : ULong} (generous : Generous pool)
    (written : putInt val sz = .ok bytes) :
    ∃ block pool', parseWith (turns + 1) pool (bytes ++ rest) =
      (some (integer block val, rest), pool') ∧ Generous pool' := by
  have bound := val.isLt
  have reads (n : Nat) (few : n < 4)
      (fits : val.toNat < 128 * 256 ^ n ∨ 2 ^ 32 - 128 * 256 ^ n ≤ val.toNat)
      (put : Encoding.put (asnInteger :: .ofNat 8 (n + 1) :: lowBytes val.toNat (n + 1)) sz =
        .ok bytes) :
      ∃ block pool', parseWith (turns + 1) pool (bytes ++ rest) =
        (some (integer block val, rest), pool') ∧ Generous pool' := by
    obtain ⟨block, pool', got, generous'⟩ := getInt_lowBytes generous few fits
    have framed : Framed asnInteger (lowBytes val.toNat (n + 1)) bytes := by
      apply framed_put
      · rw [length_lowBytes]
        omega
      · rw [length_lowBytes]
        exact put
    exact ⟨block, pool', parseWith_framed framed got (by simp), generous'⟩
  have signed := toInt_cases val
  rw [putInt] at written
  generalize val.toInt = i at signed written
  split at written
  · exact reads 0 (by decide) (by omega) written
  split at written
  · exact reads 1 (by decide) (by omega) written
  split at written
  · exact reads 2 (by decide) (by omega) written
  · exact reads 3 (by decide) (by omega) written

theorem parse_putUint {val : ULong} {kind : AsnUnsigned} (generous : Generous pool)
    (written : putUint val sz kind = .ok bytes) :
    ∃ block pool', parseWith (turns + 1) pool (bytes ++ rest) =
      (some (unsigned block kind val, rest), pool') ∧ Generous pool' := by
  have bound := val.isLt
  have reads (n : Nat) (few : n ≤ 4) (fits : val.toNat < 256 ^ n)
      (address : kind = .ipAddress → n = 4)
      (put : Encoding.put (kind.type :: .ofNat 8 n :: lowBytes val.toNat n) sz = .ok bytes) :
      ∃ block pool', parseWith (turns + 1) pool (bytes ++ rest) =
        (some (unsigned block kind val, rest), pool') ∧ Generous pool' := by
    obtain ⟨block, pool', got, generous'⟩ := @getUint_lowBytes n pool val kind generous few fits
    have framed : Framed kind.type (lowBytes val.toNat n) bytes := by
      apply framed_put
      · rw [length_lowBytes]
        omega
      · rw [length_lowBytes]
        exact put
    refine ⟨block, pool', parseWith_framed framed ?_ (by simp), generous'⟩
    · have kindOf_type : kindOf kind.type = .unsigned kind := by cases kind <;> rfl
      rw [kindOf_type, getNode, if_neg, got]
      rintro ⟨isAddress, wrong⟩
      exact wrong (by rw [length_lowBytes, address isAddress])
  rw [putUint] at written
  dsimp only at written
  split at written
  · exact reads 4 le_rfl bound (fun _ => rfl) written
  rename_i noAddress
  rw [not_or] at noAddress
  split at written
  · exact reads 1 (by decide) (by omega) (fun address => absurd address noAddress.1) written
  split at written
  · exact reads 2 (by decide) (by omega) (fun address => absurd address noAddress.1) written
  · exact reads 3 (by decide) (by omega) (fun address => absurd address noAddress.1) written

/-- A string of any type is parsed as one of the type `ASN_STRING`. -/
theorem parse_putString {len : UShort} {str : List UChar} (generous : Generous pool)
    (whole : str.length = len.toNat) (written : putString len str sz = .ok bytes) :
    ∃ block pool', parseWith (turns + 1) pool (bytes ++ rest) =
      (some (string block .string len str, rest), pool') ∧ Generous pool' := by
  obtain ⟨block, pool', granted, generous'⟩ := alloc_generous generous
  have bound := len.isLt
  simp only [putString, bind, Except.bind, throw, throwThe, MonadExceptOf.throw] at written
  split at written
  · contradiction
  rw [if_neg (by omega), take_of_length_le (by omega)] at written
  have framed := framed_putHeader (by omega) written
  refine ⟨block, pool', parseWith_framed framed ?_ (by simp), generous'⟩
  have kind : kindOf AsnText.string.type = .string .string := rfl
  rw [kind, getNode, getString, granted]
  dsimp only
  rw [whole, BitVec.ofNat_toNat, BitVec.setWidth_eq]

theorem shift_or_low (val : Nat) : val >>> 7 <<< 7 ||| val % 128 = val := by
  rw [Nat.shiftRight_eq_div_pow, Nat.shiftLeft_eq, Nat.mul_comm,
    ← Nat.two_pow_add_eq_or_of_lt (Nat.mod_lt val (by decide : 0 < 2 ^ 7))]
  omega

theorem low_group : ∀ byte : UChar, byte.toNat < 128 →
    (0x80 ||| byte) &&& 0x80 ≠ 0 ∧ (0x80 ||| byte) &&& 0x7f = byte := by
  decide +kernel

theorem group_toNat (val : Nat) : (BitVec.ofNat 8 (val &&& 0x7f)).toNat = val % 128 := by
  rw [BitVec.toNat_ofNat]
  have low : val &&& 0x7f = val % 128 := Nat.and_two_pow_sub_one_eq_mod val 7
  omega

theorem or_group (fits : val < 2 ^ 16) :
    BitVec.ofNat 16 (val >>> 7 <<< 7) ||| (BitVec.ofNat 8 (val &&& 0x7f)).setWidth 16 =
      BitVec.ofNat 16 val := by
  apply BitVec.eq_of_toNat_eq
  have high : val >>> 7 <<< 7 < 2 ^ 16 := by
    rw [Nat.shiftRight_eq_div_pow, Nat.shiftLeft_eq]
    omega
  rw [BitVec.toNat_or, BitVec.toNat_setWidth, group_toNat, BitVec.toNat_ofNat, BitVec.toNat_ofNat,
    Nat.mod_eq_of_lt high, Nat.mod_eq_of_lt (by omega : val % 128 < 2 ^ 16), shift_or_low,
    Nat.mod_eq_of_lt fits]

theorem getIds_group {byte : UChar} (fits : val < 2 ^ 16) :
    getIds (some (.ofNat 16 (val >>> 7 <<< 7)))
        ((0x80 ||| .ofNat 8 (val &&& 0x7f)) :: byte :: rest) =
      getIds (some (.ofNat 16 (val <<< 7))) (byte :: rest) := by
  obtain ⟨continued, low⟩ := low_group (.ofNat 8 (val &&& 0x7f))
    (by rw [group_toNat]; exact Nat.mod_lt val (by decide))
  rw [getIds]
  simp only [Option.getD_some, if_pos continued, low, or_group fits]
  congr 2
  apply BitVec.eq_of_toNat_eq
  rw [BitVec.toNat_shiftLeft, BitVec.toNat_ofNat, BitVec.toNat_ofNat, Nat.mod_eq_of_lt fits]

theorem getIds_putGroups {byte : UChar} (few : val < 128 ^ (turns + 1)) (fits : val < 2 ^ 16)
    (written : putGroups turns val sz = .ok front) :
    getIds none (front ++ byte :: rest) =
      getIds (some (.ofNat 16 (val >>> 7 <<< 7))) (byte :: rest) := by
  induction turns generalizing val sz front byte rest with
  | zero =>
    cases written
    have small : val >>> 7 = 0 := by
      rw [Nat.shiftRight_eq_div_pow]
      omega
    rw [small]
    rfl
  | succ turns ih =>
    rw [putGroups] at written
    split at written
    · cases written
      have small : val >>> 7 = 0 := by
        rw [Nat.shiftRight_eq_div_pow]
        omega
      rw [small]
      rfl
    split at written
    · contradiction
    · obtain ⟨before, puts, done⟩ := bind_eq_ok written
      cases done
      have shifted : val >>> 7 = val / 128 := Nat.shiftRight_eq_div_pow val 7
      have power := Nat.pow_succ 128 (turns + 1)
      rw [append_assoc, singleton_append,
        ih (by rw [shifted]; omega) (by rw [shifted]; omega) puts]
      generalize more : val >>> 7 = high at shifted
      exact getIds_group (by omega)

theorem getIds_putId1 {val : UShort} (written : putId1 val sz = .ok bytes) :
    getIds none (bytes ++ rest) = (getIds none rest).map (val :: ·) := by
  have fits := val.isLt
  rw [putId1] at written
  simp only [throw, throwThe, MonadExceptOf.throw] at written
  split at written
  · contradiction
  · obtain ⟨front, puts, done⟩ := bind_eq_ok written
    cases done
    have last : (BitVec.ofNat 8 (val.toNat &&& 0x7f)).toNat < 128 := by
      rw [group_toNat]
      exact Nat.mod_lt _ (by decide)
    rw [append_assoc, singleton_append, getIds_putGroups (by omega) fits puts, getIds]
    simp only [Option.getD_some, and_high_eq_zero _ last, ne_eq, not_true_eq_false, if_false,
      or_group fits, BitVec.ofNat_toNat, BitVec.setWidth_eq]

theorem getIds_putIds {id : List UShort} {i : Nat} (written : putIds id i sz = .ok bytes) :
    getIds none (bytes ++ rest) = (getIds none rest).map ((id.drop 2).take (i - 1) ++ ·) := by
  induction i generalizing sz bytes rest with
  | zero =>
    cases written
    simp
  | succ i ih =>
    cases i with
    | zero =>
      cases written
      simp
    | succ i =>
      rw [putIds] at written
      split at written
      · contradiction
      · rename_i val found
        obtain ⟨last, puts, written⟩ := bind_eq_ok written
        obtain ⟨before, puts', done⟩ := bind_eq_ok written
        cases done
        have place : (id.drop 2)[i]? = some val := by
          rw [List.getElem?_drop, Nat.add_comm]
          exact found
        have more : (id.drop 2).take (i + 1) = (id.drop 2).take i ++ [val] := by
          rw [take_add_one, place]
          rfl
        rw [append_assoc, ih puts', getIds_putId1 puts, Option.map_map]
        congr 1
        funext ids
        simp [more]

theorem parse_putOid {len : UShort} {id : List UShort} {first second : UShort}
    {ids : List UShort} (generous : Generous pool) (whole : id.length = len.toNat)
    (split : id = first :: second :: ids) (small : second.toNat < 40)
    (byte : first.toNat * 40 + second.toNat < 256) (bounded : sz < 2 ^ 32)
    (written : putOid len id sz = .ok bytes) :
    ∃ block pool', parseWith (turns + 1) pool (bytes ++ rest) =
      (some (oid block len id, rest), pool') ∧ Generous pool' := by
  obtain ⟨block, pool', granted, generous'⟩ := alloc_generous generous
  subst split
  have fits := len.isLt
  have index : (len.setWidth 32 - 1 : BitVec 32).toNat = ids.length + 1 := by
    rw [length_cons, length_cons] at whole
    rw [BitVec.toNat_sub, BitVec.toNat_setWidth]
    simp
    omega
  rw [putOid, index] at written
  obtain ⟨after, puts, written⟩ := bind_eq_ok written
  simp only [throw, throwThe, MonadExceptOf.throw] at written
  split at written
  · contradiction
  rename_i room
  have short : (BitVec.ofNat 8 (first.toNat * 40 + second.toNat) :: after).length < 2 ^ 32 := by
    rw [length_cons]
    omega
  have framed := framed_putHeader short written
  refine ⟨block, pool', parseWith_framed framed ?_ (by simp), generous'⟩
  have kind : kindOf asnOid = .oid := rfl
  have decoded : getIds none after = some ids := by
    have read := @getIds_putIds after [] _ _ _ puts
    rw [append_nil] at read
    simpa [getIds] using read
  have value : (BitVec.ofNat 8 (first.toNat * 40 + second.toNat)).toNat =
      first.toNat * 40 + second.toNat := by
    rw [BitVec.toNat_ofNat, Nat.mod_eq_of_lt byte]
  have quotient : (first.toNat * 40 + second.toNat) / 40 = first.toNat := by omega
  have remainder : (first.toNat * 40 + second.toNat) % 40 = second.toNat := by omega
  have length : ids.length + 2 = len.toNat := whole
  rw [kind, getNode, getOid, granted]
  simp only [decoded, value, quotient, remainder, length, BitVec.ofNat_toNat, BitVec.setWidth_eq]

theorem kindOf_constructed : ∀ type : UChar, ∀ constructed : type &&& 0x20 ≠ 0,
    kindOf type = .constructed ⟨type, constructed⟩ := by
  decide +kernel

theorem enlarge_generous {block : Block} {count : UShort} {nelem : Nat}
    (generous : Generous pool) :
    ∃ block' nelem' pool', enlarge pool block count nelem = (some (block', nelem'), pool') ∧
      Generous pool' := by
  rw [enlarge]
  split
  · obtain ⟨block', pool', granted, generous'⟩ := alloc_generous generous
    rw [MemPool.realloc, granted]
    exact ⟨block', nelem + 10, pool'.free block, rfl, generous'⟩
  · exact ⟨block, nelem, pool, rfl, generous⟩

mutual

theorem parse_encode : ∀ (t : Asn) {sz turns : Nat} {pool : MemPool} {bytes rest : List UChar},
    t.Regular → t.encode sz = .ok bytes → sz < 2 ^ 32 → bytes.length ≤ turns → Generous pool →
      ∃ t' pool', parseWith turns pool (bytes ++ rest) = (some (t', rest), pool') ∧
        Generous pool' ∧ t'.value = t.value.written
  | t, _, 0, _, _, _, _, written, _, enough, _ => by
    have fits := length_encode t written
    omega
  | nil, sz, turns + 1, pool, bytes, rest, _, written, _, _, generous
  | null, sz, turns + 1, pool, bytes, rest, _, written, _, _, generous => by
    have framed : Framed asnNull [] bytes := framed_put (by decide) written
    exact ⟨null, pool, parseWith_framed framed rfl (by simp), generous, rfl⟩
  | exception _ type, sz, turns + 1, pool, bytes, rest, _, written, _, _, generous => by
    obtain ⟨block, pool', granted, generous'⟩ := alloc_generous generous
    have framed : Framed type.type [] bytes := framed_put (by decide) written
    have kind : kindOf type.type = .exception type := by cases type <;> rfl
    refine ⟨exception block type, pool', parseWith_framed framed ?_ (by simp), generous', rfl⟩
    rw [kind, getNode, makeException, granted]
  | integer _ val, sz, turns + 1, pool, bytes, rest, _, written, _, _, generous => by
    obtain ⟨block, pool', parsed, generous'⟩ := parse_putInt generous written
    exact ⟨_, pool', parsed, generous', rfl⟩
  | unsigned _ type val, sz, turns + 1, pool, bytes, rest, _, written, _, _, generous => by
    obtain ⟨block, pool', parsed, generous'⟩ := parse_putUint generous written
    exact ⟨_, pool', parsed, generous', rfl⟩
  | string _ type len str, sz, turns + 1, pool, bytes, rest, regular, written, _, _, generous => by
    obtain ⟨block, pool', parsed, generous'⟩ := parse_putString generous regular written
    exact ⟨_, pool', parsed, generous', rfl⟩
  | oid _ len id, sz, turns + 1, pool, bytes, rest, regular, written, bounded, _, generous => by
    obtain ⟨whole, first, second, ids, split, small, byte⟩ := regular
    obtain ⟨block, pool', parsed, generous'⟩ :=
      parse_putOid generous whole split small byte bounded written
    exact ⟨_, pool', parsed, generous', rfl⟩
  | seq _ type count arr, sz, turns + 1, pool, bytes, rest, regular, written, bounded, enough,
      generous => by
      obtain ⟨whole, regular⟩ := regular
      obtain ⟨contents, puts, header⟩ := bind_eq_ok written
      have short := length_putArr _ arr puts
      have longer := (length_putHeader header).2
      have fits := count.isLt
      obtain ⟨block, pool', granted, generous'⟩ := alloc_generous generous
      rw [← whole] at puts
      obtain ⟨block', arr', pool'', got, generous'', length, same⟩ :=
        @getSequence_putArr arr sz turns pool' type block 0 5 [] contents regular puts bounded
          (by omega) rfl (by rw [length_nil]; omega) generous'
      have framed := framed_putHeader (by omega) header
      rw [length_nil, Nat.zero_add, whole, BitVec.ofNat_toNat, BitVec.setWidth_eq,
        nil_append] at got
      refine ⟨seq block' type count arr', pool'', parseWith_framed framed ?_ (by simp), generous'',
        ?_⟩
      · rw [kindOf_constructed type.1 type.2, getNode, granted]
        exact got
      · rw [whole] at same
        rw [value, value, AsnValue.written, same]

theorem getSequence_putArr : ∀ (arr : List Asn) {sz turns : Nat} {pool : MemPool}
    {type : AsnConstructed} {block : Block} {count : UShort} {nelem : Nat} {done : List Asn}
    {bytes : List UChar},
    AllRegular arr → putArr arr.length arr sz = .ok bytes → sz < 2 ^ 32 → bytes.length < turns →
      done.length = count.toNat → done.length + arr.length < 2 ^ 16 → Generous pool →
      ∃ block' arr' pool', getSequence turns pool type block count nelem done bytes =
          (seq block' type (.ofNat 16 (done.length + arr.length)) (done ++ arr'), pool') ∧
        Generous pool' ∧ arr'.length = arr.length ∧
        values arr.length arr' = AsnValue.allWritten (values arr.length arr)
  | [], sz, turns, pool, type, block, count, nelem, done, bytes, _, written, _, enough, index, _,
      generous => by
      rw [length_nil, putArr] at written
      cases written
      refine ⟨block, [], pool, ?_, generous, rfl, rfl⟩
      rw [append_nil, length_nil, Nat.add_zero, index, BitVec.ofNat_toNat,
        BitVec.setWidth_eq]
      cases turns <;> rfl
  | e :: arr, sz, turns, pool, type, block, count, nelem, done, bytes, regular, written, bounded,
      enough, index, small, generous => by
      obtain ⟨regular, others⟩ := regular
      obtain ⟨back, puts, written⟩ := bind_eq_ok written
      obtain ⟨front, puts', finished⟩ := bind_eq_ok written
      cases finished
      have long := (length_encode e puts').2
      rw [length_append] at enough
      rw [length_cons] at small ⊢
      obtain ⟨turns, rfl⟩ := Nat.exists_eq_succ_of_ne_zero (by omega : turns ≠ 0)
      obtain ⟨block', nelem', pool', enlarged, generous'⟩ :=
        @enlarge_generous pool block count nelem generous
      obtain ⟨e', pool'', parsed, generous'', same⟩ :=
        @parse_encode e (sz - back.length) turns pool' front back regular puts'
          (by omega) (by omega)
          generous'
      have next : (count + 1).toNat = done.length + 1 := by
        rw [BitVec.toNat_add, ← index]
        simp
        omega
      obtain ⟨block'', arr', poolEnd, got, generousEnd, length, others_same⟩ :=
        @getSequence_putArr arr sz turns pool'' type block' (count + 1) nelem' (done ++ [e']) back
          others puts bounded (by omega) (by rw [length_append, next]; rfl)
          (by rw [length_append, length_singleton]; omega) generous''
      refine ⟨block'', e' :: arr', poolEnd, ?_, generousEnd, by simp [length], ?_⟩
      · have append : putAt done count e' = done ++ [e'] := by
          rw [putAt, if_neg (by omega)]
        rw [length_append, length_singleton, append_assoc, Nat.add_assoc,
          Nat.add_comm 1] at got
        cases whole : front ++ back with
        | nil =>
          have none := congrArg List.length whole
          rw [length_append, length_nil] at none
          omega
        | cons byte input =>
          rw [whole] at parsed
          rw [getSequence, enlarged]
          simp only [parsed, append]
          exact got
      · rw [values, values, AsnValue.allWritten, same, others_same]

end

/-- Decoding undoes the encoding of a regular tree exactly if it has no string of the type
`ASN_OPAQUE`. -/
theorem parse_encode_iff {t : Asn} {sz : ULong} {pool : MemPool} {bytes : List UChar}
    (regular : t.Regular) (written : t.encode sz.toNat = .ok bytes) (generous : Generous pool) :
    (∃ t' pool', parse pool bytes = (some (t', []), pool') ∧ t'.value = t.value) ↔
      t.value.Transparent := by
  obtain ⟨back, pool', parsed, -, same⟩ :=
    @parse_encode t sz.toNat bytes.length pool bytes [] regular written sz.isLt le_rfl generous
  rw [append_nil] at parsed
  rw [← AsnValue.written_eq_self, ← same, parse, parsed]
  constructor
  · rintro ⟨t', pool'', found, equal⟩
    cases found
    exact equal
  · intro equal
    exact ⟨back, pool', rfl, equal⟩

def plenty : MemPool where
  grants _ := true

def binding : Asn :=
  seq 2 sequence 2 [oid 0 3 [1, 3, 40000], string 1 .string 2 [65, 66]]

theorem parse_binding :
    (∃ t' pool', parse plenty [0x30, 10, 6, 4, 43, 0x82, 0xb8, 0x40, 4, 2, 65, 66] =
        (some (t', []), pool') ∧ t'.value = binding.value) ↔ binding.value.Transparent :=
  @parse_encode_iff binding 100 plenty _
    ⟨rfl, ⟨rfl, 1, 3, [40000], rfl, by decide, by decide⟩, rfl, trivial⟩ rfl fun _ => rfl

/-- A string of the type `ASN_OPAQUE` comes back as one of the type `ASN_STRING`. -/
theorem parse_opaqueString :
    ¬∀ (t : Asn) (sz : ULong) (pool : MemPool) (bytes : List UChar), t.Regular →
      t.encode sz.toNat = .ok bytes → Generous pool →
        ∃ t' pool', parse pool bytes = (some (t', []), pool') ∧ t'.value = t.value := by
  intro all
  obtain ⟨t', pool', parsed, same⟩ :=
    all (string 0 .opaqueString 1 [7]) 3 plenty [4, 1, 7] rfl rfl fun _ => rfl
  cases parsed
  injection same with type
  contradiction

end Asn
end Uos
