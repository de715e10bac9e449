import Uos.Snmp.RoundTrip

/-!
# Object identifiers

`asn_get_oid`, and the rule of X.690: a component is a group of bytes, all but the last one with the
bit 7, that stand for its digits of base 128; the first group stands for the first two components.
-/

namespace Uos

open List Option

namespace Asn

section Rule

/-- The numbers that the groups stand for, inside of a group that has begun with such a number, or
between two groups.  There are none if the last group does not end. -/
def groups : Option Nat → List UChar → Option (List Nat)
  | none, [] => some []
  | some _, [] => none
  | val, byte :: bytes =>
    let val := val.getD 0 * 128 + byte.toNat % 128
    if 128 ≤ byte.toNat then groups (some val) bytes else (groups none bytes).map (val :: ·)

theorem groups_eq_none_iff {val : Option Nat} {bytes : List UChar} :
    groups val bytes = none ↔
      (bytes = [] ∧ val.isSome) ∨ ∃ last ∈ bytes.getLast?, 128 ≤ last.toNat := by
  induction bytes generalizing val with
  | nil => cases val <;> simp [groups]
  | cons byte bytes ih =>
    rw [groups]
    cases bytes with
    | nil =>
      split_ifs with continued
      · simpa [groups] using continued
      · simpa [groups] using continued
    | cons next bytes =>
      have last : (byte :: next :: bytes).getLast? = (next :: bytes).getLast? :=
        List.getLast?_cons_cons
      rw [last]
      split_ifs with continued
      · rw [ih]
        simp
      · rw [map_eq_none_iff, ih]
        simp

/-- The components of an identifier: the first group stands for two of them, and no first one is
greater than 2. -/
def identifierOf : List Nat → List Nat
  | [] => []
  | val :: vals => min (val / 40) 2 :: (val - 40 * min (val / 40) 2) :: vals

def identifier (bytes : List UChar) : Option (List Nat) :=
  (groups none bytes).map identifierOf

end Rule

def pending (val : Option Nat) : Option UShort :=
  val.map fun val => .ofNat 16 (val * 128)

theorem or_low (val low : Nat) (small : low < 128) :
    BitVec.ofNat 16 (val * 128) ||| BitVec.ofNat 16 low = BitVec.ofNat 16 (val * 128 + low) := by
  apply BitVec.eq_of_toNat_eq
  have split : val * 128 % 2 ^ 16 = 2 ^ 7 * (val % 512) := by omega
  rw [BitVec.toNat_or, BitVec.toNat_ofNat, BitVec.toNat_ofNat, BitVec.toNat_ofNat, split,
    Nat.mod_eq_of_lt (by omega : low < 2 ^ 16), ← Nat.two_pow_add_eq_or_of_lt small]
  omega

/-- The loop of `asn_get_oid` follows the rule, but for the upper bits of each component. -/
theorem getIds_eq (val : Option Nat) (bytes : List UChar) :
    getIds (pending val) bytes = (groups val bytes).map (List.map (BitVec.ofNat 16)) := by
  induction bytes generalizing val with
  | nil => cases val <;> rfl
  | cons byte bytes ih =>
    have begun : (pending val).getD 0 = .ofNat 16 (val.getD 0 * 128) := by
      cases val <;> rfl
    have low : byte.toNat % 128 < 128 := Nat.mod_lt _ (by decide)
    rw [getIds, groups, begun]
    rcases Nat.lt_or_ge byte.toNat 128 with ends | continued
    · have same : byte.setWidth 16 = .ofNat 16 (byte.toNat % 128) := by
        rw [Nat.mod_eq_of_lt ends, BitVec.ofNat_toNat]
      have rest : getIds none bytes = _ := ih none
      rw [if_neg (not_not.mpr (and_high_eq_zero byte ends)), if_neg ends.not_ge, same,
        or_low _ _ low, rest, Option.map_map, Option.map_map]
      rfl
    · have same : (byte &&& 0x7f).setWidth 16 = .ofNat 16 (byte.toNat % 128) := by
        rw [← and_low_toNat, BitVec.ofNat_toNat]
      have shifted : ∀ val : Nat, BitVec.ofNat 16 val <<< 7 = .ofNat 16 (val * 128) := by
        intro val
        apply BitVec.eq_of_toNat_eq
        rw [BitVec.toNat_shiftLeft, BitVec.toNat_ofNat, BitVec.toNat_ofNat, Nat.shiftLeft_eq]
        omega
      rw [if_pos (and_high_ne_zero byte continued), if_pos continued, same, or_low _ _ low,
        shifted]
      exact ih (some _)

section Reads

variable (mem : Nat → UChar)

def bytesAt : Nat → Nat → List UChar
  | _, 0 => []
  | input, n + 1 => mem input :: bytesAt (input + 1) n

/-- The inner loop of `asn_get_oid`: the component, with the pointer and the number of bytes behind
it, and the addresses that are read. -/
def readId : Nat → UShort → Nat → Option (UShort × Nat × Nat) × List Nat
  | 0, id, input =>
    if mem input &&& 0x80 ≠ 0 then (none, [input])
    else (some (id ||| (mem input).setWidth 16, input + 1, 0), [input])
  | sz + 1, id, input =>
    if mem input &&& 0x80 ≠ 0 then
      let (found, reads) :=
        readId sz ((id ||| (mem input &&& 0x7f).setWidth 16) <<< 7) (input + 1)
      (found, input :: reads)
    else (some (id ||| (mem input).setWidth 16, input + 1, sz + 1), [input])

theorem readId_spec (sz : Nat) (id : UShort) (input : Nat) :
    (∀ read ∈ (readId mem sz id input).2, input ≤ read ∧ read ≤ input + sz) ∧
      match (readId mem sz id input).1 with
      | none => getIds (some id) (bytesAt mem input (sz + 1)) = none
      | some (id', input', sz') =>
        input < input' ∧ input' + sz' = input + sz + 1 ∧
          getIds (some id) (bytesAt mem input (sz + 1)) =
            (getIds none (bytesAt mem input' sz')).map (id' :: ·) := by
  induction sz generalizing id input with
  | zero =>
    rw [readId, bytesAt, getIds]
    split_ifs with continued
    · exact ⟨by simp, rfl⟩
    · exact ⟨by simp, Nat.lt_succ_self _, rfl, rfl⟩
  | succ sz ih =>
    rw [readId, bytesAt, getIds]
    split_ifs with continued
    · rw [getD_some]
      generalize (id ||| (mem input &&& 0x7f).setWidth 16) <<< 7 = id
      obtain ⟨within, result⟩ := ih id (input + 1)
      refine ⟨fun read member => ?_, ?_⟩
      · rcases mem_cons.mp member with rfl | member
        · exact ⟨le_rfl, Nat.le_add_right _ _⟩
        · have := within read member
          omega
      · rcases found : (readId mem sz id (input + 1)).1 with _ | ⟨id', input', sz'⟩
        · rw [found] at result
          exact result
        · rw [found] at result
          obtain ⟨later, left, same⟩ := result
          exact ⟨by omega, by omega, same⟩
    · exact ⟨by simp, Nat.lt_succ_self _, by omega, rfl⟩

theorem readId_left {sz : Nat} {id id' : UShort} {input input' sz' : Nat} {reads : List Nat}
    (found : readId mem sz id input = (some (id', input', sz'), reads)) : sz' ≤ sz := by
  have result := (readId_spec mem sz id input).2
  rw [found] at result
  obtain ⟨later, left, -⟩ := result
  omega

/-- The loops of `asn_get_oid`, with the addresses that are read. -/
def readIds (input sz : Nat) : Option (List UShort) × List Nat :=
  match sz with
  | 0 => (some [], [])
  | sz + 1 =>
    match found : readId mem sz 0 input with
    | (none, reads) => (none, reads)
    | (some (id, input, left), reads) =>
      have : left < sz + 1 := Nat.lt_succ_of_le (readId_left mem found)
      let (ids, more) := readIds input left
      (ids.map (id :: ·), reads ++ more)
termination_by sz

/-- `asn_get_oid` of bytes in the memory, with the addresses that are read. -/
def readOid (pool : MemPool) (input sz : Nat) : (Asn × MemPool) × List Nat :=
  match pool.alloc with
  | (none, pool) => ((nil, pool), [])
  | (some block, pool) =>
    match sz with
    | 0 => ((oid block 0 [], pool), [])
    | sz + 1 =>
      let first := mem input
      match readIds mem (input + 1) sz with
      | (none, reads) => ((nil, pool.free block), input :: reads)
      | (some ids, reads) =>
        ((oid block (.ofNat 16 (ids.length + 2))
          (.ofNat 16 (first.toNat / 40) :: .ofNat 16 (first.toNat % 40) :: ids), pool),
          input :: reads)

theorem readIds_spec (input sz : Nat) :
    (readIds mem input sz).1 = getIds none (bytesAt mem input sz) ∧
      ∀ read ∈ (readIds mem input sz).2, input ≤ read ∧ read < input + sz := by
  induction sz using Nat.strong_induction_on generalizing input with
  | h sz ih =>
    cases sz with
    | zero =>
      rw [readIds]
      exact ⟨rfl, by simp⟩
    | succ sz =>
      obtain ⟨within, result⟩ := readId_spec mem sz 0 input
      have whole : getIds none (bytesAt mem input (sz + 1)) =
          getIds (some 0) (bytesAt mem input (sz + 1)) := rfl
      rw [readIds, whole]
      split
      · rename_i reads found
        rw [found] at within result
        refine ⟨result.symm, fun read member => ?_⟩
        have := within read member
        omega
      · rename_i id input' left reads found
        rw [found] at within result
        obtain ⟨later, left_eq, same⟩ := result
        obtain ⟨rest, rest_within⟩ := ih left (by omega) input'
        refine ⟨by rw [same, ← rest], fun read member => ?_⟩
        rcases mem_append.mp member with member | member
        · have := within read member
          omega
        · have := rest_within read member
          omega

/-- `asn_get_oid` gets what stands in the given bytes, and reads no others. -/
theorem readOid_spec (pool : MemPool) (input sz : Nat) :
    (readOid mem pool input sz).1 = getOid pool (bytesAt mem input sz) ∧
      ∀ read ∈ (readOid mem pool input sz).2, input ≤ read ∧ read < input + sz := by
  rw [readOid, getOid]
  rcases pool.alloc with ⟨_ | block, pool⟩
  · exact ⟨rfl, by simp⟩
  · cases sz with
    | zero => exact ⟨rfl, by simp⟩
    | succ sz =>
      obtain ⟨same, within⟩ := readIds_spec mem (input + 1) sz
      dsimp only [bytesAt]
      rw [← same]
      have reads : ∀ read ∈ input :: (readIds mem (input + 1) sz).2,
          input ≤ read ∧ read < input + (sz + 1) := by
        intro read member
        rcases mem_cons.mp member with rfl | member
        · omega
        · have := within read member
          omega
      generalize readIds mem (input + 1) sz = result at reads ⊢
      rcases result with ⟨_ | ids, more⟩
      · exact ⟨rfl, reads⟩
      · exact ⟨rfl, reads⟩

end Reads

/-- What is exact about a result of `asn_get_oid`: it is a null pointer, or it has the components
that the bytes encode. -/
def OidExact (input : List UChar) : Asn → Prop
  | nil => True
  | oid _ len ids =>
    identifier input = some (ids.map BitVec.toNat) ∧ len.toNat = ids.length
  | _ => False

/-- The bytes can be decoded by `asn_get_oid`: the first one is a group of its own, with a first
component below 3, and the components fit into 16 bits, as does their number. -/
structure OidFits (first : UChar) (vals : List Nat) : Prop where
  alone : first.toNat < 120
  fit : ∀ val ∈ vals, val < 2 ^ 16
  count : vals.length + 2 < 2 ^ 16

theorem map_ofNat_toNat_iff (vals : List Nat) :
    vals = (vals.map (BitVec.ofNat 16)).map BitVec.toNat ↔ ∀ val ∈ vals, val < 2 ^ 16 := by
  have same : vals = vals.map id := (List.map_id vals).symm
  rw [List.map_map]
  nth_rewrite 1 [same]
  rw [map_inj_left]
  refine forall₂_congr fun val _ => ?_
  rw [Function.comp_apply, BitVec.toNat_ofNat, id]
  exact ⟨fun same => same ▸ Nat.mod_lt _ (by decide), fun small => (Nat.mod_eq_of_lt small).symm⟩

theorem length_groups {input : List UChar} {val val' : Option Nat} {vals vals' : List Nat}
    (first : groups val input = some vals) (second : groups val' input = some vals') :
    vals.length = vals'.length := by
  induction input generalizing val val' vals vals' with
  | nil =>
    cases val with
    | some val => contradiction
    | none =>
      cases val' with
      | some val => contradiction
      | none => rw [Option.some.inj first.symm, Option.some.inj second.symm]
  | cons byte input ih =>
    rw [groups] at first second
    split_ifs at first second with continued
    · exact ih first second
    · obtain ⟨rest, got, rfl⟩ := map_eq_some_iff.mp first
      obtain ⟨rest', got', rfl⟩ := map_eq_some_iff.mp second
      rw [length_cons, length_cons, ih got got']

/-- Whether the first byte is a group of its own that `asn_get_oid` splits as the rule does. -/
theorem identifier_eq_iff {first : UChar} {input : List UChar} {vals : List Nat}
    (rest : groups none input = some vals) {ids : List Nat} (same : ids.length = vals.length) :
    identifier (first :: input) = some (first.toNat / 40 :: first.toNat % 40 :: ids) ↔
      first.toNat < 120 ∧ vals = ids := by
  rw [identifier, groups]
  split_ifs with continued
  · refine iff_of_false ?_ (by omega)
    intro decoded
    obtain ⟨vals', begun, decoded⟩ := map_eq_some_iff.mp decoded
    have length := length_groups begun rest
    cases vals' with
    | nil => contradiction
    | cons val vals' =>
      have lengths := congrArg List.length decoded
      simp only [identifierOf, length_cons] at lengths length
      omega
  · rw [rest, map_some, map_some, some_inj, identifierOf, List.cons.injEq,
      List.cons.injEq, ← and_assoc, getD_none, Nat.zero_mul, Nat.zero_add,
      Nat.mod_eq_of_lt (Nat.lt_of_not_le continued)]
    refine and_congr_left' ?_
    omega

/-- Without memory, with a last component that does not end, or with bytes that it can decode,
`asn_get_oid` is exact, and otherwise it is not. -/
theorem getOid_exact_iff (pool : MemPool) (first : UChar) (input : List UChar) :
    OidExact (first :: input) (getOid pool (first :: input)).1 ↔
      pool.alloc.1 = none ∨ (∃ last ∈ input.getLast?, 128 ≤ last.toNat) ∨
        ∃ vals, groups none input = some vals ∧ OidFits first vals := by
  have ends := @groups_eq_none_iff none input
  simp only [isSome_none, Bool.false_eq_true, and_false, false_or] at ends
  have loop : getIds none input = _ := getIds_eq none input
  rw [← ends, getOid]
  rcases pool.alloc with ⟨_ | block, pool⟩
  · exact iff_of_true trivial (.inl rfl)
  · dsimp only
    rw [loop]
    rcases rest : groups none input with _ | vals
    · exact iff_of_true trivial (.inr (.inl rfl))
    · have small := first.isLt
      have split : ∀ val < 256, (BitVec.ofNat 16 val).toNat = val := by
        intro val below
        rw [BitVec.toNat_ofNat]
        omega
      have length : ((vals.map (BitVec.ofNat 16)).map BitVec.toNat).length = vals.length := by
        simp
      have decoded := @identifier_eq_iff first _ _ rest _ length
      rw [map_some]
      dsimp only
      rw [OidExact, map_cons, map_cons, split _ (by omega), split _ (by omega), decoded,
        map_ofNat_toNat_iff]
      have count : (BitVec.ofNat 16 ((vals.map (BitVec.ofNat 16)).length + 2)).toNat =
          (.ofNat 16 (first.toNat / 40) :: .ofNat 16 (first.toNat % 40) ::
            vals.map (BitVec.ofNat 16)).length ↔ vals.length + 2 < 2 ^ 16 := by
        rw [BitVec.toNat_ofNat, length_cons, length_cons, length_map]
        omega
      rw [count]
      constructor
      · rintro ⟨⟨alone, fit⟩, count⟩
        exact .inr (.inr ⟨vals, rfl, alone, fit, count⟩)
      · rintro (nothing | nothing | ⟨_, same, alone, fit, count⟩)
        · exact absurd nothing (some_ne_none block)
        · exact absurd nothing (some_ne_none vals)
        · cases same
          exact ⟨⟨alone, fit⟩, count⟩

/-- Of bytes in the memory, at least one, `asn_get_oid` reads no others, and it is exact if and only
if there is no memory, the last component does not end, or it can decode them. -/
theorem oid_exact_iff (pool : MemPool) (mem : Nat → UChar) (input sz : Nat) :
    (∀ read ∈ (readOid mem pool input (sz + 1)).2, input ≤ read ∧ read < input + (sz + 1)) ∧
      (OidExact (bytesAt mem input (sz + 1)) (readOid mem pool input (sz + 1)).1.1 ↔
        pool.alloc.1 = none ∨
          (∃ last ∈ (bytesAt mem (input + 1) sz).getLast?, 128 ≤ last.toNat) ∨
            ∃ vals, groups none (bytesAt mem (input + 1) sz) = some vals ∧
              OidFits (mem input) vals) := by
  obtain ⟨same, within⟩ := readOid_spec mem pool input (sz + 1)
  refine ⟨within, ?_⟩
  rw [same]
  exact getOid_exact_iff pool (mem input) (bytesAt mem (input + 1) sz)

/-- The components of 1.3.65537 and 1.3.1 become the same, and 2.40 becomes 3.0. -/
theorem oid_wrong :
    (getOid { grants := fun _ => true } [0x2b, 0x84, 0x80, 0x01]).1 =
        (getOid { grants := fun _ => true } [0x2b, 0x01]).1 ∧
      identifier [0x2b, 0x84, 0x80, 0x01] = some [1, 3, 65537] ∧
        identifier [0x2b, 0x01] = some [1, 3, 1] ∧
          (getOid { grants := fun _ => true } [0x78]).1 = oid 0 2 [3, 0] ∧
            identifier [0x78] = some [2, 40] :=
  ⟨rfl, by decide, by decide, rfl, by decide⟩

end Asn
end Uos
