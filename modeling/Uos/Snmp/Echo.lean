import Uos.Snmp.RoundTrip

/-!
# Encoding what was parsed

Which parsed trees `asn_encode` handles without reading anything outside of them.
-/

namespace Uos

open List

namespace Asn

mutual

/-- The lengths of a tree do not exceed what it holds, and an object identifier that is not empty
has two components. -/
def Holds : Asn → Prop
  | nil | null | exception _ _ | integer _ _ | unsigned _ _ _ => True
  | string _ _ len str => len.toNat ≤ str.length
  | oid _ len id => len.toNat ≤ id.length ∧ (len ≠ 0 → 2 ≤ id.length) ∧ id.length < 2 ^ 32
  | seq _ _ count arr => count.toNat ≤ arr.length ∧ AllHold arr

def AllHold : List Asn → Prop
  | [] => True
  | e :: arr => e.Holds ∧ AllHold arr

end

mutual

def Named : Asn → Prop
  | nil | null | exception _ _ | integer _ _ | unsigned _ _ _ | string _ _ _ _ => True
  | oid _ len _ => len ≠ 0
  | seq _ _ count arr => AllNamed count.toNat arr

def AllNamed : Nat → List Asn → Prop
  | 0, _ | _, [] => True
  | n + 1, e :: arr => e.Named ∧ AllNamed n arr

end

theorem allHold_iff {arr : List Asn} : AllHold arr ↔ ∀ e ∈ arr, e.Holds := by
  induction arr with
  | nil => simp [AllHold]
  | cons e arr ih => simp [AllHold, ih]

variable {pool pool' : MemPool} {input : List UChar} {b : Asn}

theorem holds_getInt (got : getInt pool input = (b, pool')) : b.Holds := by
  rw [getInt] at got
  split at got
  · cases got
    trivial
  split at got
  · cases got
    trivial
  split at got <;> cases got <;> trivial

theorem holds_getUint {type : AsnUnsigned} (got : getUint pool type input = (b, pool')) :
    b.Holds := by
  rw [getUint] at got
  split at got
  · cases got
    trivial
  split at got <;> cases got <;> trivial

theorem holds_getString {type : AsnText} (got : getString pool type input = (b, pool')) :
    b.Holds := by
  rw [getString] at got
  split at got
  · cases got
    trivial
  · cases got
    rw [Holds, BitVec.toNat_ofNat]
    exact Nat.mod_le ..

theorem length_getIds : ∀ {id : Option UShort} {input : List UChar} {ids : List UShort},
    getIds id input = some ids → ids.length ≤ input.length
  | none, [], _, got => by
    cases got
    exact le_rfl
  | some _, [], _, got => by cases got
  | id, byte :: input, ids, got => by
    rw [getIds] at got
    split at got
    · exact (length_getIds got).trans (Nat.le_succ _)
    · obtain ⟨others, got_others, rfl⟩ := Option.map_eq_some_iff.mp got
      exact Nat.succ_le_succ (length_getIds got_others)

theorem length_getLength {len : Nat} {inp : List UChar} (got : getLength input = some (len, inp)) :
    inp.length < input.length := by
  cases input with
  | nil => cases got
  | cons n input =>
    rw [getLength] at got
    split at got
    · cases got
    split at got
    · cases got
      exact Nat.lt_succ_self _
    dsimp only at got
    split at got
    · cases got
    · cases got
      rw [length_drop, length_cons]
      omega

theorem holds_getOid (addressable : input.length + 1 < 2 ^ 32)
    (got : getOid pool input = (b, pool')) : b.Holds := by
  rw [getOid] at got
  split at got
  · cases got
    trivial
  split at got
  · cases got
    exact ⟨Nat.zero_le _, fun positive => absurd rfl positive, by simp⟩
  split at got
  · cases got
    trivial
  · rename_i ids
    cases got
    have := length_getIds ids
    simp only [length_cons] at addressable
    rw [Holds, BitVec.toNat_ofNat]
    refine ⟨Nat.mod_le .., fun _ => ?_, ?_⟩
    · simp
    · simp only [length_cons]
      omega

theorem holds_getNode {kind : AsnKind}
    {sequences : MemPool → AsnConstructed → Block → List UChar → Asn × MemPool}
    (addressable : input.length + 1 < 2 ^ 32)
    (sequences_hold : ∀ {pool type block b pool'},
      sequences pool type block input = (b, pool') → b.Holds)
    (got : getNode sequences pool input kind = (b, pool')) : b.Holds := by
  cases kind with
  | unknown | null =>
    cases got
    trivial
  | exception type =>
    rw [getNode, makeException] at got
    split at got <;> cases got <;> trivial
  | integer => exact holds_getInt got
  | unsigned type =>
    rw [getNode] at got
    split at got
    · cases got
      trivial
    · exact holds_getUint got
  | string type => exact holds_getString got
  | oid => exact holds_getOid addressable got
  | constructed type =>
    rw [getNode] at got
    split at got
    · cases got
      trivial
    · exact sequences_hold got

theorem putAt_length {arr : List Asn} {count : UShort} (within : count.toNat ≤ arr.length) :
    (count + 1).toNat ≤ (putAt arr count b).length := by
  have step : (count + 1).toNat ≤ count.toNat + 1 := by
    rw [BitVec.toNat_add]
    exact Nat.mod_le ..
  rw [putAt]
  split
  · rw [length_set]
    omega
  · rw [length_append, length_singleton]
    omega

theorem mem_putAt {arr : List Asn} {count : UShort} {e : Asn} (member : e ∈ putAt arr count b) :
    e = b ∨ e ∈ arr := by
  rw [putAt] at member
  split at member
  · exact (mem_or_eq_of_mem_set member).symm
  · simpa [or_comm] using member

theorem length_parseWith {turns : Nat} {rest : List UChar}
    (parsed : parseWith turns pool input = (some (b, rest), pool')) :
    rest.length < input.length := by
  cases turns with
  | zero => cases parsed
  | succ turns =>
    cases input with
    | nil => cases parsed
    | cons type input =>
      rw [parseWith] at parsed
      split at parsed
      · cases parsed
      split at parsed
      · cases parsed
      split at parsed
      · cases parsed
      · rename_i length _ _ _ _ _ _
        cases parsed
        have := length_getLength length
        rw [length_drop, length_cons]
        omega

theorem holds_parse (turns : Nat) :
    (∀ {pool input b rest pool'}, input.length < 2 ^ 32 →
      parseWith turns pool input = (some (b, rest), pool') → b.Holds) ∧
    ∀ {pool type block count nelem arr input b pool'}, input.length < 2 ^ 32 →
      count.toNat ≤ arr.length → AllHold arr →
      getSequence turns pool type block count nelem arr input = (b, pool') → b.Holds := by
  induction turns with
  | zero =>
    constructor
    · intro pool input b rest pool' addressable parsed
      cases parsed
    · intro pool type block count nelem arr input b pool' addressable within held got
      cases input with
      | nil =>
        cases got
        exact ⟨within, held⟩
      | cons byte input =>
        cases got
        trivial
  | succ turns ih =>
    obtain ⟨parsed_holds, sequence_holds⟩ := ih
    constructor
    · intro pool input b rest pool' addressable parsed
      cases input with
      | nil => cases parsed
      | cons type input =>
        rw [parseWith] at parsed
        split at parsed
        · cases parsed
        split at parsed
        · cases parsed
        split at parsed
        · cases parsed
        · rename_i length _ _ _ _ _ got
          cases parsed
          have := length_getLength length
          rw [length_cons] at addressable
          refine holds_getNode (by rw [length_take]; omega) ?_ got
          intro pool type block b pool'
          exact sequence_holds (by rw [length_take]; omega) (Nat.zero_le 0) trivial
    · intro pool type block count nelem arr input b pool' addressable within held got
      cases input with
      | nil =>
        cases got
        exact ⟨within, held⟩
      | cons byte input =>
        rw [getSequence] at got
        split at got
        · cases got
          trivial
        split at got
        · cases got
          trivial
        · rename_i parsed
          have shorter := length_parseWith parsed
          refine sequence_holds (shorter.trans addressable) (putAt_length within) ?_ got
          rw [allHold_iff] at held ⊢
          intro e member
          rcases mem_putAt member with rfl | old
          · exact parsed_holds addressable parsed
          · exact held e old

/-- A part of the encoder reads nothing outside of the tree if the tree is fine, and does it in a
large buffer if the tree is not. -/
structure Settled (part : Nat → Encoding) (fine : Prop) : Prop where
  safe : fine → ∀ sz, part sz ≠ .error .outside
  ends : ∃ enough result, (∀ sz, enough ≤ sz → part sz = result) ∧ result ≠ .error .overflow ∧
    (¬fine → result = .error .outside)

section Settled

variable {part : Nat → Encoding} {next : List UChar → Nat → Encoding} {fine also : Prop}
  {contents : List UChar} {type : UChar}

theorem settled_put : Settled (Encoding.put contents) True := by
  refine ⟨fun _ sz => ?_, contents.length, .ok contents, fun sz enough => ?_, by simp, by simp⟩
  · rw [Encoding.put]
    split <;> simp
  · rw [Encoding.put, if_neg (by omega)]

theorem Settled.congr {part' : Nat → Encoding} (settled : Settled part fine)
    (same : ∀ sz, part' sz = part sz) (iff : fine ↔ also) : Settled part' also := by
  obtain rfl : part' = part := funext same
  rwa [← propext iff]

theorem Settled.shrink (settled : Settled part fine) (used : Nat) :
    Settled (fun sz => part (sz - used)) fine := by
  obtain ⟨safe, enough, result, ends, finished⟩ := settled
  exact ⟨fun holds sz => safe holds _, enough + used, result,
    fun sz large => ends _ (by omega), finished⟩

theorem Settled.bind (settled : Settled part fine)
    (then_settled : fine → ∀ bytes, Settled (next bytes) also) :
    Settled (fun sz => part sz >>= fun bytes => next bytes sz) (fine ∧ also) := by
  obtain ⟨safe, enough, result, ends, finished, fails⟩ := settled
  constructor
  · rintro ⟨holds, holds'⟩ sz
    cases written : part sz with
    | error failure =>
      have harmless := safe holds sz
      rw [written] at harmless
      exact harmless
    | ok bytes => exact (then_settled holds bytes).safe holds' sz
  · rcases Classical.em fine with holds | wrong
    · cases result with
      | error failure =>
        have harmless := safe holds enough
        rw [ends enough le_rfl] at harmless
        cases failure <;> contradiction
      | ok bytes =>
        obtain ⟨-, enough', result', ends', finished', fails'⟩ := then_settled holds bytes
        refine ⟨enough + enough', result', fun sz large => ?_, finished', fun wrong => ?_⟩
        · rw [ends sz (by omega)]
          exact ends' sz (by omega)
        · exact fails' fun holds' => wrong ⟨holds, holds'⟩
    · refine ⟨enough, .error .outside, fun sz large => ?_, by simp, fun _ => rfl⟩
      rw [ends sz large, fails wrong]
      rfl

theorem Settled.guard (used : Nat) (settled : Settled part fine) :
    Settled (fun sz => if sz < used then .error .overflow else part sz) fine := by
  obtain ⟨safe, enough, result, ends, finished⟩ := settled
  refine ⟨fun holds sz => ?_, enough + used, result, fun sz large => ?_, finished⟩
  · split
    · simp
    · exact safe holds sz
  · rw [if_neg (by omega)]
    exact ends sz (by omega)

theorem settled_ok (contents : List UChar) : Settled (fun _ => .ok contents) True :=
  ⟨by simp, 0, _, fun _ _ => rfl, by simp, by simp⟩

theorem Settled.ite {part' : Nat → Encoding} (condition : Prop) [Decidable condition]
    (settled : Settled part fine) (settled' : Settled part' fine) :
    Settled (fun sz => if condition then part sz else part' sz) fine := by
  rcases Decidable.em condition with holds | fails
  · exact settled.congr (fun sz => if_pos holds) .rfl
  · exact settled'.congr (fun sz => if_neg fails) .rfl

theorem settled_putLength (val : Nat) : Settled (putLength val) True := by
  rw [funext (putLength.eq_1 val)]
  apply Settled.ite _ settled_put
  apply Settled.ite _ settled_put
  apply Settled.ite _ settled_put
  apply Settled.ite _ settled_put
  exact settled_put

theorem settled_putInt (val : ULong) : Settled (putInt val) True := by
  rw [funext (putInt.eq_1 val)]
  apply Settled.ite _ settled_put
  apply Settled.ite _ settled_put
  apply Settled.ite _ settled_put
  exact settled_put

theorem settled_putUint (val : ULong) (type : AsnUnsigned) :
    Settled (fun sz => putUint val sz type) True := by
  rw [funext fun sz => putUint.eq_1 val sz type]
  apply Settled.ite _ settled_put
  apply Settled.ite _ settled_put
  apply Settled.ite _ settled_put
  exact settled_put

theorem settled_putHeader (type : UChar) (contents : List UChar) :
    Settled (putHeader type contents) True := by
  have length_settled := (settled_putLength contents.length).shrink contents.length
  refine (length_settled.bind (fun _ length =>
    (settled_ok (type :: length ++ contents)).guard
      (contents.length + length.length + 1))).congr (fun sz => ?_) and_self_iff
  apply bind_congr
  intro length
  exact if_congr (by omega) rfl rfl

variable {len : UShort} {id : List UShort}

theorem settled_putString {str : List UChar} (holds : len.toNat ≤ str.length) :
    Settled (putString len str) True := by
  have header_settled := settled_putHeader AsnText.string.type (str.take len.toNat)
  refine (header_settled.guard len.toNat).congr (fun sz => ?_) .rfl
  rw [putString, if_neg (not_lt.mpr holds)]
  rfl

theorem settled_putGroups (turns val : Nat) : Settled (putGroups turns val) True := by
  induction turns generalizing val with
  | zero => exact settled_ok []
  | succ turns ih =>
    have front_settled := (ih (val >>> 7)).shrink 1
    have groups_settled := (front_settled.bind (fun _ front =>
      settled_ok (front ++ [0x80 ||| .ofNat 8 (val >>> 7 &&& 0x7f)]))).guard 1
    refine (Settled.ite (val < 0x80) (settled_ok [])
      (groups_settled.congr (fun sz => rfl) and_self_iff)).congr (fun sz => rfl) .rfl

theorem settled_putId1 (val : UShort) : Settled (putId1 val) True := by
  have front_settled := (settled_putGroups 5 val.toNat).shrink 1
  refine ((front_settled.bind (fun _ front =>
    settled_ok (front ++ [.ofNat 8 (val.toNat &&& 0x7f)]))).guard 1).congr
      (fun sz => rfl) and_self_iff

theorem settled_putIds {i : Nat} (holds : i < id.length ∨ i < 2) :
    Settled (putIds id i) True := by
  induction i using Nat.twoStepInduction with
  | zero | one => exact settled_ok []
  | more i _ ih =>
    have inside : i + 2 < id.length := by omega
    have front_settled := fun last : List UChar => (ih (by omega)).shrink last.length
    refine ((settled_putId1 id[i + 2]).bind fun _ last => (front_settled last).bind fun _ front =>
      settled_ok (front ++ last)).congr (fun sz => ?_) (by simp)
    rw [putIds, List.getElem?_eq_getElem inside]
    rfl

theorem putIds_outside {i sz : Nat} (outside : id.length ≤ i) (large : 2 ≤ i) :
    putIds id i sz = .error .outside := by
  obtain ⟨i, rfl⟩ := Nat.exists_eq_add_of_le' large
  rw [putIds, List.getElem?_eq_none outside]

theorem toNat_pos (positive : len ≠ 0) : 0 < len.toNat := by
  rw [Nat.pos_iff_ne_zero]
  intro zero
  exact positive (BitVec.eq_of_toNat_eq zero)

theorem settled_putOid (holds : len.toNat ≤ id.length) (two : len ≠ 0 → 2 ≤ id.length)
    (addressable : id.length < 2 ^ 32) :
    Settled (putOid len id) (len ≠ 0) := by
  rcases eq_or_ne len 0 with rfl | positive
  · have fails : ∀ sz, putOid 0 id sz = .error .outside := by
      intro sz
      rw [putOid, putIds_outside (by simp; omega) (by simp)]
      rfl
    refine ⟨fun wrong => absurd rfl wrong, 0, _, fun sz _ => fails sz, by simp, fun _ => rfl⟩
  · have index : (len.setWidth 32 - 1 : BitVec 32).toNat = len.toNat - 1 := by
      have := toNat_pos positive
      bv_omega
    match id, two positive with
    | first :: second :: id, _ =>
      have ids_settled : Settled (putIds (first :: second :: id) (len.toNat - 1)) True := by
        apply settled_putIds
        have := toNat_pos positive
        omega
      have header_settled := fun ids => settled_putHeader asnOid
        (.ofNat 8 (first.toNat * 40 + second.toNat) :: ids)
      refine (ids_settled.bind fun _ ids => (header_settled ids).guard (ids.length + 1)).congr
        (fun sz => ?_) (by simpa using positive)
      rw [putOid, index]
      apply bind_congr
      intro ids
      exact if_congr (by omega) rfl rfl

end Settled

mutual

theorem settled_encode : ∀ t : Asn, t.Holds → Settled t.encode t.Named
  | nil, _ | null, _ | exception _ _, _ => settled_put
  | integer _ val, _ => settled_putInt val
  | unsigned _ type val, _ => settled_putUint val type
  | string _ _ _ _, holds => settled_putString holds
  | oid _ _ _, holds => settled_putOid holds.1 holds.2.1 holds.2.2
  | seq _ type count arr, holds => by
    have arr_settled := settled_putArr count.toNat arr holds.1 holds.2
    exact (arr_settled.bind fun _ contents => settled_putHeader type.1 contents).congr
      (fun sz => rfl) (by rw [and_true, Named])

theorem settled_putArr : ∀ (n : Nat) (arr : List Asn), n ≤ arr.length → AllHold arr →
    Settled (putArr n arr) (AllNamed n arr)
  | 0, _, _, _ => by
    rw [AllNamed]
    exact (settled_ok []).congr (fun sz => by rw [putArr]) .rfl
  | n + 1, e :: arr, within, holds => by
    have back_settled := settled_putArr n arr (Nat.le_of_succ_le_succ within) holds.2
    have front_settled := fun back : List UChar =>
      (settled_encode e holds.1).shrink back.length
    refine (back_settled.bind fun _ back => (front_settled back).bind fun _ front =>
      settled_ok (front ++ back)).congr (fun sz => rfl) ?_
    rw [AllNamed]
    tauto

end

/-- A tree that `asn_parse` accepts is encoded without a read outside of it, into any buffer and
inside of that buffer, if and only if no object identifier of it is empty. -/
theorem encode_parsed_iff {t : Asn} {rest : List UChar} (addressable : input.length < 2 ^ 32)
    (parsed : parse pool input = (some (t, rest), pool')) :
    (∀ sz, t.encode sz ≠ .error .outside ∧
      ∀ bytes, t.encode sz = .ok bytes → bytes.length ≤ sz) ↔ t.Named := by
  obtain ⟨safe, enough, result, ends, -, fails⟩ :=
    settled_encode t ((holds_parse _).1 addressable parsed)
  constructor
  · intro fine
    rcases Classical.em t.Named with named | unnamed
    · exact named
    · have wrong := (fine enough).1
      rw [ends enough le_rfl, fails unnamed] at wrong
      contradiction
  · intro named sz
    exact ⟨safe named sz, fun bytes written => (length_encode t written).1⟩

theorem encode_parsed_binding :
    let t := seq 0 sequence 2 [oid 1 2 [1, 3], null]
    ∀ sz, t.encode sz ≠ .error .outside ∧
      ∀ bytes, t.encode sz = .ok bytes → bytes.length ≤ sz :=
  (@encode_parsed_iff plenty (parse plenty [0x30, 5, asnOid, 1, 43, asnNull, 0]).2
    [0x30, 5, asnOid, 1, 43, asnNull, 0] (seq 0 sequence 2 [oid 1 2 [1, 3], null]) []
    (by decide) rfl).mpr ⟨show (2 : UShort) ≠ 0 by decide, trivial, trivial⟩

/-- The identifier without components is accepted, and the encoder reads outside of it. -/
theorem encode_emptyOid : ∃ pool' t, parse plenty [asnOid, 0] = (some (t, []), pool') ∧
    t.encode 100 = .error .outside :=
  ⟨_, oid 0 0 [], rfl, by decide +kernel⟩

end Asn
end Uos
