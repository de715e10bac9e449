import Uos.Library.BigEndian
import Uos.Snmp.Asn

/-!
# Encoding

`asn_encode` and the functions that it calls.  They fill a buffer from its end; the result of each
is the list of the bytes that it writes in front of a pointer.
-/

namespace Uos

/-- Why there are no bytes. -/
inductive AsnFailure
  /-- The buffer is too small: a null pointer is returned. -/
  | overflow
  /-- Something outside of the tree is read. -/
  | outside
  deriving DecidableEq

abbrev Encoding := Except AsnFailure (List UChar)

def Encoding.put (bytes : List UChar) (sz : Nat) : Encoding :=
  if sz < bytes.length then .error .overflow else .ok bytes

namespace Asn

/-- `asn_put_int` -/
def putInt (val : ULong) (sz : Nat) : Encoding :=
  let put (n : Nat) := Encoding.put (asnInteger :: .ofNat 8 n :: lowBytes val.toNat n) sz
  if val.toInt < 0x80 ∧ -0x80 ≤ val.toInt then put 1
  else if val.toInt < 0x8000 ∧ -0x8000 ≤ val.toInt then put 2
  else if val.toInt < 0x800000 ∧ -0x800000 ≤ val.toInt then put 3
  else put 4

/-- `asn_put_uint` -/
def putUint (val : ULong) (sz : Nat) (type : AsnUnsigned) : Encoding :=
  let put (n : Nat) := Encoding.put (type.type :: .ofNat 8 n :: lowBytes val.toNat n) sz
  if type = .ipAddress ∨ 0x7FFFFF < val.toNat then put 4
  else if val.toNat ≤ 0x7F then put 1
  else if val.toNat ≤ 0x7FFF then put 2
  else put 3

/-- `asn_put_length` -/
def putLength (val sz : Nat) : Encoding :=
  if val < 0x80 then Encoding.put (lowBytes val 1) sz
  else if val < 0x100 then Encoding.put (0x81 :: lowBytes val 1) sz
  else if val < 0x10000 then Encoding.put (0x82 :: lowBytes val 2) sz
  else if val < 0x1000000 then Encoding.put (0x83 :: lowBytes val 3) sz
  else Encoding.put (0x84 :: lowBytes val 4) sz

def putHeader (type : UChar) (contents : List UChar) (sz : Nat) : Encoding := do
  let length ← putLength contents.length (sz - contents.length)
  if sz - contents.length - length.length < 1 then
    throw .overflow
  return type :: length ++ contents

/-- `asn_put_string`; a string of any type gets the type `ASN_STRING`. -/
def putString (len : UShort) (str : List UChar) (sz : Nat) : Encoding := do
  if sz < len.toNat then
    throw .overflow
  if str.length < len.toNat then
    throw .outside
  putHeader AsnText.string.type (str.take len.toNat) sz

/-- The loop of `asn_put_id1`: the groups of seven bits in front of the last one.  An
`unsigned long` has at most five groups. -/
def putGroups : Nat → Nat → Nat → Encoding
  | 0, _, _ => .ok []
  | turns + 1, val, sz =>
    if val < 0x80 then .ok []
    else if sz < 1 then .error .overflow
    else do
      let val := val >>> 7
      let front ← putGroups turns val (sz - 1)
      return front ++ [0x80 ||| .ofNat 8 (val &&& 0x7f)]

/-- `asn_put_id1` -/
def putId1 (val : UShort) (sz : Nat) : Encoding := do
  if sz < 1 then
    throw .overflow
  let front ← putGroups 5 val.toNat (sz - 1)
  return front ++ [.ofNat 8 (val.toNat &&& 0x7f)]

/-- The loop of `asn_put_oid` from the component with this index down to the third one. -/
def putIds (id : List UShort) : Nat → Nat → Encoding
  | 0, _ | 1, _ => .ok []
  | i + 2, sz =>
    match id[i + 2]? with
    | none => .error .outside
    | some val => do
      let last ← putId1 val sz
      let front ← putIds id (i + 1) (sz - last.length)
      return front ++ last

/-- `asn_put_oid`; its loop begins at the index `len - 1`, an `unsigned`. -/
def putOid (len : UShort) (id : List UShort) (sz : Nat) : Encoding := do
  let ids ← putIds id (len.setWidth 32 - 1 : BitVec 32).toNat sz
  if sz - ids.length < 1 then
    throw .overflow
  match id with
  | first :: second :: _ =>
    let contents := .ofNat 8 (first.toNat * 40 + second.toNat) :: ids
    putHeader asnOid contents sz
  | _ => throw .outside

mutual

/-- `asn_encode` -/
def encode : Asn → Nat → Encoding
  | nil, sz | null, sz => Encoding.put [asnNull, 0] sz
  | exception _ type, sz => Encoding.put [type.type, 0] sz
  | integer _ val, sz => putInt val sz
  | unsigned _ type val, sz => putUint val sz type
  | string _ _ len str, sz => putString len str sz
  | oid _ len id, sz => putOid len id sz
  | seq _ type count arr, sz => do
    let contents ← putArr count.toNat arr sz
    putHeader type.1 contents sz

/-- The loop of `asn_put_sequence`, from the last node to the first. -/
def putArr : Nat → List Asn → Nat → Encoding
  | 0, _, _ => .ok []
  | _ + 1, [], _ => .error .outside
  | n + 1, e :: arr, sz => do
    let back ← putArr n arr sz
    let front ← e.encode (sz - back.length)
    return front ++ back

end

variable {type : UChar} {contents bytes : List UChar} {sz : Nat}

theorem put_eq_ok (written : Encoding.put contents sz = .ok bytes) :
    bytes = contents ∧ bytes.length ≤ sz := by
  rw [Encoding.put] at written
  split at written
  · contradiction
  · cases written
    exact ⟨rfl, by omega⟩

theorem bind_eq_ok {α β : Type} {first : Except AsnFailure α} {next : α → Except AsnFailure β}
    {result : β} (done : (first >>= next) = .ok result) :
    ∃ value, first = .ok value ∧ next value = .ok result := by
  cases first with
  | error failure => contradiction
  | ok value => exact ⟨value, rfl, done⟩

theorem length_putLength {val : Nat} (written : putLength val sz = .ok bytes) :
    bytes.length ≤ sz ∧ 0 < bytes.length := by
  rw [putLength] at written
  repeat' split at written
  all_goals
    obtain ⟨rfl, fits⟩ := put_eq_ok written
    exact ⟨fits, Nat.succ_pos _⟩

theorem length_putHeader (written : putHeader type contents sz = .ok bytes) :
    bytes.length ≤ sz ∧ contents.length + 2 ≤ bytes.length := by
  obtain ⟨length, puts, written⟩ := bind_eq_ok written
  have fits := length_putLength puts
  simp only [throw, throwThe, MonadExceptOf.throw] at written
  split at written
  · contradiction
  · cases written
    simp only [List.cons_append, List.length_cons, List.length_append]
    omega

theorem length_putInt {val : ULong} (written : putInt val sz = .ok bytes) :
    bytes.length ≤ sz ∧ 2 ≤ bytes.length := by
  rw [putInt] at written
  dsimp only at written
  repeat' split at written
  all_goals
    obtain ⟨rfl, fits⟩ := put_eq_ok written
    exact ⟨fits, by simp⟩

theorem length_putUint {val : ULong} {type : AsnUnsigned}
    (written : putUint val sz type = .ok bytes) : bytes.length ≤ sz ∧ 2 ≤ bytes.length := by
  rw [putUint] at written
  dsimp only at written
  repeat' split at written
  all_goals
    obtain ⟨rfl, fits⟩ := put_eq_ok written
    exact ⟨fits, by simp⟩

mutual

theorem length_encode : ∀ (t : Asn) {sz : Nat} {bytes : List UChar},
    t.encode sz = .ok bytes → bytes.length ≤ sz ∧ 2 ≤ bytes.length
  | nil, _, _, written | null, _, _, written | exception _ _, _, _, written => by
    obtain ⟨rfl, fits⟩ := put_eq_ok written
    exact ⟨fits, by simp⟩
  | integer _ _, _, _, written => length_putInt written
  | unsigned _ _ _, _, _, written => length_putUint written
  | string _ _ len str, sz, _, written => by
    simp only [encode, putString, bind, Except.bind, throw, throwThe,
      MonadExceptOf.throw] at written
    split at written
    · contradiction
    split at written
    · contradiction
    · have header := length_putHeader written
      omega
  | oid _ len id, sz, _, written => by
    rw [encode, putOid] at written
    obtain ⟨ids, -, written⟩ := bind_eq_ok written
    simp only [throw, throwThe, MonadExceptOf.throw] at written
    split at written
    · contradiction
    · cases id with
      | nil => contradiction
      | cons first id =>
        cases id with
        | nil => contradiction
        | cons second id =>
          have header := length_putHeader written
          omega
  | seq _ type count arr, sz, _, written => by
    rw [encode] at written
    obtain ⟨contents, -, written⟩ := bind_eq_ok written
    have header := length_putHeader written
    omega

theorem length_putArr : ∀ (n : Nat) (arr : List Asn) {sz : Nat} {bytes : List UChar},
    putArr n arr sz = .ok bytes → bytes.length ≤ sz
  | 0, _, _, _, written => by
    rw [putArr] at written
    cases written
    exact Nat.zero_le _
  | _ + 1, [], _, _, written => by contradiction
  | n + 1, e :: arr, sz, _, written => by
    rw [putArr] at written
    obtain ⟨back, puts, written⟩ := bind_eq_ok written
    obtain ⟨front, puts', done⟩ := bind_eq_ok written
    cases done
    have fits := length_putArr n arr puts
    have fits' := (length_encode e puts').1
    rw [List.length_append]
    omega

end

end Asn
end Uos
